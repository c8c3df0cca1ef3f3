import QustomKeyboard.Screenshot.Bitmap

/-!
# The bounds of the bitmap decoder

`decodeBMP` checks the size of the file, but in arithmetic of 32 bits, and with
a height that may be negative: the end of the pixels, the size of the image and
the positions of the pixels wrap each in its own way.

It stays within the file and the image iff it turns the file down, or has no
pixel to copy, or the image has less than 2³² bytes and the last byte that is
read of the file is there (`decodeBMP_ok_iff`). A bitmap stored from the top,
the height of which is negative, never fits (`not_inBounds_of_neg`).
-/

namespace QustomKeyboard

open Theory

/-- One of the checks of `decodeBMP` turns the file down. -/
def TurnedDown (bmp : List UInt8) : Prop :=
  bmp.length < minHeader ∨
    (headerByte bmp 0 ≠ 'B'.toUInt8 ∨ headerByte bmp 1 ≠ 'M'.toUInt8) ∨
    (headerByte bmp 28 ≠ 24 ∧ headerByte bmp 28 ≠ 32) ∨ bmp.length < (bmpDataEnd bmp).toNat

/-- The last byte of the pixels below 2³², of a bitmap of `h` lines of `w` pixels
    of `c` bytes starting at `off`: the padding of its line is not a part of it. -/
def lastByte (off w h c : ℕ) : ℕ :=
  let line := scanline w c
  let top := min (2 ^ 32 - 1) (off + (h - 1) * line + (c * w - 1)) - off
  off + top / line * line + min (top % line) (c * w - 1)

/-- The pixels of the file `bmp` fit in the image and in the file. -/
def InBounds (bmp : List UInt8) : Prop :=
  let w := (bmpWidth bmp).toNat
  let h := (bmpHeight bmp).toNat
  w = 0 ∨ h = 0 ∨
    4 * w * h < 2 ^ 32 ∧ lastByte (bmpOffset bmp).toNat w h (bmpChannels bmp).toNat < bmp.length

/-! ## What is accessed -/

/-- The accesses for the pixel `x` of the line `y` are in range. -/
def PixelInRange (bmp : List UInt8) (off w h c : UInt32) (n y x : ℕ) : Prop :=
  (∀ j < c.toNat, (bmpPosition off w h c y x + .ofNat j).toNat < bmp.length) ∧
    ∀ k < 4, (imagePosition w y x + .ofNat k).toNat < n

/-- Three bytes are loaded and stored, one by one, and the alpha value is after that. -/
theorem copyPixel_ok_iff_of_alpha {bmp image : List UInt8} {c bmpos newpos : UInt32} {P : Prop}
    (halpha : ∀ im : List UInt8, im.length = image.length →
      ((∃ t, (if c = 3 then storeAt im (newpos + 3).toNat 255
        else (loadAt bmp (bmpos + 3).toNat).bind (storeAt im (newpos + 3).toNat)) = .ok t) ↔ P)) :
    (∃ t, copyPixel bmp c bmpos newpos image = .ok t) ↔
      (bmpos + 2).toNat < bmp.length ∧ (newpos + 0).toNat < image.length ∧
      (bmpos + 1).toNat < bmp.length ∧ (newpos + 1).toNat < image.length ∧
      (bmpos + 0).toNat < bmp.length ∧ (newpos + 2).toNat < image.length ∧ P := by
  have hstore {im : List UInt8} (him : im.length = image.length) {i : ℕ} {a : UInt8} :
      (∃ t, storeAt im i a = .ok t) ↔ i < image.length := him ▸ exists_storeAt_iff
  exact exists_bind_iff exists_loadAt_iff fun _ _ =>
    exists_bind_iff (hstore rfl) fun _ h₁ =>
    exists_bind_iff exists_loadAt_iff fun _ _ =>
    exists_bind_iff (hstore (length_of_storeAt h₁)) fun _ h₂ =>
    exists_bind_iff exists_loadAt_iff fun _ _ =>
    exists_bind_iff (hstore ((length_of_storeAt h₂).trans (length_of_storeAt h₁))) fun im h₃ =>
    halpha im ((length_of_storeAt h₃).trans ((length_of_storeAt h₂).trans (length_of_storeAt h₁)))

/-- A pixel is copied iff what it accesses is in range. -/
theorem copyPixel_ok_iff {bmp image : List UInt8} {c : UInt32} (hc : c = 3 ∨ c = 4)
    (bmpos newpos : UInt32) :
    (∃ t, copyPixel bmp c bmpos newpos image = .ok t) ↔
      (∀ j < c.toNat, (bmpos + .ofNat j).toNat < bmp.length) ∧
        ∀ k < 4, (newpos + .ofNat k).toNat < image.length := by
  have hstore {im : List UInt8} (him : im.length = image.length) {i : ℕ} {a : UInt8} :
      (∃ t, storeAt im i a = .ok t) ↔ i < image.length := him ▸ exists_storeAt_iff
  have hall₃ (p : ℕ → Prop) : (∀ j < 3, p j) ↔ p 0 ∧ p 1 ∧ p 2 :=
    ⟨fun h => ⟨h 0 (by decide), h 1 (by decide), h 2 (by decide)⟩, fun h j hj =>
      match j, hj with
      | 0, _ => h.1
      | 1, _ => h.2.1
      | 2, _ => h.2.2⟩
  have hall₄ (p : ℕ → Prop) : (∀ j < 4, p j) ↔ p 0 ∧ p 1 ∧ p 2 ∧ p 3 := by
    rw [← and_assoc, ← and_assoc, and_assoc (a := p 0), ← hall₃]
    exact Nat.forall_lt_succ_right
  obtain rfl | rfl := hc
  · -- Without an alpha value, that of the image is set.
    rw [copyPixel_ok_iff_of_alpha fun im him => by rw [if_pos rfl]; exact hstore him]
    change _ ↔ (∀ j < 3, _) ∧ _
    rw [hall₃, hall₄]
    change _ ↔ ((bmpos + 0).toNat < _ ∧ (bmpos + 1).toNat < _ ∧ (bmpos + 2).toNat < _) ∧
      (newpos + 0).toNat < _ ∧ (newpos + 1).toNat < _ ∧ (newpos + 2).toNat < _ ∧
      (newpos + 3).toNat < _
    tauto
  · rw [copyPixel_ok_iff_of_alpha fun im him => by
      rw [if_neg (by decide)]
      exact exists_bind_iff exists_loadAt_iff fun _ _ => hstore him]
    change _ ↔ (∀ j < 4, _) ∧ _
    rw [hall₄, hall₄]
    change _ ↔ ((bmpos + 0).toNat < _ ∧ (bmpos + 1).toNat < _ ∧ (bmpos + 2).toNat < _ ∧
      (bmpos + 3).toNat < _) ∧
      (newpos + 0).toNat < _ ∧ (newpos + 1).toNat < _ ∧ (newpos + 2).toNat < _ ∧
      (newpos + 3).toNat < _
    tauto

theorem length_of_copyPixel {bmp image image' : List UInt8} {c bmpos newpos : UInt32}
    (h : copyPixel bmp c bmpos newpos image = .ok image') : image'.length = image.length := by
  obtain ⟨_, -, h⟩ := exists_of_bind h
  obtain ⟨_, h₁, h⟩ := exists_of_bind h
  obtain ⟨_, -, h⟩ := exists_of_bind h
  obtain ⟨_, h₂, h⟩ := exists_of_bind h
  obtain ⟨_, -, h⟩ := exists_of_bind h
  obtain ⟨_, h₃, h⟩ := exists_of_bind h
  rw [← length_of_storeAt h₁, ← length_of_storeAt h₂, ← length_of_storeAt h₃]
  split at h
  · exact length_of_storeAt h
  · obtain ⟨_, -, h⟩ := exists_of_bind h
    exact length_of_storeAt h

section

variable {bmp image : List UInt8} {off w h c : UInt32} {n : ℕ}

/-- A line is copied iff what its pixels access is in range. -/
theorem copyLine_ok_iff (hc : c = 3 ∨ c = 4) (himage : image.length = n) (y m : ℕ) :
    (∃ t, copyLine bmp off w h c y m image = .ok t) ↔
      ∀ x < m, PixelInRange bmp off w h c n y x := by
  have hline := forLoop_ok_iff (I := fun im : List UInt8 => im.length = n) (n := m) (i := 0)
    (P := PixelInRange bmp off w h c n y)
    (fun x s t hs (ht : copyPixel bmp c (bmpPosition off w h c y x) (imagePosition w y x) s = _) =>
      (length_of_copyPixel ht).trans hs)
    (fun x s hs => by rw [copyPixel_ok_iff hc, hs, PixelInRange]) himage
  simp only [Nat.zero_add] at hline
  exact hline

/-- All the pixels are copied iff what they access is in range. -/
theorem copyPixels_ok_iff (hc : c = 3 ∨ c = 4) (himage : image.length = n) :
    (∃ t, copyPixels bmp off w h c image = .ok t) ↔
      ∀ y < h.toNat, ∀ x < w.toNat, PixelInRange bmp off w h c n y x := by
  have hlines := forLoop_ok_iff (I := fun im : List UInt8 => im.length = n) (n := h.toNat) (i := 0)
    (P := fun y => ∀ x < w.toNat, PixelInRange bmp off w h c n y x)
    (fun y s t hs (ht : copyLine bmp off w h c y w.toNat s = _) =>
      forLoop_preserves (I := fun im : List UInt8 => im.length = n)
        (fun x s t hs ht => (length_of_copyPixel ht).trans hs) hs ht)
    (fun y s hs => copyLine_ok_iff hc hs y w.toNat) himage
  simp only [Nat.zero_add] at hlines
  exact hlines

end

/-! ## Which positions are in range -/

/-- Some byte of the pixels is written behind the image, unless it has less than
    2³² bytes: its size is then what is left of a larger number. -/
theorem imagePosition_lt_iff {w h : UInt32} (hw : 0 < w.toNat) :
    (∀ y < h.toNat, ∀ x < w.toNat, ∀ k < 4,
      (imagePosition w y x + .ofNat k).toNat < (w * h * 4).toNat) ↔
      4 * w.toNat * h.toNat < 2 ^ 32 := by
  have hpos (y x k : ℕ) : (imagePosition w y x + .ofNat k).toNat =
      (4 * (y * w.toNat + x) + k) % 2 ^ 32 := by
    rw [UInt32.toNat_add, toNat_imagePosition, UInt32.toNat_ofNat', Nat.add_mod_mod,
      Nat.mod_add_mod]
  simp only [hpos, toNat_imageSize]
  constructor
  · intro hall
    by_contra hge
    -- The number of pixels that fit: this one is written at the end of the image.
    obtain ⟨i, hi⟩ : ∃ i, 4 * w.toNat * h.toNat % 2 ^ 32 = 4 * i :=
      ⟨w.toNat * h.toNat % 2 ^ 30, by rw [Nat.mul_assoc]; omega⟩
    have hlt : i < h.toNat * w.toNat := by
      rw [Nat.mul_assoc, Nat.mul_comm w.toNat] at hge hi
      omega
    have := hall (i / w.toNat) (Nat.div_lt_of_lt_mul (by rwa [Nat.mul_comm])) (i % w.toNat)
      (Nat.mod_lt _ hw) 0 (by omega)
    rw [Nat.mul_comm _ w.toNat, Nat.div_add_mod, hi] at this
    omega
  · intro hlt y hy x hx k hk
    have hlines := Nat.mul_le_mul_right w.toNat (Nat.succ_le_of_lt hy)
    rw [Nat.succ_mul, Nat.mul_comm h.toNat] at hlines
    rw [Nat.mod_eq_of_lt hlt, Nat.mod_eq_of_lt (by rw [Nat.mul_assoc] at hlt; omega), Nat.mul_assoc]
    omega

/-- The pixels of a line stand within it, and a line has four bytes for a pixel at most. -/
theorem scanline_bounds {w c : ℕ} (hc : c ≤ 4) : c * w ≤ scanline w c ∧ scanline w c ≤ 4 * w := by
  have := Nat.mul_le_mul_left w hc
  rw [scanline, Nat.mul_comm c]
  omega

/-- Where only the first `k` bytes of each line count, those up to a place are those up to the
    last one that counts. -/
theorem add_le_of_line {line k q m r t : ℕ} (ht : t < k) (hk : k ≤ line) (hm : m < line)
    (h : r * line + t ≤ q * line + m) : r * line + t ≤ q * line + min m (k - 1) := by
  rcases Nat.lt_trichotomy r q with hrq | rfl | hrq
  · have := Nat.mul_le_mul_right line (Nat.succ_le_of_lt hrq)
    rw [Nat.succ_mul] at this
    omega
  · omega
  · have := Nat.mul_le_mul_right line (Nat.succ_le_of_lt hrq)
    rw [Nat.succ_mul] at this
    omega

/-- All the bytes read of the bitmap are in range iff the last one below 2³² is: those
    that wrap stand at its front. -/
theorem lastByte_lt_iff {off w h c n : ℕ} (hoff : off < 2 ^ 16) (hw : 0 < w) (hw' : w < 2 ^ 16)
    (hh : 0 < h) (hc : 0 < c) (hc' : c ≤ 4) (himage : 4 * w * h < 2 ^ 32) :
    (∀ y < h, ∀ x < w, ∀ j < c,
      (off + (h - 1 - y) * scanline w c + c * x + j) % 2 ^ 32 < n) ↔ lastByte off w h c < n := by
  obtain ⟨hcw, hline⟩ := scanline_bounds (w := w) hc'
  have hpos : 0 < c * w := Nat.mul_pos hc hw
  rw [lastByte]
  generalize hS : scanline w c = line at *
  have hdata : h * line ≤ 4 * w * h := by
    rw [Nat.mul_comm h]
    exact Nat.mul_le_mul_right h hline
  have hlines : (h - 1) * line + line = h * line := by
    rw [← Nat.succ_mul, Nat.succ_eq_add_one, Nat.sub_add_cancel hh]
  -- The line of the last byte, and the place of the latter in it.
  generalize htop : min (2 ^ 32 - 1) (off + (h - 1) * line + (c * w - 1)) - off = top
  have hdiv := Nat.div_add_mod top line
  have hmod := Nat.mod_lt top (show 0 < line by omega)
  have hq : top / line < h := by
    rw [Nat.div_lt_iff_lt_mul (by omega)]
    omega
  rw [Nat.mul_comm line] at hdiv
  generalize top / line = q at *
  generalize top % line = m at *
  constructor
  · intro hall
    have ht : min m (c * w - 1) < c * w := by omega
    have := hall (h - 1 - q) (by omega) (min m (c * w - 1) / c) (Nat.div_lt_of_lt_mul ht)
      (min m (c * w - 1) % c) (Nat.mod_lt _ hc)
    rw [Nat.sub_sub_self (by omega), Nat.add_assoc, Nat.div_add_mod, Nat.mod_eq_of_lt (by omega)]
      at this
    exact this
  · intro hlast y hy x hx j hj
    have hxj : c * x + j < c * w := by
      have := Nat.mul_le_mul_left c (Nat.succ_le_of_lt hx)
      rw [Nat.mul_succ] at this
      omega
    generalize hr : h - 1 - y = r
    have hrh : r * line ≤ (h - 1) * line := Nat.mul_le_mul_right line (by omega)
    rw [Nat.add_assoc]
    generalize c * x + j = t at hxj
    rcases Nat.lt_or_ge (off + r * line + t) (2 ^ 32) with hlt | hge
    · -- No wrap: a line before the one of the last byte, or this line.
      have hle := add_le_of_line hxj hcw hmod (r := r) (q := q) (by omega)
      rw [Nat.mod_eq_of_lt hlt]
      omega
    · -- A byte that wraps comes before the line of the last one.
      omega

theorem bmpChannels_of_bits {bmp : List UInt8}
    (h : headerByte bmp 28 = 24 ∨ headerByte bmp 28 = 32) :
    bmpChannels bmp = 3 ∨ bmpChannels bmp = 4 := by
  rw [bmpChannels]
  rcases h with h | h
  · exact .inl (by rw [h]; rfl)
  · exact .inr (by rw [h]; rfl)

/-- The pixels are copied without leaving the file and the image iff they fit. -/
theorem copyPixels_resize_iff {bmp : List UInt8} (hbits : headerByte bmp 28 = 24 ∨
    headerByte bmp 28 = 32) (image : List UInt8) :
    (∃ t, copyPixels bmp (bmpOffset bmp) (bmpWidth bmp) (bmpHeight bmp) (bmpChannels bmp)
      (resize image (bmpWidth bmp * bmpHeight bmp * 4).toNat) = .ok t) ↔ InBounds bmp := by
  have hc := bmpChannels_of_bits hbits
  have hc' : 0 < (bmpChannels bmp).toNat ∧ (bmpChannels bmp).toNat ≤ 4 := by
    obtain h | h := hc
    all_goals rw [h]; decide
  have hw := toNat_bmpWidth_lt bmp
  have hoff := toNat_bmpOffset_lt bmp
  rw [copyPixels_ok_iff hc (length_resize _ _), InBounds]
  rcases Nat.eq_zero_or_pos (bmpWidth bmp).toNat with hw0 | hw0
  · exact iff_of_true (fun y _ x hx => absurd hx (by omega)) (.inl hw0)
  rcases Nat.eq_zero_or_pos (bmpHeight bmp).toNat with hh0 | hh0
  · exact iff_of_true (fun y hy => absurd hy (by omega)) (.inr (.inl hh0))
  have hread (y : ℕ) (hy : y < (bmpHeight bmp).toNat) (x j : ℕ) :
      (bmpPosition (bmpOffset bmp) (bmpWidth bmp) (bmpHeight bmp) (bmpChannels bmp) y x +
        .ofNat j).toNat =
      ((bmpOffset bmp).toNat + ((bmpHeight bmp).toNat - 1 - y) *
        scanline (bmpWidth bmp).toNat (bmpChannels bmp).toNat +
          (bmpChannels bmp).toNat * x + j) % 2 ^ 32 := by
    rw [UInt32.toNat_add, toNat_bmpPosition _ hw hc'.2 hy, UInt32.toNat_ofNat', Nat.add_mod_mod,
      Nat.mod_add_mod]
  constructor
  · intro hall
    have himage := (imagePosition_lt_iff hw0).1 fun y hy x hx => (hall y hy x hx).2
    refine .inr (.inr ⟨himage, ?_⟩)
    rw [← lastByte_lt_iff hoff hw0 hw hh0 hc'.1 hc'.2 himage]
    intro y hy x hx j hj
    rw [← hread y hy]
    exact (hall y hy x hx).1 j hj
  · rintro (h | h | ⟨himage, hlast⟩)
    · omega
    · omega
    · intro y hy x hx
      refine ⟨fun j hj => ?_, (imagePosition_lt_iff hw0).2 himage y hy x hx⟩
      rw [hread y hy]
      exact (lastByte_lt_iff hoff hw0 hw hh0 hc'.1 hc'.2 himage).2 hlast y hy x hx j hj

/-- `decodeBMP` stays within the file and the image iff it turns the file down, or
    the pixels fit in both. -/
theorem decodeBMP_ok_iff (image : List UInt8) (w h : UInt32) (bmp : List UInt8) :
    (∃ d, decodeBMP image w h bmp = .ok d) ↔ TurnedDown bmp ∨ InBounds bmp := by
  rcases Nat.lt_or_ge bmp.length minHeader with hlen | hlen
  · rw [decodeBMP, if_pos hlen]
    exact iff_of_true ⟨_, rfl⟩ (.inl (.inl hlen))
  rw [decodeBMP_of_le hlen]
  split_ifs with hsig hbits hsize
  · exact iff_of_true ⟨_, rfl⟩ (.inl (.inr (.inl hsig)))
  · exact iff_of_true ⟨_, rfl⟩ (.inl (.inr (.inr (.inl hbits))))
  · exact iff_of_true ⟨_, rfl⟩ (.inl (.inr (.inr (.inr hsize))))
  · have hnot : ¬TurnedDown bmp := by
      rintro (h | h | h | h)
      · exact Nat.not_lt.2 hlen h
      · exact hsig h
      · exact hbits h
      · exact hsize h
    rw [or_iff_right hnot, ← copyPixels_resize_iff (by tauto) image]
    generalize copyPixels _ _ _ _ _ _ = copied
    cases copied with
    | error e => simp [Except.map]
    | ok t => simp [Except.map]

/-- A bitmap the height of which is negative never fits, unless it is empty. -/
theorem not_inBounds_of_neg {bmp : List UInt8} (hw : 0 < (bmpWidth bmp).toNat)
    (hh : 2 ^ 15 ≤ (headerByte bmp 22).toNat + 256 * (headerByte bmp 23).toNat) :
    ¬InBounds bmp := by
  have hheight := toNat_bmpHeight bmp
  rw [if_neg (Nat.not_lt.2 hh)] at hheight
  rintro (h | h | ⟨himage, -⟩)
  · omega
  · omega
  · have := Nat.mul_le_mul_right (bmpHeight bmp).toNat (show 4 ≤ 4 * (bmpWidth bmp).toNat by omega)
    omega

/-- The header of a bitmap of 32768 by -32768 pixels of 32 bits. -/
def wrappingBitmap : List UInt8 :=
  ['B'.toUInt8, 'M'.toUInt8] ++ List.replicate 8 0 ++ [54, 0, 0, 0] ++ [40, 0, 0, 0] ++
    [0, 0x80, 0, 0] ++ [0, 0x80, 0xff, 0xff] ++ [1, 0, 32, 0] ++ List.replicate 24 0

/-- All three of its sizes wrap to nothing, and its first pixel is read out of range. -/
theorem decodeBMP_wrappingBitmap : decodeBMP [] 0 0 wrappingBitmap = .error .load := by
  decide

end QustomKeyboard

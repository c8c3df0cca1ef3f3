import QustomKeyboard.Screenshot.Bitmap

/-!
# Bitmaps are decoded

A bitmap file (`BmpFile`) holds the lines of an image from the bottom to the
top, every pixel in three or four bytes (`PixelFormat`), every line padded to a
multiple of four bytes. `decodeBMP` restores the image (`decodeBMP_bytes`):
the lines from the top, every pixel in four bytes, those of three being opaque.

The image is written from front to back, so that the loops are known by what
has been written after some of their iterations, the rest being arbitrary.
-/

namespace QustomKeyboard

open Theory

/-- A pixel of an image. -/
structure Pixel where
  r : UInt8
  g : UInt8
  b : UInt8
  a : UInt8
  deriving DecidableEq

/-- The bytes of a pixel in the image. -/
def Pixel.rgba (p : Pixel) : List UInt8 := [p.r, p.g, p.b, p.a]

/-- How a bitmap holds its pixels. -/
inductive PixelFormat
  /-- Without alpha, in 24 bits. -/
  | bgr
  /-- With alpha, in 32 bits. -/
  | bgra
  deriving DecidableEq

namespace PixelFormat

/-- The bits of a pixel, as in the header. -/
def bitCount : PixelFormat → UInt8
  | bgr => 24
  | bgra => 32

/-- The bytes of a pixel. -/
def channels : PixelFormat → ℕ
  | bgr => 3
  | bgra => 4

/-- The bytes of the pixel `p` in the bitmap. -/
def encode : PixelFormat → Pixel → List UInt8
  | bgr, p => [p.b, p.g, p.r]
  | bgra, p => [p.b, p.g, p.r, p.a]

/-- What is left of the pixel `p`: opaque, where the alpha is not kept. -/
def shown : PixelFormat → Pixel → Pixel
  | bgr, p => { p with a := 255 }
  | bgra, p => p

@[simp] theorem length_encode (fmt : PixelFormat) (p : Pixel) :
    (fmt.encode p).length = fmt.channels := by
  cases fmt <;> rfl

theorem channels_le (fmt : PixelFormat) : fmt.channels ≤ 4 := by
  cases fmt <;> decide

end PixelFormat

/-- A line of a bitmap of width `w`: its pixels, and the padding after them. -/
structure BmpLine (fmt : PixelFormat) (w : ℕ) where
  pixels : List Pixel
  padding : List UInt8
  length_pixels : pixels.length = w
  length_padding : w * fmt.channels + padding.length = scanline w fmt.channels

namespace BmpLine

variable {fmt : PixelFormat} {w : ℕ}

/-- The bytes of a line in the bitmap. -/
def bytes (l : BmpLine fmt w) : List UInt8 := l.pixels.flatMap fmt.encode ++ l.padding

/-- The bytes of a line in the image. -/
def rgba (l : BmpLine fmt w) : List UInt8 := l.pixels.flatMap fun p => (fmt.shown p).rgba

theorem length_encoded (l : BmpLine fmt w) :
    (l.pixels.flatMap fmt.encode).length = w * fmt.channels := by
  rw [length_flatMap_eq fun p _ => fmt.length_encode p, l.length_pixels]

@[simp] theorem length_bytes (l : BmpLine fmt w) : l.bytes.length = scanline w fmt.channels := by
  rw [bytes, List.length_append, length_encoded, l.length_padding]

@[simp] theorem length_rgba (l : BmpLine fmt w) : l.rgba.length = w * 4 := by
  rw [rgba, length_flatMap_eq (n := 4) fun p _ => rfl, l.length_pixels]

/-- The bytes of the pixel `x` of a line. -/
theorem getElem?_bytes (l : BmpLine fmt w) {x j : ℕ} {p : Pixel} (hp : l.pixels[x]? = some p)
    (hj : j < fmt.channels) : l.bytes[x * fmt.channels + j]? = (fmt.encode p)[j]? := by
  have hx : x < l.pixels.length := (List.getElem?_eq_some_iff.1 hp).1
  have hle : x * fmt.channels + j < w * fmt.channels := by
    have := Nat.mul_le_mul_right fmt.channels (show x + 1 ≤ w from l.length_pixels ▸ hx)
    rw [Nat.succ_mul] at this
    omega
  rw [bytes, List.getElem?_append_left (by rwa [length_encoded])]
  exact getElem?_flatMap (fun p _ => fmt.length_encode p) hp hj

end BmpLine

/-- A bitmap file. Its header need only be right in what the decoder reads of it:
    the low bytes of its fields. -/
structure BmpFile where
  format : PixelFormat
  w : ℕ
  /-- The lines of the image, from the top. -/
  lines : List (BmpLine format w)
  header : List UInt8
  minHeader_le : minHeader ≤ header.length
  signature : headerByte header 0 = 'B'.toUInt8 ∧ headerByte header 1 = 'M'.toUInt8
  offset_eq : (headerByte header 10).toNat + 256 * (headerByte header 11).toNat = header.length
  width_eq : (headerByte header 18).toNat + 256 * (headerByte header 19).toNat = w
  height_eq : (headerByte header 22).toNat + 256 * (headerByte header 23).toNat = lines.length
  bitCount_eq : headerByte header 28 = format.bitCount
  height_pos : 1 ≤ lines.length
  height_lt : lines.length < 2 ^ 15
  image_lt : 4 * w * lines.length < 2 ^ 32
  data_lt : header.length + lines.length * scanline w format.channels < 2 ^ 32

namespace BmpFile

/-- The bytes of the file: the header, and the lines from the bottom. -/
def bytes (f : BmpFile) : List UInt8 := f.header ++ f.lines.reverse.flatMap BmpLine.bytes

/-- The bytes of the image. -/
def rgba (f : BmpFile) : List UInt8 := f.lines.flatMap BmpLine.rgba

variable (f : BmpFile)

theorem length_bytes :
    f.bytes.length = f.header.length + f.lines.length * scanline f.w f.format.channels := by
  rw [bytes, List.length_append, length_flatMap_eq fun l _ => l.length_bytes, List.length_reverse]

theorem minHeader_le_bytes : minHeader ≤ f.bytes.length :=
  Nat.le_trans f.minHeader_le (by rw [length_bytes]; exact Nat.le_add_right _ _)

theorem headerByte_bytes {i : ℕ} (hi : i < minHeader) :
    headerByte f.bytes i = headerByte f.header i := by
  rw [headerByte, bytes, List.getD_eq_getElem?_getD,
    List.getElem?_append_left (Nat.lt_of_lt_of_le hi f.minHeader_le), ← List.getD_eq_getElem?_getD]
  rfl

/-- The bytes of the pixel `x` of the line `y`, in the file. -/
theorem getElem?_bytes {y x j : ℕ} {l : BmpLine f.format f.w} {p : Pixel}
    (hl : f.lines[y]? = some l) (hp : l.pixels[x]? = some p) (hj : j < f.format.channels) :
    f.bytes[f.header.length + (f.lines.length - 1 - y) * scanline f.w f.format.channels +
      f.format.channels * x + j]? = (f.format.encode p)[j]? := by
  have hy : y < f.lines.length := (List.getElem?_eq_some_iff.1 hl).1
  have hx : x * f.format.channels + j < scanline f.w f.format.channels := by
    have hlt := (List.getElem?_eq_some_iff.1 ((l.getElem?_bytes hp hj).trans
      (List.getElem?_eq_getElem (by rwa [f.format.length_encode])))).1
    rwa [l.length_bytes] at hlt
  have hrev : f.lines.reverse[f.lines.length - 1 - y]? = some l := by
    rw [List.getElem?_reverse (by omega), ← hl]
    congr 1
    omega
  rw [bytes, Nat.add_assoc, Nat.add_assoc, List.getElem?_append_right (Nat.le_add_right _ _),
    Nat.add_sub_cancel_left, Nat.mul_comm f.format.channels,
    getElem?_flatMap (fun l _ => l.length_bytes) hrev hx, l.getElem?_bytes hp hj]

/-- The pixel `x` of the line `y` ends within the file. -/
theorem position_lt {y x : ℕ} (hy : y < f.lines.length) (hx : x < f.w) :
    f.header.length + (f.lines.length - 1 - y) * scanline f.w f.format.channels +
      f.format.channels * x + f.format.channels < 2 ^ 32 := by
  have hline : f.format.channels * x + f.format.channels ≤ scanline f.w f.format.channels := by
    have := Nat.mul_le_mul_left f.format.channels (Nat.succ_le_of_lt hx)
    rw [Nat.mul_succ, Nat.mul_comm _ f.w] at this
    rw [scanline]
    omega
  have hlines := Nat.mul_le_mul_right (scanline f.w f.format.channels)
    (show f.lines.length - 1 - y + 1 ≤ f.lines.length by omega)
  rw [Nat.succ_mul] at hlines
  have := f.data_lt
  omega

/-- The pixel `x` of the line `y` ends within the image. -/
theorem imagePosition_lt {y x : ℕ} (hy : y < f.lines.length) (hx : x < f.w) :
    4 * (y * f.w + x) + 4 < 2 ^ 32 + 1 := by
  have hlines := Nat.mul_le_mul_right f.w (Nat.succ_le_of_lt hy)
  rw [Nat.succ_mul] at hlines
  have := f.image_lt
  rw [Nat.mul_assoc, Nat.mul_comm f.w] at this
  omega

end BmpFile

/-- The front of what has at least four cells. -/
theorem drop_eq_cons₄ {r : List UInt8} {n : ℕ} (h : n + 4 ≤ r.length) :
    ∃ a₀ a₁ a₂ a₃, r.drop n = a₀ :: a₁ :: a₂ :: a₃ :: r.drop (n + 4) :=
  ⟨r[n], r[n + 1], r[n + 2], r[n + 3], by
    rw [List.drop_eq_getElem_cons (by omega), List.drop_eq_getElem_cons (i := n + 1) (by omega),
      List.drop_eq_getElem_cons (i := n + 2) (by omega),
      List.drop_eq_getElem_cons (i := n + 3) (by omega)]⟩

/-- A pixel is copied to its place. -/
theorem copyPixel_encode {bmp : List UInt8} {fmt : PixelFormat} {p : Pixel} {bmpos newpos : UInt32}
    (hbmp : ∀ j < fmt.channels, bmp[bmpos.toNat + j]? = (fmt.encode p)[j]?)
    (hb : bmpos.toNat + fmt.channels ≤ 2 ^ 32) {before : List UInt8}
    (hn : newpos.toNat = before.length) (hlen : before.length + 4 ≤ 2 ^ 32)
    (a₀ a₁ a₂ a₃ : UInt8) (after : List UInt8) :
    copyPixel bmp (.ofNat fmt.channels) bmpos newpos (before ++ a₀ :: a₁ :: a₂ :: a₃ :: after) =
      .ok (before ++ ((fmt.shown p).rgba ++ after)) := by
  have hload {j : ℕ} {b : UInt8} (hj : j < fmt.channels) (hget : (fmt.encode p)[j]? = some b) :
      loadAt bmp (bmpos + .ofNat j).toNat = .ok b := by
    have hpos : (bmpos + .ofNat j).toNat = bmpos.toNat + j := by
      rw [UInt32.toNat_add, UInt32.toNat_ofNat', Nat.add_mod_mod, Nat.mod_eq_of_lt (by omega)]
    rw [hpos]
    exact loadAt_of_getElem? (by rw [hbmp j hj, hget])
  have hstore (k : ℕ) (hk : k < 4) (c₀ c₁ c₂ c₃ a : UInt8) :
      storeAt (before ++ c₀ :: c₁ :: c₂ :: c₃ :: after) (newpos + .ofNat k).toNat a =
        .ok (before ++ (c₀ :: c₁ :: c₂ :: c₃ :: after).set k a) := by
    have hpos : (newpos + .ofNat k).toNat = before.length + k := by
      rw [UInt32.toNat_add, UInt32.toNat_ofNat', Nat.add_mod_mod, hn, Nat.mod_eq_of_lt (by omega)]
    rw [hpos, storeAt_append_right, storeAt_of_lt (by simp only [List.length_cons]; omega)]
    rfl
  have hr : loadAt bmp (bmpos + 2).toNat = .ok p.r :=
    hload (j := 2) (by cases fmt <;> decide) (by cases fmt <;> rfl)
  have hg : loadAt bmp (bmpos + 1).toNat = .ok p.g :=
    hload (j := 1) (by cases fmt <;> decide) (by cases fmt <;> rfl)
  have hb : loadAt bmp (bmpos + 0).toNat = .ok p.b :=
    hload (j := 0) (by cases fmt <;> decide) (by cases fmt <;> rfl)
  have h₀ : storeAt _ (newpos + 0).toNat p.r = _ := hstore 0 (by decide) a₀ a₁ a₂ a₃ p.r
  have h₁ : storeAt _ (newpos + 1).toNat p.g = _ := hstore 1 (by decide) p.r a₁ a₂ a₃ p.g
  have h₂ : storeAt _ (newpos + 2).toNat p.b = _ := hstore 2 (by decide) p.r p.g a₂ a₃ p.b
  have h₃ (a) : storeAt _ (newpos + 3).toNat a = _ := hstore 3 (by decide) p.r p.g p.b a₃ a
  simp only [List.set_cons_zero, List.set_cons_succ] at h₀ h₁ h₂ h₃
  simp only [copyPixel, hr, hg, hb, h₀, h₁, h₂, h₃, bind, Except.bind]
  cases fmt with
  | bgr => rfl
  | bgra =>
    have ha : loadAt bmp (bmpos + 3).toNat = .ok p.a := hload (j := 3) (by decide) rfl
    rw [if_neg (by decide), ha]
    rfl

section Copy

variable (f : BmpFile) {off w h : UInt32} (hoff : off.toNat = f.header.length)
  (hw : w.toNat = f.w) (hh : h.toNat = f.lines.length)

include hoff hw hh

/-- The pixel `x` of the line `y` is copied behind what has been written. -/
theorem copyPixel_bytes {y x : ℕ} {l : BmpLine f.format f.w} {p : Pixel}
    (hl : f.lines[y]? = some l) (hp : l.pixels[x]? = some p) {front rest : List UInt8}
    (hfront : front.length = y * (f.w * 4) + x * 4) (hrest : 4 ≤ rest.length) :
    copyPixel f.bytes (.ofNat f.format.channels)
        (bmpPosition off w h (.ofNat f.format.channels) y x) (imagePosition w y x)
        (front ++ rest) = .ok (front ++ ((f.format.shown p).rgba ++ rest.drop 4)) := by
  have hy : y < f.lines.length := (List.getElem?_eq_some_iff.1 hl).1
  have hx : x < f.w := l.length_pixels ▸ (List.getElem?_eq_some_iff.1 hp).1
  have hc : (UInt32.ofNat f.format.channels).toNat = f.format.channels := by
    cases f.format <;> rfl
  have hw16 : w.toNat < 2 ^ 16 := by
    have h₁ := (headerByte f.header 18).toNat_lt
    have h₂ := (headerByte f.header 19).toNat_lt
    rw [hw, ← f.width_eq]
    omega
  have hbmpos := toNat_bmpPosition off hw16 (hc ▸ f.format.channels_le) (hh ▸ hy) x
  rw [hc, hoff, hw, hh, Nat.mod_eq_of_lt (by have := f.position_lt hy hx; omega)] at hbmpos
  have hnewpos : (imagePosition w y x).toNat = front.length := by
    rw [toNat_imagePosition, hw, Nat.mod_eq_of_lt (by have := f.imagePosition_lt hy hx; omega),
      hfront, Nat.mul_add, Nat.mul_comm 4, Nat.mul_assoc, Nat.mul_comm 4 x]
  obtain ⟨a₀, a₁, a₂, a₃, hr⟩ := drop_eq_cons₄ (r := rest) (n := 0) (by omega)
  rw [List.drop_zero, Nat.zero_add] at hr
  rw [hr]
  refine copyPixel_encode (fun j hj => ?_) ?_ hnewpos ?_ a₀ a₁ a₂ a₃ _
  · rw [hbmpos, f.getElem?_bytes hl hp hj]
  · rw [hbmpos]
    exact Nat.le_of_lt (f.position_lt hy hx)
  · rw [← hnewpos, toNat_imagePosition, hw]
    have := f.imagePosition_lt hy hx
    omega

/-- The line `y` is copied behind what has been written. -/
theorem copyLine_bytes {y : ℕ} {l : BmpLine f.format f.w} (hl : f.lines[y]? = some l)
    {front rest : List UInt8} (hfront : front.length = y * (f.w * 4))
    (hrest : f.w * 4 ≤ rest.length) :
    copyLine f.bytes off w h (.ofNat f.format.channels) y w.toNat (front ++ rest) =
      .ok (front ++ (l.rgba ++ rest.drop (f.w * 4))) := by
  have hfill : forLoop (fun x => copyPixel f.bytes (.ofNat f.format.channels)
        (bmpPosition off w h (.ofNat f.format.channels) y x) (imagePosition w y x))
        l.pixels.length 0 (front ++ rest) =
      .ok (front ++ (l.rgba ++ rest.drop (l.pixels.length * 4))) :=
    forLoop_fill (k := 4) (b := y * (f.w * 4)) (fun p => rfl) (fun x p fr re hp hfr hre => by
      rw [Nat.zero_add] at hfr ⊢
      exact copyPixel_bytes f hoff hw hh hl hp hfr hre) (by omega) (by rwa [l.length_pixels])
  rw [l.length_pixels] at hfill
  rw [copyLine, hw]
  exact hfill

/-- All the lines are copied. -/
theorem copyPixels_bytes {image : List UInt8} (himage : image.length = f.lines.length * (f.w * 4)) :
    copyPixels f.bytes off w h (.ofNat f.format.channels) image = .ok f.rgba := by
  have hfill : forLoop (fun y => copyLine f.bytes off w h (.ofNat f.format.channels) y w.toNat)
      f.lines.length 0 ([] ++ image) =
        .ok ([] ++ (f.rgba ++ image.drop (f.lines.length * (f.w * 4)))) :=
    forLoop_fill (k := f.w * 4) (b := 0) (fun l => l.length_rgba) (fun y l fr re hl hfr hre => by
      rw [Nat.zero_add] at hfr ⊢
      rw [Nat.zero_add] at hfr
      exact copyLine_bytes f hoff hw hh hl hfr hre) (by simp) (Nat.le_of_eq himage.symm)
  rw [← himage, List.drop_length, List.append_nil] at hfill
  rw [copyPixels, hh]
  exact hfill

end Copy

/-- `decodeBMP` inverts the encoding of an image as a bitmap file: it restores the
    image from the file, whatever its parameters held before. -/
theorem decodeBMP_bytes (f : BmpFile) (image : List UInt8) (w h : UInt32) :
    decodeBMP image w h f.bytes =
      .ok { code := 0, w := .ofNat f.w, h := .ofNat f.lines.length, image := f.rgba } := by
  have hbyte {i : ℕ} (hi : i < minHeader) := f.headerByte_bytes hi
  have hoff : (bmpOffset f.bytes).toNat = f.header.length := by
    rw [toNat_bmpOffset, hbyte (by decide), hbyte (by decide), f.offset_eq]
  have hw : (bmpWidth f.bytes).toNat = f.w := by
    rw [toNat_bmpWidth, hbyte (by decide), hbyte (by decide), f.width_eq]
  have hh : (bmpHeight f.bytes).toNat = f.lines.length := by
    rw [toNat_bmpHeight, hbyte (by decide), hbyte (by decide), f.height_eq, if_pos f.height_lt]
  have hc : bmpChannels f.bytes = .ofNat f.format.channels := by
    rw [bmpChannels, hbyte (by decide), f.bitCount_eq]
    cases f.format <;> rfl
  have hc' : (bmpChannels f.bytes).toNat = f.format.channels := by
    rw [hc]
    cases f.format <;> rfl
  have hend : (bmpDataEnd f.bytes).toNat = f.bytes.length := by
    rw [toNat_bmpDataEnd (hc' ▸ f.format.channels_le), hoff, hh, hw, hc', f.length_bytes,
      Nat.mod_eq_of_lt f.data_lt]
  have himage : (bmpWidth f.bytes * bmpHeight f.bytes * 4).toNat = f.lines.length * (f.w * 4) := by
    rw [toNat_imageSize, hw, hh, Nat.mod_eq_of_lt f.image_lt, Nat.mul_comm, Nat.mul_comm 4]
  have hsignature : ¬(headerByte f.bytes 0 ≠ 'B'.toUInt8 ∨ headerByte f.bytes 1 ≠ 'M'.toUInt8) := by
    rw [hbyte (by decide), hbyte (by decide), f.signature.1, f.signature.2]
    simp
  have hbits : ¬(headerByte f.bytes 28 ≠ 24 ∧ headerByte f.bytes 28 ≠ 32) := by
    rw [hbyte (by decide), f.bitCount_eq]
    cases f.format <;> simp [PixelFormat.bitCount]
  rw [decodeBMP_of_le f.minHeader_le_bytes, if_neg hsignature, if_neg hbits,
    if_neg (Nat.not_lt.2 (Nat.le_of_eq hend)), hc,
    copyPixels_bytes f hoff hw hh (by rw [length_resize, himage]), Except.map,
    show bmpWidth f.bytes = .ofNat f.w by rw [← hw, UInt32.ofNat_toNat],
    show bmpHeight f.bytes = .ofNat f.lines.length by rw [← hh, UInt32.ofNat_toNat]]

/-- A file of one line of two pixels in 24 bits. -/
example : BmpFile where
  format := .bgr
  w := 2
  lines := [⟨[⟨1, 2, 3, 4⟩, ⟨5, 6, 7, 8⟩], [0, 0], rfl, rfl⟩]
  header := ['B'.toUInt8, 'M'.toUInt8] ++ List.replicate 8 0 ++ [54, 0] ++ List.replicate 6 0 ++
    [2, 0, 0, 0, 1, 0, 0, 0, 1, 0, 24, 0] ++ List.replicate 24 0
  minHeader_le := by decide
  signature := by decide
  offset_eq := by decide
  width_eq := by decide
  height_eq := by decide
  bitCount_eq := by decide
  height_pos := by decide
  height_lt := by decide
  image_lt := by decide
  data_lt := by decide

end QustomKeyboard

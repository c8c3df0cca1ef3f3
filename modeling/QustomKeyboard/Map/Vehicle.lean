import QustomKeyboard.Text.Stoi
import QustomKeyboard.Theory.Split
import QustomKeyboard.Theory.Loop
import QustomKeyboard.Theory.Memory
import Mathlib

/-!
# Colors of vehicles

A vehicle of a map has its colors as a text: pieces that begin with an `int`, which is taken modulo
256, up to the first one that does not. Then random colors are added, by a loop the counter of which meets the number
of the colors that are missing half way. So it comes to its end iff the colors before are even,
and not more than twelve (`vehicleColors_eq`): it is left with half of them, and six.

Of more than four colors, three and three are taken, and of exactly five, one that is not there
(`convertColors_ok_iff`). Three of them give the color of the palette that is the nearest
(`getPaletteIndexFromRGB_nearest`).
-/

namespace QustomKeyboard

open Theory

/-! ## The palette -/

/-- The red, green and blue parts of the colors, each with an opacity. -/
def paletteColorTable8 : List UInt8 := [
    0x00, 0x00, 0x00, 0xff, 0xf5, 0xf5, 0xf5, 0xff, 0x2a, 0x77, 0xa1, 0xff, 0x84, 0x04, 0x10, 0xff,
    0x26, 0x37, 0x39, 0xff, 0x86, 0x44, 0x6e, 0xff, 0xd7, 0x8e, 0x10, 0xff, 0x4c, 0x75, 0xb7, 0xff,
    0xbd, 0xbe, 0xc6, 0xff, 0x5e, 0x70, 0x72, 0xff, 0x46, 0x59, 0x7a, 0xff, 0x65, 0x6a, 0x79, 0xff,
    0x5d, 0x7e, 0x8d, 0xff, 0x58, 0x59, 0x5a, 0xff, 0xd6, 0xda, 0xd6, 0xff, 0x9c, 0xa1, 0xa3, 0xff,
    0x33, 0x5f, 0x3f, 0xff, 0x73, 0x0e, 0x1a, 0xff, 0x7b, 0x0a, 0x2a, 0xff, 0x9f, 0x9d, 0x94, 0xff,
    0x3b, 0x4e, 0x78, 0xff, 0x73, 0x2e, 0x3e, 0xff, 0x69, 0x1e, 0x3b, 0xff, 0x96, 0x91, 0x8c, 0xff,
    0x51, 0x54, 0x59, 0xff, 0x3f, 0x3e, 0x45, 0xff, 0xa5, 0xa9, 0xa7, 0xff, 0x63, 0x5c, 0x5a, 0xff,
    0x3d, 0x4a, 0x68, 0xff, 0x97, 0x95, 0x92, 0xff, 0x42, 0x1f, 0x21, 0xff, 0x5f, 0x27, 0x2b, 0xff,
    0x84, 0x94, 0xab, 0xff, 0x76, 0x7b, 0x7c, 0xff, 0x64, 0x64, 0x64, 0xff, 0x5a, 0x57, 0x52, 0xff,
    0x25, 0x25, 0x27, 0xff, 0x2d, 0x3a, 0x35, 0xff, 0x93, 0xa3, 0x96, 0xff, 0x6d, 0x7a, 0x88, 0xff,
    0x22, 0x19, 0x18, 0xff, 0x6f, 0x67, 0x5f, 0xff, 0x7c, 0x1c, 0x2a, 0xff, 0x5f, 0x0a, 0x15, 0xff,
    0x19, 0x38, 0x26, 0xff, 0x5d, 0x1b, 0x20, 0xff, 0x9d, 0x98, 0x72, 0xff, 0x7a, 0x75, 0x60, 0xff,
    0x98, 0x95, 0x86, 0xff, 0xad, 0xb0, 0xb0, 0xff, 0x84, 0x89, 0x88, 0xff, 0x30, 0x4f, 0x45, 0xff,
    0x4d, 0x62, 0x68, 0xff, 0x16, 0x22, 0x48, 0xff, 0x27, 0x2f, 0x4b, 0xff, 0x7d, 0x62, 0x56, 0xff,
    0x9e, 0xa4, 0xab, 0xff, 0x9c, 0x8d, 0x71, 0xff, 0x6d, 0x18, 0x22, 0xff, 0x4e, 0x68, 0x81, 0xff,
    0x9c, 0x9c, 0x98, 0xff, 0x91, 0x73, 0x47, 0xff, 0x66, 0x1c, 0x26, 0xff, 0x94, 0x9d, 0x9f, 0xff,
    0xa4, 0xa7, 0xa5, 0xff, 0x8e, 0x8c, 0x46, 0xff, 0x34, 0x1a, 0x1e, 0xff, 0x6a, 0x7a, 0x8c, 0xff,
    0xaa, 0xad, 0x8e, 0xff, 0xab, 0x98, 0x8f, 0xff, 0x85, 0x1f, 0x2e, 0xff, 0x6f, 0x82, 0x97, 0xff,
    0x58, 0x58, 0x53, 0xff, 0x9a, 0xa7, 0x90, 0xff, 0x60, 0x1a, 0x23, 0xff, 0x20, 0x20, 0x2c, 0xff,
    0xa4, 0xa0, 0x96, 0xff, 0xaa, 0x9d, 0x84, 0xff, 0x78, 0x22, 0x2b, 0xff, 0x0e, 0x31, 0x6d, 0xff,
    0x72, 0x2a, 0x3f, 0xff, 0x7b, 0x71, 0x5e, 0xff, 0x74, 0x1d, 0x28, 0xff, 0x1e, 0x2e, 0x32, 0xff,
    0x4d, 0x32, 0x2f, 0xff, 0x7c, 0x1b, 0x44, 0xff, 0x2e, 0x5b, 0x20, 0xff, 0x39, 0x5a, 0x83, 0xff,
    0x6d, 0x28, 0x37, 0xff, 0xa7, 0xa2, 0x8f, 0xff, 0xaf, 0xb1, 0xb1, 0xff, 0x36, 0x41, 0x55, 0xff,
    0x6d, 0x6c, 0x6e, 0xff, 0x0f, 0x6a, 0x89, 0xff, 0x20, 0x4b, 0x6b, 0xff, 0x2b, 0x3e, 0x57, 0xff,
    0x9b, 0x9f, 0x9d, 0xff, 0x6c, 0x84, 0x95, 0xff, 0x4d, 0x84, 0x95, 0xff, 0xae, 0x9b, 0x7f, 0xff,
    0x40, 0x6c, 0x8f, 0xff, 0x1f, 0x25, 0x3b, 0xff, 0xab, 0x92, 0x76, 0xff, 0x13, 0x45, 0x73, 0xff,
    0x96, 0x81, 0x6c, 0xff, 0x64, 0x68, 0x6a, 0xff, 0x10, 0x50, 0x82, 0xff, 0xa1, 0x99, 0x83, 0xff,
    0x38, 0x56, 0x94, 0xff, 0x52, 0x56, 0x61, 0xff, 0x7f, 0x69, 0x56, 0xff, 0x8c, 0x92, 0x9a, 0xff,
    0x59, 0x6e, 0x87, 0xff, 0x47, 0x35, 0x32, 0xff, 0x44, 0x62, 0x4f, 0xff, 0x73, 0x0a, 0x27, 0xff,
    0x22, 0x34, 0x57, 0xff, 0x64, 0x0d, 0x1b, 0xff, 0xa3, 0xad, 0xc6, 0xff, 0x69, 0x58, 0x53, 0xff,
    0x9b, 0x8b, 0x80, 0xff, 0x62, 0x0b, 0x1c, 0xff, 0x5b, 0x5d, 0x5e, 0xff, 0x62, 0x44, 0x28, 0xff,
    0x73, 0x18, 0x27, 0xff, 0x1b, 0x37, 0x6d, 0xff, 0xec, 0x6a, 0xae, 0xff]

/-- The squared distance of the color `i` of the palette, as it is summed up. -/
def paletteDistance (fromR fromG fromB : UInt8) (i : ℕ) : ℕ :=
  let r : ℤ := (paletteColorTable8.getD (i * 4 + 0) 0).toNat - fromR.toNat
  let g : ℤ := (paletteColorTable8.getD (i * 4 + 1) 0).toNat - fromG.toNat
  let b : ℤ := (paletteColorTable8.getD (i * 4 + 2) 0).toNat - fromB.toNat
  (r * r + g * g + b * b).toNat

/-- `GetPaletteIndexFromRGB` -/
def getPaletteIndexFromRGB (fromR fromG fromB : UInt8) : UInt8 :=
  ((List.range (paletteColorTable8.length / 4)).foldl
    (fun s i => let ulDist := paletteDistance fromR fromG fromB i
      if ulDist < s.1 then (ulDist, .ofNat i) else s) (0xFFFFFFFF, 0)).2

theorem length_paletteColorTable8 : paletteColorTable8.length = 508 := by decide +kernel

/-- No distance is as large as the one that the loop begins with. -/
theorem paletteDistance_lt (fromR fromG fromB : UInt8) (i : ℕ) :
    paletteDistance fromR fromG fromB i < 0xFFFFFFFF := by
  have hsq (a b : UInt8) : ((a.toNat : ℤ) - b.toNat) * (a.toNat - b.toNat) ≤ 65025 := by
    have ha := a.toNat_lt
    have hb := b.toNat_lt
    nlinarith
  have hr := hsq (paletteColorTable8.getD (i * 4 + 0) 0) fromR
  have hg := hsq (paletteColorTable8.getD (i * 4 + 1) 0) fromG
  have hb := hsq (paletteColorTable8.getD (i * 4 + 2) 0) fromB
  rw [paletteDistance]
  omega

/-- Behind some colors, the loop has the first of those that are the nearest. -/
theorem foldl_palette (d : ℕ → ℕ) (hd : ∀ i, d i < 0xFFFFFFFF) (n : ℕ) :
    ∃ m ∈ (List.range (n + 1)).argmin d, (List.range (n + 1)).foldl
      (fun s i => if d i < s.1 then (d i, UInt8.ofNat i) else s) (0xFFFFFFFF, 0) =
        (d m, .ofNat m) := by
  induction n with
  | zero => exact ⟨0, rfl, if_pos (hd 0)⟩
  | succ n ih =>
    obtain ⟨m, hm, hfold⟩ := ih
    rw [List.range_succ, List.foldl_concat, hfold, List.argmin_concat, Option.mem_def.1 hm]
    by_cases hlt : d (n + 1) < d m
    · exact ⟨n + 1, if_pos hlt, if_pos hlt⟩
    · exact ⟨m, if_neg hlt, if_neg hlt⟩

/-- The color that is found is the first of those that are the nearest. -/
theorem getPaletteIndexFromRGB_nearest (fromR fromG fromB : UInt8) :
    (getPaletteIndexFromRGB fromR fromG fromB).toNat < 127 ∧ ∀ i < 127,
      paletteDistance fromR fromG fromB (getPaletteIndexFromRGB fromR fromG fromB).toNat ≤
        paletteDistance fromR fromG fromB i ∧
      (i < (getPaletteIndexFromRGB fromR fromG fromB).toNat →
        paletteDistance fromR fromG fromB (getPaletteIndexFromRGB fromR fromG fromB).toNat <
          paletteDistance fromR fromG fromB i) := by
  obtain ⟨m, hm, hfold⟩ := foldl_palette _ (paletteDistance_lt fromR fromG fromB) 126
  obtain ⟨hmem, hle, hfirst⟩ := List.mem_argmin_iff.1 hm
  have hlt : m < 127 := List.mem_range.1 hmem
  have hindex : getPaletteIndexFromRGB fromR fromG fromB = .ofNat m := by
    rw [getPaletteIndexFromRGB, length_paletteColorTable8]
    exact congrArg Prod.snd hfold
  rw [hindex, UInt8.toNat_ofNat_of_lt' (by rw [UInt8.size]; omega)]
  refine ⟨hlt, fun i hi => ⟨hle i (List.mem_range.2 hi), fun him => ?_⟩⟩
  by_contra hnot
  have := hfirst i (List.mem_range.2 hi) (Nat.not_lt.1 hnot)
  have hidx {k : ℕ} (hk : k < 127) : (List.range (126 + 1)).idxOf k = k := by
    have := (List.nodup_range (n := 126 + 1)).idxOf_getElem k (by rwa [List.length_range])
    rwa [List.getElem_range] at this
  rw [hidx hlt, hidx hi] at this
  omega

/-! ## The colors of a vehicle -/

def uint8 : IntegralType := ⟨8, false, eight_pos⟩

/-- Whether a character separates the colors in their text. -/
def isColorSeparator (input : Char) : Bool := input == ' ' || input == ','

section

variable (message : Errc → List Char) (random : ℕ → UInt8)

/-- The loop over the texts: the colors up to the first exception, and whether there is one. -/
def pushColors : List (List Char) → List UInt8 × Bool
  | [] => ([], false)
  | t :: ts =>
    match stoi message uint8 (.string t) with
    | .error _ => ([], true)
    | .ok n => ((pushColors ts).map (.ofInt n :: ·) id)

/-- The loop that adds random colors after an exception goes on as long as this holds of its
    counter and the colors. -/
def recoverGuard (s : UInt8 × List UInt8) : Bool := s.1.toUInt64 ≠ 12 - .ofNat s.2.length

/-- A random color is added: `random i` is stored at `i`. A vector of the largest size cannot
    grow. -/
def recoverBody (s : UInt8 × List UInt8) : Option (UInt8 × List UInt8) :=
  if s.2.length < 2 ^ 63 - 1 then some (s.1 + 1, s.2 ++ [random s.2.length]) else none

/-- The loop that adds random colors, with some fuel. -/
def recoverColors (fuel : ℕ) (colors : List UInt8) : Option (List UInt8) :=
  (whileLoop recoverGuard (recoverBody random) fuel (0, colors)).map Prod.snd

/-- The colors of a vehicle that `GtaVehicle` is given the text `colors_` for, with some fuel. -/
def vehicleColors (fuel : ℕ) (colors_ : List Char) : Option (List UInt8) :=
  if colors_ ≠ "-1".toList then
    match pushColors message (splitCompress isColorSeparator colors_) with
    | (colors, false) => some colors
    | (colors, true) => recoverColors random fuel colors
  else some ((List.range 12).map random)

end

/-- The colors of `GtaVehicle::ConvertToSampFormat`, out of those of the vehicle. -/
def convertColors (colors : List UInt8) : Except Fault (ℤ × ℤ) :=
  if colors.length > 4 then do
    let color1 := getPaletteIndexFromRGB (← loadAt colors 0) (← loadAt colors 1) (← loadAt colors 2)
    let color2 := getPaletteIndexFromRGB (← loadAt colors 3) (← loadAt colors 4) (← loadAt colors 5)
    return (color1.toNat, color2.toNat)
  else if colors.length ≥ 2 then do
    return ((← loadAt colors 0).toNat, (← loadAt colors 1).toNat)
  else .ok (-1, -1)

variable {message : Errc → List Char} {random : ℕ → UInt8}

/-- Whether a text can be read as a color: an `int` stands at its front. -/
def isColor (t : List Char) : Bool := (fromChars t).isOk

/-- The value of a color: the `int` at its front, modulo 256. -/
def colorOf (t : List Char) : UInt8 := .ofInt (uint8.convert ((readSigned t).getD 0))

/-- The colors are those of the texts up to the first that cannot be read. -/
theorem pushColors_eq (message : Errc → List Char) (ts : List (List Char)) :
    pushColors message ts = ((ts.takeWhile isColor).map colorOf, !ts.all isColor) := by
  induction ts with
  | nil => rfl
  | cons t ts ih =>
    rw [pushColors, stoi, FromStr.chars]
    cases h : fromChars t with
    | error ec =>
      have hbad : isColor t = false := by rw [isColor, h]; rfl
      rw [List.takeWhile_cons_of_neg (by simp [hbad]), List.all_cons, hbad]
      rfl
    | ok n =>
      have hgood : isColor t = true := by rw [isColor, h]; rfl
      have hread : readSigned t = some n := by
        rw [fromChars] at h
        cases hsigned : readSigned t with
        | none => rw [hsigned] at h; cases h
        | some m =>
          rw [hsigned] at h
          simp only at h
          split_ifs at h
          rw [Except.ok.inj h]
      rw [List.takeWhile_cons_of_pos hgood, List.all_cons, hgood, ih, List.map_cons, colorOf,
        hread]
      rfl

/-! ### The loop that adds colors -/

/-- The loop ends when the counter makes twelve with the number of the colors. -/
theorem recoverGuard_eq_false_iff {s : UInt8 × List UInt8} (hlen : s.2.length < 2 ^ 63) :
    recoverGuard s = false ↔ s.1.toNat + s.2.length = 12 := by
  have hi := s.1.toNat_lt
  have hsub : (12 - UInt64.ofNat s.2.length).toNat = (2 ^ 64 - s.2.length + 12) % 2 ^ 64 := by
    rw [UInt64.toNat_sub, UInt64.toNat_ofNat_of_lt' (by rw [UInt64.size]; omega)]
    rfl
  rw [recoverGuard, decide_eq_false_iff_not, not_not, ← UInt64.toNat_inj, hsub,
    UInt8.toNat_toUInt64]
  omega

section

variable {colors : List UInt8} {fuel : ℕ}

/-- As many colors have been added as the counter tells, and no more are missing. -/
structure Recovering (random : ℕ → UInt8) (colors : List UInt8) (s : UInt8 × List UInt8) :
    Prop where
  colors_eq : s.2 = colors ++ (List.range' colors.length s.1.toNat).map random
  le : 2 * s.1.toNat + colors.length ≤ 12

theorem Recovering.length_eq {s : UInt8 × List UInt8} (h : Recovering random colors s) :
    s.2.length = colors.length + s.1.toNat := by
  rw [h.colors_eq]
  simp

/-- Another color is added, if it is missing. -/
theorem Recovering.step {s : UInt8 × List UInt8} (heven : colors.length % 2 = 0)
    (h : Recovering random colors s) (hguard : recoverGuard s = true) :
    ∃ t, recoverBody random s = some t ∧ Recovering random colors t ∧
      12 - t.2.length < 12 - s.2.length := by
  have hlen := h.length_eq
  obtain ⟨hcolors, hle⟩ := h
  have hne : s.1.toNat + s.2.length ≠ 12 := by
    rw [Ne, ← recoverGuard_eq_false_iff (by omega), hguard]
    exact Bool.true_eq_false_eq_False
  have hsucc : (s.1 + 1).toNat = s.1.toNat + 1 := by
    rw [UInt8.toNat_add, show (1 : UInt8).toNat = 1 from rfl, Nat.mod_eq_of_lt (by omega)]
  refine ⟨_, if_pos (by omega), ⟨?_, ?_⟩, ?_⟩
  · change s.2 ++ [random s.2.length] = _
    rw [hsucc, List.range'_concat, List.map_append, ← List.append_assoc, ← hcolors, Nat.one_mul,
      hlen]
    rfl
  · change 2 * (s.1 + 1).toNat + colors.length ≤ 12
    omega
  · rw [List.length_append, List.length_singleton]
    omega

/-- The counter and the number of the colors meet half way. -/
theorem recoverColors_of_even (heven : colors.length % 2 = 0) (hle : colors.length ≤ 12)
    (hfuel : 12 < fuel) : recoverColors random fuel colors =
      some (colors ++ (List.range' colors.length ((12 - colors.length) / 2)).map random) := by
  have hstart : Recovering random colors (0, colors) := ⟨by simp, by simpa using hle⟩
  obtain ⟨t, ht, hinv, hguard⟩ := whileLoop_total (fun s hs hg => Recovering.step heven hs hg)
    hstart (show 12 - colors.length < fuel by omega)
  have hlen := hinv.length_eq
  have hmeet := (recoverGuard_eq_false_iff (by have := hinv.le; omega)).1 hguard
  rw [recoverColors, ht, Option.map_some, hinv.colors_eq,
    show (12 - colors.length) / 2 = t.1.toNat by omega]

/-- They miss each other, and the vector grows as long as it can. -/
theorem recoverColors_eq_none (hlen : colors.length < 2 ^ 63)
    (hodd : ¬(colors.length % 2 = 0 ∧ colors.length ≤ 12)) :
    recoverColors random fuel colors = none := by
  rw [recoverColors, whileLoop_eq_none (I := fun s : UInt8 × List UInt8 => ∃ k,
    s.1.toNat = k % 256 ∧ s.2.length = colors.length + k ∧ colors.length + k < 2 ^ 63)]
  · rfl
  · rintro s ⟨k, hi, hcs, hk⟩
    rw [← Bool.not_eq_false, recoverGuard_eq_false_iff (by omega)]
    omega
  · rintro s t ⟨k, hi, hcs, hk⟩ ht
    rw [recoverBody] at ht
    split_ifs at ht with hroom
    rw [← Option.some.inj ht]
    refine ⟨k + 1, ?_, ?_, by omega⟩
    · rw [UInt8.toNat_add, hi, show (1 : UInt8).toNat = 1 from rfl]
      omega
    · rw [List.length_append, hcs]
      rfl
  · exact ⟨0, rfl, rfl, hlen⟩

end

/-! ### The text -/

/-- The texts of the colors up to the first that cannot be read. -/
def goodColors (colors_ : List Char) : List (List Char) :=
  (splitCompress isColorSeparator colors_).takeWhile isColor

/-- There is a text before the first character, and one at most behind each. -/
theorem length_splitCompress_le {α : Type*} (p : α → Bool) (l : List α) :
    (splitCompress p l).length ≤ l.length + 1 := by
  fun_induction splitCompress p l with
  | case1 => exact le_rfl
  | case2 a l _ _ ih => exact ih.trans (Nat.le_succ _)
  | case3 a l _ _ ih => exact Nat.succ_le_succ ih
  | case4 a l _ ih =>
    rw [List.length_modifyHead]
    exact ih.trans (Nat.le_succ _)

section

variable {colors_ : List Char} {fuel : ℕ}

variable (message random) in
/-- All colors can be read. -/
theorem vehicleColors_of_all (hne : colors_ ≠ "-1".toList)
    (hall : (splitCompress isColorSeparator colors_).all isColor) :
    vehicleColors message random fuel colors_ =
      some ((splitCompress isColorSeparator colors_).map colorOf) := by
  rw [vehicleColors, if_pos hne, pushColors_eq, hall,
    List.takeWhile_eq_self_iff.2 (List.all_eq_true.1 hall)]
  rfl

variable (message random fuel) in
/-- A color cannot be read, and the loop is left to add the missing ones. -/
theorem vehicleColors_of_not_all (hne : colors_ ≠ "-1".toList)
    (hall : ¬(splitCompress isColorSeparator colors_).all isColor) :
    vehicleColors message random fuel colors_ =
      recoverColors random fuel ((goodColors colors_).map colorOf) := by
  rw [vehicleColors, if_pos hne, pushColors_eq, Bool.eq_false_of_not_eq_true hall]
  rfl

/-- The missing colors of an even number are added. -/
theorem recoverColors_goodColors (heven : (goodColors colors_).length % 2 = 0)
    (hle : (goodColors colors_).length ≤ 12) (hfuel : 12 < fuel) :
    recoverColors random fuel ((goodColors colors_).map colorOf) =
      some ((goodColors colors_).map colorOf ++ (List.range' (goodColors colors_).length
        ((12 - (goodColors colors_).length) / 2)).map random) := by
  rw [recoverColors_of_even (by rwa [List.length_map]) (by rwa [List.length_map]) hfuel,
    List.length_map]

theorem recoverColors_goodColors_eq_none (hlen : colors_.length < 2 ^ 63 - 1)
    (hodd : ¬((goodColors colors_).length % 2 = 0 ∧ (goodColors colors_).length ≤ 12)) :
    recoverColors random fuel ((goodColors colors_).map colorOf) = none := by
  have hle : (goodColors colors_).length ≤ colors_.length + 1 :=
    (List.takeWhile_prefix _).length_le.trans (length_splitCompress_le _ _)
  exact recoverColors_eq_none (by rw [List.length_map]; omega) (by rwa [List.length_map])

/-- A vehicle gets its colors iff they can all be read, or an even number of twelve at most before
    the first that cannot. There are no longer texts. -/
theorem vehicleColors_eq (message : Errc → List Char) (random : ℕ → UInt8)
    (hlen : colors_.length < 2 ^ 63 - 1) (hfuel : 12 < fuel) :
    vehicleColors message random fuel colors_ =
      if colors_ = "-1".toList then some ((List.range 12).map random)
      else if (splitCompress isColorSeparator colors_).all isColor
        then some ((splitCompress isColorSeparator colors_).map colorOf)
      else if (goodColors colors_).length % 2 = 0 ∧ (goodColors colors_).length ≤ 12
        then some ((goodColors colors_).map colorOf ++ (List.range' (goodColors colors_).length
          ((12 - (goodColors colors_).length) / 2)).map random)
      else none := by
  by_cases hnone : colors_ = "-1".toList
  · rw [if_pos hnone, hnone]
    rfl
  rw [if_neg hnone]
  by_cases hall : (splitCompress isColorSeparator colors_).all isColor
  · rw [if_pos hall, vehicleColors_of_all message random hnone hall]
  · rw [if_neg hall, vehicleColors_of_not_all message random fuel hnone hall]
    split_ifs with heven
    · exact recoverColors_goodColors heven.1 heven.2 hfuel
    · exact recoverColors_goodColors_eq_none hlen heven

/-- Two colors before one that is not. -/
theorem vehicleColors_eq_two :
    vehicleColors (fun _ => []) (fun _ => 7) 13 "1,2,red".toList =
      if "1,2,red".toList = "-1".toList then some ((List.range 12).map fun _ => 7)
      else if (splitCompress isColorSeparator "1,2,red".toList).all isColor
        then some ((splitCompress isColorSeparator "1,2,red".toList).map colorOf)
      else if (goodColors "1,2,red".toList).length % 2 = 0 ∧
          (goodColors "1,2,red".toList).length ≤ 12
        then some ((goodColors "1,2,red".toList).map colorOf ++
          (List.range' (goodColors "1,2,red".toList).length
            ((12 - (goodColors "1,2,red".toList).length) / 2)).map fun _ => 7)
      else none :=
  vehicleColors_eq _ _ (by decide) (by decide)

/-- Of five colors, the sixth is taken. -/
theorem exists_convertColors_iff (colors : List UInt8) :
    (∃ r, convertColors colors = .ok r) ↔ colors.length ≠ 5 := by
  rw [convertColors]
  by_cases hmany : colors.length > 4
  · rw [if_pos hmany]
    have hload {i : ℕ} (hi : i < colors.length) : loadAt colors i = .ok (colors.getD i 0) :=
      loadAt_of_lt hi 0
    rw [hload (i := 0) (by omega), hload (i := 1) (by omega), hload (i := 2) (by omega),
      hload (i := 3) (by omega), hload (i := 4) (by omega)]
    by_cases hfive : colors.length = 5
    · rw [loadAt_of_le hfive.le]
      refine iff_of_false ?_ (not_not.2 hfive)
      rintro ⟨r, hr⟩
      cases hr
    · rw [hload (i := 5) (by omega)]
      exact iff_of_true ⟨_, rfl⟩ hfive
  · rw [if_neg hmany]
    refine iff_of_true ?_ (by omega)
    split_ifs with htwo
    · rw [loadAt_of_lt (show 0 < colors.length by omega) 0,
        loadAt_of_lt (show 1 < colors.length by omega) 0]
      exact ⟨_, rfl⟩
    · exact ⟨_, rfl⟩

/-- The conversion of a vehicle stays within its colors unless these are exactly five that can be
    read. -/
theorem convertColors_ok_iff {colors : List UInt8} (hlen : colors_.length < 2 ^ 63 - 1)
    (hfuel : 12 < fuel) (h : vehicleColors message random fuel colors_ = some colors) :
    (∃ r, convertColors colors = .ok r) ↔
      ¬((splitCompress isColorSeparator colors_).length = 5 ∧
        (splitCompress isColorSeparator colors_).all isColor) := by
  rw [exists_convertColors_iff, Ne, not_iff_not]
  by_cases hnone : colors_ = "-1".toList
  · -- There are twelve colors.
    subst hnone
    rw [← Option.some.inj h]
    exact iff_of_false (by simp) fun hfive => absurd hfive.1 (by decide)
  by_cases hall : (splitCompress isColorSeparator colors_).all isColor
  · rw [vehicleColors_of_all message random hnone hall] at h
    rw [← Option.some.inj h, List.length_map]
    exact (and_iff_left hall).symm
  · -- The number of the colors is half of an even one, and six.
    rw [vehicleColors_of_not_all message random fuel hnone hall] at h
    refine iff_of_false (fun hfive => ?_) fun hfive => hall hfive.2
    by_cases heven : (goodColors colors_).length % 2 = 0 ∧ (goodColors colors_).length ≤ 12
    · rw [recoverColors_goodColors heven.1 heven.2 hfuel] at h
      rw [← Option.some.inj h, List.length_append, List.length_map, List.length_map,
        List.length_range'] at hfive
      omega
    · rw [recoverColors_goodColors_eq_none hlen heven] at h
      cases h

/-- Five colors. -/
theorem convertColors_ok_iff_five :
    (∃ r, convertColors [1, 2, 3, 4, 5] = .ok r) ↔
      ¬((splitCompress isColorSeparator "1,2,3,4,5".toList).length = 5 ∧
        (splitCompress isColorSeparator "1,2,3,4,5".toList).all isColor) :=
  convertColors_ok_iff (by decide) (by decide)
    (show vehicleColors (fun _ => []) (fun _ => 0) 13 "1,2,3,4,5".toList = some [1, 2, 3, 4, 5]
      from rfl)

end

end QustomKeyboard

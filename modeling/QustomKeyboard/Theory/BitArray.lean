import Mathlib
import QustomKeyboard.Theory.Bytes

/-!
# Arrays of bits

The bytes of an array are also an array of bits, the leftmost one being the most
significant bit of the first byte (`bitAt`). A range of the bits is a number
(`fieldAt`), whose binary digits they are (`testBit_fieldAt`).

Copying a range of bits from one array to another (`BitsCopied`) is known by the
bits that are copied and those that are kept: such copies compose
(`BitsCopied.trans`), there is one result (`BitsCopied.unique`), and the number
in the range is copied along (`BitsCopied.fieldAt_eq`).
-/

namespace Theory

/-! ## The bits of a byte -/

/-- The bit `k` of a byte, counted from the most significant one. -/
def byteBit (b : UInt8) (k : ℕ) : Bool := b.toBitVec.getMsbD k

@[simp] theorem byteBit_and (b c : UInt8) (k : ℕ) :
    byteBit (b &&& c) k = (byteBit b k && byteBit c k) := by
  simp [byteBit]

@[simp] theorem byteBit_or (b c : UInt8) (k : ℕ) :
    byteBit (b ||| c) k = (byteBit b k || byteBit c k) := by
  simp [byteBit]

theorem byteBit_of_le (b : UInt8) {k : ℕ} (h : 8 ≤ k) : byteBit b k = false :=
  BitVec.getMsbD_of_ge _ _ h

@[simp] theorem byteBit_zero (k : ℕ) : byteBit 0 k = false := by
  simp [byteBit]

theorem byteBit_shiftLeft (b : UInt8) {l : ℕ} (hl : l < 8) (k : ℕ) :
    byteBit (b <<< UInt8.ofNat l) k = byteBit b (k + l) := by
  have hl' : (UInt8.ofNat l).toBitVec % 8 = BitVec.ofNat 8 l := by
    interval_cases l <;> rfl
  rw [byteBit, UInt8.toBitVec_shiftLeft, hl', BitVec.shiftLeft_eq', BitVec.getMsbD_shiftLeft,
    BitVec.toNat_ofNat, Nat.mod_eq_of_lt (by omega)]
  rfl

theorem byteBit_shiftRight (b : UInt8) {r k : ℕ} (hr : r < 8) (hk : k < 8) :
    byteBit (b >>> UInt8.ofNat r) k = (decide (r ≤ k) && byteBit b (k - r)) := by
  have hr' : (UInt8.ofNat r).toBitVec % 8 = BitVec.ofNat 8 r := by
    interval_cases r <;> rfl
  rw [byteBit, UInt8.toBitVec_shiftRight, hr', BitVec.ushiftRight_eq', BitVec.getMsbD_ushiftRight,
    BitVec.toNat_ofNat, Nat.mod_eq_of_lt (by omega), decide_eq_true hk, Bool.true_and,
    byteBit]
  by_cases h : r ≤ k
  · rw [decide_eq_true h, decide_eq_false (Nat.not_lt.2 h)]
    rfl
  · rw [decide_eq_false h, decide_eq_true (Nat.not_le.1 h)]
    rfl

/-- A byte is its bits. -/
theorem byteBit_ext {b c : UInt8} (h : ∀ k < 8, byteBit b k = byteBit c k) : b = c := by
  apply UInt8.toBitVec_inj.1
  apply BitVec.eq_of_getMsbD_eq
  exact fun k hk => h k hk

theorem byteBit_eq_testBit (b : UInt8) {k : ℕ} (hk : k < 8) :
    byteBit b k = b.toNat.testBit (7 - k) := by
  rw [byteBit, BitVec.getMsbD, decide_eq_true hk, Bool.true_and, BitVec.getLsbD]
  rfl

/-! ## The bits of an array -/

/-- The bit `i` of an array of bytes, from the left; zero behind its end. -/
def bitAt (bs : List UInt8) (i : ℕ) : Bool := byteBit (bs.getD (i / 8) 0) (i % 8)

theorem bitAt_eq (bs : List UInt8) (j : ℕ) {k : ℕ} (hk : k < 8) :
    bitAt bs (8 * j + k) = byteBit (bs.getD j 0) k := by
  rw [bitAt, show (8 * j + k) / 8 = j by omega, show (8 * j + k) % 8 = k by omega]

theorem bitAt_of_le {bs : List UInt8} {i : ℕ} (h : 8 * bs.length ≤ i) : bitAt bs i = false := by
  rw [bitAt, List.getD_eq_default _ _ (by omega), byteBit_zero]

theorem bitAt_append_left {bs : List UInt8} {i : ℕ} (h : i < 8 * bs.length) (cs : List UInt8) :
    bitAt (bs ++ cs) i = bitAt bs i := by
  rw [bitAt, bitAt, List.getD_append _ _ _ _ (by omega)]

/-- Zeros behind the end are not seen. -/
theorem bitAt_append_zeros (bs : List UInt8) (n i : ℕ) :
    bitAt (bs ++ List.replicate n 0) i = bitAt bs i := by
  rcases Nat.lt_or_ge i (8 * bs.length) with hi | hi
  · exact bitAt_append_left hi _
  · rw [bitAt_of_le hi, bitAt, List.getD_append_right _ _ _ _ (by omega),
      List.getD_eq_getElem?_getD, List.getElem?_replicate]
    split_ifs
    · exact byteBit_zero _
    · exact byteBit_zero _

/-- An array of bytes is its bits. -/
theorem bitAt_ext {bs cs : List UInt8} (hlen : bs.length = cs.length)
    (h : ∀ i, bitAt bs i = bitAt cs i) : bs = cs := by
  refine List.ext_getElem hlen fun j hj hj' => byteBit_ext fun k hk => ?_
  rw [← List.getD_eq_getElem _ 0 hj, ← List.getD_eq_getElem _ 0 hj', ← bitAt_eq bs j hk, h,
    bitAt_eq cs j hk]

/-! ## Copying bits -/

/-- `dst'` is `dst` with `n` bits of `src`, from the bit `s`, copied to the bit `d`. -/
structure BitsCopied (src : List UInt8) (s n : ℕ) (dst : List UInt8) (d : ℕ)
    (dst' : List UInt8) : Prop where
  length_eq : dst'.length = dst.length
  copied : ∀ k < n, bitAt dst' (d + k) = bitAt src (s + k)
  kept : ∀ i, i < d ∨ d + n ≤ i → bitAt dst' i = bitAt dst i

namespace BitsCopied

variable {src dst dst' dst'' : List UInt8} {s n m d : ℕ}

/-- Copying no bits. -/
theorem refl (src : List UInt8) (s : ℕ) (dst : List UInt8) (d : ℕ) :
    BitsCopied src s 0 dst d dst :=
  ⟨rfl, fun _ hk => absurd hk (Nat.not_lt_zero _), fun _ _ => rfl⟩

/-- Copying some bits, and then the bits behind them. -/
theorem trans (h : BitsCopied src s n dst d dst')
    (h' : BitsCopied src (s + n) m dst' (d + n) dst'') :
    BitsCopied src s (n + m) dst d dst'' := by
  refine ⟨h'.length_eq.trans h.length_eq, fun k hk => ?_, fun i hi => ?_⟩
  · rcases Nat.lt_or_ge k n with hkn | hkn
    · rw [h'.kept _ (Or.inl (by omega)), h.copied k hkn]
    · have := h'.copied (k - n) (by omega)
      rwa [show d + n + (k - n) = d + k by omega, show s + n + (k - n) = s + k by omega] at this
  · rw [h'.kept i (by omega), h.kept i (by omega)]

/-- Copying some bits, and then those behind them, if any. -/
theorem trans_of {s' d' : ℕ} (h : BitsCopied src s n dst d dst')
    (h' : BitsCopied src s' m dst' d' dst'') (hm : m = 0 ∨ s' = s + n ∧ d' = d + n) :
    BitsCopied src s (n + m) dst d dst'' := by
  rcases hm with rfl | ⟨rfl, rfl⟩
  · refine h.trans ⟨h'.length_eq, fun _ hk => absurd hk (Nat.not_lt_zero _), fun i _ => ?_⟩
    exact h'.kept i (by omega)
  · exact h.trans h'

/-- The bits that are copied and those that are kept determine the result. -/
theorem unique (h : BitsCopied src s n dst d dst') (h' : BitsCopied src s n dst d dst'') :
    dst' = dst'' := by
  refine bitAt_ext (h.length_eq.trans h'.length_eq.symm) fun i => ?_
  by_cases hi : i < d ∨ d + n ≤ i
  · rw [h.kept i hi, h'.kept i hi]
  · have hk := h.copied (i - d) (by omega)
    have hk' := h'.copied (i - d) (by omega)
    rw [show d + (i - d) = i by omega] at hk hk'
    rw [hk, hk']

/-- Writing a byte copies some of its bits, if the others are as they were. -/
theorem set {j a : ℕ} {x : UInt8} (hj : j < dst.length) (han : a + n ≤ 8)
    (hin : ∀ k < n, byteBit x (a + k) = bitAt src (s + k))
    (hout : ∀ k < 8, k < a ∨ a + n ≤ k → byteBit x k = bitAt dst (8 * j + k)) :
    BitsCopied src s n dst (8 * j + a) (dst.set j x) := by
  have hget : (dst.set j x).getD j 0 = x := by
    rw [List.getD_eq_getElem _ _ (by rwa [List.length_set]), List.getElem_set_self]
  refine ⟨List.length_set, fun k hk => ?_, fun i hi => ?_⟩
  · rw [Nat.add_assoc, bitAt_eq _ _ (by omega), hget, hin k hk]
  · by_cases hij : i / 8 = j
    · have hi8 : i = 8 * j + i % 8 := by omega
      rw [hi8, bitAt_eq _ _ (Nat.mod_lt _ (by decide)), hget]
      exact hout _ (Nat.mod_lt _ (by decide)) (by omega)
    · rw [bitAt, bitAt, List.getD_eq_getElem?_getD, List.getElem?_set_ne (Ne.symm hij),
        ← List.getD_eq_getElem?_getD]

/-- Writing whole bytes copies their bits. -/
theorem bytes {i j l : ℕ} (hi : i + l ≤ src.length) (hj : j + l ≤ dst.length) :
    BitsCopied src (8 * i) (8 * l) dst (8 * j)
      (dst.take j ++ (src.drop i).take l ++ dst.drop (j + l)) := by
  have hj' : (dst.take j).length = j := List.length_take_of_le (by omega)
  have hl : ((src.drop i).take l).length = l :=
    List.length_take_of_le (by rw [List.length_drop]; omega)
  refine ⟨by simp only [List.length_append, hj', hl, List.length_drop]; omega, fun k hk => ?_,
    fun b hb => ?_⟩
  · rw [bitAt, bitAt, show (8 * j + k) / 8 = j + k / 8 by omega,
      show (8 * i + k) / 8 = i + k / 8 by omega, show (8 * j + k) % 8 = (8 * i + k) % 8 by omega,
      List.append_assoc, List.getD_append_right _ _ _ _ (by omega), hj', Nat.add_sub_cancel_left,
      List.getD_append _ _ _ _ (by omega), List.getD_eq_getElem?_getD, List.getElem?_take_of_lt
      (by omega), List.getElem?_drop, List.getD_eq_getElem?_getD]
  · rw [bitAt, bitAt, List.append_assoc]
    rcases hb with hb | hb
    · rw [List.getD_append _ _ _ _ (by omega), List.getD_eq_getElem?_getD,
        List.getElem?_take_of_lt (by omega), List.getD_eq_getElem?_getD]
    · rw [List.getD_append_right _ _ _ _ (by omega), List.getD_append_right _ _ _ _ (by omega),
        hj', hl, List.getD_eq_getElem?_getD, List.getElem?_drop,
        show j + l + (b / 8 - j - l) = b / 8 by omega, List.getD_eq_getElem?_getD]

end BitsCopied

/-! ## The number in a range of bits -/

/-- The number in the `n` bits from `o`, the leftmost bit being the highest digit. -/
def fieldAt (bs : List UInt8) (o : ℕ) : ℕ → ℕ
  | 0 => 0
  | n + 1 => 2 * fieldAt bs o n + (bitAt bs (o + n)).toNat

theorem fieldAt_lt (bs : List UInt8) (o n : ℕ) : fieldAt bs o n < 2 ^ n := by
  induction n with
  | zero => exact Nat.zero_lt_one
  | succ n ih =>
    have hb := (bitAt bs (o + n)).toNat_le
    rw [fieldAt, Nat.pow_succ]
    omega

/-- The binary digits of the number are the bits of the range. -/
theorem testBit_fieldAt (bs : List UInt8) (o n k : ℕ) :
    (fieldAt bs o n).testBit k = (decide (k < n) && bitAt bs (o + (n - 1 - k))) := by
  induction n generalizing k with
  | zero => simp [fieldAt]
  | succ n ih =>
    have hmod : (2 * fieldAt bs o n + (bitAt bs (o + n)).toNat) % 2 = (bitAt bs (o + n)).toNat := by
      have hb := (bitAt bs (o + n)).toNat_le
      omega
    have hdiv : (2 * fieldAt bs o n + (bitAt bs (o + n)).toNat) / 2 = fieldAt bs o n := by
      have hb := (bitAt bs (o + n)).toNat_le
      omega
    cases k with
    | zero =>
      rw [fieldAt, Nat.testBit_zero, hmod]
      cases h : bitAt bs (o + n) <;> simp [h]
    | succ k =>
      rw [fieldAt, Nat.testBit_succ, hdiv, ih, Nat.add_sub_cancel, Nat.sub_sub, Nat.add_comm 1 k]
      congr 1
      exact decide_eq_decide.2 (by omega)

/-- The number determines the bits of the range. -/
theorem bitAt_eq_of_fieldAt_eq {bs cs : List UInt8} {o n i : ℕ}
    (h : fieldAt bs o n = fieldAt cs o n) (hi : o ≤ i) (hin : i < o + n) :
    bitAt bs i = bitAt cs i := by
  have hbit := testBit_fieldAt bs o n (o + n - 1 - i)
  rw [h, testBit_fieldAt, decide_eq_true (by omega), Bool.true_and, Bool.true_and,
    show o + (n - 1 - (o + n - 1 - i)) = i by omega] at hbit
  exact hbit.symm

/-- The number depends on the bits of the range only. -/
theorem fieldAt_congr {bs cs : List UInt8} {o p n : ℕ}
    (h : ∀ k < n, bitAt bs (o + k) = bitAt cs (p + k)) : fieldAt bs o n = fieldAt cs p n := by
  induction n with
  | zero => rfl
  | succ n ih =>
    rw [fieldAt, fieldAt, ih fun k hk => h k (by omega), h n (Nat.lt_succ_self n)]

/-- The end of a range has the last digits of its number. -/
theorem fieldAt_mod (bs : List UInt8) (o z n : ℕ) :
    fieldAt bs o (z + n) % 2 ^ n = fieldAt bs (o + z) n := by
  apply Nat.eq_of_testBit_eq
  intro k
  rw [Nat.testBit_mod_two_pow, testBit_fieldAt, testBit_fieldAt]
  by_cases hk : k < n
  · rw [decide_eq_true hk, decide_eq_true (by omega), Bool.true_and, Bool.true_and, Bool.true_and,
      show o + (z + n - 1 - k) = o + z + (n - 1 - k) by omega]
  · rw [decide_eq_false hk, Bool.false_and, Bool.false_and]

/-- A range that begins with zeros is the number in the rest of it. -/
theorem fieldAt_of_zeros {bs : List UInt8} {o z n : ℕ} (h : ∀ k < z, bitAt bs (o + k) = false) :
    fieldAt bs o (z + n) = fieldAt bs (o + z) n := by
  rw [← fieldAt_mod, Nat.mod_eq_of_lt]
  apply Nat.lt_pow_two_of_testBit
  intro k hk
  rw [testBit_fieldAt]
  by_cases hlt : k < z + n
  · rw [h _ (by omega), Bool.and_false]
  · rw [decide_eq_false hlt, Bool.false_and]

namespace BitsCopied

variable {src dst dst' : List UInt8} {s n d : ℕ}

/-- The number in the range is copied. -/
theorem fieldAt_eq (h : BitsCopied src s n dst d dst') : fieldAt dst' d n = fieldAt src s n :=
  fieldAt_congr h.copied

end BitsCopied

/-! ## Integers as bits -/

/-- The digits of an integer in memory. -/
theorem testBit_ofLe (bs : List UInt8) (j : ℕ) {k : ℕ} (hk : k < 8) :
    (ofLe bs).testBit (8 * j + k) = byteBit (bs.getD j 0) (7 - k) := by
  induction bs generalizing j with
  | nil => simp [ofLe]
  | cons b bs ih =>
    have hb : b.toNat < 2 ^ 8 := b.toNat_lt
    rw [ofLe, Nat.add_comm b.toNat, show 256 = 2 ^ 8 from rfl,
      Nat.testBit_two_pow_mul_add _ hb]
    cases j with
    | zero =>
      rw [if_pos (by omega), byteBit_eq_testBit _ (by omega)]
      congr 1
      omega
    | succ j =>
      rw [if_neg (by omega), show 8 * (j + 1) + k - 8 = 8 * j + k by omega, ih]
      rfl

/-- An array of bytes as an integer, the most significant byte first. -/
theorem fieldAt_eq_ofLe_reverse (bs : List UInt8) :
    fieldAt bs 0 (8 * bs.length) = ofLe bs.reverse := by
  apply Nat.eq_of_testBit_eq
  intro i
  have hofLe := testBit_ofLe bs.reverse (i / 8) (Nat.mod_lt i (show 8 > 0 by decide))
  rw [show 8 * (i / 8) + i % 8 = i by omega] at hofLe
  rw [testBit_fieldAt, Nat.zero_add, hofLe, List.getD_eq_getElem?_getD]
  by_cases hi : i < 8 * bs.length
  · rw [decide_eq_true hi, Bool.true_and, List.getElem?_reverse (by omega),
      show 8 * bs.length - 1 - i = 8 * (bs.length - 1 - i / 8) + (7 - i % 8) by omega,
      bitAt_eq _ _ (by omega), List.getD_eq_getElem?_getD]
  · rw [decide_eq_false hi, Bool.false_and,
      List.getElem?_eq_none (by rw [List.length_reverse]; omega), Option.getD_none, byteBit_zero]

end Theory

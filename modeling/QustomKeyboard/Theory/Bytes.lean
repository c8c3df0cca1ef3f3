import Mathlib.Tactic.Ring

/-!
# Little-endian integers

How a little-endian machine lays out an integer of `n` bytes in memory
(`toLe`), and how it reads one back (`ofLe`). The two are inverse to each
other on the values that fit (`ofLe_toLe_of_lt`) and on the `n` bytes
(`toLe_ofLe`), so that comparing integers is comparing their bytes.
-/

namespace Theory

/-- The `n` bytes of `x`, the least significant first. -/
def toLe : ℕ → ℕ → List UInt8
  | 0, _ => []
  | n + 1, x => UInt8.ofNat x :: toLe n (x / 256)

/-- The integer of which `bs` are the bytes, the least significant first. -/
def ofLe : List UInt8 → ℕ
  | [] => 0
  | b :: bs => b.toNat + 256 * ofLe bs

@[simp] theorem length_toLe (n x : ℕ) : (toLe n x).length = n := by
  induction n generalizing x with
  | zero => rfl
  | succ n ih => rw [toLe, List.length_cons, ih]

theorem ofLe_lt (bs : List UInt8) : ofLe bs < 256 ^ bs.length := by
  induction bs with
  | nil => simp [ofLe]
  | cons b bs ih =>
    have hb := b.toNat_lt
    rw [ofLe, List.length_cons, Nat.pow_succ]
    omega

theorem ofLe_toLe (n x : ℕ) : ofLe (toLe n x) = x % 256 ^ n := by
  induction n generalizing x with
  | zero => simp [toLe, ofLe, Nat.mod_one]
  | succ n ih =>
    have hb : (UInt8.ofNat x).toNat = x % 256 := UInt8.toNat_ofNat'
    rw [toLe, ofLe, ih, hb, Nat.pow_succ', Nat.mod_mul]

/-- A value that fits is read back. -/
theorem ofLe_toLe_of_lt {n x : ℕ} (h : x < 256 ^ n) : ofLe (toLe n x) = x := by
  rw [ofLe_toLe, Nat.mod_eq_of_lt h]

/-- The bytes of an integer determine it, and are its layout. -/
theorem toLe_ofLe (bs : List UInt8) : toLe bs.length (ofLe bs) = bs := by
  induction bs with
  | nil => rfl
  | cons b bs ih =>
    have hb := b.toNat_lt
    have hdiv : (b.toNat + 256 * ofLe bs) / 256 = ofLe bs := by omega
    have hmod : UInt8.ofNat (b.toNat + 256 * ofLe bs) = b := by
      apply UInt8.toNat_inj.1
      rw [UInt8.toNat_ofNat']
      omega
    rw [List.length_cons, ofLe, toLe, hdiv, hmod, ih]

theorem toLe_injective {n x y : ℕ} (hx : x < 256 ^ n) (hy : y < 256 ^ n)
    (h : toLe n x = toLe n y) : x = y := by
  rw [← ofLe_toLe_of_lt hx, ← ofLe_toLe_of_lt hy, h]

end Theory

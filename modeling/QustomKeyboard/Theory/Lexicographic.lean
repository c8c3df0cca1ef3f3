import Mathlib

/-!
# Numerals in lexicographic order

Sorting texts puts numbers in the right order if they are written with the same
number of digits (`padded`): the order of the numerals is then that of the numbers
(`padded_lt_padded_iff`). Likewise for several numbers one after the other, where
the first ones take precedence (`padded_append_lt_iff`).
-/

namespace Theory

section Lists

variable {α : Type*} [LinearOrder α]

theorem append_left_lt_iff (p x y : List α) : p ++ x < p ++ y ↔ x < y := by
  induction p with
  | nil => rfl
  | cons a p ih =>
    rw [List.cons_append, List.cons_append, List.cons_lt_cons_iff, ih]
    simp

/-- What comes first takes precedence, if it is of the same length. -/
theorem append_lt_append_iff {a b x y : List α} (h : a.length = b.length) :
    a ++ x < b ++ y ↔ a < b ∨ a = b ∧ x < y := by
  induction a generalizing b with
  | nil =>
    obtain rfl := List.length_eq_zero_iff.1 h.symm
    simp
  | cons c a ih =>
    obtain ⟨d, b, rfl⟩ := List.exists_cons_of_length_eq_add_one h.symm
    rw [List.cons_append, List.cons_append, List.cons_lt_cons_iff, List.cons_lt_cons_iff,
      ih (Nat.succ.inj h), List.cons.injEq]
    tauto

/-- What is compared in the same way is equal in the same cases. -/
theorem eq_iff_of_lt_iff {β : Type*} [LinearOrder β] {a a' : α} {b b' : β}
    (hlt : a < a' ↔ b < b') (hgt : a' < a ↔ b' < b) : a = a' ↔ b = b' := by
  rw [eq_iff_le_not_lt, eq_iff_le_not_lt, ← not_lt, ← not_lt, hlt, hgt]

end Lists

/-- The numeral of `n` with `w` digits, padded with zeros. -/
def padded : ℕ → ℕ → List Char
  | 0, _ => []
  | w + 1, n => padded w (n / 10) ++ [(n % 10).digitChar]

@[simp] theorem length_padded (w n : ℕ) : (padded w n).length = w := by
  induction w generalizing n with
  | zero => rfl
  | succ w ih => rw [padded, List.length_append, ih, List.length_singleton]

theorem digitChar_lt_iff {c d : ℕ} (hc : c < 10) (hd : d < 10) :
    c.digitChar < d.digitChar ↔ c < d := by
  have h : ∀ c d : Fin 10, c.1.digitChar < d.1.digitChar ↔ c.1 < d.1 := by decide
  exact h ⟨c, hc⟩ ⟨d, hd⟩

/-- The order of the numerals is that of the numbers. -/
theorem padded_lt_padded_iff {w n k : ℕ} (hn : n < 10 ^ w) (hk : k < 10 ^ w) :
    padded w n < padded w k ↔ n < k := by
  induction w generalizing n k with
  | zero =>
    rw [Nat.lt_one_iff.1 hn, Nat.lt_one_iff.1 hk]
    exact iff_of_false (lt_irrefl _) (lt_irrefl _)
  | succ w ih =>
    rw [Nat.pow_succ'] at hn hk
    have hlt := ih (Nat.div_lt_of_lt_mul hn) (Nat.div_lt_of_lt_mul hk)
    have hgt := ih (Nat.div_lt_of_lt_mul hk) (Nat.div_lt_of_lt_mul hn)
    rw [padded, padded, append_lt_append_iff (by simp), hlt, eq_iff_of_lt_iff hlt hgt,
      List.cons_lt_cons_iff,
      digitChar_lt_iff (Nat.mod_lt n (by decide)) (Nat.mod_lt k (by decide))]
    simp only [lt_irrefl, and_false, or_false]
    omega

theorem padded_inj {w n k : ℕ} (hn : n < 10 ^ w) (hk : k < 10 ^ w) :
    padded w n = padded w k ↔ n = k :=
  eq_iff_of_lt_iff (padded_lt_padded_iff hn hk) (padded_lt_padded_iff hk hn)

/-- A number at the beginning takes precedence. -/
theorem padded_append_lt_iff {w n k : ℕ} (hn : n < 10 ^ w) (hk : k < 10 ^ w)
    {x y : List Char} : padded w n ++ x < padded w k ++ y ↔ n < k ∨ n = k ∧ x < y := by
  rw [append_lt_append_iff (by simp), padded_lt_padded_iff hn hk, padded_inj hn hk]

end Theory

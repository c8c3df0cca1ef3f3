import Mathlib.Data.Nat.Notation

/-!
# Hexadecimal numerals

The numeral of a number in upper-case hexadecimal digits, without leading zeros. Different
numbers have different numerals (`hexadecimal_inj`).
-/

namespace Theory

/-- A hexadecimal digit, in upper case. -/
def hexDigit (d : ℕ) : Char := (Nat.digitChar d).toUpper

/-- The numeral of a number, as `"{:X}"` formats it. -/
def hexadecimal (n : ℕ) : List Char := (Nat.toDigits 16 n).map Char.toUpper

/-- The numeral of a buffer: two digits for each byte. -/
def hexBytes (bs : List UInt8) : List Char :=
  bs.flatMap fun b => [hexDigit (b.toNat / 16), hexDigit (b.toNat % 16)]

variable {m n : ℕ}

theorem hexDigit_inj : ∀ c < 16, ∀ d < 16, hexDigit c = hexDigit d → c = d := by
  decide

theorem hexadecimal_of_lt (h : n < 16) : hexadecimal n = [hexDigit n] := by
  rw [hexadecimal, Nat.toDigits_of_lt_base h]
  rfl

theorem hexadecimal_of_le (h : 16 ≤ n) :
    hexadecimal n = hexadecimal (n / 16) ++ [hexDigit (n % 16)] := by
  rw [hexadecimal, Nat.toDigits_of_base_le (by decide) h, List.map_append]
  rfl

theorem hexadecimal_ne_nil (n : ℕ) : hexadecimal n ≠ [] :=
  mt List.map_eq_nil_iff.1 Nat.toDigits_ne_nil

theorem hexadecimal_inj (h : hexadecimal m = hexadecimal n) : m = n := by
  induction m using Nat.strongRecOn generalizing n with
  | ind m ih =>
    rcases Nat.lt_or_ge m 16 with hm | hm <;> rcases Nat.lt_or_ge n 16 with hn | hn
    · rw [hexadecimal_of_lt hm, hexadecimal_of_lt hn, List.singleton_inj] at h
      exact hexDigit_inj m hm n hn h
    · rw [hexadecimal_of_lt hm, hexadecimal_of_le hn, ← List.nil_append [hexDigit m]] at h
      exact absurd (List.append_inj_left' h rfl).symm (hexadecimal_ne_nil _)
    · rw [hexadecimal_of_le hm, hexadecimal_of_lt hn, ← List.nil_append [hexDigit n]] at h
      exact absurd (List.append_inj_left' h rfl) (hexadecimal_ne_nil _)
    · rw [hexadecimal_of_le hm, hexadecimal_of_le hn] at h
      obtain ⟨hfront, hlast⟩ := List.append_inj' h rfl
      have hdiv := ih (m / 16) (by omega) hfront
      have hmod := hexDigit_inj _ (Nat.mod_lt m (by decide)) _
        (Nat.mod_lt n (by decide)) (List.singleton_inj.1 hlast)
      rw [← Nat.div_add_mod m 16, ← Nat.div_add_mod n 16, hdiv, hmod]

end Theory

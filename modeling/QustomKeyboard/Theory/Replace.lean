import Mathlib.Data.List.Infix

/-!
# Replacing in texts

Replacing all occurrences of a pattern (`replaceAll`) goes from the left to the right,
and on behind what has been replaced. A text is thus made up of occurrences of the
pattern and elements at which none begins (`replace_induction`), and the equations of
`replaceAll` are about these (`replaceAll_append`, `replaceAll_cons`).

Replacing a single element is replacing every element by itself (`replaceAll_singleton`).
-/

namespace Theory

variable {α : Type*} [DecidableEq α]

/-- Replace all occurrences of `pat` by `rep`, after a number of elements. -/
def replaceFrom (pat rep : List α) : ℕ → List α → List α
  | _, [] => []
  | skip + 1, _ :: l => replaceFrom pat rep skip l
  | 0, a :: l =>
    if pat <+: a :: l then rep ++ replaceFrom pat rep (pat.length - 1) l
    else a :: replaceFrom pat rep 0 l

/-- Replace all occurrences of `pat` by `rep`. -/
def replaceAll (pat rep l : List α) : List α := replaceFrom pat rep 0 l

variable {pat rep l : List α} {a : α}

theorem replaceFrom_length_append (u l : List α) :
    replaceFrom pat rep u.length (u ++ l) = replaceAll pat rep l := by
  induction u with
  | nil => rfl
  | cons a u ih => exact ih

/-- An occurrence of the pattern is replaced. -/
theorem replaceAll_append (hpat : pat ≠ []) (l : List α) :
    replaceAll pat rep (pat ++ l) = rep ++ replaceAll pat rep l := by
  obtain ⟨a, p, rfl⟩ := List.exists_cons_of_ne_nil hpat
  have hprefix : a :: p <+: a :: (p ++ l) := List.prefix_append (a :: p) l
  rw [List.cons_append, replaceAll, replaceFrom, if_pos hprefix, List.length_cons,
    Nat.add_sub_cancel, replaceFrom_length_append]

/-- An element at which the pattern does not begin is kept. -/
theorem replaceAll_cons (h : ¬pat <+: a :: l) :
    replaceAll pat rep (a :: l) = a :: replaceAll pat rep l := by
  rw [replaceAll, replaceFrom, if_neg h]
  rfl

theorem replaceAll_cons_of_ne {b : α} (h : a ≠ b) (p l : List α) :
    replaceAll (b :: p) rep (a :: l) = a :: replaceAll (b :: p) rep l :=
  replaceAll_cons fun hp => h (List.cons_prefix_cons.1 hp).1.symm

/-- A text without the first element of the pattern is kept. -/
theorem replaceAll_append_of_notMem {b : α} {u : List α} (h : b ∉ u) (p l : List α) :
    replaceAll (b :: p) rep (u ++ l) = u ++ replaceAll (b :: p) rep l := by
  induction u with
  | nil => rfl
  | cons a u ih =>
    obtain ⟨hne, h⟩ := not_or.1 (mt List.mem_cons.2 h)
    rw [List.cons_append, replaceAll_cons_of_ne (Ne.symm hne), ih h, List.cons_append]

theorem replaceAll_singleton (b : α) (rep l : List α) :
    replaceAll [b] rep l = l.flatMap fun a => if a = b then rep else [a] := by
  induction l with
  | nil => rfl
  | cons a l ih =>
    rw [List.flatMap_cons, ← ih]
    by_cases h : a = b
    · rw [if_pos h, h]
      exact replaceAll_append (List.cons_ne_nil b []) l
    · rw [if_neg h, replaceAll_cons_of_ne h, List.singleton_append]

/-- What holds of the empty text, and is kept by an occurrence of the pattern, and by an
    element at which the pattern does not begin, holds of all texts. -/
theorem replace_induction {motive : List α → Prop} (hpat : pat ≠ []) (nil : motive [])
    (replaced : ∀ l, motive l → motive (pat ++ l))
    (kept : ∀ a l, ¬pat <+: a :: l → motive l → motive (a :: l)) (l : List α) : motive l := by
  induction h : l.length using Nat.strongRecOn generalizing l with
  | ind n ih =>
    cases l with
    | nil => exact nil
    | cons a l =>
      rw [List.length_cons] at h
      by_cases hprefix : pat <+: a :: l
      · obtain ⟨l', hl'⟩ := hprefix
        have hlen := congrArg List.length hl'
        rw [List.length_append, List.length_cons] at hlen
        have hpos : 0 < pat.length := List.length_pos_iff.2 hpat
        exact hl' ▸ replaced l' (ih l'.length (by omega) l' rfl)
      · exact kept a l hprefix (ih l.length (by omega) l rfl)

end Theory

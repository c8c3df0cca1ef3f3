import Mathlib.Data.List.Basic

/-!
# Selecting from a list

Two ways to select from the elements of a list and to show what has been selected
(`List.filterMap`) may have the same result although they differ on single elements.
Not so if one of them selects nothing but what the other selects
(`eq_of_filterMap_eq`).

The first element with a property does not depend on the order of the list if there
is one at most (`find?_eq_some_iff_of_unique`).
-/

namespace Theory

variable {α β : Type*} {f g : α → Option β} {l : List α}

theorem length_filterMap_le (h : ∀ a ∈ l, g a = none → f a = none) :
    (l.filterMap f).length ≤ (l.filterMap g).length := by
  rw [List.length_filterMap_eq_countP, List.length_filterMap_eq_countP]
  refine List.countP_mono_left fun a ha hf => ?_
  rw [Option.isSome_iff_ne_none] at hf ⊢
  exact fun hg => hf (h a ha hg)

/-- If `f` selects nothing but what `g` selects and the result is the same, they agree on
    every element. -/
theorem eq_of_filterMap_eq (h : ∀ a ∈ l, g a = none → f a = none)
    (heq : l.filterMap f = l.filterMap g) : ∀ a ∈ l, f a = g a := by
  induction l with
  | nil => exact fun _ ha => absurd ha List.not_mem_nil
  | cons a l ih =>
    rw [List.forall_mem_cons] at h ⊢
    rcases hg : g a with _ | b
    · rw [List.filterMap_cons_none (h.1 hg), List.filterMap_cons_none hg] at heq
      exact ⟨h.1 hg, ih h.2 heq⟩
    rw [List.filterMap_cons_some hg] at heq
    rcases hf : f a with _ | c
    · -- Otherwise `f` would have to make up for it later.
      rw [List.filterMap_cons_none hf] at heq
      have hle := length_filterMap_le h.2
      rw [heq, List.length_cons] at hle
      exact absurd hle (Nat.not_succ_le_self _)
    · rw [List.filterMap_cons_some hf, List.cons.injEq] at heq
      exact ⟨congrArg some heq.1, ih h.2 heq.2⟩

theorem find?_eq_some_iff_of_unique {p : α → Bool}
    (h : ∀ a ∈ l, ∀ b ∈ l, p a = true → p b = true → a = b) {a : α} :
    l.find? p = some a ↔ a ∈ l ∧ p a = true := by
  constructor
  · exact fun ha => ⟨List.mem_of_find?_eq_some ha, List.find?_some ha⟩
  · rintro ⟨ha, hpa⟩
    obtain ⟨b, hb⟩ := Option.isSome_iff_exists.1 (List.find?_isSome.2 ⟨a, ha, hpa⟩)
    rw [hb, h b (List.mem_of_find?_eq_some hb) a ha (List.find?_some hb) hpa]

end Theory

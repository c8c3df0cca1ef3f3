import Mathlib.Data.Finset.Max

/-!
# Ordered sets

A finite set over a linear order is traversed in this order. Searching it for an
element with some property finds the first such element, and not one that is
meant (`eraseFirst_eq_erase_iff`).
-/

namespace Theory

variable {α : Type*} [LinearOrder α] (s : Finset α) (p : α → Bool)

/-- The first element of `s` with the property `p`. -/
def findFirst : WithTop α := (s.filter fun a => p a = true).min

/-- Erase the first element of `s` with the property `p`. -/
def eraseFirst : Finset α :=
  match findFirst s p with
  | (a : α) => s.erase a
  | ⊤ => s

variable {s p} {a : α}

theorem findFirst_eq_coe_iff :
    findFirst s p = a ↔ a ∈ s ∧ p a = true ∧ ∀ b ∈ s, b < a → p b = false := by
  rw [findFirst]
  constructor
  · intro h
    obtain ⟨ha, hpa⟩ := Finset.mem_filter.1 (Finset.mem_of_min h)
    refine ⟨ha, hpa, fun b hb hlt => Bool.eq_false_of_not_eq_true fun hpb => ?_⟩
    exact hlt.not_ge (Finset.min_le_of_eq (Finset.mem_filter.2 ⟨hb, hpb⟩) h)
  · rintro ⟨ha, hpa, hfirst⟩
    refine le_antisymm (Finset.min_le (Finset.mem_filter.2 ⟨ha, hpa⟩)) ?_
    refine Finset.le_min fun b hb => WithTop.coe_le_coe.2 (le_of_not_gt fun hlt => ?_)
    obtain ⟨hb, hpb⟩ := Finset.mem_filter.1 hb
    rw [hfirst b hb hlt] at hpb
    cases hpb

theorem eraseFirst_subset : eraseFirst s p ⊆ s := by
  rw [eraseFirst]
  split
  · exact Finset.erase_subset _ s
  · exact subset_rfl

/-- With nothing to be found, nothing is erased. -/
theorem eraseFirst_eq_self (h : ∀ b ∈ s, p b = false) : eraseFirst s p = s := by
  rw [eraseFirst]
  split
  · rename_i a ha
    obtain ⟨ha, hpa, -⟩ := findFirst_eq_coe_iff.1 ha
    exact absurd hpa (Bool.eq_false_iff.1 (h a ha))
  · rfl

/-- Whether the search for an element of the set erases this very element: iff
    no element before it has the property. -/
theorem eraseFirst_eq_erase_iff (ha : a ∈ s) (hpa : p a = true) :
    eraseFirst s p = s.erase a ↔ ∀ b ∈ s, b < a → p b = false := by
  constructor
  · intro h
    have herased : a ∉ eraseFirst s p := h ▸ Finset.notMem_erase a s
    rw [eraseFirst] at herased
    split at herased
    · rename_i b hb
      -- The element that has been erased is `a` itself.
      have hab : a = b := by
        by_contra hne
        exact herased (Finset.mem_erase.2 ⟨hne, ha⟩)
      exact (findFirst_eq_coe_iff.1 (hab ▸ hb)).2.2
    · exact absurd ha herased
  · intro h
    rw [eraseFirst, findFirst_eq_coe_iff.2 ⟨ha, hpa, h⟩]

end Theory

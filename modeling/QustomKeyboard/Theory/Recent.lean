import Mathlib.Data.Finset.Card
import Mathlib.Data.List.DropRight
import Mathlib.Order.Bounds.Basic

/-!
# The most recent ones

Of what has been added in increasing order, the most recent `k` are the last ones
(`List.rtake`). Removing the least of `k + 1` of them leaves `k` (`erase_isLeast`).
-/

namespace Theory

variable {α : Type*} {l : List α}

theorem length_rtake (l : List α) (k : ℕ) : (l.rtake k).length = min l.length k := by
  rw [List.rtake, List.length_drop]
  omega

theorem rtake_of_length_le {k : ℕ} (h : l.length ≤ k) : l.rtake k = l := by
  rw [List.rtake, Nat.sub_eq_zero_of_le h, List.drop_zero]

/-- The oldest one comes first. -/
theorem rtake_succ_of_lt {k : ℕ} (h : k < l.length) : ∃ a, l.rtake (k + 1) = a :: l.rtake k := by
  have hlt : l.length - (k + 1) < l.length := by omega
  refine ⟨l[l.length - (k + 1)], ?_⟩
  rw [List.rtake, List.rtake, List.drop_eq_getElem_cons hlt]
  congr 2
  omega

variable [LinearOrder α] [DecidableEq α]

omit [DecidableEq α] in
theorem pairwise_rtake (h : l.Pairwise (· < ·)) (k : ℕ) : (l.rtake k).Pairwise (· < ·) :=
  h.sublist (List.drop_sublist _ l)

theorem card_rtake (h : l.Pairwise (· < ·)) (k : ℕ) :
    (l.rtake k).toFinset.card = min l.length k := by
  rw [List.toFinset_card_of_nodup ((pairwise_rtake h k).imp fun hlt => hlt.ne), length_rtake]

/-- Without the least one, there is one fewer. -/
theorem erase_isLeast (h : l.Pairwise (· < ·)) {k : ℕ} (hk : k < l.length) {a : α}
    (ha : IsLeast ((l.rtake (k + 1)).toFinset : Set α) a) :
    (l.rtake (k + 1)).toFinset.erase a = (l.rtake k).toFinset := by
  obtain ⟨b, hb⟩ := rtake_succ_of_lt hk
  have hpairwise := pairwise_rtake h (k + 1)
  rw [hb] at ha hpairwise ⊢
  obtain ⟨hlt, -⟩ := List.pairwise_cons.1 hpairwise
  have hnot : b ∉ (l.rtake k).toFinset := fun hmem => lt_irrefl b (hlt b (List.mem_toFinset.1 hmem))
  have hab : a = b := by
    refine le_antisymm (ha.2 (by simp)) ?_
    rcases List.mem_cons.1 (List.mem_toFinset.1 ha.1) with rfl | hmem
    · exact le_rfl
    · exact (hlt a hmem).le
  rw [hab, List.toFinset_cons, Finset.erase_insert hnot]

end Theory

import Mathlib.Data.List.Nodup

/-!
# Logs

A log is a list of entries in the order in which they were made. Its entries
are numbered when each carries the number of entries before it (`Numbered`);
they are then told apart by their numbers (`Numbered.nodup`), even if they are
the same otherwise.

The order of two entries is that they are, in this order, a sublist of the log
(`Before`). A prefix of a log knows the order of everything before each of its
entries (`Before.of_append`).
-/

namespace Theory

variable {α : Type*}

/-- Each entry of the log carries the number of entries before it. -/
def Numbered (seq : α → ℕ) (l : List α) : Prop := l.map seq = List.range l.length

theorem numbered_nil {seq : α → ℕ} : Numbered seq [] := rfl

theorem Numbered.concat {seq : α → ℕ} {l : List α} (h : Numbered seq l) {a : α}
    (ha : seq a = l.length) : Numbered seq (l ++ [a]) := by
  rw [Numbered, List.map_append, h, List.length_append, List.length_singleton, List.range_succ,
    List.map_singleton, ha]

theorem Numbered.nodup {seq : α → ℕ} {l : List α} (h : Numbered seq l) : l.Nodup := by
  apply List.Nodup.of_map seq
  rw [h]
  exact List.nodup_range

/-- The entry `a` of the log comes before its entry `b`. -/
def Before (a b : α) (l : List α) : Prop := [a, b].Sublist l

/-- What comes before an entry of a prefix is in the prefix. -/
theorem Before.of_append {l l' : List α} (hnodup : (l ++ l').Nodup) {a b : α}
    (h : Before a b (l ++ l')) (hb : b ∈ l) : Before a b l := by
  have hb' : b ∉ l' := fun hb' => (List.nodup_append.1 hnodup).2.2 b hb b hb' rfl
  obtain ⟨l₁, l₂, heq, hl₁, hl₂⟩ := List.sublist_append_iff.1 h
  rcases List.eq_nil_or_concat l₂ with rfl | ⟨init, c, rfl⟩
  · rw [List.append_nil] at heq
    rwa [Before, heq]
  · -- The last of the two would be in the rest.
    rw [List.concat_eq_append] at heq hl₂
    have hlast : [a] ++ [b] = (l₁ ++ init) ++ [c] := by rw [List.append_assoc]; exact heq
    obtain rfl : b = c := List.singleton_inj.1 (List.append_inj' hlast rfl).2
    exact absurd (hl₂.subset (List.mem_append_right _ (List.mem_singleton_self b))) hb'

end Theory

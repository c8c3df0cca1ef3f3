import Mathlib.Data.List.Basic
import Mathlib.Data.Nat.Notation

/-!
# Pieces of a list

A list is cut into pieces of the same length, except for the last piece, which may be
shorter (`CutInto`). When the pieces are joined by single elements, these stand at every
`n + 1`-st place, and to remove what stands there is to get the list back
(`removeEvery_intercalate`).
-/

namespace Theory

variable {α : Type*}

/-- The list is cut into pieces of `n` elements, the last one having at most `n`, but some. -/
structure CutInto (n : ℕ) (l : List α) (pieces : List (List α)) : Prop where
  flatten_eq : pieces.flatten = l
  length_eq : ∀ c ∈ pieces.dropLast, c.length = n
  length_last : ∀ c ∈ pieces.getLast?, 1 ≤ c.length ∧ c.length ≤ n

/-- The list without its elements at the places `k`, `2 k`, `3 k`, …, the first place being 1. -/
def removeEvery (k : ℕ) (l : List α) : List α :=
  (l.zipIdx.filter fun p => ¬k ∣ p.2 + 1).map Prod.fst

variable {k n : ℕ} {l : List α} {x : α}

theorem removeEvery_of_length_lt (h : l.length < k) : removeEvery k l = l := by
  have hkept : ∀ p ∈ l.zipIdx, decide (¬k ∣ p.2 + 1) = true := by
    intro p hp
    have hlt : p.2 < l.length := List.snd_lt_of_mem_zipIdx hp
    exact decide_eq_true (Nat.not_dvd_of_pos_of_lt (by omega) (by omega))
  rw [removeEvery, List.filter_eq_self.2 hkept, List.zipIdx_map_fst]

/-- Behind `k` elements the places are counted anew. -/
theorem removeEvery_append {u : List α} (h : u.length = k) (l : List α) :
    removeEvery k (u ++ l) = removeEvery k u ++ removeEvery k l := by
  have hcount : ∀ p : α × ℕ, (k ∣ k + p.2 + 1 ↔ k ∣ p.2 + 1) := fun p => by
    rw [Nat.add_assoc, Nat.dvd_add_right (Nat.dvd_refl k)]
  simp only [removeEvery, List.zipIdx_append, List.filter_append, List.map_append, h,
    Nat.zero_add]
  congr 1
  rw [List.zipIdx_eq_map_add, List.filter_map, List.map_map]
  simp only [Function.comp_def, hcount]

theorem removeEvery_concat {u : List α} (h : u.length + 1 = k) :
    removeEvery k (u ++ [x]) = u := by
  have hu := removeEvery_of_length_lt (l := u) (k := k) (by omega)
  rw [removeEvery] at hu
  have hdvd : k ∣ u.length + 1 := h ▸ Nat.dvd_refl _
  simp only [removeEvery, List.zipIdx_append, List.filter_append, List.map_append, hu]
  simp [hdvd]

/-- What is joined is the pieces, each with the element behind it, and the last piece. -/
theorem intercalate_concat (x : α) (pieces : List (List α)) (c : List α) :
    [x].intercalate (pieces ++ [c]) = pieces.flatMap (· ++ [x]) ++ c := by
  induction pieces with
  | nil => exact List.intercalate_singleton
  | cons d pieces ih =>
    rw [List.cons_append, List.intercalate_cons_of_ne_nil (by simp), ih, List.flatMap_cons]
    simp only [List.append_assoc]

theorem removeEvery_flatMap {pieces : List (List α)} (h : ∀ c ∈ pieces, c.length = n)
    (l : List α) : removeEvery (n + 1) (pieces.flatMap (· ++ [x]) ++ l) =
      pieces.flatten ++ removeEvery (n + 1) l := by
  induction pieces with
  | nil => rfl
  | cons c pieces ih =>
    obtain ⟨hc, h⟩ := List.forall_mem_cons.1 h
    have hlen : (c ++ [x]).length = n + 1 := by rw [List.length_append, hc]; rfl
    rw [List.flatMap_cons, List.append_assoc, removeEvery_append hlen,
      removeEvery_concat (by omega), ih h, List.flatten_cons, List.append_assoc]

/-- What the pieces are joined by stands at every `n + 1`-st place. -/
theorem CutInto.removeEvery_intercalate {pieces : List (List α)} (h : CutInto n l pieces) :
    removeEvery (n + 1) ([x].intercalate pieces) = l := by
  rcases List.eq_nil_or_concat pieces with rfl | ⟨front, c, rfl⟩
  · exact h.flatten_eq
  · rw [List.concat_eq_append] at h ⊢
    have hfull : ∀ d ∈ front, d.length = n := by simpa using h.length_eq
    have hlast : c.length < n + 1 := Nat.lt_succ_of_le (h.length_last c (by simp)).2
    rw [intercalate_concat, removeEvery_flatMap hfull, removeEvery_of_length_lt hlast,
      ← h.flatten_eq, List.flatten_append, List.flatten_singleton]

theorem CutInto.nil : CutInto n ([] : List α) [] :=
  ⟨rfl, fun _ h => absurd h List.not_mem_nil, fun _ h => by cases h⟩

theorem CutInto.concat {front : List (List α)} {c : List α} (hfront : ∀ d ∈ front, d.length = n)
    (hpos : 1 ≤ c.length) (hle : c.length ≤ n) :
    CutInto n (front.flatten ++ c) (front ++ [c]) where
  flatten_eq := by rw [List.flatten_append, List.flatten_singleton]
  length_eq := by rwa [List.dropLast_concat]
  length_last d hd := by
    rw [List.getLast?_concat, Option.mem_some_iff] at hd
    exact hd ▸ ⟨hpos, hle⟩

end Theory

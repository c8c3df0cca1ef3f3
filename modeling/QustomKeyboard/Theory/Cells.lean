import Mathlib.Logic.Function.Basic
import QustomKeyboard.Theory.Machine

/-!
# Stores of cells

A store has a cell for every key, and every event is for one key: it is a step of
the machine of this cell, and leaves the others alone (`Machine.store`). A run of
the store is then a run of every cell, along the events for its key
(`run_store_iff`).

A view of the states of a machine that goes along with its steps goes along with
its runs (`run_map`).
-/

namespace Theory

namespace Machine

/-- What goes along with every step goes along with every run. -/
theorem run_map {σ τ ε δ : Type*} {m : Machine σ ε} {n : Machine τ δ} {f : σ → τ} {g : δ → ε}
    (h : ∀ s d, (m.step s (g d)).map f = n.step (f s) d) (s : σ) (ds : List δ) :
    (m.run s (ds.map g)).map f = n.run (f s) ds := by
  induction ds generalizing s with
  | nil => rfl
  | cons d ds ih =>
    rw [List.map_cons, run, run, ← h]
    cases m.step s (g d) with
    | none => rfl
    | some t => exact ih t

variable {κ ν β : Type*} [DecidableEq κ]

/-- The machine of a store, from those of its cells. -/
def store (m : κ → Machine ν β) : Machine (κ → ν) (κ × β) where
  init k := (m k).init
  step s x := ((m x.1).step (s x.1) x.2).map (Function.update s x.1)

end Machine

variable {κ ν β : Type*} [DecidableEq κ]

/-- The events for the key `k`. -/
def eventsOf (k : κ) (l : List (κ × β)) : List β := (l.filter fun x => x.1 = k).map Prod.snd

@[simp] theorem eventsOf_nil (k : κ) : eventsOf k ([] : List (κ × β)) = [] := rfl

theorem eventsOf_cons_self (k : κ) (b : β) (l : List (κ × β)) :
    eventsOf k ((k, b) :: l) = b :: eventsOf k l := by
  simp [eventsOf]

theorem eventsOf_cons_of_ne {k k' : κ} (h : k' ≠ k) (b : β) (l : List (κ × β)) :
    eventsOf k ((k', b) :: l) = eventsOf k l := by
  simp [eventsOf, h]

/-- Events may be given for the keys by a function of something simpler. -/
theorem eventsOf_zip_map {δ : Type*} (k : κ) (ks : List κ) (g : δ → β) (ds : List δ) :
    eventsOf k (ks.zip (ds.map g)) = (eventsOf k (ks.zip ds)).map g := by
  induction ks generalizing ds with
  | nil => rfl
  | cons k' ks ih =>
    cases ds with
    | nil => rfl
    | cons d ds =>
      rw [List.map_cons, List.zip_cons_cons, List.zip_cons_cons]
      by_cases h : k' = k
      · rw [h, eventsOf_cons_self, eventsOf_cons_self, ih, List.map_cons]
      · rw [eventsOf_cons_of_ne h, eventsOf_cons_of_ne h, ih]

/-- There are no events for a key that does not occur. -/
theorem eventsOf_zip_of_notMem {k : κ} {ks : List κ} (h : k ∉ ks) (bs : List β) :
    eventsOf k (ks.zip bs) = [] := by
  rw [eventsOf, List.map_eq_nil_iff, List.filter_eq_nil_iff]
  rintro ⟨k', b⟩ hx heq
  exact h (of_decide_eq_true heq ▸ (List.of_mem_zip hx).1)

/-- A store runs as its cells do. -/
theorem Machine.run_store_iff {m : κ → Machine ν β} {s s' : κ → ν} {l : List (κ × β)} :
    (store m).run s l = some s' ↔ ∀ k, (m k).run (s k) (eventsOf k l) = some (s' k) := by
  induction l generalizing s with
  | nil =>
    simp only [run, eventsOf_nil, Option.some.injEq]
    exact ⟨fun h k => congrFun h k, funext⟩
  | cons x l ih =>
    obtain ⟨k, b⟩ := x
    have hstep : (store m).step s (k, b) = ((m k).step (s k) b).map (Function.update s k) := rfl
    -- The cells other than that of `k` stay, and have the same events to come.
    have hother (v : ν) {k' : κ} (hk : k' ≠ k) :
        (m k').run (Function.update s k v k') (eventsOf k' l) =
          (m k').run (s k') (eventsOf k' ((k, b) :: l)) := by
      rw [Function.update_of_ne hk, eventsOf_cons_of_ne (Ne.symm hk)]
    rw [run, hstep, Option.bind_map, Option.bind_eq_some_iff]
    constructor
    · rintro ⟨v, hv, hrun⟩ k'
      have hcell := ih.1 hrun k'
      by_cases hk : k' = k
      · subst hk
        rwa [eventsOf_cons_self, run, hv, Option.bind_some, ← Function.update_self k' v s]
      · rwa [← hother v hk]
    · intro hcells
      have hcell := hcells k
      rw [eventsOf_cons_self, run] at hcell
      obtain ⟨v, hv, hrun⟩ := Option.bind_eq_some_iff.1 hcell
      refine ⟨v, hv, ih.2 fun k' => ?_⟩
      by_cases hk : k' = k
      · subst hk
        rwa [Function.update_self]
      · rw [hother v hk]
        exact hcells k'

end Theory

import Mathlib.Data.Set.Basic

/-!
# Machines

A machine is a state reacting to events: each event is a step of the state, or
is not possible in it (`none`). The interleavings of several parties are the
runs of the machine whose events are the steps of all of them.

* `Path ok s es t`: the run along the events `es` leads from `s` to `t`, and
  every step of it meets the condition `ok` on the state before it and the event;
* `Path.invariant`: what every step preserves, every run preserves;
* `always_iff_meets`: if the steps meeting `ok` are those that keep a property, the
  runs that have it throughout are those whose steps all meet `ok`;
* `Path.forall_prefix_iff_meets`: the same for a property of the state and the events so far;
* `Reachable ok`: the states at the end of the runs from the initial state
  whose steps all meet `ok` (`Free` for all runs).
-/

namespace Theory

/-- A machine: its initial state, and its reaction to an event. -/
structure Machine (σ ε : Type*) where
  /-- The initial state. -/
  init : σ
  /-- The step of an event, if it is possible. -/
  step : σ → ε → Option σ

/-- The condition met by all steps. -/
def Free {σ ε : Type*} (_ : σ) (_ : ε) : Prop := True

namespace Machine

variable {σ ε : Type*} (m : Machine σ ε)

/-- The state after the events `es` from `s`, if they are all possible. -/
def run : σ → List ε → Option σ
  | s, [] => some s
  | s, e :: es => (m.step s e).bind fun t => run t es

/-- A run along the events `es`, all of whose steps meet `ok`. -/
inductive Path (ok : σ → ε → Prop) : σ → List ε → σ → Prop
  | nil {s : σ} : Path ok s [] s
  | cons {s t u : σ} {e : ε} {es : List ε} :
      m.step s e = some t → ok s e → Path ok t es u → Path ok s (e :: es) u

/-- Along the events `es` from `s`, every step, as far as it is possible, meets `ok`. -/
def Meets (ok : σ → ε → Prop) : σ → List ε → Prop
  | _, [] => True
  | s, e :: es => ok s e ∧ ∀ t, m.step s e = some t → Meets ok t es

/-- Along the events `es` from `s`, as far as they are possible, every state is in `P`. -/
def Always (P : σ → Prop) : σ → List ε → Prop
  | s, [] => P s
  | s, e :: es => P s ∧ ∀ t, m.step s e = some t → Always P t es

/-- The states at the end of the runs whose steps all meet `ok`. -/
def Reachable (ok : σ → ε → Prop) (s : σ) : Prop := ∃ es, m.Path ok m.init es s

variable {m} {ok : σ → ε → Prop}

theorem Path.of_run {s t : σ} {es : List ε} (h : m.run s es = some t) : m.Path Free s es t := by
  induction es generalizing s with
  | nil => exact Option.some.inj h ▸ .nil
  | cons e es ih =>
    obtain ⟨u, hu, h⟩ := Option.bind_eq_some_iff.1 h
    exact .cons hu trivial (ih h)

theorem meets_cons {s t : σ} {e : ε} {es : List ε} (hst : m.step s e = some t) :
    m.Meets ok s (e :: es) ↔ ok s e ∧ m.Meets ok t es :=
  and_congr_right fun _ => ⟨fun h => h t hst, fun h _ hu => Option.some.inj (hst.symm.trans hu) ▸ h⟩

variable (m) in
theorem meets_free (s : σ) (es : List ε) : m.Meets Free s es := by
  induction es generalizing s with
  | nil => trivial
  | cons e es ih => exact ⟨trivial, fun t _ => ih t⟩

/-- Whether the steps along some events meet `ok` can be tried out. -/
instance decidableMeets [∀ s e, Decidable (ok s e)] :
    ∀ s es, Decidable (m.Meets ok s es)
  | _, [] => .isTrue trivial
  | s, e :: es =>
    match h : m.step s e with
    | none => decidable_of_iff (ok s e) (by simp [Meets, h])
    | some t =>
      haveI := decidableMeets t es
      decidable_of_iff (ok s e ∧ m.Meets ok t es) (meets_cons h).symm

/-- Whether all states along some events are in `P` can be tried out. -/
instance decidableAlways {P : σ → Prop} [DecidablePred P] : ∀ s es, Decidable (m.Always P s es)
  | s, [] => inferInstanceAs (Decidable (P s))
  | s, e :: es =>
    match h : m.step s e with
    | none => decidable_of_iff (P s) (by simp [Always, h])
    | some t =>
      haveI : Decidable (m.Always P t es) := decidableAlways t es
      decidable_of_iff (P s ∧ m.Always P t es) (by simp [Always, h])

/-- The state after some events can be looked at. -/
instance decidableExistsRun {p : σ → Prop} [DecidablePred p] (s : σ) (es : List ε) :
    Decidable (∃ t, m.run s es = some t ∧ p t) :=
  decidable_of_iff ((m.run s es).any (fun t => decide (p t)) = true) (by simp [Option.any_eq_true])

theorem Path.of_meets {s t : σ} {es : List ε} (hok : m.Meets ok s es) (h : m.run s es = some t) :
    m.Path ok s es t := by
  induction es generalizing s with
  | nil => exact Option.some.inj h ▸ .nil
  | cons e es ih =>
    obtain ⟨u, hu, h⟩ := Option.bind_eq_some_iff.1 h
    exact .cons hu hok.1 (ih (hok.2 u hu) h)

theorem run_append {s : σ} {es es' : List ε} :
    m.run s (es ++ es') = (m.run s es).bind fun t => m.run t es' := by
  induction es generalizing s with
  | nil => rfl
  | cons e es ih =>
    rw [List.cons_append, run, run, Option.bind_assoc]
    simp only [ih]

/-- Events that are always possible can happen in any order. -/
theorem run_of_total (htotal : ∀ s e, ∃ t, m.step s e = some t) (s : σ) (es : List ε) :
    ∃ t, m.run s es = some t := by
  induction es generalizing s with
  | nil => exact ⟨s, rfl⟩
  | cons e es ih =>
    obtain ⟨u, hu⟩ := htotal s e
    obtain ⟨t, ht⟩ := ih u
    exact ⟨t, by rw [run, hu, Option.bind_some, ht]⟩

/-- What every step preserves, every run preserves. -/
theorem Path.invariant {I : σ → Prop}
    (hstep : ∀ {s t e}, I s → ok s e → m.step s e = some t → I t)
    {s t : σ} {es : List ε} (h : m.Path ok s es t) (hs : I s) : I t := by
  induction h with
  | nil => exact hs
  | cons hst hok _ ih => exact ih (hstep hs hok hst)

/-- An invariant of the initial state and of every step holds wherever the
    machine gets. -/
theorem Reachable.invariant {I : σ → Prop} (hinit : I m.init)
    (hstep : ∀ {s t e}, I s → ok s e → m.step s e = some t → I t)
    {s : σ} (h : m.Reachable ok s) : I s := by
  obtain ⟨es, hes⟩ := h
  exact hes.invariant hstep hinit

theorem Reachable.of_run {s : σ} {es : List ε} (h : m.run m.init es = some s) :
    m.Reachable Free s := ⟨es, .of_run h⟩

/-- Along a run that keeps an invariant, conditions that are the same under the
    invariant are met by the same steps. -/
theorem meets_congr {I : σ → Prop} {p q : σ → ε → Prop}
    (hstep : ∀ {s t e}, I s → ok s e → m.step s e = some t → I t)
    (h : ∀ {s e}, I s → ok s e → (p s e ↔ q s e)) {s : σ} {es : List ε} (hs : I s)
    (hok : m.Meets ok s es) : m.Meets p s es ↔ m.Meets q s es := by
  induction es generalizing s with
  | nil => exact Iff.rfl
  | cons e es ih =>
    refine and_congr (h hs hok.1) (forall_congr' fun t => forall_congr' fun hst => ?_)
    exact ih (hstep hs hok.1 hst) (hok.2 t hst)

/-- Conditions that are the same are met by the same steps. -/
theorem meets_congr_of_iff {p q : σ → ε → Prop} (h : ∀ {s e}, p s e ↔ q s e) (s : σ)
    (es : List ε) : m.Meets p s es ↔ m.Meets q s es :=
  meets_congr (I := fun _ => True) (fun _ _ _ => trivial) (fun _ _ => h) trivial (m.meets_free s es)

/-- Conditions that are the same under an invariant, which the steps meeting them keep, are met
    by the same steps. -/
theorem meets_iff_meets {I : σ → Prop} {p q : σ → ε → Prop}
    (h : ∀ {s e}, I s → (p s e ↔ q s e))
    (hstep : ∀ {s t e}, I s → q s e → m.step s e = some t → I t) {s : σ} {es : List ε} (hs : I s) :
    m.Meets p s es ↔ m.Meets q s es := by
  induction es generalizing s with
  | nil => exact Iff.rfl
  | cons e es ih =>
    constructor
    · exact fun ⟨hp, hes⟩ =>
        ⟨(h hs).1 hp, fun t hst => (ih (hstep hs ((h hs).1 hp) hst)).1 (hes t hst)⟩
    · exact fun ⟨hq, hes⟩ => ⟨(h hs).2 hq, fun t hst => (ih (hstep hs hq hst)).2 (hes t hst)⟩

theorem Always.head {P : σ → Prop} {s : σ} {es : List ε} (h : m.Always P s es) : P s := by
  cases es with
  | nil => exact h
  | cons e es => exact h.1

/-- If the steps that keep the property are those that meet `ok`, then a run has
    the property throughout iff all its steps meet `ok`. -/
theorem always_iff_meets {I P : σ → Prop}
    (hstep : ∀ {s t e}, I s → m.step s e = some t → I t)
    (h : ∀ {s t e}, I s → P s → m.step s e = some t → (P t ↔ ok s e))
    {s u : σ} {es : List ε} (hs : I s) (hP : P s) (hrun : m.run s es = some u) :
    m.Always P s es ↔ m.Meets ok s es := by
  induction es generalizing s with
  | nil => exact iff_of_true hP trivial
  | cons e es ih =>
    obtain ⟨t, hst, hrun⟩ := Option.bind_eq_some_iff.1 hrun
    have ht := h hs hP hst
    rw [meets_cons hst, ← ht]
    constructor
    · intro halways
      have hes := halways.2 t hst
      exact ⟨hes.head, (ih (hstep hs hst) hes.head hrun).1 hes⟩
    · rintro ⟨hPt, hmeets⟩
      refine ⟨hP, fun t' hst' => ?_⟩
      obtain rfl := Option.some.inj (hst.symm.trans hst')
      exact (ih (hstep hs hst) hPt hrun).2 hmeets

/-- If the steps of a run that keep a property of the events so far and the state are those that
    meet `ok'`, then the run has the property throughout iff all its steps meet `ok'`. -/
theorem Path.forall_prefix_iff_meets {P : List ε → σ → Prop} {ok' : σ → ε → Prop} {s u : σ}
    {es : List ε} (hrun : m.Path ok s es u) (hs : P [] s)
    (h : ∀ {es₁ e s₁ s₂}, es₁ ++ [e] <+: es → ok s₁ e → m.step s₁ e = some s₂ → P es₁ s₁ →
      (P (es₁ ++ [e]) s₂ ↔ ok' s₁ e)) :
    (∀ es₁ s₁, es₁ <+: es → m.run s es₁ = some s₁ → P es₁ s₁) ↔ m.Meets ok' s es := by
  induction hrun generalizing P with
  | @nil s =>
    refine iff_of_true (fun es₁ s₁ hes hrun => ?_) trivial
    obtain rfl := List.prefix_nil.1 hes
    exact Option.some.inj hrun ▸ hs
  | @cons s t u e es hst hok _ ih =>
    have hfirst := @h [] e s t (List.prefix_append [e] es) hok hst hs
    have hrest := fun ht => ih (P := fun es₁ => P (e :: es₁)) ht fun hes =>
      h (List.cons_prefix_cons.2 ⟨rfl, hes⟩)
    have hrun {es₁ : List ε} : m.run s (e :: es₁) = m.run t es₁ := by
      rw [run, hst, Option.bind_some]
    rw [meets_cons hst]
    constructor
    · intro hall
      have ht : P [e] t := hall [e] t (List.prefix_append [e] es) hrun
      exact ⟨hfirst.1 ht, (hrest ht).1 fun es₁ s₁ hes hs₁ =>
        hall (e :: es₁) s₁ (List.cons_prefix_cons.2 ⟨rfl, hes⟩) (hrun.trans hs₁)⟩
    · rintro ⟨hok', hmeets⟩ es₁ s₁ hes hs₁
      cases es₁ with
      | nil => exact Option.some.inj hs₁ ▸ hs
      | cons e' es₁ =>
        obtain ⟨rfl, hprefix⟩ := List.cons_prefix_cons.1 hes
        exact (hrest (hfirst.2 hok')).2 hmeets es₁ s₁ hprefix (hrun.symm.trans hs₁)

/-- What cannot be regained is had throughout iff it is had in the end. -/
theorem always_iff_last {P : σ → Prop} (hback : ∀ {s t e}, m.step s e = some t → P t → P s)
    {s u : σ} {es : List ε} (hrun : m.run s es = some u) : m.Always P s es ↔ P u := by
  induction es generalizing s with
  | nil => exact Option.some.inj hrun ▸ Iff.rfl
  | cons e es ih =>
    obtain ⟨t, hst, hrun⟩ := Option.bind_eq_some_iff.1 hrun
    constructor
    · exact fun h => (ih hrun).1 (h.2 t hst)
    · intro hu
      have ht := (ih hrun).2 hu
      refine ⟨hback hst ht.head, fun t' hst' => ?_⟩
      exact Option.some.inj (hst.symm.trans hst') ▸ ht

end Machine

end Theory

import Mathlib.Data.Nat.Notation

/-!
# Loops

The `while` and `do … while` loops of an imperative program, on a state `σ`. A
loop is run with *fuel*, the number of iterations it may make: it returns
nothing when the fuel is not enough, or when its body does not return.

Both have a rule of total correctness, from an invariant and a variant
dropping with every iteration: with more fuel than the variant, the loop
returns, its guard then being false. A loop does not return if its guard is an
invariant (`whileLoop_eq_none`).

A `for` loop counts its iterations, and stops at the first one that fails. Its
rules are that of an invariant (`forLoop_preserves`), and, where what makes an
iteration fail depends on its number only, that the loop goes through iff every
iteration does (`forLoop_ok_iff`).
-/

namespace Theory

variable {σ : Type*}

/-- `while (guard) body`, iterating at most `fuel` times. -/
def whileLoop (guard : σ → Bool) (body : σ → Option σ) : ℕ → σ → Option σ
  | 0, _ => none
  | fuel + 1, s => if guard s then (body s).bind (whileLoop guard body fuel) else some s

/-- `do body while (guard)`, iterating at most `fuel` times. -/
def doWhile (guard : σ → Bool) (body : σ → Option σ) : ℕ → σ → Option σ
  | 0, _ => none
  | fuel + 1, s => (body s).bind fun t => if guard t then doWhile guard body fuel t else some t

/-- `for (i = i; n iterations; i++) body`. -/
def forLoop {ε : Type*} (body : ℕ → σ → Except ε σ) : (n i : ℕ) → σ → Except ε σ
  | 0, _, s => .ok s
  | n + 1, i, s => (body i s).bind (forLoop body n (i + 1))

variable {guard : σ → Bool} {body : σ → Option σ}

/-- Total correctness of `while`: the body preserves the invariant `I` and
    makes the variant `v` drop, under the guard. -/
theorem whileLoop_total {I : σ → Prop} {v : σ → ℕ}
    (hbody : ∀ s, I s → guard s = true → ∃ t, body s = some t ∧ I t ∧ v t < v s)
    {fuel : ℕ} {s : σ} (hs : I s) (hfuel : v s < fuel) :
    ∃ t, whileLoop guard body fuel s = some t ∧ I t ∧ guard t = false := by
  induction fuel generalizing s with
  | zero => omega
  | succ fuel ih =>
    rw [whileLoop]
    cases hg : guard s with
    | false => exact ⟨s, rfl, hs, hg⟩
    | true =>
      obtain ⟨t, hst, ht, hv⟩ := hbody s hs hg
      simp only [if_true, hst, Option.bind_some]
      exact ih ht (by omega)

/-- A loop the guard of which holds throughout does not return. -/
theorem whileLoop_eq_none {I : σ → Prop} (hguard : ∀ s, I s → guard s = true)
    (hbody : ∀ s t, I s → body s = some t → I t) (fuel : ℕ) {s : σ} (hs : I s) :
    whileLoop guard body fuel s = none := by
  induction fuel generalizing s with
  | zero => rfl
  | succ fuel ih =>
    rw [whileLoop, if_pos (hguard s hs)]
    cases hst : body s with
    | none => rfl
    | some t => exact ih (hbody s t hs hst)

/-- Total correctness of `do … while`: the body takes the states satisfying the
    invariant `I` and the guard to states satisfying `I`, making the variant `v`
    drop. The guard holds on entry. -/
theorem doWhile_total {I : σ → Prop} {v : σ → ℕ}
    (hbody : ∀ s, I s → guard s = true → ∃ t, body s = some t ∧ I t ∧ v t < v s)
    {fuel : ℕ} {s : σ} (hs : I s) (hg : guard s = true) (hfuel : v s < fuel) :
    ∃ t, doWhile guard body fuel s = some t ∧ I t ∧ guard t = false ∧ v t < v s := by
  induction fuel generalizing s with
  | zero => omega
  | succ fuel ih =>
    obtain ⟨t, hst, ht, hv⟩ := hbody s hs hg
    rw [doWhile, hst, Option.bind_some]
    cases hgt : guard t with
    | false => exact ⟨t, rfl, ht, hgt, hv⟩
    | true =>
      obtain ⟨u, hu, hIu, hgu, hvu⟩ := ih ht hgt (by omega)
      exact ⟨u, hu, hIu, hgu, by omega⟩

section For

variable {ε : Type*} {body : ℕ → σ → Except ε σ}

/-- A loop whose iterations preserve `I` wherever they go through, the one of
    number `j` going through iff `P j`, goes through iff all of these hold. -/
theorem forLoop_ok_iff {I : σ → Prop} {P : ℕ → Prop} {n i : ℕ} {s : σ}
    (hI : ∀ j s t, I s → body j s = .ok t → I t)
    (hP : ∀ j s, I s → ((∃ t, body j s = .ok t) ↔ P j)) (hs : I s) :
    (∃ t, forLoop body n i s = .ok t) ↔ ∀ j < n, P (i + j) := by
  induction n generalizing i s with
  | zero => exact iff_of_true ⟨s, rfl⟩ fun j hj => absurd hj (Nat.not_lt_zero j)
  | succ n ih =>
    rw [Nat.forall_lt_succ_left]
    change _ ↔ P i ∧ _
    rw [← hP i s hs]
    cases hb : body i s with
    | error e => simp [forLoop, hb, Except.bind]
    | ok t =>
      have hstep : forLoop body (n + 1) i s = forLoop body n (i + 1) t := by rw [forLoop, hb]; rfl
      rw [hstep, ih (hI i s t hs hb)]
      simp only [Except.ok.injEq, exists_eq', true_and, Nat.add_assoc, Nat.add_comm 1]

/-- What the iterations preserve, the loop does. -/
theorem forLoop_preserves {I : σ → Prop} (hI : ∀ j s t, I s → body j s = .ok t → I t)
    {n i : ℕ} {s t : σ} (hs : I s) (h : forLoop body n i s = .ok t) : I t := by
  induction n generalizing i s with
  | zero => rwa [← Except.ok.inj h]
  | succ n ih =>
    rw [forLoop] at h
    cases hb : body i s with
    | error e =>
      rw [hb] at h
      cases h
    | ok u =>
      rw [hb] at h
      exact ih (hI i s u hs hb) h

/-- A loop that fills a buffer: its iteration `j` writes the `k` cells of the
    item `j`, behind those of the items before. -/
theorem forLoop_fill {α β : Type*} {body : ℕ → List α → Except ε (List α)} {g : β → List α}
    {k : ℕ} (hg : ∀ c, (g c).length = k) {l : List β} {b i : ℕ}
    (hbody : ∀ j c front rest, l[j]? = some c → front.length = b + (i + j) * k →
      k ≤ rest.length → body (i + j) (front ++ rest) = .ok (front ++ (g c ++ rest.drop k)))
    {front rest : List α} (hfront : front.length = b + i * k) (hrest : l.length * k ≤ rest.length) :
    forLoop body l.length i (front ++ rest) =
      .ok (front ++ (l.flatMap g ++ rest.drop (l.length * k))) := by
  induction l generalizing i front rest with
  | nil => simp [forLoop]
  | cons c l ih =>
    rw [List.length_cons, Nat.succ_mul] at hrest
    have hfirst := hbody 0 c front rest rfl hfront (by omega)
    have hlen : (front ++ g c).length = b + (i + 1) * k := by
      rw [List.length_append, hfront, hg, Nat.succ_mul, Nat.add_assoc]
    rw [List.length_cons, forLoop]
    rw [Nat.add_zero] at hfirst
    rw [hfirst, Except.bind, ← List.append_assoc, ih (fun j d fr re hd hfr hre => ?_) hlen
      (by rw [List.length_drop]; omega)]
    · rw [List.flatMap_cons, List.append_assoc, List.append_assoc, List.drop_drop, Nat.succ_mul,
        Nat.add_comm k]
    · rw [Nat.add_right_comm, Nat.add_assoc] at hfr ⊢
      exact hbody (j + 1) d fr re hd hfr hre

end For

end Theory

import Mathlib.Logic.Basic

/-!
# Exits

A computation on a state `σ` that may be left early is an `Except ε σ`: `.ok`
with the state at its end, or `.error` with what it has been left with. Its
postconditions are one for the end and one for the exits (`Ends`). They compose
(`Ends.bind`), and for a loop over a list that is left with the first of its
iterations that is, there is the rule of an invariant, about the items that have
been taken (`Ends.foldlM`).
-/

namespace Theory

variable {α ε σ τ : Type*}

/-- The computation ends in a state satisfying `Q`, or it is left with what satisfies `E`. -/
def Ends (E : ε → Prop) (Q : σ → Prop) : Except ε σ → Prop
  | .ok s => Q s
  | .error r => E r

variable {E E' : ε → Prop} {P : τ → Prop} {Q Q' : σ → Prop}

@[simp] theorem ends_ok {s : σ} : Ends E Q (.ok s) ↔ Q s := Iff.rfl

@[simp] theorem ends_error {r : ε} : Ends E Q (.error r) ↔ E r := Iff.rfl

theorem Ends.mono {x : Except ε σ} (h : Ends E Q x) (hE : ∀ r, E r → E' r) (hQ : ∀ s, Q s → Q' s) :
    Ends E' Q' x := by
  rcases x with r | s
  · exact hE r h
  · exact hQ s h

theorem Ends.bind {x : Except ε τ} {f : τ → Except ε σ} (h : Ends E P x)
    (hf : ∀ s, P s → Ends E Q (f s)) : Ends E Q (x.bind f) := by
  rcases x with r | s
  · exact h
  · exact hf s h

/-- A loop over a list preserves an invariant about the items taken, and is left as its
    iterations are. -/
theorem Ends.foldlM {f : σ → α → Except ε σ} {I : List α → σ → Prop} {l : List α}
    (hstep : ∀ front a back s, l = front ++ a :: back → I front s →
      Ends E (I (front ++ [a])) (f s a))
    {s : σ} (hs : I [] s) : Ends E (I l) (l.foldlM f s) := by
  -- The items after `front` are to be taken.
  suffices h : ∀ back front s, l = front ++ back → I front s → Ends E (I l) (back.foldlM f s) from
    h l [] s rfl hs
  intro back
  induction back with
  | nil =>
    intro front s hl hI
    rw [hl, List.append_nil]
    exact hI
  | cons a back ih =>
    intro front s hl hI
    rw [List.foldlM_cons]
    refine (hstep front a back s hl hI).bind fun t ht => ih (front ++ [a]) t ?_ ht
    rw [hl, List.append_assoc, List.singleton_append]

end Theory

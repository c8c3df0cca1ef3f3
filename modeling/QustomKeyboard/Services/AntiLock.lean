import Mathlib.Data.List.Induction
import QustomKeyboard.Theory.Pieces
import QustomKeyboard.Theory.Split

/-!
# The exclusions of the screen lock

`AntiLock` keeps a list of windows, which is loaded from a line of the settings and saved to
it. What has been loaded is saved as a line that it is loaded from again; but as long as
nothing has been loaded, `SaveExclusions` looks at the last character of an empty string
(`survives_iff`).

The characters stand for the bytes of the texts.
-/

namespace QustomKeyboard

open Theory

/-- Exclusions are separated by bars. -/
def isBar (c : Char) : Bool := c = '|'

structure AntiLock where
  exclusions : List (List Char) := []
  deriving DecidableEq

namespace AntiLock

variable (s : AntiLock)

/-- `AntiLock::LoadExclusions`. -/
def loadExclusions (input : List Char) : AntiLock :=
  if input ≠ [] then { s with exclusions := splitCompress isBar input } else s

/-- `AntiLock::SaveExclusions`; nothing is returned if an empty string is asked for its last
    character. -/
def saveExclusions : Option (List Char) :=
  let exclusions := s.exclusions.foldl (fun exclusions x => exclusions ++ (x ++ ['|'])) []
  exclusions.getLast?.map fun back => if back = '|' then exclusions.dropLast else exclusions

/-- The exclusions are restored by what is saved. -/
def Survives : Prop :=
  ∃ text, s.saveExclusions = some text ∧ loadExclusions {} text = s

/-- The state after the inputs have been loaded. -/
def loaded (inputs : List (List Char)) : AntiLock := inputs.foldl loadExclusions {}

variable {s}

theorem foldl_append_bar (exclusions : List (List Char)) (acc : List Char) :
    exclusions.foldl (fun exclusions x => exclusions ++ (x ++ ['|'])) acc =
      acc ++ exclusions.flatMap (· ++ ['|']) := by
  induction exclusions generalizing acc with
  | nil => exact (List.append_nil acc).symm
  | cons x exclusions ih => rw [List.foldl_cons, ih, List.flatMap_cons, List.append_assoc]

/-- If there are exclusions, they are joined by bars. -/
theorem saveExclusions_eq (h : s.exclusions ≠ []) :
    s.saveExclusions = some (['|'].intercalate s.exclusions) := by
  obtain ⟨front, c, hc⟩ := List.eq_nil_or_concat s.exclusions |>.resolve_left h
  rw [List.concat_eq_append] at hc
  rw [saveExclusions, foldl_append_bar, hc, intercalate_concat, List.flatMap_append,
    List.flatMap_singleton, List.nil_append, ← List.append_assoc, List.getLast?_concat,
    List.dropLast_concat]
  rfl

theorem saveExclusions_eq_none (h : s.exclusions = []) : s.saveExclusions = none := by
  rw [saveExclusions, h]
  rfl

/-- What has been loaded survives. -/
theorem survives_loadExclusions {input : List Char} (h : input ≠ [])
    (hs : s.exclusions = splitCompress isBar input) : s.Survives := by
  have htokens : Tokens isBar s.exclusions := hs ▸ tokens_splitCompress isBar input
  have hsplit := htokens.splitCompress_intercalate (s := '|') rfl
  refine ⟨_, saveExclusions_eq htokens.ne_nil, ?_⟩
  have hne : ['|'].intercalate s.exclusions ≠ [] := fun hnil => by
    rw [hnil, hs] at hsplit
    exact h (eq_nil_of_splitCompress_eq hsplit.symm)
  rw [loadExclusions, if_pos hne, hsplit]

/-- The exclusions are those of an input that is not empty, or there are none. -/
theorem loaded_cases (inputs : List (List Char)) :
    (∃ input ∈ inputs, input ≠ [] ∧ (loaded inputs).exclusions = splitCompress isBar input) ∨
      (∀ input ∈ inputs, input = []) ∧ (loaded inputs).exclusions = [] := by
  induction inputs using List.reverseRecOn with
  | nil => exact .inr ⟨fun _ h => absurd h List.not_mem_nil, rfl⟩
  | append_singleton inputs input ih =>
    have hlast : loaded (inputs ++ [input]) = (loaded inputs).loadExclusions input := by
      rw [loaded, List.foldl_concat]
      rfl
    rw [hlast, loadExclusions]
    by_cases hinput : input = []
    · rw [if_neg (not_not.2 hinput)]
      rcases ih with ⟨i, hi, hne, heq⟩ | ⟨hall, heq⟩
      · exact .inl ⟨i, List.mem_append_left _ hi, hne, heq⟩
      · exact .inr ⟨List.forall_mem_append.2 ⟨hall, List.forall_mem_singleton.2 hinput⟩, heq⟩
    · rw [if_pos hinput]
      exact .inl ⟨input, List.mem_append_right _ (List.mem_singleton_self input), hinput, rfl⟩

/-- The exclusions survive iff something has been loaded. -/
theorem survives_iff (inputs : List (List Char)) :
    (loaded inputs).Survives ↔ ∃ input ∈ inputs, input ≠ [] := by
  rcases loaded_cases inputs with ⟨input, hmem, hne, heq⟩ | ⟨hall, heq⟩
  · exact iff_of_true (survives_loadExclusions hne heq) ⟨input, hmem, hne⟩
  · refine iff_of_false ?_ fun ⟨input, hmem, hne⟩ => hne (hall input hmem)
    rintro ⟨text, htext, -⟩
    rw [saveExclusions_eq_none heq] at htext
    cases htext

example : (loaded [['|', 'a', '|', '|', 'b']]).saveExclusions = some ['|', 'a', '|', 'b'] := by
  decide

/-- A fresh `AntiLock` cannot be saved. -/
theorem not_survives_fresh : ¬(loaded []).Survives := by
  rintro ⟨text, htext, -⟩
  cases htext

end AntiLock

end QustomKeyboard

import Mathlib
import QustomKeyboard.Text.StringEscaper

/-!
# Continuing lines

With `insert_backslash_to_end`, the escaper is to put a backslash at the end of
every line, so that a compiler splices the lines of the text into one. A line
ends with a line feed, with or without a carriage return before it; the only
caller passes the text of an editor widget, the lines of which are separated by
line feeds alone.

The escaper looks for the two characters together. So it continues every line
iff every line feed follows a carriage return (`continued_iff`).
-/

namespace QustomKeyboard

open Theory

/-- A backslash is put in front of every line break. -/
def continueLines : List Char → List Char
  | '\r' :: '\n' :: l => '\\' :: '\r' :: '\n' :: continueLines l
  | '\n' :: l => '\\' :: '\n' :: continueLines l
  | c :: l => c :: continueLines l
  | [] => []

/-- A compiler splices every line that ends with a backslash to the next one. -/
def splice : List Char → List Char
  | '\\' :: '\r' :: '\n' :: l => splice l
  | '\\' :: '\n' :: l => splice l
  | c :: l => c :: splice l
  | [] => []

/-- A text without its line breaks. -/
def removeBreaks : List Char → List Char
  | '\r' :: '\n' :: l => removeBreaks l
  | '\n' :: l => removeBreaks l
  | c :: l => c :: removeBreaks l
  | [] => []

/-- The text `input` is escaped as a text of one logical line. -/
structure Continued (input : List Char) (escapePercent : Bool) : Prop where
  /-- Every line break has a backslash put in front. -/
  continued : escapeString input escapePercent true =
    continueLines (escapeString input escapePercent false)
  /-- Its lines are spliced to one. -/
  oneLine : '\n' ∉ splice (escapeString input escapePercent true)
  /-- What is read back of this line is the text without its line breaks. -/
  decoded : decode (splice (escapeString input escapePercent true)) escapePercent false =
    removeBreaks input

/-- Every line feed follows a carriage return. -/
def FeedsFollowReturns (l : List Char) : Prop :=
  ∀ a b, l = a ++ '\n' :: b → a.getLast? = some '\r'

/-! ## Line breaks -/

variable {escapePercent : Bool} {c : Char} {l x : List Char}

/-- A text that begins with a line break is cut behind it, otherwise behind its first
    character. -/
theorem not_crLf_prefix_cons (h : ¬crLf <+: c :: l) : ∀ x, c = '\r' → l = '\n' :: x → False := by
  rintro x rfl rfl
  exact h ⟨x, rfl⟩

theorem not_feedsFollowReturns (l : List Char) : ¬FeedsFollowReturns ('\n' :: l) := fun h =>
  absurd (h [] l rfl) (by simp)

theorem continueLines_cons (hc : c ≠ '\n') (h : ¬crLf <+: c :: l) :
    continueLines (c :: l) = c :: continueLines l := by
  rw [continueLines]
  · exact not_crLf_prefix_cons h
  · exact hc

theorem removeBreaks_cons (hc : c ≠ '\n') (h : ¬crLf <+: c :: l) :
    removeBreaks (c :: l) = c :: removeBreaks l := by
  rw [removeBreaks]
  · exact not_crLf_prefix_cons h
  · exact hc

theorem lf_notMem_removeBreaks (l : List Char) : '\n' ∉ removeBreaks l := by
  fun_induction removeBreaks l with
  | case1 l ih => exact ih
  | case2 l ih => exact ih
  | case3 c l _ hc ih => exact fun h => (List.mem_cons.1 h).elim (fun h => hc h.symm) ih
  | case4 => exact List.not_mem_nil

theorem feedsFollowReturns_crLf : FeedsFollowReturns (crLf ++ l) ↔ FeedsFollowReturns l := by
  constructor
  · rintro h a b rfl
    have := h (crLf ++ a) b (List.append_assoc _ _ _).symm
    rw [List.getLast?_append] at this
    cases ha : a.getLast? with
    | none => simp [ha, crLf] at this
    | some d => simpa [ha] using this
  · intro h a b hab
    rcases a with _ | ⟨d, _ | ⟨e, a⟩⟩
    · simp [crLf] at hab
    · rw [List.getLast?_singleton, ← (List.cons_eq_cons.1 hab).1]
    · have := h a b (List.cons_eq_cons.1 (List.cons_eq_cons.1 hab).2).2
      rw [List.getLast?_cons_cons, List.getLast?_cons, this]
      rfl

theorem feedsFollowReturns_cons (hc : c ≠ '\n') (h : ¬crLf <+: c :: l) :
    FeedsFollowReturns (c :: l) ↔ FeedsFollowReturns l := by
  constructor
  · rintro hl a b rfl
    have := hl (c :: a) b rfl
    rw [List.getLast?_cons] at this
    cases ha : a.getLast? with
    | none =>
      rw [ha, Option.getD_none, Option.some.injEq] at this
      rw [List.getLast?_eq_none_iff.1 ha, this] at h
      exact absurd ⟨b, rfl⟩ h
    | some d => simpa [ha] using this
  · intro hl a b hab
    cases a with
    | nil => exact absurd (List.cons_eq_cons.1 hab).1 hc
    | cons d a =>
      rw [List.getLast?_cons, hl a b (List.cons_eq_cons.1 hab).2]
      rfl

/-! ## Escaped texts -/

/-- An escaped character is continued as it is. -/
theorem continueLines_append (hc : c ≠ '\n') (h : ¬(c = '\r' ∧ x.head? = some '\n')) :
    continueLines (escapeChar escapePercent c ++ x) =
      escapeChar escapePercent c ++ continueLines x := by
  have hprefix : ¬crLf <+: c :: x := fun hprefix =>
    have := crLf_prefix_iff.1 hprefix
    h ⟨Option.some.inj this.1, this.2⟩
  rcases escapeChar_cases escapePercent c with ⟨-, h'⟩ | ⟨-, h'⟩ | ⟨-, -, h'⟩ | ⟨-, -, -, h'⟩
  all_goals rw [h']
  · simp [continueLines]
  · simp [continueLines]
  · simp [continueLines]
  · exact continueLines_cons hc hprefix

theorem splice_cons (h : c = '\\' → ¬crLf <+: x ∧ x.head? ≠ some '\n') :
    splice (c :: x) = c :: splice x := by
  rw [splice]
  · rintro y hc rfl
    exact (h hc).1 ⟨y, rfl⟩
  · rintro y hc rfl
    exact (h hc).2 rfl

/-- An escaped character is not taken for the end of a line. -/
theorem splice_append (hx : ¬crLf <+: x) (hlf : x.head? ≠ some '\n') (c : Char) :
    splice (escapeChar escapePercent c ++ x) = escapeChar escapePercent c ++ splice x := by
  rcases escapeChar_cases escapePercent c with ⟨-, h'⟩ | ⟨-, h'⟩ | ⟨-, -, h'⟩ | ⟨-, -, -, h'⟩
  all_goals rw [h']
  · show splice ('\\' :: '\\' :: x) = '\\' :: '\\' :: splice x
    rw [splice_cons fun _ => ?_, splice_cons fun _ => ⟨hx, hlf⟩]
    simp [crLf, List.cons_prefix_cons]
  · show splice ('\\' :: '"' :: x) = '\\' :: '"' :: splice x
    rw [splice_cons fun _ => ?_, splice_cons fun _ => ⟨hx, hlf⟩]
    simp [crLf, List.cons_prefix_cons]
  · show splice ('%' :: '%' :: x) = '%' :: '%' :: splice x
    rw [splice_cons fun _ => ?_, splice_cons fun _ => ⟨hx, hlf⟩]
    simp [crLf, List.cons_prefix_cons]
  · exact splice_cons fun _ => ⟨hx, hlf⟩

theorem lf_notMem_escapeChars (h : '\n' ∉ l) : '\n' ∉ escapeChars escapePercent l := by
  rw [escapeChars, List.mem_flatMap]
  rintro ⟨c, hc, hlf⟩
  rcases escapeChar_cases escapePercent c with ⟨-, h'⟩ | ⟨-, h'⟩ | ⟨-, -, h'⟩ | ⟨-, -, -, h'⟩
  all_goals rw [h'] at hlf
  · exact absurd hlf (by decide)
  · exact absurd hlf (by decide)
  · exact absurd hlf (by decide)
  · rw [List.mem_singleton] at hlf
    exact h (hlf ▸ hc)

/-- The escaper continues the lines iff it looks for line breaks where there are any. -/
theorem escapeLines_eq_iff (l : List Char) :
    escapeLines escapePercent l = continueLines (escapeChars escapePercent l) ↔
      FeedsFollowReturns l := by
  induction l using replace_induction crLf_ne_nil with
  | nil => exact iff_of_true rfl fun a b h => absurd h (by simp)
  | replaced l ih =>
    rw [escapeLines_append, escapeChars_crLf_append, feedsFollowReturns_crLf, ← ih]
    show '\\' :: crLf ++ _ = '\\' :: crLf ++ continueLines (escapeChars _ l) ↔ _
    rw [List.append_cancel_left_eq]
  | kept c l hprefix ih =>
    rw [escapeLines_cons hprefix, escapeChars_cons]
    by_cases hc : c = '\n'
    · subst hc
      rw [escapeChar_lf]
      exact iff_of_false (fun h => absurd (congrArg List.head? h) (by simp [continueLines]))
        (not_feedsFollowReturns l)
    · have hnext : ¬(c = '\r' ∧ (escapeChars escapePercent l).head? = some '\n') := by
        rintro ⟨rfl, hl⟩
        rw [head_escapeChars (by decide)] at hl
        exact hprefix (crLf_prefix_iff.2 ⟨rfl, hl⟩)
      rw [continueLines_append hc hnext, List.append_cancel_left_eq, ih,
        feedsFollowReturns_cons hc hprefix]

/-- The lines of the escaped text are then spliced to one. -/
theorem splice_escapeLines (hl : FeedsFollowReturns l) :
    splice (escapeLines escapePercent l) = escapeChars escapePercent (removeBreaks l) := by
  induction l using replace_induction crLf_ne_nil with
  | nil => rfl
  | replaced l ih =>
    rw [escapeLines_append]
    exact ih (feedsFollowReturns_crLf.1 hl)
  | kept c l hprefix ih =>
    have hc : c ≠ '\n' := by
      rintro rfl
      exact not_feedsFollowReturns l hl
    have hl' := (feedsFollowReturns_cons hc hprefix).1 hl
    have hhead : (escapeLines escapePercent l).head? ≠ some '\n' := by
      intro hhead
      obtain ⟨l, rfl⟩ := List.head?_eq_some_iff.1 (head_escapeLines hhead)
      exact not_feedsFollowReturns l hl'
    rw [escapeLines_cons hprefix, splice_append (not_crLf_prefix_escapeLines l) hhead, ih hl',
      removeBreaks_cons hc hprefix, escapeChars_cons]

/-- The escaper makes one logical line of a text iff its line feeds follow carriage
    returns. -/
theorem continued_iff (input : List Char) (escapePercent : Bool) :
    Continued input escapePercent ↔ FeedsFollowReturns input := by
  have htrue : escapeString input escapePercent true = escapeLines escapePercent input :=
    escapeString_true input
  constructor
  · intro h
    have := h.continued
    rwa [htrue, escapeString_false, escapeLines_eq_iff] at this
  · intro h
    have hsplice : splice (escapeLines escapePercent input) = _ := splice_escapeLines h
    refine ⟨?_, ?_, ?_⟩
    · rwa [htrue, escapeString_false, escapeLines_eq_iff]
    · rw [htrue, hsplice]
      exact lf_notMem_escapeChars (lf_notMem_removeBreaks input)
    · rw [htrue, hsplice]
      exact decode_escapeChars _

/-- Two lines, as the editor separates them. -/
theorem not_continued_lf : ¬Continued ['a', '\n', 'b'] false := fun h =>
  absurd h.continued (by decide)

end QustomKeyboard

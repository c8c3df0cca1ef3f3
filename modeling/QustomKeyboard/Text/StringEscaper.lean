import QustomKeyboard.Theory.Replace

/-!
# Escaping C strings

The text of a C string literal is made in several passes over the whole text
(`escapeString`): backslashes are doubled, quotes get a backslash, percent signs are
doubled, and line ends get a backslash in front. Each pass sees the output of the
previous ones, and still the passes amount to escaping every character by itself, and
every line end (`escapeString_false`, `escapeString_true`).

So the text can be read back (`decode_escapeString`), in the order of a compiler: lines
are spliced, escapes are resolved in one scan, and percent signs are halved in the end.
-/

namespace QustomKeyboard

open Theory

/-- The end of a line. -/
def crLf : List Char := ['\r', '\n']

theorem crLf_ne_nil : crLf ≠ [] := List.cons_ne_nil _ _

/-- `StringEscaper::EscapeString`. -/
def escapeString (input : List Char) (escapePercent insertBackslashToEnd : Bool) : List Char :=
  let input := replaceAll ['\\'] ['\\', '\\'] input
  let input := replaceAll ['"'] ['\\', '"'] input
  let input := if escapePercent then replaceAll ['%'] ['%', '%'] input else input
  if insertBackslashToEnd then replaceAll crLf ('\\' :: crLf) input else input

/-! ## Reading back -/

/-- The escapes of a string literal are resolved. -/
def unescape : List Char → List Char
  | '\\' :: '\\' :: l => '\\' :: unescape l
  | '\\' :: '"' :: l => '"' :: unescape l
  | c :: l => c :: unescape l
  | [] => []

/-- Lines that end with a backslash are spliced. -/
def spliceLines (l : List Char) : List Char := replaceAll ('\\' :: crLf) [] l

/-- What a format string prints. -/
def printFormat (l : List Char) : List Char := replaceAll ['%', '%'] ['%'] l

/-- Read back what has been escaped. -/
def decode (out : List Char) (escapePercent insertBackslashToEnd : Bool) : List Char :=
  let out := if insertBackslashToEnd then spliceLines out else out
  let out := unescape out
  if escapePercent then printFormat out else out

/-- There is a quote that is not escaped, and would end the literal. -/
def endsLiteral : List Char → Bool
  | '\\' :: _ :: l => endsLiteral l
  | '"' :: _ => true
  | _ :: l => endsLiteral l
  | [] => false

/-! ## Character by character -/

/-- A character, with its percent sign doubled. -/
def formatChar (escapePercent : Bool) (c : Char) : List Char :=
  if c = '%' ∧ escapePercent = true then ['%', '%'] else [c]

/-- A character, escaped. -/
def escapeChar (escapePercent : Bool) (c : Char) : List Char :=
  if c = '\\' then ['\\', '\\'] else if c = '"' then ['\\', '"'] else formatChar escapePercent c

/-- A text, escaped character by character. -/
def escapeChars (escapePercent : Bool) (l : List Char) : List Char :=
  l.flatMap (escapeChar escapePercent)

variable {escapePercent : Bool}

@[simp] theorem escapeChars_cons (c : Char) (l : List Char) :
    escapeChars escapePercent (c :: l) =
      escapeChar escapePercent c ++ escapeChars escapePercent l :=
  List.flatMap_cons

theorem formatChar_true : formatChar true = fun c => if c = '%' then ['%', '%'] else [c] := by
  funext c
  simp [formatChar]

theorem formatChar_false : formatChar false = fun c => [c] := by
  funext c
  simp [formatChar]

/-- The pass over the percent signs, if it is made. -/
theorem flatMap_formatChar (l : List Char) :
    (if escapePercent then replaceAll ['%'] ['%', '%'] l else l) =
      l.flatMap (formatChar escapePercent) := by
  rcases escapePercent with _ | _
  · rw [if_neg Bool.false_ne_true, formatChar_false, List.flatMap_singleton']
  · rw [if_pos rfl, replaceAll_singleton, formatChar_true]

/-- The first passes escape every character by itself. -/
theorem escapeString_false (input : List Char) :
    escapeString input escapePercent false = escapeChars escapePercent input := by
  rw [escapeString, flatMap_formatChar, if_neg Bool.false_ne_true, replaceAll_singleton,
    replaceAll_singleton, List.flatMap_assoc, List.flatMap_assoc]
  refine congrArg (input.flatMap ·) (funext fun c => ?_)
  -- What a pass has put in is left as it is by the next ones.
  by_cases hbackslash : c = '\\'
  · subst hbackslash
    simp [escapeChar, formatChar]
  by_cases hquote : c = '"'
  · subst hquote
    simp [escapeChar, formatChar]
  simp [escapeChar, hbackslash, hquote]

/-- The last pass is about the line ends. -/
theorem escapeString_true (input : List Char) :
    escapeString input escapePercent true =
      replaceAll crLf ('\\' :: crLf) (escapeChars escapePercent input) := by
  rw [← escapeString_false]
  rfl

/-! ## Escaped characters -/

/-- What a character may be escaped to. -/
theorem escapeChar_cases (escapePercent : Bool) (c : Char) :
    c = '\\' ∧ escapeChar escapePercent c = ['\\', '\\'] ∨
      c = '"' ∧ escapeChar escapePercent c = ['\\', '"'] ∨
      c = '%' ∧ escapePercent = true ∧ escapeChar escapePercent c = ['%', '%'] ∨
      c ≠ '\\' ∧ c ≠ '"' ∧ ¬(c = '%' ∧ escapePercent = true) ∧
        escapeChar escapePercent c = [c] := by
  by_cases hbackslash : c = '\\'
  · exact .inl ⟨hbackslash, if_pos hbackslash⟩
  by_cases hquote : c = '"'
  · exact .inr (.inl ⟨hquote, by rw [escapeChar, if_neg hbackslash, if_pos hquote]⟩)
  by_cases hpercent : c = '%' ∧ escapePercent = true
  · refine .inr (.inr (.inl ⟨hpercent.1, hpercent.2, ?_⟩))
    rw [escapeChar, if_neg hbackslash, if_neg hquote, formatChar, if_pos hpercent]
  · refine .inr (.inr (.inr ⟨hbackslash, hquote, hpercent, ?_⟩))
    rw [escapeChar, if_neg hbackslash, if_neg hquote, formatChar, if_neg hpercent]

/-- The characters of a line end are kept, and no other character begins like these. -/
theorem head_escapeChar_append {c d : Char} (hd : d ∈ crLf) (x : List Char) :
    (escapeChar escapePercent c ++ x).head? = some d ↔ c = d := by
  have hd : d = '\r' ∨ d = '\n' := by simpa [crLf] using hd
  rcases escapeChar_cases escapePercent c with ⟨rfl, h⟩ | ⟨rfl, h⟩ | ⟨rfl, -, h⟩ | ⟨-, -, -, h⟩
  all_goals rw [h]
  · rcases hd with rfl | rfl <;> simp
  · rcases hd with rfl | rfl <;> simp
  · rcases hd with rfl | rfl <;> simp
  · simp

theorem escapeChar_cr : escapeChar escapePercent '\r' = ['\r'] := by
  simp [escapeChar, formatChar]

theorem escapeChar_lf : escapeChar escapePercent '\n' = ['\n'] := by
  simp [escapeChar, formatChar]

theorem cr_notMem_escapeChar {c : Char} (h : c ≠ '\r') : '\r' ∉ escapeChar escapePercent c := by
  rcases escapeChar_cases escapePercent c with ⟨rfl, h'⟩ | ⟨rfl, h'⟩ | ⟨rfl, -, h'⟩ | ⟨-, -, -, h'⟩
  all_goals rw [h']
  · decide
  · decide
  · decide
  · simpa using h.symm

/-! ## Line ends -/

theorem crLf_prefix_iff {l : List Char} :
    crLf <+: l ↔ l.head? = some '\r' ∧ l.tail.head? = some '\n' := by
  match l with
  | [] | [_] => simp [crLf]
  | a :: b :: l => simp [crLf, List.cons_prefix_cons, eq_comm]

theorem head_escapeChars {d : Char} (hd : d ∈ crLf) (l : List Char) :
    (escapeChars escapePercent l).head? = some d ↔ l.head? = some d := by
  cases l with
  | nil => rfl
  | cons c l =>
    rw [escapeChars_cons, head_escapeChar_append hd, List.head?_cons, Option.some.injEq]

/-- The escaped text, with the line ends escaped. -/
def escapeLines (escapePercent : Bool) (l : List Char) : List Char :=
  replaceAll crLf ('\\' :: crLf) (escapeChars escapePercent l)

theorem escapeChars_crLf_append (l : List Char) :
    escapeChars escapePercent (crLf ++ l) = crLf ++ escapeChars escapePercent l := by
  show escapeChars _ ('\r' :: '\n' :: l) = _
  rw [escapeChars_cons, escapeChars_cons, escapeChar_cr, escapeChar_lf]
  rfl

theorem escapeLines_append (l : List Char) :
    escapeLines escapePercent (crLf ++ l) = '\\' :: crLf ++ escapeLines escapePercent l := by
  rw [escapeLines, escapeChars_crLf_append]
  exact replaceAll_append (List.cons_ne_nil _ _) _

/-- No line end comes of the characters by themselves. -/
theorem escapeLines_cons {c : Char} {l : List Char} (h : ¬crLf <+: c :: l) :
    escapeLines escapePercent (c :: l) =
      escapeChar escapePercent c ++ escapeLines escapePercent l := by
  rw [escapeLines, escapeChars_cons]
  by_cases hc : c = '\r'
  · subst hc
    rw [escapeChar_cr, List.singleton_append]
    refine replaceAll_cons fun hprefix => h ?_
    rw [crLf_prefix_iff, List.tail_cons, head_escapeChars (by decide)] at hprefix
    rw [crLf_prefix_iff]
    exact ⟨rfl, hprefix.2⟩
  · exact replaceAll_append_of_notMem (cr_notMem_escapeChar hc) _ _

/-- Only a line feed is escaped to a text that begins with one. -/
theorem head_escapeLines {l : List Char} (h : (escapeLines escapePercent l).head? = some '\n') :
    l.head? = some '\n' := by
  by_cases hprefix : crLf <+: l
  · obtain ⟨l, rfl⟩ := hprefix
    rw [escapeLines_append] at h
    simp at h
  · cases l with
    | nil => exact h
    | cons c l =>
      rw [escapeLines_cons hprefix, head_escapeChar_append (by decide)] at h
      rw [h, List.head?_cons]

/-- No escaped text begins with a line end, since each has a backslash in front. -/
theorem not_crLf_prefix_escapeLines (l : List Char) :
    ¬crLf <+: escapeLines escapePercent l := by
  intro h
  by_cases hprefix : crLf <+: l
  · obtain ⟨l, rfl⟩ := hprefix
    rw [escapeLines_append, crLf_prefix_iff] at h
    simp at h
  · cases l with
    | nil => exact hprefix h
    | cons c l =>
      rw [escapeLines_cons hprefix, crLf_prefix_iff, head_escapeChar_append (by decide)] at h
      obtain ⟨rfl, hnext⟩ := h
      rw [escapeChar_cr, List.singleton_append, List.tail_cons] at hnext
      exact hprefix (crLf_prefix_iff.2 ⟨rfl, head_escapeLines hnext⟩)

/-! ## Reading back what has been escaped -/

/-- An escaped character is not taken for the backslash of a line end. -/
theorem spliceLines_append {x : List Char} (h : ¬crLf <+: x) (c : Char) :
    spliceLines (escapeChar escapePercent c ++ x) =
      escapeChar escapePercent c ++ spliceLines x := by
  have hother : ∀ {u : List Char}, '\\' ∉ u → spliceLines (u ++ x) = u ++ spliceLines x :=
    fun hu => replaceAll_append_of_notMem hu _ _
  rcases escapeChar_cases escapePercent c with ⟨rfl, h'⟩ | ⟨rfl, h'⟩ | ⟨rfl, -, h'⟩ | ⟨hc, -, -, h'⟩
  all_goals rw [h']
  · show replaceAll _ _ ('\\' :: '\\' :: x) = _
    rw [replaceAll_cons, replaceAll_cons]
    · rfl
    · exact fun hprefix => h (List.cons_prefix_cons.1 hprefix).2
    · simp [crLf, List.cons_prefix_cons]
  · show replaceAll _ _ ('\\' :: '"' :: x) = _
    rw [replaceAll_cons, replaceAll_cons_of_ne (by decide)]
    · rfl
    · simp [crLf, List.cons_prefix_cons]
  · exact hother (by decide)
  · exact hother (by simpa using hc.symm)

/-- Splicing the lines undoes the last pass, and deletes the line ends. -/
theorem spliceLines_escapeLines (l : List Char) :
    spliceLines (escapeLines escapePercent l) =
      escapeChars escapePercent (replaceAll crLf [] l) := by
  induction l using replace_induction crLf_ne_nil with
  | nil => rfl
  | replaced l ih =>
    rw [escapeLines_append, spliceLines, replaceAll_append (List.cons_ne_nil _ _),
      replaceAll_append crLf_ne_nil]
    exact ih
  | kept c l hc ih =>
    rw [escapeLines_cons hc, spliceLines_append (not_crLf_prefix_escapeLines l), ih,
      replaceAll_cons hc, escapeChars_cons]

theorem unescape_cons {c : Char} (h : c ≠ '\\') (x : List Char) :
    unescape (c :: x) = c :: unescape x := by
  rw [unescape]
  · exact fun _ hc => absurd hc h
  · exact fun _ hc => absurd hc h

/-- An escaped character is read as one. -/
theorem unescape_append (c : Char) (x : List Char) :
    unescape (escapeChar escapePercent c ++ x) = formatChar escapePercent c ++ unescape x := by
  rcases escapeChar_cases escapePercent c with
    ⟨rfl, h⟩ | ⟨rfl, h⟩ | ⟨rfl, hpercent, h⟩ | ⟨hbackslash, -, hpercent, h⟩
  all_goals rw [h, formatChar]
  · simp [unescape]
  · simp [unescape]
  · simp [unescape, hpercent]
  · rw [if_neg hpercent, List.singleton_append, unescape_cons hbackslash, List.singleton_append]

theorem unescape_escapeChars (l : List Char) :
    unescape (escapeChars escapePercent l) = l.flatMap (formatChar escapePercent) := by
  induction l with
  | nil => rfl
  | cons c l ih => rw [escapeChars_cons, unescape_append, ih, List.flatMap_cons]

theorem printFormat_flatMap (l : List Char) : printFormat (l.flatMap (formatChar true)) = l := by
  induction l with
  | nil => rfl
  | cons c l ih =>
    rw [List.flatMap_cons, printFormat, formatChar]
    by_cases hc : c = '%'
    · subst hc
      rw [if_pos ⟨rfl, rfl⟩, replaceAll_append (List.cons_ne_nil _ _)]
      exact congrArg ('%' :: ·) ih
    · rw [if_neg fun h => hc h.1, List.singleton_append, replaceAll_cons_of_ne hc]
      exact congrArg (c :: ·) ih

/-- The characters of the text are read back. -/
theorem decode_escapeChars (l : List Char) :
    decode (escapeChars escapePercent l) escapePercent false = l := by
  rw [decode, if_neg Bool.false_ne_true, unescape_escapeChars]
  cases escapePercent with
  | true => exact printFormat_flatMap l
  | false =>
    rw [formatChar_false]
    exact List.flatMap_singleton' l

/-! ## The end of the literal -/

/-- No escaped character ends the literal. -/
theorem endsLiteral_append (c : Char) (x : List Char) :
    endsLiteral (escapeChar escapePercent c ++ x) = endsLiteral x := by
  rcases escapeChar_cases escapePercent c with
    ⟨rfl, h⟩ | ⟨rfl, h⟩ | ⟨rfl, -, h⟩ | ⟨hbackslash, hquote, -, h⟩
  all_goals rw [h]
  · simp [endsLiteral]
  · simp [endsLiteral]
  · simp [endsLiteral]
  · rw [List.singleton_append, endsLiteral]
    · exact fun _ _ hc => absurd hc hbackslash
    · exact hquote

theorem endsLiteral_escapeChars (l : List Char) :
    endsLiteral (escapeChars escapePercent l) = false := by
  induction l with
  | nil => rfl
  | cons c l ih => rw [escapeChars_cons, endsLiteral_append, ih]

theorem endsLiteral_escapeLines (l : List Char) :
    endsLiteral (escapeLines escapePercent l) = false := by
  induction l using replace_induction crLf_ne_nil with
  | nil => rfl
  | replaced l ih =>
    rw [escapeLines_append]
    simpa [crLf, endsLiteral] using ih
  | kept c l hc ih => rw [escapeLines_cons hc, endsLiteral_append, ih]

/-! ## Round trip -/

/-- Whatever the text and the flags are, the escaped text is read back as the text, less
    the line ends if these have been escaped; and it has no quote that would end the
    literal, before or after its lines have been spliced. -/
theorem decode_escapeString (input : List Char) (escapePercent insertBackslashToEnd : Bool) :
    decode (escapeString input escapePercent insertBackslashToEnd)
        escapePercent insertBackslashToEnd =
      (if insertBackslashToEnd then replaceAll crLf [] input else input) ∧
    endsLiteral (escapeString input escapePercent insertBackslashToEnd) = false ∧
    (insertBackslashToEnd = true → endsLiteral
      (spliceLines (escapeString input escapePercent insertBackslashToEnd)) = false) := by
  cases insertBackslashToEnd with
  | true =>
    have hout : escapeString input escapePercent true = escapeLines escapePercent input :=
      escapeString_true input
    rw [hout]
    refine ⟨?_, endsLiteral_escapeLines input, fun _ => ?_⟩
    · show decode (spliceLines (escapeLines escapePercent input)) escapePercent false = _
      rw [spliceLines_escapeLines]
      exact decode_escapeChars _
    · rw [spliceLines_escapeLines]
      exact endsLiteral_escapeChars _
  | false =>
    rw [escapeString_false]
    refine ⟨decode_escapeChars input, endsLiteral_escapeChars input, fun h => ?_⟩
    exact absurd h Bool.false_ne_true

/-- A backslash, a quote, a line end and a percent sign. -/
example : escapeString ['\\', '"', '\r', '\n', '%'] true true =
    ['\\', '\\', '\\', '"', '\\', '\r', '\n', '%', '%'] := by decide

end QustomKeyboard

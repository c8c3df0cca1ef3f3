import QustomKeyboard.Log.Logger
import QustomKeyboard.Theory.Selection

/-!
# Searching the log file

A search should report the records whose message and level have been looked for
(`matching`), as they have been written. It does so, whatever is looked for, iff each
record is `Readable` (`finds_iff`): if it is written as one line, whose parts are within the
bounds of the format and end where the format expects it.

A single record is taken apart in `parseLine_eq_some_iff`. If all searches find what they
should, then the search for everything shows that each record is one line and is parsed;
and the searches for its message, and for what is read of it, show that these are the
same up to case (`found_eq`, `upper_eq`).
-/

namespace QustomKeyboard

open Theory

/-- A text up to case. -/
def upper (s : List Char) : List Char := s.map Char.toUpper

theorem upper_eq_nil_iff {s : List Char} : upper s = [] ↔ s = [] := List.map_eq_nil_iff

theorem eq_nul_of_toUpper {c : Char} (h : c.toUpper = '\x00') : c = '\x00' := by
  rw [Char.toUpper] at h
  split at h
  · next hlower =>
    -- Only a blank would become a zero.
    have hval := Char.val_inj.2 h
    change c.val + ('A'.val - 'a'.val) = '\x00'.val at hval
    have hblank : c.val.toNat = 32 := by
      have htoNat := congrArg UInt32.toNat hval
      grind
    grind
  · exact h

namespace Record

/-- The function as it is read: up to the first closing bracket. -/
def readFunction (r : Record) : List Char :=
  (r.function.takeWhile (· ≠ ']')).dropWhile isSpace

/-- The rest of the function, behind its first closing bracket. -/
def restFunction (r : Record) : List Char := (r.function.dropWhile (· ≠ ']')).tail

/-- What stands behind the bracket that the function is read up to. -/
def behindFunction (r : Record) : List Char :=
  if ']' ∈ r.function then r.restFunction ++ ']' :: ' ' :: cString r.message
  else ' ' :: cString r.message

/-- The message as it is read. -/
def readMessage (r : Record) : List Char := (r.behindFunction.dropWhile isSpace).take 511

variable (r : Record)

theorem function_append : r.function ++ ']' :: ' ' :: cString r.message =
    r.function.takeWhile (· ≠ ']') ++ ']' :: r.behindFunction := by
  rw [behindFunction]
  split_ifs with h
  · obtain ⟨u, l, hu, hnot⟩ := List.eq_append_cons_of_mem h
    have hpos := decide_ne_of_notMem hnot
    rw [restFunction, hu, List.takeWhile_append_of_pos hpos, List.dropWhile_append_of_pos hpos]
    simp
  · have hself : r.function.takeWhile (· ≠ ']') = r.function :=
      List.takeWhile_eq_self_iff.2 (decide_ne_of_notMem h)
    rw [hself]

theorem dropWhile_function :
    (r.function ++ ']' :: ' ' :: cString r.message).dropWhile isSpace =
      r.readFunction ++ ']' :: r.behindFunction := by
  rw [function_append, dropWhile_append_cons (by decide)]
  rfl

theorem notMem_readFunction : ']' ∉ r.readFunction := fun h => by
  simpa using List.mem_takeWhile_imp ((List.dropWhile_suffix _).subset h)

/-- What stands behind the function comes from the function and the message. -/
theorem mem_of_mem_behindFunction {c : Char} (hc : c < ' ') (h : c ∈ r.behindFunction) :
    c ∈ r.function ∨ c ∈ cString r.message := by
  have hline : c ∈ r.function ++ ']' :: ' ' :: cString r.message := by
    rw [function_append]
    exact List.mem_append_right _ (List.mem_cons_of_mem _ h)
  rcases List.mem_append.1 hline with hfunction | hmessage
  · exact .inl hfunction
  -- Neither the bracket nor the blank is a control character.
  rcases List.mem_cons.1 hmessage with rfl | hmessage
  · exact absurd hc (by decide)
  rcases List.mem_cons.1 hmessage with rfl | hmessage
  · exact absurd hc (lt_irrefl _)
  · exact .inr hmessage

theorem notMem_behindFunction (h : '\n' ∉ r.text) : '\n' ∉ r.behindFunction := by
  intro hmem
  rw [mem_text_iff _ (by decide)] at h
  rcases r.mem_of_mem_behindFunction (by decide) hmem with hfunction | hmessage
  · exact h (.inr (.inl hfunction))
  · exact h (.inr (.inr ((List.takeWhile_prefix _).subset hmessage)))

/-- When the rest of the line is read, and what is read of it. -/
theorem scan_function_eq_iff (h : '\n' ∉ r.text) {name : Field} {logstr : List Char} :
    scan functionFormat (r.function ++ ']' :: ' ' :: cString r.message) = [name, .text logstr] ↔
      (FitsSet 255 ']' r.readFunction ∧ r.readMessage ≠ []) ∧
        name = .text r.readFunction ∧ logstr = r.readMessage := by
  rw [functionFormat, scan, dropWhile_function]
  by_cases hname : FitsSet 255 ']' r.readFunction
  · rw [scan_scanSet_append hname, scan_char_cons,
      scan_message (r.notMem_behindFunction h)]
    change Field.text r.readFunction ::
      (if r.readMessage = [] then [] else [Field.text r.readMessage]) = _ ↔ _
    by_cases hmessage : r.readMessage = []
    · simp [hmessage]
    · simp [hmessage, hname, eq_comm]
  · refine iff_of_false (fun heq => ?_) fun hfits => hname hfits.1.1
    have hle : (scan (.scanSet 255 ']' :: .char ']' :: messageFormat)
        (r.readFunction ++ ']' :: r.behindFunction)).length ≤ 1 :=
      length_scan_scanSet_append_le r.notMem_readFunction hname
    rw [heq] at hle
    exact absurd hle (Nat.not_succ_le_self 1)

end Record

/-- The fields of a line that begins as the lines of the log do. -/
theorem parseFields_eq_some_iff {a b c d e f g : Field} {level : List Char} {fs : List Field}
    {p : LogLine} :
    parseFields (a :: b :: c :: d :: e :: f :: g :: .text level :: fs) = some p ↔
      ∃ cppfile line function logstr,
        fs = [.text cppfile, line, function, .text logstr] ∧ p = ⟨level, cppfile, logstr⟩ := by
  constructor
  · intro h
    unfold parseFields at h
    split at h
    · next heq =>
      simp only [List.cons.injEq, Field.text.injEq] at heq
      obtain ⟨-, -, -, -, -, -, -, rfl, hfs⟩ := heq
      exact ⟨_, _, _, _, hfs, (Option.some.inj h).symm⟩
    · exact absurd h (by simp)
  · rintro ⟨cppfile, line, function, logstr, rfl, rfl⟩
    rfl

namespace Record

variable (r : Record)

/-- When the line of a record is parsed, with its file, and what is read of it. -/
theorem parseLine_eq_some_iff (h : '\n' ∉ r.text) {p : LogLine} :
    parseLine r.text = some p ∧ p.cppfile = r.file ↔
      (FitsSet 63 ':' r.file ∧ FitsSet 255 ']' r.readFunction ∧ r.readMessage ≠ []) ∧
        p = ⟨r.level.severity, r.file, r.readMessage⟩ := by
  rw [parseLine, sscanf_text, parseFields_eq_some_iff]
  constructor
  · rintro ⟨⟨cppfile, line, function, logstr, hscan, rfl⟩, rfl⟩
    have hfile : FitsSet 63 ':' r.file := fitsSet_of_scan hscan
    rw [scan_file _ hfile, List.cons.injEq, List.cons.injEq] at hscan
    obtain ⟨hfits, -, rfl⟩ := (r.scan_function_eq_iff h).1 hscan.2.2
    exact ⟨⟨hfile, hfits⟩, rfl⟩
  · rintro ⟨⟨hfile, hfits⟩, rfl⟩
    have hscan := (r.scan_function_eq_iff h).2 ⟨hfits, rfl, rfl⟩
    exact ⟨⟨_, _, _, _, by rw [scan_file _ hfile, hscan], rfl⟩, rfl⟩

/-- The line of a record ends with a carriage return iff its message does. -/
theorem getLast_text : r.text.getLast? = some '\r' ↔ r.message.getLast? = some '\r' := by
  obtain ⟨u, hu⟩ : ∃ u, r.text = u ++ ' ' :: r.message :=
    ⟨r.stamp ++ (r.file ++ ':' :: (zeroFilled 1 r.line.toNat ++ ' ' :: '-' :: ' ' ::
      (r.function ++ [']']))), by simp [text]⟩
  rw [hu, List.getLast?_append_cons]
  rcases r.message with _ | ⟨c, l⟩
  · simp
  · rw [List.getLast?_cons_cons]

/-! ## Readable records -/

/-- The message is read as it has been written, up to case. -/
structure MessageReadable : Prop where
  ne_nil : r.message ≠ []
  length_le : r.message.length ≤ 511
  nul : '\x00' ∉ r.message
  space : ']' ∉ r.function → ∀ c ∈ r.message.head?, isSpace c = false
  /-- A message of full length may repeat what has been taken for its beginning. -/
  bracket : ']' ∈ r.function → r.message.length = 511 ∧
    upper ((r.restFunction.dropWhile isSpace ++ ']' :: ' ' :: r.message).take 511) =
      upper r.message

/-- The record is read as it has been written. -/
structure Readable : Prop where
  /-- It is one line of the file. -/
  line : ∀ s ∈ [r.file, r.function, r.message], '\n' ∉ s ∧ '\x1a' ∉ s
  cr : r.message.getLast? ≠ some '\r'
  file : FitsSet 63 ':' r.file
  function : FitsSet 255 ']' r.readFunction
  message : r.MessageReadable

theorem line_iff : (∀ s ∈ [r.file, r.function, r.message], '\n' ∉ s ∧ '\x1a' ∉ s) ↔
    '\n' ∉ r.text ∧ '\x1a' ∉ r.text := by
  rw [mem_text_iff _ (by decide), mem_text_iff _ (by decide)]
  simp only [List.forall_mem_cons, List.not_mem_nil, false_imp_iff, implies_true, and_true, not_or]
  tauto

theorem readMessage_of_notMem (h : ']' ∉ r.function) :
    r.readMessage = ((cString r.message).dropWhile isSpace).take 511 := by
  rw [readMessage, behindFunction, if_neg h, List.dropWhile_cons_of_pos rfl]

theorem readMessage_of_mem (h : ']' ∈ r.function) : r.readMessage =
    (r.restFunction.dropWhile isSpace ++ ']' :: ' ' :: cString r.message).take 511 := by
  rw [readMessage, behindFunction, if_pos h, dropWhile_append_cons (by decide)]

/-- Without brackets, the message is read if nothing of it is left out. -/
theorem readMessage_eq_iff (h : ']' ∉ r.function) :
    upper r.readMessage = upper r.message ↔
      r.message.length ≤ 511 ∧ '\x00' ∉ r.message ∧ ∀ c ∈ r.message.head?, isSpace c = false := by
  rw [r.readMessage_of_notMem h]
  constructor
  · intro hupper
    -- Each step can only have made the text shorter, and it is as long as before.
    have hlength := congrArg List.length hupper
    rw [upper, upper, List.length_map, List.length_map, List.length_take] at hlength
    have hcString : (cString r.message) <+: r.message := List.takeWhile_prefix _
    have hdrop : (cString r.message).dropWhile isSpace <:+ cString r.message :=
      List.dropWhile_suffix _
    have hcString_le := hcString.length_le
    have hdrop_le := hdrop.length_le
    have hself : cString r.message = r.message := hcString.eq_of_length (by omega)
    rw [hself] at hdrop hdrop_le hlength
    have hspace : r.message.dropWhile isSpace = r.message := hdrop.eq_of_length (by omega)
    exact ⟨by omega, hself ▸ notMem_cString _, dropWhile_isSpace_eq_self_iff.1 hspace⟩
  · rintro ⟨hlength, hnul, hspace⟩
    rw [cString_of_notMem hnul, dropWhile_isSpace_eq_self_iff.2 hspace,
      List.take_of_length_le hlength]

theorem notMem_readMessage : '\x00' ∉ r.readMessage := by
  intro h
  have hbehind : '\x00' ∈ r.behindFunction :=
    (List.dropWhile_suffix _).subset (List.mem_of_mem_take h)
  rcases r.mem_of_mem_behindFunction (by decide) hbehind with hfunction | hmessage
  · exact r.nul_function hfunction
  · exact notMem_cString _ hmessage

/-- With a bracket, more is read than the message, unless this has the full length. -/
theorem readMessage_eq_iff_of_mem (h : ']' ∈ r.function) :
    upper r.readMessage = upper r.message ↔
      r.message.length = 511 ∧ '\x00' ∉ r.message ∧
        upper ((r.restFunction.dropWhile isSpace ++ ']' :: ' ' :: r.message).take 511) =
          upper r.message := by
  constructor
  · intro hupper
    have hnul : '\x00' ∉ r.message := by
      intro hmem
      have hmem : '\x00' ∈ upper r.message := List.mem_map.2 ⟨_, hmem, rfl⟩
      rw [← hupper] at hmem
      obtain ⟨c, hc, hnul⟩ := List.mem_map.1 hmem
      exact r.notMem_readMessage (eq_nul_of_toUpper hnul ▸ hc)
    rw [r.readMessage_of_mem h, cString_of_notMem hnul] at hupper
    -- The text is longer than the message, so it has been cut off at the bound.
    have hlength := congrArg List.length hupper
    rw [upper, upper, List.length_map, List.length_map, List.length_take, List.length_append,
      List.length_cons, List.length_cons] at hlength
    exact ⟨by omega, hnul, hupper⟩
  · rintro ⟨-, hnul, hupper⟩
    rwa [r.readMessage_of_mem h, cString_of_notMem hnul]

/-- When the message is read, up to case. -/
theorem messageReadable_iff :
    r.MessageReadable ↔ r.readMessage ≠ [] ∧ upper r.readMessage = upper r.message := by
  have hne : upper r.readMessage = upper r.message → (r.readMessage ≠ [] ↔ r.message ≠ []) := by
    intro hupper
    rw [Ne, Ne, ← upper_eq_nil_iff, hupper, upper_eq_nil_iff]
  by_cases hfunction : ']' ∈ r.function
  · constructor
    · rintro ⟨hnil, -, hnul, -, hbracket⟩
      obtain ⟨hlength, hrest⟩ := hbracket hfunction
      have hupper := (r.readMessage_eq_iff_of_mem hfunction).2 ⟨hlength, hnul, hrest⟩
      exact ⟨(hne hupper).2 hnil, hupper⟩
    · rintro ⟨hnil, hupper⟩
      obtain ⟨hlength, hnul, hrest⟩ := (r.readMessage_eq_iff_of_mem hfunction).1 hupper
      exact ⟨(hne hupper).1 hnil, hlength.le, hnul, fun h => absurd hfunction h,
        fun _ => ⟨hlength, hrest⟩⟩
  · constructor
    · rintro ⟨hnil, hlength, hnul, hspace, -⟩
      have hupper := (r.readMessage_eq_iff hfunction).2 ⟨hlength, hnul, hspace hfunction⟩
      exact ⟨(hne hupper).2 hnil, hupper⟩
    · rintro ⟨hnil, hupper⟩
      obtain ⟨hlength, hnul, hspace⟩ := (r.readMessage_eq_iff hfunction).1 hupper
      exact ⟨(hne hupper).1 hnil, hlength, hnul, fun _ => hspace, fun h => absurd h hfunction⟩

end Record

/-! ## Searches -/

/-- The entries for the records that are looked for. -/
def matching (rs : List Record) (filter logLevel : List Char) : List LogEntry :=
  (rs.filter fun r => found filter r.message && found logLevel r.level.severity).map
    fun r => ⟨r.file, r.text⟩

/-- Whatever is looked for, the search reports the records that match. -/
def Finds (rs : List Record) : Prop :=
  ∀ helper filter logLevel, searchInLogFile (some (logFile rs)) (some helper) filter logLevel =
    (true, some (matching rs filter logLevel))

theorem found_iff {filter s : List Char} : found filter s = true ↔ upper filter <:+: upper s := by
  rw [found, Bool.or_eq_true, decide_eq_true_iff, List.isEmpty_iff]
  refine ⟨fun h => h.elim (fun hnil => ?_) id, .inr⟩
  rw [hnil]
  exact List.nil_infix

/-- Texts in which the same is found are the same up to case. -/
theorem upper_eq {s t : List Char} (h : ∀ filter, found filter s = found filter t) :
    upper s = upper t := by
  have hst : upper s <:+: upper t := found_iff.1 ((h s).symm.trans (found_iff.2 List.infix_rfl))
  have hts : upper t <:+: upper s := found_iff.1 ((h t).trans (found_iff.2 List.infix_rfl))
  exact hst.sublist.antisymm hts.sublist

/-- What is found depends on a text up to case. -/
theorem found_eq {s t : List Char} (h : upper s = upper t) (filter : List Char) :
    found filter s = found filter t := by
  rw [Bool.eq_iff_iff, found_iff, found_iff, h]

/-- The entry for a record, if it is looked for. -/
def matchingEntry (filter logLevel : List Char) (r : Record) : Option LogEntry :=
  if found filter r.message && found logLevel r.level.severity then some ⟨r.file, r.text⟩ else none

theorem matching_eq (rs : List Record) (filter logLevel : List Char) :
    matching rs filter logLevel = rs.filterMap (matchingEntry filter logLevel) := by
  rw [matching, ← List.filterMap_eq_map, List.filterMap_filter]
  rfl

/-- The searches by what they report of each line. -/
theorem finds_iff_lines (rs : List Record) : Finds rs ↔ ∀ filter logLevel,
    (getLines (textMode (logFile rs))).filterMap (searchLine filter logLevel) =
      rs.filterMap (matchingEntry filter logLevel) := by
  simp only [Finds, searchInLogFile, matching_eq, Prod.mk.injEq, Option.some.injEq, true_and]
  exact ⟨fun h => h [], fun h _ => h⟩

/-- The lines of the log file, if each record is one line. -/
theorem getLines_logFile {rs : List Record}
    (h : ∀ r ∈ rs, '\n' ∉ r.text ∧ '\x1a' ∉ r.text) :
    getLines (textMode (logFile rs)) = rs.map fun r => dropCr r.text := by
  rw [logFile_eq, getLines_textMode (List.forall_mem_map.2 h), List.map_map]
  rfl

theorem searchLine_eq_some {filter logLevel line : List Char} {e : LogEntry}
    (h : searchLine filter logLevel line = some e) :
    ∃ p, parseLine line = some p ∧ e = ⟨p.cppfile, line⟩ := by
  rw [searchLine] at h
  split at h
  · next p hp =>
    split_ifs at h
    exact ⟨p, hp, (Option.some.inj h).symm⟩
  · exact absurd h (by simp)

theorem matchingEntry_nil (r : Record) : matchingEntry [] [] r = some ⟨r.file, r.text⟩ := rfl

/-- Where everything is found, each record is a line of the log that is parsed. -/
theorem searchLine_dropCr {rs : List Record} (h : Finds rs) : ∀ r ∈ rs,
    ('\n' ∉ r.text ∧ '\x1a' ∉ r.text) ∧
      searchLine [] [] (dropCr r.text) = some ⟨r.file, r.text⟩ := by
  rw [finds_iff_lines] at h
  have hlines : ∀ r ∈ rs, '\n' ∉ r.text ∧ '\x1a' ∉ r.text := by
    intro r hr
    have hmem : ⟨r.file, r.text⟩ ∈ rs.filterMap (matchingEntry [] []) :=
      List.mem_filterMap.2 ⟨r, hr, matchingEntry_nil r⟩
    rw [← h [] [], List.mem_filterMap] at hmem
    obtain ⟨line, hline, hentry⟩ := hmem
    obtain ⟨p, -, heq⟩ := searchLine_eq_some hentry
    obtain ⟨-, rfl⟩ := LogEntry.mk.inj heq
    exact notMem_of_mem_getLines hline
  have hall := h [] []
  rw [getLines_logFile hlines, List.filterMap_map, Function.comp_def] at hall
  have heq : ∀ r ∈ rs, searchLine [] [] (dropCr r.text) = matchingEntry [] [] r :=
    eq_of_filterMap_eq (fun r _ hnone => absurd hnone (by simp [matchingEntry_nil])) hall
  exact fun r hr => ⟨hlines r hr, (heq r hr).trans (matchingEntry_nil r)⟩

/-- The log file as it has been written. -/
theorem getLines_of_finds {rs : List Record} (h : Finds rs) :
    getLines (textMode (logFile rs)) = rs.map Record.text := by
  rw [getLines_logFile fun r hr => (searchLine_dropCr h r hr).1]
  refine List.map_congr_left fun r hr => ?_
  obtain ⟨p, -, heq⟩ := searchLine_eq_some (searchLine_dropCr h r hr).2
  exact (LogEntry.mk.inj heq).2.symm

/-- Where everything is found, a line matches iff its record does. -/
theorem searchLine_of_finds {rs : List Record} (h : Finds rs) (filter logLevel : List Char) :
    ∀ r ∈ rs, matchingEntry filter logLevel r = searchLine filter logLevel r.text := by
  have hall := (finds_iff_lines rs).1 h filter logLevel
  rw [getLines_of_finds h, List.filterMap_map, Function.comp_def] at hall
  have hnone : ∀ r ∈ rs, searchLine filter logLevel r.text = none →
      matchingEntry filter logLevel r = none := by
    intro r hr hnone
    -- Otherwise another record with the same text would have been found.
    by_contra hsome
    obtain ⟨e, he⟩ := Option.ne_none_iff_exists'.1 hsome
    have hmem : e ∈ rs.filterMap (matchingEntry filter logLevel) :=
      List.mem_filterMap.2 ⟨r, hr, he⟩
    rw [← hall, List.mem_filterMap] at hmem
    obtain ⟨r', -, he'⟩ := hmem
    obtain ⟨p, -, rfl⟩ := searchLine_eq_some he'
    rw [matchingEntry] at he
    split_ifs at he
    obtain ⟨-, htext⟩ := LogEntry.mk.inj (Option.some.inj he)
    rw [htext, he'] at hnone
    exact Option.some_ne_none _ hnone
  exact eq_of_filterMap_eq hnone hall.symm

theorem searchLine_of_parseLine {line : List Char} {p : LogLine} (h : parseLine line = some p)
    (filter logLevel : List Char) : searchLine filter logLevel line =
      if found filter p.logstr && found logLevel p.level then some ⟨p.cppfile, line⟩ else none := by
  rw [searchLine, h]

/-- What is read of a readable record. -/
theorem Record.Readable.parseLine {r : Record} (h : r.Readable) :
    parseLine r.text = some ⟨r.level.severity, r.file, r.readMessage⟩ :=
  ((r.parseLine_eq_some_iff (r.line_iff.1 h.line).1).2
    ⟨⟨h.file, h.function, (r.messageReadable_iff.1 h.message).1⟩, rfl⟩).1

/-- A readable record is found by what it says. -/
theorem Record.Readable.searchLine {r : Record} (h : r.Readable) (filter logLevel : List Char) :
    searchLine filter logLevel (dropCr r.text) = matchingEntry filter logLevel r := by
  rw [dropCr_of_ne (mt r.getLast_text.1 h.cr), searchLine_of_parseLine h.parseLine,
    found_eq (r.messageReadable_iff.1 h.message).2]
  rfl

/-- Every search of the log reports exactly the records that match iff each of the records
    is readable. -/
theorem finds_iff (rs : List Record) : Finds rs ↔ ∀ r ∈ rs, r.Readable := by
  constructor
  · intro h r hr
    obtain ⟨hline, hentry⟩ := searchLine_dropCr h r hr
    obtain ⟨p, hparse, heq⟩ := searchLine_eq_some hentry
    obtain ⟨hfile, htext⟩ := LogEntry.mk.inj heq
    rw [← htext] at hparse
    obtain ⟨⟨hfits, hfunction, hnil⟩, rfl⟩ :=
      (r.parseLine_eq_some_iff hline.1).1 ⟨hparse, hfile.symm⟩
    refine ⟨r.line_iff.2 hline, fun hcr => ?_, hfits, hfunction, r.messageReadable_iff.2 ⟨hnil, ?_⟩⟩
    · exact dropCr_ne_of_eq (r.getLast_text.2 hcr) htext.symm
    · -- The message and what is read of it are found by the same searches.
      refine upper_eq fun filter => ?_
      have hsame := searchLine_of_finds h filter [] r hr
      have hlevel : found [] r.level.severity = true := rfl
      rw [searchLine_of_parseLine hparse, matchingEntry, hlevel, Bool.and_true, Bool.and_true]
        at hsame
      rw [Bool.eq_iff_iff]
      split_ifs at hsame with hmessage hread hread
      · exact iff_of_true hread hmessage
      · exact iff_of_false hread hmessage
  · intro h
    refine (finds_iff_lines rs).2 fun filter logLevel => ?_
    rw [getLines_logFile fun r hr => r.line_iff.1 (h r hr).line, List.filterMap_map,
      Function.comp_def]
    exact List.filterMap_congr fun r hr => (h r hr).searchLine filter logLevel

/-- A record that is read as it has been written. -/
example : parseLine (Record.text
    { time := ⟨2022, 8, 12, 15, 54, 0, 591⟩
      level := .warning
      file := ['H', 'i', 'd', '.', 'c', 'p', 'p']
      line := 59
      function := ['H', 'i', 'd', ':', ':', 'I', 'n', 'i', 't']
      message := ['5', ' ', ']']
      nul_file := by decide
      nul_function := by decide }) =
    some ⟨LogLevel.warning.severity, ['H', 'i', 'd', '.', 'c', 'p', 'p'], ['5', ' ', ']']⟩ := by
  decide

/-- A record without a message is not found, although everything is looked for. -/
theorem not_finds_empty : ¬Finds [{
    time := ⟨2022, 8, 12, 15, 54, 0, 591⟩
    level := .warning
    file := ['H', 'i', 'd', '.', 'c', 'p', 'p']
    line := 59
    function := ['H', 'i', 'd', ':', ':', 'I', 'n', 'i', 't']
    message := []
    nul_file := by decide
    nul_function := by decide }] := by
  intro h
  have hall := (finds_iff_lines _).1 h [] []
  revert hall
  decide

end QustomKeyboard

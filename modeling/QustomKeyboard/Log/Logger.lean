import Mathlib
import QustomKeyboard.Theory.Scanf
import QustomKeyboard.Theory.TextFile

/-!
# The log file

The logger writes each record as a line of text (`logInternal`). A search reads the file
line by line and takes each line apart by a `scanf` format (`parseLine`), which bounds the
lengths of its parts; lines where this fails are passed over (`searchInLogFile`).

The text of a record is read part by part: the date and the level always are
(`sscanf_text`), the file is if it meets its bounds (`scan_file`), and the message is up to
its bound (`scan_message`).

The characters stand for the bytes of the texts.
-/

namespace QustomKeyboard

open Theory

inductive LogLevel
  | verbose
  | normal
  | notification
  | warning
  | error
  | critical
  deriving DecidableEq

/-- `HelperTraits<std::string>::serverities`. -/
def LogLevel.severity : LogLevel → List Char
  | .verbose => ['V', 'e', 'r', 'b', 'o', 's', 'e']
  | .normal => ['N', 'o', 'r', 'm', 'a', 'l']
  | .notification => ['N', 'o', 't', 'i', 'f', 'i', 'c', 'a', 't', 'i', 'o', 'n']
  | .warning => ['W', 'a', 'r', 'n', 'i', 'n', 'g']
  | .error => ['E', 'r', 'r', 'o', 'r']
  | .critical => ['C', 'r', 'i', 't', 'i', 'c', 'a', 'l']

/-- Local time, in milliseconds. -/
structure LogTime where
  year : ℕ
  month : ℕ
  day : ℕ
  hour : ℕ
  minute : ℕ
  second : ℕ
  millisecond : ℕ

/-- A record to be logged. The names come as C strings. -/
structure Record where
  time : LogTime
  level : LogLevel
  /-- The base name of the source file. -/
  file : List Char
  line : UInt32
  function : List Char
  /-- The formatted message. -/
  message : List Char
  nul_file : '\x00' ∉ file
  nul_function : '\x00' ∉ function

namespace Record

/-- `"{:%Y.%m.%d %H:%M:%S} [{}] ["`, where the seconds have a fraction. -/
def stamp (r : Record) : List Char :=
  zeroFilled 4 r.time.year ++ '.' :: (zeroFilled 2 r.time.month ++ '.' ::
    (zeroFilled 2 r.time.day ++ ' ' :: (zeroFilled 2 r.time.hour ++ ':' ::
    (zeroFilled 2 r.time.minute ++ ':' :: (zeroFilled 2 r.time.second ++ '.' ::
    (zeroFilled 3 r.time.millisecond ++ ' ' :: '[' ::
    (r.level.severity ++ [']', ' ', '['])))))))

/-- `LOG_FILE_FORMAT`, without the line feed. -/
def text (r : Record) : List Char :=
  r.stamp ++ (r.file ++ ':' :: (zeroFilled 1 r.line.toNat ++ ' ' :: '-' :: ' ' ::
    (r.function ++ ']' :: ' ' :: r.message)))

end Record

/-- `Logger::LogInternal`, as far as the log file is concerned. -/
def logInternal (fLog : List Char) (r : Record) : List Char := fLog ++ r.text ++ ['\n']

/-- The log file after the records have been logged. -/
def logFile (rs : List Record) : List Char := rs.foldl logInternal []

/-! ## Searching -/

/-- `"%511[^\n]"`, behind white space. -/
def messageFormat : List Directive := [.space, .scanSet 511 '\n']

/-- `"%255[^]]] %511[^\n]"`, behind white space. -/
def functionFormat : List Directive := .space :: .scanSet 255 ']' :: .char ']' :: messageFormat

/-- `"%63[^:]:%d - %255[^]]] %511[^\n]"` -/
def fileFormat : List Directive :=
  .scanSet 63 ':' :: .char ':' :: .int :: .space :: .char '-' :: functionFormat

/-- `"%d.%d.%d %d:%d:%d.%d [%31[^]]] [%63[^:]:%d - %255[^]]] %511[^\n]"` -/
def lineFormat : List Directive :=
  .int :: .char '.' :: .int :: .char '.' :: .int :: .space :: .int :: .char ':' :: .int ::
    .char ':' :: .int :: .char '.' :: .int :: .space :: .char '[' :: .scanSet 31 ']' ::
    .char ']' :: .space :: .char '[' :: fileFormat

/-- The fields of a line that the search looks at. -/
structure LogLine where
  level : List Char
  cppfile : List Char
  logstr : List Char
  deriving DecidableEq

/-- The line, if `sscanf` returns 12. -/
def parseFields : List Field → Option LogLine
  | [_, _, _, _, _, _, _, .text level, .text cppfile, _, _, .text logstr] =>
    some ⟨level, cppfile, logstr⟩
  | _ => none

def parseLine (line : List Char) : Option LogLine := parseFields (sscanf lineFormat line)

/-- `boost::algorithm::ifind_first` finds `filter`; and an empty one is not looked for. -/
def found (filter s : List Char) : Bool :=
  filter.isEmpty || filter.map Char.toUpper <:+: s.map Char.toUpper

/-- What the search appends to the log panel. -/
structure LogEntry where
  file : List Char
  message : List Char
  deriving DecidableEq

/-- An iteration of the loop in `Logger::SearchInLogFile`. -/
def searchLine (filter logLevel line : List Char) : Option LogEntry :=
  match parseLine line with
  | some p =>
    if found filter p.logstr && found logLevel p.level then some ⟨p.cppfile, line⟩ else none
  | none => none

/-- `Logger::SearchInLogFile`, from the log file, if it can be opened, and the entries of the
    log panel, if there is one: its result, and the entries that are left. -/
def searchInLogFile (logFile : Option (List Char)) (helper : Option (List LogEntry))
    (filter logLevel : List Char) : Bool × Option (List LogEntry) :=
  match logFile, helper with
  | some contents, some _ =>
    (true, some ((getLines (textMode contents)).filterMap (searchLine filter logLevel)))
  | _, _ => (false, helper)

/-! ## The text of a record -/

theorem logFile_eq (rs : List Record) :
    logFile rs = (rs.map Record.text).flatMap (· ++ ['\n']) := by
  have hfold : ∀ fLog, rs.foldl logInternal fLog =
      fLog ++ (rs.map Record.text).flatMap (· ++ ['\n']) := by
    induction rs with
    | nil => exact fun fLog => (List.append_nil fLog).symm
    | cons r rs ih =>
      intro fLog
      rw [List.foldl_cons, ih, logInternal, List.map_cons, List.flatMap_cons]
      simp only [List.append_assoc]
  exact hfold []

namespace Record

variable (r : Record)

/-- No control characters are written but those of the names and the message. -/
theorem mem_text_iff {c : Char} (hc : c < ' ') :
    c ∈ r.text ↔ c ∈ r.file ∨ c ∈ r.function ∨ c ∈ r.message := by
  have hne : ∀ d, ' ' ≤ d → c ≠ d := fun d hd => (hc.trans_le hd).ne
  have hnum : ∀ w n, c ∉ zeroFilled w n := fun w n hmem =>
    (le_of_mem_zeroFilled hmem).not_gt (hc.trans (by decide))
  have hlevel : c ∉ r.level.severity := fun hmem => by
    have hle : ∀ d ∈ r.level.severity, ' ' ≤ d := by cases r.level <;> simp [LogLevel.severity]
    exact (hle c hmem).not_gt hc
  simp only [text, stamp, List.mem_append, List.mem_cons, List.not_mem_nil, hnum, hlevel,
    hne '.' (by decide), hne ' ' (by decide), hne ':' (by decide), hne '[' (by decide),
    hne ']' (by decide), hne '-' (by decide), false_or, or_false]

/-- The part of the text that `sscanf` sees. -/
theorem cString_text : cString r.text =
    r.stamp ++ (r.file ++ ':' :: (zeroFilled 1 r.line.toNat ++ ' ' :: '-' :: ' ' ::
      (r.function ++ ']' :: ' ' :: cString r.message))) := by
  -- All but the message is the text of the record with an empty message.
  have htext : ∀ m, { r with message := m }.text = { r with message := [] }.text ++ m := fun m => by
    simp only [text, stamp, List.append_assoc, List.cons_append, List.nil_append]
  have hnul : '\x00' ∉ { r with message := [] }.text := by
    rw [mem_text_iff _ (by decide)]
    simp [r.nul_file, r.nul_function]
  have hmessage : r.text = { r with message := [] }.text ++ r.message := htext r.message
  rw [hmessage, cString_append hnul, ← htext]
  rfl

theorem sscanf_text : sscanf lineFormat r.text =
    .int r.time.year :: .int r.time.month :: .int r.time.day :: .int r.time.hour ::
      .int r.time.minute :: .int r.time.second :: .int r.time.millisecond ::
      .text r.level.severity :: scan fileFormat (r.file ++ ':' :: (zeroFilled 1 r.line.toNat ++
        ' ' :: '-' :: ' ' :: (r.function ++ ']' :: ' ' :: cString r.message))) := by
  have hlevel : FitsSet 31 ']' r.level.severity := by
    cases r.level <;> exact ⟨by decide, by decide, by decide⟩
  -- One rewrite for each directive.
  rw [sscanf, cString_text, stamp, lineFormat]
  simp only [List.append_assoc, List.cons_append, List.nil_append]
  rw [scan_int_append rfl, scan_char_cons, scan_int_append rfl, scan_char_cons,
    scan_int_append rfl, scan_space_cons rfl, scan_space_append, scan_int_append rfl,
    scan_char_cons, scan_int_append rfl, scan_char_cons, scan_int_append rfl, scan_char_cons,
    scan_int_append rfl, scan_space_cons rfl, scan_space_cons_of_not rfl, scan_char_cons,
    scan_scanSet_append hlevel, scan_char_cons,
    scan_space_cons rfl, scan_space_cons_of_not rfl, scan_char_cons]

theorem scan_file (h : FitsSet 63 ':' r.file) (m : List Char) :
    scan fileFormat (r.file ++ ':' :: (zeroFilled 1 r.line.toNat ++
        ' ' :: '-' :: ' ' :: (r.function ++ ']' :: ' ' :: m))) =
      .text r.file :: .int r.line.toNat :: scan functionFormat (r.function ++ ']' :: ' ' :: m) := by
  rw [fileFormat, scan_scanSet_append h, scan_char_cons, scan_int_append rfl,
    scan_space_cons rfl, scan_space_cons_of_not rfl, scan_char_cons, functionFormat,
    scan_space_cons rfl]

end Record

/-- The message, up to its bound. -/
theorem scan_message {b : List Char} (h : '\n' ∉ b) :
    scan messageFormat b =
      if (b.dropWhile isSpace).take 511 = [] then []
      else [.text ((b.dropWhile isSpace).take 511)] := by
  have hline : ((b.dropWhile isSpace).take 511).takeWhile (· ≠ '\n') =
      (b.dropWhile isSpace).take 511 := by
    rw [List.takeWhile_eq_self_iff]
    exact decide_ne_of_notMem fun hmem =>
      h ((List.dropWhile_suffix _).subset (List.mem_of_mem_take hmem))
  rw [messageFormat, scan, scan]
  simp only [hline]
  rfl

end QustomKeyboard

import Mathlib.Data.Char
import Mathlib.Data.Int.Notation
import Mathlib.Data.List.TakeWhile

/-!
# Scanning a text by a format

A format of the `scanf` family is a list of directives (`Directive`), each of which reads
something off the front of the text, until one of them does not match (`scan`). The values
read so far are kept.

What has been written by the directives of a `printf` format is read back if there is no
doubt where it ends:

* an integer ends where the digits do (`readInt_append`);
* a text that is bounded by its length and by a character it may not have is read if it
  meets these bounds (`scan_scanSet_append`), and only then if the next directive is this
  character (`length_scan_scanSet_append_le`).
-/

namespace Theory

/-- White space. -/
def isSpace (c : Char) : Bool := c ∈ [' ', '\t', '\n', '\x0b', '\x0c', '\r']

/-- A directive of a format. -/
inductive Directive
  /-- White space: any amount of white space, also none. -/
  | space
  /-- A character that stands for itself. -/
  | char (c : Char)
  /-- `%d` -/
  | int
  /-- `%*c`: some character, which is not stored. -/
  | skipChar
  /-- `%n[^c]`: at most `width` characters other than `excluded`, and at least one. -/
  | scanSet (width : ℕ) (excluded : Char)
  deriving DecidableEq

/-- What has been read and is stored. -/
inductive Field
  | int (n : ℤ)
  | text (s : List Char)
  deriving DecidableEq

/-- The digits at the front as a number, and what comes behind these. -/
def readDigits (l : List Char) : Option (ℕ × List Char) :=
  match l.takeWhile Char.isDigit with
  | [] => none
  | u => some (Nat.ofDigitChars 10 u 0, l.dropWhile Char.isDigit)

/-- An integer behind white space, with or without a sign, and what comes behind it. -/
def readInt (l : List Char) : Option (ℤ × List Char) :=
  match l.dropWhile isSpace with
  | '-' :: l => (readDigits l).map fun p => (-p.1, p.2)
  | '+' :: l => (readDigits l).map fun p => (p.1, p.2)
  | l => (readDigits l).map fun p => (p.1, p.2)

/-- What the directives read off a text. -/
def scan : List Directive → List Char → List Field
  | [], _ => []
  | .space :: ds, l => scan ds (l.dropWhile isSpace)
  | .char c :: ds, l => if l.head? = some c then scan ds l.tail else []
  | .int :: ds, l =>
    match readInt l with
    | some (n, l) => .int n :: scan ds l
    | none => []
  | .skipChar :: ds, l => if l = [] then [] else scan ds l.tail
  | .scanSet width excluded :: ds, l =>
    let s := (l.take width).takeWhile (· ≠ excluded)
    if s = [] then [] else .text s :: scan ds (l.drop s.length)

/-- The text as a C string, which ends at the first zero character. -/
def cString (l : List Char) : List Char := l.takeWhile (· ≠ '\x00')

/-- `sscanf`. (That there is no field because the text has ended, which is `EOF`, is not told
    apart.) -/
def sscanf (ds : List Directive) (l : List Char) : List Field := scan ds (cString l)

/-- The numeral of `n` with at least `w` digits. -/
def zeroFilled (w n : ℕ) : List Char :=
  List.replicate (w - (Nat.toDigits 10 n).length) '0' ++ Nat.toDigits 10 n

theorem decide_ne_of_notMem {e : Char} {u : List Char} (h : e ∉ u) :
    ∀ c ∈ u, decide (c ≠ e) = true :=
  fun _ hc => decide_eq_true fun hce => h (hce ▸ hc)

theorem cString_append {u : List Char} (h : '\x00' ∉ u) (l : List Char) :
    cString (u ++ l) = u ++ cString l :=
  List.takeWhile_append_of_pos (decide_ne_of_notMem h)

theorem cString_of_notMem {l : List Char} (h : '\x00' ∉ l) : cString l = l :=
  List.takeWhile_eq_self_iff.2 (decide_ne_of_notMem h)

theorem notMem_cString (l : List Char) : '\x00' ∉ cString l := fun h => by
  simpa using List.mem_takeWhile_imp h

variable {ds : List Directive}

/-! ## Integers -/

theorem isDigit_of_mem_zeroFilled {w n : ℕ} {c : Char} (h : c ∈ zeroFilled w n) :
    c.isDigit = true := by
  rcases List.mem_append.1 h with h | h
  · rw [List.eq_of_mem_replicate h]
    rfl
  · exact Nat.isDigit_of_mem_toDigits (by decide) (by decide) h

theorem le_of_mem_zeroFilled {w n : ℕ} {c : Char} (h : c ∈ zeroFilled w n) : '0' ≤ c := by
  have hdigit := isDigit_of_mem_zeroFilled h
  rw [Char.isDigit, Bool.and_eq_true, decide_eq_true_iff] at hdigit
  exact hdigit.1

theorem zeroFilled_ne_nil (w n : ℕ) : zeroFilled w n ≠ [] :=
  List.append_ne_nil_of_right_ne_nil _ Nat.toDigits_ne_nil

/-- A numeral begins with a digit. -/
theorem isDigit_of_zeroFilled_append {w n : ℕ} {c : Char} {l u : List Char}
    (h : zeroFilled w n ++ l = c :: u) : c.isDigit = true := by
  obtain ⟨d, v, hv⟩ := List.exists_cons_of_ne_nil (zeroFilled_ne_nil w n)
  rw [hv, List.cons_append, List.cons.injEq] at h
  obtain ⟨rfl, -⟩ := h
  have hmem : d ∈ zeroFilled w n := hv ▸ List.mem_cons_self
  exact isDigit_of_mem_zeroFilled hmem

theorem ofDigitChars_zeroFilled (w n : ℕ) : Nat.ofDigitChars 10 (zeroFilled w n) 0 = n := by
  rw [zeroFilled, Nat.ofDigitChars_append, Nat.ofDigitChars_replicate_zero, Nat.mul_zero,
    Nat.ofDigitChars_ten_toDigits]

/-- The digits end where no digit follows. -/
theorem readDigits_append_of_isDigit {u l : List Char} (hu : u ≠ [])
    (hdigit : ∀ c ∈ u, c.isDigit = true) (h : ∀ c ∈ l.head?, c.isDigit = false) :
    readDigits (u ++ l) = some (Nat.ofDigitChars 10 u 0, l) := by
  have hnext : l.takeWhile Char.isDigit = [] ∧ l.dropWhile Char.isDigit = l := by
    rcases l with _ | ⟨c, l⟩
    · exact ⟨rfl, rfl⟩
    · have hc : c.isDigit = false := h c rfl
      exact ⟨List.takeWhile_cons_of_neg (by simp [hc]), List.dropWhile_cons_of_neg (by simp [hc])⟩
  have htake : (u ++ l).takeWhile Char.isDigit = u := by
    rw [List.takeWhile_append_of_pos hdigit, hnext.1, List.append_nil]
  have hdrop : (u ++ l).dropWhile Char.isDigit = l := by
    rw [List.dropWhile_append_of_pos hdigit, hnext.2]
  rw [readDigits, htake, hdrop]
  split
  · exact absurd rfl hu
  · rfl

theorem readDigits_append {w n : ℕ} {l : List Char} (h : ∀ c ∈ l.head?, c.isDigit = false) :
    readDigits (zeroFilled w n ++ l) = some (n, l) := by
  rw [readDigits_append_of_isDigit (zeroFilled_ne_nil w n)
    (fun _ => isDigit_of_mem_zeroFilled) h, ofDigitChars_zeroFilled]

theorem isSpace_eq_false_of_isDigit {c : Char} (h : c.isDigit = true) : isSpace c = false := by
  rw [isSpace, decide_eq_false_iff_not]
  intro hspace
  simp only [List.mem_cons, List.not_mem_nil, or_false] at hspace
  rcases hspace with rfl | rfl | rfl | rfl | rfl | rfl <;> exact absurd h (by decide)

theorem dropWhile_zeroFilled_append (w n : ℕ) (l : List Char) :
    (zeroFilled w n ++ l).dropWhile isSpace = zeroFilled w n ++ l := by
  rcases hl : zeroFilled w n ++ l with _ | ⟨c, u⟩
  · rfl
  · have hc : isSpace c = false :=
      isSpace_eq_false_of_isDigit (isDigit_of_zeroFilled_append hl)
    exact List.dropWhile_cons_of_neg (by simp [hc])

/-- A number that has been written is read. -/
theorem readInt_append {w n : ℕ} {l : List Char} (h : ∀ c ∈ l.head?, c.isDigit = false) :
    readInt (zeroFilled w n ++ l) = some ((n : ℤ), l) := by
  rw [readInt, dropWhile_zeroFilled_append]
  -- A numeral does not begin with a sign.
  split
  · next l' hl => exact absurd (isDigit_of_zeroFilled_append hl) (by decide)
  · next l' hl => exact absurd (isDigit_of_zeroFilled_append hl) (by decide)
  · rw [readDigits_append h]
    rfl

theorem scan_int_append {w n : ℕ} {c : Char} (h : c.isDigit = false) (l : List Char) :
    scan (.int :: ds) (zeroFilled w n ++ c :: l) = .int n :: scan ds (c :: l) := by
  rw [scan, readInt_append]
  rintro d ⟨⟩
  exact h

/-! ## Characters and white space -/

@[simp] theorem scan_char_cons (c : Char) (l : List Char) :
    scan (.char c :: ds) (c :: l) = scan ds l := by
  rw [scan, List.head?_cons, if_pos rfl, List.tail_cons]

/-- A character that has been matched is the first one. -/
theorem exists_cons_of_scan_char {c : Char} {l : List Char} (h : scan (.char c :: ds) l ≠ []) :
    ∃ l', l = c :: l' ∧ scan ds l' ≠ [] := by
  rw [scan] at h
  by_cases hc : l.head? = some c
  · obtain ⟨l', rfl⟩ := List.head?_eq_some_iff.1 hc
    exact ⟨l', rfl, by rwa [if_pos hc, List.tail_cons] at h⟩
  · exact absurd (if_neg hc) h

theorem scan_space_cons {c : Char} (h : isSpace c = true) (l : List Char) :
    scan (.space :: ds) (c :: l) = scan (.space :: ds) l := by
  rw [scan, scan, List.dropWhile_cons_of_pos h]

theorem scan_space_cons_of_not {c : Char} (h : isSpace c = false) (l : List Char) :
    scan (.space :: ds) (c :: l) = scan ds (c :: l) := by
  rw [scan, List.dropWhile_cons_of_neg (by simp [h])]

theorem scan_space_append (w n : ℕ) (l : List Char) :
    scan (.space :: ds) (zeroFilled w n ++ l) = scan ds (zeroFilled w n ++ l) := by
  rw [scan, dropWhile_zeroFilled_append]

/-! ## Bounded texts -/

/-- Nothing is dropped iff there is no white space in front. -/
theorem dropWhile_isSpace_eq_self_iff {l : List Char} :
    l.dropWhile isSpace = l ↔ ∀ c ∈ l.head?, isSpace c = false := by
  constructor
  · intro h c hc
    have hhead := List.head?_dropWhile_not isSpace l
    rw [h, Option.mem_def.1 hc] at hhead
    exact hhead
  · intro h
    rcases l with _ | ⟨c, l⟩
    · rfl
    · exact List.dropWhile_cons_of_neg (by simp [h c rfl])

theorem dropWhile_append_cons {e : Char} (h : isSpace e = false) (u l : List Char) :
    (u ++ e :: l).dropWhile isSpace = u.dropWhile isSpace ++ e :: l := by
  rw [List.dropWhile_append, List.dropWhile_cons_of_neg (by simp [h])]
  split_ifs with hnil
  · rw [List.isEmpty_iff.1 hnil, List.nil_append]
  · rfl

/-- `%w[^e]` reads the text, and all of it. -/
structure FitsSet (w : ℕ) (e : Char) (u : List Char) : Prop where
  ne_nil : u ≠ []
  length_le : u.length ≤ w
  notMem : e ∉ u

/-- A text that meets its bounds is read, up to the character that it may not have. -/
theorem scan_scanSet_append {w : ℕ} {e : Char} {u : List Char} (hu : FitsSet w e u)
    (l : List Char) :
    scan (.scanSet w e :: ds) (u ++ e :: l) = .text u :: scan ds (e :: l) := by
  have hs : ((u ++ e :: l).take w).takeWhile (· ≠ e) = u := by
    rw [List.take_append, List.take_of_length_le hu.length_le,
      List.takeWhile_append_of_pos (decide_ne_of_notMem hu.notMem)]
    cases w - u.length <;> simp
  rw [scan, hs, if_neg hu.ne_nil, List.drop_left]

/-- What is read meets the bounds. -/
theorem fitsSet_of_scan {w : ℕ} {e : Char} {u l : List Char} {fs : List Field}
    (h : scan (.scanSet w e :: ds) l = .text u :: fs) : FitsSet w e u := by
  rw [scan] at h
  by_cases hnil : (l.take w).takeWhile (· ≠ e) = []
  · rw [if_pos hnil] at h
    exact absurd h (List.cons_ne_nil _ _).symm
  · rw [if_neg hnil, List.cons.injEq, Field.text.injEq] at h
    obtain ⟨rfl, -⟩ := h
    refine ⟨hnil, ?_, fun hmem => ?_⟩
    · exact (List.takeWhile_prefix _).length_le.trans (List.length_take_le _ _)
    · simpa using List.mem_takeWhile_imp hmem

/-- A text that is empty or too long is not read up to its end. -/
theorem length_scan_scanSet_append_le {w : ℕ} {e : Char} {u l : List Char} (he : e ∉ u)
    (h : ¬FitsSet w e u) : (scan (.scanSet w e :: .char e :: ds) (u ++ e :: l)).length ≤ 1 := by
  by_cases hnil : u = []
  · subst hnil
    have hs : (((e :: l).take w).takeWhile (· ≠ e)) = [] := by
      cases w <;> simp
    rw [List.nil_append, scan, hs, if_pos rfl]
    exact Nat.zero_le _
  -- The set stops at the bound, where the next directive expects `e`.
  · have hw : w < u.length := Nat.lt_of_not_le fun hw => h ⟨hnil, hw, he⟩
    have hs : ((u ++ e :: l).take w).takeWhile (· ≠ e) = u.take w := by
      rw [List.take_append_of_le_length hw.le, List.takeWhile_eq_self_iff]
      exact decide_ne_of_notMem fun hmem => he (List.mem_of_mem_take hmem)
    rw [scan, hs]
    split
    · exact Nat.zero_le _
    · have hnext : ((u ++ e :: l).drop (u.take w).length).head? ≠ some e := by
        rw [List.length_take, Nat.min_eq_left hw.le, List.head?_drop,
          List.getElem?_append_left hw, List.getElem?_eq_getElem hw]
        exact fun hce => he (Option.some.inj hce ▸ List.getElem_mem hw)
      rw [scan, if_neg hnext]
      exact le_rfl

end Theory

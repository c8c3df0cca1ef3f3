import QustomKeyboard.Theory.Integral
import QustomKeyboard.Theory.Scanf

/-!
# Integers in texts

`utils::stoi<R>` reads an integer off the front of a text. Whatever `R` is, the integer is
read as an `int`, and converted afterwards: the function returns the integers that `R`
represents, and throws for the others, iff it is no integer that one of `int` and `R`
represents and the other does not (`stoi_iff`). For all texts, this is so if `R` and
`int` represent the same integers only (`stoi_forall_iff`).

The characters stand for the bytes of the texts. What `std::error_code::message` says is not
known.
-/

namespace QustomKeyboard

open Theory

/-- The type that an integer is read as. -/
def int : IntegralType := { bits := 32, isSigned := true }

/-- `std::errc`, as far as `std::from_chars` reports it. -/
inductive Errc
  | invalidArgument
  | resultOutOfRange
  deriving DecidableEq

/-- What stands at the front: digits, also behind a minus sign. -/
def readSigned : List Char → Option ℤ
  | '-' :: l => (readDigits l).map fun p => -p.1
  | l => (readDigits l).map fun p => p.1

/-- `std::from_chars`, to an `int`. -/
def fromChars (l : List Char) : Except Errc ℤ :=
  match readSigned l with
  | none => .error .invalidArgument
  | some n => if int.Represents n then .ok n else .error .resultOutOfRange

/-- The argument of `utils::stoi`. -/
inductive FromStr
  /-- `std::string` -/
  | string (s : List Char)
  /-- `const char*` and `char*`, with what stands in memory there. -/
  | pointer (memory : List Char)

/-- The characters that are read: of a pointer, those before the first zero. -/
def FromStr.chars : FromStr → List Char
  | .string s => s
  | .pointer memory => cString memory

variable (message : Errc → List Char) (R : IntegralType)

/-- The text of the exception. -/
def badStoiInput (fromStr : List Char) (ec : Errc) : List Char :=
  "Bad stoi input (".toList ++ fromStr ++ "): ".toList ++ message ec

/-- `utils::stoi<R>`. -/
def stoi (fromStr : FromStr) : Except (List Char) ℤ :=
  match fromChars fromStr.chars with
  | .error ec => .error (badStoiInput message fromStr.chars ec)
  | .ok intVal => .ok (R.convert intVal)

/-- A numeral begins the text, and no digit follows. -/
structure Begins (digits rest : List Char) : Prop where
  ne_nil : digits ≠ []
  isDigit : ∀ c ∈ digits, c.isDigit = true
  ends : ∀ c ∈ rest.head?, c.isDigit = false

/-- The text starts with the integer: a numeral, also behind a minus sign. -/
inductive Denotes : List Char → ℤ → Prop
  | pos {digits rest : List Char} (h : Begins digits rest) :
    Denotes (digits ++ rest) (Nat.ofDigitChars 10 digits 0)
  | neg {digits rest : List Char} (h : Begins digits rest) :
    Denotes ('-' :: (digits ++ rest)) (-Nat.ofDigitChars 10 digits 0)

/-- The result for a text is the integer that it starts with, if `R` represents it, and else
    an exception. -/
structure Faithful (l : List Char) (result : Except (List Char) ℤ) : Prop where
  represented : ∀ n, Denotes l n → R.Represents n → result = .ok n
  rejected : ∀ n, Denotes l n → ¬R.Represents n → ∃ e, result = .error e
  malformed : (∀ n, ¬Denotes l n) → ∃ e, result = .error e

variable {l : List Char} {n : ℤ}

theorem readDigits_eq_some_iff {m : ℕ} {rest : List Char} : readDigits l = some (m, rest) ↔
    ∃ digits, Begins digits rest ∧ l = digits ++ rest ∧ m = Nat.ofDigitChars 10 digits 0 := by
  constructor
  · intro h
    rw [readDigits] at h
    split at h
    · cases h
    · next hne =>
      obtain ⟨rfl, rfl⟩ := Prod.mk.inj (Option.some.inj h)
      refine ⟨l.takeWhile Char.isDigit, ⟨hne, fun c => List.mem_takeWhile_imp, fun c hc => ?_⟩,
        List.takeWhile_append_dropWhile.symm, rfl⟩
      have hhead := List.head?_dropWhile_not Char.isDigit l
      rw [Option.mem_def.1 hc] at hhead
      exact hhead
  · rintro ⟨digits, h, rfl, rfl⟩
    exact readDigits_append_of_isDigit h.ne_nil h.isDigit h.ends

/-- A numeral does not begin with a sign. -/
theorem Begins.ne_minus {digits rest u : List Char} (h : Begins digits rest) :
    digits ++ rest ≠ '-' :: u := by
  intro heq
  obtain ⟨c, digits, rfl⟩ := List.exists_cons_of_ne_nil h.ne_nil
  obtain ⟨rfl, -⟩ := List.cons.inj heq
  exact absurd (h.isDigit '-' List.mem_cons_self) (by decide)

theorem readSigned_eq_some_iff : readSigned l = some n ↔ Denotes l n := by
  constructor
  · intro h
    rw [readSigned.eq_def] at h
    split at h
    all_goals
      obtain ⟨⟨m, rest⟩, hm, rfl⟩ := Option.map_eq_some_iff.1 h
      obtain ⟨digits, hdigits, rfl, rfl⟩ := readDigits_eq_some_iff.1 hm
    · exact .neg hdigits
    · exact .pos hdigits
  · rintro (⟨h⟩ | ⟨h⟩)
    · have hread := readDigits_eq_some_iff.2 ⟨_, h, rfl, rfl⟩
      rw [readSigned.eq_def]
      split
      · next heq => exact absurd heq h.ne_minus
      · rw [hread]
        rfl
    · rw [readSigned, readDigits_eq_some_iff.2 ⟨_, h, rfl, rfl⟩]
      rfl

/-- A text does not start with two integers. -/
theorem Denotes.unique {m : ℤ} (hm : Denotes l m) (hn : Denotes l n) : m = n :=
  Option.some.inj ((readSigned_eq_some_iff.2 hm).symm.trans (readSigned_eq_some_iff.2 hn))

variable {message R} {fromStr : FromStr}

variable (message R) in
/-- What happens to an integer depends on whether `int` represents it. -/
theorem stoi_of_denotes (h : Denotes fromStr.chars n) : stoi message R fromStr =
    if int.Represents n then .ok (R.convert n)
    else .error (badStoiInput message fromStr.chars .resultOutOfRange) := by
  rw [stoi, fromChars, readSigned_eq_some_iff.2 h]
  by_cases hint : int.Represents n
  · simp only [if_pos hint]
  · simp only [if_neg hint]

variable (message R) in
theorem stoi_of_not_denotes (h : ∀ n, ¬Denotes fromStr.chars n) : stoi message R fromStr =
    .error (badStoiInput message fromStr.chars .invalidArgument) := by
  have hnone : readSigned fromStr.chars = none :=
    Option.eq_none_iff_forall_ne_some.2 fun n => mt readSigned_eq_some_iff.1 (h n)
  rw [stoi, fromChars, hnone]

variable (message R fromStr) in
/-- The result is what it should be iff `R` represents the integer if and only if `int`
    does. -/
theorem stoi_iff : Faithful R fromStr.chars (stoi message R fromStr) ↔
    ∀ n, Denotes fromStr.chars n → (int.Represents n ↔ R.Represents n) := by
  constructor
  · intro h n hn
    have hstoi := stoi_of_denotes message R hn
    constructor
    · intro hint
      by_contra hR
      obtain ⟨e, he⟩ := h.rejected n hn hR
      rw [if_pos hint, he] at hstoi
      cases hstoi
    · intro hR
      by_contra hint
      rw [if_neg hint, h.represented n hn hR] at hstoi
      cases hstoi
  · intro h
    refine ⟨fun n hn hR => ?_, fun n hn hR => ?_, fun hnone => ?_⟩
    · rw [stoi_of_denotes message R hn, if_pos ((h n hn).2 hR), IntegralType.convert_of_represents hR]
    · rw [stoi_of_denotes message R hn, if_neg (mt (h n hn).1 hR)]
      exact ⟨_, rfl⟩
    · rw [stoi_of_not_denotes message R hnone]
      exact ⟨_, rfl⟩

/-- A number that an unsigned byte does not represent, but an `int` does. -/
theorem not_faithful_uint8 : ¬Faithful { bits := 8, isSigned := false } ['3', '0', '0']
    (stoi (fun _ => []) { bits := 8, isSigned := false } (.string ['3', '0', '0'])) := by
  intro h
  have hdenotes : Denotes ['3', '0', '0'] 300 := readSigned_eq_some_iff.1 (by decide)
  obtain ⟨e, he⟩ := h.rejected 300 hdenotes (by decide)
  cases he

example : stoi (fun _ => []) { bits := 8, isSigned := false } (.string ['3', '0', '0']) = .ok 44 :=
  rfl

theorem exists_denotes (n : ℤ) : ∃ l, Denotes l n := by
  have hbegins (m : ℕ) : Begins (zeroFilled 0 m) [] :=
    ⟨zeroFilled_ne_nil 0 m, fun _ => isDigit_of_mem_zeroFilled, fun _ h => by cases h⟩
  obtain ⟨m, hm⟩ := Int.eq_nat_or_neg n
  rw [← ofDigitChars_zeroFilled 0 m] at hm
  rcases hm with rfl | rfl
  · exact ⟨_, .pos (hbegins m)⟩
  · exact ⟨_, .neg (hbegins m)⟩

variable (message R) in
/-- All integers are what they should be iff `R` represents those that `int` does. -/
theorem stoi_forall_iff :
    (∀ fromStr : FromStr, Faithful R fromStr.chars (stoi message R fromStr)) ↔
      R.min = int.min ∧ R.max = int.max := by
  constructor
  · intro h
    have hsame (n : ℤ) : int.Represents n ↔ R.Represents n := by
      obtain ⟨l, hl⟩ := exists_denotes n
      have hstoi := stoi_of_denotes message R (show Denotes (FromStr.string l).chars n from hl)
      by_cases hint : int.Represents n <;> by_cases hR : R.Represents n
      · exact iff_of_true hint hR
      · obtain ⟨e, he⟩ := (h (.string l)).rejected n hl hR
        rw [if_pos hint, he] at hstoi
        cases hstoi
      · rw [if_neg hint, (h (.string l)).represented n hl hR] at hstoi
        cases hstoi
      · exact iff_of_false hint hR
    have hmin := (hsame R.min).2 IntegralType.represents_min
    have hmax := (hsame R.max).2 IntegralType.represents_max
    have hmin' := (hsame int.min).1 IntegralType.represents_min
    have hmax' := (hsame int.max).1 IntegralType.represents_max
    exact ⟨Int.le_antisymm hmin'.1 hmin.1, Int.le_antisymm hmax.2 hmax'.2⟩
  · rintro ⟨hmin, hmax⟩ fromStr
    have hsame (n : ℤ) : int.Represents n ↔ R.Represents n := by
      rw [IntegralType.Represents, IntegralType.Represents, hmin, hmax]
    refine ⟨fun n hn hR => ?_, fun n hn hR => ?_, fun hnone => ?_⟩
    · rw [stoi_of_denotes message R hn, if_pos ((hsame n).2 hR),
        IntegralType.convert_of_represents hR]
    · rw [stoi_of_denotes message R hn, if_neg (mt (hsame n).1 hR)]
      exact ⟨_, rfl⟩
    · rw [stoi_of_not_denotes message R hnone]
      exact ⟨_, rfl⟩

end QustomKeyboard

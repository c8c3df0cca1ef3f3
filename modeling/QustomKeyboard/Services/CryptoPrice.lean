import Mathlib.Data.List.Forall2
import QustomKeyboard.Theory.Scanf
import QustomKeyboard.Theory.Split

/-!
# Prices

`CryptoPrice` asks a program for four prices, and stores them one after the other as it
finds them in the answer. A price that is missing, or that is no number, is left out, and
the others are stored all the same: they are all stored or none of them is, iff either they
are all found, or those that are found happen to be known already (`allOrNothing_iff`).

Prices are of any type `α`, and `std::stof` is any function that reads one off the front of
a text, or throws. The characters stand for the bytes of the texts.
-/

namespace QustomKeyboard

open Theory

variable {α τ : Type*}

structure CryptoPrice (α τ : Type*) where
  ethBuy : α
  ethSell : α
  btcBuy : α
  btcSell : α
  isPending : Bool
  lastUpdate : τ

/-- The four prices. -/
def CryptoPrice.prices (s : CryptoPrice α τ) : List α := [s.ethBuy, s.ethSell, s.btcBuy, s.btcSell]

/-- What the answers to the four requests begin with. -/
def answerStart : List Char := "\x7b\"data\":\x7b\"base\":\"".toList

/-- What an answer has in front of its price. -/
def amountKey : List Char := "\"amount\":\"".toList

/-- What is answered if there is no such program. -/
def notRecognized : List Char := "not recognized".toList

variable (stof : List Char → Option α) (cryptoPriceUpdate : UInt16) (text : List Char)

/-- `ExtractAmount`, which leaves `out` as it is if there is no price, or `std::stof` throws. -/
def extractAmount (str : List Char) (out : α) : α :=
  match find amountKey str with
  | some pos => (stof (cString (str.drop (pos + 10)))).getD out
  | none => out

/-- `CryptoPrice::ExecuteApiRead`, if the answer is `text`; it fails if a vector is read
    beyond its end. -/
def executeApiRead (now : τ) (s : CryptoPrice α τ) : Option (CryptoPrice α τ) :=
  if cryptoPriceUpdate = 0 then some s
  else
    match splitOnPattern answerStart text with
    | [] => none
    | first :: arr =>
      if find notRecognized first = none then
        match arr with
        | [ethBuy, ethSell, btcBuy, btcSell] => some
          { ethBuy := extractAmount stof ethBuy s.ethBuy
            ethSell := extractAmount stof ethSell s.ethSell
            btcBuy := extractAmount stof btcBuy s.btcBuy
            btcSell := extractAmount stof btcSell s.btcSell
            isPending := true
            lastUpdate := now }
        | _ => some { s with lastUpdate := now }
      else some { s with lastUpdate := now }

/-- The price in an answer, if there is one. -/
def amount (str : List Char) : Option α :=
  (find amountKey str).bind fun pos => stof (cString (str.drop (pos + amountKey.length)))

/-- The four answers, if there are four, and the program has not been missing. -/
def answers : Option (List (List Char)) :=
  match splitOnPattern answerStart text with
  | [] => none
  | first :: arr => if ¬notRecognized <:+: first ∧ arr.length = 4 then some arr else none

/-- From `s` to `t`, either all four prices of the text have been stored, and then the flag
    has been set, or the prices and the flag are as they were. -/
def AllOrNothing (s t : CryptoPrice α τ) : Prop :=
  (∃ arr ∈ answers text, arr.map (amount stof) = t.prices.map some ∧ t.isPending = true) ∨
    t.prices = s.prices ∧ t.isPending = s.isPending

variable {stof cryptoPriceUpdate text} {now : τ} {s : CryptoPrice α τ}

theorem extractAmount_eq (str : List Char) (out : α) :
    extractAmount stof str out = (amount stof str).getD out := by
  rw [extractAmount, amount]
  cases find amountKey str <;> rfl

/-- The prices after each of the answers has been looked at. -/
def extracted (stof : List Char → Option α) (arr : List (List Char)) (prices : List α) : List α :=
  List.zipWith (extractAmount stof) arr prices

/-- The prices of the answers are stored iff all of them are found. -/
theorem map_amount_eq_iff {arr : List (List Char)} {prices : List α}
    (h : arr.length = prices.length) :
    arr.map (amount stof) = (extracted stof arr prices).map some ↔
      ∀ str ∈ arr, (amount stof str).isSome = true := by
  induction arr generalizing prices with
  | nil =>
    obtain rfl := List.length_eq_zero_iff.1 h.symm
    exact iff_of_true rfl fun _ hstr => absurd hstr List.not_mem_nil
  | cons str arr ih =>
    obtain ⟨x, prices, rfl⟩ := List.exists_cons_of_length_eq_add_one h.symm
    have hfirst : amount stof str = some ((amount stof str).getD x) ↔
        (amount stof str).isSome = true := by
      cases amount stof str <;> simp
    rw [List.forall_mem_cons, ← ih (Nat.succ_inj.1 h), ← hfirst, extracted, List.zipWith_cons_cons,
      List.map_cons, List.map_cons, List.cons.injEq, extractAmount_eq]
    rfl

/-- The prices stay the same iff those that are found are known. -/
theorem extracted_eq_iff {arr : List (List Char)} {prices : List α}
    (h : arr.length = prices.length) : extracted stof arr prices = prices ↔
      List.Forall₂ (fun str x => ∀ y ∈ amount stof str, y = x) arr prices := by
  induction arr generalizing prices with
  | nil =>
    obtain rfl := List.length_eq_zero_iff.1 h.symm
    exact iff_of_true rfl .nil
  | cons str arr ih =>
    obtain ⟨x, prices, rfl⟩ := List.exists_cons_of_length_eq_add_one h.symm
    have hfirst : (amount stof str).getD x = x ↔ ∀ y ∈ amount stof str, y = x := by
      cases amount stof str <;> simp
    rw [List.forall₂_cons, ← ih (Nat.succ_inj.1 h), ← hfirst, extracted, List.zipWith_cons_cons,
      List.cons.injEq, extractAmount_eq]
    rfl

/-- There are four answers iff the text consists of something in front, which does not say that
    there is no program, and of these. -/
theorem answers_eq_some_iff {arr : List (List Char)} : answers text = some arr ↔
    ∃ first, splitOnPattern answerStart text = first :: arr ∧ find notRecognized first = none ∧
      arr.length = 4 := by
  rw [answers]
  split
  · next hnil => exact absurd hnil (splitFrom_ne_nil answerStart 0 text)
  · next first arr' hsplit =>
    simp only [hsplit, Option.ite_none_right_eq_some, Option.some.injEq, find_eq_none_iff]
    constructor
    · rintro ⟨⟨hfound, hlen⟩, rfl⟩
      exact ⟨first, rfl, hfound, hlen⟩
    · rintro ⟨first', heq, hfound, hlen⟩
      obtain ⟨rfl, rfl⟩ := List.cons_eq_cons.1 heq
      exact ⟨⟨hfound, hlen⟩, rfl⟩

variable (stof cryptoPriceUpdate now s) in
/-- Nothing but the time changes without four answers. -/
theorem executeApiRead_of_none (h : answers text = none) :
    ∃ t, executeApiRead stof cryptoPriceUpdate text now s = some t ∧ t.prices = s.prices ∧
      t.isPending = s.isPending := by
  rw [executeApiRead]
  split_ifs with hoff
  · exact ⟨s, rfl, rfl, rfl⟩
  split
  · next hnil => exact absurd hnil (splitFrom_ne_nil answerStart 0 text)
  · next first arr hsplit =>
    split_ifs with hfound
    · split
      · rw [answers_eq_some_iff.2 ⟨first, hsplit, hfound, rfl⟩] at h
        cases h
      · exact ⟨_, rfl, rfl, rfl⟩
    · exact ⟨_, rfl, rfl, rfl⟩

variable (stof now s) in
/-- With four answers, the prices in these are stored, and the flag is set. -/
theorem executeApiRead_of_some (hon : cryptoPriceUpdate ≠ 0) {arr : List (List Char)}
    (h : answers text = some arr) :
    ∃ t, executeApiRead stof cryptoPriceUpdate text now s = some t ∧
      t.prices = extracted stof arr s.prices ∧ t.isPending = true := by
  obtain ⟨first, hsplit, hfound, hlen⟩ := answers_eq_some_iff.1 h
  obtain ⟨a, b, c, d, rfl⟩ := List.length_eq_four.1 hlen
  rw [executeApiRead, if_neg hon, hsplit]
  dsimp only
  rw [if_pos hfound]
  exact ⟨_, rfl, rfl, rfl⟩

variable (stof cryptoPriceUpdate text now s) in
/-- All prices are stored or none is iff the update is off; or there are not four answers; or
    all prices are found; or the flag has been set before, and those that are found are
    known. -/
theorem allOrNothing_iff :
    (∃ t, executeApiRead stof cryptoPriceUpdate text now s = some t ∧
      AllOrNothing stof text s t) ↔
    cryptoPriceUpdate = 0 ∨ ∀ arr ∈ answers text,
      (∀ str ∈ arr, (amount stof str).isSome = true) ∨
        s.isPending = true ∧ List.Forall₂ (fun str x => ∀ y ∈ amount stof str, y = x) arr s.prices := by
  by_cases hoff : cryptoPriceUpdate = 0
  · exact iff_of_true ⟨s, if_pos hoff, .inr ⟨rfl, rfl⟩⟩ (.inl hoff)
  rw [or_iff_right hoff]
  cases hanswers : answers text with
  | none =>
    obtain ⟨t, ht, hsame⟩ := executeApiRead_of_none stof cryptoPriceUpdate now s hanswers
    exact iff_of_true ⟨t, ht, .inr hsame⟩ (nofun)
  | some arr =>
    obtain ⟨t, ht, hprices, hpending⟩ := executeApiRead_of_some stof now s hoff hanswers
    have hlen : arr.length = s.prices.length :=
      (answers_eq_some_iff.1 hanswers).elim fun _ h => h.2.2
    have hall : AllOrNothing stof text s t ↔
        (∀ str ∈ arr, (amount stof str).isSome = true) ∨
          s.isPending = true ∧
            List.Forall₂ (fun str x => ∀ y ∈ amount stof str, y = x) arr s.prices := by
      rw [AllOrNothing, hanswers, hprices, hpending, ← map_amount_eq_iff hlen,
        ← extracted_eq_iff hlen]
      refine or_congr ⟨?_, fun h => ⟨arr, rfl, h, rfl⟩⟩
        ⟨fun h => ⟨h.2.symm, h.1⟩, fun h => ⟨h.2, h.1.symm⟩⟩
      rintro ⟨arr', harr', h, -⟩
      exact Option.some.inj harr' ▸ h
    constructor
    · rintro ⟨t', ht', h⟩ arr' harr'
      obtain rfl := Option.some.inj harr'
      obtain rfl := Option.some.inj (ht.symm.trans ht')
      exact hall.1 h
    · exact fun h => ⟨t, ht, hall.2 (h arr rfl)⟩

/-- Four answers, the second one without a number as its price. -/
def badAnswers : List Char :=
  [['1'], ['x'], ['3'], ['4']].flatMap fun price => answerStart ++ amountKey ++ price

/-- Natural numbers as prices. -/
def readPrice (l : List Char) : Option ℕ := (readDigits l).map Prod.fst

/-- The prices before any answer. -/
def noPrices : CryptoPrice ℕ Unit :=
  { ethBuy := 0, ethSell := 0, btcBuy := 0, btcSell := 0, isPending := false, lastUpdate := () }

/-- Three prices are stored, the flag is set, and the fourth price is as it was. -/
theorem not_allOrNothing_badAnswers :
    ¬∃ t, executeApiRead readPrice 5 badAnswers () noPrices = some t ∧
      AllOrNothing readPrice badAnswers noPrices t := by
  rintro ⟨t, ht, hall⟩
  have hread : (executeApiRead readPrice 5 badAnswers () noPrices).map CryptoPrice.prices =
      some [1, 0, 3, 4] := by
    decide +kernel
  have hamounts : (answers badAnswers).map (·.map (amount readPrice)) =
      some [some 1, none, some 3, some 4] := by
    decide +kernel
  rw [ht, Option.map_some, Option.some.injEq] at hread
  rcases hall with ⟨arr, harr, hstored, -⟩ | ⟨hsame, -⟩
  · rw [Option.mem_def.1 harr, Option.map_some, hstored, hread] at hamounts
    exact absurd hamounts (by decide)
  · rw [hread] at hsame
    exact absurd hsame (by decide)

end QustomKeyboard

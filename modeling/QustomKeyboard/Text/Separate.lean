import Mathlib.Data.Int.Notation
import QustomKeyboard.Theory.Loop
import QustomKeyboard.Theory.Pieces

/-!
# Separating a text

`utils::separate` inserts a separator behind every `num` characters of a text, in place, as
long as a character is left behind it. The iterators are the positions in the text.

The loop compares with `num + 1`, which is an `unsigned`. It returns the pieces of `num`
characters joined by the separator iff `num + 1` is not cut off to zero
(`separate_iff`). Else the loop goes on until it leaves the text.
-/

namespace QustomKeyboard

open Theory

/-- A text and an iterator of it. -/
structure Cursor where
  input : List Char
  /-- The position of the iterator. -/
  it : ℕ
  deriving DecidableEq

/-- `std::distance(it, input.end())` -/
def Cursor.distance (s : Cursor) : ℤ := (s.input.length : ℤ) - s.it

variable (num : UInt32) (separator : Char)

/-- `(num + 1) <= std::distance(it, input.end())` -/
def separateGuard (s : Cursor) : Bool := ((num + 1).toNat : ℤ) ≤ s.distance

/-- An iteration, with the step of the loop. It fails if the iterator leaves the text. -/
def separateBody (s : Cursor) : Option Cursor :=
  let it := s.it + num.toNat
  if it ≤ s.input.length then
    some { input := s.input.insertIdx it separator, it := it + 1 }
  else none

/-- `utils::separate<num, separator>`, with at most `fuel` iterations. -/
def separate (fuel : ℕ) (input : List Char) : Option (List Char) :=
  (whileLoop (separateGuard num) (separateBody num separator) fuel { input, it := 0 }).map
    Cursor.input

/-- The pieces of `num` characters of the text, joined by the separator; and no more than the
    separators have to be removed to get the text back. -/
structure Separated (input output : List Char) : Prop where
  joined : ∃ pieces, CutInto num.toNat input pieces ∧ output = [separator].intercalate pieces
  restored : removeEvery (num.toNat + 1) output = input

/-- What has been done of `input`: some full pieces, each with a separator behind it, and
    the iterator stands behind these. It is only at the end if there is nothing to do. -/
def SeparatedUpTo (input : List Char) (s : Cursor) : Prop :=
  ∃ (pieces : List (List Char)) (rest : List Char),
    (∀ c ∈ pieces, c.length = num.toNat) ∧ (rest = [] → pieces = []) ∧
    input = pieces.flatten ++ rest ∧
    s.input = pieces.flatMap (· ++ [separator]) ++ rest ∧
    s.it = (pieces.flatMap (· ++ [separator])).length

variable {num separator} {input : List Char} {s : Cursor}

theorem toNat_succ (h : num ≠ 4294967295) : (num + 1).toNat = num.toNat + 1 := by
  have hne : num.toNat ≠ 4294967295 := fun heq => h (UInt32.toNat_inj.1 heq)
  have hlt := num.toNat_lt
  rw [UInt32.toNat_add]
  exact Nat.mod_eq_of_lt (by change num.toNat + 1 < 2 ^ 32; omega)

theorem separateGuard_iff (h : num ≠ 4294967295) {front rest : List Char}
    (hinput : s.input = front ++ rest) (hit : s.it = front.length) :
    separateGuard num s = true ↔ num.toNat + 1 ≤ rest.length := by
  rw [separateGuard, decide_eq_true_iff, toNat_succ h, Cursor.distance, hinput, hit,
    List.length_append]
  omega

theorem insertIdx_length_append (u l : List Char) (c : Char) :
    (u ++ l).insertIdx u.length c = u ++ c :: l := by
  induction u with
  | nil => rfl
  | cons a u ih => rw [List.cons_append, List.length_cons, List.insertIdx_succ_cons, ih]; rfl

/-- An iteration goes one piece further, and leaves a character behind it. -/
theorem separateBody_step (h : num ≠ 4294967295) (hs : SeparatedUpTo num separator input s)
    (hguard : separateGuard num s = true) :
    ∃ t, separateBody num separator s = some t ∧ SeparatedUpTo num separator input t ∧
      t.distance = s.distance - num.toNat := by
  obtain ⟨pieces, rest, hfull, -, hflat, hinput, hit⟩ := hs
  rw [separateGuard_iff h hinput hit] at hguard
  obtain ⟨c, rest, rfl, hc⟩ : ∃ c rest', rest = c ++ rest' ∧ c.length = num.toNat :=
    ⟨_, _, (List.take_append_drop num.toNat rest).symm, List.length_take_of_le (by omega)⟩
  rw [List.length_append] at hguard
  generalize hfront : pieces.flatMap (· ++ [separator]) = front at hinput hit
  rw [← List.append_assoc] at hinput
  have hit' : s.it + num.toNat = (front ++ c).length := by rw [hit, List.length_append, hc]
  have hnext : (pieces ++ [c]).flatMap (· ++ [separator]) = front ++ c ++ [separator] := by
    rw [List.flatMap_append, List.flatMap_singleton, hfront, List.append_assoc]
  have hinside : s.it + num.toNat ≤ s.input.length := by
    rw [hit', hinput]
    exact (List.sublist_append_left _ _).length_le
  refine ⟨_, if_pos hinside, ⟨pieces ++ [c], rest, ?_, fun hrest => ?_, ?_, ?_, ?_⟩, ?_⟩
  · exact List.forall_mem_append.2 ⟨hfull, List.forall_mem_singleton.2 hc⟩
  · rw [hrest, List.length_nil] at hguard
    omega
  · rw [hflat, List.flatten_append, List.flatten_singleton, List.append_assoc]
  · rw [hit', hinput, insertIdx_length_append, hnext]
    simp only [List.append_assoc, List.singleton_append]
  · rw [hnext, List.length_append, ← hit']
    rfl
  · rw [Cursor.distance, Cursor.distance, List.length_insertIdx_of_le_length hinside,
      Int.natCast_succ, Int.natCast_succ, Int.natCast_add]
    omega

/-- Where the loop ends, the text has been separated. -/
theorem separated_of_separatedUpTo (h : num ≠ 4294967295)
    (hs : SeparatedUpTo num separator input s) (hguard : separateGuard num s = false) :
    Separated num separator input s.input := by
  obtain ⟨pieces, rest, hfull, hrest, hflat, hinput, hit⟩ := hs
  rw [← Bool.not_eq_true, separateGuard_iff h hinput hit] at hguard
  obtain ⟨all, hcut, hall⟩ : ∃ all, CutInto num.toNat input all ∧
      s.input = [separator].intercalate all := by
    by_cases hnil : rest = []
    · subst hnil
      rw [hrest rfl] at hflat hinput
      exact ⟨[], hflat ▸ CutInto.nil, hinput⟩
    · have hpos : 0 < rest.length := List.length_pos_iff.2 hnil
      refine ⟨pieces ++ [rest], hflat ▸ CutInto.concat hfull hpos (by omega), ?_⟩
      rw [intercalate_concat, hinput]
  exact ⟨⟨all, hcut, hall⟩, hall ▸ hcut.removeEvery_intercalate⟩

/-- Else the guard always holds: the iterator is never further away than zero. -/
theorem separate_eq_none (separator : Char) (fuel : ℕ) (input : List Char) :
    separate 4294967295 separator fuel input = none := by
  rw [separate, Option.map_eq_none_iff]
  refine whileLoop_eq_none (I := fun s => s.it ≤ s.input.length) (fun s hs => ?_)
    (fun s t _ hst => ?_) fuel (Nat.zero_le _)
  · have hzero : ((4294967295 : UInt32) + 1).toNat = 0 := rfl
    rw [separateGuard, decide_eq_true_iff, hzero, Cursor.distance]
    omega
  · rw [separateBody] at hst
    split_ifs at hst with hinside
    obtain rfl := Option.some.inj hst
    rw [List.length_insertIdx_of_le_length hinside]
    exact Nat.succ_le_succ hinside

variable (num separator input) in
/-- The loop returns the separated text iff `num + 1` is not cut off. -/
theorem separate_iff (hnum : 1 ≤ num) :
    (∃ fuel output, separate num separator fuel input = some output ∧
      Separated num separator input output) ↔ num ≠ 4294967295 := by
  constructor
  · rintro ⟨fuel, output, hout, -⟩ rfl
    rw [separate_eq_none] at hout
    cases hout
  · intro h
    have hstart : SeparatedUpTo num separator input { input, it := 0 } :=
      ⟨[], input, fun _ hc => absurd hc List.not_mem_nil, fun _ => rfl, rfl, rfl, rfl⟩
    have hpos : 1 ≤ num.toNat := hnum
    obtain ⟨t, ht, hI, hguard⟩ := whileLoop_total
      (I := SeparatedUpTo num separator input) (v := fun s => s.distance.toNat)
      (fun s hs (hg : separateGuard num s = true) => by
        obtain ⟨t, hst, ht, hd⟩ := separateBody_step h hs hg
        have hlt := of_decide_eq_true hg
        rw [toNat_succ h] at hlt
        exact ⟨t, hst, ht, by omega⟩) hstart (Nat.lt_succ_self _)
    exact ⟨_, t.input, by rw [separate, ht]; rfl, separated_of_separatedUpTo h hI hguard⟩

/-- A number in groups of three digits. -/
theorem separate_thousands : (∃ fuel output, separate 3 ' ' fuel ['1', '0', '0', '0'] = some output ∧
    Separated 3 ' ' ['1', '0', '0', '0'] output) ↔ (3 : UInt32) ≠ 4294967295 :=
  separate_iff 3 ' ' ['1', '0', '0', '0'] (by decide)

example : separate 3 ' ' 2 ['1', '0', '0', '0'] = some ['1', '0', '0', ' ', '0'] := by decide

/-- The iterator of an empty text goes beyond its end. -/
theorem not_separated_max : ¬∃ fuel output, separate 4294967295 ' ' fuel [] = some output ∧
    Separated 4294967295 ' ' [] output := by
  rintro ⟨fuel, output, hout, -⟩
  rw [separate_eq_none] at hout
  cases hout

end QustomKeyboard

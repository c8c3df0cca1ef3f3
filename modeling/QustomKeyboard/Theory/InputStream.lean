import Mathlib.Data.Nat.Notation

/-!
# Input streams

A file that is being read (`std::istream`): what is left of it, and the flags
telling that its end has been met and that a read has failed. Reads set them
only if there is not as much left as they ask for; so a file can be read to its
end exactly, and the stream is still good.
-/

namespace Theory

/-- A stream. -/
structure InputStream (α : Type*) where
  rest : List α
  eof : Bool
  fail : Bool

namespace InputStream

variable {α : Type*}

/-- A file that has been opened. -/
def ofList (l : List α) : InputStream α where
  rest := l
  eof := false
  fail := false

/-- Neither flag is set. -/
def good (f : InputStream α) : Bool := !f.eof && !f.fail

/-- Look at the next element, if there is one. -/
def peek (f : InputStream α) : InputStream α :=
  if f.good then { f with eof := f.rest.isEmpty } else { f with fail := true }

/-- Read `k` elements, or what is left of them. -/
def read (f : InputStream α) (k : ℕ) : List α × InputStream α :=
  if f.good then
    (f.rest.take k,
      { rest := f.rest.drop k
        eof := f.rest.length < k
        fail := f.rest.length < k })
  else ([], { f with fail := true })

theorem peek_ofList {l : List α} (h : l ≠ []) : peek (ofList l) = ofList l := by
  cases l with
  | nil => exact absurd rfl h
  | cons a l => rfl

variable {f : InputStream α} {k : ℕ}

/-- What has been read is followed by what is left. -/
theorem read_append (f : InputStream α) (k : ℕ) : (f.read k).1 ++ (f.read k).2.rest = f.rest := by
  rw [read]
  split
  · exact List.take_append_drop k f.rest
  · rfl

theorem length_read_le (f : InputStream α) (k : ℕ) : (f.read k).1.length ≤ k := by
  rw [read]
  split
  · rw [List.length_take]
    exact Nat.min_le_left _ _
  · exact Nat.zero_le k

/-- If the stream is not good after a read, nothing is left. -/
theorem rest_read_of_not_good (hf : f.good = true) (h : (f.read k).2.good = false) :
    (f.read k).2.rest = [] := by
  rw [read, if_pos hf] at h ⊢
  simp only [good, Bool.and_self, Bool.not_eq_false', decide_eq_true_eq] at h
  exact List.drop_eq_nil_of_le (Nat.le_of_lt h)

/-- A read of at least one element leaves less, or the stream is not good any more. -/
theorem read_lt (hf : f.good = true) (hk : 0 < k) :
    (f.read k).2.rest.length + (f.read k).2.good.toNat < f.rest.length + f.good.toNat := by
  rw [hf, read, if_pos hf]
  rcases Nat.lt_or_ge f.rest.length k with hlt | hge
  · simp [good, hlt, Nat.sub_eq_zero_of_le (Nat.le_of_lt hlt)]
  · have hnot : ¬f.rest.length < k := Nat.not_lt.2 hge
    simp [good, hnot]
    omega

/-- A read of nothing changes nothing. -/
theorem read_zero (hf : f.good = true) : f.read 0 = ([], f) := by
  obtain ⟨rest, eof, fail⟩ := f
  simp only [good, Bool.and_eq_true, Bool.not_eq_true'] at hf
  rw [read, if_pos (by simp [good, hf])]
  simp [hf]

end InputStream

end Theory

import Mathlib.Data.List.TakeDrop

/-!
# Circular buffers

A buffer of a fixed capacity, seen as the list of its elements from the oldest
to the newest one. Appending to a full buffer overwrites the oldest elements;
the capacity is never exceeded, which is part of the type.
-/

namespace Theory

/-- A circular buffer: at most `capacity` elements, the oldest first. -/
@[ext] structure CircularBuffer (α : Type*) (capacity : ℕ) where
  elems : List α
  size_le : elems.length ≤ capacity
  deriving DecidableEq

namespace CircularBuffer

variable {α : Type*} {capacity : ℕ}

/-- The empty buffer. -/
def empty : CircularBuffer α capacity := ⟨[], Nat.zero_le _⟩

/-- The number of elements. -/
def size (b : CircularBuffer α capacity) : ℕ := b.elems.length

/-- Append `xs`, overwriting the oldest elements when there is no room left. -/
def insertEnd (b : CircularBuffer α capacity) (xs : List α) : CircularBuffer α capacity :=
  ⟨(b.elems ++ xs).drop (b.size + xs.length - capacity), by
    rw [List.length_drop, List.length_append, size]; omega⟩

/-- Drop the `n` oldest elements. -/
def eraseBegin (b : CircularBuffer α capacity) (n : ℕ) : CircularBuffer α capacity :=
  ⟨b.elems.drop n, by rw [List.length_drop]; have := b.size_le; omega⟩

@[simp] theorem elems_eraseBegin (b : CircularBuffer α capacity) (n : ℕ) :
    (b.eraseBegin n).elems = b.elems.drop n := rfl

/-- Appending fills the buffer up to its capacity. -/
theorem size_insertEnd (b : CircularBuffer α capacity) (xs : List α) :
    (b.insertEnd xs).size = min capacity (b.size + xs.length) := by
  show ((b.elems ++ xs).drop (b.size + xs.length - capacity)).length = _
  rw [List.length_drop, List.length_append, ← size]
  omega

/-- With room left, appending keeps everything. -/
theorem elems_insertEnd_of_le {b : CircularBuffer α capacity} {xs : List α}
    (h : b.size + xs.length ≤ capacity) : (b.insertEnd xs).elems = b.elems ++ xs := by
  show (b.elems ++ xs).drop (b.size + xs.length - capacity) = b.elems ++ xs
  rw [Nat.sub_eq_zero_of_le h, List.drop_zero]

end CircularBuffer

end Theory

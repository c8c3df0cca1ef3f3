import Mathlib

/-!
# Paths

A path, as a text, is a root, which may be empty, and names separated by `/`. What can
be made of paths without a look at the files is called lexical: a path appended to a
directory (`p / q`), the last name (`filename`), or the path that leads from a
directory to another path (`lexicallyRelative`).

A path in a directory is found there: what leads from a directory `p` to `p / q` is
`q` (`lexicallyRelative_append`), and what is in the directory keeps its place when
the directory does (`within_append`).
-/

namespace Theory

/-- A path. A relative one has an empty root. -/
structure LexPath where
  root : List Char
  names : List (List Char)
  deriving DecidableEq

namespace LexPath

/-- The relative path with these names. -/
def rel (names : List (List Char)) : LexPath := ⟨[], names⟩

/-- The path that a text stands for, where the only root is `/`. -/
def ofText (s : List Char) : LexPath :=
  ⟨if s.head? = some '/' then ['/'] else [], (s.splitOn '/').filter (· ≠ [])⟩

def isAbsolute (p : LexPath) : Bool := p.root ≠ []

/-- The path `q` from `p`, unless it is absolute. -/
def append (p q : LexPath) : LexPath := if q.isAbsolute then q else ⟨p.root, p.names ++ q.names⟩

instance : Div LexPath := ⟨append⟩

/-- The last name. -/
def filename (p : LexPath) : List Char := p.names.getLast?.getD []

/-- What two lists have after what they have in common. -/
def mismatch {α : Type*} [DecidableEq α] : List α → List α → List α × List α
  | x :: xs, y :: ys => if x = y then mismatch xs ys else (x :: xs, y :: ys)
  | xs, ys => (xs, ys)

/-- The levels to go up out of these names; they are negative if the names go up themselves. -/
def depth (names : List (List Char)) : ℤ :=
  (names.map fun n => if n = ['.', '.'] then -1 else if n = [] ∨ n = ['.'] then 0 else 1).sum

/-- The path that leads from `base` to `p`; it is empty if there is none. -/
def lexicallyRelative (p base : LexPath) : LexPath :=
  if p.root ≠ base.root then rel []
  else
    let (a, b) := mismatch p.names base.names
    if a = [] ∧ b = [] then rel [['.']]
    else
      let n := depth b
      if n < 0 then rel []
      else if n = 0 ∧ (a = [] ∨ a.head? = some []) then rel [['.']]
      else rel (List.replicate n.toNat ['.', '.'] ++ a)

/-- The path that leads from `base` to `p`, or `p` if there is none. -/
def lexicallyProximate (p base : LexPath) : LexPath :=
  let q := p.lexicallyRelative base
  if q = rel [] then p else q

/-- The names with separators between them. -/
def generic (p : LexPath) : List Char := p.root ++ ['/'].intercalate p.names

/-- Where to find `p` in the directory `dir`, if it is there. -/
def within (dir p : LexPath) : Option (List (List Char)) :=
  if dir.root = p.root ∧ dir.names <+: p.names then some (p.names.drop dir.names.length) else none

variable {p q dir : LexPath} {names : List (List Char)}

@[simp] theorem append_rel (p : LexPath) (names : List (List Char)) :
    p / rel names = ⟨p.root, p.names ++ names⟩ := rfl

theorem append_of_isAbsolute (p : LexPath) (hq : q.isAbsolute = true) : p / q = q := if_pos hq

theorem append_assoc (p q r : LexPath) : p / q / r = p / (q / r) := by
  show append (append p q) r = append p (append q r)
  unfold append isAbsolute
  by_cases hr : r.root = []
  · by_cases hq : q.root = [] <;> simp [hr, hq]
  · simp [hr]

@[simp] theorem filename_append_rel (p : LexPath) (names : List (List Char)) (n : List Char) :
    (p / rel (names ++ [n])).filename = n := by
  rw [append_rel, filename, ← List.append_assoc, List.getLast?_concat, Option.getD_some]

theorem mismatch_append {α : Type*} [DecidableEq α] (xs ys : List α) :
    mismatch (xs ++ ys) xs = (ys, []) := by
  induction xs with
  | nil => cases ys <;> rfl
  | cons x xs ih => rw [List.cons_append, mismatch, if_pos rfl, ih]

/-- From a directory to a path in it, only this path leads. -/
theorem lexicallyRelative_append {n : List Char} (hn : n ≠ []) :
    (p / rel (n :: names)).lexicallyRelative p = rel (n :: names) := by
  simp [lexicallyRelative, mismatch_append, depth, hn]

theorem lexicallyProximate_append {n : List Char} (hn : n ≠ []) :
    (p / rel (n :: names)).lexicallyProximate p = rel (n :: names) := by
  rw [lexicallyProximate, lexicallyRelative_append hn]
  exact if_neg fun h => List.cons_ne_nil _ _ (congrArg LexPath.names h)

@[simp] theorem within_append (p : LexPath) (names : List (List Char)) :
    within p (p / rel names) = some names := by
  rw [append_rel, within, if_pos ⟨rfl, List.prefix_append ..⟩, List.drop_left]

/-- The text of a relative path starts with the one of its directory. -/
theorem generic_prefix (names : List (List Char)) (n : List Char) :
    (rel names).generic <+: (rel (names ++ [n])).generic := by
  show ['/'].intercalate names <+: ['/'].intercalate (names ++ [n])
  induction names with
  | nil => exact List.nil_prefix
  | cons m names ih =>
    rw [List.cons_append, List.intercalate_cons_of_ne_nil (List.append_ne_nil_of_right_ne_nil _
      (List.cons_ne_nil _ _))]
    rcases eq_or_ne names [] with rfl | hne
    · rw [List.intercalate_singleton, List.append_assoc]
      exact List.prefix_append ..
    · rw [List.intercalate_cons_of_ne_nil hne]
      exact (List.prefix_append_right_inj _).2 ih

end LexPath

end Theory

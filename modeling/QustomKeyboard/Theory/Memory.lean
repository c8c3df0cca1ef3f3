import Mathlib.Data.List.TakeDrop

/-!
# Objects in memory

An object is the list of its bytes (of its cells, in general), and an access
outside of it is a `Fault`: what would be undefined behaviour is a value that
can be seen. `load` and `store` are the accesses, `memcpy` copies between two
objects.

A store is known by what it leaves (`store_between`): the cells it covers are
replaced, and everything before and after them is kept.

An array is the bytes of its elements, one after the other; where these all have
the same size, the bytes of an element stand at its index times this size
(`getElem?_flatMap`).
-/

namespace Theory

/-- What a program may not do. -/
inductive Fault
  /-- Reading outside of an object. -/
  | load
  /-- Writing outside of an object. -/
  | store
  /-- A failed assertion. -/
  | assertion
  deriving DecidableEq, Repr

variable {α : Type*}

/-- Read `n` cells of `obj` from the offset `off`. -/
def load (obj : List α) (off n : ℕ) : Except Fault (List α) :=
  if off + n ≤ obj.length then .ok ((obj.drop off).take n) else .error .load

/-- Write `cells` into `obj` from the offset `off`. -/
def store (obj : List α) (off : ℕ) (cells : List α) : Except Fault (List α) :=
  if off + cells.length ≤ obj.length then
    .ok (obj.take off ++ cells ++ obj.drop (off + cells.length))
  else .error .store

/-- Read the cell of `obj` at the index `i`. -/
def loadAt (obj : List α) (i : ℕ) : Except Fault α :=
  (obj[i]?).elim (.error .load) .ok

/-- Write the cell `a` into `obj` at the index `i`. -/
def storeAt (obj : List α) (i : ℕ) (a : α) : Except Fault (List α) :=
  if i < obj.length then .ok (obj.set i a) else .error .store

/-- Copy `n` cells of `src`, from the offset `soff`, into `dst`, from the offset `doff`. -/
def memcpy (dst : List α) (doff : ℕ) (src : List α) (soff n : ℕ) : Except Fault (List α) := do
  store dst doff (← load src soff n)

theorem load_of_le {obj : List α} {off n : ℕ} (h : off + n ≤ obj.length) :
    load obj off n = .ok ((obj.drop off).take n) := if_pos h

theorem load_of_lt {obj : List α} {off n : ℕ} (h : obj.length < off + n) :
    load obj off n = .error .load := if_neg (Nat.not_le.2 h)

theorem length_of_load {obj cells : List α} {off n : ℕ} (h : load obj off n = .ok cells) :
    cells.length = n := by
  rcases Nat.lt_or_ge obj.length (off + n) with hlt | hle
  · rw [load_of_lt hlt] at h
    exact absurd h (by simp)
  · rw [load_of_le hle, Except.ok.injEq] at h
    rw [← h, List.length_take, List.length_drop]
    omega

/-- A store replaces what it covers, and keeps what stands before and after. -/
theorem store_between {before mid after cells : List α} {off : ℕ} (hoff : before.length = off)
    (h : mid.length = cells.length) :
    store (before ++ (mid ++ after)) off cells = .ok (before ++ (cells ++ after)) := by
  rw [store, if_pos (by simp only [List.length_append]; omega), List.take_left' hoff,
    List.append_assoc, ← List.drop_drop, List.drop_left' hoff, List.drop_left' h]

/-- A load from the front of an object. -/
theorem load_front {cells after : List α} {n : ℕ} (hn : cells.length = n) :
    load (cells ++ after) 0 n = .ok cells := by
  rw [load_of_le (by rw [List.length_append]; omega), List.drop_zero, List.take_left' hn]

/-- A store at the front of an object. -/
theorem store_front {mid after cells : List α} (h : mid.length = cells.length) :
    store (mid ++ after) 0 cells = .ok (cells ++ after) :=
  @store_between _ [] mid after cells 0 rfl h

theorem loadAt_of_getElem? {obj : List α} {i : ℕ} {a : α} (h : obj[i]? = some a) :
    loadAt obj i = .ok a := by
  rw [loadAt, h]
  rfl

theorem loadAt_of_le {obj : List α} {i : ℕ} (h : obj.length ≤ i) :
    loadAt obj i = .error .load := by
  rw [loadAt, List.getElem?_eq_none h]
  rfl

theorem loadAt_of_lt {obj : List α} {i : ℕ} (h : i < obj.length) (d : α) :
    loadAt obj i = .ok (obj.getD i d) :=
  loadAt_of_getElem? (by
    rw [List.getD_eq_getElem?_getD, List.getElem?_eq_getElem h, Option.getD_some])

/-- A cell can be read iff its index is in range. -/
theorem exists_loadAt_iff {obj : List α} {i : ℕ} :
    (∃ a, loadAt obj i = .ok a) ↔ i < obj.length := by
  rcases Nat.lt_or_ge i obj.length with h | h
  · exact iff_of_true ⟨_, loadAt_of_getElem? (List.getElem?_eq_getElem h)⟩ h
  · rw [loadAt_of_le h]
    exact iff_of_false (by simp) (Nat.not_lt.2 h)

theorem storeAt_of_lt {obj : List α} {i : ℕ} (h : i < obj.length) (a : α) :
    storeAt obj i a = .ok (obj.set i a) := if_pos h

theorem storeAt_of_le {obj : List α} {i : ℕ} (h : obj.length ≤ i) (a : α) :
    storeAt obj i a = .error .store := if_neg (Nat.not_lt.2 h)

theorem length_of_storeAt {obj obj' : List α} {i : ℕ} {a : α} (h : storeAt obj i a = .ok obj') :
    obj'.length = obj.length := by
  rcases Nat.lt_or_ge i obj.length with hi | hi
  · rw [storeAt_of_lt hi, Except.ok.injEq] at h
    rw [← h, List.length_set]
  · rw [storeAt_of_le hi] at h
    exact absurd h (by simp)

theorem exists_storeAt_iff {obj : List α} {i : ℕ} {a : α} :
    (∃ obj', storeAt obj i a = .ok obj') ↔ i < obj.length := by
  rcases Nat.lt_or_ge i obj.length with h | h
  · exact iff_of_true ⟨_, storeAt_of_lt h a⟩ h
  · rw [storeAt_of_le h]
    exact iff_of_false (by simp) (Nat.not_lt.2 h)

/-- Accesses in sequence go through iff both do, the second one whatever the
    first has left. -/
theorem exists_bind_iff {β γ ε : Type*} {x : Except ε β} {f : β → Except ε γ} {P Q : Prop}
    (hx : (∃ b, x = .ok b) ↔ P) (hf : ∀ b, x = .ok b → ((∃ c, f b = .ok c) ↔ Q)) :
    (∃ c, x.bind f = .ok c) ↔ P ∧ Q := by
  rw [← hx]
  cases x with
  | error e => simp [Except.bind]
  | ok b => simpa [Except.bind] using hf b rfl

/-- Accesses in sequence that have gone through, both have. -/
theorem exists_of_bind {β γ ε : Type*} {x : Except ε β} {f : β → Except ε γ} {c : γ}
    (h : x.bind f = .ok c) : ∃ b, x = .ok b ∧ f b = .ok c := by
  cases x with
  | error e => cases h
  | ok b => exact ⟨b, rfl, h⟩

/-- A store behind `before` leaves it. -/
theorem storeAt_append_right (before after : List α) (k : ℕ) (a : α) :
    storeAt (before ++ after) (before.length + k) a = (storeAt after k a).map (before ++ ·) := by
  rcases Nat.lt_or_ge k after.length with hk | hk
  · rw [storeAt_of_lt hk, storeAt_of_lt (by rw [List.length_append]; omega),
      List.set_append_right _ _ (Nat.le_add_right _ _), Nat.add_sub_cancel_left]
    rfl
  · rw [storeAt_of_le hk, storeAt_of_le (by rw [List.length_append]; omega)]
    rfl

/-- Copying more than the source has is a fault. -/
theorem memcpy_of_lt {dst src : List α} {doff soff n : ℕ} (h : src.length < soff + n) :
    memcpy dst doff src soff n = .error .load := by
  rw [memcpy, load_of_lt h]
  rfl

theorem memcpy_of_le {dst src : List α} {doff soff n : ℕ} (h : soff + n ≤ src.length) :
    memcpy dst doff src soff n = store dst doff ((src.drop soff).take n) := by
  rw [memcpy, load_of_le h]
  rfl

/-! ## Arrays -/

variable {β : Type*} {l : List β} {f : β → List α} {n : ℕ}

/-- The size of an array. -/
theorem length_flatMap_eq (hf : ∀ b ∈ l, (f b).length = n) :
    (l.flatMap f).length = l.length * n := by
  induction l with
  | nil => simp
  | cons b l ih =>
    rw [List.flatMap_cons, List.length_append, hf b List.mem_cons_self,
      ih fun a ha => hf a (List.mem_cons_of_mem b ha), List.length_cons, Nat.succ_mul, Nat.add_comm]

/-- The cell `j` of the element `i`. -/
theorem getElem?_flatMap (hf : ∀ b ∈ l, (f b).length = n) {i j : ℕ} {b : β} (hb : l[i]? = some b)
    (hj : j < n) : (l.flatMap f)[i * n + j]? = (f b)[j]? := by
  induction l generalizing i with
  | nil => simp at hb
  | cons a l ih =>
    have ha : (f a).length = n := hf a List.mem_cons_self
    rw [List.flatMap_cons]
    cases i with
    | zero =>
      rw [List.getElem?_cons_zero, Option.some.injEq] at hb
      rw [Nat.zero_mul, Nat.zero_add, List.getElem?_append_left (by omega), hb]
    | succ i =>
      rw [List.getElem?_append_right (by rw [ha, Nat.succ_mul]; omega), ha,
        show (i + 1) * n + j - n = i * n + j by rw [Nat.succ_mul]; omega]
      exact ih (fun c hc => hf c (List.mem_cons_of_mem a hc)) hb

end Theory

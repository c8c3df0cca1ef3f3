import Mathlib.Data.List.Infix

/-!
# Splitting at separators

A list is split where its separators are, adjacent separators counting as one
(`splitCompress`). Only the first and the last of the tokens may be empty (`Tokens`), and
these lists of tokens are those that are got back when they have been joined by a separator
(`Tokens.splitCompress_intercalate`).

The separator may also be a pattern, which is looked for from the left to the right
(`splitOnPattern`).
-/

namespace Theory

variable {α : Type*}

/-- Split where `p` holds, adjacent separators counting as one. -/
def splitCompress (p : α → Bool) : List α → List (List α)
  | [] => [[]]
  | a :: l =>
    if p a then
      if l.head?.any p then splitCompress p l else [] :: splitCompress p l
    else (splitCompress p l).modifyHead (a :: ·)

/-- The tokens have no separator, and the inner ones are not empty. -/
structure Tokens (p : α → Bool) (ts : List (List α)) : Prop where
  ne_nil : ts ≠ []
  clean : ∀ t ∈ ts, ∀ a ∈ t, p a = false
  inner : ∀ t ∈ ts.tail.dropLast, t ≠ []

variable {p : α → Bool} {a : α} {l : List α}

theorem exists_splitCompress_eq_cons (p : α → Bool) (l : List α) :
    ∃ u us, splitCompress p l = u :: us := by
  fun_induction splitCompress p l with
  | case1 => exact ⟨_, _, rfl⟩
  | case2 a l _ _ ih => exact ih
  | case3 a l _ _ _ => exact ⟨_, _, rfl⟩
  | case4 a l _ ih =>
    obtain ⟨u, us, hu⟩ := ih
    exact ⟨_, _, by rw [hu]; rfl⟩

theorem splitCompress_cons_of_not (h : p a = false) {u : List α} {us : List (List α)}
    (hu : splitCompress p l = u :: us) : splitCompress p (a :: l) = (a :: u) :: us := by
  rw [splitCompress, if_neg (by simp [h]), hu]
  rfl

theorem splitCompress_of_forall_not {t : List α} (h : ∀ a ∈ t, p a = false) :
    splitCompress p t = [t] := by
  induction t with
  | nil => rfl
  | cons a t ih =>
    obtain ⟨ha, h⟩ := List.forall_mem_cons.1 h
    exact splitCompress_cons_of_not ha (ih h)

/-- A token ends at the next separator, if this is the only one there. -/
theorem splitCompress_append_cons {t : List α} (h : ∀ a ∈ t, p a = false) {s : α} (hs : p s = true)
    (hl : l.head?.any p = false) : splitCompress p (t ++ s :: l) = t :: splitCompress p l := by
  induction t with
  | nil => rw [List.nil_append, splitCompress, if_pos hs, if_neg (by simp [hl])]
  | cons a t ih =>
    obtain ⟨ha, h⟩ := List.forall_mem_cons.1 h
    exact splitCompress_cons_of_not ha (ih h)

/-- The tokens are the list without its separators. -/
theorem flatten_splitCompress (p : α → Bool) (l : List α) :
    (splitCompress p l).flatten = l.filter fun a => !p a := by
  fun_induction splitCompress p l with
  | case1 => rfl
  | case2 a l ha _ ih => rw [ih, List.filter_cons_of_neg (by simp [ha])]
  | case3 a l ha _ ih =>
    rw [List.flatten_cons, List.nil_append, ih, List.filter_cons_of_neg (by simp [ha])]
  | case4 a l ha ih =>
    obtain ⟨u, us, hu⟩ := exists_splitCompress_eq_cons p l
    rw [List.filter_cons_of_pos (by simp [ha]), ← ih, hu]
    rfl

theorem splitCompress_inner (p : α → Bool) (l : List α) :
    (∀ t ∈ (splitCompress p l).tail.dropLast, t ≠ []) ∧
      (l.head?.any p = false → ∀ t ∈ (splitCompress p l).dropLast, t ≠ []) := by
  fun_induction splitCompress p l with
  | case1 => exact ⟨fun t h => absurd h List.not_mem_nil, fun _ t h => absurd h List.not_mem_nil⟩
  | case2 a l ha _ ih => exact ⟨ih.1, fun h => absurd (ha.symm.trans h) (by decide)⟩
  | case3 a l ha hl ih =>
    -- The empty token is the first one: the next token is not.
    exact ⟨ih.2 (Bool.eq_false_iff.2 hl), fun h => absurd (ha.symm.trans h) (by decide)⟩
  | case4 a l _ ih =>
    obtain ⟨u, us, hu⟩ := exists_splitCompress_eq_cons p l
    rw [hu] at ih ⊢
    refine ⟨ih.1, fun _ t ht => ?_⟩
    rcases us with _ | ⟨v, us⟩
    · exact absurd ht List.not_mem_nil
    · rcases List.mem_cons.1 ht with rfl | ht
      · exact List.cons_ne_nil a u
      · exact ih.1 t ht

theorem tokens_splitCompress (p : α → Bool) (l : List α) : Tokens p (splitCompress p l) where
  ne_nil := by
    obtain ⟨u, us, hu⟩ := exists_splitCompress_eq_cons p l
    exact hu ▸ List.cons_ne_nil u us
  clean t ht a ha := by
    have hmem : a ∈ (splitCompress p l).flatten := List.mem_flatten_of_mem ht ha
    rw [flatten_splitCompress, List.mem_filter, Bool.not_eq_true'] at hmem
    exact hmem.2
  inner := (splitCompress_inner p l).1

/-- Only the empty list has a single token that is empty. -/
theorem eq_nil_of_splitCompress_eq (h : splitCompress p l = [[]]) : l = [] := by
  fun_induction splitCompress p l with
  | case1 => rfl
  | case2 a l _ hl ih =>
    rw [ih h] at hl
    exact absurd hl Bool.false_ne_true
  | case3 a l _ _ _ => exact absurd (List.cons.inj h).2 (tokens_splitCompress p l).ne_nil
  | case4 a l _ _ =>
    obtain ⟨u, us, hu⟩ := exists_splitCompress_eq_cons p l
    rw [hu] at h
    exact absurd (List.cons.inj h).1 (List.cons_ne_nil a u)

/-- Tokens that have been joined by a separator are got back. -/
theorem Tokens.splitCompress_intercalate {ts : List (List α)} (h : Tokens p ts) {s : α}
    (hs : p s = true) : splitCompress p ([s].intercalate ts) = ts := by
  induction ts with
  | nil => exact absurd rfl h.ne_nil
  | cons t ts ih =>
    have hclean := List.forall_mem_cons.1 h.clean
    rcases ts with _ | ⟨u, us⟩
    · rw [List.intercalate_singleton]
      exact splitCompress_of_forall_not hclean.1
    have hrest : Tokens p (u :: us) :=
      ⟨List.cons_ne_nil u us, hclean.2,
        fun v hv => h.inner v (List.mem_of_mem_tail (by rwa [List.tail_cons, List.tail_dropLast]))⟩
    -- Behind the separator stands a token that is not empty, or nothing.
    have hnext : ([s].intercalate (u :: us)).head?.any p = false := by
      rcases u with _ | ⟨b, u⟩
      · rcases us with _ | ⟨v, us⟩
        · rfl
        · exact absurd rfl (h.inner [] List.mem_cons_self)
      · have hb : p b = false := hclean.2 _ List.mem_cons_self b List.mem_cons_self
        rw [List.intercalate_cons_cons_left, List.head?_cons, Option.any_some, hb]
    rw [List.intercalate_cons_cons, List.append_assoc, List.singleton_append,
      splitCompress_append_cons hclean.1 hs hnext, ih hrest]

/-! ## Patterns -/

section Pattern

variable [DecidableEq α] (pat : List α)

/-- Split at all occurrences of `pat`, after a number of elements. -/
def splitFrom : ℕ → List α → List (List α)
  | _, [] => [[]]
  | skip + 1, _ :: l => splitFrom skip l
  | 0, a :: l =>
    if pat <+: a :: l then [] :: splitFrom (pat.length - 1) l
    else (splitFrom 0 l).modifyHead (a :: ·)

/-- Split at all occurrences of `pat`. -/
def splitOnPattern (l : List α) : List (List α) := splitFrom pat 0 l

/-- Where `pat` begins for the first time. -/
def find : List α → Option ℕ
  | [] => if pat = [] then some 0 else none
  | a :: l => if pat <+: a :: l then some 0 else (find l).map (· + 1)

theorem splitFrom_ne_nil (skip : ℕ) (l : List α) : splitFrom pat skip l ≠ [] := by
  fun_induction splitFrom pat skip l with
  | case1 => exact List.cons_ne_nil _ _
  | case2 => assumption
  | case3 => exact List.cons_ne_nil _ _
  | case4 a l _ ih =>
    obtain ⟨u, us, hu⟩ := List.exists_cons_of_ne_nil ih
    rw [hu]
    exact List.cons_ne_nil _ _

variable {pat}

theorem find_eq_none_iff : find pat l = none ↔ ¬pat <:+: l := by
  fun_induction find pat l with
  | case1 h => exact iff_of_false (by simp) (not_not.2 (h ▸ List.infix_rfl))
  | case2 h => exact iff_of_true rfl (mt List.infix_nil.1 h)
  | case3 a l h => exact iff_of_false (by simp) (not_not.2 h.isInfix)
  | case4 a l h ih => rw [Option.map_eq_none_iff, ih, List.infix_cons_iff, or_iff_right h]

end Pattern

/-! ## Occurrences -/

section Occurrences

variable {w x y sep : List α}

/-- What has no separator does not reach over one. -/
theorem infix_append_cons_iff {s : α} (hs : s ∉ w) :
    w <:+: x ++ s :: y ↔ w <:+: x ∨ w <:+: y := by
  rw [List.infix_append_iff]
  constructor
  · rintro (hx | hy | ⟨u, v, rfl, hu, hv⟩)
    · exact .inl hx
    · rcases List.infix_cons_iff.1 hy with hpre | hy
      · rcases List.prefix_cons_iff.1 hpre with rfl | ⟨t, rfl, -⟩
        · exact .inl List.nil_infix
        · exact absurd List.mem_cons_self hs
      · exact .inr hy
    · rcases List.prefix_cons_iff.1 hv with rfl | ⟨t, rfl, -⟩
      · exact .inl (by rw [List.append_nil]; exact hu.isInfix)
      · exact absurd (List.mem_append_right _ List.mem_cons_self) hs
  · rintro (hx | hy)
    · exact .inl hx
    · exact .inr (.inl (List.infix_cons hy))

/-- Nor is it found in separators. -/
theorem infix_append_iff_of_forall_notMem (hw : w ≠ []) (h : ∀ s ∈ sep, s ∉ w) :
    w <:+: sep ++ y ↔ w <:+: y := by
  induction sep with
  | nil => rfl
  | cons s sep ih =>
    rw [List.forall_mem_cons] at h
    have := infix_append_cons_iff (x := []) (y := sep ++ y) h.1
    rw [List.nil_append, List.infix_nil, or_iff_right hw] at this
    rw [List.cons_append, this, ih h.2]

/-- Separators at the end make no difference. -/
theorem infix_append_sep_iff (hw : w ≠ []) (h : ∀ s ∈ sep, s ∉ w) :
    w <:+: x ++ sep ↔ w <:+: x := by
  cases sep with
  | nil => rw [List.append_nil]
  | cons s sep =>
    rw [List.forall_mem_cons] at h
    have hrest := infix_append_iff_of_forall_notMem (y := []) hw h.2
    rw [List.append_nil, List.infix_nil] at hrest
    rw [infix_append_cons_iff h.1, hrest, or_iff_left hw]

/-- It occurs in items that are ended by separators iff it occurs in one of them. -/
theorem infix_flatMap_append_iff (hw : w ≠ []) (hsep : sep ≠ []) (h : ∀ s ∈ sep, s ∉ w)
    (ts : List (List α)) : w <:+: ts.flatMap (· ++ sep) ↔ ∃ t ∈ ts, w <:+: t := by
  induction ts with
  | nil => simp [hw]
  | cons t ts ih =>
    obtain ⟨s, sep, rfl⟩ := List.exists_cons_of_ne_nil hsep
    rw [List.forall_mem_cons] at h
    rw [List.flatMap_cons, List.append_assoc, List.cons_append, infix_append_cons_iff h.1,
      infix_append_iff_of_forall_notMem hw h.2, ih, List.exists_mem_cons_iff]

end Occurrences

end Theory

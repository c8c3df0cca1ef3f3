import Mathlib

/-!
# Tables

* `OrderedMap`: a map over a linear order, as the list of its entries in the order of their
  keys. A value can be searched for (`findKey`).
* A table has rows, each with a key. Showing an entry writes it into the row of its key; a
  key without a row gets a blank one at the end (`showEntry`). So a row shows an entry only
  when the key comes the second time, and after some rounds a table is what has been shown to
  it: a row for each key, in the order of their first entries, with the last entry of the key
  unless it is the only one (`rounds_eq`).
-/

namespace Theory

/-! ## Ordered maps -/

/-- The entries of a map, in the order of their keys. -/
structure OrderedMap (κ ν : Type*) [LinearOrder κ] where
  entries : List (κ × ν) := []
  sorted : entries.Pairwise fun a b => a.1 < b.1 := by exact .nil

section OrderedMap

variable {κ ν : Type*} [LinearOrder κ]

/-- The entries with a value assigned to a key. -/
def assignKey (k : κ) (v : ν) : List (κ × ν) → List (κ × ν)
  | [] => [(k, v)]
  | e :: l => if k < e.1 then (k, v) :: e :: l else if k = e.1 then (k, v) :: l else
    e :: assignKey k v l

variable {k : κ} {v : ν} {e : κ × ν} {l : List (κ × ν)}

theorem mem_assignKey (h : e ∈ assignKey k v l) : e = (k, v) ∨ e ∈ l := by
  induction l with
  | nil => exact .inl (List.mem_singleton.1 h)
  | cons a l ih =>
    rw [assignKey] at h
    split_ifs at h
    · exact List.mem_cons.1 h
    · exact (List.mem_cons.1 h).imp_right (List.mem_cons_of_mem a)
    · rcases List.mem_cons.1 h with rfl | h
      · exact .inr List.mem_cons_self
      · exact (ih h).imp_right (List.mem_cons_of_mem a)

theorem pairwise_assignKey (h : l.Pairwise fun a b => a.1 < b.1) :
    (assignKey k v l).Pairwise fun a b => a.1 < b.1 := by
  induction l with
  | nil => exact List.pairwise_singleton _ _
  | cons a l ih =>
    obtain ⟨ha, hl⟩ := List.pairwise_cons.1 h
    rw [assignKey]
    split_ifs with hlt heq
    · refine List.pairwise_cons.2 ⟨fun b hb => ?_, h⟩
      rcases List.mem_cons.1 hb with rfl | hb
      · exact hlt
      · exact hlt.trans (ha b hb)
    · exact List.pairwise_cons.2 ⟨fun b hb => heq.trans_lt (ha b hb), hl⟩
    · refine List.pairwise_cons.2 ⟨fun b hb => ?_, ih hl⟩
      rcases mem_assignKey hb with rfl | hb
      · exact lt_of_le_of_ne (not_lt.1 hlt) (Ne.symm heq)
      · exact ha b hb

/-- A key after all others is assigned at the end. -/
theorem assignKey_of_lt (h : ∀ e ∈ l, e.1 < k) : assignKey k v l = l ++ [(k, v)] := by
  induction l with
  | nil => rfl
  | cons a l ih =>
    have hlt := h a List.mem_cons_self
    have hl := ih fun e he => h e (List.mem_cons_of_mem a he)
    rw [assignKey, if_neg hlt.not_gt, if_neg hlt.ne', hl]
    rfl

/-- An assignment takes nothing in but its value. -/
theorem countP_assignKey_le {p : ν → Bool} (hv : p v = false) :
    (assignKey k v l).countP (fun e => p e.2) ≤ l.countP (fun e => p e.2) := by
  induction l with
  | nil => simp [assignKey, hv]
  | cons a l ih =>
    rw [assignKey]
    split_ifs
    · simp [List.countP_cons, hv]
    · simp [List.countP_cons, hv]
    · simpa [List.countP_cons] using ih

namespace OrderedMap

variable (m : OrderedMap κ ν)

/-- Assign a value to a key. -/
def assign (k : κ) (v : ν) : OrderedMap κ ν :=
  ⟨assignKey k v m.entries, pairwise_assignKey m.sorted⟩

/-- The first key with a value. -/
def findKey [DecidableEq ν] (v : ν) : Option κ := (m.entries.find? (·.2 = v)).map Prod.fst

theorem length_le_card [Fintype κ] : m.entries.length ≤ Fintype.card κ := by
  have hnodup : (m.entries.map Prod.fst).Nodup :=
    List.pairwise_map.2 (m.sorted.imp fun h => ne_of_lt h)
  rw [← List.length_map Prod.fst]
  exact hnodup.length_le_card

variable {m} [DecidableEq ν]

theorem mem_of_findKey (h : m.findKey v = some k) : (k, v) ∈ m.entries := by
  obtain ⟨e, he, rfl⟩ := Option.map_eq_some_iff.1 h
  have hv : e.2 = v := by simpa using List.find?_some he
  exact hv ▸ List.mem_of_find?_eq_some he

theorem findKey_eq_none_iff : m.findKey v = none ↔ ∀ e ∈ m.entries, e.2 ≠ v := by
  simp [findKey]

end OrderedMap

end OrderedMap

/-! ## Rows with keys -/

section Table

variable {κ ν ρ : Type*} (shown : κ → ν → ρ) (blank : ρ)

/-- What the row of a key shows after the values of the key. -/
def lastShown (k : κ) (vs : List ν) : ρ := vs.tail.getLast?.elim blank (shown k)

variable {shown blank} in
/-- From the second value of its key on, a row shows the last one. -/
theorem lastShown_concat {k : κ} {vs : List ν} {v : ν} (h : vs ≠ []) :
    lastShown shown blank k (vs ++ [v]) = shown k v := by
  rw [lastShown, List.tail_append_of_ne_nil h, List.getLast?_concat]
  rfl

variable [DecidableEq κ]

/-- The table after an entry has been shown. -/
def showEntry (t : List (κ × ρ)) (e : κ × ν) : List (κ × ρ) :=
  if e.1 ∈ t.map Prod.fst then t.map fun r => if r.1 = e.1 then (r.1, shown e.1 e.2) else r
  else t ++ [(e.1, blank)]

/-- The table after a round of entries. -/
def showRound (t : List (κ × ρ)) (es : List (κ × ν)) : List (κ × ρ) :=
  es.foldl (showEntry shown blank) t

/-- A row, if one of the entries is for it. -/
def rewritten (es : List (κ × ν)) (r : κ × ρ) : κ × ρ :=
  (es.lookup r.1).elim r fun v => (r.1, shown r.1 v)

/-- The keys of some rounds, in the order of their first entries. -/
def firstKeys (ess : List (List (κ × ν))) : List κ := (ess.flatten.map Prod.fst).eraseDups

/-- The values of a key in some rounds, one a round. -/
def history (ess : List (List (κ × ν))) (k : κ) : List ν := ess.filterMap (List.lookup k)

variable {shown blank} {t : List (κ × ρ)} {e : κ × ν} {es : List (κ × ν)}
  {ess : List (List (κ × ν))} {k : κ}

/-- Where the key has a row, the entry is written there. -/
theorem showEntry_eq_set (h : (t.map Prod.fst).Nodup) {i : ℕ} (hi : i < t.length)
    (hkey : t[i].1 = e.1) : showEntry shown blank t e = t.set i (e.1, shown e.1 e.2) := by
  have hmem : e.1 ∈ t.map Prod.fst := hkey ▸ List.mem_map_of_mem (List.getElem_mem hi)
  rw [showEntry, if_pos hmem]
  refine List.ext_getElem (by simp) fun j hj _ => ?_
  have hj : j < t.length := by simpa using hj
  rw [List.getElem_map, List.getElem_set]
  by_cases hij : i = j
  · subst hij
    rw [if_pos hkey, if_pos rfl, hkey]
  · have hi' : i < (t.map Prod.fst).length := by simpa using hi
    have hj' : j < (t.map Prod.fst).length := by simpa using hj
    have hne : t[j].1 ≠ e.1 := by
      intro heq
      have hsame : (t.map Prod.fst)[i] = (t.map Prod.fst)[j] := by
        rw [List.getElem_map, List.getElem_map, hkey, heq]
      exact hij (h.getElem_inj_iff.1 hsame)
    rw [if_neg hne, if_neg hij]

theorem showEntry_of_notMem (h : e.1 ∉ t.map Prod.fst) :
    showEntry shown blank t e = t ++ [(e.1, blank)] := if_neg h

theorem map_fst_showEntry :
    (showEntry shown blank t e).map Prod.fst =
      t.map Prod.fst ++ if e.1 ∈ t.map Prod.fst then [] else [e.1] := by
  rw [showEntry]
  split_ifs
  · rw [List.map_map, List.append_nil]
    refine List.map_congr_left fun r _ => ?_
    simp only [Function.comp_apply]
    split_ifs <;> rfl
  · rw [List.map_append]
    rfl

theorem nodup_showEntry (h : (t.map Prod.fst).Nodup) :
    ((showEntry shown blank t e).map Prod.fst).Nodup := by
  rw [map_fst_showEntry]
  split_ifs with hmem
  · rwa [List.append_nil]
  · exact List.nodup_append.2 ⟨h, List.nodup_singleton _, fun a ha b hb heq =>
      hmem (List.mem_singleton.1 hb ▸ heq ▸ ha)⟩

theorem length_le_showEntry : t.length ≤ (showEntry shown blank t e).length := by
  rw [← List.length_map Prod.fst, ← List.length_map Prod.fst,
    map_fst_showEntry, List.length_append]
  exact Nat.le_add_right _ _

theorem length_le_showRound : t.length ≤ (showRound shown blank t es).length := by
  induction es generalizing t with
  | nil => exact le_rfl
  | cons e es ih => exact length_le_showEntry.trans ih

theorem length_le_foldl_showRound :
    t.length ≤ (ess.foldl (showRound shown blank) t).length := by
  induction ess generalizing t with
  | nil => exact le_rfl
  | cons es ess ih => exact length_le_showRound.trans ih

theorem lookup_eq_none_iff_notMem : es.lookup k = none ↔ k ∉ es.map Prod.fst := by
  rw [List.lookup_eq_none_iff, List.mem_map]
  exact ⟨fun h ⟨e, he, heq⟩ => bne_iff_ne.1 (h e he) heq.symm,
    fun h e he => bne_iff_ne.2 fun heq => h ⟨e, he, heq.symm⟩⟩

theorem rewritten_of_notMem {r : κ × ρ} (h : r.1 ∉ es.map Prod.fst) : rewritten shown es r = r := by
  rw [rewritten, lookup_eq_none_iff_notMem.2 h]
  rfl

theorem rewritten_cons_self {r : κ × ρ} {v : ν} :
    rewritten shown ((r.1, v) :: es) r = (r.1, shown r.1 v) := by
  rw [rewritten, List.lookup_cons_self]
  rfl

theorem rewritten_cons_of_ne {r : κ × ρ} {v : ν} (h : r.1 ≠ k) :
    rewritten shown ((k, v) :: es) r = rewritten shown es r := by
  rw [rewritten, List.lookup_cons, beq_eq_false_iff_ne.2 h]
  rfl

/-- What a round makes of a table. -/
theorem showRound_eq (h : (es.map Prod.fst).Nodup) :
    showRound shown blank t es = t.map (rewritten shown es) ++
      (es.filter (·.1 ∉ t.map Prod.fst)).map fun e => (e.1, blank) := by
  induction es generalizing t with
  | nil =>
    rw [List.filter_nil, List.map_nil, List.append_nil]
    exact (List.map_id t).symm
  | cons e es ih =>
    obtain ⟨k, v⟩ := e
    obtain ⟨hk, hes⟩ := List.nodup_cons.1 (List.map_cons ▸ h)
    change showRound shown blank (showEntry shown blank t (k, v)) es = _
    rw [ih hes, map_fst_showEntry]
    by_cases hmem : k ∈ t.map Prod.fst
    · -- The row of the key is written, and nothing later in the round is for it.
      have hrow (r : κ × ρ) : rewritten shown es (if r.1 = k then (r.1, shown k v) else r) =
          rewritten shown ((k, v) :: es) r := by
        by_cases hr : r.1 = k
        · have hr' : (r.1, shown r.1 v).1 ∉ es.map Prod.fst := hr ▸ hk
          rw [if_pos hr, ← hr, rewritten_cons_self]
          exact rewritten_of_notMem hr'
        · rw [if_neg hr, rewritten_cons_of_ne hr]
      rw [showEntry, if_pos hmem, if_pos hmem, List.append_nil, List.map_map,
        List.filter_cons_of_neg (by simpa using hmem)]
      exact congrArg (· ++ _) (List.map_congr_left fun r _ => hrow r)
    · -- The key gets a blank row, which stays blank.
      have hrow (r : κ × ρ) (hr : r ∈ t) :
          rewritten shown es r = rewritten shown ((k, v) :: es) r := by
        have hne : r.1 ≠ k := fun heq => hmem (heq ▸ List.mem_map_of_mem hr)
        exact (rewritten_cons_of_ne hne).symm
      have hfilter : es.filter (·.1 ∉ t.map Prod.fst ++ [k]) =
          es.filter (·.1 ∉ t.map Prod.fst) := by
        refine List.filter_congr fun e he => ?_
        have hmem' : e.1 ∈ es.map Prod.fst := List.mem_map_of_mem he
        have hne : e.1 ≠ k := fun heq => hk (heq ▸ hmem')
        simp [hne]
      have hblank : rewritten shown es (k, blank) = (k, blank) := rewritten_of_notMem hk
      rw [showEntry, if_neg hmem, if_neg hmem, hfilter, List.map_append, List.append_assoc,
        List.map_congr_left hrow, List.filter_cons_of_pos (by simpa using hmem), List.map_singleton,
        hblank]
      rfl

theorem eraseDups_of_nodup {l : List κ} (h : l.Nodup) : l.eraseDups = l := by
  induction l with
  | nil => rfl
  | cons a l ih =>
    obtain ⟨ha, hl⟩ := List.nodup_cons.1 h
    have hfilter : l.filter (fun b => !b == a) = l := by
      refine List.filter_eq_self.2 fun b hb => ?_
      have hne : b ≠ a := fun heq => ha (heq ▸ hb)
      simp [hne]
    rw [List.eraseDups_cons, hfilter, ih hl]

theorem nodup_eraseDups (l : List κ) : l.eraseDups.Nodup := by
  induction l using List.reverseRecOn with
  | nil => exact List.nodup_nil
  | append_singleton l a ih =>
    rw [List.eraseDups_append, List.cons_removeAll, List.nil_removeAll]
    by_cases ha : a ∈ l
    · simpa [ha] using ih
    · simpa [ha, List.nodup_append, eraseDups_of_nodup] using ⟨ih, fun b hb heq => ha (heq ▸ hb)⟩

theorem nodup_firstKeys : (firstKeys ess).Nodup := nodup_eraseDups _

/-- Further keys come after those that have been there. -/
theorem firstKeys_prefix (ess ess' : List (List (κ × ν))) :
    firstKeys ess <+: firstKeys (ess ++ ess') := by
  rw [firstKeys, firstKeys, List.flatten_append, List.map_append, List.eraseDups_append]
  exact List.prefix_append _ _

@[simp] theorem mem_firstKeys_iff : k ∈ firstKeys ess ↔ ∃ es ∈ ess, k ∈ es.map Prod.fst := by
  rw [firstKeys, List.mem_eraseDups, List.map_flatten, List.mem_flatten]
  simp only [List.mem_map, exists_exists_and_eq_and]

theorem firstKeys_concat (h : (es.map Prod.fst).Nodup) :
    firstKeys (ess ++ [es]) =
      firstKeys ess ++ (es.filter (·.1 ∉ firstKeys ess)).map Prod.fst := by
  have hremove : (es.map Prod.fst).removeAll (ess.flatten.map Prod.fst) =
      (es.filter (·.1 ∉ firstKeys ess)).map Prod.fst := by
    rw [List.removeAll, List.filter_map]
    refine congrArg (List.map Prod.fst) (List.filter_congr fun e _ => ?_)
    simp only [firstKeys, List.mem_eraseDups, Function.comp_apply, List.elem_eq_mem, decide_not]
  have hnodup : ((es.filter (·.1 ∉ firstKeys ess)).map Prod.fst).Nodup :=
    (List.filter_sublist.map Prod.fst).nodup h
  rw [firstKeys, List.flatten_append, List.map_append, List.eraseDups_append,
    List.flatten_singleton, hremove, eraseDups_of_nodup hnodup]
  rfl

theorem history_append (ess ess' : List (List (κ × ν))) (k : κ) :
    history (ess ++ ess') k = history ess k ++ history ess' k := List.filterMap_append

theorem history_concat :
    history (ess ++ [es]) k = history ess k ++ (es.lookup k).toList := by
  rw [history_append]
  cases hk : es.lookup k <;> simp [history, hk]

theorem history_eq_nil_iff : history ess k = [] ↔ k ∉ firstKeys ess := by
  rw [history, List.filterMap_eq_nil_iff, mem_firstKeys_iff]
  push Not
  exact forall₂_congr fun es _ => lookup_eq_none_iff_notMem

variable (shown blank) in
/-- After some rounds, each key has its row, in the order of the first entries, with what it
    has been shown last. -/
theorem rounds_eq (h : ∀ es ∈ ess, (es.map Prod.fst).Nodup) :
    ess.foldl (showRound shown blank) [] =
      (firstKeys ess).map fun k => (k, lastShown shown blank k (history ess k)) := by
  induction ess using List.reverseRecOn with
  | nil => rfl
  | append_singleton ess es ih =>
    have hes := h es (List.mem_append_right _ List.mem_cons_self)
    rw [List.foldl_append, List.foldl_cons, List.foldl_nil,
      ih fun es' hes' => h es' (List.mem_append_left _ hes'), showRound_eq hes,
      firstKeys_concat hes, List.map_append, List.map_map, List.map_map, List.map_map]
    have hkeys : (firstKeys ess).map (Prod.fst ∘ fun k =>
        (k, lastShown shown blank k (history ess k))) = firstKeys ess := List.map_id _
    rw [hkeys]
    congr 1
    · -- A row that has been there is written by an entry of the round.
      refine List.map_congr_left fun k hk => ?_
      have hne : history ess k ≠ [] := mt history_eq_nil_iff.1 (not_not.2 hk)
      simp only [Function.comp_apply, rewritten, history_concat]
      cases es.lookup k with
      | none => simp
      | some v => simp [lastShown_concat hne]
    · -- A new row is blank.
      refine List.map_congr_left fun e he => ?_
      have hnil : history ess e.1 = [] :=
        history_eq_nil_iff.2 (by simpa using (List.mem_filter.1 he).2)
      simp only [Function.comp_apply, history_concat, hnil]
      cases es.lookup e.1 <;> rfl

end Table

end Theory

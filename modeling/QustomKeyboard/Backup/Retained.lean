import QustomKeyboard.Backup.Failure
import QustomKeyboard.Theory.Recent

/-!
# What a destination retains

A destination holds some backups of an entry, and no others: the names that start with
the name of the source directory are these, and all of them are complete (`Holds`).

A backup that gets through adds its name to those of a destination. Before this, rotation
leaves at most one fewer than the backups that are allowed: if the names come in the order
in which they have been added, the most recent ones (`Holds.doBackup`).
-/

namespace QustomKeyboard

open Theory

variable {ι : Type*} {i : ι} {e : BackupEntry} {s s' : FileSystem ι} {t : WString}
  {d : Directory ι} {names : List WString} {k m : ℕ}

/-! ## Names in a directory -/

namespace Directory

theorem candidates_remove (d : Directory ι) (f name : WString) :
    (d.remove name).candidates f = (d.candidates f).erase name := Finset.filter_erase _ _ _

theorem candidates_create {f name : WString} (h : f <+: name) (d : Directory ι)
    (owner : Option ι) : (d.create name owner).candidates f = insert name (d.candidates f) := by
  rw [create]
  split
  · rename_i hname
    exact (Finset.insert_eq_of_mem (Finset.mem_filter.2 ⟨hname, h⟩)).symm
  · exact (Finset.filter_insert ..).trans (if_pos h)

/-- Other names do not count. -/
theorem candidates_create_of_other {f name : WString} (h : ¬f <+: name) (d : Directory ι)
    (owner : Option ι) : (d.create name owner).candidates f = d.candidates f := by
  rw [create]
  split
  · rfl
  · exact (Finset.filter_insert ..).trans (if_neg h)

theorem mem_names_of_candidates {f name : WString} (h : name ∈ d.candidates f) : name ∈ d.names :=
  (Finset.mem_filter.1 h).1

/-- What there is already is not changed by a new name. -/
theorem item_create_of_mem {n : WString} (h : n ∈ d.names) (name : WString) (owner : Option ι) :
    (d.create name owner).item n = d.item n := by
  rw [create]
  split
  · rfl
  · rename_i hname
    exact Function.update_of_ne (fun heq : n = name => hname (heq ▸ h)) _ _

end Directory

/-- In the destination, the names that are taken for backups of the entry are these, and
    its source directory has been copied to them completely. -/
def Holds (i : ι) (e : BackupEntry) (t : WString) (names : Finset WString) (s : FileSystem ι) :
    Prop :=
  ∃ d, s t = some d ∧ d.candidates e.folderName = names ∧
    ∀ name ∈ names, (d.item name).complete i = true

/-! ## Rotation -/

/-- Rotation leaves one fewer than the backups that are allowed, and those before
    it are at most those allowed. -/
theorem Holds.rotate {x : WString × RotationOutcome} (hm : e.maxCount = m + 1)
    (hnames : names.Pairwise (· < ·)) (hk : k = m ∨ k = m + 1) (hx : x.2.removeAll = .removed)
    (hs : Holds i e t (names.rtake k).toFinset s) (h : rotate e s x = some s') :
    Holds i e t (names.rtake (if x.1 = t then m else k)).toFinset s' := by
  obtain ⟨d, hd, hcandidates, hcomplete⟩ := id hs
  obtain ⟨t', o⟩ := x
  have hcard := card_rtake hnames k
  by_cases ht : t' = t
  · subst ht
    rw [if_pos rfl]
    cases rotationStep_of_rotate h with
    | missing hd' | created hd' =>
      rw [hd] at hd'
      cases hd'
    | kept hd' hlt =>
      obtain rfl := Option.some.inj (hd.symm.trans hd')
      rw [hcandidates, hcard, hm] at hlt
      rcases hk with rfl | rfl
      · exact hs
      · have hall : names.rtake m = names.rtake (m + 1) := by
          rw [rtake_of_length_le (by omega), rtake_of_length_le (by omega)]
        rwa [hall]
    | @removed d' name hd' hge hname =>
      obtain rfl := Option.some.inj (hd.symm.trans hd')
      replace hx : o.removeAll = .removed := hx
      rw [hcandidates] at hge hname
      rw [hcard, hm] at hge
      -- There are as many as are allowed, so the first one is removed.
      obtain rfl : k = m + 1 := by omega
      have herase := erase_isLeast hnames (by omega) hname
      refine ⟨d.remove name, by rw [hx]; exact Function.update_self .., ?_, fun n hn => ?_⟩
      · rw [Directory.candidates_remove, hcandidates, herase]
      · rw [← herase] at hn
        exact hcomplete n (Finset.mem_of_mem_erase hn)
  · rw [if_neg ht]
    exact ⟨d, (rotate_of_ne h (Ne.symm ht)).trans hd, hcandidates, hcomplete⟩

/-- If the destination is among those of the entry, it is rotated at least once. -/
theorem Holds.rotation {xs : List (WString × RotationOutcome)} (hm : e.maxCount = m + 1)
    (hnames : names.Pairwise (· < ·)) (hk : k = m ∨ k = m + 1)
    (hxs : ∀ x ∈ xs, x.2.removeAll = .removed) (hs : Holds i e t (names.rtake k).toFinset s)
    (h : (rotation e).run s xs = some s') :
    Holds i e t (names.rtake (if t ∈ xs.map Prod.fst then m else k)).toFinset s' := by
  induction xs generalizing s k with
  | nil =>
    obtain rfl := Option.some.inj h
    exact hs
  | cons x xs ih =>
    obtain ⟨u, hu, h⟩ := Option.bind_eq_some_iff.1 h
    have hrotate := hs.rotate hm hnames hk (hxs x List.mem_cons_self) hu
    have hxs' : ∀ y ∈ xs, y.2.removeAll = .removed := fun y hy =>
      hxs y (List.mem_cons_of_mem x hy)
    by_cases ht : x.1 = t
    -- Once the destination has been rotated, rotating it again changes nothing.
    · rw [if_pos ht] at hrotate
      have hrest := ih (.inl rfl) hxs' hrotate h
      rw [ite_self] at hrest
      rw [List.map_cons, ht, if_pos List.mem_cons_self]
      exact hrest
    · rw [if_neg ht] at hrotate
      have hmem : t ∈ (x :: xs).map Prod.fst ↔ t ∈ xs.map Prod.fst := by simp [Ne.symm ht]
      rw [if_congr hmem rfl rfl]
      exact ih hk hxs' hrotate h

/-! ## Copying -/

/-- The copying to a destination gets through. -/
structure CopyOutcome.Succeeds (e : BackupEntry) (o : CopyOutcome) : Prop where
  isCancelled : o.isCancelled = false
  createDirectoryError : o.createDirectoryError = false
  files : copyFiles e o.files = .finished
  hash : ¬(e.calculateHash = true ∧ o.hashDiffers = true)

instance (e : BackupEntry) (o : CopyOutcome) : Decidable (o.Succeeds e) :=
  decidable_of_iff (o.isCancelled = false ∧ o.createDirectoryError = false ∧
      copyFiles e o.files = .finished ∧ ¬(e.calculateHash = true ∧ o.hashDiffers = true))
    ⟨fun ⟨h₁, h₂, h₃, h₄⟩ => ⟨h₁, h₂, h₃, h₄⟩, fun ⟨h₁, h₂, h₃, h₄⟩ => ⟨h₁, h₂, h₃, h₄⟩⟩

variable [DecidableEq ι]

@[simp] theorem Directory.candidates_markComplete (d : Directory ι) (f name : WString) :
    (d.markComplete name i).candidates f = d.candidates f := rfl

theorem Directory.item_markComplete_of_ne {n name : WString} (h : n ≠ name) (d : Directory ι) :
    (d.markComplete name i).item n = d.item n := Function.update_of_ne h _ _

theorem Directory.complete_markComplete (d : Directory ι) (name : WString) :
    ((d.markComplete name i).item name).complete i = true := by
  simp [Directory.markComplete]

/-- The new backup is added. -/
theorem Holds.copyTo {S : Finset WString} {name : WString} {xs : List (WString × CopyOutcome)}
    (hname : e.folderName <+: name) (hxs : ∀ x ∈ xs, x.2.Succeeds e) (hs : Holds i e t S s)
    (h : copyTo i e name s xs = some s') :
    Holds i e t (if t ∈ xs.map Prod.fst then insert name S else S) s' := by
  induction xs generalizing s S with
  | nil =>
    obtain rfl := Option.some.inj h
    exact hs
  | cons x xs ih =>
    obtain ⟨t', o⟩ := x
    have hsucceeds : o.Succeeds e := hxs (t', o) List.mem_cons_self
    obtain ⟨hcancelled, herror, hfiles, hhash⟩ := hsucceeds
    replace ih := fun {s S} => ih (S := S) (s := s) fun y hy => hxs y (List.mem_cons_of_mem _ hy)
    cases copyRound_of_copyTo h with
    | stopped hstop _ => simp [hcancelled, herror] at hstop
    | left _ hleft _ => simp [hfiles, hhash] at hleft
    | broken _ _ _ hbroken _ _ => simp [hfiles] at hbroken
    | @finished d' _ _ hd' _ _ h =>
      obtain ⟨d, hd, hcandidates, hcomplete⟩ := hs
      by_cases ht : t' = t
      -- If the destination comes up again later on, the name is there already.
      · subst ht
        obtain rfl := Option.some.inj (hd.symm.trans hd')
        have hrest := ih (S := insert name S) ⟨_, Function.update_self .., by
          rw [Directory.candidates_markComplete, Directory.candidates_create hname, hcandidates],
          fun n hn => ?_⟩ h
        · rw [Finset.insert_idem, ite_self] at hrest
          rw [List.map_cons, if_pos List.mem_cons_self]
          exact hrest
        · by_cases hnew : n = name
          · subst hnew
            exact Directory.complete_markComplete _ _
          · have hold : n ∈ S := Finset.mem_of_mem_insert_of_ne hn hnew
            rw [Directory.item_markComplete_of_ne hnew, Directory.item_create_of_mem]
            · exact hcomplete n hold
            · exact Directory.mem_names_of_candidates (hcandidates ▸ hold)
      · have hmem : t ∈ ((t', o) :: xs).map Prod.fst ↔ t ∈ xs.map Prod.fst := by
          simp [Ne.symm ht]
        rw [if_congr hmem rfl rfl]
        exact ih ⟨d, (Function.update_of_ne (Ne.symm ht) _ _).trans hd, hcandidates, hcomplete⟩ h

/-! ## Backups -/

/-- The backup gets through. -/
structure Call.Succeeds (e : BackupEntry) (c : Call) : Prop where
  isValid : c.isValid = true
  rotation : ∀ o ∈ c.rotation, o.createDirectoryError = false ∧ o.removeAll = .removed
  copies : ∀ o ∈ c.copies, o.Succeeds e

instance (e : BackupEntry) (c : Call) : Decidable (c.Succeeds e) :=
  decidable_of_iff (c.isValid = true ∧
      (∀ o ∈ c.rotation, o.createDirectoryError = false ∧ o.removeAll = .removed) ∧
      ∀ o ∈ c.copies, o.Succeeds e)
    ⟨fun ⟨h₁, h₂, h₃⟩ => ⟨h₁, h₂, h₃⟩, fun ⟨h₁, h₂, h₃⟩ => ⟨h₁, h₂, h₃⟩⟩

/-- A backup of the entry adds its name, and leaves the most recent of the others. -/
theorem Holds.doBackup {c : Call} (hm : e.maxCount = m + 1) (ht : t ∈ e.to_)
    (hnames : names.Pairwise (· < ·)) (hc : c.Succeeds e)
    (hrotation : c.rotation.length = e.to_.length) (hcopies : c.copies.length = e.to_.length)
    (hs : Holds i e t (names.rtake (m + 1)).toFinset s) (h : doBackup i e s c = some s') :
    Holds i e t ((names ++ [e.folderName ++ c.datetime]).rtake (m + 1)).toFinset s' := by
  rw [QustomKeyboard.doBackup, hc.isValid] at h
  obtain ⟨u, hu, h⟩ := Option.bind_eq_some_iff.1 h
  have hrotate := hs.rotation hm hnames (.inr rfl)
    (fun x hx => (hc.rotation x.2 (List.of_mem_zip hx).2).2) hu
  rw [List.map_fst_zip hrotation.ge, if_pos ht] at hrotate
  have hcopy := hrotate.copyTo (List.prefix_append e.folderName c.datetime)
    (fun x hx => hc.copies x.2 (List.of_mem_zip hx).2) h
  rw [List.map_fst_zip hcopies.ge, if_pos ht] at hcopy
  rw [List.rtake_concat_succ, List.toFinset_append, Finset.union_comm]
  exact hcopy

end QustomKeyboard

import QustomKeyboard.Backup.Rotation

/-!
# Backups that fail

Rotation comes before copying, and it takes everything for a backup, complete or
not. So if a backup is cancelled or fails, the destination may be left without any
complete backup of the entry: rotation may have removed the last one, right away
if only one backup is allowed, or after as many failures as backups are allowed.

A destination keeps a complete backup along a sequence of backups iff each of these
is completed in the destination, or leaves a complete backup there in its rotation
(`holdsComplete_iff`).
-/

namespace QustomKeyboard

open Theory

variable {ι : Type*} {i : ι} {e : BackupEntry} {s s' : FileSystem ι} {t : WString}
  {d : Directory ι} {o : RotationOutcome}

/-- The directory holds a complete backup of the entry. -/
def Directory.HoldsComplete (i : ι) (d : Directory ι) : Prop :=
  ∃ name ∈ d.names, (d.item name).complete i = true

/-- The destination holds a complete backup of the entry. -/
def HoldsComplete (i : ι) (t : WString) (s : FileSystem ι) : Prop :=
  ∃ d, s t = some d ∧ d.HoldsComplete i

instance (i : ι) : DecidablePred (Directory.HoldsComplete i) := fun d =>
  inferInstanceAs (Decidable (∃ name ∈ d.names, (d.item name).complete i = true))

instance (i : ι) (t : WString) : DecidablePred (HoldsComplete i t) := fun s =>
  decidable_of_iff (∃ d ∈ s t, d.HoldsComplete i) Iff.rfl

theorem holdsComplete_iff_of_some (hd : s t = some d) :
    HoldsComplete i t s ↔ d.HoldsComplete i := by
  refine ⟨fun ⟨d', hd', h⟩ => ?_, fun h => ⟨d, hd, h⟩⟩
  rwa [Option.some.inj (hd.symm.trans hd')]

/-- Only what happens in the destination matters. -/
theorem holdsComplete_congr (h : s' t = s t) : HoldsComplete i t s' ↔ HoldsComplete i t s := by
  rw [HoldsComplete, HoldsComplete, h]

/-! ## Rotation -/

/-- When the rotation gets to the destination, there are few enough names, or there is
    a complete backup of the entry other than the first one of the names (or any one if
    `remove_all` does not remove anything). -/
def SparesComplete (i : ι) (e : BackupEntry) (t : WString) (s : FileSystem ι)
    (x : WString × RotationOutcome) : Prop :=
  x.1 = t → ∀ d, s t = some d → (d.candidates e.folderName).card < e.maxCount ∨
    ∃ name ∈ d.names, (d.item name).complete i = true ∧ (x.2.removeAll = .notRemoved ∨
      (name ∈ d.candidates e.folderName → ∃ m ∈ d.candidates e.folderName, m < name))

instance (i : ι) (e : BackupEntry) (t : WString) :
    ∀ (s : FileSystem ι) x, Decidable (SparesComplete i e t s x) := fun s x =>
  decidable_of_iff (x.1 = t → ∀ d ∈ s t, (d.candidates e.folderName).card < e.maxCount ∨
    ∃ name ∈ d.names, (d.item name).complete i = true ∧ (x.2.removeAll = .notRemoved ∨
      (name ∈ d.candidates e.folderName → ∃ m ∈ d.candidates e.folderName, m < name))) Iff.rfl

/-- What is left when one of the names is removed. -/
theorem holdsComplete_apply_iff (name : WString) (r : RemoveAll) :
    (r.apply d name).HoldsComplete i ↔
      ∃ n ∈ d.names, (d.item n).complete i = true ∧ (r = .notRemoved ∨ n ≠ name) := by
  refine exists_congr fun n => ?_
  cases r with
  | removed =>
    simp only [RemoveAll.apply, Directory.remove, Finset.mem_erase, reduceCtorEq, false_or]
    tauto
  | partlyRemoved =>
    simp only [RemoveAll.apply, Directory.damage, reduceCtorEq, false_or]
    refine and_congr_right fun _ => ?_
    by_cases hn : n = name
    · subst hn
      simp
    · simp [hn]
  | notRemoved => simp [RemoveAll.apply]

/-- The first name is the one without a name before it. -/
theorem ne_isLeast_iff {S : Finset WString} {name n : WString}
    (h : IsLeast (S : Set WString) name) : n ≠ name ↔ (n ∈ S → ∃ m ∈ S, m < n) := by
  constructor
  · exact fun hne hn => ⟨name, h.1, lt_of_le_of_ne (h.2 hn) hne.symm⟩
  · rintro hn rfl
    obtain ⟨m, hm, hlt⟩ := hn h.1
    exact hlt.not_ge (h.2 hm)

/-- The rotation in one destination leaves a complete backup iff it spares one. -/
theorem holdsComplete_rotate_iff {x : WString × RotationOutcome} (hs : HoldsComplete i t s)
    (h : rotate e s x = some s') : HoldsComplete i t s' ↔ SparesComplete i e t s x := by
  obtain ⟨d, hd, -⟩ := id hs
  obtain ⟨t', o⟩ := x
  have hspares : SparesComplete i e t s (t', o) ↔ (t' = t →
      (d.candidates e.folderName).card < e.maxCount ∨
        ∃ name ∈ d.names, (d.item name).complete i = true ∧ (o.removeAll = .notRemoved ∨
          (name ∈ d.candidates e.folderName → ∃ m ∈ d.candidates e.folderName, m < name))) :=
    forall_congr' fun _ =>
      ⟨fun h => h d hd, fun h d' hd' => Option.some.inj (hd.symm.trans hd') ▸ h⟩
  rw [hspares]
  by_cases ht : t' = t
  · subst ht
    rw [imp_iff_right rfl]
    cases rotationStep_of_rotate h with
    | missing hd' | created hd' =>
      rw [hd] at hd'
      cases hd'
    | kept hd' hlt =>
      obtain rfl := Option.some.inj (hd.symm.trans hd')
      exact iff_of_true hs (.inl hlt)
    | @removed d' name hd' hge hname =>
      -- What is complete after the removal is what is not the least name.
      obtain rfl := Option.some.inj (hd.symm.trans hd')
      rw [or_iff_right hge.not_gt, holdsComplete_iff_of_some (Function.update_self ..),
        holdsComplete_apply_iff]
      simp only [ne_isLeast_iff hname]
  · have hsame := rotate_of_ne h (Ne.symm ht)
    exact iff_of_true ((holdsComplete_congr hsame).2 hs) fun h => absurd h ht

/-- Rotation does not bring a complete backup back. -/
theorem HoldsComplete.of_rotate {x : WString × RotationOutcome} (h : rotate e s x = some s')
    (hs' : HoldsComplete i t s') : HoldsComplete i t s := by
  obtain ⟨t', o⟩ := x
  by_cases ht : t' = t
  · subst ht
    cases rotationStep_of_rotate h with
    | missing _ _ | kept _ _ => exact hs'
    | created hd _ =>
      rw [holdsComplete_iff_of_some (Function.update_self ..)] at hs'
      obtain ⟨name, hname, -⟩ := hs'
      exact absurd hname (Finset.notMem_empty name)
    | @removed d name hd hge hname =>
      rw [holdsComplete_iff_of_some (Function.update_self ..), holdsComplete_apply_iff] at hs'
      obtain ⟨n, hn, hcomplete, -⟩ := hs'
      exact ⟨d, hd, n, hn, hcomplete⟩
  · exact (holdsComplete_congr (rotate_of_ne h (Ne.symm ht))).1 hs'

/-! ## Copying -/

/-- The backup is completed in the destination: the loop over the destinations gets to
    it, and copies everything, and no hash differs. -/
def Completes (e : BackupEntry) (t : WString) : List (WString × CopyOutcome) → Prop
  | [] => False
  | (t', o) :: rest =>
    o.isCancelled = false ∧ o.createDirectoryError = false ∧ copyFiles e o.files ≠ .left ∧
      ¬(e.calculateHash = true ∧ o.hashDiffers = true) ∧
        (t' = t ∧ copyFiles e o.files = .finished ∨ Completes e t rest)

instance decidableCompletes (e : BackupEntry) (t : WString) : DecidablePred (Completes e t)
  | [] => .isFalse id
  | (_, _) :: rest =>
    haveI : Decidable (Completes e t rest) := decidableCompletes e t rest
    inferInstanceAs (Decidable (_ ∧ _ ∧ _ ∧ _ ∧ (_ ∧ _ ∨ _)))

/-- A new directory is no complete backup yet. -/
theorem holdsComplete_create (name : WString) (owner : Option ι) :
    (d.create name owner).HoldsComplete i ↔ d.HoldsComplete i := by
  rw [Directory.create]
  split
  · rfl
  · rename_i hname
    refine exists_congr fun n => ?_
    by_cases hn : n = name
    · subst hn
      simp [hname]
    · simp [hn]

theorem holdsComplete_update_create {t' : WString} (hd : s t' = some d) (name : WString)
    (owner : Option ι) :
    HoldsComplete i t (Function.update s t' (some (d.create name owner))) ↔
      HoldsComplete i t s := by
  by_cases ht : t = t'
  · subst ht
    rw [holdsComplete_iff_of_some (Function.update_self ..), holdsComplete_create,
      holdsComplete_iff_of_some hd]
  · exact holdsComplete_congr (Function.update_of_ne ht _ _)

theorem mem_names_create (d : Directory ι) (name : WString) (owner : Option ι) :
    name ∈ (d.create name owner).names := by
  rw [Directory.create]
  split
  · assumption
  · exact Finset.mem_insert_self name _

variable [DecidableEq ι]

theorem holdsComplete_markComplete {name : WString} (hname : name ∈ d.names) :
    (d.markComplete name i).HoldsComplete i :=
  ⟨name, hname, by simp [Directory.markComplete]⟩

theorem holdsComplete_update_markComplete {t' : WString} (hd : s t' = some d) (name : WString)
    (owner : Option ι) :
    HoldsComplete i t (Function.update s t' (some ((d.create name owner).markComplete name i))) ↔
      HoldsComplete i t s ∨ t' = t := by
  by_cases ht : t = t'
  · subst ht
    refine iff_of_true ?_ (.inr rfl)
    rw [holdsComplete_iff_of_some (Function.update_self ..)]
    exact holdsComplete_markComplete (mem_names_create d name owner)
  · rw [or_iff_left (Ne.symm ht)]
    exact holdsComplete_congr (Function.update_of_ne ht _ _)

/-- Copying leaves the complete backups there are, and adds one iff it is completed. -/
theorem holdsComplete_copyTo {name : WString} {outcomes : List (WString × CopyOutcome)}
    (h : copyTo i e name s outcomes = some s') :
    HoldsComplete i t s' ↔ HoldsComplete i t s ∨ Completes e t outcomes := by
  induction outcomes generalizing s with
  | nil =>
    obtain rfl := Option.some.inj h
    exact (or_iff_left id).symm
  | cons x rest ih =>
    obtain ⟨t', o⟩ := x
    rw [Completes]
    cases copyRound_of_copyTo h with
    -- An exit before everything is copied leaves a directory that is not complete.
    | stopped hstop hs =>
      subst hs
      refine (or_iff_left fun ⟨hcancelled, herror, _⟩ => ?_).symm
      simp [hcancelled, herror] at hstop
    | left hd hleft hs =>
      subst hs
      rw [holdsComplete_update_create hd]
      exact (or_iff_left fun ⟨_, _, hexit, hhash, _⟩ => hleft.elim hexit hhash).symm
    | broken hcancelled herror hd hbroken hhash h =>
      rw [ih h, holdsComplete_update_create hd]
      simp [hcancelled, herror, hbroken, hhash]
    | finished hcancelled herror hd hfinished hhash h =>
      rw [ih h, holdsComplete_update_markComplete hd, or_assoc]
      simp [hcancelled, herror, hfinished, hhash]

/-! ## Backups -/

/-- The backup is completed in the destination, or its rotation leaves a complete
    backup of the entry there, or the entry is not valid, and nothing happens. -/
def FailsSafely (i : ι) (e : BackupEntry) (t : WString) (s : FileSystem ι) (c : Call) : Prop :=
  c.isValid = true → Completes e t (e.to_.zip c.copies) ∨
    (rotation e).Meets (SparesComplete i e t) s (e.to_.zip c.rotation)

instance (i : ι) (e : BackupEntry) (t : WString) (s : FileSystem ι) (c : Call) :
    Decidable (FailsSafely i e t s c) :=
  inferInstanceAs (Decidable (_ → _ ∨ _))

omit [DecidableEq ι] in
theorem holdsComplete_backupRotation {outcomes : List RotationOutcome}
    (hs : HoldsComplete i t s) (h : backupRotation e s outcomes = some s') :
    HoldsComplete i t s' ↔ (rotation e).Meets (SparesComplete i e t) s (e.to_.zip outcomes) := by
  rw [← Machine.always_iff_last (P := HoldsComplete i t) (fun hst => .of_rotate hst) h]
  exact Machine.always_iff_meets (I := fun _ => True) (fun _ _ => trivial)
    (fun _ hs hst => holdsComplete_rotate_iff hs hst) trivial hs h

/-- A backup leaves the destination with a complete backup iff it does not fail, or
    fails safely. -/
theorem holdsComplete_doBackup {c : Call} (hs : HoldsComplete i t s)
    (h : doBackup i e s c = some s') : HoldsComplete i t s' ↔ FailsSafely i e t s c := by
  rw [doBackup] at h
  split at h
  · rename_i hvalid
    rw [Bool.not_eq_true'] at hvalid
    obtain rfl := Option.some.inj h
    exact iff_of_true hs fun hvalid' => by simp [hvalid] at hvalid'
  · rename_i hvalid
    rw [Bool.not_eq_true', Bool.not_eq_false] at hvalid
    obtain ⟨u, hu, h⟩ := Option.bind_eq_some_iff.1 h
    rw [FailsSafely, imp_iff_right hvalid, holdsComplete_copyTo h,
      holdsComplete_backupRotation hs hu, or_comm]

/-- A destination that holds a complete backup of an entry holds one after each backup
    of the entry iff each of these fails safely, if it fails. -/
theorem holdsComplete_iff {cs : List Call} (hs : HoldsComplete i t s)
    (hrun : (entryBackup i e s).run s cs = some s') :
    (entryBackup i e s).Always (HoldsComplete i t) s cs ↔
      (entryBackup i e s).Meets (FailsSafely i e t) s cs := by
  refine Machine.always_iff_meets (I := fun _ => True) (fun _ _ => trivial)
    (fun {s u c} _ hs hst => ?_) trivial hs hrun
  obtain ⟨-, hst⟩ := Option.ite_none_right_eq_some.1 hst
  exact holdsComplete_doBackup hs hst

/-- An entry with one backup in one destination. -/
def oneBackupEntry : BackupEntry := ⟨"C:/src".toList, ["D:/b".toList], [], 1, false⟩

/-- The destination, with a complete backup. -/
def oneBackup (t : WString) : Option (Directory Unit) :=
  if t = "D:/b".toList then
    some ((Directory.empty.create "src_2024_01_01 00_00_00".toList (some ())).markComplete
      "src_2024_01_01 00_00_00".toList ())
  else none

/-- The backup is replaced by the next one. -/
theorem holdsComplete_iff_replaced :
    (entryBackup () oneBackupEntry oneBackup).Always
      (HoldsComplete () "D:/b".toList) oneBackup
      [⟨true, false, [⟨false, .removed⟩], "_2024_01_01 00_00_01".toList,
        [⟨false, false, [⟨"f".toList, false, none⟩], false⟩]⟩] := by
  have hrun : ((entryBackup () oneBackupEntry oneBackup).run
      oneBackup [⟨true, false, [⟨false, .removed⟩], "_2024_01_01 00_00_01".toList,
        [⟨false, false, [⟨"f".toList, false, none⟩], false⟩]⟩]).isSome = true := by
    decide +kernel
  obtain ⟨s', hs'⟩ := Option.isSome_iff_exists.1 hrun
  exact (holdsComplete_iff (by decide +kernel) hs').2 (by decide +kernel)

/-- The backup is removed by the next one, which is cancelled. -/
theorem cancelled_destroys :
    ¬∀ (e : BackupEntry) (t : WString) (s s' : FileSystem Unit) (cs : List Call),
      0 < e.maxBackups.toInt → HoldsComplete () t s → (entryBackup () e s).run s cs = some s' →
        (entryBackup () e s).Always (HoldsComplete () t) s cs := by
  intro h
  have hrun : ((entryBackup () oneBackupEntry oneBackup).run
      oneBackup [⟨true, false, [⟨false, .removed⟩], "_2024_01_01 00_00_01".toList,
        [⟨true, false, [], false⟩]⟩]).isSome = true := by
    decide +kernel
  obtain ⟨s', hs'⟩ := Option.isSome_iff_exists.1 hrun
  exact absurd (h _ "D:/b".toList _ _ _ (by decide) (by decide +kernel) hs') (by decide +kernel)

end QustomKeyboard

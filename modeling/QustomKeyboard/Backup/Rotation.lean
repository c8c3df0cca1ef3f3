import Mathlib.Order.Bounds.Basic
import QustomKeyboard.Backup.DirectoryBackup
import QustomKeyboard.Theory.Lexicographic

/-!
# What rotation removes

The paths in one destination are sorted as their names are (`childPath_lt_iff`). So
rotation removes the least name that starts with the name of the source directory
(`rotate_of_isLeast`), be it a backup of the entry, that of an entry whose source
directory has a longer name, or something else.

It only removes backups of its own entry iff one of them is before all the other
names that are taken for backups (`rotatesOwn_iff`).
-/

namespace QustomKeyboard

open Theory

theorem childPath_eq (t name : WString) : childPath t name = childPath t [] ++ name := by
  rw [childPath, childPath]
  split <;> simp

@[simp] theorem nameIn_childPath (t name : WString) : nameIn t (childPath t name) = name := by
  rw [nameIn, childPath_eq t name, List.drop_left]

theorem childPath_lt_iff {t a b : WString} : childPath t a < childPath t b ↔ a < b := by
  rw [childPath_eq t a, childPath_eq t b, append_left_lt_iff]

theorem childPath_injective (t : WString) : Function.Injective (childPath t) :=
  Function.LeftInverse.injective (nameIn_childPath t)

variable {ι : Type*} {e : BackupEntry} {s : FileSystem ι} {t : WString} {d : Directory ι}
  {o : RotationOutcome}

/-! ## The steps -/

theorem card_image_childPath (S : Finset WString) : (S.image (childPath t)).card = S.card :=
  Finset.card_image_of_injective S (childPath_injective t)

/-- The first path is that of the least name. -/
theorem min_image_childPath {S : Finset WString} {name : WString}
    (h : IsLeast (S : Set WString) name) : (S.image (childPath t)).min = childPath t name := by
  refine le_antisymm (Finset.min_le (Finset.mem_image_of_mem _ h.1)) ?_
  refine Finset.le_min fun path hpath => WithTop.coe_le_coe.2 (le_of_not_gt fun hlt => ?_)
  obtain ⟨m, hm, rfl⟩ := Finset.mem_image.1 hpath
  exact (h.2 hm).not_gt (childPath_lt_iff.1 hlt)

theorem rotate_of_missing (hd : s t = none) :
    rotate e s (t, o) =
      some (if o.createDirectoryError then s else Function.update s t (some .empty)) := by
  rw [rotate, hd]

/-- With few enough names, nothing is removed. -/
theorem rotate_of_lt (hd : s t = some d) (h : (d.candidates e.folderName).card < e.maxCount) :
    rotate e s (t, o) = some s := by
  simp only [rotate, hd]
  rw [card_image_childPath, if_neg h.not_ge]

/-- With too many, the least one is removed. -/
theorem rotate_of_isLeast {name : WString} (hd : s t = some d)
    (h : e.maxCount ≤ (d.candidates e.folderName).card)
    (hname : IsLeast (d.candidates e.folderName : Set WString) name) :
    rotate e s (t, o) = some (Function.update s t (some (o.removeAll.apply d name))) := by
  simp only [rotate, hd]
  rw [card_image_childPath, if_pos h, min_image_childPath hname]
  simp

/-- There is no least one if none are allowed, and there are none. -/
theorem rotate_of_empty (hd : s t = some d) (h : e.maxCount = 0)
    (hempty : d.candidates e.folderName = ∅) : rotate e s (t, o) = none := by
  simp [rotate, hd, h, hempty]

theorem exists_isLeast {S : Finset WString} (h : S.Nonempty) :
    ∃ name, IsLeast (S : Set WString) name :=
  ⟨S.min' h, S.isLeast_min' h⟩

/-- There are few enough names, or there is none to remove, or a first one. -/
theorem candidates_cases (e : BackupEntry) (d : Directory ι) :
    (d.candidates e.folderName).card < e.maxCount ∨
      e.maxCount = 0 ∧ d.candidates e.folderName = ∅ ∨
      e.maxCount ≤ (d.candidates e.folderName).card ∧
        ∃ name, IsLeast (d.candidates e.folderName : Set WString) name := by
  rcases lt_or_ge (d.candidates e.folderName).card e.maxCount with hlt | hge
  · exact .inl hlt
  rcases (d.candidates e.folderName).eq_empty_or_nonempty with hempty | hne
  · exact .inr (.inl ⟨by simpa [hempty] using hge, hempty⟩)
  · exact .inr (.inr ⟨hge, exists_isLeast hne⟩)

/-- The steps of the rotation, spelled out. -/
inductive RotationStep (e : BackupEntry) (s : FileSystem ι) (t : WString) (o : RotationOutcome) :
    FileSystem ι → Prop
  | missing : s t = none → o.createDirectoryError = true → RotationStep e s t o s
  | created : s t = none → o.createDirectoryError = false →
      RotationStep e s t o (Function.update s t (some .empty))
  | kept {d : Directory ι} : s t = some d → (d.candidates e.folderName).card < e.maxCount →
      RotationStep e s t o s
  | removed {d : Directory ι} {name : WString} : s t = some d →
      e.maxCount ≤ (d.candidates e.folderName).card →
      IsLeast (d.candidates e.folderName : Set WString) name →
      RotationStep e s t o (Function.update s t (some (o.removeAll.apply d name)))

theorem rotationStep_of_rotate {s' : FileSystem ι} (h : rotate e s (t, o) = some s') :
    RotationStep e s t o s' := by
  cases hd : s t with
  | none =>
    rw [rotate_of_missing hd] at h
    obtain rfl := Option.some.inj h
    cases ho : o.createDirectoryError with
    | true => exact .missing hd ho
    | false => exact .created hd ho
  | some d =>
    rcases candidates_cases e d with hlt | ⟨hzero, hempty⟩ | ⟨hge, name, hname⟩
    · rw [rotate_of_lt hd hlt] at h
      exact Option.some.inj h ▸ .kept hd hlt
    · rw [rotate_of_empty hd hzero hempty] at h
      cases h
    · rw [rotate_of_isLeast hd hge hname] at h
      exact Option.some.inj h ▸ .removed hd hge hname

/-- The other destinations are left as they are. -/
theorem rotate_of_ne {x : WString × RotationOutcome} {s' : FileSystem ι}
    (h : rotate e s x = some s') (ht : t ≠ x.1) : s' t = s t := by
  cases rotationStep_of_rotate h with
  | missing _ _ | kept _ _ => rfl
  | created _ _ | removed _ _ _ => exact Function.update_of_ne ht _ _

/-- If some backups are allowed, rotation always gets through. -/
theorem rotate_isSome (h : 0 < e.maxCount) : ∃ s', rotate e s (t, o) = some s' := by
  cases hd : s t with
  | none => exact ⟨_, rotate_of_missing hd⟩
  | some d =>
    rcases lt_or_ge (d.candidates e.folderName).card e.maxCount with hlt | hge
    · exact ⟨s, rotate_of_lt hd hlt⟩
    · obtain ⟨name, hname⟩ := exists_isLeast (Finset.card_pos.1 (h.trans_le hge))
      exact ⟨_, rotate_of_isLeast hd hge hname⟩

theorem backupRotation_isSome (h : 0 < e.maxCount) (s : FileSystem ι)
    (outcomes : List RotationOutcome) : ∃ s', backupRotation e s outcomes = some s' :=
  Machine.run_of_total (fun _ _ => rotate_isSome h) s _

theorem maxCount_of_pos (h : 0 < e.maxBackups.toInt) :
    (e.maxCount : ℤ) = e.maxBackups.toInt := by
  have hlt := e.maxBackups.toInt_lt
  rw [BackupEntry.maxCount, Int.emod_eq_of_lt h.le (by omega), Int.toNat_of_nonneg h.le]

/-! ## What is removed -/

/-- In the destination, the rotation removes nothing, or one directory that has been
    created by a backup of the entry, whatever comes of this. -/
def RemovesOwn (i : ι) (e : BackupEntry) (s : FileSystem ι) (x : WString × RotationOutcome) :
    Prop :=
  ∀ o, ∃ s', rotate e s (x.1, o) = some s' ∧ (∀ t, t ≠ x.1 → s' t = s t) ∧
    ∀ d, s x.1 = some d → s' x.1 = some d ∨
      ∃ name ∈ d.names, (d.item name).owner = some i ∧ s' x.1 = some (o.removeAll.apply d name)

/-- There are few enough names, or a backup of the entry comes before all the names
    that are taken for backups and are none. -/
def OwnFirst (i : ι) (e : BackupEntry) (s : FileSystem ι) (x : WString × RotationOutcome) :
    Prop :=
  ∀ d, s x.1 = some d → (d.candidates e.folderName).card < e.maxCount ∨
    ∃ name ∈ d.candidates e.folderName, (d.item name).owner = some i ∧
      ∀ m ∈ d.candidates e.folderName, (d.item m).owner ≠ some i → name < m

theorem mem_names_of_isLeast {f name : WString} (h : IsLeast (d.candidates f : Set WString) name) :
    name ∈ d.names := (Finset.mem_filter.1 h.1).1

/-- Removing the first one is all right iff it belongs to the entry. -/
theorem removesOwn_iff_owner {i : ι} {first : WString} (hd : s t = some d)
    (hge : e.maxCount ≤ (d.candidates e.folderName).card)
    (hfirst : IsLeast (d.candidates e.folderName : Set WString) first) :
    RemovesOwn i e s (t, o) ↔ (d.item first).owner = some i := by
  have hmem := mem_names_of_isLeast hfirst
  constructor
  · intro h
    obtain ⟨s', hs', -, hremoved⟩ := h ⟨false, .removed⟩
    obtain rfl := Option.some.inj ((rotate_of_isLeast hd hge hfirst).symm.trans hs')
    replace hremoved := hremoved d hd
    rw [Function.update_self, Option.some.injEq] at hremoved
    rcases hremoved with hsame | ⟨name, hname, howner, hsame⟩
    · have hnames : d.names.erase first = d.names := congrArg Directory.names hsame
      have hnot : first ∉ d.names.erase first := Finset.notMem_erase first d.names
      rw [hnames] at hnot
      exact absurd hmem hnot
    · have hnames : d.names.erase first = d.names.erase name :=
        congrArg Directory.names (Option.some.inj hsame)
      rwa [Finset.erase_injOn d.names hmem hname hnames]
  · intro howner o
    refine ⟨_, rotate_of_isLeast hd hge hfirst, fun t' ht' => Function.update_of_ne ht' _ _,
      fun d' hd' => .inr ⟨first, ?_⟩⟩
    obtain rfl := Option.some.inj (hd.symm.trans hd')
    exact ⟨hmem, howner, Function.update_self ..⟩

/-- The first one belongs to the entry iff something of it comes before all the others. -/
theorem owner_iff_before {i : ι} {f first : WString}
    (hfirst : IsLeast (d.candidates f : Set WString) first) :
    (d.item first).owner = some i ↔ ∃ name ∈ d.candidates f, (d.item name).owner = some i ∧
      ∀ m ∈ d.candidates f, (d.item m).owner ≠ some i → name < m := by
  constructor
  · intro howner
    refine ⟨first, hfirst.1, howner, fun m hm hforeign => lt_of_le_of_ne (hfirst.2 hm) ?_⟩
    exact fun hfm => hforeign (hfm ▸ howner)
  · rintro ⟨name, hname, -, hbefore⟩
    by_contra hforeign
    exact (hbefore first hfirst.1 hforeign).not_ge (hfirst.2 hname)

theorem removesOwn_iff_ownFirst {i : ι} {x : WString × RotationOutcome} :
    RemovesOwn i e s x ↔ OwnFirst i e s x := by
  obtain ⟨t, o⟩ := x
  cases hd : s t with
  | none =>
    have hnone : ∀ d, s t ≠ some d := fun d hd' => by
      rw [hd] at hd'
      cases hd'
    refine iff_of_true (fun o => ⟨_, rotate_of_missing hd, fun t' ht' => ?_, fun d hd' => ?_⟩)
      fun d hd' => absurd hd' (hnone d)
    · split
      · rfl
      · exact Function.update_of_ne ht' _ _
    · exact absurd hd' (hnone d)
  | some d =>
    have hown : OwnFirst i e s (t, o) ↔ (d.candidates e.folderName).card < e.maxCount ∨
        ∃ name ∈ d.candidates e.folderName, (d.item name).owner = some i ∧
          ∀ m ∈ d.candidates e.folderName, (d.item m).owner ≠ some i → name < m :=
      ⟨fun h => h d hd, fun h d' hd' => Option.some.inj (hd.symm.trans hd') ▸ h⟩
    rw [hown]
    rcases candidates_cases e d with hlt | ⟨hzero, hempty⟩ | ⟨hge, first, hfirst⟩
    · refine iff_of_true (fun o => ⟨s, rotate_of_lt hd hlt, fun _ _ => rfl, fun d' hd' => ?_⟩)
        (.inl hlt)
      exact .inl hd'
    · -- None are allowed and there are none: the rotation does not get through.
      refine iff_of_false (fun h => ?_) ?_
      · obtain ⟨s', hs', -⟩ := h o
        rw [rotate_of_empty hd hzero hempty] at hs'
        cases hs'
      · rintro (hlt | ⟨name, hname, -⟩)
        · exact absurd (hzero ▸ hlt) (Nat.not_lt_zero _)
        · exact absurd (hempty ▸ hname) (Finset.notMem_empty name)
    · rw [or_iff_right hge.not_gt, removesOwn_iff_owner hd hge hfirst, owner_iff_before hfirst]

/-! ## Runs -/

variable {entries : ι → BackupEntry}

/-- The rotation of a backup removes nothing in its destinations but what backups of
    its entry have created, and at most one directory in each. -/
def RotatesOwn (entries : ι → BackupEntry) (s : FileSystem ι) : BackupEvent ι → Prop
  | .doBackup i c => c.isValid = true → (rotation (entries i)).Meets (RemovesOwn i (entries i)) s
    ((entries i).to_.zip c.rotation)
  | _ => True

/-- When the rotation of a backup gets to a destination, there are few enough names,
    or the backups of the entry come first. -/
def FindsOwnFirst (entries : ι → BackupEntry) (s : FileSystem ι) : BackupEvent ι → Prop
  | .doBackup i c => c.isValid = true → (rotation (entries i)).Meets (OwnFirst i (entries i)) s
    ((entries i).to_.zip c.rotation)
  | _ => True

instance [DecidableEq ι] (i : ι) (e : BackupEntry) :
    ∀ (s : FileSystem ι) (x : WString × RotationOutcome), Decidable (OwnFirst i e s x) := fun s x =>
  decidable_of_iff (∀ d ∈ s x.1, (d.candidates e.folderName).card < e.maxCount ∨
    ∃ name ∈ d.candidates e.folderName, (d.item name).owner = some i ∧
      ∀ m ∈ d.candidates e.folderName, (d.item m).owner ≠ some i → name < m) Iff.rfl

instance [DecidableEq ι] (s : FileSystem ι) : ∀ b, Decidable (FindsOwnFirst entries s b)
  | .doBackup i c => inferInstanceAs (Decidable (c.isValid = true → (rotation (entries i)).Meets
    (OwnFirst i (entries i)) s ((entries i).to_.zip c.rotation)))
  | .create _ _ | .remove _ _ => .isTrue trivial

theorem rotatesOwn_iff_findsOwnFirst {b : BackupEvent ι} :
    RotatesOwn entries s b ↔ FindsOwnFirst entries s b := by
  cases b with
  | doBackup i c =>
    exact forall_congr' fun _ => Machine.meets_congr_of_iff removesOwn_iff_ownFirst s _
  | create t name | remove t name => exact Iff.rfl

variable [DecidableEq ι]

/-- In any run, the rotations only remove backups of their own entries iff they find
    these first. -/
theorem rotatesOwn_iff (s : FileSystem ι) (es : List (BackupEvent ι)) :
    (directoryBackup entries s).Meets (RotatesOwn entries) s es ↔
      (directoryBackup entries s).Meets (FindsOwnFirst entries) s es :=
  Machine.meets_congr_of_iff rotatesOwn_iff_findsOwnFirst s es

/-! ## Names of the backups -/

/-- What the backups of an entry have created is named after its source directory. -/
def Directory.Named (entries : ι → BackupEntry) (d : Directory ι) : Prop :=
  ∀ name ∈ d.names, ∀ i, (d.item name).owner = some i → (entries i).folderName <+: name

/-- This is so in all destinations. -/
def Named (entries : ι → BackupEntry) (s : FileSystem ι) : Prop :=
  ∀ t d, s t = some d → d.Named entries

namespace Directory.Named

omit [DecidableEq ι] in
theorem create (hd : d.Named entries) {name : WString} {owner : Option ι}
    (h : ∀ i, owner = some i → (entries i).folderName <+: name) :
    (d.create name owner).Named entries := by
  rw [Directory.create]
  split
  · exact hd
  · intro n hn i howner
    by_cases hname : n = name
    · subst hname
      exact h i (by simpa using howner)
    · exact hd n (Finset.mem_of_mem_insert_of_ne hn hname) i (by simpa [hname] using howner)

omit [DecidableEq ι] in
theorem apply (hd : d.Named entries) (name : WString) (r : RemoveAll) :
    (r.apply d name).Named entries := by
  cases r with
  | removed => exact fun n hn => hd n (Finset.mem_of_mem_erase hn)
  | partlyRemoved =>
    intro n hn i howner
    refine hd n hn i ?_
    by_cases hname : n = name
    · subst hname
      simpa [RemoveAll.apply, Directory.damage] using howner
    · simpa [RemoveAll.apply, Directory.damage, hname] using howner
  | notRemoved => exact hd

theorem markComplete (hd : d.Named entries) (name : WString) (i : ι) :
    (d.markComplete name i).Named entries := by
  intro n hn j howner
  refine hd n hn j ?_
  by_cases hname : n = name
  · subst hname
    simpa [Directory.markComplete] using howner
  · simpa [Directory.markComplete, hname] using howner

end Directory.Named

namespace Named

omit [DecidableEq ι] in
theorem update (hs : Named entries s) (hd : d.Named entries) (t : WString) :
    Named entries (Function.update s t (some d)) := by
  intro t' d' hd'
  by_cases ht : t' = t
  · subst ht
    rw [Function.update_self] at hd'
    exact Option.some.inj hd' ▸ hd
  · rw [Function.update_of_ne ht] at hd'
    exact hs t' d' hd'

omit [DecidableEq ι] in
theorem rotate {x : WString × RotationOutcome} {s' : FileSystem ι} (hs : Named entries s)
    (h : rotate e s x = some s') : Named entries s' := by
  cases rotationStep_of_rotate h with
  | missing _ _ | kept _ _ => exact hs
  | created _ _ => exact hs.update (fun n hn => absurd hn (Finset.notMem_empty n)) _
  | removed hd _ _ => exact hs.update ((hs _ _ hd).apply _ _) _

theorem copyTo {i : ι} {name : WString} {outcomes : List (WString × CopyOutcome)}
    {s' : FileSystem ι} (hname : (entries i).folderName <+: name) (hs : Named entries s)
    (h : copyTo i e name s outcomes = some s') : Named entries s' := by
  induction outcomes generalizing s with
  | nil => exact Option.some.inj h ▸ hs
  | cons x rest ih =>
    have hcreate : ∀ {d : Directory ι}, d.Named entries →
        (d.create name (some i)).Named entries := fun hd =>
      hd.create fun j hj => Option.some.inj hj ▸ hname
    cases copyRound_of_copyTo h with
    | stopped _ hs' => exact hs' ▸ hs
    | left hd _ hs' => exact hs' ▸ hs.update (hcreate (hs _ _ hd)) _
    | broken _ _ hd _ _ h => exact ih (hs.update (hcreate (hs _ _ hd)) _) h
    | finished _ _ hd _ _ h =>
      exact ih (hs.update ((hcreate (hs _ _ hd)).markComplete name i) _) h

theorem step {b : BackupEvent ι} {s' : FileSystem ι} (hs : Named entries s)
    (h : backupStep entries s b = some s') : Named entries s' := by
  cases b with
  | doBackup i c =>
    obtain ⟨-, h⟩ := Option.ite_none_right_eq_some.1 h
    rw [doBackup] at h
    split at h
    · exact Option.some.inj h ▸ hs
    · obtain ⟨u, hu, h⟩ := Option.bind_eq_some_iff.1 h
      have hrotation := (Machine.Path.of_run hu).invariant (I := Named entries)
        (fun hs _ hst => hs.rotate hst) hs
      exact hrotation.copyTo (List.prefix_append _ c.datetime) h
  | create t name =>
    obtain ⟨d, hd, rfl⟩ := Option.map_eq_some_iff.1 h
    exact hs.update ((hs t d hd).create fun i hi => by cases hi) t
  | remove t name =>
    obtain ⟨d, hd, rfl⟩ := Option.map_eq_some_iff.1 h
    exact hs.update ((hs t d hd).apply name .removed) t

end Named

/-- In every run, the backups of an entry are named after its source directory. -/
theorem named_of_reachable {s₀ : FileSystem ι} (h₀ : Named entries s₀)
    (h : (directoryBackup entries s₀).Reachable Free s) : Named entries s :=
  h.invariant h₀ fun hs _ hst => hs.step hst

/-! ## A clash of names -/

/-- Of two entries with the same destination, one has a source directory whose name
    starts with that of the other one, and the backup of this one removes its backup. -/
theorem removes_other_backup :
    ¬∀ (entries : Bool → BackupEntry) (s : FileSystem Bool) (es : List (BackupEvent Bool)),
      (directoryBackup entries s).Meets (RotatesOwn entries) s es := by
  intro h
  let entries : Bool → BackupEntry := fun i =>
    ⟨(if i then "C:/src2" else "C:/src").toList, ["D:/b".toList], [], 1, false⟩
  let s : FileSystem Bool := fun t => if t = "D:/b".toList then some .empty else none
  let call (datetime : String) : Call :=
    ⟨true, false, [⟨false, .removed⟩], datetime.toList, [⟨false, false, [], false⟩]⟩
  have hes := h entries s [.doBackup true (call "_2024_01_01 00_00_00"),
    .doBackup false (call "_2024_01_01 00_00_01")]
  have hfirst := (Machine.meets_congr_of_iff rotatesOwn_iff_findsOwnFirst s _).1 hes
  exact absurd hfirst (by decide +kernel)

end QustomKeyboard

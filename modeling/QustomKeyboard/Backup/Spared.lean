import QustomKeyboard.Backup.Retained

/-!
# The backups of others

Several entries may have a destination in common, and the names of their backups may
start with the name of the source directory of one of them.

If only this entry creates such names, the backups of the others do not add to its own
(`exists_grown_of_copyTo`). But their rotation takes one of these away iff it is the first
one of the names that it finds, and these are too many (`keeps_rotate_iff`). So a step of
others leaves the backups of the entry as they are iff it spares them (`holds_step_iff`).
-/

namespace QustomKeyboard

open Theory

variable {ι : Type*} {i : ι} {e : BackupEntry} {s s' : FileSystem ι} {t : WString}
  {d : Directory ι} {N : Finset WString}

/-! ## Backups that are kept -/

/-- The names are still there, and complete, where the destination is. -/
def Keeps (i : ι) (t : WString) (names : Finset WString) (s : FileSystem ι) : Prop :=
  ∀ d, s t = some d → ∀ name ∈ names, name ∈ d.names ∧ (d.item name).complete i = true

/-- The destination is there, and no other names are taken for backups of the entry. -/
def Within (e : BackupEntry) (t : WString) (names : Finset WString) (s : FileSystem ι) : Prop :=
  ∃ d, s t = some d ∧ d.candidates e.folderName ⊆ names

/-- In the destination, all names that are taken for backups of the entry have been
    created by these. -/
def OwnsNames (i : ι) (e : BackupEntry) (t : WString) (s : FileSystem ι) : Prop :=
  ∀ d, s t = some d → ∀ name ∈ d.candidates e.folderName, (d.item name).owner = some i

theorem keeps_iff_of_some (hd : s t = some d) : Keeps i t N s ↔
    ∀ name ∈ N, name ∈ d.names ∧ (d.item name).complete i = true :=
  ⟨fun h => h d hd, fun h _ hd' => Option.some.inj (hd.symm.trans hd') ▸ h⟩

theorem keeps_congr (h : s' t = s t) : Keeps i t N s' ↔ Keeps i t N s := by
  rw [Keeps, Keeps, h]

theorem holds_iff (hN : ∀ name ∈ N, e.folderName <+: name) :
    Holds i e t N s ↔ Keeps i t N s ∧ Within e t N s := by
  constructor
  · rintro ⟨d, hd, rfl, hcomplete⟩
    refine ⟨(keeps_iff_of_some hd).2 fun name hname => ⟨?_, hcomplete name hname⟩, d, hd,
      Finset.Subset.refl _⟩
    exact Directory.mem_names_of_candidates hname
  · rintro ⟨hkeeps, d, hd, hwithin⟩
    have hmem := (keeps_iff_of_some hd).1 hkeeps
    refine ⟨d, hd, Finset.Subset.antisymm hwithin fun name hname => ?_, fun name hname =>
      (hmem name hname).2⟩
    exact Finset.mem_filter.2 ⟨(hmem name hname).1, hN name hname⟩

/-! ## Rotation -/

/-- When the rotation of an entry gets to the destination, there are few enough names, or
    `remove_all` does not remove anything, or the first one of the names does not start
    with the given name. -/
def SparesNames (f : WString) (e : BackupEntry) (t : WString) (s : FileSystem ι)
    (x : WString × RotationOutcome) : Prop :=
  x.1 = t → ∀ d, s t = some d → (d.candidates e.folderName).card < e.maxCount ∨
    x.2.removeAll = .notRemoved ∨
      ∀ name ∈ d.candidates e.folderName, f <+: name → ∃ m ∈ d.candidates e.folderName, m < name

instance (f : WString) (e : BackupEntry) (t : WString) :
    ∀ (s : FileSystem ι) x, Decidable (SparesNames f e t s x) := fun s x =>
  decidable_of_iff (x.1 = t → ∀ d ∈ s t, (d.candidates e.folderName).card < e.maxCount ∨
    x.2.removeAll = .notRemoved ∨ ∀ name ∈ d.candidates e.folderName, f <+: name →
      ∃ m ∈ d.candidates e.folderName, m < name) Iff.rfl

/-- A rotation leaves only names that there have been, and does not make them complete. -/
theorem exists_of_rotate {x : WString × RotationOutcome} (hd : s t = some d)
    (h : rotate e s x = some s') : ∃ d', s' t = some d' ∧ d'.names ⊆ d.names ∧
      ∀ name i, (d'.item name).complete i = true → (d.item name).complete i = true := by
  by_cases ht : x.1 = t
  · obtain ⟨t', o⟩ := x
    subst ht
    cases rotationStep_of_rotate h with
    | missing hd' | created hd' =>
      rw [hd] at hd'
      cases hd'
    | kept _ _ => exact ⟨d, hd, Finset.Subset.refl _, fun _ _ => id⟩
    | @removed _ name hd' _ _ =>
      obtain rfl := Option.some.inj (hd.symm.trans hd')
      refine ⟨_, Function.update_self .., ?_⟩
      cases o.removeAll with
      | removed => exact ⟨Finset.erase_subset _ _, fun _ _ => id⟩
      | notRemoved => exact ⟨Finset.Subset.refl _, fun _ _ => id⟩
      | partlyRemoved =>
        refine ⟨Finset.Subset.refl _, fun n i hn => ?_⟩
        by_cases heq : n = name
        · subst heq
          simp [RemoveAll.apply, Directory.damage] at hn
        · simpa [RemoveAll.apply, Directory.damage, heq] using hn
  · exact ⟨d, (rotate_of_ne h (Ne.symm ht)).trans hd, Finset.Subset.refl _, fun _ _ => id⟩

theorem Within.rotate {e' : BackupEntry} {x : WString × RotationOutcome} (hs : Within e t N s)
    (h : rotate e' s x = some s') : Within e t N s' := by
  obtain ⟨d, hd, hwithin⟩ := hs
  obtain ⟨d', hd', hnames, -⟩ := exists_of_rotate hd h
  exact ⟨d', hd', (Finset.filter_subset_filter _ hnames).trans hwithin⟩

/-- What a rotation has left was there before. -/
theorem Keeps.of_rotate {x : WString × RotationOutcome} (h : QustomKeyboard.rotate e s x = some s')
    (hs' : Keeps i t N s') : Keeps i t N s := by
  intro d hd name hname
  obtain ⟨d', hd', hnames, hcomplete⟩ := exists_of_rotate hd h
  obtain ⟨hmem, hdone⟩ := hs' d' hd' name hname
  exact ⟨hnames hmem, hcomplete name i hdone⟩

/-- Something that is removed or damaged is not kept. -/
theorem forall_apply_iff {name : WString} (r : RemoveAll)
    (hs : ∀ n ∈ N, n ∈ d.names ∧ (d.item n).complete i = true) :
    (∀ n ∈ N, n ∈ (r.apply d name).names ∧ ((r.apply d name).item n).complete i = true) ↔
      r = .notRemoved ∨ name ∉ N := by
  cases r with
  | removed =>
    rw [or_iff_right (by decide)]
    refine ⟨fun h hname => ?_, fun h n hn => ⟨Finset.mem_erase.2 ⟨?_, (hs n hn).1⟩, (hs n hn).2⟩⟩
    · exact Finset.notMem_erase name d.names (h name hname).1
    · exact fun heq => h (heq ▸ hn)
  | partlyRemoved =>
    rw [or_iff_right (by decide)]
    refine ⟨fun h hname => ?_, fun h n hn => ⟨(hs n hn).1, ?_⟩⟩
    · simpa [RemoveAll.apply, Directory.damage] using (h name hname).2
    · have hne : n ≠ name := fun heq => h (heq ▸ hn)
      simpa [RemoveAll.apply, Directory.damage, hne] using (hs n hn).2
  | notRemoved => exact iff_of_true hs (.inl rfl)

/-- The rotation of another entry in one destination keeps the names iff it spares them. -/
theorem keeps_rotate_iff {e' : BackupEntry} {x : WString × RotationOutcome}
    (hN : ∀ name ∈ N, e.folderName <+: name) (hwithin : Within e t N s) (hs : Keeps i t N s)
    (h : rotate e' s x = some s') : Keeps i t N s' ↔ SparesNames e.folderName e' t s x := by
  obtain ⟨d, hd, hcandidates⟩ := hwithin
  obtain ⟨t', o⟩ := x
  have hspares : SparesNames e.folderName e' t s (t', o) ↔ (t' = t →
      (d.candidates e'.folderName).card < e'.maxCount ∨ o.removeAll = .notRemoved ∨
        ∀ name ∈ d.candidates e'.folderName, e.folderName <+: name →
          ∃ m ∈ d.candidates e'.folderName, m < name) :=
    forall_congr' fun _ =>
      ⟨fun h => h d hd, fun h d' hd' => Option.some.inj (hd.symm.trans hd') ▸ h⟩
  rw [hspares]
  by_cases ht : t' = t
  · subst ht
    rw [imp_iff_right rfl]
    cases rotationStep_of_rotate h with
    | missing hd' | created hd' =>
      rw [hd] at hd'
      cases hd'
    | kept hd' hlt =>
      obtain rfl := Option.some.inj (hd.symm.trans hd')
      exact iff_of_true hs (.inl hlt)
    | @removed _ name hd' hge hname =>
      obtain rfl := Option.some.inj (hd.symm.trans hd')
      rw [or_iff_right hge.not_gt, keeps_iff_of_some (Function.update_self ..),
        forall_apply_iff _ ((keeps_iff_of_some hd).1 hs)]
      -- The least name is one of them iff it starts with the name of the source directory.
      have hmem : name ∈ N ↔ e.folderName <+: name :=
        ⟨hN name, fun hprefix =>
          hcandidates (Finset.mem_filter.2 ⟨mem_names_of_isLeast hname, hprefix⟩)⟩
      refine or_congr_right ⟨fun hnot n hn hprefix => ?_, fun hall hin => ?_⟩
      · have hne : n ≠ name := fun heq => hnot (hmem.2 (heq ▸ hprefix))
        exact (ne_isLeast_iff hname).1 hne hn
      · exact (ne_isLeast_iff hname).2 (fun hn => hall name hn (hmem.1 hin)) rfl
  · exact iff_of_true ((keeps_congr (rotate_of_ne h (Ne.symm ht))).2 hs) fun h => absurd h ht

theorem keeps_backupRotation_iff {e' : BackupEntry} {outcomes : List RotationOutcome}
    (hN : ∀ name ∈ N, e.folderName <+: name) (hwithin : Within e t N s) (hs : Keeps i t N s)
    (h : backupRotation e' s outcomes = some s') :
    Keeps i t N s' ↔
      (rotation e').Meets (SparesNames e.folderName e' t) s (e'.to_.zip outcomes) := by
  rw [← Machine.always_iff_last (P := Keeps i t N) (fun hst => .of_rotate hst) h]
  exact Machine.always_iff_meets (I := Within e t N) (fun hwithin hst => hwithin.rotate hst)
    (fun hwithin hs hst => keeps_rotate_iff hN hwithin hs hst) hwithin hs h

/-! ## Copying -/

/-- The directory has got new names, which are not complete backups of the entry. -/
structure Directory.Grown (i : ι) (owner : Option ι) (d d' : Directory ι) : Prop where
  kept : ∀ name ∈ d.names, name ∈ d'.names ∧ (d'.item name).owner = (d.item name).owner ∧
    (d'.item name).complete i = (d.item name).complete i
  added : ∀ name ∈ d'.names, name ∉ d.names →
    (d'.item name).owner = owner ∧ (d'.item name).complete i = false

namespace Directory.Grown

variable {owner : Option ι} {d' d'' : Directory ι}

theorem refl (d : Directory ι) : d.Grown i owner d :=
  ⟨fun _ h => ⟨h, rfl, rfl⟩, fun _ h h' => absurd h h'⟩

theorem trans (h : d.Grown i owner d') (h' : d'.Grown i owner d'') : d.Grown i owner d'' := by
  refine ⟨fun name hname => ?_, fun name hname hnot => ?_⟩
  · obtain ⟨hmem, howner, hcomplete⟩ := h.kept name hname
    obtain ⟨hmem', howner', hcomplete'⟩ := h'.kept name hmem
    exact ⟨hmem', howner'.trans howner, hcomplete'.trans hcomplete⟩
  · by_cases hmid : name ∈ d'.names
    · obtain ⟨howner, hcomplete⟩ := h.added name hmid hnot
      obtain ⟨-, howner', hcomplete'⟩ := h'.kept name hmid
      exact ⟨howner'.trans howner, hcomplete'.trans hcomplete⟩
    · exact h'.added name hname hmid

theorem create (d : Directory ι) (name : WString) (owner : Option ι) :
    d.Grown i owner (d.create name owner) := by
  refine ⟨fun n hn => ?_, fun n hn hnot => ?_⟩
  · rw [item_create_of_mem hn]
    refine ⟨?_, rfl, rfl⟩
    rw [Directory.create]
    split
    · exact hn
    · exact Finset.mem_insert_of_mem hn
  · rw [Directory.create] at hn ⊢
    split at hn
    · exact absurd hn hnot
    · rename_i hname
      obtain rfl := (Finset.mem_insert.1 hn).resolve_right hnot
      rw [if_neg hname]
      simp

theorem markComplete [DecidableEq ι] {j : ι} (h : j ≠ i) (d : Directory ι) (name : WString) :
    d.Grown i owner (d.markComplete name j) := by
  refine ⟨fun n hn => ⟨hn, ?_⟩, fun n hn hnot => absurd hn hnot⟩
  by_cases hn : n = name
  · subst hn
    simp [Directory.markComplete, h.symm]
  · rw [item_markComplete_of_ne hn]
    exact ⟨rfl, rfl⟩

end Directory.Grown

/-- New names that are not the entry's make no difference to those it has. -/
theorem keeps_within_of_grown {owner : Option ι} {d' : Directory ι} (howner : owner ≠ some i)
    (hd : s t = some d) (hd' : s' t = some d') (hgrown : d.Grown i owner d')
    (howns : OwnsNames i e t s') (hwithin : Within e t N s) :
    (Keeps i t N s' ↔ Keeps i t N s) ∧ Within e t N s' := by
  rw [keeps_iff_of_some hd, keeps_iff_of_some hd']
  refine ⟨forall₂_congr fun name _ => ⟨fun ⟨hmem, hcomplete⟩ => ?_, fun ⟨hmem, hcomplete⟩ => ?_⟩,
    d', hd', fun name hname => ?_⟩
  · by_cases hold : name ∈ d.names
    · exact ⟨hold, (hgrown.kept name hold).2.2 ▸ hcomplete⟩
    · rw [(hgrown.added name hmem hold).2] at hcomplete
      cases hcomplete
  · obtain ⟨hmem', -, hsame⟩ := hgrown.kept name hmem
    exact ⟨hmem', hsame.trans hcomplete⟩
  · obtain ⟨d₀, hd₀, hcandidates⟩ := hwithin
    obtain rfl := Option.some.inj (hd.symm.trans hd₀)
    have hmem := Directory.mem_names_of_candidates hname
    by_cases hold : name ∈ d.names
    · exact hcandidates (Finset.mem_filter.2 ⟨hold, (Finset.mem_filter.1 hname).2⟩)
    · refine absurd ?_ howner
      rw [← (hgrown.added name hmem hold).1]
      exact howns d' hd' name hname

variable [DecidableEq ι]

/-- The backup of another entry adds names that are not the entry's. -/
theorem exists_grown_of_copyTo {j : ι} {e' : BackupEntry} {name : WString}
    {xs : List (WString × CopyOutcome)} (hj : j ≠ i) (hd : s t = some d)
    (h : copyTo j e' name s xs = some s') : ∃ d', s' t = some d' ∧ d.Grown i (some j) d' := by
  induction xs generalizing s d with
  | nil =>
    obtain rfl := Option.some.inj h
    exact ⟨d, hd, .refl d⟩
  | cons x xs ih =>
    obtain ⟨t', o⟩ := x
    have hupdate {d₀ d₁ : Directory ι} (hd₀ : s t' = some d₀) (hgrown : d₀.Grown i (some j) d₁) :
        ∃ d', Function.update s t' (some d₁) t = some d' ∧ d.Grown i (some j) d' := by
      by_cases ht : t = t'
      · subst ht
        obtain rfl := Option.some.inj (hd.symm.trans hd₀)
        exact ⟨d₁, Function.update_self .., hgrown⟩
      · exact ⟨d, (Function.update_of_ne ht _ _).trans hd, .refl d⟩
    have hcreate (d₀ : Directory ι) : d₀.Grown i (some j) (d₀.create name (some j)) := .create ..
    cases copyRound_of_copyTo h with
    | stopped _ hs => exact hs ▸ ⟨d, hd, .refl d⟩
    | left hd₀ _ hs => exact hs ▸ hupdate hd₀ (hcreate _)
    | broken _ _ hd₀ _ _ h =>
      obtain ⟨d₁, hd₁, hgrown⟩ := hupdate hd₀ (hcreate _)
      obtain ⟨d', hd', hgrown'⟩ := ih hd₁ h
      exact ⟨d', hd', hgrown.trans hgrown'⟩
    | finished _ _ hd₀ _ _ h =>
      obtain ⟨d₁, hd₁, hgrown⟩ := hupdate hd₀ ((hcreate _).trans (.markComplete hj _ name))
      obtain ⟨d', hd', hgrown'⟩ := ih hd₁ h
      exact ⟨d', hd', hgrown.trans hgrown'⟩

/-! ## The steps of others -/

/-- A backup of another entry spares the names in its rotation, and nobody else removes
    one of them. -/
def SparesBackups (entries : ι → BackupEntry) (i : ι) (t : WString) (s : FileSystem ι) :
    BackupEvent ι → Prop
  | .doBackup j c => j ≠ i → c.isValid = true →
    (rotation (entries j)).Meets (SparesNames (entries i).folderName (entries j) t) s
      ((entries j).to_.zip c.rotation)
  | .create _ _ => True
  | .remove t' name => t' = t → ∀ d, s t = some d → name ∉ d.candidates (entries i).folderName

variable {entries : ι → BackupEntry}

instance (i : ι) (t : WString) (s : FileSystem ι) :
    ∀ b, Decidable (SparesBackups entries i t s b)
  | .doBackup _ _ => inferInstanceAs (Decidable (_ → _ → _))
  | .create _ _ => .isTrue trivial
  | .remove t' name => decidable_of_iff
    (t' = t → ∀ d ∈ s t, name ∉ d.candidates (entries i).folderName) Iff.rfl

theorem holds_doBackup_iff {j : ι} {e' : BackupEntry} {c : Call} (hj : j ≠ i)
    (hN : ∀ name ∈ N, e.folderName <+: name) (hs : Holds i e t N s) (howns : OwnsNames i e t s')
    (h : doBackup j e' s c = some s') :
    Holds i e t N s' ↔ (c.isValid = true →
      (rotation e').Meets (SparesNames e.folderName e' t) s (e'.to_.zip c.rotation)) := by
  rw [doBackup] at h
  split at h
  · rename_i hvalid
    rw [Bool.not_eq_true'] at hvalid
    obtain rfl := Option.some.inj h
    exact iff_of_true hs fun hvalid' => by simp [hvalid] at hvalid'
  · rename_i hvalid
    rw [Bool.not_eq_true', Bool.not_eq_false] at hvalid
    obtain ⟨u, hu, h⟩ := Option.bind_eq_some_iff.1 h
    obtain ⟨hkeeps, hwithin⟩ := (holds_iff hN).1 hs
    have hrotation := keeps_backupRotation_iff hN hwithin hkeeps hu
    have hwithin' : Within e t N u := (Machine.Path.of_run hu).invariant (I := Within e t N)
      (fun hwithin _ hst => hwithin.rotate hst) hwithin
    obtain ⟨d, hd, -⟩ := id hwithin'
    obtain ⟨d', hd', hgrown⟩ := exists_grown_of_copyTo hj hd h
    obtain ⟨hsame, hwithin''⟩ := keeps_within_of_grown (by simpa using hj) hd hd' hgrown howns
      hwithin'
    rw [imp_iff_right hvalid, holds_iff hN, and_iff_left hwithin'', hsame, hrotation]

/-- A step of others leaves the names as they are iff it spares them. -/
theorem holds_step_iff {b : BackupEvent ι} (hb : ∀ c, b ≠ .doBackup i c)
    (hN : ∀ name ∈ N, (entries i).folderName <+: name) (hs : Holds i (entries i) t N s)
    (howns : OwnsNames i (entries i) t s') (h : backupStep entries s b = some s') :
    Holds i (entries i) t N s' ↔ SparesBackups entries i t s b := by
  obtain ⟨d, hd, hcandidates, hcomplete⟩ := id hs
  cases b with
  | doBackup j c =>
    have hj : j ≠ i := fun heq => hb c (heq ▸ rfl)
    obtain ⟨-, h⟩ := Option.ite_none_right_eq_some.1 h
    rw [holds_doBackup_iff hj hN hs howns h, SparesBackups, imp_iff_right hj]
  | create t' name =>
    obtain ⟨d₀, hd₀, rfl⟩ := Option.map_eq_some_iff.1 h
    refine iff_of_true ?_ trivial
    by_cases ht : t = t'
    · subst ht
      obtain rfl := Option.some.inj (hd.symm.trans hd₀)
      obtain ⟨hkeeps, hwithin⟩ := (holds_iff hN).1 hs
      obtain ⟨hsame, hwithin'⟩ := keeps_within_of_grown (by simp) hd (Function.update_self ..)
        (.create d name none) howns hwithin
      exact (holds_iff hN).2 ⟨hsame.2 hkeeps, hwithin'⟩
    · exact ⟨d, (Function.update_of_ne ht _ _).trans hd, hcandidates, hcomplete⟩
  | remove t' name =>
    obtain ⟨d₀, hd₀, rfl⟩ := Option.map_eq_some_iff.1 h
    by_cases ht : t = t'
    · subst ht
      obtain rfl := Option.some.inj (hd.symm.trans hd₀)
      have hspares : SparesBackups entries i t s (.remove t name) ↔
          name ∉ d.candidates (entries i).folderName :=
        ⟨fun h => h rfl d hd, fun h _ d' hd' => Option.some.inj (hd.symm.trans hd') ▸ h⟩
      rw [hspares]
      constructor
      · rintro ⟨d', hd', hcandidates', -⟩ hname
        rw [Function.update_self] at hd'
        rw [← Option.some.inj hd', Directory.candidates_remove, ← hcandidates] at hcandidates'
        exact Finset.notMem_erase name _ (hcandidates' ▸ hname)
      · intro hname
        refine ⟨_, Function.update_self .., ?_, hcomplete⟩
        rw [Directory.candidates_remove, Finset.erase_eq_of_notMem hname, hcandidates]
    · exact iff_of_true ⟨d, (Function.update_of_ne ht _ _).trans hd, hcandidates, hcomplete⟩
        fun heq => absurd heq.symm ht

end QustomKeyboard

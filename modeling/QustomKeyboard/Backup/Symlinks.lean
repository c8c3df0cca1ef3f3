import QustomKeyboard.Backup.Filtered

/-!
# Symlinks

The path of the copy of a symlink is made out of its name only, and so it is found at
the top of the new directory. If something has this name there, `create_symlink`
throws, since it is called without the variable for its error that is tested after it.

So the symlinks are in place iff all of them are at the top of the source, where no two
have the same name, and no destination gets them twice (`symlinksInPlace_iff`).
-/

namespace QustomKeyboard

open Theory

namespace BackupJob

variable {b : BackupJob} {t : WString} {x : SourceEntry} {s : BackupState}

/-- The backup is not left by an exception, and has symlinks just where the source has. -/
def SymlinksInPlace (b : BackupJob) (s : BackupState) : Prop :=
  (b.doBackup s).1 ≠ .left ∧ ∀ t ∈ b.entry.to_,
    ∃ c, (b.doBackup s).2.destinations t = some c ∧ ∀ path,
      (∃ target, c path = some (.symlink target)) ↔
        ∃ target, ⟨path, .symlink target⟩ ∈ b.source.entries

theorem isSymlink_iff {node : Node} : node.isSymlink = true ↔ ∃ target, node = .symlink target := by
  cases node <;> simp [Node.isSymlink]

@[simp] theorem isSymlink_copyOf (t : WString) (node : Node) :
    (b.copyOf t node).isSymlink = node.isSymlink := by
  cases node <;> rfl

/-- At the top, symlinks keep their path. -/
theorem copyPath_eq_path (h : x.node.isSymlink = true → x.path.length = 1) :
    x.copyPath = x.path := by
  rw [SourceEntry.copyPath]
  split_ifs with hnode
  · obtain ⟨n, hn⟩ := List.length_eq_one_iff.1 (h hnode)
    rw [hn, List.getLast?_singleton, Option.getD_some]
  · rfl

/-- The symlinks in a copy are those of the source, without their directories. -/
theorem IsCopy.exists_symlink_iff {c : Contents} {entries : List SourceEntry}
    {path : List WString} (h : b.IsCopy t entries c) :
    (∃ target, c path = some (.symlink target)) ↔
      ∃ x ∈ entries, b.Kept x ∧ x.copyPath = path ∧ x.node.isSymlink = true := by
  constructor
  · rintro ⟨target, htarget⟩
    rw [h, emptyContents_eq_some] at htarget
    rcases htarget with ⟨-, hnode⟩ | ⟨x, hx, hkept, hpath, hnode⟩
    · cases hnode
    · exact ⟨x, hx, hkept, hpath, by rw [← isSymlink_copyOf (b := b) t, hnode]; rfl⟩
  · rintro ⟨x, hx, hkept, hpath, hnode⟩
    obtain ⟨target, htarget⟩ := isSymlink_iff.1 hnode
    exact ⟨_, (h _ _).2 (.inr ⟨x, hx, hkept, hpath, by rw [htarget]; rfl⟩)⟩

/-! ## Exceptions -/

/-- No symlink has failed. -/
def LinksCreated (log : List Operation) : Prop :=
  ∀ r ∈ log, r.op.isSymlink = true → r.error = none

theorem LinksCreated.concat {log : List Operation} {op : FileOp} {error : Option OpError}
    (h : LinksCreated log) (herror : op.isSymlink = true → error = none) :
    LinksCreated (log ++ [⟨op, error⟩]) := fun r hr => by
  rcases List.mem_append.1 hr with hr | hr
  · exact h r hr
  · rw [List.mem_singleton.1 hr]
    exact herror

/-- A symlink that fails leaves the whole backup. -/
theorem copyEntry_linksCreated (hx : x ∈ b.source.entries) (h : LinksCreated s.log) :
    Ends (fun e => e.1 ≠ .left → LinksCreated e.2.log) (fun s => LinksCreated s.log)
      (b.copyEntry t s x) := by
  rw [copyEntry_eq hx]
  split_ifs
  · refine Ends.bind (P := fun s => LinksCreated s.log) (BackupState.create_ends
      (fun c _ => h.concat fun _ => rfl) fun error _ hexit => h.concat fun hnode => ?_)
      fun s hs => ?_
    · rw [FileOp.isSymlink, isSymlink_copyOf] at hnode
      exact absurd (if_pos hnode) hexit
    · exact (hashEntry_preserves (I := fun _ log => LinksCreated log)
        (fun _ _ _ _ _ hlog => hlog.concat fun hnode => nomatch hnode) hs).mono
        (fun e he _ => he) fun s hs => hs
  · exact h

theorem copyDestination_linksCreated (h : LinksCreated s.log) :
    Ends (fun e => e.1 ≠ .left → LinksCreated e.2.log) (fun s => LinksCreated s.log)
      (b.copyDestination s t) := by
  refine copyDestination_ends (F := fun e => e.1 ≠ .left → LinksCreated e.2.log)
    (I := fun _ s => LinksCreated s.log) (Q := fun s => LinksCreated s.log)
    (BackupState.create_ends (fun c _ => h.concat fun _ => rfl)
      fun error _ _ => h.concat fun hnode => nomatch hnode)
    (fun front x back s hl hs => copyEntry_linksCreated (hl ▸ List.mem_append_cons_self) hs)
    (fun _ hs => hs) (fun _ _ hexit hs => hs hexit) (fun _ hs => hs) fun s hs => ?_
  exact (compareHashes_preserves hs).mono (fun e he _ => he) fun s hs => hs

theorem doBackup_linksCreated :
    (b.doBackup s).1 ≠ .left → LinksCreated (b.doBackup s).2.log :=
  doBackup_rule (E := fun e => e.1 ≠ .left → LinksCreated e.2.log)
    (I := fun _ s => LinksCreated s.log) (R := fun e => e.1 ≠ .left → LinksCreated e.2.log)
    (fun _ hr => absurd hr List.not_mem_nil)
    (fun _ _ _ _ _ hs => copyDestination_linksCreated hs) (fun _ he => he) fun _ hs _ => hs

/-! ## Places -/

/-- Behind other entries of the source, a symlink at the top of it does not fail. -/
theorem createNode_symlink_ok {front back : List SourceEntry} {c : Contents}
    (hl : b.source.entries = front ++ x :: back)
    (htop : ∀ y ∈ b.source.entries, y.node.isSymlink = true → y.path.length = 1)
    (hnode : x.node.isSymlink = true) (hcopy : b.IsCopy t front c) (node : Node) (error : OpError) :
    createNode x.copyPath node (some c) ≠ .error error := by
  have hx : x ∈ b.source.entries := hl ▸ List.mem_append_cons_self
  obtain ⟨n, hn⟩ := List.length_eq_one_iff.1 (htop x hx hnode)
  have hroot : c [] = some .directory := (hcopy _ _).2 (.inl (by simp))
  have hfree : c x.path = none := by
    rw [Option.eq_none_iff_forall_ne_some]
    intro node hnode
    rcases (hcopy _ _).1 hnode with hempty | ⟨y, hy, -, hypath, -⟩
    · exact b.source.path_ne_nil x hx (emptyContents_eq_some.1 hempty).1
    · rw [copyPath_eq_path (htop y (hl ▸ List.mem_append_left _ hy))] at hypath
      exact b.source.path_ne_of_eq hl hy hypath
  have hparent : c x.path.dropLast = some .directory := by
    rw [hn]
    exact hroot
  rw [copyPath_eq_path (htop x hx), createNode, if_neg (fun hnot => hnot.2 hparent), if_pos hfree]
  intro h
  cases h

/-- If all symlinks are at the top, and no destination gets them twice, they do not fail. -/
theorem failsOnly_not_isSymlink
    (htop : ∀ y ∈ b.source.entries, y.node.isSymlink = true → y.path.length = 1)
    (hnodup : (∀ y ∈ b.source.entries, y.node.isSymlink = false) ∨ b.entry.to_.Nodup) :
    b.FailsOnly s fun r => r.op.isSymlink = false := by
  refine ⟨fun _ _ _ => rfl, ?_, fun _ _ _ _ _ => rfl⟩
  intro before t after front x back c error hto hl _ hcopy herror
  show (b.copyOf t x.node).isSymlink = false
  rw [isSymlink_copyOf]
  by_contra hnode
  rw [Bool.not_eq_false] at hnode
  have hx : x ∈ b.source.entries := hl ▸ List.mem_append_cons_self
  have hto_nodup := hnodup.resolve_left fun hnone => by
    rw [hnone x hx] at hnode
    cases hnode
  rw [hto, List.nodup_middle, List.nodup_cons] at hto_nodup
  exact createNode_symlink_ok hl htop hnode
    (hcopy fun hmem => hto_nodup.1 (List.mem_append_left _ hmem)) _ error herror

section

variable {c : Contents}

/-- A symlink that is in place in the copy is at the top of the source. -/
theorem IsCopy.length_eq_one (hcopy : b.IsCopy t b.source.entries c)
    (hiff : ∀ path, (∃ target, c path = some (.symlink target)) ↔
      ∃ target, ⟨path, .symlink target⟩ ∈ b.source.entries)
    (hx : x ∈ b.source.entries) (hnode : x.node.isSymlink = true) : x.path.length = 1 := by
  obtain ⟨target, htarget⟩ := isSymlink_iff.1 hnode
  obtain ⟨y, hy, -, hypath, hynode⟩ :=
    hcopy.exists_symlink_iff.1 ((hiff x.path).2 ⟨target, htarget ▸ hx⟩)
  rw [← hypath, SourceEntry.copyPath, if_pos hynode, List.length_singleton]

/-- Those at the top are in place. -/
theorem IsCopy.symlink_iff (hcopy : b.IsCopy t b.source.entries c)
    (hkept : ∀ x ∈ b.source.entries,
      b.entry.isInIgnoreList (LexPath.rel x.path).generic = false)
    (htop : ∀ x ∈ b.source.entries, x.node.isSymlink = true → x.path.length = 1)
    (path : List WString) : (∃ target, c path = some (.symlink target)) ↔
      ∃ target, ⟨path, .symlink target⟩ ∈ b.source.entries := by
  refine hcopy.exists_symlink_iff.trans ⟨?_, ?_⟩
  · rintro ⟨x, hx, -, hpath, hnode⟩
    obtain ⟨target, htarget⟩ := isSymlink_iff.1 hnode
    rw [copyPath_eq_path (htop x hx)] at hpath
    exact ⟨target, by rw [← htarget, ← hpath]; exact hx⟩
  · rintro ⟨target, hx⟩
    exact ⟨_, hx, hkept _ hx, copyPath_eq_path (htop _ hx), rfl⟩

end

/-- Where nothing is ignored and nothing but symlinks fails, the symlinks are in place iff
    there is no destination, or they are all at the top of the source, and there are none or
    no destination is listed twice. -/
theorem symlinksInPlace_iff (b : BackupJob) (s : BackupState) (hnew : b.IsNew s)
    (hkept : ∀ x ∈ b.source.entries,
      b.entry.isInIgnoreList (LexPath.rel x.path).generic = false)
    (hothers : ∀ r ∈ (b.doBackup s).2.log, r.error ≠ none → r.op.isSymlink = true) :
    b.SymlinksInPlace s ↔ b.entry.to_ = [] ∨
      (∀ x ∈ b.source.entries, x.node.isSymlink = true → x.path.length = 1) ∧
        ((∀ x ∈ b.source.entries, x.node.isSymlink = false) ∨ b.entry.to_.Nodup) := by
  constructor
  · rintro ⟨hexit, hplace⟩
    rcases eq_or_ne b.entry.to_ [] with hnil | hne
    · exact .inl hnil
    refine .inr ?_
    rcases doBackup_copied hnew (failsOnly_true b s) with ⟨r, hr, herror, -⟩ | ⟨-, hvisited⟩
    · exact absurd (doBackup_linksCreated hexit r hr (hothers r hr herror)) herror
    constructor
    · obtain ⟨t, ht⟩ := List.exists_mem_of_ne_nil _ hne
      obtain ⟨c, hc, hiff⟩ := hplace t ht
      obtain ⟨c', hc', hcopy⟩ := hvisited.visited t ht
      rw [hc', Option.some.injEq] at hc
      rw [hc] at hcopy
      exact fun x hx hnode => hcopy.length_eq_one hiff hx hnode
    · by_cases hnone : ∀ x ∈ b.source.entries, x.node.isSymlink = false
      · exact .inl hnone
      · push Not at hnone
        obtain ⟨x, hx, hnode⟩ := hnone
        refine .inr (hvisited.nodup ⟨x, hx, hkept x hx, fun hdir => hnode ?_⟩)
        rw [hdir]
        rfl
  · rintro (hnil | ⟨htop, hnodup⟩)
    · refine ⟨?_, fun t ht => absurd (hnil ▸ ht) List.not_mem_nil⟩
      rw [doBackup, hnil]
      intro h
      cases h
    have hfails := failsOnly_not_isSymlink (s := s) htop hnodup
    rcases doBackup_copied hnew hfails with ⟨r, hr, herror, hop⟩ | ⟨hexit, hvisited⟩
    · rw [hothers r hr herror] at hop
      cases hop
    have hleft : (b.doBackup s).1 ≠ .left := by
      rw [hexit]
      intro h
      cases h
    refine ⟨hleft, fun t ht => ?_⟩
    obtain ⟨c, hc, hcopy⟩ := hvisited.visited t ht
    exact ⟨c, hc, hcopy.symlink_iff hkept htop⟩

/-- A symlink at the top, and a file. -/
def topLinkJob : BackupJob where
  entry :=
    { from_ := ['/', 's'], to_ := [['/', 't'], ['u']], ignoreList := []
      maxBackups := 1, calculateHash := false }
  datetime := ['1']
  source :=
    { entries := [⟨[['l']], .symlink (.rel [['f']])⟩, ⟨[['f']], .file [1]⟩]
      path_ne_nil := by decide
      validName := by decide
      nodup := by decide
      parent_mem := by decide }
  currentPath := ⟨['/'], [['c']]⟩
  isAbsolute_currentPath := rfl
  toPath := LexPath.ofText

theorem symlinksInPlace_topLinkJob : topLinkJob.SymlinksInPlace topLinkJob.readyState :=
  (symlinksInPlace_iff topLinkJob topLinkJob.readyState (isNew_readyState topLinkJob) (by decide)
    (by decide +kernel)).2 (.inr (by decide))

/-- A symlink in a directory. -/
def nestedLinkJob : BackupJob :=
  { topLinkJob with
    source :=
      { entries := [⟨[['d']], .directory⟩, ⟨[['d'], ['l']], .symlink (.rel [['f']])⟩]
        path_ne_nil := by decide
        validName := by decide
        nodup := by decide
        parent_mem := by decide } }

/-- The copy of this symlink is not in the directory, although no operation fails. -/
theorem not_symlinksInPlace_nestedLinkJob :
    nestedLinkJob.IsNew nestedLinkJob.readyState ∧
    (∀ x ∈ nestedLinkJob.source.entries,
      nestedLinkJob.entry.isInIgnoreList (LexPath.rel x.path).generic = false) ∧
    (nestedLinkJob.doBackup nestedLinkJob.readyState).2.Succeeded ∧
    ¬nestedLinkJob.SymlinksInPlace nestedLinkJob.readyState := by
  refine ⟨isNew_readyState nestedLinkJob, by decide, by decide +kernel, fun ⟨_, h⟩ => ?_⟩
  obtain ⟨c, hc, hiff⟩ := h ['u'] (by decide)
  obtain ⟨target, htarget⟩ := (hiff [['d'], ['l']]).2 ⟨.rel [['f']], by decide⟩
  have hnone : ((nestedLinkJob.doBackup nestedLinkJob.readyState).2.destinations ['u']).bind
      (· [['d'], ['l']]) = none := by
    decide +kernel
  rw [hc, Option.bind_some, htarget] at hnone
  cases hnone

end BackupJob

end QustomKeyboard

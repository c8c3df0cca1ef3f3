import QustomKeyboard.Backup.Copies

/-!
# Filtered copies

An ignored directory is skipped, but what is in it is visited nevertheless. It is
ignored too, since its path starts with that of the directory (`Kept.parent`). So no
operation lacks the parent directory, and the backup of a tree without symlinks is the
tree without what is ignored (`doBackup_filtered`).

An operation could only fail since there is no destination, or it is listed twice, or
since a file cannot be read for its digest (`doBackup_succeeded`).
-/

namespace QustomKeyboard

open Theory

/-! ## Ignored paths -/

namespace BackupEntry

variable {e : BackupEntry} {p q : WString}

theorem isInIgnoreList_iff :
    e.isInIgnoreList p = true ↔ ∃ i ∈ e.ignoreList, i ≠ [] ∧ i <:+: p := by
  simp only [isInIgnoreList, List.any_eq_true, Bool.and_eq_true, decide_eq_true_eq,
    List.length_pos_iff]
  constructor
  · rintro ⟨i, hi, ⟨hi_in, -⟩, hne⟩
    exact ⟨i, hi, hne, hi_in⟩
  · rintro ⟨i, hi, hne, hi_in⟩
    refine ⟨i, hi, ⟨hi_in, ?_⟩, hne⟩
    rintro rfl
    exact hne (List.infix_nil.1 hi_in)

/-- What is ignored in a text is ignored in a longer one. -/
theorem isInIgnoreList_of_prefix (hpq : p <+: q) (h : e.isInIgnoreList p = true) :
    e.isInIgnoreList q = true := by
  obtain ⟨i, hi, hne, hi_in⟩ := isInIgnoreList_iff.1 h
  exact isInIgnoreList_iff.2 ⟨i, hi, hne, hi_in.trans hpq.isInfix⟩

end BackupEntry

namespace BackupJob

variable {b : BackupJob} {t : WString} {x : SourceEntry} {s : BackupState}

theorem kept_iff :
    b.Kept x ↔ ∀ i ∈ b.entry.ignoreList, i ≠ [] → ¬i <:+: (LexPath.rel x.path).generic := by
  rw [Kept, Bool.eq_false_iff, ne_eq, BackupEntry.isInIgnoreList_iff]
  push Not
  rfl

/-- A directory of something that is not ignored is not ignored. -/
theorem Kept.parent {names : List WString} {n : WString} {node : Node}
    (hpath : x.path = names ++ [n]) (hx : b.Kept x) : b.Kept ⟨names, node⟩ := by
  refine Bool.eq_false_iff.2 fun h => ?_
  rw [Kept, hpath, BackupEntry.isInIgnoreList_of_prefix (LexPath.generic_prefix names n) h] at hx
  cases hx

/-- The parent directory is not ignored, and has been visited before. -/
theorem Kept.parent_mem {front back : List SourceEntry} (hl : b.source.entries = front ++ x :: back)
    (hx : b.Kept x) :
    x.path.dropLast = [] ∨
      ∃ y ∈ front, b.Kept y ∧ y.path = x.path.dropLast ∧ y.node = .directory := by
  have hmem : x ∈ b.source.entries := hl ▸ List.mem_append_cons_self
  obtain ⟨names, n, hpath, -⟩ := exists_path_eq_append hmem
  refine (b.source.parent_mem_of_eq hl).imp_right fun h => ⟨_, h, ?_, rfl, rfl⟩
  rw [hpath, List.dropLast_concat]
  exact hx.parent hpath

/-! ## Parent directories -/

/-- No operation has failed for the lack of a parent directory. -/
def ParentsFound (log : List Operation) : Prop := ∀ r ∈ log, r.error ≠ some .noParent

theorem ParentsFound.concat {log : List Operation} {op : FileOp} {error : Option OpError}
    (h : ParentsFound log) (herror : error ≠ some .noParent) :
    ParentsFound (log ++ [⟨op, error⟩]) := fun r hr => by
  rcases List.mem_append.1 hr with hr | hr
  · exact h r hr
  · rw [List.mem_singleton.1 hr]
    exact herror

/-- No parent directory has been missed, and there are those of the entries visited. -/
def Grown (b : BackupJob) (t : WString) (front : List SourceEntry)
    (destinations : WString → Option Contents) (log : List Operation) : Prop :=
  ParentsFound log ∧ ∃ c, destinations t = some c ∧ c [] = some .directory ∧
    ∀ x ∈ front, b.Kept x → x.node = .directory → c x.path = some .directory

/-- With a parent directory, another error is reported. -/
theorem createNode_ne_noParent {path : List WString} {node : Node} {c : Option Contents}
    (h : path = [] ∨ ∀ c', c = some c' → c' path.dropLast = some .directory) :
    createNode path node c ≠ .error .noParent := by
  rcases c with _ | c
  · intro h
    cases h
  · rw [createNode, if_neg (fun hnot => h.elim hnot.1 fun h => hnot.2 (h c rfl))]
    split_ifs <;>
    · intro h
      cases h

/-- The next entry finds its parent directory. -/
theorem Grown.step {front back : List SourceEntry}
    (hsymlink : ∀ x ∈ b.source.entries, x.node.isSymlink = false)
    (hl : b.source.entries = front ++ x :: back) (h : b.Grown t front s.destinations s.log) :
    Ends (fun e => ParentsFound e.2.log)
      (fun s => b.Grown t (front ++ [x]) s.destinations s.log) (b.copyEntry t s x) := by
  have hx : x ∈ b.source.entries := hl ▸ List.mem_append_cons_self
  obtain ⟨hfound, c, hc, hroot, hdirs⟩ := h
  rw [copyEntry_eq hx]
  split_ifs with hkept
  · have hpath : x.copyPath = x.path := if_neg (by simp [hsymlink x hx])
    have hparent : c x.path.dropLast = some .directory := by
      rcases hkept.parent_mem hl with hnil | ⟨y, hy, hykept, hypath, hynode⟩
      · rw [hnil, hroot]
      · rw [← hypath, hdirs y hy hykept hynode]
    rw [hpath]
    refine Ends.bind (P := fun s => b.Grown t (front ++ [x]) s.destinations s.log)
      (BackupState.create_ends (fun c' hc' => ?_) fun error herror => ?_) fun s' hs' => ?_
    · rw [hc] at hc'
      obtain ⟨hiff, -⟩ := createNode_eq_ok hc'
      refine ⟨hfound.concat (Option.some_ne_none _).symm, c', Function.update_self ..,
        (hiff _ _).2 (.inl hroot), fun y hy hykept hynode => ?_⟩
      rcases List.mem_append.1 hy with hy | hy
      · exact (hiff _ _).2 (.inl (hdirs y hy hykept hynode))
      · rw [List.mem_singleton.1 hy] at hynode ⊢
        exact (hiff _ _).2 (.inr ⟨rfl, copyOf_eq_directory_iff.2 hynode⟩)
    · refine hfound.concat fun h => ?_
      rw [Option.some.inj h, hc] at herror
      exact createNode_ne_noParent (.inr fun c' hc' => Option.some.inj hc' ▸ hparent) herror
    · refine (hashEntry_preserves (I := b.Grown t (front ++ [x]))
        (fun d log path error herror hI => ⟨hI.1.concat ?_, hI.2⟩) hs').mono (fun e he => he.1)
        fun s hs => hs
      rcases herror with rfl | rfl <;> exact fun h => nomatch h
  · refine ⟨hfound, c, hc, hroot, fun y hy hykept => ?_⟩
    rcases List.mem_append.1 hy with hy | hy
    · exact hdirs y hy hykept
    · exact absurd (List.mem_singleton.1 hy ▸ hykept) hkept

/-- No operation on a destination lacks its parent directory. -/
theorem copyDestination_parentsFound
    (hsymlink : ∀ x ∈ b.source.entries, x.node.isSymlink = false) (h : ParentsFound s.log) :
    Ends (fun e => ParentsFound e.2.log) (fun s => ParentsFound s.log) (b.copyDestination s t) := by
  refine copyDestination_ends (F := fun e => ParentsFound e.2.log)
    (I := fun front s => b.Grown t front s.destinations s.log) (Q := fun s => ParentsFound s.log)
    (BackupState.create_ends (fun c hc => ?_) fun error herror => ?_)
    (fun front x back s hl hs => hs.step hsymlink hl) (fun _ hs => hs) (fun _ _ _ hs => hs)
    (fun _ hs => hs.1) fun s hs => compareHashes_preserves hs
  · refine ⟨h.concat (Option.some_ne_none _).symm, c, Function.update_self .., ?_,
      fun x hx => absurd hx List.not_mem_nil⟩
    rcases hdest : s.destinations t with _ | c₀
    · rw [hdest] at hc
      cases hc
    · rw [hdest] at hc
      exact ((createNode_eq_ok hc).1 _ _).2 (.inr ⟨rfl, rfl⟩)
  · refine h.concat fun h => ?_
    rw [Option.some.inj h] at herror
    exact createNode_ne_noParent (.inl rfl) herror

/-- Every operation of a backup without symlinks finds its parent directory. -/
theorem doBackup_parentsFound (hsymlink : ∀ x ∈ b.source.entries, x.node.isSymlink = false)
    (s : BackupState) : ParentsFound (b.doBackup s).2.log :=
  doBackup_rule (E := fun e => ParentsFound e.2.log) (I := fun _ s => ParentsFound s.log)
    (R := fun e => ParentsFound e.2.log) (fun _ hr => absurd hr List.not_mem_nil)
    (fun _ _ _ _ _ hs => copyDestination_parentsFound hsymlink hs) (fun _ he => he) fun _ hs => hs

/-! ## Contents -/

/-- Any operation may fail. -/
theorem failsOnly_true (b : BackupJob) (s : BackupState) : b.FailsOnly s fun _ => True :=
  ⟨fun _ _ _ => trivial, fun _ _ _ _ _ _ _ _ _ _ _ _ _ => trivial, fun _ _ _ _ _ => trivial⟩

/-- A backup without failures has come to its end, with copies in all destinations. -/
theorem visited_of_succeeded (hnew : b.IsNew s) (h : (b.doBackup s).2.Succeeded) :
    (b.doBackup s).1 = .finished ∧ b.Visited s b.entry.to_ (b.doBackup s).2 :=
  (doBackup_copied hnew (failsOnly_true b s)).resolve_left fun ⟨r, hr, herror, _⟩ =>
    herror (h r hr)

/-- Without symlinks, the copies are those entries that are not ignored. -/
theorem IsCopy.eq_some_iff {c : Contents} {entries : List SourceEntry} {path : List WString}
    {node : Node} (hsymlink : ∀ x ∈ entries, x.node.isSymlink = false) (h : b.IsCopy t entries c)
    (hpath : path ≠ []) :
    c path = some node ↔ ⟨path, node⟩ ∈ entries ∧ b.Kept ⟨path, node⟩ := by
  have hcopy (x : SourceEntry) (hx : x ∈ entries) :
      x.copyPath = x.path ∧ b.copyOf t x.node = x.node := by
    have hnode := hsymlink x hx
    refine ⟨if_neg (by simp [hnode]), ?_⟩
    rcases x with ⟨path, _ | content | target⟩
    · rfl
    · rfl
    · cases hnode
  rw [h, emptyContents_eq_some, or_iff_right fun h => hpath h.1]
  constructor
  · rintro ⟨x, hx, hkept, rfl, rfl⟩
    rw [(hcopy x hx).1, (hcopy x hx).2]
    exact ⟨hx, hkept⟩
  · rintro ⟨hx, hkept⟩
    exact ⟨_, hx, hkept, (hcopy _ hx).1, (hcopy _ hx).2⟩

/-- If no destination is listed twice and all of them are there, and all files can be read
    for their digests, then all operations succeed. -/
theorem doBackup_succeeded (hsymlink : ∀ x ∈ b.source.entries, x.node.isSymlink = false)
    (hnew : b.IsNew s) (hnodup : b.entry.to_.Nodup)
    (hdest : ∀ t ∈ b.entry.to_, s.destinations t ≠ none)
    (hread : ∀ x ∈ b.source.entries, b.entry.calculateHash = true →
      Readable s.hashBuf.length x.content) : (b.doBackup s).2.Succeeded := by
  have hfails : b.FailsOnly s fun _ => False := by
    refine ⟨hdest, ?_, fun x hx _ hhash hnot => hnot (hread x hx hhash)⟩
    intro before t after front x back c error hto hl hkept hcopy herror
    have hx : x ∈ b.source.entries := hl ▸ List.mem_append_cons_self
    have hpath : x.copyPath = x.path := if_neg (by simp [hsymlink x hx])
    rw [hto, List.nodup_middle, List.nodup_cons] at hnodup
    have hcopy := hcopy fun hmem => hnodup.1 (List.mem_append_left _ hmem)
    have hfront (y : SourceEntry) (hy : y ∈ front) : y ∈ b.source.entries :=
      hl ▸ List.mem_append_left _ hy
    have hfree : c x.path = none := by
      rw [Option.eq_none_iff_forall_ne_some]
      intro node hnode
      rw [hcopy.eq_some_iff (fun y hy => hsymlink y (hfront y hy)) (b.source.path_ne_nil x hx)]
        at hnode
      exact b.source.path_ne_of_eq hl hnode.1 rfl
    have hparent : c x.path.dropLast = some .directory := by
      rcases hkept.parent_mem hl with hnil | ⟨y, hy, hykept, hypath, hynode⟩
      · rw [hnil]
        exact (hcopy _ _).2 (.inl (by simp))
      · refine (hcopy _ _).2 (.inr ⟨y, hy, hykept, ?_, copyOf_eq_directory_iff.2 hynode⟩)
        rw [SourceEntry.copyPath, if_neg (by simp [hynode, Node.isSymlink]), hypath]
    rw [hpath, createNode, if_neg (fun hnot => hnot.2 hparent), if_pos hfree] at herror
    cases herror
  rcases doBackup_copied hnew hfails with ⟨r, -, -, hr⟩ | ⟨-, h⟩
  · exact hr.elim
  · exact h.succeeded

/-- The backup of a tree without symlinks: every operation finds its parent directory, and
    if all operations succeed, every new directory contains those entries of the source
    whose path contains no text to ignore, and nothing else. -/
theorem doBackup_filtered (b : BackupJob)
    (hsymlink : ∀ x ∈ b.source.entries, x.node.isSymlink = false) (s : BackupState)
    (hnew : b.IsNew s) :
    (∀ r ∈ (b.doBackup s).2.log, r.error ≠ some .noParent) ∧
    ((b.doBackup s).2.Succeeded → ∀ t ∈ b.entry.to_,
      ∃ c, (b.doBackup s).2.destinations t = some c ∧ ∀ path ≠ [], ∀ node,
        c path = some node ↔ ⟨path, node⟩ ∈ b.source.entries ∧
          ∀ i ∈ b.entry.ignoreList, i ≠ [] → ¬i <:+: (LexPath.rel path).generic) := by
  refine ⟨doBackup_parentsFound hsymlink s, fun hs t ht => ?_⟩
  obtain ⟨c, hc, hcopy⟩ := (visited_of_succeeded hnew hs).2.visited t ht
  refine ⟨c, hc, fun path hpath node => ?_⟩
  rw [hcopy.eq_some_iff hsymlink hpath, kept_iff]

/-- A state in which all destinations are there. -/
def readyState (b : BackupJob) : BackupState where
  destinations := fun t => if t ∈ b.entry.to_ then some fun _ => none else none
  log := []
  hashBuf := [0, 0, 0]
  ctxFrom := default
  ctxTo := default
  hashFrom := none

theorem isNew_readyState (b : BackupJob) : b.IsNew b.readyState := fun t ht c hc path => by
  rw [← Option.some.inj ((if_pos ht).symm.trans hc)]

/-- Two directories with a file each, and another file. What is called `b` is ignored. -/
def fileJob : BackupJob where
  entry :=
    { from_ := ['/', 's'], to_ := [['/', 't'], ['/', 'u']], ignoreList := [['b'], []]
      maxBackups := 1, calculateHash := true }
  datetime := ['1']
  source :=
    { entries := [⟨[['a']], .directory⟩, ⟨[['a'], ['c']], .file [1, 2]⟩, ⟨[['b']], .directory⟩,
        ⟨[['b'], ['c']], .file [3]⟩, ⟨[['c']], .file []⟩]
      path_ne_nil := by decide
      validName := by decide
      nodup := by decide
      parent_mem := by decide }
  currentPath := ⟨['/'], []⟩
  isAbsolute_currentPath := rfl
  toPath := LexPath.ofText

theorem doBackup_filtered_fileJob :
    (fileJob.doBackup fileJob.readyState).2.log.length = 14 ∧
    (∀ r ∈ (fileJob.doBackup fileJob.readyState).2.log, r.error ≠ some .noParent) ∧
    ∃ c, (fileJob.doBackup fileJob.readyState).2.destinations ['/', 'u'] = some c ∧
      ∀ path ≠ [], ∀ node,
        c path = some node ↔ ⟨path, node⟩ ∈ fileJob.source.entries ∧
          ∀ i ∈ fileJob.entry.ignoreList, i ≠ [] → ¬i <:+: (LexPath.rel path).generic := by
  have h := doBackup_filtered fileJob (by decide) fileJob.readyState (isNew_readyState fileJob)
  have hlog : (fileJob.doBackup fileJob.readyState).2.log.map Operation.error =
      List.replicate 14 none := by
    decide +kernel
  have hsucceeded : (fileJob.doBackup fileJob.readyState).2.Succeeded := fun r hr =>
    List.eq_of_mem_replicate (hlog ▸ List.mem_map_of_mem hr)
  exact ⟨by simpa using congrArg List.length hlog, h.1, h.2 hsucceeded ['/', 'u'] (by decide)⟩

end BackupJob

end QustomKeyboard

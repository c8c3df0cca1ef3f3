import QustomKeyboard.Backup.Copying

/-!
# Copies of a tree

Unless an operation fails, every destination gets the entries of the source that are
not ignored, each at its `copyPath`, and nothing else (`IsCopy`). The rule for this
(`doBackup_copied`) is told which kind of operations may fail at all (`FailsOnly`): one
of them does, or the backup comes to its end with copies in all destinations.

The digests never differ then: the contexts have taken the same bytes.
-/

namespace QustomKeyboard

open Theory

namespace BackupJob

variable {b : BackupJob} {t : WString} {x : SourceEntry} {s : BackupState} {P : Operation → Prop}

/-! ## The source -/

/-- Entries that are not ignored have been copied to what was there, `c₀`. -/
def Adds (b : BackupJob) (t : WString) (entries : List SourceEntry) (c₀ c : Contents) : Prop :=
  ∀ path node, c path = some node ↔ c₀ path = some node ∨
    ∃ x ∈ entries, b.Kept x ∧ x.copyPath = path ∧ b.copyOf t x.node = node

/-- A new directory. -/
def emptyContents : Contents := fun path => if path = [] then some .directory else none

@[simp] theorem emptyContents_eq_some {path : List WString} {node : Node} :
    emptyContents path = some node ↔ path = [] ∧ node = .directory := by
  unfold emptyContents
  split_ifs with h
  · simp [h, eq_comm]
  · simp [h]

/-- The entries that are not ignored have been copied to a new directory. -/
def IsCopy (b : BackupJob) (t : WString) (entries : List SourceEntry) (c : Contents) : Prop :=
  b.Adds t entries emptyContents c

theorem Adds.refl (c : Contents) : b.Adds t [] c c := fun path node => by simp

/-- Another entry is copied. -/
theorem Adds.concat {front : List SourceEntry} {c₀ c c' : Contents} (h : b.Adds t front c₀ c)
    (hx : b.Kept x)
    (hc : ∀ path node, c' path = some node ↔
      c path = some node ∨ x.copyPath = path ∧ b.copyOf t x.node = node) :
    b.Adds t (front ++ [x]) c₀ c' := fun path node => by
  rw [hc, h, or_assoc]
  simp [or_and_right, exists_or, hx]

/-- Another entry is ignored. -/
theorem Adds.concat_of_not_kept {front : List SourceEntry} {c₀ c : Contents}
    (h : b.Adds t front c₀ c) (hx : ¬b.Kept x) : b.Adds t (front ++ [x]) c₀ c :=
  fun path node => by
    rw [h]
    simp [or_and_right, exists_or, hx]

/-- To copy once more changes nothing. -/
theorem IsCopy.adds {entries : List SourceEntry} {c₀ c : Contents} (h₀ : b.IsCopy t entries c₀)
    (h : b.Adds t entries c₀ c) : b.IsCopy t entries c := fun path node => by
  rw [h, h₀, or_assoc, or_self]

/-- The loop over the source has got behind these entries, and all has gone well. -/
structure Copied (b : BackupJob) (t : WString) (c₀ : Contents) (s₀ : BackupState)
    (front : List SourceEntry) (s : BackupState) : Prop where
  succeeded : s.Succeeded
  elsewhere : ∀ t' ≠ t, s.destinations t' = s₀.destinations t'
  contents : ∃ c, s.destinations t = some c ∧ b.Adds t front c₀ c
  fresh : ∀ x ∈ front, b.Kept x → x.node ≠ .directory → c₀ x.copyPath = none
  hashed : Hashed (b.hashed front) s₀ s

theorem hashed_concat (front : List SourceEntry) (x : SourceEntry) :
    b.hashed (front ++ [x]) = b.hashed front ++ if b.Kept x then b.hashedBytes x else [] := by
  rw [hashed, hashed, List.filter_append, List.flatMap_append]
  split_ifs with h
  · simp [h]
  · simp [h]

theorem copyOf_eq_directory_iff {node : Node} :
    b.copyOf t node = .directory ↔ node = .directory := by
  cases node <;> simp [copyOf]

/-- The next entry is copied as well, or an operation on it fails. -/
theorem Copied.step {c₀ : Contents} {s₀ : BackupState} {front : List SourceEntry}
    (h : b.Copied t c₀ s₀ front s) (hx : x ∈ b.source.entries)
    (hcreate : b.Kept x → ∀ c error, b.Adds t front c₀ c →
      createNode x.copyPath (b.copyOf t x.node) (some c) = .error error →
      P ⟨.create x.copyPath (b.copyOf t x.node), some error⟩)
    (hread : b.Kept x → b.entry.calculateHash = true →
      ¬Readable s₀.hashBuf.length x.content → P ⟨.read x.path, some .endless⟩) :
    Ends (fun e => e.2.Failed P) (b.Copied t c₀ s₀ (front ++ [x])) (b.copyEntry t s x) := by
  rw [copyEntry_eq hx]
  by_cases hkept : b.Kept x
  · rw [if_pos hkept]
    obtain ⟨c, hc, hadds⟩ := h.contents
    refine Ends.bind (P := fun s' => s'.Succeeded ∧ ∃ c' log,
      createNode x.copyPath (b.copyOf t x.node) (some c) = .ok c' ∧
      s' = { s with log := log, destinations := Function.update s.destinations t (some c') })
      (BackupState.create_ends (fun c' hc' => ?_) fun error herror => ?_) ?_
    · rw [hc] at hc'
      exact ⟨BackupState.succeeded_record.2 h.succeeded, c', _, hc', rfl⟩
    · rw [hc] at herror
      exact BackupState.failed_record (hcreate hkept c error hadds herror)
    rintro s' ⟨hs', c', log, hc', rfl⟩
    obtain ⟨hfound, hfree⟩ := createNode_eq_ok hc'
    refine (hashEntry_ends hs' fun hhash hnot => hread hkept hhash
      (h.hashed.length_hashBuf ▸ hnot)).mono (fun _ he => he) ?_
    rintro s'' ⟨hs'', hdest, hhashed⟩
    refine ⟨hs'', fun t' ht' => ?_, ⟨c', ?_, hadds.concat hkept hfound⟩, ?_, ?_⟩
    · rw [hdest]
      exact (Function.update_of_ne ht' ..).trans (h.elsewhere t' ht')
    · rw [hdest]
      exact Function.update_self ..
    · -- What has not been there until now was not there at first.
      intro y hy hykept hnode
      rcases List.mem_append.1 hy with hy | hy
      · exact h.fresh y hy hykept hnode
      · rw [List.mem_singleton.1 hy] at hnode ⊢
        have hnone := hfree (mt copyOf_eq_directory_iff.1 hnode)
        rw [Option.eq_none_iff_forall_ne_some] at hnone ⊢
        exact fun node hnode => hnone node ((hadds _ _).2 (.inl hnode))
    · rw [hashed_concat, if_pos hkept]
      exact h.hashed.trans
        ⟨hhashed.length_hashBuf, hhashed.ctxTo, hhashed.ctxFrom, hhashed.hashFrom⟩
  · rw [if_neg hkept]
    obtain ⟨c, hc, hadds⟩ := h.contents
    refine ⟨h.succeeded, h.elsewhere, ⟨c, hc, hadds.concat_of_not_kept hkept⟩, ?_, ?_⟩
    · intro y hy hykept
      rcases List.mem_append.1 hy with hy | hy
      · exact h.fresh y hy hykept
      · exact absurd (List.mem_singleton.1 hy ▸ hykept) hkept
    · rw [hashed_concat, if_neg hkept, List.append_nil]
      exact h.hashed

/-! ## Outcomes -/

/-- Where the loop over the source is left, it is by an error or an exception. -/
theorem copyEntry_exit_ne_finished (hx : x ∈ b.source.entries) :
    Ends (fun e => e.1 ≠ .finished) (fun _ => True) (b.copyEntry t s x) := by
  rw [copyEntry_eq hx]
  split_ifs
  · refine Ends.bind (P := fun _ => True)
      (BackupState.create_ends (fun _ _ => trivial) fun _ _ => ?_) fun s _ => ?_
    · show x.exit ≠ .finished
      rw [SourceEntry.exit]
      split_ifs <;> exact nofun
    · have hread (s : BackupState) (ctx : Sha256Ctx) (content : List UInt8) :
          Ends (fun e => e.1 ≠ .finished) (fun _ => True) (s.read ctx x.path content) :=
        BackupState.read_ends (fun _ _ => trivial) fun _ => nofun
      rw [hashEntry]
      split
      · rw [hashFiles]
        split
        · trivial
        · refine (hread _ _ _).bind ?_
          rintro ⟨s, ctxTo⟩ -
          simp only
          split
          · trivial
          · exact (hread _ _ _).bind fun _ _ => trivial
      · trivial
  · trivial

/-- What there is to know of an entry that fails in this way, if it does. -/
def sourceFile (b : BackupJob) (failure : Option Failure) (x : SourceEntry) : SourceFile where
  relPath := (b.relPath x).generic
  isCancelled := false
  failure := failure

/-- The loop over the source ends as that over files of which it is only known whether
    they can be copied. -/
theorem exists_copyFiles {entries : List SourceEntry} (h : ∀ x ∈ entries, x ∈ b.source.entries)
    (s : BackupState) :
    ∃ files : List SourceFile,
      files.map SourceFile.relPath = entries.map (fun x => (b.relPath x).generic) ∧
      (∀ p ∈ files, p.isCancelled = false) ∧
      copyFiles b.entry files = match entries.foldlM (b.copyEntry t) s with
        | .ok _ => .finished
        | .error e => e.1 := by
  induction entries generalizing s with
  | nil => exact ⟨[], rfl, nofun, rfl⟩
  | cons x entries ih =>
    rw [List.forall_mem_cons] at h
    have hexit := copyEntry_exit_ne_finished (t := t) (s := s) h.1
    rw [List.foldlM_cons]
    rcases hcopy : b.copyEntry t s x with ⟨exit, s'⟩ | s'
    · -- How the other files would fare does not matter any more.
      rw [hcopy] at hexit
      have hkept : b.entry.isInIgnoreList (b.relPath x).generic = false := by
        rw [Bool.eq_false_iff]
        intro hignored
        rw [copyEntry, if_pos hignored] at hcopy
        cases hcopy
      refine ⟨b.sourceFile (some (if exit = .left then .exception else .error)) x ::
        entries.map (b.sourceFile none), ?_, ?_, ?_⟩
      · rw [List.map_cons, List.map_cons, List.map_map]
        rfl
      · refine List.forall_mem_cons.2 ⟨rfl, fun p hp => ?_⟩
        obtain ⟨y, -, rfl⟩ := List.mem_map.1 hp
        rfl
      · cases exit with
        | finished => exact absurd rfl hexit
        | broken => simp [copyFiles, sourceFile, hkept, bind, Except.bind]
        | left => simp [copyFiles, sourceFile, bind, Except.bind]
    · obtain ⟨files, hpaths, hcancelled, hfiles⟩ := ih h.2 s'
      refine ⟨b.sourceFile none x :: files, ?_, ?_, ?_⟩
      · rw [List.map_cons, List.map_cons, hpaths]
        rfl
      · exact List.forall_mem_cons.2 ⟨rfl, hcancelled⟩
      · simpa [copyFiles, sourceFile, bind, Except.bind] using hfiles

/-! ## The destinations -/

/-- Only operations of a kind fail: an entry is copied to where there is already what has
    been copied before, unless there was a backup in this destination before. -/
structure FailsOnly (b : BackupJob) (s₀ : BackupState) (P : Operation → Prop) : Prop where
  destination : ∀ t ∈ b.entry.to_, s₀.destinations t = none →
    P ⟨.create [] .directory, some .noDestination⟩
  create : ∀ before t after front x back c error, b.entry.to_ = before ++ t :: after →
    b.source.entries = front ++ x :: back → b.Kept x → (t ∉ before → b.IsCopy t front c) →
    createNode x.copyPath (b.copyOf t x.node) (some c) = .error error →
    P ⟨.create x.copyPath (b.copyOf t x.node), some error⟩
  read : ∀ x ∈ b.source.entries, b.Kept x → b.entry.calculateHash = true →
    ¬Readable s₀.hashBuf.length x.content → P ⟨.read x.path, some .endless⟩

/-- The loop over the destinations has got behind these, and all has gone well. -/
structure Visited (b : BackupJob) (s₀ : BackupState) (before : List WString) (s : BackupState) :
    Prop where
  succeeded : s.Succeeded
  visited : ∀ t ∈ before, ∃ c, s.destinations t = some c ∧ b.IsCopy t b.source.entries c
  unvisited : ∀ t ∉ before, s.destinations t = s₀.destinations t
  nodup : (∃ x ∈ b.source.entries, b.Kept x ∧ x.node ≠ .directory) → before.Nodup
  length_hashBuf : s.hashBuf.length = s₀.hashBuf.length
  hashFrom : s.hashFrom = none ∧ (∃ ctx, s.ctxFrom = sha256Init ctx) ∨ s.hashFrom = some b.digest

variable {s₀ : BackupState} {before after : List WString}

/-- What is in the new directory at first: nothing, or copies if the destination has been
    visited. -/
def FirstContents (b : BackupJob) (before : List WString) (t : WString) (c₀ : Contents) : Prop :=
  t ∉ before ∧ c₀ = emptyContents ∨ t ∈ before ∧ b.IsCopy t b.source.entries c₀

/-- The state after the new directory has been created. -/
def entered (s : BackupState) (t : WString) (c₀ : Contents) (log : List Operation) :
    BackupState :=
  { s with
    ctxTo := sha256Init s.ctxTo
    log := log
    destinations := Function.update s.destinations t (some c₀) }

/-- Behind the visited destinations, the loop over the source has got behind `front` in the
    next one. -/
def Underway (b : BackupJob) (before : List WString) (s : BackupState) (t : WString)
    (front : List SourceEntry) (s' : BackupState) : Prop :=
  ∃ c₀ log, b.FirstContents before t c₀ ∧ b.Copied t c₀ (entered s t c₀ log) front s'

theorem Visited.createNode_root (h : b.Visited s₀ before s) (hnew : b.IsNew s₀)
    (ht : t ∈ b.entry.to_) :
    (s₀.destinations t = none ∧
      createNode [] .directory (s.destinations t) = .error .noDestination) ∨
    ∃ c₀, createNode [] .directory (s.destinations t) = .ok c₀ ∧ b.FirstContents before t c₀ := by
  by_cases hmem : t ∈ before
  · obtain ⟨c, hc, hcopy⟩ := h.visited t hmem
    have hroot : c [] = some .directory := (hcopy _ _).2 (.inl rfl)
    exact .inr ⟨c, by simp [createNode, hc, hroot], .inr ⟨hmem, hcopy⟩⟩
  · rw [h.unvisited t hmem]
    rcases hc : s₀.destinations t with _ | c
    · exact .inl ⟨rfl, rfl⟩
    · obtain rfl : c = fun _ => none := funext (hnew t ht c hc)
      have hroot : Function.update (fun _ => none) [] (some .directory) = emptyContents :=
        funext fun path => by rw [Function.update_apply, emptyContents]
      refine .inr ⟨emptyContents, ?_, .inl ⟨hmem, rfl⟩⟩
      rw [createNode, if_neg (fun hnot => hnot.1 rfl), if_pos rfl, hroot]

/-- The next destination is entered, if it is there. -/
theorem Visited.enter (h : b.Visited s₀ before s) (hnew : b.IsNew s₀) (ht : t ∈ b.entry.to_)
    (hP : s₀.destinations t = none → P ⟨.create [] .directory, some .noDestination⟩) :
    Ends (fun e => e.2.Failed P) (b.Underway before s t [])
      (({ s with ctxTo := sha256Init s.ctxTo } : BackupState).create t .broken [] .directory) := by
  refine BackupState.create_ends (fun c hc => ?_) fun error herror => ?_
  · rcases h.createNode_root hnew ht with ⟨-, hroot⟩ | ⟨c₀, hroot, hc₀⟩
    · cases hroot.symm.trans hc
    · rw [← Except.ok.inj (hroot.symm.trans hc)]
      exact ⟨c₀, _, hc₀, BackupState.succeeded_record.2 h.succeeded, fun _ _ => rfl,
        ⟨c₀, Function.update_self .., .refl c₀⟩, fun x hx => absurd hx List.not_mem_nil, .refl _⟩
  · rcases h.createNode_root hnew ht with ⟨hnone, hroot⟩ | ⟨c₀, hroot, -⟩
    · rw [← Except.error.inj (hroot.symm.trans herror)]
      exact BackupState.failed_record (hP hnone)
    · cases hroot.symm.trans herror

section Concat

variable {c₀ : Contents} {s' : BackupState} {log : List Operation}

/-- Behind the loop over the source, the destination is one more that has been visited. The
    digest of the source may be set after that. -/
theorem Visited.concat {hashFrom : Option (List UInt8)} (h : b.Visited s₀ before s)
    (hc₀ : b.FirstContents before t c₀)
    (hs' : b.Copied t c₀ (entered s t c₀ log) b.source.entries s')
    (hfrom : hashFrom = none ∧ (∃ ctx, s'.ctxFrom = sha256Init ctx) ∨
      hashFrom = some b.digest) :
    b.Visited s₀ (before ++ [t]) { s' with hashFrom } := by
  have helse (t' : WString) (ht' : t' ≠ t) : s'.destinations t' = s.destinations t' :=
    (hs'.elsewhere t' ht').trans (Function.update_of_ne ht' ..)
  obtain ⟨c, hc, hadds⟩ := hs'.contents
  refine ⟨hs'.succeeded, fun t' ht' => ?_, fun t' ht' => ?_, ?_,
    hs'.hashed.length_hashBuf.trans h.length_hashBuf, hfrom⟩
  · rcases eq_or_ne t' t with rfl | hne
    · refine ⟨c, hc, ?_⟩
      rcases hc₀ with ⟨-, rfl⟩ | ⟨-, hcopy⟩
      · exact hadds
      · exact hcopy.adds hadds
    · obtain ⟨c, hc, hcopy⟩ := h.visited t'
        ((List.mem_append.1 ht').resolve_right (mt List.mem_singleton.1 hne))
      exact ⟨c, (helse t' hne).trans hc, hcopy⟩
  · rw [List.mem_append, List.mem_singleton, not_or] at ht'
    exact (helse t' ht'.2).trans (h.unvisited t' ht'.1)
  · -- A copy that has been there before would have been in the way.
    rintro ⟨x, hx, hkept, hnode⟩
    refine List.nodup_append.2 ⟨h.nodup ⟨x, hx, hkept, hnode⟩, List.nodup_singleton t, ?_⟩
    rintro t' ht' _ hmem rfl
    obtain rfl := List.mem_singleton.1 hmem
    rcases hc₀ with ⟨hnot, -⟩ | ⟨-, hcopy⟩
    · exact hnot ht'
    · have hnone := hs'.fresh x hx hkept hnode
      rw [(hcopy _ _).2 (.inr ⟨x, hx, hkept, rfl, rfl⟩)] at hnone
      cases hnone

/-- The digests agree. -/
theorem Visited.hash (h : b.Visited s₀ before s)
    (hs' : b.Copied t c₀ (entered s t c₀ log) b.source.entries s') :
    sha256Final s'.ctxTo = b.digest ∧ s'.hashFrom.getD (sha256Final s'.ctxFrom) = b.digest := by
  have hhashFrom : s'.hashFrom = s.hashFrom := hs'.hashed.hashFrom
  constructor
  · rw [hs'.hashed.ctxTo]
    exact sha256Final_hashed _
  · rw [hhashFrom]
    rcases h.hashFrom with ⟨hnone, ctx, hctx⟩ | hsome
    · have hctxFrom : (entered s t c₀ log).ctxFrom = sha256Init ctx := hctx
      rw [hnone, Option.getD_none, hs'.hashed.ctxFrom hnone, hctxFrom, sha256Final_hashed]
    · rw [hsome, Option.getD_some]

/-- Without hashing, the digest of the source is neither known nor begun. -/
theorem Visited.hash_eq_none (h : b.Visited s₀ before s)
    (hhash : b.entry.calculateHash = false)
    (hs' : b.Copied t c₀ (entered s t c₀ log) b.source.entries s') :
    s'.hashFrom = none ∧ (∃ ctx, s'.ctxFrom = sha256Init ctx) ∨ s'.hashFrom = some b.digest := by
  have hhashFrom : s'.hashFrom = s.hashFrom := hs'.hashed.hashFrom
  have hnil : b.hashed b.source.entries = [] := by simp [hashed, hashedBytes, hhash]
  rw [hhashFrom]
  apply h.hashFrom.imp_left
  rintro ⟨hnone, ctx, hctx⟩
  refine ⟨hnone, ctx, ?_⟩
  rw [hs'.hashed.ctxFrom hnone, hnil]
  exact hctx

end Concat

/-- What has failed stays so, in the next destination. -/
theorem copyDestination_failed (h : s.Failed P) :
    Ends (fun e => e.2.Failed P) (fun s => s.Failed P) (b.copyDestination s t) := by
  obtain ⟨r, hr, herror, hP⟩ := h
  exact (copyDestination_keeps hr).mono (fun e he => ⟨r, he, herror, hP⟩)
    fun s hs => ⟨r, hs, herror, hP⟩

/-- The source is copied to the next destination as well, or an operation fails. -/
theorem Visited.step (h : b.Visited s₀ before s) (hnew : b.IsNew s₀) (hP : b.FailsOnly s₀ P)
    (hto : b.entry.to_ = before ++ t :: after) :
    Ends (fun e => e.2.Failed P) (fun s' => s'.Failed P ∨ b.Visited s₀ (before ++ [t]) s')
      (b.copyDestination s t) := by
  have ht : t ∈ b.entry.to_ := hto ▸ List.mem_append_cons_self
  refine copyDestination_ends (F := fun e => e.2.Failed P) (I := b.Underway before s t)
    (Q := fun s' => s'.Failed P ∨ b.Underway before s t b.source.entries s')
    (h.enter hnew ht (hP.destination t ht)) ?_ (fun _ hs => hs) (fun _ _ _ hs => .inl hs)
    (fun _ hs => .inr hs) ?_
  · rintro front x back s' hl ⟨c₀, log, hc₀, hs'⟩
    have hx : x ∈ b.source.entries := hl ▸ List.mem_append_cons_self
    refine (hs'.step hx (fun hkept c error hadds herror => ?_) fun hkept hhash hnot => ?_).mono
      (fun _ he => he) fun s'' hs'' => ⟨c₀, log, hc₀, hs''⟩
    · refine hP.create before t after front x back c error hto hl hkept (fun hmem => ?_) herror
      obtain ⟨-, rfl⟩ := hc₀.resolve_right fun hc₀ => hmem hc₀.1
      exact hadds
    · exact hP.read x hx hkept hhash (h.length_hashBuf ▸ hnot)
  · rintro s' (hfailed | ⟨c₀, log, hc₀, hs'⟩)
    · exact (compareHashes_preserves (I := fun log => ∃ r ∈ log, r.error ≠ none ∧ P r) hfailed).mono
        (fun e he => he) fun s hs => .inl hs
    · obtain ⟨hto, hfrom⟩ := h.hash hs'
      refine compareHashes_ends hto hfrom (fun hhash => .inr ?_)
        (.inr (h.concat hc₀ hs' (.inr rfl)))
      exact h.concat hc₀ hs' (h.hash_eq_none hhash hs')

/-- The backup has come to its end, with copies in all destinations, or an operation has
    failed. -/
theorem doBackup_copied (hnew : b.IsNew s₀) (hP : b.FailsOnly s₀ P) :
    (b.doBackup s₀).2.Failed P ∨
      (b.doBackup s₀).1 = .finished ∧ b.Visited s₀ b.entry.to_ (b.doBackup s₀).2 := by
  refine doBackup_rule (I := fun before s => s.Failed P ∨ b.Visited s₀ before s)
    (E := fun e => e.2.Failed P)
    (R := fun e => e.2.Failed P ∨ e.1 = .finished ∧ b.Visited s₀ b.entry.to_ e.2)
    (.inr ?_) (fun before t after s hto hs => ?_) (fun _ he => .inl he)
    fun s hs => hs.imp_right fun hs => ⟨rfl, hs⟩
  · exact ⟨fun _ h => absurd h List.not_mem_nil, fun _ h => absurd h List.not_mem_nil,
      fun _ _ => rfl, fun _ => List.nodup_nil, rfl, .inl ⟨rfl, _, rfl⟩⟩
  · rcases hs with hfailed | hs
    · exact (copyDestination_failed hfailed).mono (fun e he => he) fun s hs => .inl hs
    · exact hs.step hnew hP hto

end BackupJob

end QustomKeyboard

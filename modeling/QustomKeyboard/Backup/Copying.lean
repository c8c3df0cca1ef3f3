import QustomKeyboard.Backup.Tree

/-!
# Copying an entry

An entry of the source is copied by one operation, to its `copyPath`, and hashed after
that if it is a file (`copyEntry_eq`). Symlinks lose all but the name of their path.

Every operation is tried, and then in the log. An operation of some kind has failed, or
none has and the operation has done what it is for: this is how the rules for single
operations are stated, with the kind `P` of what may be known to fail.
-/

namespace QustomKeyboard

open Theory

/-! ## Paths -/

namespace SourceEntry

/-- Where the copy is found: a symlink at the top. -/
def copyPath (x : SourceEntry) : List WString :=
  if x.node.isSymlink then [x.path.getLast?.getD []] else x.path

/-- How the backup goes on when the copy cannot be created. -/
def exit (x : SourceEntry) : Exit := if x.node.isSymlink then .left else .broken

/-- The content of a file. -/
def content (x : SourceEntry) : List UInt8 :=
  match x.node with
  | .file content => content
  | _ => []

end SourceEntry

theorem SourceTree.parent_mem_of_eq (tree : SourceTree) {front back : List SourceEntry}
    {x : SourceEntry} (h : tree.entries = front ++ x :: back) :
    x.path.dropLast = [] ∨ ⟨x.path.dropLast, .directory⟩ ∈ front := by
  have hparent := tree.parent_mem front.length (by simp [h])
  simpa [h] using hparent

/-- No path is visited twice. -/
theorem SourceTree.path_ne_of_eq (tree : SourceTree) {front back : List SourceEntry}
    {x y : SourceEntry} (h : tree.entries = front ++ x :: back) (hy : y ∈ front) :
    y.path ≠ x.path := by
  have hnodup := tree.nodup
  rw [h, List.map_append, List.map_cons, List.nodup_middle, List.nodup_cons] at hnodup
  exact fun heq => hnodup.1 (List.mem_append_left _ (List.mem_map.2 ⟨y, hy, heq⟩))

namespace BackupJob

variable (b : BackupJob)

/-- The copy of a node: the target of a symlink is taken from the new directory. -/
def copyOf (t : WString) : Node → Node
  | .symlink target => .symlink (b.currentPath / (b.destinationDir t / target))
  | node => node

/-- The entry is not ignored. -/
def Kept (x : SourceEntry) : Prop :=
  b.entry.isInIgnoreList (LexPath.rel x.path).generic = false

instance (x : SourceEntry) : Decidable (b.Kept x) := inferInstanceAs (Decidable (_ = false))

variable {b} {t : WString} {x : SourceEntry}

theorem currentPath_append_append (p : LexPath) :
    b.currentPath / (b.currentPath / p) = b.currentPath / p := by
  rw [← LexPath.append_assoc, LexPath.append_of_isAbsolute _ b.isAbsolute_currentPath]

@[simp] theorem place_append_rel (t : WString) (names : List WString) :
    b.place t (b.destinationDir t / .rel names) = names := by
  rw [place, ← LexPath.append_assoc, LexPath.within_append, Option.getD_some]

theorem exists_path_eq_cons (hx : x ∈ b.source.entries) :
    ∃ n names, x.path = n :: names ∧ n ≠ [] := by
  obtain ⟨n, names, hpath⟩ := List.exists_cons_of_ne_nil (b.source.path_ne_nil x hx)
  exact ⟨n, names, hpath, (b.source.validName x hx n (hpath ▸ List.mem_cons_self)).1⟩

theorem exists_path_eq_append (hx : x ∈ b.source.entries) :
    ∃ names n, x.path = names ++ [n] ∧ n ≠ [] := by
  have hne := b.source.path_ne_nil x hx
  exact ⟨x.path.dropLast, x.path.getLast hne, (List.dropLast_concat_getLast hne).symm,
    (b.source.validName x hx _ (List.getLast_mem hne)).1⟩

theorem relPath_eq (hx : x ∈ b.source.entries) : b.relPath x = .rel x.path := by
  obtain ⟨n, names, hpath, hn⟩ := exists_path_eq_cons hx
  rw [relPath, sourcePath, hpath, LexPath.lexicallyProximate_append hn]

/-- Only the name of a symlink is left in its path. -/
theorem place_symlinkPath (hx : x ∈ b.source.entries) :
    b.place t (b.symlinkPath t x) = [x.path.getLast?.getD []] := by
  obtain ⟨names, n, hpath, hn⟩ := exists_path_eq_append hx
  have hname : (b.sourcePath x).filename = n := by
    rw [sourcePath, hpath, LexPath.filename_append_rel]
  rw [hpath, List.getLast?_concat, Option.getD_some, symlinkPath, hname,
    LexPath.lexicallyRelative_append hn, place, LexPath.append_assoc, currentPath_append_append,
    ← LexPath.append_assoc, LexPath.within_append, Option.getD_some]

/-- The digests of an entry, if it is a file. -/
def hashEntry (b : BackupJob) (x : SourceEntry) (s : BackupState) : Leaving BackupState :=
  match x.node with
  | .file content => b.hashFiles x content s
  | _ => .ok s

/-- Every kind of entry is copied by one operation, a file hashed after that. -/
theorem copyEntry_eq (hx : x ∈ b.source.entries) (s : BackupState) :
    b.copyEntry t s x = if b.Kept x then
      (s.create t x.exit x.copyPath (b.copyOf t x.node)).bind (b.hashEntry x) else .ok s := by
  have hbind (r : Leaving BackupState) : r.bind .ok = r := by cases r <;> rfl
  rw [copyEntry, relPath_eq hx, place_append_rel, place_symlinkPath hx]
  by_cases hkept : b.Kept x
  · rw [if_pos hkept, if_neg (Bool.eq_false_iff.1 hkept)]
    rcases x with ⟨path, _ | content | target⟩
    · exact (hbind _).symm
    · rfl
    · exact (hbind _).symm
  · rw [if_neg hkept, if_pos (Bool.not_eq_false _ ▸ hkept)]

end BackupJob

/-! ## Operations -/

/-- What has been created is found, with all that has been there before. -/
theorem createNode_eq_ok {path : List WString} {node : Node} {c c' : Contents}
    (h : createNode path node (some c) = .ok c') :
    (∀ p n, c' p = some n ↔ c p = some n ∨ path = p ∧ node = n) ∧
      (node ≠ .directory → c path = none) := by
  rw [createNode] at h
  split_ifs at h with hparent hfree hdir
  · rw [← Except.ok.inj h]
    refine ⟨fun p n => ?_, fun _ => hfree⟩
    rcases eq_or_ne path p with rfl | hne
    · simp [hfree]
    · rw [Function.update_of_ne hne.symm]
      simp [hne]
  · rw [← Except.ok.inj h]
    refine ⟨fun p n => ⟨.inl, ?_⟩, fun hnode => absurd hdir.2 hnode⟩
    rintro (hc | ⟨rfl, rfl⟩)
    · exact hc
    · rw [hdir.1, hdir.2]

namespace BackupState

variable {E : Exit × BackupState → Prop} {s : BackupState}

@[simp] theorem succeeded_record {op : FileOp} : (s.record op none).Succeeded ↔ s.Succeeded := by
  simp [Succeeded, record, or_imp, forall_and]

/-- An operation of a kind has failed. -/
def Failed (P : Operation → Prop) (s : BackupState) : Prop := ∃ r ∈ s.log, r.error ≠ none ∧ P r

theorem failed_record {P : Operation → Prop} {op : FileOp} {error : OpError}
    (h : P ⟨op, some error⟩) : (s.record op (some error)).Failed P :=
  ⟨_, List.mem_append_right _ List.mem_cons_self, Option.some_ne_none _, h⟩

/-- What is in the log stays there. -/
theorem mem_log_record {r : Operation} (h : r ∈ s.log) (op : FileOp) (error : Option OpError) :
    r ∈ (s.record op error).log := List.mem_append_left _ h

theorem create_ends {Q : BackupState → Prop} {t : WString} {exit : Exit} {path : List WString}
    {node : Node}
    (hok : ∀ c, createNode path node (s.destinations t) = .ok c →
      Q { s.record (.create path node) none with
        destinations := Function.update s.destinations t (some c) })
    (herror : ∀ error, createNode path node (s.destinations t) = .error error →
      E (exit, s.record (.create path node) (some error))) :
    Ends E Q (s.create t exit path node) := by
  rw [create]
  rcases h : createNode path node (s.destinations t) with error | c
  · exact herror error h
  · exact hok c h

theorem read_ends {Q : BackupState × Sha256Ctx → Prop} {ctx : Sha256Ctx} {path : List WString}
    {content : List UInt8}
    (hok : ∀ h, hashFile (content.length + 2) s.hashBuf ctx content = some h →
      Q ({ s.record (.read path) none with hashBuf := h.hashBuf }, h.ctx))
    (herror : hashFile (content.length + 2) s.hashBuf ctx content = none →
      E (.left, s.record (.read path) (some .endless))) :
    Ends E Q (s.read ctx path content) := by
  rw [read]
  rcases h : hashFile (content.length + 2) s.hashBuf ctx content with _ | h
  · exact herror h
  · exact hok _ h

end BackupState

namespace BackupJob

variable {b : BackupJob} {t : WString} {x : SourceEntry} {s : BackupState}

/-! ## What the loops preserve -/

section Log

/-- What the reading of files preserves, the hashing of an entry does. -/
theorem hashEntry_preserves {I : (WString → Option Contents) → List Operation → Prop}
    (hI : ∀ d log path error, error = none ∨ error = some .endless → I d log →
      I d (log ++ [⟨.read path, error⟩]))
    (h : I s.destinations s.log) :
    Ends (fun e => I e.2.destinations e.2.log) (fun s => I s.destinations s.log)
      (b.hashEntry x s) := by
  rw [hashEntry]
  split
  · rename_i content _
    have hread (s : BackupState) (ctx : Sha256Ctx) (h : I s.destinations s.log) :
        Ends (fun e => I e.2.destinations e.2.log) (fun r => I r.1.destinations r.1.log)
          (s.read ctx x.path content) :=
      BackupState.read_ends (fun _ _ => hI _ _ _ _ (.inl rfl) h) fun _ => hI _ _ _ _ (.inr rfl) h
    rw [hashFiles]
    split
    · exact h
    · refine (hread s s.ctxTo h).bind ?_
      rintro ⟨s, ctxTo⟩ hs
      simp only
      split
      · exact hs
      · refine (hread s s.ctxFrom hs).bind ?_
        rintro ⟨s, ctxFrom⟩ hs
        exact hs
  · exact h

theorem compareHashes_preserves {I : List Operation → Prop} (h : I s.log) :
    Ends (fun e => I e.2.log) (fun s => I s.log) (b.compareHashes s) := by
  rw [compareHashes]
  split
  · exact h
  · simp only
    split
    · exact h
    · exact h

variable {r : Operation}

theorem copyEntry_keeps (hx : x ∈ b.source.entries) (h : r ∈ s.log) :
    Ends (fun e => r ∈ e.2.log) (fun s => r ∈ s.log) (b.copyEntry t s x) := by
  rw [copyEntry_eq hx]
  split
  · exact Ends.bind (BackupState.create_ends (Q := fun s => r ∈ s.log)
      (fun _ _ => BackupState.mem_log_record h ..) fun _ _ => BackupState.mem_log_record h ..)
      fun s hs => hashEntry_preserves (I := fun _ log => r ∈ log)
        (fun _ _ _ _ _ hr => List.mem_append_left _ hr) hs
  · exact h

/-- The rule of the loop over the source, with an invariant about the entries visited. The
    digests are compared after it unless the backup is left. -/
theorem copyDestination_ends {E F : Exit × BackupState → Prop}
    {I : List SourceEntry → BackupState → Prop} {Q R : BackupState → Prop}
    (hcreate : Ends E (I [])
      (({ s with ctxTo := sha256Init s.ctxTo } : BackupState).create t .broken [] .directory))
    (hstep : ∀ front x back s, b.source.entries = front ++ x :: back → I front s →
      Ends F (I (front ++ [x])) (b.copyEntry t s x))
    (hleft : ∀ s, F (.left, s) → E (.left, s))
    (hbroken : ∀ exit s, exit ≠ .left → F (exit, s) → Q s)
    (hend : ∀ s, I b.source.entries s → Q s)
    (hcompare : ∀ s, Q s → Ends E R (b.compareHashes s)) :
    Ends E R (b.copyDestination s t) := by
  rw [copyDestination]
  refine hcreate.bind fun s hs => ?_
  have h := Ends.foldlM hstep hs
  generalize b.source.entries.foldlM (b.copyEntry t) s = r at h ⊢
  rcases r with ⟨exit, s⟩ | s
  · cases exit with
    | left => exact hleft s h
    | broken => exact hcompare s (hbroken .broken s nofun h)
    | finished => exact hcompare s (hbroken .finished s nofun h)
  · exact hcompare s (hend s h)

theorem copyDestination_keeps (h : r ∈ s.log) :
    Ends (fun e => r ∈ e.2.log) (fun s => r ∈ s.log) (b.copyDestination s t) := by
  refine copyDestination_ends (F := fun e => r ∈ e.2.log) (I := fun _ s => r ∈ s.log)
    (Q := fun s => r ∈ s.log)
    (BackupState.create_ends (fun _ _ => BackupState.mem_log_record h ..)
      fun _ _ => BackupState.mem_log_record h ..)
    (fun front x back s hl hs => copyEntry_keeps (hl ▸ List.mem_append_cons_self) hs)
    (fun _ hs => hs) (fun _ _ _ hs => hs) (fun _ hs => hs) fun s hs => ?_
  exact compareHashes_preserves (I := fun log => r ∈ log) hs

/-- The rule of the loop over the destinations, with an invariant about those visited. -/
theorem doBackup_rule {E R : Exit × BackupState → Prop} {I : List WString → BackupState → Prop}
    (hstart : I [] { s with log := [], ctxFrom := sha256Init s.ctxFrom, hashFrom := none })
    (hstep : ∀ before t after s, b.entry.to_ = before ++ t :: after → I before s →
      Ends E (I (before ++ [t])) (b.copyDestination s t))
    (hexit : ∀ e, E e → R e) (hend : ∀ s, I b.entry.to_ s → R (.finished, s)) :
    R (b.doBackup s) := by
  have h := Ends.foldlM hstep hstart
  rw [doBackup]
  generalize b.entry.to_.foldlM b.copyDestination _ = r at h ⊢
  rcases r with e | s
  · exact hexit e h
  · exact hend s h

end Log

/-! ## Digests -/

/-- A file with this content can be read in chunks of this size. -/
def Readable (size : ℕ) (content : List UInt8) : Prop :=
  content = [] ∨ 0 < size ∧ (size < 2 ^ 32 ∨ content.length < 2 ^ 32)

/-- The contexts have taken these bytes, that of the source in the first run only. -/
structure Hashed (bytes : List UInt8) (s s' : BackupState) : Prop where
  length_hashBuf : s'.hashBuf.length = s.hashBuf.length
  ctxTo : s'.ctxTo = bytes.foldl Sha256Ctx.push s.ctxTo
  ctxFrom : s.hashFrom = none → s'.ctxFrom = bytes.foldl Sha256Ctx.push s.ctxFrom
  hashFrom : s'.hashFrom = s.hashFrom

theorem Hashed.refl (s : BackupState) : Hashed [] s s := ⟨rfl, rfl, fun _ => rfl, rfl⟩

theorem Hashed.trans {bytes bytes' : List UInt8} {s s' s'' : BackupState} (h : Hashed bytes s s')
    (h' : Hashed bytes' s' s'') : Hashed (bytes ++ bytes') s s'' where
  length_hashBuf := h'.length_hashBuf.trans h.length_hashBuf
  ctxTo := by rw [h'.ctxTo, h.ctxTo, List.foldl_append]
  ctxFrom hnone := by rw [h'.ctxFrom (h.hashFrom.trans hnone), h.ctxFrom hnone, List.foldl_append]
  hashFrom := h'.hashFrom.trans h.hashFrom

/-- The bytes of an entry that are hashed. -/
def hashedBytes (b : BackupJob) (x : SourceEntry) : List UInt8 :=
  if b.entry.calculateHash then x.content else []

variable {P : Operation → Prop}

/-- A file is taken as a whole, or cannot be read. -/
theorem read_ends {ctx : Sha256Ctx} {path : List WString} {content : List UInt8}
    (hs : s.Succeeded)
    (hread : ¬Readable s.hashBuf.length content → P ⟨.read path, some .endless⟩) :
    Ends (fun e => e.2.Failed P)
      (fun r => r.1.Succeeded ∧
        (∃ buf log, r.1 = { s with hashBuf := buf, log := log } ∧
          buf.length = s.hashBuf.length) ∧
        r.2 = content.foldl Sha256Ctx.push ctx)
      (s.read ctx path content) := by
  refine BackupState.read_ends (fun h hh => ?_) fun hnone => ?_
  · obtain ⟨h', hh', -, hctx, hlen⟩ := exists_hashFile (of_hashFile_eq_some hh) ctx
    rw [hh, Option.some.injEq] at hh'
    rw [hh']
    exact ⟨BackupState.succeeded_record.2 hs, ⟨_, _, rfl, hlen⟩, hctx⟩
  · refine BackupState.failed_record (hread fun h => ?_)
    obtain ⟨h', hh', -⟩ := exists_hashFile h ctx
    rw [hnone] at hh'
    cases hh'

theorem hashEntry_ends (hs : s.Succeeded)
    (hread : b.entry.calculateHash = true → ¬Readable s.hashBuf.length x.content →
      P ⟨.read x.path, some .endless⟩) :
    Ends (fun e => e.2.Failed P)
      (fun s' => s'.Succeeded ∧ s'.destinations = s.destinations ∧ Hashed (b.hashedBytes x) s s')
      (b.hashEntry x s) := by
  rw [hashEntry]
  split
  · rename_i content hnode
    have hcontent : x.content = content := by rw [SourceEntry.content, hnode]
    rw [hcontent] at hread
    rw [hashFiles, hashedBytes, hcontent]
    cases hhash : b.entry.calculateHash with
    | false => exact ⟨hs, rfl, .refl s⟩
    | true =>
      refine (read_ends hs (hread hhash)).bind ?_
      rintro ⟨s', ctxTo⟩ ⟨hs', ⟨buf, log, rfl, hbuf⟩, rfl⟩
      simp only [if_true]
      split
      · -- Behind the first run, the digest of the source is known.
        rename_i hsome
        exact ⟨hs', rfl, hbuf, rfl, fun hnone => absurd hsome (by simp [hnone]), rfl⟩
      · refine (read_ends hs' (by rw [hbuf]; exact hread hhash)).bind ?_
        rintro ⟨s'', ctxFrom⟩ ⟨hs'', ⟨buf', log', rfl, hbuf'⟩, rfl⟩
        exact ⟨hs'', rfl, hbuf'.trans hbuf, rfl, fun _ => rfl, rfl⟩
  · rename_i hnode
    have hcontent : x.content = [] := by
      rw [SourceEntry.content]
      split
      · rename_i content hfile
        exact absurd hfile (hnode content)
      · rfl
    rw [hashedBytes, hcontent, ite_self]
    exact ⟨hs, rfl, .refl s⟩

/-- The bytes of some entries that are hashed. -/
def hashed (b : BackupJob) (entries : List SourceEntry) : List UInt8 :=
  (entries.filter b.Kept).flatMap b.hashedBytes

/-- The digest of the source. -/
def digest (b : BackupJob) : List UInt8 :=
  sha256Final ((b.hashed b.source.entries).foldl Sha256Ctx.push (sha256Init default))

theorem sha256Final_hashed (ctx : Sha256Ctx) :
    sha256Final ((b.hashed b.source.entries).foldl Sha256Ctx.push (sha256Init ctx)) = b.digest :=
  ((sha256Init_agrees ctx default).foldl_push _).sha256Final_eq

/-- If both digests are that of the source, the backup goes on. -/
theorem compareHashes_ends {E : Exit × BackupState → Prop} {Q : BackupState → Prop}
    (hto : sha256Final s.ctxTo = b.digest)
    (hfrom : s.hashFrom.getD (sha256Final s.ctxFrom) = b.digest)
    (hQ : b.entry.calculateHash = false → Q s)
    (hQhash : Q { s with hashFrom := some b.digest }) : Ends E Q (b.compareHashes s) := by
  simp only [compareHashes, hto, hfrom]
  cases hhash : b.entry.calculateHash with
  | false => exact hQ hhash
  | true => simpa using hQhash

end BackupJob

end QustomKeyboard

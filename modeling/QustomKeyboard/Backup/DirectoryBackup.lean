import Mathlib
import QustomKeyboard.Theory.Machine

/-!
# Directory backups

A backup entry copies a directory to a new directory in each of its destinations
(`doBackup`), named after the source directory and the time. Before this, in each
destination with at least `maxBackups` names that start with the name of the source
directory, the first one of them is removed with all its contents (`rotate`).

What the file system makes of the operations (errors, exceptions, differing hashes),
and when the user cancels the backup, is given (`Call`). Of the contents of the
directories in a destination, it is only of interest whether they are complete.

Several entries may have the same destinations, and others may change these too
(`directoryBackup`). Texts are sequences of characters, compared lexicographically.
The texts of paths are in the generic form (`generic_wstring`), with `/` between the
names, and different texts are different directories.
-/

namespace QustomKeyboard

open Theory

abbrev WString := List Char

/-- A backup entry. -/
structure BackupEntry where
  from_ : WString
  to_ : List WString
  ignoreList : List WString
  maxBackups : Int32
  calculateHash : Bool

/-- `path::filename`, in the generic form: what comes after the last `/`. -/
def filename (path : WString) : WString := (path.reverse.takeWhile (· ≠ '/')).reverse

/-- The path of a name in a directory. -/
def childPath (t name : WString) : WString :=
  if t.getLast? = some '/' then t ++ name else t ++ '/' :: name

/-- The name that has this path in a directory. -/
def nameIn (t path : WString) : WString := path.drop (childPath t []).length

namespace BackupEntry

/-- The name of the source directory. -/
def folderName (e : BackupEntry) : WString := filename e.from_

/-- `static_cast<size_t>(max_backups)`. -/
def maxCount (e : BackupEntry) : ℕ := (e.maxBackups.toInt % 2 ^ 64).toNat

/-- `BackupEntry::IsInIgnoreList`: the path contains one of the texts. -/
def isInIgnoreList (e : BackupEntry) (p : WString) : Bool :=
  e.ignoreList.any fun i => i <:+: p && 0 < p.length && 0 < i.length

end BackupEntry

/-! ## Destinations -/

/-- What is known about a name in a destination, by who has created it and who has
    copied to it. -/
structure Item (ι : Type*) where
  /-- The entry whose backup has created the directory, if one has. -/
  owner : Option ι
  /-- The entries whose source directory has been copied to it completely. -/
  complete : ι → Bool

/-- A destination directory. -/
structure Directory (ι : Type*) where
  names : Finset WString
  item : WString → Item ι

/-- The destinations, as far as they exist, by their paths: one path for each directory. -/
abbrev FileSystem (ι : Type*) := WString → Option (Directory ι)

variable {ι : Type*} [DecidableEq ι]

namespace Directory

/-- An empty directory. -/
def empty : Directory ι := ⟨∅, fun _ => ⟨none, fun _ => false⟩⟩

/-- A new name, unless it exists. -/
def create (d : Directory ι) (name : WString) (owner : Option ι) : Directory ι :=
  if name ∈ d.names then d
  else ⟨insert name d.names, Function.update d.item name ⟨owner, fun _ => false⟩⟩

/-- The name is removed with all its contents. -/
def remove (d : Directory ι) (name : WString) : Directory ι :=
  { d with names := d.names.erase name }

/-- Some of the contents of the name are removed. -/
def damage (d : Directory ι) (name : WString) : Directory ι :=
  { d with item := Function.update d.item name { d.item name with complete := fun _ => false } }

/-- The source directory of an entry has been copied completely. -/
def markComplete (d : Directory ι) (name : WString) (i : ι) : Directory ι :=
  let item := d.item name
  { d with
    item := Function.update d.item name
      { item with complete := Function.update item.complete i true } }

/-- The names that start with the given one. -/
def candidates (d : Directory ι) (folderName : WString) : Finset WString :=
  d.names.filter (folderName <+: ·)

end Directory

/-! ## Rotation -/

/-- What comes of `remove_all`: with an error, some of the contents may be gone. -/
inductive RemoveAll
  | removed
  | partlyRemoved
  | notRemoved
  deriving DecidableEq

/-- `remove_all` of a name. -/
def RemoveAll.apply (d : Directory ι) (name : WString) : RemoveAll → Directory ι
  | removed => d.remove name
  | partlyRemoved => d.damage name
  | notRemoved => d

/-- What the file system makes of the rotation in a destination. -/
structure RotationOutcome where
  createDirectoryError : Bool
  removeAll : RemoveAll
  deriving DecidableEq

/-- The body of the loop of `DirectoryBackup::BackupRotation`. There is no result if
    it reads the first element of an empty vector. -/
def rotate (e : BackupEntry) (s : FileSystem ι) :
    WString × RotationOutcome → Option (FileSystem ι)
  | (t, o) =>
    match s t with
    | none => some (if o.createDirectoryError then s else Function.update s t (some .empty))
    | some d =>
      let files := (d.candidates e.folderName).image (childPath t)
      if e.maxCount ≤ files.card then
        match files.min with
        | (toRemove : WString) =>
          some (Function.update s t (some (o.removeAll.apply d (nameIn t toRemove))))
        | ⊤ => none
      else some s

/-- The loop of `DirectoryBackup::BackupRotation`, whose runs are along the destinations. -/
def rotation (e : BackupEntry) : Machine (FileSystem ι) (WString × RotationOutcome) where
  init _ := none
  step := rotate e

/-- `DirectoryBackup::BackupRotation`. -/
def backupRotation (e : BackupEntry) (s : FileSystem ι) (outcomes : List RotationOutcome) :
    Option (FileSystem ι) :=
  (rotation e).run s (e.to_.zip outcomes)

/-! ## Copying -/

/-- What may go wrong with a file: an operation reports an error, or throws. -/
inductive Failure
  | error
  | exception
  deriving DecidableEq

/-- A file, directory or link of the source directory, when the loop gets to it. -/
structure SourceFile where
  relPath : WString
  isCancelled : Bool
  failure : Option Failure
  deriving DecidableEq

/-- How the loop over the source directory ends. -/
inductive Exit
  /-- Everything has been copied. -/
  | finished
  /-- With `break`, after an error. -/
  | broken
  /-- The whole backup is left: it has been cancelled, or an exception has been thrown. -/
  | left
  deriving DecidableEq

/-- The loop of `DirectoryBackup::DoBackup` over the source directory. -/
def copyFiles (e : BackupEntry) : List SourceFile → Exit
  | [] => .finished
  | p :: ps =>
    if p.isCancelled then .left
    else if p.failure = some .exception then .left
    else if e.isInIgnoreList p.relPath then copyFiles e ps
    else if p.failure = some .error then .broken
    else copyFiles e ps

/-- What comes of copying the source directory to a destination. -/
structure CopyOutcome where
  isCancelled : Bool
  createDirectoryError : Bool
  files : List SourceFile
  hashDiffers : Bool
  deriving DecidableEq

/-- The loop of `DirectoryBackup::DoBackup` over the destinations. A directory is not
    created in a destination that does not exist. -/
def copyTo (i : ι) (e : BackupEntry) (name : WString) :
    FileSystem ι → List (WString × CopyOutcome) → Option (FileSystem ι)
  | s, [] => some s
  | s, (t, o) :: rest =>
    if o.isCancelled then some s
    else if o.createDirectoryError then some s
    else (s t).bind fun d =>
      let d := d.create name (some i)
      let s := Function.update s t (some d)
      let mismatch := e.calculateHash && o.hashDiffers
      match copyFiles e o.files with
      | .left => some s
      | .broken => if mismatch then some s else copyTo i e name s rest
      | .finished =>
        if mismatch then some s
        else copyTo i e name (Function.update s t (some (d.markComplete name i))) rest

/-- The first round of the loop of `copyTo`, spelled out. -/
inductive CopyRound (i : ι) (e : BackupEntry) (name : WString) (s : FileSystem ι) (t : WString)
    (o : CopyOutcome) (rest : List (WString × CopyOutcome)) (s' : FileSystem ι) : Prop
  /-- No directory is created. -/
  | stopped : o.isCancelled = true ∨ o.createDirectoryError = true → s' = s →
      CopyRound i e name s t o rest s'
  /-- The loop is left. -/
  | left {d : Directory ι} : s t = some d → copyFiles e o.files = .left ∨
        (e.calculateHash = true ∧ o.hashDiffers = true) →
      s' = Function.update s t (some (d.create name (some i))) →
      CopyRound i e name s t o rest s'
  /-- The loop goes on after an error. -/
  | broken {d : Directory ι} : o.isCancelled = false → o.createDirectoryError = false →
      s t = some d → copyFiles e o.files = .broken →
      ¬(e.calculateHash = true ∧ o.hashDiffers = true) →
      copyTo i e name (Function.update s t (some (d.create name (some i)))) rest = some s' →
      CopyRound i e name s t o rest s'
  /-- The loop goes on with the next destination. -/
  | finished {d : Directory ι} : o.isCancelled = false → o.createDirectoryError = false →
      s t = some d → copyFiles e o.files = .finished →
      ¬(e.calculateHash = true ∧ o.hashDiffers = true) →
      copyTo i e name
        (Function.update s t (some ((d.create name (some i)).markComplete name i))) rest = some s' →
      CopyRound i e name s t o rest s'

theorem copyRound_of_copyTo {i : ι} {e : BackupEntry} {name t : WString} {s s' : FileSystem ι}
    {o : CopyOutcome} {rest : List (WString × CopyOutcome)}
    (h : copyTo i e name s ((t, o) :: rest) = some s') : CopyRound i e name s t o rest s' := by
  rw [copyTo] at h
  split at h
  · rename_i hcancelled
    exact .stopped (.inl hcancelled) (Option.some.inj h).symm
  split at h
  · rename_i herror
    exact .stopped (.inr herror) (Option.some.inj h).symm
  rename_i hcancelled herror
  obtain ⟨d, hd, h⟩ := Option.bind_eq_some_iff.1 h
  have hmismatch : ((e.calculateHash && o.hashDiffers) = true) =
      (e.calculateHash = true ∧ o.hashDiffers = true) := Bool.and_eq_true ..
  simp only [hmismatch, Function.update_idem] at h
  split at h
  · rename_i hleft
    exact .left hd (.inl hleft) (Option.some.inj h).symm
  · rename_i hbroken
    split at h
    · rename_i hhash
      exact .left hd (.inr hhash) (Option.some.inj h).symm
    · rename_i hhash
      exact .broken (Bool.eq_false_of_not_eq_true hcancelled)
        (Bool.eq_false_of_not_eq_true herror) hd hbroken hhash h
  · rename_i hfinished
    split at h
    · rename_i hhash
      exact .left hd (.inr hhash) (Option.some.inj h).symm
    · rename_i hhash
      exact .finished (Bool.eq_false_of_not_eq_true hcancelled)
        (Bool.eq_false_of_not_eq_true herror) hd hfinished hhash h

/-- What is given to a call of `DirectoryBackup::DoBackup` by its surroundings, for each
    destination of the entry where it is about them. -/
structure Call where
  fromExists : Bool
  fromIsRegularFile : Bool
  rotation : List RotationOutcome
  /-- The formatted local time. -/
  datetime : WString
  copies : List CopyOutcome
  deriving DecidableEq

/-- `BackupEntry::IsValid`. -/
def Call.isValid (c : Call) : Bool :=
  if !c.fromExists then false else if c.fromIsRegularFile then false else true

/-- `DirectoryBackup::DoBackup`. -/
def doBackup (i : ι) (e : BackupEntry) (s : FileSystem ι) (c : Call) : Option (FileSystem ι) :=
  if !c.isValid then some s
  else (backupRotation e s c.rotation).bind fun s =>
    copyTo i e (e.folderName ++ c.datetime) s (e.to_.zip c.copies)

/-! ## Runs -/

/-- What may happen: a backup, or somebody else creates or removes a name. -/
inductive BackupEvent (ι : Type*)
  | doBackup (i : ι) (c : Call)
  | create (t name : WString)
  | remove (t name : WString)

/-- The next step. -/
def backupStep (entries : ι → BackupEntry) (s : FileSystem ι) :
    BackupEvent ι → Option (FileSystem ι)
  | .doBackup i c =>
    let e := entries i
    if c.rotation.length = e.to_.length ∧ c.copies.length = e.to_.length then doBackup i e s c
    else none
  | .create t name => (s t).map fun d => Function.update s t (some (d.create name none))
  | .remove t name => (s t).map fun d => Function.update s t (some (d.remove name))

/-- The runs of the backups of some entries, from given destinations. -/
def directoryBackup (entries : ι → BackupEntry) (s : FileSystem ι) :
    Machine (FileSystem ι) (BackupEvent ι) where
  init := s
  step := backupStep entries

/-- The runs of the backups of one entry, with nobody else around. -/
def entryBackup (i : ι) (e : BackupEntry) (s : FileSystem ι) : Machine (FileSystem ι) Call where
  init := s
  step s c := backupStep (fun _ => e) s (.doBackup i c)

end QustomKeyboard

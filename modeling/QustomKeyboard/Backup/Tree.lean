import QustomKeyboard.Backup.DirectoryBackup
import QustomKeyboard.Backup.Hashing
import QustomKeyboard.Theory.Exits
import QustomKeyboard.Theory.LexicalPath

/-!
# Copying a tree

The source directory of a backup entry is copied file by file, and so the contents of
the new directories in its destinations come about (`BackupJob.doBackup`, from the loop
over the destinations on). The destinations are directories of their own, and the backup
is not cancelled.

Files and directories keep their path. For a symlink, a path is composed out of its
name, the destination and the current directory (`symlinkPath`).

Where an error is reported, the loop over the source is broken off, and that over the
destinations goes on; `create_symlink` throws instead. An operation fails if the parent
directory is missing or something else is at its place. Links are not followed.
-/

namespace QustomKeyboard

open Theory

/-! ## The source -/

/-- A directory, a file with its content, or a symlink with its target. -/
inductive Node
  | directory
  | file (content : List UInt8)
  | symlink (target : LexPath)
  deriving DecidableEq

def Node.isSymlink : Node → Bool
  | symlink _ => true
  | _ => false

/-- What the loop over the source directory gets to, and its path from there. -/
structure SourceEntry where
  path : List WString
  node : Node
  deriving DecidableEq

/-- Files may have this name. -/
def ValidName (n : WString) : Prop := n ≠ [] ∧ '/' ∉ n ∧ n ≠ ['.'] ∧ n ≠ ['.', '.']

instance (n : WString) : Decidable (ValidName n) := inferInstanceAs (Decidable (_ ∧ _))

/-- The source directory, in the order of `recursive_directory_iterator`: a directory is
    visited before its contents. -/
structure SourceTree where
  entries : List SourceEntry
  path_ne_nil : ∀ x ∈ entries, x.path ≠ []
  validName : ∀ x ∈ entries, ∀ n ∈ x.path, ValidName n
  nodup : (entries.map SourceEntry.path).Nodup
  parent_mem : ∀ i, (h : i < entries.length) →
    entries[i].path.dropLast = [] ∨ ⟨entries[i].path.dropLast, .directory⟩ ∈ entries.take i

/-! ## File operations -/

/-- What there is at the paths from a new backup directory, which itself has the empty path. -/
abbrev Contents := List WString → Option Node

/-- Why an operation fails. -/
inductive OpError
  | noParent
  | fileExists
  /-- The file is read forever. -/
  | endless
  /-- There is no directory in the destination, and none can be created. -/
  | noDestination
  deriving DecidableEq

inductive FileOp
  /-- `create_directory`, `copy_file` or `create_symlink`. -/
  | create (path : List WString) (node : Node)
  /-- A file is read for its digest. -/
  | read (path : List WString)
  deriving DecidableEq

def FileOp.isSymlink : FileOp → Bool
  | create _ node => node.isSymlink
  | read _ => false

/-- An operation that has been tried. -/
structure Operation where
  op : FileOp
  error : Option OpError
  deriving DecidableEq

/-- The node is created, unless it is a directory that exists. -/
def createNode (path : List WString) (node : Node) : Option Contents → Except OpError Contents
  | none => .error .noDestination
  | some c =>
    if path ≠ [] ∧ c path.dropLast ≠ some .directory then .error .noParent
    else if c path = none then .ok (Function.update c path (some node))
    else if c path = some .directory ∧ node = .directory then .ok c
    else .error .fileExists

/-- The destinations, where the new directories can be created, and the variables of
    `DirectoryBackup::DoBackup`. -/
structure BackupState where
  destinations : WString → Option Contents
  log : List Operation
  hashBuf : List UInt8
  ctxFrom : Sha256Ctx
  ctxTo : Sha256Ctx
  /-- The digest of the source, after the first run. -/
  hashFrom : Option (List UInt8)

/-- What may go on, or be left in some way. -/
abbrev Leaving (σ : Type) := Except (Exit × BackupState) σ

namespace BackupState

/-- An operation in the log. -/
def record (s : BackupState) (op : FileOp) (error : Option OpError) : BackupState :=
  { s with log := s.log ++ [⟨op, error⟩] }

/-- A node is created in a destination. -/
def create (s : BackupState) (t : WString) (exit : Exit) (path : List WString) (node : Node) :
    Leaving BackupState :=
  match createNode path node (s.destinations t) with
  | .ok c =>
    .ok { s.record (.create path node) none with
      destinations := Function.update s.destinations t (some c) }
  | .error error => .error (exit, s.record (.create path node) error)

/-- A file is read, and given to a context. -/
def read (s : BackupState) (ctx : Sha256Ctx) (path : List WString) (content : List UInt8) :
    Leaving (BackupState × Sha256Ctx) :=
  match hashFile (content.length + 2) s.hashBuf ctx content with
  | some h => .ok ({ s.record (.read path) none with hashBuf := h.hashBuf }, h.ctx)
  | none => .error (.left, s.record (.read path) (some .endless))

/-- All operations have succeeded. -/
def Succeeded (s : BackupState) : Prop := ∀ r ∈ s.log, r.error = none

instance (s : BackupState) : Decidable s.Succeeded :=
  inferInstanceAs (Decidable (∀ r ∈ s.log, r.error = none))

end BackupState

/-! ## Backups -/

/-- A backup entry, and what its backup is given by its surroundings. -/
structure BackupJob where
  entry : BackupEntry
  /-- The formatted local time. -/
  datetime : WString
  source : SourceTree
  currentPath : LexPath
  isAbsolute_currentPath : currentPath.isAbsolute = true
  /-- The path that a text stands for. -/
  toPath : WString → LexPath

namespace BackupJob

variable (b : BackupJob)

/-- The name of the new directories. -/
def folderNameWithDate : WString := b.entry.folderName ++ b.datetime

/-- The new directory in a destination. -/
def destinationDir (t : WString) : LexPath := b.toPath t / b.toPath b.folderNameWithDate

/-- The place of a path in the new directory. -/
def place (t : WString) (p : LexPath) : List WString :=
  (LexPath.within (b.currentPath / b.destinationDir t) (b.currentPath / p)).getD []

/-- `p.path()`. -/
def sourcePath (x : SourceEntry) : LexPath := b.toPath b.entry.from_ / .rel x.path

/-- `rel_path`. -/
def relPath (x : SourceEntry) : LexPath :=
  (b.sourcePath x).lexicallyProximate (b.toPath b.entry.from_)

/-- `destination_symlink_path`. -/
def symlinkPath (t : WString) (x : SourceEntry) : LexPath :=
  let pointingPath := b.destinationDir t / .rel [(b.sourcePath x).filename]
  let simBasePath := pointingPath.lexicallyRelative (b.destinationDir t)
  b.currentPath / b.destinationDir t / simBasePath

/-- The digest of a copy, and of its source in the first run. -/
def hashFiles (x : SourceEntry) (content : List UInt8) (s : BackupState) : Leaving BackupState :=
  if !b.entry.calculateHash then .ok s
  else (s.read s.ctxTo x.path content).bind fun (s, ctxTo) =>
    if s.hashFrom.isSome then .ok { s with ctxTo }
    else (s.read s.ctxFrom x.path content).bind fun (s, ctxFrom) => .ok { s with ctxTo, ctxFrom }

/-- The body of the loop over the source directory. -/
def copyEntry (t : WString) (s : BackupState) (x : SourceEntry) : Leaving BackupState :=
  if b.entry.isInIgnoreList (b.relPath x).generic then .ok s
  else match x.node with
    | .symlink target =>
      s.create t .left (b.place t (b.symlinkPath t x))
        (.symlink (b.currentPath / (b.destinationDir t / target)))
    | .directory => s.create t .broken (b.place t (b.destinationDir t / b.relPath x)) .directory
    | .file content =>
      (s.create t .broken (b.place t (b.destinationDir t / b.relPath x)) (.file content)).bind
        (b.hashFiles x content)

/-- The comparison of the digests, after the loop over the source directory. -/
def compareHashes (s : BackupState) : Leaving BackupState :=
  if !b.entry.calculateHash then .ok s
  else
    let hashFrom := s.hashFrom.getD (sha256Final s.ctxFrom)
    let s := { s with hashFrom := some hashFrom }
    if hashFrom ≠ sha256Final s.ctxTo then .error (.broken, s) else .ok s

/-- The body of the loop over the destinations. -/
def copyDestination (s : BackupState) (t : WString) : Leaving BackupState :=
  (({ s with ctxTo := sha256Init s.ctxTo } : BackupState).create t .broken [] .directory).bind
    fun s =>
      match b.source.entries.foldlM (b.copyEntry t) s with
      | .ok s => b.compareHashes s
      | .error (.left, s) => .error (.left, s)
      | .error (_, s) => b.compareHashes s

/-- How the loop over the destinations ends, and in which state. -/
def doBackup (s : BackupState) : Exit × BackupState :=
  let s := { s with log := [], ctxFrom := sha256Init s.ctxFrom, hashFrom := none }
  match b.entry.to_.foldlM b.copyDestination s with
  | .ok s => (.finished, s)
  | .error r => r

/-- The directories are new. -/
def IsNew (s : BackupState) : Prop :=
  ∀ t ∈ b.entry.to_, ∀ c, s.destinations t = some c → ∀ path, c path = none

end BackupJob

end QustomKeyboard

import Onceproof.Store.Operations
import Onceproof.KeyringFile
import Onceproof.Lib.Execution

/-!
# Output directories

The directory that `onceproof db backup` writes, and the system calls on it, each an atomic
step. The content of a file is what was written into it: a manifest names the contents that its
digests are of.

SQLite may keep a journal beside the database while a write transaction is open.
-/

namespace Onceproof

/-- What a file holds. -/
inductive Content
  /-- A file that was created and is not completely written. -/
  | unfinished
  | marker
  | database (ledger : Ledger)
  | keyring (k : KeyRing)
  | manifest (database keyring : Content)
  /-- The credentials that a command delivered. -/
  | credentials (payload : Json)
  /-- Anything that another program wrote. -/
  | other (bytes : Bytes)

/-- An entry of a directory. A symbolic link leads to a regular file or does not. -/
inductive Node
  | file (content : Content)
  | directory
  | symlink (toFile : Bool)

/-- `Path.is_file()`, which follows links. -/
def Node.isFile : Node → Bool
  | file _ => true
  | directory => false
  | symlink toFile => toFile

/-- `Path.is_symlink()`. -/
def Node.isSymlink : Node → Bool
  | symlink _ => true
  | _ => false

/-- A regular file. -/
def Node.isRegular (n : Node) : Bool := n.isFile && !n.isSymlink

/-- The entries of a directory by name. -/
abbrev Entries : Type := Finmap fun _ : Str => Node

/-- What is at the output path. -/
inductive Output
  | absent
  | other
  | directory (entries : Entries)

/-! ### Names -/

/-- `_BACKUP_DATABASE_NAME`. -/
def databaseName : Str := lit "onceproof.sqlite3"

/-- `_BACKUP_KEYRING_NAME`. -/
def keyringName : Str := lit "keyring.json"

/-- `_BACKUP_MANIFEST_NAME`. -/
def manifestName : Str := lit "manifest.json"

/-- `_BACKUP_INCOMPLETE_NAME`. -/
def incompleteName : Str := lit ".onceproof-incomplete"

/-- The journal that SQLite keeps beside the database. -/
def journalName : Str := lit "onceproof.sqlite3-journal"

/-- The name of a temporary file of `_write_secret_json`. -/
def temporaryName (name : Str) (token : Bytes) : Str :=
  lit "." ++ (name ++ (lit "." ++ (hexlify token ++ lit ".pending")))

theorem temporaryName_ne (name : Str) (token : Bytes) : temporaryName name token ≠ name := by
  intro h
  have hdot : (lit ".").length = 1 := by decide
  have hlen := congrArg List.length h
  simp only [temporaryName, List.length_append, hdot] at hlen
  omega

/-- `entry.name.startswith(temporary_prefixes) and entry.name.endswith(".pending")`. -/
def isPending (name : Str) : Bool :=
  ((lit "." ++ incompleteName ++ lit ".").isPrefixOf name ||
      (lit "." ++ manifestName ++ lit ".").isPrefixOf name) &&
    (lit ".pending").isSuffixOf name

/-- A name that reconciliation may delete. -/
def isReconcilable (name : Str) : Bool :=
  name == databaseName || name == keyringName || name == incompleteName || isPending name

/-! ### System calls -/

/-- The system calls of the command on its output directory. -/
inductive FsOp
  /-- `path.exists()`. -/
  | pathExists
  /-- `path.is_dir()`. -/
  | isDir
  /-- `(path / name).exists()`. -/
  | entryExists (name : Str)
  | isFile (name : Str)
  | isSymlink (name : Str)
  | iterdir
  | unlink (name : Str)
  /-- `unlink(missing_ok=True)`. -/
  | unlinkMissing (name : Str)
  | rmdir
  | mkdir
  /-- `os.chmod`, `os.fsync`: no entry and no content changes. -/
  | sync
  /-- `secrets.token_hex(8)`. -/
  | tokenHex
  /-- `os.open(..., O_CREAT | O_EXCL)`. -/
  | create (name : Str)
  | write (name : Str) (content : Content)
  /-- `os.link`. -/
  | link (source target : Str)
  /-- The whole content of a file, to be digested. -/
  | read (name : Str)
  /-- SQLite opens a write transaction; answers whether it keeps a journal. -/
  | beginWrite
  /-- SQLite deletes the journal. -/
  | commitWrite

/-- The value a system call returns. -/
abbrev FsOp.Val : FsOp → Type
  | pathExists | isDir | entryExists _ | isFile _ | isSymlink _ | beginWrite => Bool
  | iterdir => List Str
  | tokenHex => Bytes
  | read _ => Content
  | unlink _ | unlinkMissing _ | rmdir | mkdir | sync | create _ | write _ _ | link _ _
  | commitWrite => Unit

/-- The answer to a system call: a value or an exception. -/
abbrev FsOp.Ans (c : FsOp) : Type := Except Error c.Val

/-- What the outside contributes to a system call. -/
structure FsChoice where
  /-- The order in which the entries of the directory are listed. -/
  listing : List Str
  /-- The random token of a temporary name. -/
  token : Bytes
  /-- SQLite keeps a journal. -/
  journal : Bool

/-- A list of the entries of a directory, in some order. -/
def Entries.Listed (d : Entries) (l : List Str) : Prop := l.Nodup ∧ l.toFinset = d.keys

instance (d : Entries) (l : List Str) : Decidable (d.Listed l) :=
  inferInstanceAs (Decidable (_ ∧ _))

/-- A system call on the entries of a directory, if there is one. -/
def onEntries {α : Type} (out : Output) (f : Entries → Except Error α × Output) :
    Option (Except Error α × Output) :=
  match out with
  | .directory d => some (f d)
  | _ => some (.error .interrupted, out)

/-- The execution of a system call. -/
def FsOp.exec (c : FsOp) (i : FsChoice) (out : Output) : Option (c.Ans × Output) :=
  match c with
  | pathExists => some (.ok (match out with
    | .absent => false
    | _ => true), out)
  | isDir => some (.ok (match out with
    | .directory _ => true
    | _ => false), out)
  | entryExists name => onEntries out fun d => (.ok ((d.lookup name).isSome), out)
  | isFile name => onEntries out fun d => (.ok ((d.lookup name).any Node.isFile), out)
  | isSymlink name => onEntries out fun d => (.ok ((d.lookup name).any Node.isSymlink), out)
  | iterdir => match out with
    | .directory d => if d.Listed i.listing then some (.ok i.listing, out) else none
    | _ => some (.error .interrupted, out)
  | unlink name => onEntries out fun d => match d.lookup name with
    | some .directory | none => (.error .interrupted, out)
    | some _ => (.ok (), .directory (d.erase name))
  | unlinkMissing name => onEntries out fun d => match d.lookup name with
    | some .directory => (.error .interrupted, out)
    | _ => (.ok (), .directory (d.erase name))
  | rmdir => onEntries out fun d =>
    if d.keys = ∅ then (.ok (), .absent) else (.error .interrupted, out)
  | mkdir => match out with
    | .absent => some (.ok (), .directory ∅)
    | _ => some (.error .fileExistsError, out)
  | sync => some (.ok (), out)
  | tokenHex => some (.ok i.token, out)
  | create name => onEntries out fun d =>
    if name ∈ d then (.error .fileExistsError, out)
    else (.ok (), .directory (d.insert name (.file .unfinished)))
  | write name content => onEntries out fun d => match d.lookup name with
    | some (.file _) => (.ok (), .directory (d.insert name (.file content)))
    | _ => (.error .interrupted, out)
  -- a link, unlike a rename, does not replace its target
  | link source target => onEntries out fun d => match d.lookup source with
    | some (.file content) =>
      if target ∈ d then (.error .fileExistsError, out)
      else (.ok (), .directory (d.insert target (.file content)))
    | _ => (.error .interrupted, out)
  | read name => onEntries out fun d => match d.lookup name with
    | some (.file content) => (.ok content, out)
    | _ => (.error .interrupted, out)
  | beginWrite => onEntries out fun d =>
    if i.journal then (.ok true, .directory (d.insert journalName (.file .unfinished)))
    else (.ok false, out)
  | commitWrite => onEntries out fun d => (.ok (), .directory (d.erase journalName))

/-- Programs over the output directory. -/
abbrev FsProg (α : Type) : Type := Prog FsOp FsOp.Ans Error α

/-- Issue a system call, raising the exception it answers with. -/
abbrev FsOp.run (c : FsOp) : FsProg c.Val := Prog.perform c

/-! ### The command -/

/-- `_write_secret_json`. -/
def writeSecretJson (name : Str) (content : Content) : FsProg Unit := do
  let token : Bytes ← FsOp.tokenHex.run
  let temporary := temporaryName name token
  (FsOp.create temporary).run
  Prog.ensure
    (do
      (FsOp.write temporary content).run
      FsOp.sync.run
      FsOp.sync.run
      (FsOp.link temporary name).run
      FsOp.sync.run)
    (FsOp.unlinkMissing temporary).run

/-- The loop of `_prepare_backup_directory` over the entries. -/
def removeEntries : List Str → FsProg Unit
  | [] => pure ()
  | name :: names => do
    let file : Bool ← (FsOp.isFile name).run
    if !file then
      Prog.raise (.valueError "incomplete_backup_not_reconcilable")
    else
      let symlink : Bool ← (FsOp.isSymlink name).run
      if symlink then
        Prog.raise (.valueError "incomplete_backup_not_reconcilable")
      else
        (FsOp.unlink name).run
        removeEntries names

/-- The checks of `_prepare_backup_directory` on an existing path, and the removal of what is
there. -/
def reconcile : FsProg Unit := do
  let directory : Bool ← FsOp.isDir.run
  if !directory then
    Prog.raise (.valueError "backup_output_exists")
  else
    let manifest : Bool ← (FsOp.isFile manifestName).run
    if manifest then
      Prog.raise (.valueError "backup_output_exists")
    else
      let entries : List Str ← FsOp.iterdir.run
      let marked : Bool ← (FsOp.isFile incompleteName).run
      if entries ≠ [] ∧ !marked ∧ !entries.all isPending then
        Prog.raise (.valueError "incomplete_backup_not_reconcilable")
      else if entries.any fun name => !isReconcilable name then
        Prog.raise (.valueError "incomplete_backup_not_reconcilable")
      else
        removeEntries entries
        FsOp.rmdir.run

/-- `_prepare_backup_directory`. -/
def prepareBackupDirectory : FsProg Unit := do
  let there : Bool ← FsOp.pathExists.run
  if there then
    reconcile
  FsOp.mkdir.run
  FsOp.sync.run
  Prog.onRaise (writeSecretJson incompleteName .marker) FsOp.rmdir.run

/-- `_write_exclusive`. -/
def writeExclusive (name : Str) (content : Content) : FsProg Unit := do
  (FsOp.create name).run
  Prog.onRaise
    (do
      (FsOp.write name content).run
      FsOp.sync.run
      FsOp.sync.run
      FsOp.sync.run)
    (FsOp.unlinkMissing name).run

/-- `Store.backup`: the ledger is copied in one transaction and sealed in another. -/
def storeBackup (ledger : Ledger) : FsProg Unit := do
  let there : Bool ← (FsOp.entryExists databaseName).run
  if there then
    Prog.raise .fileExistsError
  else
    (FsOp.create databaseName).run
    Prog.onRaise
      (do
        let _ : Bool ← FsOp.beginWrite.run
        (FsOp.write databaseName (.database ledger)).run
        FsOp.commitWrite.run
        let _ : Bool ← FsOp.beginWrite.run
        (FsOp.write databaseName (.database (Store.backup ledger))).run
        FsOp.commitWrite.run
        FsOp.sync.run
        FsOp.sync.run
        FsOp.sync.run)
      (FsOp.unlinkMissing databaseName).run

/-- `KeyRing.backup_with`. -/
def backupMembers (ledger : Ledger) (k : KeyRing) : FsProg Unit := do
  let there : Bool ← (FsOp.entryExists keyringName).run
  if there then
    Prog.raise .fileExistsError
  else
    storeBackup ledger
    Prog.onRaise (writeExclusive keyringName (.keyring k)) (FsOp.unlinkMissing databaseName).run

/-- `_db_backup`, up to the verification of what it wrote. -/
def dbBackup (ledger : Ledger) (k : KeyRing) : FsProg Unit := do
  prepareBackupDirectory
  backupMembers ledger k
  let database : Content ← (FsOp.read databaseName).run
  let keyring : Content ← (FsOp.read keyringName).run
  writeSecretJson manifestName (.manifest database keyring)
  (FsOp.unlink incompleteName).run
  FsOp.sync.run

end Onceproof

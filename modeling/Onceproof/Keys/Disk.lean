import Onceproof.KeyringFile
import Onceproof.Lib.Execution

/-!
# The keyring on disk

The system calls of one `KeyRing` on its file, each of which may fail with an `OSError`, and the
methods over them. `os.replace` is atomic, and removing a temporary file and releasing the lock
succeed. The lock keeps other processes from writing the file during a method.

`Host` has the replacement of the file as one command; `Disk.replaceAtomically_outcome` is what that
command rests on.
-/

namespace Onceproof

/-- The files that a method writes. -/
inductive DiskFile
  | keyring
  | temporary
  | backup
  deriving DecidableEq

/-- The file system, and the memory of the `KeyRing`. -/
structure Disk where
  /-- The keyring file, if it is a JSON text. -/
  file : Option Json.Document
  /-- The temporary file and the backup: created, and completely written or not. -/
  others : DiskFile → Option (Option Json.Document)
  /-- `self._current_kid, self._keys`. -/
  memory : KeyRing

/-- The generation in the file. -/
def Disk.generation (w : Disk) : Option KeyRing :=
  w.file.bind fun document => (KeyRing.readPayload document.value).toOption

/-- The system calls of a `KeyRing`. -/
inductive DiskOp
  /-- The opening and locking of the lock file. -/
  | lock
  | unlock
  /-- `path.read_text`, `json.loads`. -/
  | readText
  | memory
  | setMemory (k : KeyRing)
  /-- `_new_kid(existing)`. -/
  | newKid (existing : Finset Str)
  /-- `secrets.token_bytes(32)`. -/
  | newRootKey
  /-- `secrets.token_hex(8)`. -/
  | tokenHex
  /-- `in_use(kid)`. -/
  | inUse (kid : Str)
  /-- `os.open(path, O_WRONLY | O_CREAT | O_EXCL)`. -/
  | create (f : DiskFile)
  /-- `handle.write`, `handle.flush`. -/
  | write (f : DiskFile) (payload : Json)
  /-- `os.fsync` of a file. -/
  | sync (f : DiskFile)
  | chmod (f : DiskFile)
  /-- `_fsync_parent`. -/
  | syncParent
  /-- `os.replace(temporary, path)`. -/
  | replace
  /-- `path.unlink(missing_ok=True)`. -/
  | unlink (f : DiskFile)
  /-- The checks of `backup_with` on its destination. -/
  | checkDestination
  /-- `database_backup()`, and the removal of what it wrote. -/
  | databaseBackup
  | unlinkDatabase

/-- The value a system call returns. -/
abbrev DiskOp.Val : DiskOp → Type
  | readText => Json.Document
  | memory => KeyRing
  | newKid _ => Str
  | newRootKey => RootKey
  | tokenHex => Bytes
  | inUse _ => Bool
  | lock | unlock | setMemory _ | create _ | write _ _ | sync _ | chmod _ | syncParent | replace
  | unlink _ | checkDestination | databaseBackup | unlinkDatabase => Unit

/-- The answer to a system call: a value or an exception. -/
abbrev DiskOp.Ans (c : DiskOp) : Type := Except Error c.Val

/-- What the outside contributes to a system call. -/
structure DiskChoice where
  /-- The call fails with an `OSError`. -/
  fault : Bool
  bytes : Bytes
  rootKey : RootKey
  /-- What `in_use` answers. -/
  used : Except Error Bool
  /-- What the checks on the destination answer. -/
  checked : Except Error Unit

/-- A system call that may fail before it has an effect. -/
def orOSError {α : Type} (i : DiskChoice) (w : Disk) (x : Except Error α × Disk) :
    Option (Except Error α × Disk) :=
  some (if i.fault then (.error .interrupted, w) else x)

/-- Change one of the files. -/
def Disk.set (w : Disk) (f : DiskFile) (content : Option (Option Json.Document)) : Disk :=
  { w with others := Function.update w.others f content }

/-- The execution of a system call. -/
def DiskOp.exec (c : DiskOp) (i : DiskChoice) (w : Disk) : Option (c.Ans × Disk) :=
  match c with
  | lock => orOSError i w (.ok (), w)
  | unlock => some (.ok (), w)
  | readText => orOSError i w (match w.file with
    | some document => .ok document
    | none => .error .interrupted, w)
  | memory => some (.ok w.memory, w)
  | setMemory k => some (.ok (), { w with memory := k })
  | newKid existing =>
    -- the loop goes on until the drawn id is new
    if lit "hk_" ++ hexlify i.bytes ∈ existing then none
    else some (.ok (lit "hk_" ++ hexlify i.bytes), w)
  | newRootKey => some (.ok i.rootKey, w)
  | tokenHex => some (.ok i.bytes, w)
  | inUse _ => some (i.used, w)
  | create f => orOSError i w (if (w.others f).isSome then (.error .fileExistsError, w)
    else (.ok (), w.set f (some none)))
  | write f payload => orOSError i w (.ok (), w.set f (some (some (.written payload))))
  | sync _ | chmod _ | syncParent => orOSError i w (.ok (), w)
  | replace => orOSError i w (match w.others .temporary with
    | some content => (.ok (), { w.set .temporary none with file := content })
    | none => (.error .interrupted, w))
  | unlink f => some (.ok (), w.set f none)
  | checkDestination => some (i.checked, w)
  | databaseBackup => orOSError i w (.ok (), w)
  | unlinkDatabase => some (.ok (), w)

/-- Programs of a `KeyRing`. -/
abbrev DiskProg (α : Type) : Type := Prog DiskOp DiskOp.Ans Error α

/-- Issue a system call, raising the exception it answers with. -/
abbrev DiskOp.run (c : DiskOp) : DiskProg c.Val := Prog.perform c

namespace Disk

/-! ### The methods -/

/-- `_write_exclusive`. -/
def writeExclusive (f : DiskFile) (payload : Json) : DiskProg Unit := do
  (DiskOp.create f).run
  Prog.onRaise
    (do
      (DiskOp.write f payload).run
      (DiskOp.sync f).run
      (DiskOp.chmod f).run
      DiskOp.syncParent.run)
    (DiskOp.unlink f).run

/-- The syncs after `os.replace`. -/
def syncReplaced : DiskProg Unit := do
  (DiskOp.sync .keyring).run
  DiskOp.syncParent.run

/-- `_replace_atomically`. -/
def replaceAtomically (payload : Json) : DiskProg Unit := do
  let _ : Bytes ← DiskOp.tokenHex.run
  writeExclusive .temporary payload
  Prog.ensure
    (do
      DiskOp.replace.run
      Prog.raiseAs .keyringCommitUncertain syncReplaced)
    (DiskOp.unlink .temporary).run

/-- `_read_payload`. -/
def readPayload : DiskProg KeyRing := do
  let document : Json.Document ← Prog.raiseAs (.valueError "unreadable_keyring") DiskOp.readText.run
  Prog.lift (KeyRing.readPayload document.value)

/-- `self._current_kid, self._keys = _read_payload(self.path)`. -/
def reload : DiskProg Unit := do
  let disk : KeyRing ← readPayload
  (DiskOp.setMemory disk).run

/-- `KeyRing._replace_and_reload`. -/
def replaceAndReload (k : KeyRing) : DiskProg Unit := do
  Prog.onRaise (replaceAtomically k.serializedPayload)
    (Prog.raiseAs .keyringCommitUncertain reload)
  Prog.raiseAs .keyringCommitUncertain reload

/-- `KeyRing.stable` around a program, with the check that the other methods begin with. -/
def stable {α : Type} (p : DiskProg α) : DiskProg α := do
  DiskOp.lock.run
  Prog.ensure
    (do
      let disk : KeyRing ← readPayload
      let memory : KeyRing ← DiskOp.memory.run
      if disk ≠ memory then
        Prog.raise (.valueError "keyring_changed_on_disk")
      else p)
    DiskOp.unlock.run

/-- `KeyRing.rotate`. -/
def rotate : DiskProg Str :=
  stable do
    let memory : KeyRing ← DiskOp.memory.run
    let kid : Str ← (DiskOp.newKid memory.keys.keys).run
    let key : RootKey ← DiskOp.newRootKey.run
    replaceAndReload (memory.rotated kid key)
    pure kid

/-- The callback `in_use` of `KeyRing.retire`, if there is one. -/
def askInUse (kid : Str) (asked : Bool) : DiskProg Bool :=
  if asked then (DiskOp.inUse kid).run else pure false

/-- `KeyRing.retire`. -/
def retire (kid : Str) (asked : Bool) : DiskProg Unit :=
  stable do
    let memory : KeyRing ← DiskOp.memory.run
    if h : kid = memory.currentKid then
      Prog.raise (.valueError "cannot_retire_current_key")
    else if (memory.keyFor kid).isNone then
      Prog.raise (.keyError kid)
    else if ← askInUse kid asked then
      Prog.raise (.valueError "key_still_in_use")
    else
      replaceAndReload (memory.retired kid h)

/-- `KeyRing.backup_with`. -/
def backupWith : DiskProg Unit := do
  DiskOp.checkDestination.run
  stable do
    let memory : KeyRing ← DiskOp.memory.run
    DiskOp.databaseBackup.run
    Prog.onRaise (writeExclusive .backup memory.serializedPayload) DiskOp.unlinkDatabase.run

end Disk

end Onceproof

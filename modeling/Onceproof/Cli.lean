import Onceproof.Backup.Files
import Onceproof.Lib.Handle
import Onceproof.System

/-!
# Credentials on disk

The two commands that create credentials, `client create` and `client rotate`, with the file that
they write them to. A process issues the commands of the host and system calls on the directory of
its output path, and `credential_sink` is carried out by `_write_secret_json`.

Any system call may raise before or after it took effect, and other processes may create files in
the directory at any time.
-/

namespace Onceproof

/-! ### What is delivered -/

/-- The object that is written: `_client_credentials_payload`, `_rotated_credential_payload`. -/
def Delivery.payload : Delivery → Json
  | client credentials => .obj
    [(lit "client_id", .str credentials.clientId),
      (lit "issuance_credential_id", .str credentials.issuanceCredentialId),
      (lit "issuance_secret", .str credentials.issuanceSecret),
      (lit "verification_credential_id", .str credentials.verificationCredentialId),
      (lit "verification_secret", .str credentials.verificationSecret)]
  | rotated clientId credentialId role secret => .obj
    [(lit "client_id", .str clientId),
      (lit "credential_id", .str credentialId),
      (lit "role", .str role.text),
      (lit "secret", .str secret)]

/-- The secrets in it, by their credentials. -/
def Delivery.secrets : Delivery → List (Str × Str)
  | client credentials =>
    [(credentials.issuanceCredentialId, credentials.issuanceSecret),
      (credentials.verificationCredentialId, credentials.verificationSecret)]
  | rotated _ credentialId _ secret => [(credentialId, secret)]

/-! ### Commands -/

/-- The commands of a process with an output path. -/
inductive CliOp
  | host (c : Op)
  /-- `path.exists()`, which follows links. -/
  | pathExists (name : Str)
  /-- A system call on the directory of the path. -/
  | file (c : FsOp)

/-- The value a command returns. -/
abbrev CliOp.Val : CliOp → Type
  | host c => c.Val
  | pathExists _ => Bool
  | file c => c.Val

/-- The answer to a command: a value or an exception. -/
abbrev CliOp.Ans (c : CliOp) : Type := Except Error c.Val

/-- What the outside contributes to a command. -/
structure CliChoice where
  host : Choice
  files : FsChoice
  /-- An exception before a system call has an effect. -/
  fault : Bool
  /-- An exception after a system call took effect. -/
  late : Bool
  /-- A link that leads to no regular file leads to something else. -/
  follows : Bool
  /-- A file that another process creates before the command. -/
  raced : Option (Str × Bytes)

/-- What there is at a name of the directory. -/
def Output.entry (out : Output) (name : Str) : Option Node :=
  match out with
  | .directory d => d.lookup name
  | _ => none

/-- Another process creates a file, unless there is something under its name. -/
def Output.race (out : Output) (raced : Option (Str × Bytes)) : Output :=
  match out, raced with
  | .directory d, some (name, bytes) =>
    if name ∈ d then out else .directory (d.insert name (.file (.other bytes)))
  | _, _ => out

/-- The execution of a command by the thread `tid` of the process `p`; `none` if it is blocked. -/
def CliOp.exec (p tid : ℕ) (c : CliOp) (i : CliChoice) (s : World × Output) :
    Option (c.Ans × World × Output) :=
  let out := s.2.race i.raced
  match c with
  | host c => (c.exec p tid i.host s.1).map fun x => (x.1, x.2, out)
  | pathExists name =>
    if i.fault then some (.error .interrupted, s.1, out)
    else some (.ok (match out.entry name with
      | none => false
      | some (.symlink false) => i.follows
      | some _ => true), s.1, out)
  | file c =>
    if i.fault then some (.error .interrupted, s.1, out)
    else (c.exec i.files out).map fun x =>
      (if i.late then .error .interrupted else x.1, s.1, x.2)

/-- Programs of such a process. -/
abbrev CliProg (α : Type) : Type := Prog CliOp CliOp.Ans Error α

/-- Issue a command, raising the exception it answers with. -/
abbrev CliOp.run (c : CliOp) : CliProg c.Val := Prog.perform c

/-- System calls on the directory of the path. -/
def FsProg.toCli {α : Type} (p : FsProg α) : CliProg α :=
  Prog.handle (fun c => .act (.file c) .ret) p

/-- `credential_sink` writes to the path; every other command is one of the host. -/
def Op.carriedOut (name : Str) : (c : Op) → CliProg c.Ans
  | .deliver d => Prog.attempt (writeSecretJson name (.credentials d.payload)).toCli
  | c => .act (.host c) .ret

/-! ### Programs -/

/-- The option `--credentials-out`: its value, and the last name of the path that it resolves to. -/
structure CredentialsOut where
  value : Str
  name : Str

/-- `_credentials_target`. -/
def credentialsTarget (t : CredentialsOut) : CliProg Unit :=
  if t.value = lit "-" then
    Prog.raise (.valueError "credentials_output_must_be_file")
  else do
    let there : Bool ← (CliOp.pathExists t.name).run
    if there then
      Prog.raise (.valueError "credentials_output_exists")
    else
      let directory : Bool ← (CliOp.file .isDir).run
      if !directory then
        Prog.raise (.valueError "credentials_output_parent_missing")
      else
        pure ()

/-- The commands that deliver credentials. -/
inductive CredentialCommand
  | create (q : CreateClientRequest)
  | rotate (q : RotateRequest)

/-- The command without its output path: the service object has a sink. -/
def CredentialCommand.command : CredentialCommand → Command
  | create q => .clientCreate { q with hasSink := true }
  | rotate q => .clientRotate { q with hasSink := true }

/-- `_client_create`, `_client_rotate`. -/
def CredentialCommand.program (H : HashLib) (c : CredentialCommand) (t : CredentialsOut) :
    CliProg Outcome := do
  credentialsTarget t
  (c.command.program H).handle (Op.carriedOut t.name)

end Onceproof

import Onceproof.Model
import Onceproof.Lib.Table
import Mathlib.Algebra.Order.Group.Int
import Mathlib.Data.List.Lex
import Mathlib.Data.List.Sort

/-!
# The schema of the ledger

Rows and tables of the SQLite database. A primary key is part of the table's type
(`Table`), and the `CHECK` constraints on a client's limits are fields of its row. The other
constraints (foreign keys, the unique proof tag, the partial unique indexes) are checked by
the `INSERT` statements below, which fail with `IntegrityError`. Event ids of rate events
are assigned by SQLite and read by nothing, so a rate event is a bare row.

Columns that hold JSON text are represented by the value that reading the text back yields
(`Json.persist`).
-/

namespace Onceproof

/-- The two credential roles. -/
inductive Role
  | issuance
  | verification
  deriving DecidableEq

/-- The states of a client. -/
inductive ClientStatus
  | active
  | revoked
  deriving DecidableEq

/-- The states of a credential. -/
inductive CredentialStatus
  | current
  | previous
  | revoked
  deriving DecidableEq

/-- The operations that spend a rate slot. -/
inductive Operation
  | issue
  | verify
  deriving DecidableEq

/-- The kinds of audit events. -/
inductive AuditKind
  | clientCreated
  | proofIssued
  | proofVerified
  | proofRejected
  | credentialRotated
  | clientRevoked
  | restoreActivated
  deriving DecidableEq

/-- The outcomes that audit events record. -/
inductive AuditOutcome
  | created
  | issued
  | verified
  | rejected
  | rotated
  | revoked
  | allPriorAuthorityRevoked
  deriving DecidableEq

/-- The entries of the maintenance table. -/
inductive MaintenanceName
  | lastCleanupAt
  | restoreRequired
  deriving DecidableEq

/-! ### Rows -/

/-- A row of `clients`. -/
structure ClientRow where
  clientId : Str
  name : Str
  status : ClientStatus
  allowedAudiencesJson : Json
  proofTtlSeconds : ℤ
  issueLimitPerMinute : ℤ
  verifyLimitPerMinute : ℤ
  createdAt : ℤ
  revokedAt : Option ℤ
  proofTtl_check : 1 ≤ proofTtlSeconds ∧ proofTtlSeconds ≤ 3600
  issueLimit_check : 1 ≤ issueLimitPerMinute ∧ issueLimitPerMinute ≤ 100000
  verifyLimit_check : 1 ≤ verifyLimitPerMinute ∧ verifyLimitPerMinute ≤ 100000

/-- A row of `credentials`. -/
structure CredentialRow where
  credentialId : Str
  clientId : Str
  role : Role
  hashKid : Str
  secretDigest : Str
  status : CredentialStatus
  createdAt : ℤ
  validUntil : Option ℤ
  revokedAt : Option ℤ
  deriving DecidableEq

/-- A row of `proofs`. -/
structure ProofRow where
  tokenDigest : Str
  proofTag : Str
  hashKid : Str
  clientId : Str
  issueCredentialId : Str
  subject : Str
  purpose : Str
  audience : Str
  issuedAt : ℤ
  expiresAt : ℤ
  consumedAt : Option ℤ
  consumeVerificationId : Option Str
  deriving DecidableEq

/-- A row of `verifications`. -/
structure VerificationRow where
  verificationId : Str
  clientId : Str
  credentialId : Str
  proofTag : Option Str
  requestFingerprint : Str
  idempotencyKey : Option Str
  resultJson : Json
  createdAt : ℤ

/-- A row of `audit_events`. -/
structure AuditRow where
  eventId : Str
  createdAt : ℤ
  kind : AuditKind
  clientId : Option Str
  credentialId : Option Str
  proofTag : Option Str
  outcome : AuditOutcome
  reason : Option RejectionReason
  deriving DecidableEq

/-- A row of `rate_events`. -/
structure RateEvent where
  clientId : Str
  operation : Operation
  occurredAt : ℤ
  deriving DecidableEq

/-- A row of `hash_keys`. -/
structure HashKeyRow where
  hashKid : Str
  keyCheck : Str
  deriving DecidableEq

/-- A row of `maintenance`. -/
structure MaintenanceRow where
  name : MaintenanceName
  valueInteger : ℤ
  deriving DecidableEq

/-- The whole database. -/
@[ext]
structure Ledger where
  clients : Table ClientRow ClientRow.clientId
  credentials : Table CredentialRow CredentialRow.credentialId
  proofs : Table ProofRow ProofRow.tokenDigest
  verifications : Table VerificationRow VerificationRow.verificationId
  auditEvents : Table AuditRow AuditRow.eventId
  rateEvents : List RateEvent
  hashKeys : Table HashKeyRow HashKeyRow.hashKid
  maintenance : Table MaintenanceRow MaintenanceRow.name

namespace Ledger

/-- `_create_schema`: the ledger of a new instance. -/
def empty : Ledger where
  clients := .empty
  credentials := .empty
  proofs := .empty
  verifications := .empty
  auditEvents := .empty
  rateEvents := []
  hashKeys := .empty
  maintenance := .empty

/-! ### Queries -/

/-- `SELECT ... FROM credentials JOIN clients USING (client_id) WHERE credential_id = ? AND
role = ?`. -/
def joined (db : Ledger) (credentialId : Str) (role : Role) :
    Option (CredentialRow × ClientRow) :=
  match db.credentials.get? credentialId with
  | some c =>
    if c.role = role then (db.clients.get? c.clientId).map fun client => (c, client) else none
  | none => none

/-- `SELECT ... FROM verifications WHERE client_id = ? AND idempotency_key = ?`. -/
def idempotent (db : Ledger) (clientId idempotencyKey : Str) : Option VerificationRow :=
  db.verifications.rows.find? fun v =>
    v.clientId = clientId ∧ v.idempotencyKey = some idempotencyKey

/-- `SELECT credential_id FROM credentials WHERE client_id = ? AND role = ? AND status =
'current'`. -/
def currentCredential (db : Ledger) (clientId : Str) (role : Role) : Option CredentialRow :=
  db.credentials.rows.find? fun c => c.clientId = clientId ∧ c.role = role ∧ c.status = .current

/-- The rate events of a client and operation after a cutoff. -/
def rateWindow (db : Ledger) (clientId : Str) (operation : Operation) (cutoff : ℤ) :
    List RateEvent :=
  db.rateEvents.filter fun e =>
    e.clientId = clientId ∧ e.operation = operation ∧ cutoff < e.occurredAt

/-- `SELECT value_integer FROM maintenance WHERE name = ?`. -/
def maintenanceValue (db : Ledger) (name : MaintenanceName) : Option ℤ :=
  (db.maintenance.get? name).map MaintenanceRow.valueInteger

/-- `Store._restore_required`. -/
def restoreRequired (db : Ledger) : Bool :=
  match db.maintenanceValue .restoreRequired with
  | some n => n ≠ 0
  | none => false

/-- `Store.referenced_hash_kids`: the key ids of the rows, `ORDER BY hash_kid`. The collation of
a text column is that of its UTF-8 bytes, which is the order of the code points. -/
def referenced (db : Ledger) : List Str :=
  (db.credentials.rows.map CredentialRow.hashKid ++
    db.proofs.rows.map ProofRow.hashKid).dedup.insertionSort (· ≤ ·)

/-- `SELECT hash_kid, key_check FROM hash_keys WHERE hash_kid IN (...)`. The index of the primary
key answers it, in the order of the key ids. -/
def checks (db : Ledger) (kids : List Str) : List (Str × Str) :=
  ((db.hashKeys.rows.filter fun r => r.hashKid ∈ kids).map fun r =>
    (r.hashKid, r.keyCheck)).insertionSort fun c c' => c.1 ≤ c'.1

/-! ### Inserts with their constraints -/

/-- Replace a table after an insert that respects the primary key. -/
def inserted {τ : Type} (t : Option τ) (f : τ → Ledger) : Except Error Ledger :=
  match t with
  | some t => .ok (f t)
  | none => .error .integrityError

/-- `INSERT INTO clients`. -/
def insertClient (row : ClientRow) (db : Ledger) : Except Error Ledger :=
  inserted (db.clients.insert? row) fun t => { db with clients := t }

/-- `INSERT INTO credentials`: the client must exist, and a role has one current
credential. -/
def insertCredential (row : CredentialRow) (db : Ledger) : Except Error Ledger :=
  if (db.clients.get? row.clientId).isNone then .error .integrityError
  else if row.status = .current ∧ (db.currentCredential row.clientId row.role).isSome then
    .error .integrityError
  else inserted (db.credentials.insert? row) fun t => { db with credentials := t }

/-- `INSERT INTO proofs`: the tag is unique, the client and the credential must exist. -/
def insertProof (row : ProofRow) (db : Ledger) : Except Error Ledger :=
  if row.proofTag ∈ db.proofs.rows.map ProofRow.proofTag then .error .integrityError
  else if (db.clients.get? row.clientId).isNone then .error .integrityError
  else if (db.credentials.get? row.issueCredentialId).isNone then .error .integrityError
  else inserted (db.proofs.insert? row) fun t => { db with proofs := t }

/-- `INSERT INTO verifications`: one row for a client and an idempotency key. -/
def insertVerification (row : VerificationRow) (db : Ledger) : Except Error Ledger :=
  if row.idempotencyKey.any fun key => (db.idempotent row.clientId key).isSome then
    .error .integrityError
  else inserted (db.verifications.insert? row) fun t => { db with verifications := t }

/-- `INSERT INTO audit_events`. -/
def insertAudit (row : AuditRow) (db : Ledger) : Except Error Ledger :=
  inserted (db.auditEvents.insert? row) fun t => { db with auditEvents := t }

/-- `INSERT INTO hash_keys`. -/
def insertHashKey (row : HashKeyRow) (db : Ledger) : Except Error Ledger :=
  inserted (db.hashKeys.insert? row) fun t => { db with hashKeys := t }

/-- `INSERT INTO maintenance ... ON CONFLICT(name) DO UPDATE SET value_integer`. -/
def upsertMaintenance (name : MaintenanceName) (value : ℤ) (db : Ledger) : Ledger :=
  match db.maintenance.insert? ⟨name, value⟩ with
  | some t => { db with maintenance := t }
  | none =>
    { db with
      maintenance := db.maintenance.update (fun r => r.name = name)
        (fun r => { r with valueInteger := value }) fun _ => rfl }

/-- `DELETE FROM credentials`: a credential that a proof refers to is kept by its foreign
key. -/
def deleteCredentials (p : CredentialRow → Bool) (db : Ledger) : Except Error Ledger :=
  if ∃ c ∈ db.credentials.rows, p c = true ∧
      ∃ r ∈ db.proofs.rows, r.issueCredentialId = c.credentialId then
    .error .integrityError
  else .ok { db with credentials := db.credentials.delete p }

end Ledger

end Onceproof

import Onceproof.Store.Schema
import Onceproof.Lib.Transaction

/-!
# The store

The methods of `Store` that run under the SQLite write lock, as transactions over the
ledger. Each `execute` is one SQL statement with the text parameters that are bound to it;
binding a text with a lone surrogate raises `UnicodeEncodeError`. The clock reading taken
under the lock and the random bytes drawn there are arguments.
-/

namespace Onceproof

/-- Transactions on the ledger. -/
abbrev LedgerTx (α : Type) : Type 1 := Tx Ledger Error α

/-- `database.execute(statement, params)`. -/
def execute {α : Type} (params : List Str) (stmt : Ledger → Except Error (α × Ledger)) :
    LedgerTx α :=
  Tx.exec fun db =>
    if params.all Str.encodable then stmt db else .error .unicodeEncodeError

/-- A statement that only reads. -/
def select {α : Type} (params : List Str) (query : Ledger → α) : LedgerTx α :=
  execute params fun db => .ok (query db, db)

/-- A statement that writes and may violate a constraint. -/
def insert (params : List Str) (stmt : Ledger → Except Error Ledger) : LedgerTx Unit :=
  execute params fun db => (stmt db).map fun db' => ((), db')

/-- A statement that writes and reports a number of rows. -/
def change {α : Type} (params : List Str) (stmt : Ledger → α × Ledger) : LedgerTx α :=
  execute params fun db => .ok (stmt db)

/-- Whether `sqlite3` binds an integer: a value of SQLite has 64 bits. -/
abbrev Bindable (n : ℤ) : Prop := -9223372036854775808 ≤ n ∧ n ≤ 9223372036854775807

/-- The binding of an integer. Clock readings and what is validated fit by themselves. -/
def bindInteger (n : ℤ) : LedgerTx Unit :=
  if Bindable n then pure () else Prog.raise .overflowError

/-! ### Records -/

/-- `ClientRecord`. -/
structure ClientRecord where
  clientId : Str
  name : Str
  status : ClientStatus
  allowedAudiences : List Str
  proofTtlSeconds : ℤ
  issueLimitPerMinute : ℤ
  verifyLimitPerMinute : ℤ
  deriving DecidableEq

/-- `CredentialRecord`. -/
structure CredentialRecord where
  credentialId : Str
  clientId : Str
  role : Role
  hashKid : Str
  secretDigest : Str
  status : CredentialStatus
  validUntil : Option ℤ
  deriving DecidableEq

/-- `ProofRecord`. -/
structure ProofRecord where
  tokenDigest : Str
  proofTag : Str
  hashKid : Str
  clientId : Str
  issueCredentialId : Str
  subject : Str
  purpose : Str
  audience : Str
  issuedAt : ℤ
  expiresAt : ℤ
  consumedAt : Option ℤ
  deriving DecidableEq

/-- `_credential_is_accepted`. -/
def credentialIsAccepted (record : CredentialRow) (now : ℤ) : Bool :=
  match record.status with
  | .current => true
  | .previous => match record.validUntil with
    | some validUntil => now < validUntil
    | none => false
  | .revoked => false

/-- The non-empty texts of a JSON array. -/
def audiencesOfJson : Json → Option (List Str)
  | .arr items => items.mapM fun v => match v with
    | .str s => if s = [] then none else some s
    | _ => none
  | _ => none

/-- `_client_from_row`. -/
def clientFromRow (row : ClientRow) : Except Error ClientRecord :=
  match audiencesOfJson row.allowedAudiencesJson with
  | some (a :: as) =>
    .ok {
      clientId := row.clientId
      name := row.name
      status := row.status
      allowedAudiences := a :: as
      proofTtlSeconds := row.proofTtlSeconds
      issueLimitPerMinute := row.issueLimitPerMinute
      verifyLimitPerMinute := row.verifyLimitPerMinute }
  | _ => .error .storeCorruptionError

/-- `_credential_from_row`. -/
def credentialFromRow (row : CredentialRow) : CredentialRecord where
  credentialId := row.credentialId
  clientId := row.clientId
  role := row.role
  hashKid := row.hashKid
  secretDigest := row.secretDigest
  status := row.status
  validUntil := row.validUntil

/-- `_proof_from_row`. -/
def proofFromRow (row : ProofRow) : ProofRecord where
  tokenDigest := row.tokenDigest
  proofTag := row.proofTag
  hashKid := row.hashKid
  clientId := row.clientId
  issueCredentialId := row.issueCredentialId
  subject := row.subject
  purpose := row.purpose
  audience := row.audience
  issuedAt := row.issuedAt
  expiresAt := row.expiresAt
  consumedAt := row.consumedAt

/-- `_result_json`, as the value its text is read back to. -/
def resultJson (result : VerificationResult) : Json := Json.persist result.toDict

/-- The `except` clause of `_result_from_json`. A `UnicodeEncodeError` is a `ValueError` as well,
a `RecursionError` is none. -/
def corruption : Error → Error
  | .keyError _ | .typeError | .valueError _ | .valueErrorAt _ _ | .unicodeEncodeError =>
    .storeCorruptionError
  | e => e

/-- The exceptions of the decoder, to which a stored text is given. -/
def decodeRaised : DecodeError → Error
  | .invalid => .valueError "Expecting value"
  | .overlongInteger =>
    .valueError "Exceeds the limit (4300 digits) for integer string conversion"
  | .recursion => .recursionError

/-- `_result_from_json`, where `decoded` is what `json.loads` makes of its text. -/
def resultFromJson (decoded : Except DecodeError Json) : Except Error VerificationResult :=
  (decoded.mapError decodeRaised >>= VerificationResult.fromDict).mapError corruption

/-- `_rejected_result`. -/
def rejectedResult (reason : RejectionReason) (verificationId : Str)
    (proofTag clientId : Option Str) (now : ℤ) : VerificationResult where
  verified := false
  reason := some reason
  witness :=
    { state := reason.expectedState, verificationId, proofTag, clientId, decidedAt := now,
      reason := some reason }
  claims := none

/-- `_accepted_result`. -/
def acceptedResult (record : ProofRecord) (verificationId : Str) (now : ℤ) :
    VerificationResult where
  verified := true
  reason := none
  witness :=
    { state := .verifiedOnce, verificationId, proofTag := some record.proofTag,
      clientId := some record.clientId, decidedAt := now, reason := none }
  claims := some
    { clientId := record.clientId, subject := record.subject, purpose := record.purpose,
      audience := record.audience, issuedAt := record.issuedAt, expiresAt := record.expiresAt }

/-! ### Shared statements -/

/-- `Store._require_operational`. -/
def requireOperational : LedgerTx Unit := do
  if ← select [] Ledger.restoreRequired then
    Prog.raise .restoreRequiredError
  else
    pure ()

/-- `Store._register_hash_key`. -/
def registerHashKey (kid expectedCheck : Str) : LedgerTx Unit := do
  match ← select [kid] fun db => db.hashKeys.get? kid with
  | none => insert [kid, expectedCheck] (Ledger.insertHashKey ⟨kid, expectedCheck⟩)
  | some row =>
    if row.keyCheck ≠ expectedCheck then
      Prog.raise .storeCorruptionError
    else
      pure ()

/-- `Store._consume_rate_slot`. -/
def consumeRateSlot (clientId : Str) (operation : Operation) (limit now : ℤ) :
    LedgerTx Unit := do
  let cutoff := now - 60
  change [] fun db =>
    ((), { db with rateEvents := db.rateEvents.filter fun e => cutoff < e.occurredAt })
  let window ← select [clientId] fun db => db.rateWindow clientId operation cutoff
  if limit ≤ window.length then
    match (window.map RateEvent.occurredAt).min? with
    | some oldest => Prog.raise (.rateLimitError (min 60 (max 1 (oldest + 60 - now))))
    | none => Prog.raise .typeError
  else
    change [clientId] fun db =>
      ((), { db with rateEvents := db.rateEvents ++ [⟨clientId, operation, now⟩] })

/-- `Store._insert_audit`. The event id is drawn from 16 random bytes. -/
def insertAudit (event : Bytes) (now : ℤ) (kind : AuditKind) (outcome : AuditOutcome)
    (clientId credentialId proofTag : Option Str) (reason : Option RejectionReason) :
    LedgerTx Unit :=
  insert (clientId.toList ++ credentialId.toList ++ proofTag.toList)
    (Ledger.insertAudit
      { eventId := lit "ae_" ++ hexlify event, createdAt := now, kind, clientId, credentialId,
        proofTag, outcome, reason })

/-! ### Clients -/

/-- The arguments of `Store.create_client`. -/
structure CreateClient where
  clientId : Str
  name : Str
  allowedAudiences : List Str
  proofTtlSeconds : ℤ
  issueLimitPerMinute : ℤ
  verifyLimitPerMinute : ℤ
  issuanceCredential : CredentialRecord
  verificationCredential : CredentialRecord
  hashKeyCheck : Str
  now : ℤ

/-- `INSERT INTO clients`, with the `CHECK` constraints on the limits. -/
def insertClientRow (a : CreateClient) (db : Ledger) : Except Error Ledger :=
  if h : (1 ≤ a.proofTtlSeconds ∧ a.proofTtlSeconds ≤ 3600) ∧
      (1 ≤ a.issueLimitPerMinute ∧ a.issueLimitPerMinute ≤ 100000) ∧
      (1 ≤ a.verifyLimitPerMinute ∧ a.verifyLimitPerMinute ≤ 100000) then
    db.insertClient
      { clientId := a.clientId
        name := a.name
        status := .active
        allowedAudiencesJson := Json.persist (.arr (a.allowedAudiences.map .str))
        proofTtlSeconds := a.proofTtlSeconds
        issueLimitPerMinute := a.issueLimitPerMinute
        verifyLimitPerMinute := a.verifyLimitPerMinute
        createdAt := a.now
        revokedAt := none
        proofTtl_check := h.1
        issueLimit_check := h.2.1
        verifyLimit_check := h.2.2 }
  else .error .integrityError

/-- A fresh credential as a current row. -/
def CredentialRecord.toCurrentRow (c : CredentialRecord) (now : ℤ) : CredentialRow where
  credentialId := c.credentialId
  clientId := c.clientId
  role := c.role
  hashKid := c.hashKid
  secretDigest := c.secretDigest
  status := .current
  createdAt := now
  validUntil := none
  revokedAt := none

/-- `INSERT INTO credentials (..., status, ...) VALUES (..., 'current', ...)`. -/
def insertCurrentCredential (c : CredentialRecord) (now : ℤ) : LedgerTx Unit :=
  insert [c.credentialId, c.clientId, c.hashKid, c.secretDigest]
    (Ledger.insertCredential (c.toCurrentRow now))

/-- `Store.create_client`. -/
def Store.createClient (a : CreateClient) (event : Bytes) : LedgerTx Unit := do
  requireOperational
  if a.issuanceCredential.hashKid ≠ a.verificationCredential.hashKid then
    Prog.raise (.valueError "client_credential_key_mismatch")
  else
    registerHashKey a.issuanceCredential.hashKid a.hashKeyCheck
    insert [a.clientId, a.name] (insertClientRow a)
    insertCurrentCredential a.issuanceCredential a.now
    insertCurrentCredential a.verificationCredential a.now
    insertAudit event a.now .clientCreated .created (some a.clientId) none none none

/-- The arguments of `Store.rotate_credential`. -/
structure RotateCredential where
  clientId : Str
  role : Role
  replacement : CredentialRecord
  hashKeyCheck : Str
  graceSeconds : ℤ
  now : ℤ

/-- `Store.rotate_credential`. -/
def Store.rotateCredential (a : RotateCredential) (event : Bytes) : LedgerTx (Str × ℤ) := do
  let previousValidUntil := a.now + a.graceSeconds
  requireOperational
  registerHashKey a.replacement.hashKid a.hashKeyCheck
  match ← select [a.clientId] fun db => db.clients.get? a.clientId with
  | none => Prog.raise (.keyError a.clientId)
  | some client =>
    if client.status ≠ .active then
      Prog.raise (.valueError "client_revoked")
    else
      match ← select [a.clientId] fun db => db.currentCredential a.clientId a.role with
      | none => Prog.raise (.valueError "current_credential_missing")
      | some current =>
        let previousId := current.credentialId
        change [previousId] fun db =>
          ((), { db with
            credentials := db.credentials.update (fun c => c.credentialId = previousId)
              (fun c => { c with status := .previous, validUntil := some previousValidUntil })
              fun _ => rfl })
        insertCurrentCredential a.replacement a.now
        insertAudit event a.now .credentialRotated .rotated (some a.clientId)
          (some a.replacement.credentialId) none none
        pure (previousId, previousValidUntil)

/-- An unconsumed proof loses its remaining lifetime. -/
def ProofRow.expireBy (now : ℤ) (r : ProofRow) : ProofRow :=
  { r with expiresAt := if r.expiresAt < now then r.expiresAt else now }

/-- `Store.revoke_client`. -/
def Store.revokeClient (clientId : Str) (now : ℤ) (event : Bytes) : LedgerTx Bool := do
  requireOperational
  match ← select [clientId] fun db => db.clients.get? clientId with
  | none => Prog.raise (.keyError clientId)
  | some client =>
    if client.status = .revoked then
      pure false
    else
      change [clientId] fun db =>
        ((), { db with
          clients := db.clients.update (fun c => c.clientId = clientId)
            (fun c => { c with status := .revoked, revokedAt := some now }) fun _ => rfl })
      change [clientId] fun db =>
        ((), { db with
          credentials := db.credentials.update
            (fun c => c.clientId = clientId ∧ c.status ≠ .revoked)
            (fun c => { c with status := .revoked, validUntil := some now,
                               revokedAt := some now }) fun _ => rfl })
      change [clientId] fun db =>
        ((), { db with
          proofs := db.proofs.update (fun r => r.clientId = clientId ∧ r.consumedAt = none)
            (ProofRow.expireBy now) fun _ => rfl })
      insertAudit event now .clientRevoked .revoked (some clientId) none none none
      pure true

/-! ### Proofs -/

/-- A committed proof record as a row. -/
def ProofRecord.toRow (r : ProofRecord) : ProofRow where
  tokenDigest := r.tokenDigest
  proofTag := r.proofTag
  hashKid := r.hashKid
  clientId := r.clientId
  issueCredentialId := r.issueCredentialId
  subject := r.subject
  purpose := r.purpose
  audience := r.audience
  issuedAt := r.issuedAt
  expiresAt := r.expiresAt
  consumedAt := none
  consumeVerificationId := none

/-- `Store.issue_proof`. -/
def Store.issueProof (record : ProofRecord) (hashKeyCheck : Str) (now : ℤ) (event : Bytes) :
    LedgerTx ProofRecord := do
  requireOperational
  registerHashKey record.hashKid hashKeyCheck
  let ttlSeconds := record.expiresAt - record.issuedAt
  let committed := { record with issuedAt := now, expiresAt := now + ttlSeconds }
  match ← select [committed.issueCredentialId]
      fun db => db.joined committed.issueCredentialId .issuance with
  | none => Prog.raise (.permissionError "credential_rejected")
  | some (credential, client) =>
    if client.status ≠ .active then
      Prog.raise (.permissionError "credential_rejected")
    else if credential.clientId ≠ committed.clientId ∨
        ¬ credentialIsAccepted credential now then
      Prog.raise (.permissionError "credential_rejected")
    else
      consumeRateSlot committed.clientId .issue client.issueLimitPerMinute now
      insert [committed.tokenDigest, committed.proofTag, committed.hashKid,
          committed.clientId, committed.issueCredentialId, committed.subject,
          committed.purpose, committed.audience]
        (Ledger.insertProof committed.toRow)
      insertAudit event now .proofIssued .issued (some committed.clientId)
        (some committed.issueCredentialId) (some committed.proofTag) none
      pure committed

/-- `Store._idempotent_result`. -/
def idempotentResult (clientId : Str) (idempotencyKey : Option Str)
    (requestFingerprint : Str) : LedgerTx (Option VerificationResult) :=
  match idempotencyKey with
  | none => pure none
  | some key => do
    match ← select [clientId, key] fun db => db.idempotent clientId key with
    | none => pure none
    | some row =>
      if row.requestFingerprint ≠ requestFingerprint then
        Prog.raise (.valueError "idempotency_conflict")
      else
        let result ← Prog.lift (resultFromJson (.ok row.resultJson))
        pure (some result)

/-- The arguments of `Store.consume_proof`. -/
structure ConsumeProof where
  credentialId : Str
  clientId : Str
  tokenDigest : Str
  subject : Str
  purpose : Str
  audience : Str
  requestFingerprint : Str
  idempotencyKey : Option Str
  deriving DecidableEq

/-- The decision of `Store.consume_proof` on the row it found, the conditional update
included. -/
def decideProof (a : ConsumeProof) (record : Option ProofRecord) (verificationId : Str)
    (now : ℤ) : LedgerTx VerificationResult :=
  match record with
  | none => pure (rejectedResult .invalid verificationId none (some a.clientId) now)
  | some record =>
    if record.consumedAt ≠ none then
      pure (rejectedResult .alreadyConsumed verificationId (some record.proofTag)
        (some a.clientId) now)
    else if record.expiresAt ≤ now then
      pure (rejectedResult .expired verificationId (some record.proofTag)
        (some a.clientId) now)
    else if record.purpose ≠ a.purpose ∨ record.audience ≠ a.audience ∨
        record.subject ≠ a.subject then
      pure (rejectedResult .bindingMismatch verificationId (some record.proofTag)
        (some a.clientId) now)
    else do
      -- the conditional update decides, whatever was read before it
      let consumable (r : ProofRow) : Bool :=
        r.tokenDigest = a.tokenDigest ∧ r.consumedAt = none ∧ now < r.expiresAt
      let rowcount ← change [verificationId, a.tokenDigest] fun db =>
        (db.proofs.count consumable,
          { db with
            proofs := db.proofs.update consumable
              (fun r => { r with consumedAt := some now,
                                 consumeVerificationId := some verificationId })
              fun _ => rfl })
      if rowcount = 1 then
        pure (acceptedResult record verificationId now)
      else
        pure (rejectedResult .alreadyConsumed verificationId (some record.proofTag)
          (some a.clientId) now)

/-- The random bytes drawn by one verification. -/
structure Draws where
  verification : Bytes
  event : Bytes

/-- `Store.consume_proof`. -/
def Store.consumeProof (a : ConsumeProof) (now : ℤ) (draws : Draws) :
    LedgerTx VerificationResult := do
  requireOperational
  let verificationId := lit "vr_" ++ hexlify draws.verification
  match ← select [a.credentialId] fun db => db.joined a.credentialId .verification with
  | none => pure (rejectedResult .credentialRejected verificationId none none now)
  | some (credential, client) =>
    if credential.clientId ≠ a.clientId ∨ client.status ≠ .active ∨
        ¬ credentialIsAccepted credential now then
      pure (rejectedResult .credentialRejected verificationId none none now)
    else
      match ← idempotentResult a.clientId a.idempotencyKey a.requestFingerprint with
      -- a replayed answer takes no slot
      | some cached => pure cached
      | none =>
        consumeRateSlot a.clientId .verify client.verifyLimitPerMinute now
        let row ← select [a.tokenDigest] fun db => db.proofs.get? a.tokenDigest
        -- a proof of another client counts as unknown
        let record := (row.filter fun r => r.clientId = a.clientId).map proofFromRow
        let result ← decideProof a record verificationId now
        insert ([verificationId, a.clientId, a.credentialId, a.requestFingerprint] ++
            result.witness.proofTag.toList ++ a.idempotencyKey.toList)
          (Ledger.insertVerification
            { verificationId := result.witness.verificationId
              clientId := a.clientId
              credentialId := a.credentialId
              proofTag := result.witness.proofTag
              requestFingerprint := a.requestFingerprint
              idempotencyKey := a.idempotencyKey
              resultJson := resultJson result
              createdAt := now })
        insertAudit draws.event now
          (if result.verified then .proofVerified else .proofRejected)
          (if result.verified then .verified else .rejected)
          (some a.clientId) (some a.credentialId) result.witness.proofTag result.reason
        pure result

/-! ### Maintenance -/

/-- The numbers of rows that a cleanup removed. -/
structure CleanupCounts where
  proofs : ℕ
  credentials : ℕ
  verifications : ℕ
  auditEvents : ℕ
  rateEvents : ℕ
  deriving DecidableEq

/-- `IDEMPOTENCY_RETENTION_SECONDS`. -/
def idempotencyRetentionSeconds : ℤ := 86400

/-- `PROOF_RETENTION_SECONDS`. -/
def proofRetentionSeconds : ℤ := 3600

/-- The default retention of audit events. -/
def auditRetentionSeconds : ℤ := 604800

/-- `COALESCE(valid_until, revoked_at, created_at)`. -/
def CredentialRow.endedAt (c : CredentialRow) : ℤ :=
  (c.validUntil.or c.revokedAt).getD c.createdAt

/-- A credential that `cleanup` removes: not current, past its end, and the issuer of no
remaining proof. -/
def Ledger.credentialIsStale (db : Ledger) (now : ℤ) (c : CredentialRow) : Bool :=
  c.status ≠ .current ∧ c.endedAt < now ∧
    ¬ ∃ r ∈ db.proofs.rows, r.issueCredentialId = c.credentialId

/-- The times of a cleanup whose integers can all be bound. -/
abbrev CleanupTime (now : ℤ) : Prop := Bindable (now - auditRetentionSeconds) ∧ Bindable now

/-- `Store.cleanup` with its default retentions. -/
def Store.cleanup (now : ℤ) : LedgerTx CleanupCounts := do
  bindInteger (now - proofRetentionSeconds)
  let proofs ← change [] fun db =>
    let stale (r : ProofRow) : Bool := r.expiresAt < now - proofRetentionSeconds
    (db.proofs.count stale, { db with proofs := db.proofs.delete stale })
  bindInteger now
  let credentials ← execute [] fun db =>
    (db.deleteCredentials (db.credentialIsStale now)).map fun db' =>
      (db.credentials.count (db.credentialIsStale now), db')
  bindInteger (now - idempotencyRetentionSeconds)
  let verifications ← change [] fun db =>
    let stale (v : VerificationRow) : Bool :=
      v.createdAt < now - idempotencyRetentionSeconds
    (db.verifications.count stale, { db with verifications := db.verifications.delete stale })
  bindInteger (now - auditRetentionSeconds)
  let auditEvents ← change [] fun db =>
    let stale (e : AuditRow) : Bool := e.createdAt < now - auditRetentionSeconds
    (db.auditEvents.count stale, { db with auditEvents := db.auditEvents.delete stale })
  bindInteger (now - 60)
  let rateEvents ← change [] fun db =>
    (db.rateEvents.countP fun e => e.occurredAt ≤ now - 60,
      { db with rateEvents := db.rateEvents.filter fun e => now - 60 < e.occurredAt })
  bindInteger now
  change [] fun db => ((), db.upsertMaintenance .lastCleanupAt now)
  pure { proofs, credentials, verifications, auditEvents, rateEvents }

/-- `Store.activate_restored_backup`. -/
def Store.activateRestoredBackup (now : ℤ) (event : Bytes) : LedgerTx Unit := do
  if ← select [] Ledger.restoreRequired then
    change [] fun db =>
      ((), { db with
        clients := db.clients.update (fun _ => true)
          (fun c => { c with status := .revoked,
                             revokedAt := some (c.revokedAt.getD now) }) fun _ => rfl })
    change [] fun db =>
      ((), { db with
        credentials := db.credentials.update (fun _ => true)
          (fun c => { c with status := .revoked, validUntil := some now,
                             revokedAt := some (c.revokedAt.getD now) }) fun _ => rfl })
    change [] fun db =>
      ((), { db with
        proofs := db.proofs.update (fun r => r.consumedAt = none)
          (ProofRow.expireBy now) fun _ => rfl })
    change [] fun db => ((), { db with rateEvents := [] })
    insertAudit event now .restoreActivated .allPriorAuthorityRevoked none none none none
    change [] fun db =>
      ((), { db with
        maintenance := db.maintenance.update (fun r => r.name = .restoreRequired)
          (fun r => { r with valueInteger := 0 }) fun _ => rfl })
  else
    Prog.raise (.valueError "restore_activation_not_required")

/-- The ledger that `Store.backup` writes: a consistent copy under the restore seal. -/
def Store.backup (db : Ledger) : Ledger := db.upsertMaintenance .restoreRequired 1

end Onceproof

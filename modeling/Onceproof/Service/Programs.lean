import Onceproof.Host
import Onceproof.Service.Validation

/-!
# The service

The methods of `KeyRing` and of `OnceproofService` as programs over the host's commands, in
the order in which the source reads the clock, draws bytes and accesses its stores.
-/

namespace Onceproof

variable (H : HashLib)

/-- `with lock:` around a program. -/
def withLock {α : Type} (l : LockName) (p : HostProg α) : HostProg α := do
  (Op.acquire l).run
  p.ensure (Op.release l).run

/-- Raise an exception. -/
abbrev HostProg.raise {α : Type} (e : Error) : HostProg α := Prog.raise e

/-! ### The keyring -/

/-- `KeyRing.stable`: the file lock around a program that needs the file to agree with
memory. -/
def KeyRing.stable {α : Type} (p : HostProg α) : HostProg α :=
  withLock .keyringFile do
    let disk : KeyRing ← Op.readKeyring.run
    let memory : KeyRing ← Op.memory.run
    if disk ≠ memory then
      HostProg.raise (.valueError "keyring_changed_on_disk")
    else p

/-- Take over the generation on disk. -/
def KeyRing.reload : HostProg Unit := do
  let disk : KeyRing ← Op.readKeyring.run
  (Op.setMemory disk).run

/-- `KeyRing._replace_and_reload`. -/
def KeyRing.replaceAndReload (k : KeyRing) : HostProg Unit :=
  .act (.replaceKeyring k) fun
    | .ok _ => Prog.raiseAs .keyringCommitUncertain KeyRing.reload
    | .error e => do
      Prog.raiseAs .keyringCommitUncertain KeyRing.reload
      HostProg.raise e

/-- `KeyRing.rotate`. -/
def KeyRing.rotate : HostProg Str :=
  KeyRing.stable do
    let memory : KeyRing ← Op.memory.run
    let kid : Str ← (Op.newKid memory.keys.keys).run
    let key : RootKey ← Op.newRootKey.run
    KeyRing.replaceAndReload (memory.rotated kid key)
    pure kid

/-- `KeyRing.retire`. -/
def KeyRing.retire (kid : Str) (inUse : Str → HostProg Bool) : HostProg Unit :=
  KeyRing.stable do
    let memory : KeyRing ← Op.memory.run
    if h : kid = memory.currentKid then
      HostProg.raise (.valueError "cannot_retire_current_key")
    else if (memory.keyFor kid).isNone then
      HostProg.raise (.keyError kid)
    else if ← inUse kid then
      HostProg.raise (.valueError "key_still_in_use")
    else
      KeyRing.replaceAndReload (memory.retired kid h)

/-- `KeyRing.backup_with` around `Store.backup`: the two files it writes. -/
def KeyRing.backupWith : HostProg (Ledger × KeyRing) :=
  KeyRing.stable do
    let memory : KeyRing ← Op.memory.run
    let database : Ledger ← Op.backup.run
    pure (database, memory)

/-! ### Authentication and maintenance -/

/-- The status check of `_authenticate`. -/
def CredentialRecord.isAccepted (record : CredentialRecord) (now : ℤ) : Bool :=
  match record.status with
  | .current => true
  | .previous => match record.validUntil with
    | some validUntil => now < validUntil
    | none => false
  | .revoked => false

/-- `_authenticate`. -/
def Service.authenticate (secret : Json) (role : Role) (now : ℤ) :
    HostProg (Option CredentialRecord) :=
  match secret with
  | .str secret =>
    match Service.credentialIdFromSecret secret role with
    | none => pure none
    | some credentialId => do
      let row : Option CredentialRow ← (Op.credential credentialId).run
      match row with
      | none => pure none
      | some row =>
        let record := credentialFromRow row
        if record.role ≠ role then
          pure none
        else
          let memory : KeyRing ← Op.memory.run
          match memory.keyFor record.hashKid with
          | none => pure none
          | some key =>
            let secretDigest ← Prog.lift (credentialDigest H key.val secret)
            if record.secretDigest ≠ secretDigest then
              pure none
            else if record.isAccepted now then
              pure (some record)
            else
              pure none
  | _ => pure none

/-- `_CLEANUP_INTERVAL_SECONDS`. -/
def cleanupIntervalSeconds : ℤ := 300

/-- `_maybe_cleanup`. -/
def Service.maybeCleanup (now : ℤ) : HostProg Unit := do
  let nextCleanupAt : ℤ ← Op.nextCleanupAt.run
  if now < nextCleanupAt then
    pure ()
  else
    let acquired : Bool ← (Op.tryAcquire .maintenanceLock).run
    if acquired then
      Prog.ensure
        (do
          let nextCleanupAt : ℤ ← Op.nextCleanupAt.run
          if nextCleanupAt ≤ now then
            let _ ← (Op.store (.cleanup now)).run
            (Op.setNextCleanupAt (now + cleanupIntervalSeconds)).run
          else
            pure ())
        (Op.release .maintenanceLock).run
    else
      pure ()

/-! ### Clients -/

/-- `_new_credential`. -/
def Service.newCredential (role : Role) (clientId : Str) : HostProg (CredentialRecord × Str) := do
  let idBytes : Bytes ← (Op.tokenBytes 12).run
  let credentialId := role.idPrefix ++ hexlify idBytes
  let secretBytes : Bytes ← (Op.tokenBytes 32).run
  let secret := Service.newSecret role credentialId secretBytes
  let memory : KeyRing ← Op.memory.run
  let secretDigest ← Prog.lift (credentialDigest H memory.currentKey.2.val secret)
  pure ({ credentialId, clientId, role, hashKid := memory.currentKey.1, secretDigest,
          status := .current, validUntil := none }, secret)

/-- The arguments of `create_client`. -/
structure CreateClientRequest where
  name : Json
  allowedAudiences : List Json
  proofTtlSeconds : Json
  issueLimitPerMinute : Json
  verifyLimitPerMinute : Json
  hasSink : Bool

/-- `create_client`. -/
def Service.createClient (q : CreateClientRequest) : HostProg ClientCredentials := do
  let clientName ← Prog.lift (Service.text q.name "name" maxNameLength)
  if q.allowedAudiences = [] then
    HostProg.raise (.valueError "invalid_allowed_audiences")
  else
    let audiences ← Prog.lift (q.allowedAudiences.mapM Service.audience)
    let proofTtlSeconds ← Prog.lift (Service.integer q.proofTtlSeconds "proof_ttl_seconds" 1 3600)
    let issueLimitPerMinute ←
      Prog.lift (Service.integer q.issueLimitPerMinute "issue_limit_per_minute" 1 100000)
    let verifyLimitPerMinute ←
      Prog.lift (Service.integer q.verifyLimitPerMinute "verify_limit_per_minute" 1 100000)
    withLock .keyLock (KeyRing.stable do
      let idBytes : Bytes ← (Op.tokenBytes 12).run
      let clientId := lit "opc_" ++ hexlify idBytes
      let (issuance, issuanceSecret) ← Service.newCredential H .issuance clientId
      let (verification, verificationSecret) ← Service.newCredential H .verification clientId
      let credentials : ClientCredentials :=
        { clientId
          issuanceCredentialId := issuance.credentialId
          issuanceSecret
          verificationCredentialId := verification.credentialId
          verificationSecret }
      -- the secrets are delivered before the client is committed
      if q.hasSink then
        (Op.deliver (.client credentials)).run
      let memory : KeyRing ← Op.memory.run
      let check ← Prog.lift (keyCheck H memory.currentKey.2.val)
      let now : ℤ ← Op.clock.run
      (Op.store (.createClient
        { clientId
          name := clientName
          allowedAudiences := audiences.eraseDups
          proofTtlSeconds
          issueLimitPerMinute
          verifyLimitPerMinute
          issuanceCredential := issuance
          verificationCredential := verification
          hashKeyCheck := check
          now })).run
      pure credentials)

/-- The arguments of `rotate_credential`. -/
structure RotateRequest where
  clientId : Json
  role : Str
  graceSeconds : Json
  hasSink : Bool

/-- A role by its name. -/
def Role.text : Role → Str
  | .issuance => lit "issuance"
  | .verification => lit "verification"

/-- The roles by name. -/
def Role.ofText? (s : Str) : Option Role :=
  if s = lit "issuance" then some .issuance
  else if s = lit "verification" then some .verification
  else none

/-- `_MAX_ROTATION_GRACE_SECONDS`. -/
def maxRotationGraceSeconds : ℤ := 86400

/-- `rotate_credential`. -/
def Service.rotateCredential (q : RotateRequest) : HostProg RotatedCredential :=
  match Role.ofText? q.role with
  | none => HostProg.raise (.valueError "invalid_role")
  | some role => do
    let graceSeconds ←
      Prog.lift (Service.integer q.graceSeconds "grace_seconds" 0 maxRotationGraceSeconds)
    let clientId ← Prog.lift (Service.text q.clientId "client_id" 128)
    let now : ℤ ← Op.clock.run
    withLock .keyLock (KeyRing.stable do
      let (replacement, secret) ← Service.newCredential H role clientId
      if q.hasSink then
        (Op.deliver (.rotated clientId replacement.credentialId role secret)).run
      let memory : KeyRing ← Op.memory.run
      let check ← Prog.lift (keyCheck H memory.currentKey.2.val)
      let reply : Str × ℤ ← (Op.store (.rotateCredential
        { clientId, role, replacement, hashKeyCheck := check, graceSeconds, now })).run
      pure
        { clientId
          credentialId := replacement.credentialId
          role := q.role
          secret
          previousCredentialId := reply.1
          previousValidUntil := reply.2 })

/-- `revoke_client`. -/
def Service.revokeClient (clientId : Json) : HostProg Bool := do
  let clientId ← Prog.lift (Service.text clientId "client_id" 128)
  let now : ℤ ← Op.clock.run
  (Op.store (.revokeClient clientId now)).run

/-! ### Proofs -/

/-- The arguments of `issue_proof`. -/
structure IssueRequest where
  issuanceSecret : Json
  subject : Json
  purpose : Json
  audience : Json
  ttlSeconds : Json

/-- The time to live of a proof: the client's own unless a smaller one is asked for. -/
def Service.ttl (ttlSeconds : Json) (client : ClientRecord) : Except Error ℤ :=
  match ttlSeconds with
  | .null =>
    Service.integer (.int client.proofTtlSeconds) "ttl_seconds" 1 client.proofTtlSeconds
  | v => Service.integer v "ttl_seconds" 1 client.proofTtlSeconds

/-- `issue_proof`. -/
def Service.issueProof (q : IssueRequest) : HostProg IssuedProof := do
  let subject ← Prog.lift (Service.text q.subject "subject" maxSubjectLength)
  let purpose ← Prog.lift (Service.purpose q.purpose)
  let audience ← Prog.lift (Service.audience q.audience)
  let now : ℤ ← Op.clock.run
  Service.maybeCleanup now
  -- no rotation comes between the digest and the commit
  withLock .keyLock do
    match ← Service.authenticate H q.issuanceSecret .issuance now with
    | none => HostProg.raise (.permissionError "credential_rejected")
    | some credential =>
      let row : Option ClientRow ← (Op.client credential.clientId).run
      match row with
      | none => HostProg.raise (.permissionError "credential_rejected")
      | some row =>
        let client ← Prog.lift (clientFromRow row)
        if client.status ≠ .active then
          HostProg.raise (.permissionError "credential_rejected")
        else if audience ∉ client.allowedAudiences then
          HostProg.raise (.valueError "audience_not_allowed")
        else
          let ttl ← Prog.lift (Service.ttl q.ttlSeconds client)
          let memory : KeyRing ← Op.memory.run
          let tokenBytes : Bytes ← (Op.tokenBytes 32).run
          let proof := Service.proofToken memory.currentKey.1 tokenBytes
          -- the store sees the digest of the proof only
          let tokenDigest ← Prog.lift (proofDigest H memory.currentKey.2.val proof)
          let proofTag := lit "pf_" ++ tokenDigest.take 24
          let record : ProofRecord :=
            { tokenDigest
              proofTag
              hashKid := memory.currentKey.1
              clientId := credential.clientId
              issueCredentialId := credential.credentialId
              subject
              purpose
              audience
              issuedAt := now
              expiresAt := now + ttl
              consumedAt := none }
          let check ← Prog.lift (keyCheck H memory.currentKey.2.val)
          let committed : ProofRecord ← (Op.store (.issueProof record check)).run
          pure
            { proof
              receipt :=
                { proofTag
                  clientId := credential.clientId
                  subject
                  purpose
                  audience
                  issuedAt := committed.issuedAt
                  expiresAt := committed.expiresAt } }

/-- `Store.cached_verification`. -/
def Service.cachedVerification (credentialId clientId : Str) (idempotencyKey : Option Str)
    (fingerprint : Str) : HostProg (Option VerificationResult) :=
  match idempotencyKey with
  | none => pure none
  | some key => do
    let required : Bool ← Op.restoreRequired.run
    if required then
      HostProg.raise .restoreRequiredError
    else
      let now : ℤ ← Op.clock.run
      let row : Option (CredentialRow × ClientRow) ← (Op.joined credentialId).run
      match row with
      | none => pure none
      | some (credential, client) =>
        if credential.clientId ≠ clientId ∨ client.status ≠ .active ∨
            ¬ credentialIsAccepted credential now then
          pure none
        else
          let stored : Option VerificationRow ← (Op.idempotent clientId key).run
          match stored with
          | none => pure none
          | some row =>
            if row.requestFingerprint ≠ fingerprint then
              HostProg.raise (.valueError "idempotency_conflict")
            else
              let result ← Prog.lift (resultFromJson (.ok row.resultJson))
              pure (some result)

/-- The arguments of `verify_proof`. -/
structure VerifyRequest where
  verificationSecret : Json
  proof : Json
  purpose : Json
  audience : Json
  subject : Json
  idempotencyKey : Json

/-- The digest under which a proof is looked up: keyed if its key is known, plain
otherwise. -/
def Service.lookupDigest (memory : KeyRing) (proof : Str) : Except Error Str :=
  match (Service.proofKid proof).bind memory.keyFor with
  | some key => proofDigest H key.val proof
  | none => sha256Hex H proof

/-- `verify_proof`. -/
def Service.verifyProof (q : VerifyRequest) : HostProg VerificationResult := do
  let proof ← Prog.lift (Service.text q.proof "proof" 512)
  let subject ← Prog.lift (Service.text q.subject "subject" maxSubjectLength)
  let purpose ← Prog.lift (Service.purpose q.purpose)
  let audience ← Prog.lift (Service.audience q.audience)
  let idempotencyKey ← Prog.lift (Service.idempotencyKey q.idempotencyKey)
  let now : ℤ ← Op.clock.run
  Service.maybeCleanup now
  match ← Service.authenticate H q.verificationSecret .verification now with
  | none =>
    let idBytes : Bytes ← (Op.tokenBytes 16).run
    pure (rejectedResult .credentialRejected (lit "vr_" ++ hexlify idBytes) none none now)
  | some credential =>
    let memory : KeyRing ← Op.memory.run
    let tokenDigest ← Prog.lift (Service.lookupDigest H memory proof)
    let fingerprint ← Prog.lift (Service.requestFingerprint H proof subject purpose audience)
    match ← Service.cachedVerification credential.credentialId credential.clientId
        idempotencyKey fingerprint with
    | some cached => pure cached
    | none =>
      (Op.store (.consumeProof
        { credentialId := credential.credentialId
          clientId := credential.clientId
          tokenDigest
          subject
          purpose
          audience
          requestFingerprint := fingerprint
          idempotencyKey })).run

/-! ### Maintenance -/

/-- `cleanup`. -/
def Service.cleanup (now : Json) : HostProg CleanupCounts :=
  match now with
  | .null => do
    let now : ℤ ← Op.clock.run
    (Op.store (.cleanup now)).run
  | .int now => (Op.store (.cleanup now)).run
  | _ => HostProg.raise (.valueError "invalid_cleanup_time")

/-- `activate_restored_backup`. -/
def Service.activateRestoredBackup : HostProg Unit := do
  let now : ℤ ← Op.clock.run
  (Op.store (.activateRestoredBackup now)).run

/-- `Store.hash_key_is_in_use`. -/
def Service.hashKeyIsInUse (kid : Str) : HostProg Bool := do
  let credential : Bool ← (Op.credentialUses kid).run
  let proof : Bool ← (Op.proofUses kid).run
  pure (credential || proof)

/-- `retire_hash_key`. -/
def Service.retireHashKey (kid : Str) : HostProg Unit :=
  withLock .keyLock (KeyRing.retire kid Service.hashKeyIsInUse)

/-- `credential_is_accepted`. -/
def Service.credentialIsAccepted (secret : Json) (role : Str) : HostProg Bool :=
  match Role.ofText? role with
  | none => pure false
  | some role => do
    let now : ℤ ← Op.clock.run
    let record ← Service.authenticate H secret role now
    pure record.isSome

/-- `Store.referenced_hash_key_checks`; `none` is its `StoreCorruptionError`. -/
def Service.referencedHashKeyChecks : HostProg (Option (List (Str × Str))) := do
  let kids : List Str ← Op.referencedKids.run
  if kids = [] then
    pure (some [])
  else
    let checks : List (Str × Str) ← (Op.keyChecks kids).run
    if kids.all fun kid => checks.any fun c => c.1 = kid then
      pure (some checks)
    else
      pure none

/-- The comparison of every referenced key with its check. -/
def Service.keysMatch : List (Str × Str) → HostProg Bool
  | [] => pure true
  | (kid, expected) :: checks => do
    let memory : KeyRing ← Op.memory.run
    match memory.keyFor kid with
    | none => pure false
    | some key =>
      let check ← Prog.lift (keyCheck H key.val)
      if check ≠ expected then pure false else Service.keysMatch checks

/-- `ready`. -/
def Service.ready : HostProg Bool := do
  let required : Bool ← Op.restoreRequired.run
  if required then
    pure false
  else
    -- the current key is always loaded (`KeyRing.isSome_keyFor_currentKid`)
    match ← Service.referencedHashKeyChecks with
    | none => pure false
    | some checks => Service.keysMatch H checks

/-- `OnceproofService(database_path=..., keyring=KeyRing.load(...))`. -/
def Service.construct : HostProg Unit := do
  KeyRing.reload
  let now : ℤ ← Op.clock.run
  (Op.setNextCleanupAt (now + cleanupIntervalSeconds)).run

end Onceproof

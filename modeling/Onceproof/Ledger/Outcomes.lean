import Onceproof.Ledger.Decisions
import Onceproof.Ledger.Metering

/-!
# How the store's transactions end

The outcome of a transaction as a function of a few lookups: its reply or its exception, whatever
it writes on the way. Two ledgers with the same lookups give the same outcome, and a request is
answered as soon as the lookups allow it.

* `Tx.outcome` forgets the ledger that a transaction leaves behind.
* `Ledger.issueOutcome`, `Ledger.consumeOutcome`, `Ledger.rotateOutcome` and
  `Ledger.revokeOutcome` are the outcomes.
-/

namespace Onceproof

/-! ### Outcomes -/

namespace Tx

variable {σ ε α β : Type}

/-- How a transaction ends, apart from what it writes. -/
def outcome (t : Tx σ ε α) (db : σ) : Except ε α := (run t db).map Prod.fst

@[simp] theorem outcome_pure (a : α) (db : σ) : outcome (pure a : Tx σ ε α) db = .ok a := rfl

@[simp] theorem outcome_raise (e : ε) (db : σ) :
    outcome (Prog.raise e : Tx σ ε α) db = .error e := rfl

/-- The outcome of a sequence whose first part ends well. -/
theorem outcome_bind_of_ok {t : Tx σ ε α} {f : α → Tx σ ε β} {db db' : σ} {a : α}
    (h : run t db = .ok (a, db')) : outcome (t >>= f) db = outcome (f a) db' := by
  rw [outcome, run_bind_of_ok h, outcome]

theorem outcome_bind_of_error {t : Tx σ ε α} {f : α → Tx σ ε β} {db : σ} {e : ε}
    (h : run t db = .error e) : outcome (t >>= f) db = .error e := by
  rw [outcome, run_bind_of_error h]
  rfl

theorem outcome_eq_ok {t : Tx σ ε α} {db : σ} {a : α} :
    outcome t db = .ok a ↔ ∃ db', run t db = .ok (a, db') := by
  unfold outcome
  cases h : run t db with
  | error e => simp [Except.map]
  | ok x => simp [Except.map, Prod.ext_iff]

theorem outcome_eq_error {t : Tx σ ε α} {db : σ} {e : ε} :
    outcome t db = .error e ↔ run t db = .error e := by
  unfold outcome
  cases h : run t db with
  | error e' => simp [Except.map]
  | ok x => simp [Except.map]

/-- An undisturbed write answers with the outcome. -/
theorem write_fst (fault : ε) (t : Tx σ ε α) (db : σ) :
    (write fault none t db).1 = outcome t db := by
  unfold write outcome
  cases run t db <;> rfl

end Tx

/-- The texts are bound to a statement before it is executed. -/
def binding {α : Type} (params : List Str) (x : Except Error α) : Except Error α :=
  if params.all Str.encodable then x else .error .unicodeEncodeError

theorem binding_of_encodable {α : Type} {params : List Str}
    (h : params.all Str.encodable = true) (x : Except Error α) : binding params x = x := if_pos h

@[simp] theorem binding_nil {α : Type} (x : Except Error α) : binding [] x = x := rfl

/-- A text that can be bound makes no difference to a statement. -/
theorem binding_cases {α : Type} (params params' : List Str) (x y : Except Error α)
    (h : params.all Str.encodable = params'.all Str.encodable) :
    binding params x = binding params' y ∨ binding params x = x ∧ binding params' y = y := by
  unfold binding
  by_cases hencodable : params.all Str.encodable = true
  · right
    rw [if_pos hencodable, if_pos (h ▸ hencodable)]
    exact ⟨rfl, rfl⟩
  · left
    rw [if_neg hencodable, if_neg (h ▸ hencodable)]

variable {α : Type} {db db' : Ledger} {clientId : Str} {now : ℤ}

theorem outcome_select_bind {β : Type} (params : List Str) (query : Ledger → β) (f : β → LedgerTx α)
    (db : Ledger) : (select params query >>= f).outcome db =
      binding params ((f (query db)).outcome db) := by
  unfold binding
  split_ifs with h
  · exact Tx.outcome_bind_of_ok (run_select_ok.mpr ⟨h, rfl, rfl⟩)
  · exact Tx.outcome_bind_of_error (by rw [select, run_execute, if_neg h])

theorem outcome_change_bind {β : Type} (params : List Str) (stmt : Ledger → β × Ledger)
    (f : β → LedgerTx α) (db : Ledger) : (change params stmt >>= f).outcome db =
      binding params ((f (stmt db).1).outcome (stmt db).2) := by
  unfold binding
  split_ifs with h
  · exact Tx.outcome_bind_of_ok (run_change_ok.mpr ⟨h, rfl⟩)
  · exact Tx.outcome_bind_of_error (by rw [change, run_execute, if_neg h])

/-- An insert that fails raises `IntegrityError`. -/
theorem outcome_insert_bind (params : List Str) (stmt : Ledger → Except Error Ledger)
    (f : Unit → LedgerTx α) (db : Ledger) : (insert params stmt >>= f).outcome db =
      binding params (match stmt db with
        | .ok db' => (f ()).outcome db'
        | .error e => .error e) := by
  unfold binding
  split_ifs with h
  · cases hstmt : stmt db with
    | ok db' => exact Tx.outcome_bind_of_ok (run_insert_ok.mpr ⟨h, hstmt⟩)
    | error e =>
      refine Tx.outcome_bind_of_error ?_
      rw [insert, run_execute, if_pos h, hstmt]
      rfl
  · exact Tx.outcome_bind_of_error (by rw [insert, run_execute, if_neg h])

theorem outcome_requireOperational_bind (f : Unit → LedgerTx α) (db : Ledger) :
    (requireOperational >>= f).outcome db =
      if db.restoreRequired then .error .restoreRequiredError else (f ()).outcome db := by
  split_ifs with h
  · exact Tx.outcome_bind_of_error (run_requireOperational_sealed h)
  · exact Tx.outcome_bind_of_ok (run_requireOperational_ok.mpr ⟨Bool.not_eq_true _ ▸ h, rfl⟩)

/-! ### Shared statements -/

/-- A hash key is registered, or agrees with the check that is recorded for it. -/
def Ledger.registering (db : Ledger) (kid check : Str) (x : Except Error α) : Except Error α :=
  binding [kid] <|
    match db.hashKeys.get? kid with
    | none => binding [kid, check] x
    | some row => if row.keyCheck ≠ check then .error .storeCorruptionError else x

theorem outcome_registerHashKey_bind {kid check : Str} {f : Unit → LedgerTx α}
    {x : Except Error α} (hf : ∀ t, (f ()).outcome { db with hashKeys := t } = x) :
    (registerHashKey kid check >>= f).outcome db = db.registering kid check x := by
  rw [registerHashKey, Prog.bind_assoc, outcome_select_bind, Ledger.registering]
  congr 1
  cases hg : db.hashKeys.get? kid with
  | none =>
    dsimp only
    rw [outcome_insert_bind]
    obtain ⟨t, ht⟩ := Table.insert?_of_fresh (r := (⟨kid, check⟩ : HashKeyRow)) hg
    rw [Ledger.insertHashKey, ht]
    exact congrArg _ (hf t)
  | some row =>
    dsimp only
    split_ifs with hcheck
    · rfl
    · exact hf db.hashKeys

/-- A slot of the quota is free. -/
def Ledger.metering (db : Ledger) (clientId : Str) (operation : Operation) (limit now : ℤ)
    (x : Except Error α) : Except Error α :=
  binding [clientId] <|
    let window := db.rateWindow clientId operation (now - 60)
    if limit ≤ window.length then
      match (window.map RateEvent.occurredAt).min? with
      | some oldest => .error (.rateLimitError (min 60 (max 1 (oldest + 60 - now))))
      | none => .error .typeError
    else x

/-- A full window answers before what follows. -/
theorem Ledger.metering_cases (db : Ledger) (clientId : Str) (operation : Operation) (limit now : ℤ)
    (x y : Except Error α) :
    db.metering clientId operation limit now x = db.metering clientId operation limit now y ∨
      db.metering clientId operation limit now x = x ∧
        db.metering clientId operation limit now y = y := by
  unfold metering binding
  by_cases hencodable : [clientId].all Str.encodable = true
  · rw [if_pos hencodable, if_pos hencodable]
    dsimp only
    by_cases hfull : limit ≤ ((db.rateWindow clientId operation (now - 60)).length : ℤ)
    · left
      rw [if_pos hfull, if_pos hfull]
    · right
      rw [if_neg hfull, if_neg hfull]
      exact ⟨rfl, rfl⟩
  · left
    rw [if_neg hencodable, if_neg hencodable]

theorem outcome_consumeRateSlot_bind (db : Ledger) (clientId : Str) (operation : Operation)
    (limit now : ℤ) (f : Unit → LedgerTx α) :
    (consumeRateSlot clientId operation limit now >>= f).outcome db =
      db.metering clientId operation limit now
        ((f ()).outcome { db with rateEvents := db.slotTaken clientId operation now }) := by
  have hwindow := rateWindow_filter db clientId operation (now - 60)
  rw [consumeRateSlot, Prog.bind_assoc, outcome_change_bind, binding_nil, Prog.bind_assoc,
    outcome_select_bind, hwindow, Ledger.metering]
  by_cases hbound : [clientId].all Str.encodable = true
  · rw [binding_of_encodable hbound, binding_of_encodable hbound]
    dsimp only
    split_ifs with hfull
    · cases ((db.rateWindow clientId operation (now - 60)).map RateEvent.occurredAt).min? <;> rfl
    · rw [outcome_change_bind, binding_of_encodable hbound]
      rfl
  · rw [binding, if_neg hbound, binding, if_neg hbound]

/-- The event id is not taken. -/
def Ledger.auditing (db : Ledger) (event : Bytes) (x : Except Error α) : Except Error α :=
  if (db.auditEvents.get? (lit "ae_" ++ hexlify event)).isSome then .error .integrityError else x

/-- An event id that is not taken. -/
theorem Ledger.auditing_of_fresh {event : Bytes}
    (h : db.auditEvents.get? (lit "ae_" ++ hexlify event) = none) (x : Except Error α) :
    db.auditing event x = x := by
  rw [auditing, h]
  exact if_neg Bool.false_ne_true

theorem outcome_insertAudit_bind (db : Ledger) (event : Bytes) (now : ℤ) (kind : AuditKind)
    (outcome : AuditOutcome) (clientId credentialId proofTag : Option Str)
    (reason : Option RejectionReason) (a : α) :
    (insertAudit event now kind outcome clientId credentialId proofTag reason >>=
        fun _ => pure a).outcome db =
      binding (clientId.toList ++ credentialId.toList ++ proofTag.toList)
        (db.auditing event (.ok a)) := by
  rw [insertAudit, outcome_insert_bind, Ledger.insertAudit, Ledger.auditing]
  congr 1
  cases hrow : db.auditEvents.get? (lit "ae_" ++ hexlify event) with
  | none =>
    obtain ⟨t, ht⟩ := Table.insert?_of_fresh
      (r := auditRow event now kind outcome clientId credentialId proofTag reason) hrow
    rw [auditRow] at ht
    rw [ht]
    rfl
  | some row =>
    have ht := Table.insert?_of_taken
      (r := auditRow event now kind outcome clientId credentialId proofTag reason) hrow
    rw [auditRow] at ht
    rw [ht]
    rfl

/-! ### Verifying -/

/-- The stored decision under a key, as `_idempotent_result` reads it. -/
def Ledger.storedDecision (db : Ledger) (clientId key fingerprint : Str) :
    Except Error (Option VerificationResult) :=
  if clientId.encodable ∧ key.encodable then
    match db.idempotent clientId key with
    | none => .ok none
    | some row =>
      if row.requestFingerprint ≠ fingerprint then .error (.valueError "idempotency_conflict")
      else (resultFromJson (.ok row.resultJson)).map some
  else .error .unicodeEncodeError

/-- The lookup under the lock. -/
theorem run_idempotentResult (db : Ledger) (clientId key fingerprint : Str) :
    Tx.run (idempotentResult clientId (some key) fingerprint) db =
      (db.storedDecision clientId key fingerprint).map fun cached => (cached, db) := by
  unfold idempotentResult Ledger.storedDecision
  dsimp only
  split_ifs with hbound
  · rw [Tx.run_bind_of_ok (run_select_ok.mpr ⟨by simpa using hbound, rfl, rfl⟩)]
    rcases db.idempotent clientId key with _ | row
    · rfl
    · dsimp only
      split_ifs with hother
      · rfl
      · rcases resultFromJson (.ok row.resultJson) with e | result <;> rfl
  · refine Tx.run_bind_of_error ?_
    rw [select, run_execute, if_neg (by simpa using hbound)]

/-- The stored decision that a verification is answered with. -/
def Ledger.storedFor (db : Ledger) (a : ConsumeProof) : Except Error (Option VerificationResult) :=
  match a.idempotencyKey with
  | none => .ok none
  | some key => db.storedDecision a.clientId key a.requestFingerprint

theorem outcome_idempotentResult_bind (db : Ledger) (a : ConsumeProof)
    (f : Option VerificationResult → LedgerTx α) :
    (idempotentResult a.clientId a.idempotencyKey a.requestFingerprint >>= f).outcome db =
      match db.storedFor a with
      | .ok cached => (f cached).outcome db
      | .error e => .error e := by
  unfold Ledger.storedFor
  cases hkey : a.idempotencyKey with
  | none => rfl
  | some key =>
    have hrun := run_idempotentResult db a.clientId key a.requestFingerprint
    dsimp only
    cases hstored : db.storedDecision a.clientId key a.requestFingerprint with
    | ok cached =>
      rw [hstored] at hrun
      exact Tx.outcome_bind_of_ok hrun
    | error e =>
      rw [hstored] at hrun
      exact Tx.outcome_bind_of_error hrun

/-- No row has the ids that a verification drew. -/
def Ledger.deciding (db : Ledger) (draws : Draws) (x : Except Error α) : Except Error α :=
  if (db.verifications.get? draws.verificationId).isSome then .error .integrityError
  else db.auditing draws.event x

/-- An id of a verification that is not taken. -/
theorem Ledger.deciding_of_fresh {draws : Draws}
    (hid : db.verifications.get? draws.verificationId = none)
    (hevent : db.auditEvents.get? (lit "ae_" ++ hexlify draws.event) = none)
    (x : Except Error α) : db.deciding draws x = x := by
  rw [deciding, hid, if_neg (by simp), auditing_of_fresh hevent]

/-- The result of a fresh decision. -/
def Ledger.decisionOn (db : Ledger) (a : ConsumeProof) (now : ℤ) (draws : Draws) :
    VerificationResult :=
  a.decision ((db.proofOf a.clientId a.tokenDigest).map proofFromRow) draws.verificationId now

/-- How `consume_proof` ends. -/
def Ledger.consumeOutcome (db : Ledger) (a : ConsumeProof) (now : ℤ) (draws : Draws) :
    Except Error VerificationResult :=
  if db.restoreRequired then .error .restoreRequiredError
  else binding [a.credentialId] <|
    match db.joined a.credentialId .verification with
    | none => .ok (rejectedResult .credentialRejected draws.verificationId none none now)
    | some (credential, client) =>
      if credential.clientId ≠ a.clientId ∨ client.status ≠ .active ∨
          ¬ credentialIsAccepted credential now then
        .ok (rejectedResult .credentialRejected draws.verificationId none none now)
      else match db.storedFor a with
        | .error e => .error e
        | .ok (some cached) => .ok cached
        | .ok none =>
          db.metering a.clientId .verify client.verifyLimitPerMinute now <|
            binding [a.tokenDigest] <|
              binding ([draws.verificationId, a.clientId, a.credentialId, a.requestFingerprint] ++
                  (db.decisionOn a now draws).witness.proofTag.toList ++ a.idempotencyKey.toList) <|
                db.deciding draws (.ok (db.decisionOn a now draws))

/-- A decision under ids that can be bound is the one on the row of the proof. -/
theorem run_decideProof {a : ConsumeProof} {verificationId : Str} (now : ℤ) (db : Ledger)
    (hbound : [verificationId, a.tokenDigest].all Str.encodable = true) :
    ∃ db', Tx.run (decideProof a ((db.proofOf a.clientId a.tokenDigest).map proofFromRow)
        verificationId now) db =
      .ok (a.decision ((db.proofOf a.clientId a.tokenDigest).map proofFromRow) verificationId now,
        db') ∧ db' = { db with proofs := db'.proofs } := by
  cases hrun : Tx.run (decideProof a ((db.proofOf a.clientId a.tokenDigest).map proofFromRow)
      verificationId now) db with
  | ok x =>
    obtain ⟨hresult, hdb⟩ := run_decideProof_ok hrun
    refine ⟨x.2, by rw [← hresult], ?_⟩
    rw [hdb]
  | error e =>
    -- the one statement of the decision binds the two ids
    have houtcome := Tx.outcome_eq_error.mpr hrun
    exfalso
    unfold decideProof at houtcome
    split at houtcome
    · cases houtcome
    · split_ifs at houtcome
      · cases houtcome
      · cases houtcome
      · cases houtcome
      · rw [outcome_change_bind, binding_of_encodable hbound] at houtcome
        split_ifs at houtcome <;> cases houtcome

theorem Draws.encodable_verificationId (draws : Draws) : draws.verificationId.encodable = true := by
  rw [Draws.verificationId, encodable_append, encodable_hexlify]
  rfl

/-- A key under which nothing is stored. -/
theorem Ledger.storedFor_none {a : ConsumeProof} (h : db.storedFor a = .ok none) {key : Str}
    (hkey : a.idempotencyKey = some key) : db.idempotent a.clientId key = none := by
  rw [Ledger.storedFor, hkey] at h
  dsimp only at h
  unfold Ledger.storedDecision at h
  split_ifs at h
  cases hrow : db.idempotent a.clientId key with
  | none => rfl
  | some row =>
    rw [hrow] at h
    dsimp only at h
    split_ifs at h
    cases hread : resultFromJson (.ok row.resultJson) <;> rw [hread] at h <;> cases h

/-- A decision under a fresh key violates no constraint but its primary key. -/
theorem Ledger.insertVerification_of_fresh {row : VerificationRow}
    (h : ∀ key, row.idempotencyKey = some key → db.idempotent row.clientId key = none) :
    Ledger.insertVerification row db =
      Ledger.inserted (db.verifications.insert? row) fun t => { db with verifications := t } := by
  refine if_neg fun hany => ?_
  obtain ⟨key, hkey, hsome⟩ := (Option.any_eq_true _ _).mp hany
  rw [h key hkey] at hsome
  cases hsome

/-- The writes behind the slot. -/
theorem outcome_consumeWrites (db : Ledger) {a : ConsumeProof} {now : ℤ} {draws : Draws}
    (hfresh : ∀ key, a.idempotencyKey = some key → db.idempotent a.clientId key = none) :
    (Store.consumeWrites a now draws).outcome db = binding [a.tokenDigest]
      (binding ([draws.verificationId, a.clientId, a.credentialId, a.requestFingerprint] ++
          (db.decisionOn a now draws).witness.proofTag.toList ++ a.idempotencyKey.toList) <|
        db.deciding draws (.ok (db.decisionOn a now draws))) := by
  rw [Store.consumeWrites, outcome_select_bind]
  by_cases hdigest : [a.tokenDigest].all Str.encodable = true
  · rw [binding_of_encodable hdigest, binding_of_encodable hdigest]
    have hbound : [draws.verificationId, a.tokenDigest].all Str.encodable = true := by
      simp only [List.all_cons, List.all_nil, Bool.and_true] at hdigest ⊢
      rw [draws.encodable_verificationId, hdigest]
      rfl
    obtain ⟨db', hrun, hdb⟩ := run_decideProof now db hbound
    dsimp only
    refine (Tx.outcome_bind_of_ok hrun).trans ?_
    rw [outcome_insert_bind]
    -- whatever is decided is recorded under the id that was drawn
    have hid : (db.decisionOn a now draws).witness.verificationId = draws.verificationId := by
      refine (a.decision_witness _ _ now fun r hr => ?_).1
      obtain ⟨row, hrow, rfl⟩ := Option.map_eq_some_iff.mp hr
      exact (Ledger.proofOf_eq_some.mp hrow).2.2
    change binding ([draws.verificationId, a.clientId, a.credentialId, a.requestFingerprint] ++
      (db.decisionOn a now draws).witness.proofTag.toList ++ a.idempotencyKey.toList) _ = _
    by_cases hparams : ([draws.verificationId, a.clientId, a.credentialId, a.requestFingerprint] ++
      (db.decisionOn a now draws).witness.proofTag.toList ++
        a.idempotencyKey.toList).all Str.encodable = true
    · rw [binding_of_encodable hparams, binding_of_encodable hparams]
      have hverifications : db'.verifications = db.verifications := by rw [hdb]
      have haudits : db'.auditEvents = db.auditEvents := by rw [hdb]
      have hkeyed : ∀ key, a.idempotencyKey = some key → db'.idempotent a.clientId key = none := by
        intro key hkey
        rw [Ledger.idempotent, hverifications]
        exact hfresh key hkey
      -- the key is free, so the insertion can only fail on the id
      have hinsert : Ledger.insertVerification (a.verificationRow (db.decisionOn a now draws) now)
          db' = Ledger.inserted
            (db.verifications.insert? (a.verificationRow (db.decisionOn a now draws) now))
            fun t => { db' with verifications := t } := by
        rw [Ledger.insertVerification_of_fresh hkeyed, hverifications]
      change (match
          Ledger.insertVerification (a.verificationRow (db.decisionOn a now draws) now) db' with
        | .ok db'' => _
        | .error e => _) = _
      rw [hinsert, Ledger.deciding]
      cases hrow : db.verifications.get? draws.verificationId with
      | none =>
        obtain ⟨t, ht⟩ := Table.insert?_of_fresh
          (r := a.verificationRow (db.decisionOn a now draws) now) (hid.symm ▸ hrow)
        rw [ht]
        refine (outcome_insertAudit_bind _ _ _ _ _ _ _ _ _ _).trans ?_
        rw [Ledger.auditing, haudits]
        refine binding_of_encodable ?_ _
        simp only [List.all_append, List.all_cons, List.all_nil, Option.toList_some, Bool.and_true,
          Bool.and_eq_true] at hparams ⊢
        exact ⟨⟨hparams.1.1.2.1, hparams.1.1.2.2.1⟩, hparams.1.2⟩
      | some row =>
        rw [Table.insert?_of_taken (r := a.verificationRow (db.decisionOn a now draws) now)
          (hid.symm ▸ hrow)]
        rfl
    · rw [binding, if_neg hparams, binding, if_neg hparams]
  · rw [binding, if_neg hdigest, binding, if_neg hdigest]

theorem Store.consumeProof_outcome (db : Ledger) (a : ConsumeProof) (now : ℤ) (draws : Draws) :
    (Store.consumeProof a now draws).outcome db = db.consumeOutcome a now draws := by
  unfold Store.consumeProof Ledger.consumeOutcome
  rw [outcome_requireOperational_bind]
  split_ifs with hsealed
  · rfl
  · dsimp only
    rw [outcome_select_bind]
    congr 1
    cases hj : db.joined a.credentialId .verification with
    | none => rfl
    | some j =>
      obtain ⟨credential, client⟩ := j
      dsimp only
      split_ifs with hrefused
      · rfl
      · rw [outcome_idempotentResult_bind]
        cases hstored : db.storedFor a with
        | error e => rfl
        | ok cached =>
          cases cached with
          | some cached => rfl
          | none =>
            dsimp only
            rw [outcome_consumeRateSlot_bind]
            congr 1
            exact outcome_consumeWrites
              { db with rateEvents := db.slotTaken a.clientId .verify now }
              fun key hkey => Ledger.storedFor_none hstored hkey

/-! ### Issuing -/

/-- The record that an issuance commits. -/
def ProofRecord.committed (record : ProofRecord) (now : ℤ) : ProofRecord :=
  { record with issuedAt := now, expiresAt := now + (record.expiresAt - record.issuedAt) }

/-- No row has the digest or the tag of the record. -/
def Ledger.storing (db : Ledger) (record : ProofRecord) (x : Except Error α) : Except Error α :=
  if record.proofTag ∈ db.proofs.rows.map ProofRow.proofTag ∨
      (db.proofs.get? record.tokenDigest).isSome then .error .integrityError
  else x

/-- A digest or a tag that is taken. -/
theorem Ledger.insertProof_taken (row : ProofRow)
    (h : row.proofTag ∈ db.proofs.rows.map ProofRow.proofTag ∨
      (db.proofs.get? row.tokenDigest).isSome = true) :
    Ledger.insertProof row db = .error .integrityError := by
  cases hinsert : Ledger.insertProof row db with
  | error e => rw [Ledger.insertProof_error hinsert]
  | ok db' =>
    exfalso
    obtain ⟨htag, -, -, t, ht, -⟩ := Ledger.insertProof_ok.mp hinsert
    rcases h with htaken | htaken
    · obtain ⟨r, hr, hsame⟩ := List.mem_map.mp htaken
      exact htag r hr hsame
    · obtain ⟨r, hr⟩ := Option.isSome_iff_exists.mp htaken
      rw [Table.insert?_of_taken hr] at ht
      cases ht

/-- Otherwise the row is stored. -/
theorem Ledger.insertProof_fresh (row : ProofRow)
    (h : ¬ (row.proofTag ∈ db.proofs.rows.map ProofRow.proofTag ∨
      (db.proofs.get? row.tokenDigest).isSome = true))
    (hclient : (db.clients.get? row.clientId).isSome = true)
    (hcredential : (db.credentials.get? row.issueCredentialId).isSome = true) :
    ∃ db', Ledger.insertProof row db = .ok db' ∧ db' = { db with proofs := db'.proofs } := by
  rw [not_or] at h
  obtain ⟨t, ht⟩ := Table.insert?_of_fresh (Option.not_isSome_iff_eq_none.mp h.2)
  refine ⟨_, Ledger.insertProof_ok.mpr ⟨fun r hr hsame => ?_, hclient, hcredential, t, ht, rfl⟩,
    rfl⟩
  exact h.1 (List.mem_map.mpr ⟨r, hr, hsame⟩)

/-- How `issue_proof` ends. -/
def Ledger.issueOutcome (db : Ledger) (record : ProofRecord) (check : Str) (now : ℤ)
    (event : Bytes) : Except Error ProofRecord :=
  if db.restoreRequired then .error .restoreRequiredError
  else db.registering record.hashKid check <| binding [record.issueCredentialId] <|
    match db.joined record.issueCredentialId .issuance with
    | none => .error (.permissionError "credential_rejected")
    | some (credential, client) =>
      if client.status ≠ .active then .error (.permissionError "credential_rejected")
      else if credential.clientId ≠ record.clientId ∨ ¬ credentialIsAccepted credential now then
        .error (.permissionError "credential_rejected")
      else
        db.metering record.clientId .issue client.issueLimitPerMinute now <|
          binding [record.tokenDigest, record.proofTag, record.hashKid, record.clientId,
              record.issueCredentialId, record.subject, record.purpose, record.audience] <|
            db.storing record (db.auditing event (.ok (record.committed now)))

/-- The writes behind the slot. -/
theorem outcome_issueWrites (db : Ledger) {record : ProofRecord} {event : Bytes}
    (hclient : (db.clients.get? record.clientId).isSome = true)
    (hcredential : (db.credentials.get? record.issueCredentialId).isSome = true) :
    (Store.issueWrites record now event).outcome db =
      binding [record.tokenDigest, record.proofTag, record.hashKid, record.clientId,
          record.issueCredentialId, record.subject, record.purpose, record.audience]
        (db.storing record (db.auditing event (.ok (record.committed now)))) := by
  rw [Store.issueWrites]
  dsimp only
  rw [outcome_insert_bind]
  by_cases hparams : [record.tokenDigest, record.proofTag, record.hashKid, record.clientId,
      record.issueCredentialId, record.subject, record.purpose,
      record.audience].all Str.encodable = true
  · rw [binding_of_encodable hparams, binding_of_encodable hparams, Ledger.storing]
    change (match Ledger.insertProof (record.committed now).toRow db with
      | .ok db' => _
      | .error e => _) = _
    have haudit : binding [record.clientId, record.issueCredentialId, record.proofTag]
        (db.auditing event (.ok (record.committed now))) =
          db.auditing event (.ok (record.committed now)) := by
      refine binding_of_encodable ?_ _
      simp only [List.all_cons, List.all_nil, Bool.and_true, Bool.and_eq_true] at hparams ⊢
      exact ⟨hparams.2.2.2.1, hparams.2.2.2.2.1, hparams.2.1⟩
    by_cases htaken : record.proofTag ∈ db.proofs.rows.map ProofRow.proofTag ∨
        (db.proofs.get? record.tokenDigest).isSome = true
    · rw [if_pos htaken, Ledger.insertProof_taken (record.committed now).toRow htaken]
    · obtain ⟨db', hinsert, hdb⟩ := Ledger.insertProof_fresh
        (record.committed now).toRow htaken hclient hcredential
      rw [if_neg htaken, hinsert]
      refine (outcome_insertAudit_bind _ _ _ _ _ _ _ _ _ _).trans ?_
      rw [hdb]
      exact haudit
  · rw [binding, if_neg hparams, binding, if_neg hparams]

theorem Store.issueProof_outcome (db : Ledger) (record : ProofRecord) (check : Str) (now : ℤ)
    (event : Bytes) : (Store.issueProof record check now event).outcome db =
      db.issueOutcome record check now event := by
  unfold Store.issueProof Ledger.issueOutcome
  rw [outcome_requireOperational_bind]
  split_ifs with hsealed
  · rfl
  · refine outcome_registerHashKey_bind fun t => ?_
    dsimp only
    rw [outcome_select_bind]
    congr 1
    have hjoined : Ledger.joined { db with hashKeys := t } record.issueCredentialId .issuance =
        db.joined record.issueCredentialId .issuance := rfl
    rw [hjoined]
    cases hj : db.joined record.issueCredentialId .issuance with
    | none => rfl
    | some j =>
      obtain ⟨credential, client⟩ := j
      dsimp only
      split_ifs with hactive haccepted
      · rfl
      · rfl
      · rw [outcome_consumeRateSlot_bind]
        simp only [not_or, not_not] at hactive haccepted
        have hacc : db.Accepts .issuance record.issueCredentialId record.clientId now credential
            client := ⟨hj, hactive, haccepted.1, haccepted.2⟩
        obtain ⟨hcredential, -, hclient⟩ := hacc.lookup
        change Ledger.metering db _ _ _ _ _ = _
        congr 1
        exact outcome_issueWrites
          { db with
            hashKeys := t
            rateEvents := db.slotTaken record.clientId .issue now }
          (by rw [hclient]; rfl) (by rw [hcredential]; rfl)

/-! ### Rotating -/

/-- The replacement has its client, and no other credential is in its way. -/
def Ledger.replacing (db : Ledger) (replacement : CredentialRecord) (currentId : Str)
    (x : Except Error α) : Except Error α :=
  if (db.clients.get? replacement.clientId).isNone ∨
      (∃ c ∈ db.credentials.rows, (c.clientId = replacement.clientId ∧ c.role = replacement.role ∧
        c.status = .current) ∧ c.credentialId ≠ currentId) ∨
      (db.credentials.get? replacement.credentialId).isSome then .error .integrityError
  else x

/-- How `rotate_credential` ends. -/
def Ledger.rotateOutcome (db : Ledger) (a : RotateCredential) (event : Bytes) :
    Except Error (Str × ℤ) :=
  if db.restoreRequired then .error .restoreRequiredError
  else db.registering a.replacement.hashKid a.hashKeyCheck <| binding [a.clientId] <|
    match db.clients.get? a.clientId with
    | none => .error (.keyError a.clientId)
    | some client =>
      if client.status ≠ .active then .error (.valueError "client_revoked")
      else match db.currentCredential a.clientId a.role with
        | none => .error (.valueError "current_credential_missing")
        | some current =>
          binding [current.credentialId] <|
            binding [a.replacement.credentialId, a.replacement.clientId, a.replacement.hashKid,
                a.replacement.secretDigest] <|
              db.replacing a.replacement current.credentialId <|
                db.auditing event (.ok (current.credentialId, a.now + a.graceSeconds))

/-- The ledger in which a credential made way for its replacement. -/
def Ledger.superseded (db : Ledger) (id : Str) (validUntil : ℤ) : Ledger :=
  { db with
    credentials := db.credentials.update (fun c => c.credentialId = id)
      (fun c => { c with status := .previous, validUntil := some validUntil }) fun _ => rfl }

/-- A current credential after a superseded one is another one. -/
theorem Ledger.isSome_currentCredential_superseded (db : Ledger) (id clientId : Str)
    (validUntil : ℤ) (role : Role) :
    ((db.superseded id validUntil).currentCredential clientId role).isSome = true ↔
      ∃ c ∈ db.credentials.rows, (c.clientId = clientId ∧ c.role = role ∧ c.status = .current) ∧
        c.credentialId ≠ id := by
  simp only [Ledger.currentCredential, Ledger.superseded, List.find?_isSome, Table.rows_update,
    List.mem_map, decide_eq_true_eq]
  constructor
  · rintro ⟨_, ⟨c, hc, rfl⟩, hcurrent⟩
    by_cases hid : c.credentialId = id
    · rw [if_pos hid] at hcurrent
      cases hcurrent.2.2
    · rw [if_neg hid] at hcurrent
      exact ⟨c, hc, hcurrent, hid⟩
  · rintro ⟨c, hc, hcurrent, hid⟩
    exact ⟨c, ⟨c, hc, if_neg hid⟩, hcurrent⟩

theorem Ledger.get?_superseded_isSome (db : Ledger) (id : Str) (validUntil : ℤ) (id' : Str) :
    ((db.superseded id validUntil).credentials.get? id').isSome =
      (db.credentials.get? id').isSome := by
  rw [Ledger.superseded, Table.get?_update, Option.isSome_map]

theorem Ledger.insertCredential_error {row : CredentialRow} {e : Error}
    (h : Ledger.insertCredential row db = .error e) : e = .integrityError := by
  unfold Ledger.insertCredential at h
  split_ifs at h
  · exact (Except.error.inj h).symm
  · exact (Except.error.inj h).symm
  · exact inserted_error h

/-- The replacement is stored, or a constraint is violated. -/
theorem Ledger.insertCredential_superseded (db : Ledger) (id : Str) (validUntil now : ℤ)
    (replacement : CredentialRecord) (f : Ledger → Except Error α) {x : Except Error α}
    (hf : ∀ t, f { db.superseded id validUntil with credentials := t } = x) :
    (match (db.superseded id validUntil).insertCredential (replacement.toCurrentRow now) with
      | .ok db' => f db'
      | .error e => .error e) = db.replacing replacement id x := by
  have hcurrent := db.isSome_currentCredential_superseded id replacement.clientId validUntil
    replacement.role
  have hget := db.get?_superseded_isSome id validUntil replacement.credentialId
  unfold Ledger.replacing
  cases hinsert : (db.superseded id validUntil).insertCredential (replacement.toCurrentRow now) with
  | ok db' =>
    obtain ⟨hclient, hnone, t, ht, rfl⟩ := Ledger.insertCredential_ok.mp hinsert
    rw [if_neg]
    · exact hf t
    · rintro (h | h | h)
      · exact Bool.false_ne_true ((Option.isNone_eq_false_iff.mpr hclient).symm.trans h)
      · rw [← hcurrent] at h
        have hnone := hnone rfl
        change Ledger.currentCredential _ replacement.clientId replacement.role = none at hnone
        rw [hnone] at h
        cases h
      · rw [← hget] at h
        obtain ⟨r, hr⟩ := Option.isSome_iff_exists.mp h
        rw [Table.insert?_of_taken (r := replacement.toCurrentRow now) hr] at ht
        cases ht
  | error e =>
    rw [if_pos]
    · exact congrArg _ (Ledger.insertCredential_error hinsert)
    · by_contra hfree
      simp only [not_or] at hfree
      obtain ⟨t, ht⟩ := Table.insert?_of_fresh (r := replacement.toCurrentRow now)
        (Option.not_isSome_iff_eq_none.mp (hget ▸ hfree.2.2))
      have hok := Ledger.insertCredential_ok.mpr
        ⟨Option.isNone_eq_false_iff.mp (Bool.eq_false_iff.mpr hfree.1),
          fun _ => Option.not_isSome_iff_eq_none.mp fun h => hfree.2.1 (hcurrent.mp h), t, ht, rfl⟩
      rw [hinsert] at hok
      cases hok

theorem Store.rotateCredential_outcome (db : Ledger) (a : RotateCredential) (event : Bytes) :
    (Store.rotateCredential a event).outcome db = db.rotateOutcome a event := by
  unfold Store.rotateCredential Ledger.rotateOutcome
  dsimp only
  rw [outcome_requireOperational_bind]
  split_ifs with hsealed
  · rfl
  · refine outcome_registerHashKey_bind fun t => ?_
    rw [outcome_select_bind]
    by_cases hclientId : [a.clientId].all Str.encodable = true
    · rw [binding_of_encodable hclientId, binding_of_encodable hclientId]
      dsimp only
      cases hclient : db.clients.get? a.clientId with
      | none => rfl
      | some client =>
        dsimp only
        split_ifs with hactive
        · rfl
        · rw [outcome_select_bind, binding_of_encodable hclientId]
          have hcurrent : Ledger.currentCredential { db with hashKeys := t } a.clientId a.role =
              db.currentCredential a.clientId a.role := rfl
          rw [hcurrent]
          cases hrow : db.currentCredential a.clientId a.role with
          | none => rfl
          | some current =>
            dsimp only
            rw [outcome_change_bind]
            congr 1
            rw [insertCurrentCredential, outcome_insert_bind]
            by_cases hparams : [a.replacement.credentialId, a.replacement.clientId,
                a.replacement.hashKid, a.replacement.secretDigest].all Str.encodable = true
            · rw [binding_of_encodable hparams, binding_of_encodable hparams]
              refine Ledger.insertCredential_superseded { db with hashKeys := t } _ _ a.now _ _
                fun t' => ?_
              refine (outcome_insertAudit_bind _ _ _ _ _ _ _ _ _ _).trans ?_
              refine binding_of_encodable ?_ _
              simp only [List.all_cons, List.all_nil, Bool.and_true, Bool.and_eq_true,
                Option.toList_some, Option.toList_none, List.append_nil, List.cons_append,
                List.nil_append] at hparams hclientId ⊢
              exact ⟨hclientId, hparams.1⟩
            · rw [binding, if_neg hparams, binding, if_neg hparams]
    · rw [binding, if_neg hclientId, binding, if_neg hclientId]

/-! ### Revoking -/

/-- How `revoke_client` ends. -/
def Ledger.revokeOutcome (db : Ledger) (clientId : Str) (event : Bytes) : Except Error Bool :=
  if db.restoreRequired then .error .restoreRequiredError
  else binding [clientId] <|
    match db.clients.get? clientId with
    | none => .error (.keyError clientId)
    | some client =>
      if client.status = .revoked then .ok false else db.auditing event (.ok true)

theorem Store.revokeClient_outcome (db : Ledger) (clientId : Str) (now : ℤ) (event : Bytes) :
    (Store.revokeClient clientId now event).outcome db = db.revokeOutcome clientId event := by
  unfold Store.revokeClient Ledger.revokeOutcome
  rw [outcome_requireOperational_bind]
  split_ifs with hsealed
  · rfl
  · rw [outcome_select_bind]
    by_cases hclientId : [clientId].all Str.encodable = true
    · rw [binding_of_encodable hclientId, binding_of_encodable hclientId]
      cases hclient : db.clients.get? clientId with
      | none => rfl
      | some client =>
        change Tx.outcome (if client.status = .revoked then _ else _) db =
          if client.status = .revoked then _ else _
        by_cases hrevoked : client.status = .revoked
        · rw [if_pos hrevoked, if_pos hrevoked]
          rfl
        · rw [if_neg hrevoked, if_neg hrevoked]
          rw [outcome_change_bind, binding_of_encodable hclientId, outcome_change_bind,
            binding_of_encodable hclientId, outcome_change_bind, binding_of_encodable hclientId]
          refine (outcome_insertAudit_bind _ _ _ _ _ _ _ _ _ _).trans ?_
          exact binding_of_encodable hclientId _
    · rw [binding, if_neg hclientId, binding, if_neg hclientId]

end Onceproof

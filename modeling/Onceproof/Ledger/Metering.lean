import Onceproof.Store.Checks
import Onceproof.Ledger.Clock

/-!
# The quota in the transactions

`issue_proof` and `consume_proof` make some checks, then take a rate slot, and then write. The two
transactions are cut at the slot (`issueProof_eq`, `consumeProof_eq`), and `StoreCall.refused_iff`
says when a call is refused for quota: its checks pass and the window of its client is full.
-/

namespace Onceproof

/-! ### Issuing -/

/-- The checks of `issue_proof` before the quota. -/
def Store.issueChecks (record : ProofRecord) (hashKeyCheck : Str) (now : ℤ) :
    LedgerTx ClientRow := do
  requireOperational
  registerHashKey record.hashKid hashKeyCheck
  match ← select [record.issueCredentialId]
      fun db => db.joined record.issueCredentialId .issuance with
  | none => Prog.raise (.permissionError "credential_rejected")
  | some (credential, client) =>
    if client.status ≠ .active then
      Prog.raise (.permissionError "credential_rejected")
    else if credential.clientId ≠ record.clientId ∨
        ¬ credentialIsAccepted credential now then
      Prog.raise (.permissionError "credential_rejected")
    else pure client

/-- What `issue_proof` writes after it took its slot. -/
def Store.issueWrites (record : ProofRecord) (now : ℤ) (event : Bytes) : LedgerTx ProofRecord := do
  let committed :=
    { record with issuedAt := now, expiresAt := now + (record.expiresAt - record.issuedAt) }
  insert [committed.tokenDigest, committed.proofTag, committed.hashKid,
      committed.clientId, committed.issueCredentialId, committed.subject,
      committed.purpose, committed.audience]
    (Ledger.insertProof committed.toRow)
  insertAudit event now .proofIssued .issued (some committed.clientId)
    (some committed.issueCredentialId) (some committed.proofTag) none
  pure committed

/-- `issue_proof`, cut at the quota. -/
theorem Store.issueProof_eq (record : ProofRecord) (check : Str) (now : ℤ) (event : Bytes) :
    Store.issueProof record check now event = Store.issueChecks record check now >>= fun client =>
      consumeRateSlot record.clientId .issue client.issueLimitPerMinute now >>= fun _ =>
        Store.issueWrites record now event := by
  unfold Store.issueProof Store.issueChecks
  simp only [Prog.bind_assoc]
  refine congrArg _ (funext fun _ => congrArg _ (funext fun _ => congrArg _ (funext fun j => ?_)))
  rcases j with _ | ⟨credential, client⟩
  · rfl
  · dsimp only
    split_ifs <;> rfl

/-! ### Verifying -/

/-- The checks of `consume_proof` before the quota: an answer, or the client whose quota counts. -/
def Store.consumeChecks (a : ConsumeProof) (now : ℤ) (draws : Draws) :
    LedgerTx (VerificationResult ⊕ ClientRow) := do
  requireOperational
  let verificationId := lit "vr_" ++ hexlify draws.verification
  match ← select [a.credentialId] fun db => db.joined a.credentialId .verification with
  | none => pure (.inl (rejectedResult .credentialRejected verificationId none none now))
  | some (credential, client) =>
    if credential.clientId ≠ a.clientId ∨ client.status ≠ .active ∨
        ¬ credentialIsAccepted credential now then
      pure (.inl (rejectedResult .credentialRejected verificationId none none now))
    else
      match ← idempotentResult a.clientId a.idempotencyKey a.requestFingerprint with
      | some cached => pure (.inl cached)
      | none => pure (.inr client)

/-- What `consume_proof` decides and writes after it took its slot. -/
def Store.consumeWrites (a : ConsumeProof) (now : ℤ) (draws : Draws) :
    LedgerTx VerificationResult := do
  let verificationId := lit "vr_" ++ hexlify draws.verification
  let row ← select [a.tokenDigest] fun db => db.proofs.get? a.tokenDigest
  let record := (row.filter fun r => r.clientId = a.clientId).map proofFromRow
  let result ← decideProof a record verificationId now
  insert ([verificationId, a.clientId, a.credentialId, a.requestFingerprint] ++
      result.witness.proofTag.toList ++ a.idempotencyKey.toList)
    (Ledger.insertVerification
      { verificationId := result.witness.verificationId
        clientId := a.clientId
        credentialId := a.credentialId
        proofTag := result.witness.proofTag
        requestFingerprint := a.requestFingerprint
        idempotencyKey := a.idempotencyKey
        resultJson := resultJson result
        createdAt := now })
  insertAudit draws.event now
    (if result.verified then .proofVerified else .proofRejected)
    (if result.verified then .verified else .rejected)
    (some a.clientId) (some a.credentialId) result.witness.proofTag result.reason
  pure result

/-- `consume_proof`, cut at the quota. -/
theorem Store.consumeProof_eq (a : ConsumeProof) (now : ℤ) (draws : Draws) :
    Store.consumeProof a now draws = Store.consumeChecks a now draws >>= Sum.elim pure fun client =>
      consumeRateSlot a.clientId .verify client.verifyLimitPerMinute now >>= fun _ =>
        Store.consumeWrites a now draws := by
  unfold Store.consumeProof Store.consumeChecks
  simp only [Prog.bind_assoc]
  refine congrArg _ (funext fun _ => congrArg _ (funext fun j => ?_))
  rcases j with _ | ⟨credential, client⟩
  · rfl
  · dsimp only
    by_cases hrefused : credential.clientId ≠ a.clientId ∨ client.status ≠ .active ∨
        ¬ credentialIsAccepted credential now
    · rw [if_pos hrefused, if_pos hrefused]
      rfl
    · rw [if_neg hrefused, if_neg hrefused, Prog.bind_assoc]
      refine congrArg _ (funext fun cached => ?_)
      cases cached <;> rfl

/-! ### Refusals -/

/-- The client and the operation whose quota a call is subject to. -/
def StoreCall.meter : StoreCall → Option (Str × Operation)
  | .issueProof record _ => some (record.clientId, .issue)
  | .consumeProof a => some (a.clientId, .verify)
  | _ => none

/-- A call passes the checks before the quota, which is then that of the given client. -/
def StoreCall.ReachesQuota : StoreCall → Chance → Ledger → ClientRow → Prop
  | .issueProof record check, x, db, client =>
    ∃ db', Tx.run (Store.issueChecks record check x.now) db = .ok (client, db')
  | .consumeProof a, x, db, client =>
    ∃ db', Tx.run (Store.consumeChecks a x.now x.draws) db = .ok (.inr client, db')
  | _, _, _, _ => False

section Refusals

variable {db db' : Ledger} {clientId : Str} {operation : Operation} {limit now r : ℤ}

/-- **A slot is refused** if the window of the client is full. The answer is the time at which its
oldest event leaves it. -/
theorem run_consumeRateSlot_refused :
    Tx.run (consumeRateSlot clientId operation limit now) db = .error (.rateLimitError r) ↔
      clientId.encodable = true ∧
        limit ≤ (db.rateWindow clientId operation (now - 60)).length ∧
        ∃ oldest, ((db.rateWindow clientId operation (now - 60)).map RateEvent.occurredAt).min? =
          some oldest ∧ r = min 60 (max 1 (oldest + 60 - now)) := by
  have hsweep : Tx.run (change [] fun db : Ledger => ((), { db with
      rateEvents := db.rateEvents.filter fun e => now - 60 < e.occurredAt })) db =
        .ok ((), { db with rateEvents := db.rateEvents.filter fun e => now - 60 < e.occurredAt }) :=
    run_change_ok.mpr ⟨rfl, rfl⟩
  unfold consumeRateSlot
  dsimp only
  rw [Tx.run_bind_of_ok hsweep, Tx.run_bind, select, run_execute]
  by_cases hclient : clientId.encodable = true
  · rw [if_pos (by simpa using hclient)]
    dsimp only
    rw [rateWindow_filter]
    by_cases hfull : limit ≤ (db.rateWindow clientId operation (now - 60)).length
    · rw [if_pos hfull]
      cases ((db.rateWindow clientId operation (now - 60)).map RateEvent.occurredAt).min? with
      | none => simp
      | some oldest => simp [hclient, hfull, eq_comm]
    · rw [if_neg hfull, change, run_execute, if_pos (by simpa using hclient)]
      simp [hfull]
  · rw [if_neg (by simpa using hclient)]
    simp [hclient]

/-- The checks of an issuance leave the events alone and find the client. -/
theorem run_issueChecks_ok {record : ProofRecord} {check : Str} {client : ClientRow}
    (h : Tx.run (Store.issueChecks record check now) db = .ok (client, db')) :
    db.restoreRequired = false ∧ db'.rateEvents = db.rateEvents ∧
      db.clients.get? record.clientId = some client := by
  unfold Store.issueChecks at h
  rw [Tx.run_bind_ok] at h
  obtain ⟨_, db₁, h₁, h⟩ := h
  obtain ⟨hop, rfl⟩ := run_requireOperational_ok.mp h₁
  rw [Tx.run_bind_ok] at h
  obtain ⟨_, db₂, h₂, h⟩ := h
  obtain ⟨-, hdb₂⟩ := run_registerHashKey_ok h₂
  rw [Tx.run_bind_ok] at h
  obtain ⟨j, db₃, h₃, h⟩ := h
  obtain ⟨-, hj, rfl⟩ := run_select_ok.mp h₃
  cases j with
  | none => cases h
  | some j =>
    obtain ⟨credential, c⟩ := j
    dsimp only at h
    by_cases hactive : c.status = .active
    · rw [if_neg (not_not.mpr hactive)] at h
      by_cases hrefused : credential.clientId ≠ record.clientId ∨
          ¬ credentialIsAccepted credential now
      · rw [if_pos hrefused] at h
        cases h
      · rw [if_neg hrefused] at h
        simp only [not_or, not_not] at hrefused
        obtain ⟨rfl, hdb'⟩ := Prod.mk.inj (Except.ok.inj h)
        subst hdb'
        have hacc : Ledger.Accepts _ .issuance record.issueCredentialId record.clientId now
          credential c := ⟨hj.symm, hactive, hrefused.1, hrefused.2⟩
        have hclient := hacc.lookup.2.2
        rw [hdb₂] at hclient
        exact ⟨hop, by rw [hdb₂], hclient⟩
    · rw [if_pos hactive] at h
      cases h

/-- The checks of a verification leave the ledger alone and find the client. -/
theorem run_consumeChecks_ok {a : ConsumeProof} {draws : Draws} {client : ClientRow}
    (h : Tx.run (Store.consumeChecks a now draws) db = .ok (.inr client, db')) :
    db.restoreRequired = false ∧ db' = db ∧ db.clients.get? a.clientId = some client := by
  unfold Store.consumeChecks at h
  rw [Tx.run_bind_ok] at h
  obtain ⟨_, db₁, h₁, h⟩ := h
  obtain ⟨hop, rfl⟩ := run_requireOperational_ok.mp h₁
  rw [Tx.run_bind_ok] at h
  obtain ⟨j, db₂, h₂, h⟩ := h
  obtain ⟨-, hj, rfl⟩ := run_select_ok.mp h₂
  cases j with
  | none => cases h
  | some j =>
    obtain ⟨credential, c⟩ := j
    dsimp only at h
    by_cases hrefused : credential.clientId ≠ a.clientId ∨ c.status ≠ .active ∨
        ¬ credentialIsAccepted credential now
    · rw [if_pos hrefused] at h
      cases h
    · rw [if_neg hrefused] at h
      simp only [not_or, not_not] at hrefused
      rw [Tx.run_bind_ok] at h
      obtain ⟨cached, db₃, h₃, h⟩ := h
      obtain ⟨rfl, -⟩ := run_idempotentResult_ok h₃
      cases cached with
      | some r => cases h
      | none =>
        obtain ⟨hc, rfl⟩ := Prod.mk.inj (Except.ok.inj h)
        obtain rfl := Sum.inr.inj hc
        have hacc : db₃.Accepts .verification a.credentialId a.clientId now credential c :=
          ⟨hj.symm, hrefused.2.1, hrefused.1, hrefused.2.2⟩
        exact ⟨hop, rfl, hacc.lookup.2.2⟩

/-- A call that reaches the quota finds an unsealed ledger and the client. -/
theorem StoreCall.ReachesQuota.found {call : StoreCall} {x : Chance} {client : ClientRow}
    (hmeter : call.meter = some (clientId, operation)) (h : call.ReachesQuota x db client) :
    db.restoreRequired = false ∧ db.clients.get? clientId = some client := by
  cases call with
  | issueProof record check =>
    obtain ⟨rfl, rfl⟩ := Prod.mk.inj (Option.some.inj hmeter)
    obtain ⟨db', hchecks⟩ := h
    exact ⟨(run_issueChecks_ok hchecks).1, (run_issueChecks_ok hchecks).2.2⟩
  | consumeProof a =>
    obtain ⟨rfl, rfl⟩ := Prod.mk.inj (Option.some.inj hmeter)
    obtain ⟨db', hchecks⟩ := h
    exact ⟨(run_consumeChecks_ok hchecks).1, (run_consumeChecks_ok hchecks).2.2⟩
  | _ => cases hmeter

/-! ### What else is raised -/

/-- The exceptions of the parts around the quota. -/
structure StoreErrors (E : Error → Prop) : Prop where
  encode : E .unicodeEncodeError
  integrity : E .integrityError
  restore : E .restoreRequiredError
  corruption : E .storeCorruptionError
  value : ∀ code, E (.valueError code)
  permission : ∀ code, E (.permissionError code)

section Raised

variable {E : Error → Prop}

theorem raises_requireOperational (hE : StoreErrors E) : requireOperational.Raises E := by
  intro db e he
  obtain ⟨rfl, -⟩ := run_requireOperational_error he
  exact hE.restore

theorem raises_registerHashKey (hE : StoreErrors E) (kid check : Str) :
    (registerHashKey kid check).Raises E := by
  refine Tx.Raises.bind (raises_select _ _ hE.encode) fun row => ?_
  cases row with
  | none =>
    refine raises_insert hE.encode fun db e he => ?_
    rw [inserted_error he]
    exact hE.integrity
  | some row =>
    dsimp only
    split_ifs
    · exact Tx.Raises.raise hE.corruption
    · exact Tx.Raises.pure _

theorem raises_idempotentResult (hE : StoreErrors E) (clientId : Str) (key : Option Str)
    (fingerprint : Str) : (idempotentResult clientId key fingerprint).Raises E := by
  unfold idempotentResult
  cases key with
  | none => exact Tx.Raises.pure _
  | some key =>
    refine Tx.Raises.bind (raises_select _ _ hE.encode) fun row => ?_
    cases row with
    | none => exact Tx.Raises.pure _
    | some row =>
      dsimp only
      split_ifs
      · exact Tx.Raises.raise (hE.value _)
      · refine Tx.Raises.bind (fun db e he => ?_) fun _ => Tx.Raises.pure _
        cases hread : resultFromJson (.ok row.resultJson) with
        | ok result =>
          rw [hread] at he
          cases he
        | error e' =>
          rw [hread] at he
          obtain rfl := Except.error.inj he
          obtain rfl := resultFromJson_error hread
          exact hE.corruption

/-- The audit event of a request. -/
theorem raises_audit (hE : StoreErrors E) (event : Bytes) (now : ℤ) (kind : AuditKind)
    (outcome : AuditOutcome) (clientId credentialId proofTag : Option Str)
    (reason : Option RejectionReason) :
    (insertAudit event now kind outcome clientId credentialId proofTag reason).Raises E := by
  intro db e he
  rcases run_insertAudit_error he with rfl | ⟨rfl, -⟩
  · exact hE.encode
  · exact hE.integrity

theorem raises_issueChecks (hE : StoreErrors E) (record : ProofRecord) (check : Str) (now : ℤ) :
    (Store.issueChecks record check now).Raises E := by
  refine Tx.Raises.bind (raises_requireOperational hE) fun _ => ?_
  refine Tx.Raises.bind (raises_registerHashKey hE _ _) fun _ => ?_
  refine Tx.Raises.bind (raises_select _ _ hE.encode) fun j => ?_
  cases j with
  | none => exact Tx.Raises.raise (hE.permission _)
  | some j =>
    dsimp only
    split_ifs
    · exact Tx.Raises.raise (hE.permission _)
    · exact Tx.Raises.raise (hE.permission _)
    · exact Tx.Raises.pure _

theorem raises_consumeChecks (hE : StoreErrors E) (a : ConsumeProof) (now : ℤ) (draws : Draws) :
    (Store.consumeChecks a now draws).Raises E := by
  refine Tx.Raises.bind (raises_requireOperational hE) fun _ => ?_
  refine Tx.Raises.bind (raises_select _ _ hE.encode) fun j => ?_
  cases j with
  | none => exact Tx.Raises.pure _
  | some j =>
    dsimp only
    split_ifs
    · exact Tx.Raises.pure _
    · refine Tx.Raises.bind (raises_idempotentResult hE _ _ _) fun cached => ?_
      cases cached <;> exact Tx.Raises.pure _

theorem raises_issueWrites (hE : StoreErrors E) (record : ProofRecord) (now : ℤ) (event : Bytes) :
    (Store.issueWrites record now event).Raises E := by
  refine Tx.Raises.bind (raises_insert hE.encode fun db e he => ?_) fun _ => ?_
  · rw [Ledger.insertProof_error he]
    exact hE.integrity
  · exact Tx.Raises.bind (raises_audit hE _ _ _ _ _ _ _ _) fun _ => Tx.Raises.pure _

theorem raises_consumeWrites (hE : StoreErrors E) (a : ConsumeProof) (now : ℤ) (draws : Draws) :
    (Store.consumeWrites a now draws).Raises E := by
  refine Tx.Raises.bind (raises_select _ _ hE.encode) fun row => ?_
  refine Tx.Raises.bind (raises_decideProof _ _ _ _ hE.encode) fun result => ?_
  refine Tx.Raises.bind (raises_insert hE.encode fun db e he => ?_) fun _ => ?_
  · rw [Ledger.insertVerification_error he]
    exact hE.integrity
  · exact Tx.Raises.bind (raises_audit hE _ _ _ _ _ _ _ _) fun _ => Tx.Raises.pure _

/-- A slot is refused for quota if the quota of the client allows anything at all. -/
theorem raises_slot (hE : StoreErrors E) (hrate : ∀ r, E (.rateLimitError r)) (clientId : Str)
    (operation : Operation) {limit : ℤ} (hlimit : 1 ≤ limit) (now : ℤ) :
    (consumeRateSlot clientId operation limit now).Raises E := by
  refine Tx.Raises.bind (raises_change _ _ hE.encode) fun _ => ?_
  refine Tx.Raises.bind (raises_select _ _ hE.encode) fun window => ?_
  by_cases hfull : limit ≤ window.length
  · rw [if_pos hfull]
    cases hmin : (window.map RateEvent.occurredAt).min? with
    | some oldest => exact Tx.Raises.raise (hrate _)
    | none =>
      -- the window is not empty
      have hempty : window = [] := List.map_eq_nil_iff.mp (List.min?_eq_none_iff.mp hmin)
      rw [hempty, List.length_nil] at hfull
      omega
  · rw [if_neg hfull]
    exact raises_change _ _ hE.encode

/-- **Issuing** raises nothing else. -/
theorem raises_issueProof (hE : StoreErrors E) (hrate : ∀ r, E (.rateLimitError r))
    (record : ProofRecord) (check : Str) (now : ℤ) (event : Bytes) :
    (Store.issueProof record check now event).Raises E := by
  rw [Store.issueProof_eq]
  refine Tx.Raises.bind (raises_issueChecks hE _ _ _) fun client => ?_
  refine Tx.Raises.bind (raises_slot hE hrate _ _ client.issueLimit_check.1 _) fun _ => ?_
  exact raises_issueWrites hE _ _ _

/-- **Verifying** raises nothing else. -/
theorem raises_consumeProof (hE : StoreErrors E) (hrate : ∀ r, E (.rateLimitError r))
    (a : ConsumeProof) (now : ℤ) (draws : Draws) : (Store.consumeProof a now draws).Raises E := by
  rw [Store.consumeProof_eq]
  refine Tx.Raises.bind (raises_consumeChecks hE _ _ _) fun answer => ?_
  cases answer with
  | inl result => exact Tx.Raises.pure _
  | inr client =>
    refine Tx.Raises.bind (raises_slot hE hrate _ _ client.verifyLimit_check.1 _) fun _ => ?_
    exact raises_consumeWrites hE _ _ _

end Raised

/-- An exception that is not a refusal for quota. -/
def Error.Unmetered (e : Error) : Prop := ∀ r, e ≠ .rateLimitError r

theorem storeErrors_unmetered : StoreErrors Error.Unmetered where
  encode := nofun
  integrity := nofun
  restore := nofun
  corruption := nofun
  value := nofun
  permission := nofun

/-! ### When a call is refused -/

/-- The writes behind the slot do not refuse for quota. -/
theorem run_slot_refused {α : Type} {writes : LedgerTx α}
    (hwrites : writes.Raises Error.Unmetered) :
    Tx.run (consumeRateSlot clientId operation limit now >>= fun _ => writes) db =
        .error (.rateLimitError r) ↔
      Tx.run (consumeRateSlot clientId operation limit now) db = .error (.rateLimitError r) := by
  rw [Tx.run_bind_error]
  refine ⟨fun h => ?_, Or.inl⟩
  rcases h with h | ⟨_, db₁, -, h⟩
  · exact h
  · exact absurd rfl (hwrites db₁ _ h r)

/-- A window is one of the rate events. -/
theorem Ledger.rateWindow_congr (h : db'.rateEvents = db.rateEvents) (cutoff : ℤ) :
    db'.rateWindow clientId operation cutoff = db.rateWindow clientId operation cutoff := by
  unfold Ledger.rateWindow
  rw [h]

/-- **When a call is refused for quota**: it reaches the quota, and the window of its client is
full. -/
theorem StoreCall.refused_iff {call : StoreCall} {x : Chance}
    (hmeter : call.meter = some (clientId, operation)) :
    Tx.run (call.tx x) db = .error (.rateLimitError r) ↔
      ∃ client, call.ReachesQuota x db client ∧ clientId.encodable = true ∧
        client.limit operation ≤ (db.rateWindow clientId operation (x.now - 60)).length ∧
        ∃ oldest, ((db.rateWindow clientId operation (x.now - 60)).map RateEvent.occurredAt).min? =
          some oldest ∧ r = min 60 (max 1 (oldest + 60 - x.now)) := by
  cases call with
  | issueProof record check =>
    obtain ⟨rfl, rfl⟩ := Prod.mk.inj (Option.some.inj hmeter)
    rw [StoreCall.tx, Store.issueProof_eq, Tx.run_bind_error]
    constructor
    · rintro (h | ⟨client, db₁, hchecks, h⟩)
      · exact absurd rfl (raises_issueChecks storeErrors_unmetered _ _ _ _ _ h r)
      · rw [run_slot_refused (raises_issueWrites storeErrors_unmetered _ _ _),
          run_consumeRateSlot_refused,
          Ledger.rateWindow_congr (run_issueChecks_ok hchecks).2.1] at h
        exact ⟨client, ⟨db₁, hchecks⟩, h⟩
    · rintro ⟨client, ⟨db₁, hchecks⟩, h⟩
      refine Or.inr ⟨client, db₁, hchecks, ?_⟩
      rw [run_slot_refused (raises_issueWrites storeErrors_unmetered _ _ _),
        run_consumeRateSlot_refused, Ledger.rateWindow_congr (run_issueChecks_ok hchecks).2.1]
      exact h
  | consumeProof a =>
    obtain ⟨rfl, rfl⟩ := Prod.mk.inj (Option.some.inj hmeter)
    rw [StoreCall.tx, Store.consumeProof_eq, Tx.run_bind_error]
    constructor
    · rintro (h | ⟨answer | client, db₁, hchecks, h⟩)
      · exact absurd rfl (raises_consumeChecks storeErrors_unmetered _ _ _ _ _ h r)
      · cases h
      · obtain ⟨-, rfl, -⟩ := run_consumeChecks_ok hchecks
        rw [Sum.elim_inr, run_slot_refused (raises_consumeWrites storeErrors_unmetered _ _ _),
          run_consumeRateSlot_refused] at h
        exact ⟨client, ⟨_, hchecks⟩, h⟩
    · rintro ⟨client, ⟨db₁, hchecks⟩, h⟩
      obtain ⟨-, rfl, -⟩ := run_consumeChecks_ok hchecks
      refine Or.inr ⟨.inr client, _, hchecks, ?_⟩
      rw [Sum.elim_inr, run_slot_refused (raises_consumeWrites storeErrors_unmetered _ _ _),
        run_consumeRateSlot_refused]
      exact h
  | _ => cases hmeter

end Refusals

end Onceproof

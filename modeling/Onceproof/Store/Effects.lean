import Onceproof.Store.Operations

/-!
# What the store's transactions do

One lemma for each transaction: from a run that ends well, the state it found, the reply it
gave and every table it left behind. Nothing after this module unfolds a transaction.

* `IssueEffect`, `ConsumeEffect`, `RotateEffect`, `RevokeEffect`, `CleanupEffect`,
  `ActivateEffect` and `CreateEffect` are the effects, with one field a fact.
* `ConsumeEffect` has three cases: the credential is refused, a stored decision is
  replayed, or a decision is made.
-/

namespace Onceproof

/-! ### Statements -/

theorem run_execute {α : Type} (params : List Str)
    (stmt : Ledger → Except Error (α × Ledger)) (db : Ledger) :
    Tx.run (execute params stmt) db =
      if params.all Str.encodable then stmt db else .error .unicodeEncodeError := by
  simp [execute]

theorem run_select_ok {α : Type} {params : List Str} {query : Ledger → α} {db db' : Ledger}
    {a : α} : Tx.run (select params query) db = .ok (a, db') ↔
      params.all Str.encodable = true ∧ a = query db ∧ db' = db := by
  rw [select, run_execute]
  split_ifs with h <;> simp [h, eq_comm]

theorem run_change_ok {α : Type} {params : List Str} {stmt : Ledger → α × Ledger}
    {db db' : Ledger} {a : α} : Tx.run (change params stmt) db = .ok (a, db') ↔
      params.all Str.encodable = true ∧ stmt db = (a, db') := by
  rw [change, run_execute]
  split_ifs with h <;> simp [h]

theorem run_insert_ok {params : List Str} {stmt : Ledger → Except Error Ledger}
    {db db' : Ledger} {u : Unit} : Tx.run (insert params stmt) db = .ok (u, db') ↔
      params.all Str.encodable = true ∧ stmt db = .ok db' := by
  rw [insert, run_execute]
  split_ifs with h
  · cases stmt db <;> simp [h, Except.map]
  · simp [h]

theorem inserted_ok {τ : Type} {t : Option τ} {f : τ → Ledger} {db : Ledger} :
    Ledger.inserted t f = .ok db ↔ ∃ x, t = some x ∧ db = f x := by
  cases t <;> simp [Ledger.inserted, eq_comm]

theorem run_requireOperational_ok {db db' : Ledger} {u : Unit} :
    Tx.run requireOperational db = .ok (u, db') ↔ db.restoreRequired = false ∧ db' = db := by
  rw [requireOperational, Tx.run_bind_ok]
  simp only [run_select_ok, List.all_nil, true_and]
  constructor
  · rintro ⟨b, db₁, ⟨rfl, rfl⟩, h⟩
    cases hb : db₁.restoreRequired <;> simp_all
  · rintro ⟨h, rfl⟩
    exact ⟨_, _, ⟨rfl, rfl⟩, by simp [h]⟩

/-! ### Hash keys -/

/-- The table of hash keys after a key was registered. -/
structure Ledger.Registers (db : Ledger) (kid check : Str)
    (t : Table HashKeyRow HashKeyRow.hashKid) : Prop where
  bound : kid.encodable = true
  lookup : t.get? kid = some ⟨kid, check⟩
  keeps : ∀ row ∈ db.hashKeys, row ∈ t
  only : ∀ row ∈ t, row ∈ db.hashKeys ∨ row = ⟨kid, check⟩

theorem run_registerHashKey_ok {kid check : Str} {db db' : Ledger} {u : Unit}
    (h : Tx.run (registerHashKey kid check) db = .ok (u, db')) :
    db.Registers kid check db'.hashKeys ∧ db' = { db with hashKeys := db'.hashKeys } := by
  rw [registerHashKey, Tx.run_bind_ok] at h
  obtain ⟨row, db₁, hs, h⟩ := h
  obtain ⟨hbound, rfl, rfl⟩ := run_select_ok.mp hs
  have hkid : kid.encodable = true := by simpa using hbound
  cases hg : db₁.hashKeys.get? kid with
  | none =>
    simp only [hg] at h
    obtain ⟨-, h⟩ := run_insert_ok.mp h
    obtain ⟨t, ht, rfl⟩ := inserted_ok.mp h
    obtain ⟨hfresh, hrows⟩ := Table.insert?_eq_some.mp ht
    refine ⟨⟨hkid, ?_, ?_, ?_⟩, rfl⟩
    · exact Table.get?_eq_some.mpr ⟨by simp [Table.mem_def, hrows], rfl⟩
    · intro row hrow
      simp [Table.mem_def, hrows, Table.mem_def.mp hrow]
    · intro row hrow
      simpa [Table.mem_def, hrows] using hrow
  | some row =>
    simp only [hg] at h
    split_ifs at h with hc
    · simp at h
    · simp only [Tx.run_pure, Except.ok.injEq, Prod.mk.injEq] at h
      obtain ⟨-, rfl⟩ := h
      obtain ⟨hmem, hnamed⟩ := Table.get?_eq_some.mp hg
      have hrow : row = ⟨kid, check⟩ := by
        obtain ⟨k, c⟩ := row
        simp only [ne_eq, not_not] at hc hnamed
        rw [hc, hnamed]
      exact ⟨⟨hkid, hrow ▸ hg, fun _ hr => hr, fun _ hr => Or.inl hr⟩, rfl⟩

/-! ### Rate slots -/

/-- The events that a slot taken at `now` leaves behind. -/
def Ledger.slotTaken (db : Ledger) (clientId : Str) (operation : Operation) (now : ℤ) :
    List RateEvent :=
  (db.rateEvents.filter fun e => now - 60 < e.occurredAt) ++ [⟨clientId, operation, now⟩]

theorem rateWindow_filter (db : Ledger) (clientId : Str) (operation : Operation)
    (cutoff : ℤ) :
    ({ db with rateEvents := db.rateEvents.filter fun e => cutoff < e.occurredAt } :
      Ledger).rateWindow clientId operation cutoff =
        db.rateWindow clientId operation cutoff := by
  simp only [Ledger.rateWindow, List.filter_filter]
  congr 1
  funext e
  by_cases h : cutoff < e.occurredAt <;> simp [h]

theorem run_consumeRateSlot_ok {clientId : Str} {operation : Operation} {limit now : ℤ}
    {db db' : Ledger} {u : Unit}
    (h : Tx.run (consumeRateSlot clientId operation limit now) db = .ok (u, db')) :
    (db.rateWindow clientId operation (now - 60)).length < limit ∧
      db' = { db with rateEvents := db.slotTaken clientId operation now } := by
  simp only [consumeRateSlot] at h
  rw [Tx.run_bind_ok] at h
  obtain ⟨_, db₁, h₁, h⟩ := h
  obtain ⟨-, h₁⟩ := run_change_ok.mp h₁
  simp only [Prod.mk.injEq, true_and] at h₁
  rw [Tx.run_bind_ok] at h
  obtain ⟨window, db₂, h₂, h⟩ := h
  obtain ⟨-, rfl, rfl⟩ := run_select_ok.mp h₂
  rw [← h₁, rateWindow_filter] at h
  split_ifs at h with hl
  · split at h <;> simp at h
  · obtain ⟨-, h⟩ := run_change_ok.mp h
    simp only [Prod.mk.injEq, true_and] at h
    exact ⟨not_le.mp hl, h.symm⟩

/-! ### Inserts -/

theorem Ledger.insertAudit_ok {row : AuditRow} {db db' : Ledger} :
    Ledger.insertAudit row db = .ok db' ↔
      ∃ t, db.auditEvents.insert? row = some t ∧ db' = { db with auditEvents := t } :=
  inserted_ok

theorem Ledger.insertClient_ok {row : ClientRow} {db db' : Ledger} :
    Ledger.insertClient row db = .ok db' ↔
      ∃ t, db.clients.insert? row = some t ∧ db' = { db with clients := t } :=
  inserted_ok

theorem Ledger.insertCredential_ok {row : CredentialRow} {db db' : Ledger} :
    Ledger.insertCredential row db = .ok db' ↔
      (db.clients.get? row.clientId).isSome = true ∧
      (row.status = .current → db.currentCredential row.clientId row.role = none) ∧
      ∃ t, db.credentials.insert? row = some t ∧ db' = { db with credentials := t } := by
  unfold Ledger.insertCredential
  split_ifs with h₁ h₂
  · simp [Option.isNone_iff_eq_none.mp h₁]
  · obtain ⟨hs, hc⟩ := h₂
    simp only [false_iff, not_and]
    intro _ h
    simp [h hs] at hc
  · rw [inserted_ok, ← Option.not_isNone, Bool.not_eq_true', ← Bool.not_eq_true]
    simp only [h₁, true_and, Bool.not_eq_true]
    refine (and_iff_right fun hs => ?_).symm
    simpa [hs] using h₂

theorem Ledger.insertProof_ok {row : ProofRow} {db db' : Ledger} :
    Ledger.insertProof row db = .ok db' ↔
      (∀ r ∈ db.proofs, r.proofTag ≠ row.proofTag) ∧
      (db.clients.get? row.clientId).isSome = true ∧
      (db.credentials.get? row.issueCredentialId).isSome = true ∧
      ∃ t, db.proofs.insert? row = some t ∧ db' = { db with proofs := t } := by
  unfold Ledger.insertProof
  split_ifs with h₁ h₂ h₃
  · obtain ⟨r, hr, ht⟩ := List.mem_map.mp h₁
    simp only [false_iff, not_and]
    exact fun h => absurd ht (h r hr)
  · simp [Option.isNone_iff_eq_none.mp h₂]
  · simp [Option.isNone_iff_eq_none.mp h₃]
  · have htag : ∀ r ∈ db.proofs, r.proofTag ≠ row.proofTag :=
      fun r hr ht => h₁ (List.mem_map.mpr ⟨r, hr, ht⟩)
    simp only [Bool.not_eq_true, Option.isNone_eq_false_iff] at h₂ h₃
    rw [inserted_ok]
    exact ⟨fun h => ⟨htag, h₂, h₃, h⟩, fun h => h.2.2.2⟩

theorem Ledger.insertVerification_ok {row : VerificationRow} {db db' : Ledger} :
    Ledger.insertVerification row db = .ok db' ↔
      (∀ key, row.idempotencyKey = some key → db.idempotent row.clientId key = none) ∧
      ∃ t, db.verifications.insert? row = some t ∧ db' = { db with verifications := t } := by
  unfold Ledger.insertVerification
  split_ifs with h
  · obtain ⟨key, hk, hi⟩ := (Option.any_eq_true _ _).mp h
    simp only [false_iff, not_and]
    intro hn
    simp [hn key hk] at hi
  · rw [inserted_ok]
    refine (and_iff_right fun key hk => ?_).symm
    simpa [hk] using h

/-- The audit row of an event. -/
def auditRow (event : Bytes) (now : ℤ) (kind : AuditKind) (outcome : AuditOutcome)
    (clientId credentialId proofTag : Option Str) (reason : Option RejectionReason) :
    AuditRow where
  eventId := lit "ae_" ++ hexlify event
  createdAt := now
  kind := kind
  clientId := clientId
  credentialId := credentialId
  proofTag := proofTag
  outcome := outcome
  reason := reason

theorem run_insertAudit_ok {event : Bytes} {now : ℤ} {kind : AuditKind}
    {outcome : AuditOutcome} {clientId credentialId proofTag : Option Str}
    {reason : Option RejectionReason} {db db' : Ledger} {u : Unit}
    (h : Tx.run (insertAudit event now kind outcome clientId credentialId proofTag reason) db =
      .ok (u, db')) :
    db'.auditEvents.rows = db.auditEvents.rows ++
        [auditRow event now kind outcome clientId credentialId proofTag reason] ∧
      db' = { db with auditEvents := db'.auditEvents } := by
  obtain ⟨-, h⟩ := run_insert_ok.mp h
  obtain ⟨t, ht, rfl⟩ := Ledger.insertAudit_ok.mp h
  exact ⟨(Table.insert?_eq_some.mp ht).2, rfl⟩

/-! ### Authority -/

/-- The join that authorizes a request at `now`: the credential exists in the role, belongs
to the client, which is active, and is current or still in its grace period. -/
structure Ledger.Accepts (db : Ledger) (role : Role) (credentialId clientId : Str) (now : ℤ)
    (credential : CredentialRow) (client : ClientRow) : Prop where
  joined : db.joined credentialId role = some (credential, client)
  active : client.status = .active
  owner : credential.clientId = clientId
  accepted : credentialIsAccepted credential now = true

/-- Some join authorizes the request. -/
def Ledger.Accepted (db : Ledger) (role : Role) (credentialId clientId : Str) (now : ℤ) :
    Prop := ∃ credential client, db.Accepts role credentialId clientId now credential client

/-- Without a join nothing is authorized. -/
theorem Ledger.not_accepted_of_joined_none {db : Ledger} {role : Role} {credentialId : Str}
    (clientId : Str) (now : ℤ) (hj : db.joined credentialId role = none) :
    ¬ db.Accepted role credentialId clientId now := by
  rintro ⟨credential, client, hacc⟩
  rw [hacc.joined] at hj
  cases hj

/-- Nor with a join that fails one of the three checks. -/
theorem Ledger.not_accepted_of_refused {db : Ledger} {role : Role} {credentialId clientId : Str}
    {now : ℤ} {credential : CredentialRow} {client : ClientRow}
    (hj : db.joined credentialId role = some (credential, client))
    (hrefused : credential.clientId ≠ clientId ∨ client.status ≠ .active ∨
      ¬ credentialIsAccepted credential now = true) :
    ¬ db.Accepted role credentialId clientId now := by
  rintro ⟨credential', client', hacc⟩
  rw [hacc.joined] at hj
  obtain ⟨rfl, rfl⟩ := Prod.mk.inj (Option.some.inj hj)
  rcases hrefused with h | h | h
  · exact h hacc.owner
  · exact h hacc.active
  · exact h hacc.accepted

/-! ### Issuing -/

/-- What an `issue_proof` that committed did. -/
structure IssueEffect (record : ProofRecord) (check : Str) (now : ℤ) (event : Bytes)
    (db : Ledger) (committed : ProofRecord) (db' : Ledger) : Prop where
  operational : db.restoreRequired = false
  committed_eq : committed =
    { record with issuedAt := now, expiresAt := now + (record.expiresAt - record.issuedAt) }
  authorized : ∃ credential client,
    db.Accepts .issuance record.issueCredentialId record.clientId now credential client ∧
      (db.rateWindow record.clientId .issue (now - 60)).length < client.issueLimitPerMinute
  encodable : [record.tokenDigest, record.proofTag, record.hashKid, record.clientId,
    record.issueCredentialId, record.subject, record.purpose, record.audience].all
      Str.encodable = true
  freshDigest : ∀ r ∈ db.proofs, r.tokenDigest ≠ record.tokenDigest
  freshTag : ∀ r ∈ db.proofs, r.proofTag ≠ record.proofTag
  proofs : db'.proofs.rows = db.proofs.rows ++ [committed.toRow]
  rateEvents : db'.rateEvents = db.slotTaken record.clientId .issue now
  auditEvents : db'.auditEvents.rows = db.auditEvents.rows ++
    [auditRow event now .proofIssued .issued (some record.clientId)
      (some record.issueCredentialId) (some record.proofTag) none]
  hashKeys : db.Registers record.hashKid check db'.hashKeys
  clients : db'.clients = db.clients
  credentials : db'.credentials = db.credentials
  verifications : db'.verifications = db.verifications
  maintenance : db'.maintenance = db.maintenance

theorem Store.issueProof_ok {record : ProofRecord} {check : Str} {now : ℤ} {event : Bytes}
    {db db' : Ledger} {committed : ProofRecord}
    (h : Tx.run (Store.issueProof record check now event) db = .ok (committed, db')) :
    IssueEffect record check now event db committed db' := by
  simp only [Store.issueProof] at h
  rw [Tx.run_bind_ok] at h
  obtain ⟨_, db₁, h₁, h⟩ := h
  obtain ⟨hop, rfl⟩ := run_requireOperational_ok.mp h₁
  rw [Tx.run_bind_ok] at h
  obtain ⟨_, db₂, h₂, h⟩ := h
  obtain ⟨hreg, hdb₂⟩ := run_registerHashKey_ok h₂
  rw [Tx.run_bind_ok] at h
  obtain ⟨j, db₃, h₃, h⟩ := h
  obtain ⟨-, hj, rfl⟩ := run_select_ok.mp h₃
  have hjoined : j = db₁.joined record.issueCredentialId .issuance := by
    rw [hj, hdb₂]
    rfl
  cases j with
  | none => simp at h
  | some p =>
    obtain ⟨credential, client⟩ := p
    dsimp only at h
    split_ifs at h with hactive haccept
    · simp at h
    · simp at h
    · rw [Tx.run_bind_ok] at h
      obtain ⟨_, db₄, h₄, h⟩ := h
      obtain ⟨hslot, hdb₄⟩ := run_consumeRateSlot_ok h₄
      rw [Tx.run_bind_ok] at h
      obtain ⟨_, db₅, h₅, h⟩ := h
      obtain ⟨henc, h₅⟩ := run_insert_ok.mp h₅
      obtain ⟨htag, -, -, t, ht, hdb₅⟩ := Ledger.insertProof_ok.mp h₅
      obtain ⟨hfresh, hrows⟩ := Table.insert?_eq_some.mp ht
      rw [Tx.run_bind_ok] at h
      obtain ⟨_, db₆, h₆, h⟩ := h
      obtain ⟨haudit, hdb₆⟩ := run_insertAudit_ok h₆
      simp only [Tx.run_pure, Except.ok.injEq, Prod.mk.injEq] at h
      obtain ⟨rfl, rfl⟩ := h
      rw [hdb₂] at hslot hdb₄
      rw [hdb₄] at hdb₅ htag hfresh hrows
      rw [hdb₅] at hdb₆ haudit
      obtain ⟨hclient, haccept⟩ := not_or.mp haccept
      exact {
        operational := hop
        committed_eq := rfl
        authorized := ⟨credential, client, ⟨hjoined.symm, not_not.mp hactive,
          not_not.mp hclient, not_not.mp haccept⟩, hslot⟩
        encodable := henc
        freshDigest := hfresh
        freshTag := htag
        proofs := by rw [hdb₆]; exact hrows
        rateEvents := by rw [hdb₆]; rfl
        auditEvents := haudit
        hashKeys := by rw [hdb₆]; exact hreg
        clients := by rw [hdb₆]
        credentials := by rw [hdb₆]
        verifications := by rw [hdb₆]
        maintenance := by rw [hdb₆] }

/-! ### Verifying -/

/-- The result of the checks on the record that was found. -/
def ConsumeProof.decision (a : ConsumeProof) (record : Option ProofRecord)
    (verificationId : Str) (now : ℤ) : VerificationResult :=
  match record with
  | none => rejectedResult .invalid verificationId none (some a.clientId) now
  | some r =>
    if r.consumedAt ≠ none then
      rejectedResult .alreadyConsumed verificationId (some r.proofTag) (some a.clientId) now
    else if r.expiresAt ≤ now then
      rejectedResult .expired verificationId (some r.proofTag) (some a.clientId) now
    else if r.purpose ≠ a.purpose ∨ r.audience ≠ a.audience ∨ r.subject ≠ a.subject then
      rejectedResult .bindingMismatch verificationId (some r.proofTag) (some a.clientId) now
    else acceptedResult r verificationId now

/-- The row that a client's request finds under a digest. -/
def Ledger.proofOf (db : Ledger) (clientId tokenDigest : Str) : Option ProofRow :=
  (db.proofs.get? tokenDigest).filter fun r => r.clientId = clientId

theorem Ledger.proofOf_eq_some {db : Ledger} {clientId tokenDigest : Str} {r : ProofRow} :
    db.proofOf clientId tokenDigest = some r ↔
      r ∈ db.proofs ∧ r.tokenDigest = tokenDigest ∧ r.clientId = clientId := by
  simp [Ledger.proofOf, Option.filter_eq_some_iff, Table.get?_eq_some, and_assoc]

/-- The mark of a consumption keeps the primary key. -/
theorem ProofRow.tokenDigest_consumed (verificationId : Str) (now : ℤ) (r : ProofRow) :
    { r with consumedAt := some now, consumeVerificationId := some verificationId }.tokenDigest =
      r.tokenDigest := rfl

/-- The conditional update that marks a proof consumed. -/
def Ledger.consume (db : Ledger) (tokenDigest verificationId : Str) (now : ℤ) :
    Table ProofRow ProofRow.tokenDigest :=
  db.proofs.update
    (fun r => r.tokenDigest = tokenDigest ∧ r.consumedAt = none ∧ now < r.expiresAt)
    (fun r => { r with consumedAt := some now, consumeVerificationId := some verificationId })
    (ProofRow.tokenDigest_consumed verificationId now)

/-- A row that passes the four checks is the one row that the update marks. -/
theorem run_decideProof_ok {a : ConsumeProof} {verificationId : Str} {now : ℤ}
    {db db' : Ledger} {result : VerificationResult}
    (h : Tx.run (decideProof a ((db.proofOf a.clientId a.tokenDigest).map proofFromRow)
      verificationId now) db = .ok (result, db')) :
    result = a.decision ((db.proofOf a.clientId a.tokenDigest).map proofFromRow)
        verificationId now ∧
      db' = { db with
        proofs := if result.verified then db.consume a.tokenDigest verificationId now
          else db.proofs } := by
  cases hrow : db.proofOf a.clientId a.tokenDigest with
  | none =>
    simp only [hrow, Option.map_none, decideProof, Tx.run_pure, Except.ok.injEq,
      Prod.mk.injEq] at h
    obtain ⟨rfl, rfl⟩ := h
    exact ⟨rfl, rfl⟩
  | some r =>
    obtain ⟨hmem, hdigest, -⟩ := Ledger.proofOf_eq_some.mp hrow
    simp only [hrow, Option.map_some, decideProof] at h
    simp only [Option.map_some, ConsumeProof.decision]
    split_ifs at h with hconsumed hexpired hbinding
    · simp only [Tx.run_pure, Except.ok.injEq, Prod.mk.injEq] at h
      obtain ⟨rfl, rfl⟩ := h
      rw [if_pos hconsumed]
      exact ⟨rfl, rfl⟩
    · simp only [Tx.run_pure, Except.ok.injEq, Prod.mk.injEq] at h
      obtain ⟨rfl, rfl⟩ := h
      rw [if_neg hconsumed, if_pos hexpired]
      exact ⟨rfl, rfl⟩
    · simp only [Tx.run_pure, Except.ok.injEq, Prod.mk.injEq] at h
      obtain ⟨rfl, rfl⟩ := h
      rw [if_neg hconsumed, if_neg hexpired, if_pos hbinding]
      exact ⟨rfl, rfl⟩
    · rw [Tx.run_bind_ok] at h
      obtain ⟨rowcount, db₁, h₁, h⟩ := h
      obtain ⟨-, h₁⟩ := run_change_ok.mp h₁
      obtain ⟨hcount, hdb₁⟩ := Prod.mk.inj h₁
      -- the digest is a key, so the update meets exactly this row
      have hone : rowcount = 1 := by
        rw [← hcount]
        refine Table.count_eq_one_of_mem hmem ?_ fun r' _ hr' => ?_
        · have hlive : r.consumedAt = none := not_not.mp hconsumed
          have hopen : now < r.expiresAt := not_le.mp hexpired
          simp [hdigest, hlive, hopen]
        · simp only [decide_eq_true_eq] at hr'
          rw [hr'.1, hdigest]
      rw [if_pos hone] at h
      simp only [Tx.run_pure, Except.ok.injEq, Prod.mk.injEq] at h
      obtain ⟨rfl, rfl⟩ := h
      rw [if_neg hconsumed, if_neg hexpired, if_neg hbinding]
      exact ⟨rfl, hdb₁.symm⟩

/-- The row that records a decision. -/
def ConsumeProof.verificationRow (a : ConsumeProof) (result : VerificationResult) (now : ℤ) :
    VerificationRow where
  verificationId := result.witness.verificationId
  clientId := a.clientId
  credentialId := a.credentialId
  proofTag := result.witness.proofTag
  requestFingerprint := a.requestFingerprint
  idempotencyKey := a.idempotencyKey
  resultJson := resultJson result
  createdAt := now

/-- The id of a verification. -/
def Draws.verificationId (draws : Draws) : Str := lit "vr_" ++ hexlify draws.verification

/-- What a `consume_proof` that made a decision did. -/
structure DecideEffect (a : ConsumeProof) (now : ℤ) (draws : Draws) (db : Ledger)
    (result : VerificationResult) (db' : Ledger) : Prop where
  operational : db.restoreRequired = false
  authorized : ∃ credential client,
    db.Accepts .verification a.credentialId a.clientId now credential client ∧
      (db.rateWindow a.clientId .verify (now - 60)).length < client.verifyLimitPerMinute
  freshKey : ∀ key, a.idempotencyKey = some key → db.idempotent a.clientId key = none
  result_eq : result =
    a.decision ((db.proofOf a.clientId a.tokenDigest).map proofFromRow)
      draws.verificationId now
  encodable : ([a.clientId, a.credentialId, a.requestFingerprint] ++
    a.idempotencyKey.toList).all Str.encodable = true
  freshId : ∀ v ∈ db.verifications, v.verificationId ≠ result.witness.verificationId
  proofs : db'.proofs = if result.verified then
      db.consume a.tokenDigest draws.verificationId now else db.proofs
  verifications : db'.verifications.rows =
    db.verifications.rows ++ [a.verificationRow result now]
  rateEvents : db'.rateEvents = db.slotTaken a.clientId .verify now
  auditEvents : db'.auditEvents.rows = db.auditEvents.rows ++
    [auditRow draws.event now (if result.verified then .proofVerified else .proofRejected)
      (if result.verified then .verified else .rejected) (some a.clientId)
      (some a.credentialId) result.witness.proofTag result.reason]
  clients : db'.clients = db.clients
  credentials : db'.credentials = db.credentials
  hashKeys : db'.hashKeys = db.hashKeys
  maintenance : db'.maintenance = db.maintenance

/-- What a `consume_proof` that committed did: it refused the credential, replayed a stored
decision, or decided. -/
inductive ConsumeEffect (a : ConsumeProof) (now : ℤ) (draws : Draws) (db : Ledger) :
    VerificationResult → Ledger → Prop
  | refused (operational : db.restoreRequired = false)
      (refused : ¬ db.Accepted .verification a.credentialId a.clientId now) :
      ConsumeEffect a now draws db
        (rejectedResult .credentialRejected draws.verificationId none none now) db
  | replayed (operational : db.restoreRequired = false)
      (accepted : db.Accepted .verification a.credentialId a.clientId now) (key : Str)
      (row : VerificationRow) (result : VerificationResult)
      (keyed : a.idempotencyKey = some key) (stored : db.idempotent a.clientId key = some row)
      (same : row.requestFingerprint = a.requestFingerprint)
      (read : resultFromJson (.ok row.resultJson) = .ok result) :
      ConsumeEffect a now draws db result db
  | decided {result : VerificationResult} {db' : Ledger}
      (effect : DecideEffect a now draws db result db') :
      ConsumeEffect a now draws db result db'

/-- A replay is keyed and finds a row of the same request; otherwise the key is fresh. -/
theorem run_idempotentResult_ok {clientId : Str} {idempotencyKey : Option Str}
    {requestFingerprint : Str} {db db' : Ledger} {cached : Option VerificationResult}
    (h : Tx.run (idempotentResult clientId idempotencyKey requestFingerprint) db =
      .ok (cached, db')) :
    db' = db ∧
      ((cached = none ∧
          ∀ key, idempotencyKey = some key → db.idempotent clientId key = none) ∨
        ∃ key row result, cached = some result ∧ idempotencyKey = some key ∧
          db.idempotent clientId key = some row ∧
          row.requestFingerprint = requestFingerprint ∧
          resultFromJson (.ok row.resultJson) = .ok result) := by
  cases idempotencyKey with
  | none =>
    simp only [idempotentResult, Tx.run_pure, Except.ok.injEq, Prod.mk.injEq] at h
    exact ⟨h.2.symm, Or.inl ⟨h.1.symm, by simp⟩⟩
  | some key =>
    simp only [idempotentResult] at h
    rw [Tx.run_bind_ok] at h
    obtain ⟨row, db₁, h₁, h⟩ := h
    obtain ⟨-, hrow, rfl⟩ := run_select_ok.mp h₁
    cases row with
    | none =>
      simp only [Tx.run_pure, Except.ok.injEq, Prod.mk.injEq] at h
      refine ⟨h.2.symm, Or.inl ⟨h.1.symm, fun k hk => ?_⟩⟩
      rw [← Option.some.inj hk]
      exact hrow.symm
    | some row =>
      dsimp only at h
      split_ifs at h with hf
      · simp at h
      · rw [Tx.run_bind_ok] at h
        obtain ⟨result, db₂, h₂, h⟩ := h
        cases hread : resultFromJson (.ok row.resultJson) with
        | error e => simp [hread] at h₂
        | ok r =>
          simp only [hread, Prog.lift_ok, Tx.run_ret, Except.ok.injEq, Prod.mk.injEq] at h₂
          obtain ⟨rfl, rfl⟩ := h₂
          simp only [Tx.run_pure, Except.ok.injEq, Prod.mk.injEq] at h
          exact ⟨h.2.symm, Or.inr ⟨key, row, r, h.1.symm, rfl, hrow.symm, not_not.mp hf, hread⟩⟩

theorem Store.consumeProof_ok {a : ConsumeProof} {now : ℤ} {draws : Draws} {db db' : Ledger}
    {result : VerificationResult}
    (h : Tx.run (Store.consumeProof a now draws) db = .ok (result, db')) :
    ConsumeEffect a now draws db result db' := by
  simp only [Store.consumeProof] at h
  rw [Tx.run_bind_ok] at h
  obtain ⟨_, db₁, h₁, h⟩ := h
  obtain ⟨hop, rfl⟩ := run_requireOperational_ok.mp h₁
  rw [Tx.run_bind_ok] at h
  obtain ⟨j, db₂, h₂, h⟩ := h
  obtain ⟨-, hj, rfl⟩ := run_select_ok.mp h₂
  cases j with
  | none =>
    simp only [Tx.run_pure, Except.ok.injEq, Prod.mk.injEq] at h
    obtain ⟨rfl, rfl⟩ := h
    exact .refused hop (Ledger.not_accepted_of_joined_none _ _ hj.symm)
  | some p =>
    obtain ⟨credential, client⟩ := p
    dsimp only at h
    split_ifs at h with hrefused
    · simp only [Tx.run_pure, Except.ok.injEq, Prod.mk.injEq] at h
      obtain ⟨rfl, rfl⟩ := h
      exact .refused hop (Ledger.not_accepted_of_refused hj.symm hrefused)
    · simp only [not_or, not_not] at hrefused
      have hacc : db₂.Accepts .verification a.credentialId a.clientId now credential client :=
        ⟨hj.symm, hrefused.2.1, hrefused.1, hrefused.2.2⟩
      rw [Tx.run_bind_ok] at h
      obtain ⟨cached, db₃, h₃, h⟩ := h
      obtain ⟨rfl, hcached⟩ := run_idempotentResult_ok h₃
      -- no answer is stored under the key, or the stored one is replayed
      rcases hcached with ⟨rfl, hkey⟩ | ⟨key, row, r, rfl, hkey, hrow, hsame, hread⟩
      · dsimp only at h
        rw [Tx.run_bind_ok] at h
        obtain ⟨_, db₄, h₄, h⟩ := h
        obtain ⟨hslot, hdb₄⟩ := run_consumeRateSlot_ok h₄
        rw [Tx.run_bind_ok] at h
        obtain ⟨row, db₅, h₅, h⟩ := h
        obtain ⟨-, rfl, rfl⟩ := run_select_ok.mp h₅
        rw [Tx.run_bind_ok] at h
        obtain ⟨r, db₆, h₆, h⟩ := h
        obtain ⟨hr, hdb₆⟩ := run_decideProof_ok h₆
        rw [Tx.run_bind_ok] at h
        obtain ⟨_, db₇, h₇, h⟩ := h
        obtain ⟨henc, h₇⟩ := run_insert_ok.mp h₇
        obtain ⟨-, t, ht, hdb₇⟩ := Ledger.insertVerification_ok.mp h₇
        obtain ⟨hfresh, hrows⟩ := Table.insert?_eq_some.mp ht
        rw [Tx.run_bind_ok] at h
        obtain ⟨_, db₈, h₈, h⟩ := h
        obtain ⟨haudit, hdb₈⟩ := run_insertAudit_ok h₈
        simp only [Tx.run_pure, Except.ok.injEq, Prod.mk.injEq] at h
        obtain ⟨rfl, rfl⟩ := h
        rw [hdb₄] at hr hdb₆
        rw [hdb₆] at hdb₇ hfresh hrows
        rw [hdb₇] at hdb₈ haudit
        refine .decided {
          operational := hop
          authorized := ⟨credential, client, hacc, hslot⟩
          freshKey := hkey
          result_eq := hr
          encodable := ?_
          freshId := hfresh
          proofs := by rw [hdb₈]; rfl
          verifications := by rw [hdb₈]; exact hrows
          rateEvents := by rw [hdb₈]
          auditEvents := haudit
          clients := by rw [hdb₈]
          credentials := by rw [hdb₈]
          hashKeys := by rw [hdb₈]
          maintenance := by rw [hdb₈] }
        simp only [List.all_append, List.all_cons, List.all_nil, Bool.and_true,
          Bool.and_eq_true] at henc ⊢
        exact ⟨henc.1.1.2, henc.2⟩
      · simp only [Tx.run_pure, Except.ok.injEq, Prod.mk.injEq] at h
        obtain ⟨rfl, rfl⟩ := h
        exact .replayed hop ⟨credential, client, hacc⟩ key row r hkey hrow hsame hread

/-! ### Clients and credentials -/

/-- What a `create_client` that committed did. -/
structure CreateEffect (a : CreateClient) (event : Bytes) (db db' : Ledger) : Prop where
  operational : db.restoreRequired = false
  sameKid : a.issuanceCredential.hashKid = a.verificationCredential.hashKid
  clients : ∃ row, row.clientId = a.clientId ∧ row.status = .active ∧
    (∀ c ∈ db.clients, c.clientId ≠ a.clientId) ∧ db'.clients.rows = db.clients.rows ++ [row]
  audiences : ∀ row ∈ db'.clients, row ∈ db.clients ∨
    row.allowedAudiencesJson = Json.persist (.arr (a.allowedAudiences.map .str))
  credentials : db'.credentials.rows = db.credentials.rows ++
    [a.issuanceCredential.toCurrentRow a.now, a.verificationCredential.toCurrentRow a.now]
  hashKeys : db.Registers a.issuanceCredential.hashKid a.hashKeyCheck db'.hashKeys
  auditEvents : db'.auditEvents.rows = db.auditEvents.rows ++
    [auditRow event a.now .clientCreated .created (some a.clientId) none none none]
  proofs : db'.proofs = db.proofs
  verifications : db'.verifications = db.verifications
  rateEvents : db'.rateEvents = db.rateEvents
  maintenance : db'.maintenance = db.maintenance

theorem run_insertCurrentCredential_ok {c : CredentialRecord} {now : ℤ} {db db' : Ledger}
    {u : Unit} (h : Tx.run (insertCurrentCredential c now) db = .ok (u, db')) :
    (∀ r ∈ db.credentials, r.credentialId ≠ c.credentialId) ∧
      (db.clients.get? c.clientId).isSome = true ∧
      db.currentCredential c.clientId c.role = none ∧
      db'.credentials.rows = db.credentials.rows ++ [c.toCurrentRow now] ∧
      db' = { db with credentials := db'.credentials } := by
  obtain ⟨-, h⟩ := run_insert_ok.mp h
  obtain ⟨hclient, hcurrent, t, ht, rfl⟩ := Ledger.insertCredential_ok.mp h
  obtain ⟨hfresh, hrows⟩ := Table.insert?_eq_some.mp ht
  exact ⟨hfresh, hclient, hcurrent rfl, hrows, rfl⟩

theorem Store.createClient_ok {a : CreateClient} {event : Bytes} {db db' : Ledger} {u : Unit}
    (h : Tx.run (Store.createClient a event) db = .ok (u, db')) :
    CreateEffect a event db db' := by
  simp only [Store.createClient] at h
  rw [Tx.run_bind_ok] at h
  obtain ⟨_, db₁, h₁, h⟩ := h
  obtain ⟨hop, rfl⟩ := run_requireOperational_ok.mp h₁
  split_ifs at h with hkid
  · simp at h
  · rw [Tx.run_bind_ok] at h
    obtain ⟨_, db₂, h₂, h⟩ := h
    obtain ⟨hreg, hdb₂⟩ := run_registerHashKey_ok h₂
    rw [Tx.run_bind_ok] at h
    obtain ⟨_, db₃, h₃, h⟩ := h
    obtain ⟨-, h₃⟩ := run_insert_ok.mp h₃
    unfold insertClientRow at h₃
    split_ifs at h₃ with hlimits
    obtain ⟨t, ht, hdb₃⟩ := Ledger.insertClient_ok.mp h₃
    obtain ⟨hfresh, hrows⟩ := Table.insert?_eq_some.mp ht
    rw [Tx.run_bind_ok] at h
    obtain ⟨_, db₄, h₄, h⟩ := h
    obtain ⟨-, -, -, hcred₁, hdb₄⟩ := run_insertCurrentCredential_ok h₄
    rw [Tx.run_bind_ok] at h
    obtain ⟨_, db₅, h₅, h⟩ := h
    obtain ⟨-, -, -, hcred₂, hdb₅⟩ := run_insertCurrentCredential_ok h₅
    obtain ⟨haudit, hdb₆⟩ := run_insertAudit_ok h
    rw [hdb₂] at hdb₃ hrows hfresh
    rw [hdb₃] at hdb₄ hcred₁
    rw [hcred₁] at hcred₂
    rw [hdb₄] at hdb₅
    rw [hdb₅] at hdb₆ haudit
    exact {
      operational := hop
      sameKid := not_not.mp hkid
      clients := ⟨_, rfl, rfl, hfresh, by rw [hdb₆]; exact hrows⟩
      audiences := by
        intro row hrow
        rw [hdb₆, Table.mem_def, hrows, List.mem_append, List.mem_singleton] at hrow
        exact hrow.imp id fun hnew => by rw [hnew]
      credentials := by rw [hdb₆, hcred₂]; simp
      hashKeys := by rw [hdb₆]; exact hreg
      auditEvents := haudit
      proofs := by rw [hdb₆]
      verifications := by rw [hdb₆]
      rateEvents := by rw [hdb₆]
      maintenance := by rw [hdb₆] }

/-- The current credential of a role becomes a previous one. -/
def CredentialRow.demote (previousId : Str) (validUntil : ℤ) (c : CredentialRow) :
    CredentialRow :=
  if c.credentialId = previousId then
    { c with status := .previous, validUntil := some validUntil }
  else c

/-- What a `rotate_credential` that committed did. -/
structure RotateEffect (a : RotateCredential) (event : Bytes) (db : Ledger) (reply : Str × ℤ)
    (db' : Ledger) : Prop where
  operational : db.restoreRequired = false
  active : ∃ client, db.clients.get? a.clientId = some client ∧ client.status = .active
  current : ∃ c, db.currentCredential a.clientId a.role = some c ∧
    reply = (c.credentialId, a.now + a.graceSeconds)
  freshId : ∀ c ∈ db.credentials, c.credentialId ≠ a.replacement.credentialId
  owner : (db.clients.get? a.replacement.clientId).isSome = true
  noCurrent : ∀ c ∈ db.credentials, c.credentialId ≠ reply.1 →
    c.clientId = a.replacement.clientId → c.role = a.replacement.role → c.status ≠ .current
  credentials : db'.credentials.rows =
    db.credentials.rows.map (CredentialRow.demote reply.1 reply.2) ++
      [a.replacement.toCurrentRow a.now]
  hashKeys : db.Registers a.replacement.hashKid a.hashKeyCheck db'.hashKeys
  auditEvents : db'.auditEvents.rows = db.auditEvents.rows ++
    [auditRow event a.now .credentialRotated .rotated (some a.clientId)
      (some a.replacement.credentialId) none none]
  clients : db'.clients = db.clients
  proofs : db'.proofs = db.proofs
  verifications : db'.verifications = db.verifications
  rateEvents : db'.rateEvents = db.rateEvents
  maintenance : db'.maintenance = db.maintenance

theorem Store.rotateCredential_ok {a : RotateCredential} {event : Bytes} {db db' : Ledger}
    {reply : Str × ℤ} (h : Tx.run (Store.rotateCredential a event) db = .ok (reply, db')) :
    RotateEffect a event db reply db' := by
  simp only [Store.rotateCredential] at h
  rw [Tx.run_bind_ok] at h
  obtain ⟨_, db₁, h₁, h⟩ := h
  obtain ⟨hop, rfl⟩ := run_requireOperational_ok.mp h₁
  rw [Tx.run_bind_ok] at h
  obtain ⟨_, db₂, h₂, h⟩ := h
  obtain ⟨hreg, hdb₂⟩ := run_registerHashKey_ok h₂
  rw [Tx.run_bind_ok] at h
  obtain ⟨client, db₃, h₃, h⟩ := h
  obtain ⟨-, hclient, rfl⟩ := run_select_ok.mp h₃
  cases client with
  | none => simp at h
  | some client =>
    dsimp only at h
    split_ifs at h with hactive
    · simp at h
    · rw [Tx.run_bind_ok] at h
      obtain ⟨current, db₄, h₄, h⟩ := h
      obtain ⟨-, hcurrent, rfl⟩ := run_select_ok.mp h₄
      cases current with
      | none => simp at h
      | some current =>
        dsimp only at h
        rw [Tx.run_bind_ok] at h
        obtain ⟨_, db₅, h₅, h⟩ := h
        obtain ⟨-, h₅⟩ := run_change_ok.mp h₅
        rw [Tx.run_bind_ok] at h
        obtain ⟨_, db₆, h₆, h⟩ := h
        obtain ⟨hfresh, howner, hcurrent₆, hcreds, hdb₆⟩ := run_insertCurrentCredential_ok h₆
        rw [Tx.run_bind_ok] at h
        obtain ⟨_, db₇, h₇, h⟩ := h
        obtain ⟨haudit, hdb₇⟩ := run_insertAudit_ok h₇
        simp only [Tx.run_pure, Except.ok.injEq, Prod.mk.injEq] at h
        obtain ⟨rfl, rfl⟩ := h
        have hdb₅ := (Prod.mk.inj h₅).2.symm
        rw [hdb₂] at hclient hcurrent hdb₅
        rw [hdb₅] at hdb₆ hfresh howner hcreds hcurrent₆
        rw [hdb₆] at hdb₇ haudit
        refine {
          operational := hop
          active := ⟨client, hclient.symm, not_not.mp hactive⟩
          current := ⟨current, hcurrent.symm, rfl⟩
          freshId := fun c hc => ?_
          owner := howner
          noCurrent := fun c hc hne hclient hrole hstatus => ?_
          credentials := ?_
          hashKeys := by rw [hdb₇]; exact hreg
          auditEvents := haudit
          clients := by rw [hdb₇]
          proofs := by rw [hdb₇]
          verifications := by rw [hdb₇]
          rateEvents := by rw [hdb₇]
          maintenance := by rw [hdb₇] }
        · simp only [Table.mem_def, Table.rows_update, List.forall_mem_map] at hfresh
          have hne := hfresh c hc
          split_ifs at hne <;> exact hne
        · have hnone := List.find?_eq_none.mp hcurrent₆ c
          refine hnone ?_ (by simp [hclient, hrole, hstatus])
          rw [Table.rows_update, List.mem_map]
          exact ⟨c, hc, if_neg (by simpa using hne)⟩
        · rw [hdb₇]
          simp only [hcreds, Table.rows_update]
          congr 2
          funext c
          simp [CredentialRow.demote]

/-- The end of a credential whose client is revoked. -/
def CredentialRow.revoke (now : ℤ) (c : CredentialRow) : CredentialRow :=
  { c with status := .revoked, validUntil := some now, revokedAt := some now }

/-- What a `revoke_client` that committed did: nothing for a revoked client, or the end of the
client's authority. -/
inductive RevokeEffect (clientId : Str) (now : ℤ) (event : Bytes) (db : Ledger) :
    Bool → Ledger → Prop
  | already (operational : db.restoreRequired = false) (client : ClientRow)
      (found : db.clients.get? clientId = some client) (status : client.status = .revoked) :
      RevokeEffect clientId now event db false db
  | revoked {db' : Ledger} (operational : db.restoreRequired = false) (client : ClientRow)
      (found : db.clients.get? clientId = some client)
      (clients : db'.clients.rows = db.clients.rows.map fun c =>
        if c.clientId = clientId then { c with status := .revoked, revokedAt := some now }
        else c)
      (credentials : db'.credentials.rows = db.credentials.rows.map fun c =>
        if c.clientId = clientId ∧ c.status ≠ .revoked then c.revoke now else c)
      (proofs : db'.proofs.rows = db.proofs.rows.map fun r =>
        if r.clientId = clientId ∧ r.consumedAt = none then r.expireBy now else r)
      (auditEvents : db'.auditEvents.rows = db.auditEvents.rows ++
        [auditRow event now .clientRevoked .revoked (some clientId) none none none])
      (hashKeys : db'.hashKeys = db.hashKeys) (rateEvents : db'.rateEvents = db.rateEvents)
      (verifications : db'.verifications = db.verifications)
      (maintenance : db'.maintenance = db.maintenance) :
      RevokeEffect clientId now event db true db'

theorem Store.revokeClient_ok {clientId : Str} {now : ℤ} {event : Bytes} {db db' : Ledger}
    {reply : Bool} (h : Tx.run (Store.revokeClient clientId now event) db = .ok (reply, db')) :
    RevokeEffect clientId now event db reply db' := by
  simp only [Store.revokeClient] at h
  rw [Tx.run_bind_ok] at h
  obtain ⟨_, db₁, h₁, h⟩ := h
  obtain ⟨hop, rfl⟩ := run_requireOperational_ok.mp h₁
  rw [Tx.run_bind_ok] at h
  obtain ⟨client, db₂, h₂, h⟩ := h
  obtain ⟨-, hclient, rfl⟩ := run_select_ok.mp h₂
  cases client with
  | none => simp at h
  | some client =>
    dsimp only at h
    split_ifs at h with hstatus
    · simp only [Tx.run_pure, Except.ok.injEq, Prod.mk.injEq] at h
      obtain ⟨rfl, rfl⟩ := h
      exact .already hop client hclient.symm hstatus
    · rw [Tx.run_bind_ok] at h
      obtain ⟨_, db₃, h₃, h⟩ := h
      have hdb₃ := (Prod.mk.inj (run_change_ok.mp h₃).2).2.symm
      rw [Tx.run_bind_ok] at h
      obtain ⟨_, db₄, h₄, h⟩ := h
      have hdb₄ := (Prod.mk.inj (run_change_ok.mp h₄).2).2.symm
      rw [Tx.run_bind_ok] at h
      obtain ⟨_, db₅, h₅, h⟩ := h
      have hdb₅ := (Prod.mk.inj (run_change_ok.mp h₅).2).2.symm
      rw [Tx.run_bind_ok] at h
      obtain ⟨_, db₆, h₆, h⟩ := h
      obtain ⟨haudit, hdb₆⟩ := run_insertAudit_ok h₆
      simp only [Tx.run_pure, Except.ok.injEq, Prod.mk.injEq] at h
      obtain ⟨rfl, rfl⟩ := h
      rw [hdb₃] at hdb₄
      rw [hdb₄] at hdb₅
      rw [hdb₅] at hdb₆ haudit
      refine .revoked hop client hclient.symm ?_ ?_ ?_ haudit ?_ ?_ ?_ ?_
      all_goals rw [hdb₆]
      · simp only [Table.rows_update, decide_eq_true_eq]
      · simp only [Table.rows_update, decide_eq_true_eq, CredentialRow.revoke]
      · rw [Table.rows_update _ _ (ProofRow.expireBy now) fun _ => rfl]
        simp only [decide_eq_true_eq]

/-! ### Maintenance -/

/-- What a `cleanup` that committed did. -/
structure CleanupEffect (now : ℤ) (db db' : Ledger) : Prop where
  proofs : db'.proofs.rows =
    db.proofs.rows.filter fun r => now - proofRetentionSeconds ≤ r.expiresAt
  credentials : db'.credentials.rows = db.credentials.rows.filter fun c =>
    c.status = .current ∨ now ≤ c.endedAt ∨
      ∃ r ∈ db'.proofs.rows, r.issueCredentialId = c.credentialId
  verifications : db'.verifications.rows =
    db.verifications.rows.filter fun v => now - idempotencyRetentionSeconds ≤ v.createdAt
  auditEvents : db'.auditEvents.rows =
    db.auditEvents.rows.filter fun e => now - auditRetentionSeconds ≤ e.createdAt
  rateEvents : db'.rateEvents = db.rateEvents.filter fun e => now - 60 < e.occurredAt
  clients : db'.clients = db.clients
  hashKeys : db'.hashKeys = db.hashKeys
  restoreRequired : db'.restoreRequired = db.restoreRequired

theorem Ledger.maintenanceValue_upsert (db : Ledger) (name name' : MaintenanceName) (n : ℤ) :
    (db.upsertMaintenance name n).maintenanceValue name' =
      if name = name' then some n else db.maintenanceValue name' := by
  unfold Ledger.upsertMaintenance Ledger.maintenanceValue
  cases ht : db.maintenance.insert? ⟨name, n⟩ with
  | some t =>
    dsimp only
    rw [Table.get?_of_insert? ht]
    split_ifs <;> rfl
  | none =>
    dsimp only
    rw [Table.get?_update]
    obtain ⟨r, hr, hk⟩ := Table.insert?_eq_none.mp ht
    dsimp only at hk
    split_ifs with hname
    · subst hname
      simp [Table.get?_eq_some.mpr ⟨hr, hk⟩, hk]
    · cases hg : db.maintenance.get? name' with
      | none => rfl
      | some r' =>
        have hk' := (Table.get?_eq_some.mp hg).2
        simp [hk', Ne.symm hname]

theorem Ledger.restoreRequired_upsert_lastCleanupAt (db : Ledger) (now : ℤ) :
    (db.upsertMaintenance .lastCleanupAt now).restoreRequired = db.restoreRequired := by
  simp [Ledger.restoreRequired, Ledger.maintenanceValue_upsert]

theorem Ledger.upsertMaintenance_eq (db : Ledger) (name : MaintenanceName) (n : ℤ) :
    db.upsertMaintenance name n =
      { db with maintenance := (db.upsertMaintenance name n).maintenance } := by
  unfold Ledger.upsertMaintenance
  split <;> rfl

/-- What a cleanup leaves. -/
def Ledger.cleaned (db : Ledger) (now : ℤ) : Ledger :=
  let kept := { db with
    proofs := db.proofs.delete fun r => r.expiresAt < now - proofRetentionSeconds }
  { kept with
    credentials := kept.credentials.delete (kept.credentialIsStale now)
    verifications := db.verifications.delete fun v =>
      v.createdAt < now - idempotencyRetentionSeconds
    auditEvents := db.auditEvents.delete fun e => e.createdAt < now - auditRetentionSeconds
    rateEvents := db.rateEvents.filter fun e =>
      now - 60 < e.occurredAt }.upsertMaintenance .lastCleanupAt now

/-- A statement without texts, and what follows it. -/
theorem run_change_bind {α β : Type} (stmt : Ledger → β × Ledger) (f : β → LedgerTx α)
    (db : Ledger) : Tx.run (change [] stmt >>= f) db = Tx.run (f (stmt db).1) (stmt db).2 :=
  Tx.run_bind_of_ok (run_change_ok.mpr ⟨rfl, rfl⟩)

/-- The credentials that a cleanup deletes issued no remaining proof. -/
theorem Ledger.deleteCredentials_stale (db : Ledger) (now : ℤ) :
    db.deleteCredentials (db.credentialIsStale now) =
      .ok { db with credentials := db.credentials.delete (db.credentialIsStale now) } := by
  unfold Ledger.deleteCredentials
  refine if_neg ?_
  rintro ⟨c, -, hc, hused⟩
  simp only [Ledger.credentialIsStale, decide_eq_true_eq] at hc
  exact hc.2.2 hused

/-- The deletion of the stale credentials, and what follows it. -/
theorem run_deleteCredentials_bind {α : Type} (now : ℤ) (f : ℕ → LedgerTx α) (db : Ledger) :
    Tx.run (execute [] (fun db =>
        (db.deleteCredentials (db.credentialIsStale now)).map fun db' =>
          (db.credentials.count (db.credentialIsStale now), db')) >>= f) db =
      Tx.run (f (db.credentials.count (db.credentialIsStale now)))
        { db with credentials := db.credentials.delete (db.credentialIsStale now) } := by
  refine Tx.run_bind_of_ok ?_
  rw [run_execute, db.deleteCredentials_stale]
  rfl

/-- The binding of an integer, and what follows it. -/
theorem run_bindInteger_bind {α : Type} (n : ℤ) (f : Unit → LedgerTx α) (db : Ledger) :
    Tx.run (bindInteger n >>= f) db =
      if Bindable n then Tx.run (f ()) db else .error .overflowError := by
  unfold bindInteger
  split_ifs <;> rfl

/-- **A cleanup** at a time that can be bound raises nothing. -/
theorem Store.cleanup_run {now : ℤ} (h : CleanupTime now) (db : Ledger) :
    ∃ counts, Tx.run (Store.cleanup now) db = .ok (counts, db.cleaned now) := by
  -- each time that the statements bind is between the two of `h`
  have hbind : ∀ n, now - auditRetentionSeconds ≤ n → n ≤ now →
      ∀ (f : Unit → LedgerTx CleanupCounts) (db : Ledger),
        Tx.run (bindInteger n >>= f) db = Tx.run (f ()) db := by
    intro n hfirst hlast f db
    have hn : Bindable n := ⟨h.1.1.trans hfirst, hlast.trans h.2.2⟩
    rw [run_bindInteger_bind, if_pos hn]
  have hproof : proofRetentionSeconds ≤ auditRetentionSeconds := by decide
  have hkey : idempotencyRetentionSeconds ≤ auditRetentionSeconds := by decide
  have hrate : 60 ≤ auditRetentionSeconds := by decide
  have hlong : 0 ≤ auditRetentionSeconds := by decide
  refine ⟨_, (hbind _ (by omega) (by unfold proofRetentionSeconds; omega) _ _).trans <|
    (run_change_bind _ _ _).trans <| (hbind _ (by omega) le_rfl _ _).trans <|
    (run_deleteCredentials_bind _ _ _).trans <|
    (hbind _ (by omega) (by unfold idempotencyRetentionSeconds; omega) _ _).trans <|
    (run_change_bind _ _ _).trans <| (hbind _ le_rfl (by omega) _ _).trans <|
    (run_change_bind _ _ _).trans <| (hbind _ (by omega) (by omega) _ _).trans <|
    (run_change_bind _ _ _).trans <| (hbind _ (by omega) le_rfl _ _).trans
    (run_change_bind _ _ _)⟩

/-- A cleanup at any other time raises an `OverflowError`. -/
theorem Store.cleanup_overflow {now : ℤ} (h : ¬ CleanupTime now) (db : Ledger) :
    Tx.run (Store.cleanup now) db = .error .overflowError := by
  simp only [Store.cleanup, run_bindInteger_bind, run_change_bind, run_deleteCredentials_bind]
  split_ifs with _ hnow _ haudit <;> first | rfl | exact absurd ⟨haudit, hnow⟩ h

/-- A cleanup that ends well was made at a time that can be bound. -/
theorem Store.cleanupTime_of_run {now : ℤ} {db db' : Ledger} {counts : CleanupCounts}
    (h : Tx.run (Store.cleanup now) db = .ok (counts, db')) : CleanupTime now := by
  by_contra hlong
  cases h.symm.trans (Store.cleanup_overflow hlong db)

theorem Ledger.cleaned_effect (db : Ledger) (now : ℤ) : CleanupEffect now db (db.cleaned now) := by
  have hseal : (db.cleaned now).restoreRequired = db.restoreRequired := by
    rw [Ledger.cleaned, Ledger.restoreRequired_upsert_lastCleanupAt]
    rfl
  refine ⟨?_, ?_, ?_, ?_, ?_, ?_, ?_, hseal⟩
  · rw [Ledger.cleaned, Ledger.upsertMaintenance_eq]
    simp only [Table.rows_delete, ← decide_not, not_lt]
  · rw [Ledger.cleaned, Ledger.upsertMaintenance_eq]
    simp only [Table.rows_delete]
    congr 1
    funext c
    simp only [Ledger.credentialIsStale, Table.rows_delete]
    grind
  all_goals rw [Ledger.cleaned, Ledger.upsertMaintenance_eq]
  · simp only [Table.rows_delete, ← decide_not, not_lt]
  · simp only [Table.rows_delete, ← decide_not, not_lt]

theorem Store.cleanup_ok {now : ℤ} {db db' : Ledger} {counts : CleanupCounts}
    (h : Tx.run (Store.cleanup now) db = .ok (counts, db')) : CleanupEffect now db db' := by
  obtain ⟨counts', hrun⟩ := Store.cleanup_run (Store.cleanupTime_of_run h) db
  obtain ⟨-, rfl⟩ := Prod.mk.inj (Except.ok.inj (hrun.symm.trans h))
  exact db.cleaned_effect now

/-- What an `activate_restored_backup` that committed did. -/
structure ActivateEffect (now : ℤ) (event : Bytes) (db db' : Ledger) : Prop where
  sealed : db.restoreRequired = true
  clients : db'.clients.rows = db.clients.rows.map fun c =>
    { c with status := .revoked, revokedAt := some (c.revokedAt.getD now) }
  credentials : db'.credentials.rows = db.credentials.rows.map fun c =>
    { c with status := .revoked, validUntil := some now,
             revokedAt := some (c.revokedAt.getD now) }
  proofs : db'.proofs.rows = db.proofs.rows.map fun r =>
    if r.consumedAt = none then r.expireBy now else r
  rateEvents : db'.rateEvents = []
  auditEvents : db'.auditEvents.rows = db.auditEvents.rows ++
    [auditRow event now .restoreActivated .allPriorAuthorityRevoked none none none none]
  verifications : db'.verifications = db.verifications
  hashKeys : db'.hashKeys = db.hashKeys
  restoreRequired : db'.restoreRequired = false

theorem Store.activateRestoredBackup_ok {now : ℤ} {event : Bytes} {db db' : Ledger} {u : Unit}
    (h : Tx.run (Store.activateRestoredBackup now event) db = .ok (u, db')) :
    ActivateEffect now event db db' := by
  simp only [Store.activateRestoredBackup] at h
  rw [Tx.run_bind_ok] at h
  obtain ⟨required, db₁, h₁, h⟩ := h
  obtain ⟨-, hrequired, rfl⟩ := run_select_ok.mp h₁
  split_ifs at h with hr
  · rw [Tx.run_bind_ok] at h
    obtain ⟨_, db₂, h₂, h⟩ := h
    have hdb₂ := (Prod.mk.inj (run_change_ok.mp h₂).2).2.symm
    rw [Tx.run_bind_ok] at h
    obtain ⟨_, db₃, h₃, h⟩ := h
    have hdb₃ := (Prod.mk.inj (run_change_ok.mp h₃).2).2.symm
    rw [Tx.run_bind_ok] at h
    obtain ⟨_, db₄, h₄, h⟩ := h
    have hdb₄ := (Prod.mk.inj (run_change_ok.mp h₄).2).2.symm
    rw [Tx.run_bind_ok] at h
    obtain ⟨_, db₅, h₅, h⟩ := h
    have hdb₅ := (Prod.mk.inj (run_change_ok.mp h₅).2).2.symm
    rw [Tx.run_bind_ok] at h
    obtain ⟨_, db₆, h₆, h⟩ := h
    obtain ⟨haudit, hdb₆⟩ := run_insertAudit_ok h₆
    have hdb₇ := (Prod.mk.inj (run_change_ok.mp h).2).2.symm
    rw [hdb₂] at hdb₃
    rw [hdb₃] at hdb₄
    rw [hdb₄] at hdb₅
    rw [hdb₅] at hdb₆ haudit
    refine ⟨hrequired.symm.trans hr, ?_, ?_, ?_, ?_, ?_, ?_, ?_, ?_⟩
    · rw [hdb₇, hdb₆]
      simp only [Table.rows_update, if_true]
    · rw [hdb₇, hdb₆]
      simp only [Table.rows_update, if_true]
    · rw [hdb₇, hdb₆]
      rw [Table.rows_update _ _ (ProofRow.expireBy now) fun _ => rfl]
      simp only [decide_eq_true_eq]
    · rw [hdb₇, hdb₆]
    · rw [hdb₇]
      exact haudit
    · rw [hdb₇, hdb₆]
    · rw [hdb₇, hdb₆]
    · rw [hdb₇]
      simp only [Ledger.restoreRequired, Ledger.maintenanceValue, Table.get?_update]
      cases hg : db₆.maintenance.get? .restoreRequired with
      | none => rfl
      | some r => simp [(Table.get?_eq_some.mp hg).2]
  · simp at h

end Onceproof

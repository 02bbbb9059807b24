import Onceproof.Ledger.Authority
import Onceproof.Ledger.Secrets
import Onceproof.Ledger.Decisions
import Onceproof.Store.Checks
import Onceproof.Lib.Execution
import Onceproof.Scenario

/-!
# Exact, role-separated authentication

Two checks decide whether a request has authority. The early one, `_authenticate`, parses the
secret and compares its digest; it never looks at the client. The one under the write lock looks
at the role and at the client; it never sees the secret. `authentication_exact` says what the
early check accepts, and that the two agree on every ledger of a run.
-/

namespace Onceproof

variable {H : HashLib} {w : World} {s : SystemState} {runs : List (List SystemTrans)}
variable {p tid : ℕ} {i : Choice} {k : KeyRing}

/-- The early check, evaluated by a thread, returns a record. -/
def Authenticates (H : HashLib) (p tid : ℕ) (i : Choice) (w : World) (secret : Json) (role : Role)
    (now : ℤ) (record : CredentialRecord) : Prop :=
  (Service.authenticate H secret role now).runWith (Op.exec p tid) i w = some (.ok (some record), w)

/-- The status of a credential is current, or previous within its grace period. -/
def CredentialRow.Live (c : CredentialRow) (now : ℤ) : Prop :=
  c.status = .current ∨ c.status = .previous ∧ ∃ validUntil, c.validUntil = some validUntil ∧
    now < validUntil

theorem CredentialRow.live_iff {c : CredentialRow} {now : ℤ} :
    c.Live now ↔ credentialIsAccepted c now = true := by
  unfold CredentialRow.Live credentialIsAccepted
  cases c.status with
  | current => simp
  | revoked => simp
  | previous => cases c.validUntil <;> simp

/-! ### The early check -/

/-- The early check of a credential that was found. -/
private theorem runWith_authenticate_found (hmemory : w.memoryOf p = some k)
    (hfault : i.fault = false)
    {text id : Str} {role : Role} {now : ℤ} {c : CredentialRow}
    (hid : Service.credentialIdFromSecret text role = some id) (henc : id.encodable = true)
    (hrow : w.ledger.credentials.get? id = some c) :
    (Service.authenticate H (.str text) role now).runWith (Op.exec p tid) i w =
      some (if c.role ≠ role then .ok none else match k.keyFor c.hashKid with
        | none => .ok none
        | some key => match credentialDigest H key.val text with
          | .error e => .error e
          | .ok d => if c.secretDigest ≠ d then .ok none
            else if credentialIsAccepted c now then .ok (some (credentialFromRow c))
            else .ok none, w) := by
  have hmem : Op.memory.exec p tid i w = some (.ok k, w) := by
    rw [World.memoryOf] at hmemory
    simp [Op.exec, hmemory]
  simp only [Service.authenticate, hid, Prog.runWith_perform_bind, Op.exec, queried, orFault,
    hfault, Bool.false_eq_true, if_false, List.all_cons, List.all_nil, Bool.and_true, henc, if_true,
    hrow]
  by_cases hrole : c.role = role
  · have hrole' : ¬ (credentialFromRow c).role ≠ role := not_not.mpr hrole
    rw [if_neg hrole', if_neg (not_not.mpr hrole), Prog.runWith_perform_bind, hmem]
    dsimp only
    cases hkey : k.keyFor c.hashKid with
    | none => simp [credentialFromRow, hkey, Prog.runWith]
    | some key =>
      have hkey' : k.keyFor (credentialFromRow c).hashKid = some key := hkey
      rw [hkey']
      dsimp only
      cases hd : credentialDigest H key.val text with
      | error e => rfl
      | ok d =>
        rw [Prog.lift_ok, Prog.ret_bind, isAccepted_credentialFromRow]
        have hdigest : (credentialFromRow c).secretDigest = c.secretDigest := rfl
        rw [hdigest]
        dsimp only
        split_ifs <;> rfl
  · have hrole' : (credentialFromRow c).role ≠ role := hrole
    rw [if_pos hrole', if_pos hrole]
    rfl

/-- What the early check looks at. -/
theorem authenticates_iff (hmemory : w.memoryOf p = some k) (hfault : i.fault = false)
    {secret : Json} {role : Role} {now : ℤ} {record : CredentialRecord} :
    Authenticates H p tid i w secret role now record ↔
      ∃ text id c key, secret = .str text ∧
        Service.credentialIdFromSecret text role = some id ∧ id.encodable = true ∧
        w.ledger.credentials.get? id = some c ∧ c.role = role ∧ k.keyFor c.hashKid = some key ∧
        credentialDigest H key.val text = .ok c.secretDigest ∧
        credentialIsAccepted c now = true ∧ record = credentialFromRow c := by
  unfold Authenticates
  constructor
  · intro h
    cases secret with
    | str text =>
      cases hid : Service.credentialIdFromSecret text role with
      | none => simp [Service.authenticate, hid, Prog.runWith] at h
      | some id =>
        -- a text with a surrogate cannot be bound, and the query raises
        have henc : id.encodable = true := by
          by_contra henc
          simp [Service.authenticate, hid, Prog.runWith_perform_bind, Op.exec, queried, orFault,
            hfault, henc] at h
        cases hrow : w.ledger.credentials.get? id with
        | none =>
          simp [Service.authenticate, hid, Prog.runWith_perform_bind, Op.exec, queried, orFault,
            hfault, henc, hrow, Prog.runWith] at h
        | some c =>
          rw [runWith_authenticate_found hmemory hfault hid henc hrow] at h
          obtain ⟨h, -⟩ := Prod.mk.inj (Option.some.inj h)
          -- an answer that is not a refusal has passed every check
          have hrole : c.role = role := by
            by_contra hrole
            rw [if_pos hrole] at h
            cases h
          rw [if_neg (not_not.mpr hrole)] at h
          cases hkey : k.keyFor c.hashKid with
          | none => simp [hkey] at h
          | some key =>
            rw [hkey] at h
            dsimp only at h
            cases hd : credentialDigest H key.val text with
            | error e => simp [hd] at h
            | ok d =>
              rw [hd] at h
              dsimp only at h
              split_ifs at h with hsame hacc
              · cases h
              · obtain rfl := not_not.mp hsame
                exact ⟨text, id, c, key, rfl, hid, henc, hrow, hrole, hkey, hd, hacc,
                  (Option.some.inj (Except.ok.inj h)).symm⟩
              · cases h
    | _ => simp [Service.authenticate, Prog.runWith] at h
  · rintro ⟨text, id, c, key, rfl, hid, henc, hrow, hrole, hkey, hd, hacc, rfl⟩
    rw [runWith_authenticate_found hmemory hfault hid henc hrow]
    simp [hrole, hkey, hd, hacc]

/-- No text is accepted for two roles, in whatever ledgers and at whatever times. -/
theorem authenticates_role {p' tid' : ℕ} {i' : Choice} {w' : World} {k' : KeyRing}
    (hmemory : w.memoryOf p = some k) (hfault : i.fault = false)
    (hmemory' : w'.memoryOf p' = some k') (hfault' : i'.fault = false) {secret : Json}
    {role role' : Role} {now now' : ℤ} {record record' : CredentialRecord}
    (h : Authenticates H p tid i w secret role now record)
    (h' : Authenticates H p' tid' i' w' secret role' now' record') : role = role' := by
  obtain ⟨text, id, _, _, rfl, hid, -⟩ := (authenticates_iff hmemory hfault).mp h
  obtain ⟨_, id', _, _, htext, hid', -⟩ := (authenticates_iff hmemory' hfault').mp h'
  obtain rfl := Json.str.inj htext
  exact Service.credentialIdFromSecret_role hid hid'

/-- **The early check accepts exactly the live secrets.** -/
theorem authenticates_iff_generated (hH : H.CredentialInjective) (h : Lineage H runs s)
    (hsized : ∀ τ ∈ runs, SizedDraws τ) (hledger : w.ledger = s.world.ledger)
    (hmemory : w.memoryOf p = some k)
    (hmatch : ∀ c ∈ w.ledger.credentials, k.keyFor c.hashKid = s.world.keyring.keyFor c.hashKid)
    (hfault : i.fault = false) {secret : Json} {role : Role} {now : ℤ}
    {record : CredentialRecord} :
    Authenticates H p tid i w secret role now record ↔
      ∃ text, secret = .str text ∧ ∃ c ∈ w.ledger.credentials, c.role = role ∧ c.Live now ∧
        GeneratedFor H runs c text ∧ record = credentialFromRow c := by
  rw [authenticates_iff hmemory hfault]
  constructor
  · rintro ⟨text, id, c, key, rfl, -, -, hrow, hrole, -, hdigest, haccepted, rfl⟩
    have hc : c ∈ w.ledger.credentials := (Table.get?_eq_some.mp hrow).1
    obtain ⟨secret, hsecret⟩ := h.generated c (hledger ▸ hc)
    obtain ⟨key', -, -, -, -, -, -, hdigest'⟩ := hsecret.secret_eq hsized
    -- the digest is that of the generated secret only
    obtain ⟨-, rfl⟩ := hH hdigest hdigest'
    exact ⟨text, rfl, c, hc, hrole, CredentialRow.live_iff.mpr haccepted, hsecret, rfl⟩
  · rintro ⟨text, rfl, c, hc, rfl, hlive, hgenerated, rfl⟩
    obtain ⟨key, _, _, -, -, -, -, hdigest⟩ := hgenerated.secret_eq hsized
    obtain ⟨key', _, _, hkey, -, hkeyed⟩ := h.custody.keyed.credentials c (hledger ▸ hc)
    -- the keyring has the key that the digest was made with
    obtain ⟨rfl, -⟩ := hH hdigest hkeyed
    exact ⟨text, c.credentialId, c, key, rfl, hgenerated.parse hsized, hgenerated.encodable hsized,
      Table.get?_eq_some.mpr ⟨hc, rfl⟩, rfl, (hmatch c hc).trans hkey, hdigest,
      CredentialRow.live_iff.mp hlive, rfl⟩

/-! ### The check of a cached read -/

/-- A stored decision is served if and only if a join authorizes the request. -/
theorem cachedVerification_served_iff (hfault : i.fault = false)
    (hop : w.ledger.restoreRequired = false) {credentialId clientId key : Str}
    (hcredential : credentialId.encodable = true) (hclient : clientId.encodable = true)
    (hkey : key.encodable = true) {row : VerificationRow} {result : VerificationResult}
    (hrow : w.ledger.idempotent clientId key = some row)
    (hread : resultFromJson (.ok row.resultJson) = .ok result) :
    (Service.cachedVerification credentialId clientId (some key) row.requestFingerprint).runWith
        (Op.exec p tid) i w = some (.ok (some result), w) ↔
      w.ledger.Accepted .verification credentialId clientId i.now := by
  simp only [Service.cachedVerification, Prog.runWith_perform_bind, Op.exec, queried, orFault,
    hfault, Bool.false_eq_true, if_false, List.all_cons, List.all_nil, Bool.and_true, if_true, hop,
    hcredential]
  cases hj : w.ledger.joined credentialId .verification with
  | none =>
    exact iff_of_false (fun h => by cases h) (Ledger.not_accepted_of_joined_none _ _ hj)
  | some j =>
    obtain ⟨credential, client⟩ := j
    dsimp only
    split_ifs with hrefused
    · exact iff_of_false (fun h => by cases h) (Ledger.not_accepted_of_refused hj hrefused)
    · simp only [not_or, not_not] at hrefused
      refine iff_of_true ?_ ⟨credential, client, hj, hrefused.2.1, hrefused.1, hrefused.2.2⟩
      simp [Prog.runWith_perform_bind, Op.exec, queried, orFault, hfault, hclient, hkey, hrow,
        hread, Prog.runWith]

/-! ### The checks agree -/

/-- Stored results are decisions, which are never made about a credential. -/
theorem Lineage.readsBack (h : Lineage H runs s) :
    (∀ r ∈ s.world.ledger.proofs, r.Encodable) ∧
      s.world.ledger.ReadsBack fun r => r.reason ≠ some .credentialRejected := by
  refine h.history (P := fun _ db => (∀ r ∈ db.proofs, r.Encodable) ∧
    db.ReadsBack fun r => r.reason ≠ some .credentialRejected) ?_ ?_ ?_
  · exact ⟨fun _ hr => absurd hr Table.not_mem_empty, fun _ hv => absurd hv Table.not_mem_empty⟩
  · rintro cs db ⟨hproofs, hstored⟩
    exact ⟨fun r hr => hproofs r (Store.backup_proofs db ▸ hr),
      fun v hv => hstored v (Store.backup_verifications db ▸ hv)⟩
  · rintro cs db l db' ⟨hproofs, hstored⟩ hs -
    refine ⟨hs.proofs_encodable hproofs, hs.readsBack hproofs hstored fun a x result hdecides => ?_⟩
    rw [hdecides.2.result_eq]
    exact ConsumeProof.decision_reason _ _ _ _

/-- `consume_proof` refuses a credential if and only if no join authorizes it. -/
theorem Lineage.consumeProof_refused_iff (h : Lineage H runs s)
    (hop : s.world.ledger.restoreRequired = false) {a : ConsumeProof} {now : ℤ} {draws : Draws}
    (henc : a.credentialId.encodable = true) :
    Tx.run (Store.consumeProof a now draws) s.world.ledger =
        .ok (rejectedResult .credentialRejected draws.verificationId none none now,
          s.world.ledger) ↔
      ¬ s.world.ledger.Accepted .verification a.credentialId a.clientId now := by
  refine ⟨fun hrun => ?_, Store.consumeProof_refused hop henc⟩
  have hreason : ∀ {r : VerificationResult},
      rejectedResult .credentialRejected draws.verificationId none none now = r →
        r.reason = some .credentialRejected := by
    rintro r rfl
    rfl
  generalize hr : rejectedResult .credentialRejected draws.verificationId none none now = r at hrun
  cases Store.consumeProof_ok hrun with
  | refused _ hrefused => exact hrefused
  | replayed _ _ key row _ _ stored _ read =>
    obtain ⟨hrow, -, -⟩ := Ledger.idempotent_eq_some stored
    exact absurd (hreason hr) (h.readsBack.2 row hrow r read)
  | decided effect =>
    have hdecision := effect.result_eq ▸ hreason hr
    exact absurd hdecision (ConsumeProof.decision_reason _ _ _ _)

/-- **Exact, role-separated authentication** in a world over a ledger that was reached by
`runs`. -/
structure ExactAuthentication (H : HashLib) (runs : List (List SystemTrans)) (p tid : ℕ)
    (i : Choice) (w : World) : Prop where
  /-- Every credential has one secret. -/
  secret : ∀ c ∈ w.ledger.credentials, ∃! text, GeneratedFor H runs c text
  /-- The early check accepts exactly the secrets of the live credentials of the role. -/
  early : ∀ secret role now record, Authenticates H p tid i w secret role now record ↔
    ∃ text, secret = .str text ∧ ∃ c ∈ w.ledger.credentials, c.role = role ∧ c.Live now ∧
      GeneratedFor H runs c text ∧ record = credentialFromRow c
  /-- No text is accepted for both roles. -/
  separated : ∀ secret now now' record record',
    Authenticates H p tid i w secret .issuance now record →
      ¬ Authenticates H p tid i w secret .verification now' record'
  /-- `issue_proof` rejects a credential exactly when the early check rejects its secret. -/
  issue : ∀ c ∈ w.ledger.credentials, c.role = .issuance → ∀ text, GeneratedFor H runs c text →
    w.ledger.restoreRequired = false → ∀ record check now event,
      record.issueCredentialId = c.credentialId → record.clientId = c.clientId →
      (∃ db, Tx.run (registerHashKey record.hashKid check) w.ledger = .ok ((), db)) →
        (Tx.run (Store.issueProof record check now event) w.ledger =
            .error (.permissionError "credential_rejected") ↔
          ¬ ∃ record, Authenticates H p tid i w (.str text) .issuance now record)
  /-- `consume_proof` refuses a credential exactly when the early check rejects its secret. -/
  consume : ∀ c ∈ w.ledger.credentials, c.role = .verification → ∀ text,
    GeneratedFor H runs c text → w.ledger.restoreRequired = false → ∀ (a : ConsumeProof) now draws,
      a.credentialId = c.credentialId → a.clientId = c.clientId →
        (Tx.run (Store.consumeProof a now draws) w.ledger =
            .ok (rejectedResult .credentialRejected draws.verificationId none none now, w.ledger) ↔
          ¬ ∃ record, Authenticates H p tid i w (.str text) .verification now record)
  /-- `cached_verification` serves a decision exactly when the early check accepts the secret. -/
  cached : ∀ c ∈ w.ledger.credentials, c.role = .verification → ∀ text,
    GeneratedFor H runs c text → w.ledger.restoreRequired = false → ∀ key row result,
      key.encodable = true → w.ledger.idempotent c.clientId key = some row →
      resultFromJson (.ok row.resultJson) = .ok result →
        ((Service.cachedVerification c.credentialId c.clientId (some key)
            row.requestFingerprint).runWith (Op.exec p tid) i w = some (.ok (some result), w) ↔
          ∃ record, Authenticates H p tid i w (.str text) .verification i.now record)

/-- **Authentication is exact**, separates the roles, and agrees with the checks under the write
lock. -/
theorem authentication_exact (hH : H.CredentialInjective) (h : Lineage H runs s)
    (hsized : ∀ τ ∈ runs, SizedDraws τ) (hledger : w.ledger = s.world.ledger)
    (hmemory : w.memoryOf p = some k)
    (hmatch : ∀ c ∈ w.ledger.credentials, k.keyFor c.hashKid = s.world.keyring.keyFor c.hashKid)
    (hfault : i.fault = false) : ExactAuthentication H runs p tid i w := by
  have hearly : ∀ secret role now record, Authenticates H p tid i w secret role now record ↔
      ∃ text, secret = .str text ∧ ∃ c ∈ w.ledger.credentials, c.role = role ∧ c.Live now ∧
        GeneratedFor H runs c text ∧ record = credentialFromRow c := fun _ _ _ _ =>
    authenticates_iff_generated hH h hsized hledger hmemory hmatch hfault
  -- on the secret of a credential, the early check says what the join says
  have hagree : ∀ c ∈ w.ledger.credentials, ∀ text, GeneratedFor H runs c text → ∀ now,
      (∃ record, Authenticates H p tid i w (.str text) c.role now record) ↔
        w.ledger.Accepted c.role c.credentialId c.clientId now := by
    intro c hc text hgenerated now
    rw [hledger, h.governed.accepted_iff (hledger ▸ hc), ← CredentialRow.live_iff]
    constructor
    · rintro ⟨record, hrecord⟩
      obtain ⟨text', htext, c', hc', hrole, hlive, hgenerated', -⟩ := (hearly _ _ _ _).mp hrecord
      obtain rfl := Json.str.inj htext
      have hid : c'.credentialId = c.credentialId := by
        have hparse := hgenerated'.parse hsized
        rw [hrole, hgenerated.parse hsized] at hparse
        exact (Option.some.inj hparse).symm
      exact Table.eq_of_key_eq hc' hc hid ▸ hlive
    · exact fun hlive => ⟨_, (hearly _ _ _ _).mpr
        ⟨text, rfl, c, hc, rfl, hlive, hgenerated, rfl⟩⟩
  refine ⟨fun c hc => ?_, hearly, ?_, ?_, ?_, ?_⟩
  · obtain ⟨text, htext⟩ := h.generated c (hledger ▸ hc)
    exact ⟨text, htext, fun text' htext' => htext'.unique hH htext hsized⟩
  · intro secret now now' record record' hissue hverify
    cases authenticates_role hmemory hfault hmemory hfault hissue hverify
  · intro c hc hrole text hgenerated hop record check now event hid hclient hkey
    rw [← hrole, hagree c hc text hgenerated now, hrole, ← hid, ← hclient]
    exact Store.issueProof_rejected_iff hop hkey (hid ▸ hgenerated.encodable hsized)
  · intro c hc hrole text hgenerated hop a now draws hid hclient
    rw [← hrole, hagree c hc text hgenerated now, hrole, ← hid, ← hclient, hledger]
    exact h.consumeProof_refused_iff (hledger ▸ hop) (hid ▸ hgenerated.encodable hsized)
  · intro c hc hrole text hgenerated hop key row result hkey hrow hread
    rw [← hrole, hagree c hc text hgenerated i.now, hrole]
    have hclient : c.clientId.encodable = true := by
      obtain ⟨bytes, -, hbytes⟩ := h.clientId_eq hsized c.clientId
        (h.governed.client c (hledger ▸ hc))
      rw [hbytes, encodable_append, encodable_hexlify]
      rfl
    exact cachedVerification_served_iff hfault hop (hgenerated.encodable hsized) hclient hkey hrow
      hread

/-- A server authenticates with its own memory the two credentials of the client that it
created. -/
theorem authentication_exact_served : ∃ τ s, SystemRun plainHash τ s ∧
    s.world.ledger.credentials.rows.length = 2 ∧
      ExactAuthentication plainHash [τ] 0 2 (Scenario.choice 1001 40) s.world := by
  obtain ⟨τ, s, hrun, hcredentials, hmemory, hsized⟩ := exists_systemRun Scenario.sizedServed
    (fun τ s => s.world.ledger.credentials.rows.length = 2 ∧
      s.world.memoryOf 0 = some s.world.keyring ∧ SizedDraws τ) (by decide +kernel)
  refine ⟨τ, s, hrun, hcredentials, ?_⟩
  exact authentication_exact plainHash_ideal.credentialDigest_inj (.created hrun)
    (fun σ hσ => List.mem_singleton.mp hσ ▸ hsized) rfl hmemory (fun _ _ => rfl) rfl

end Onceproof

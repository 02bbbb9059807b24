import Onceproof.Guarantees.Authentication
import Onceproof.Ledger.Coherence
import Onceproof.Ledger.Idempotency
import Onceproof.Service.Undisturbed
import Onceproof.Scenario

/-!
# What a cleanup forgets

A cleanup is invisible to the requests that come later, except that a proof after its retention is
unknown and a key after its retention is unused (`cleanup_forgets`). It never fails, and a later
cleanup makes an earlier one superfluous (`Ledger.cleaned_cleaned`).
-/

namespace Onceproof

variable {H : HashLib} {db : Ledger} {c now : ℤ} {k : KeyRing} {draws : Draws} {event : Bytes}

/-! ### Lookups -/

namespace Ledger

/-- A credential that a cleanup drops is not accepted later. -/
theorem not_accepted_of_dropped {row : CredentialRow} (hle : c ≤ now)
    (h : db.keepsCredential c row = false) : credentialIsAccepted row now = false := by
  by_contra haccepted
  rw [Bool.not_eq_false] at haccepted
  rw [keepsCredential_of_accepted hle haccepted] at h
  cases h

/-- A join finds afterwards what it found before, if the credential is kept. -/
theorem cleaned_joined (db : Ledger) (c : ℤ) (id : Str) (role : Role) :
    (db.cleaned c).joined id role =
      (db.joined id role).filter fun x => db.keepsCredential c x.1 := by
  unfold joined
  rw [cleaned_credential, cleaned_clients]
  cases hrow : db.credentials.get? id with
  | none => rfl
  | some row =>
    by_cases hkept : db.keepsCredential c row = true
    · rw [Option.filter_some, if_pos hkept]
      dsimp only
      split_ifs
      · cases hclient : db.clients.get? row.clientId with
        | none => rfl
        | some client => exact (if_pos hkept).symm
      · rfl
    · rw [Option.filter_some, if_neg hkept]
      dsimp only
      split_ifs
      · cases hclient : db.clients.get? row.clientId with
        | none => rfl
        | some client => exact (if_neg hkept).symm
      · rfl

/-- A current credential is kept. -/
theorem cleaned_currentCredential (db : Ledger) (c : ℤ) (clientId : Str) (role : Role) :
    (db.cleaned c).currentCredential clientId role = db.currentCredential clientId role := by
  rw [currentCredential, currentCredential, cleaned_credentials_rows, List.find?_filter]
  refine congrArg (fun p => List.find? p db.credentials.rows) (funext fun row => ?_)
  rw [Bool.eq_iff_iff]
  simp only [decide_eq_true_eq, keepsCredential]
  constructor
  · exact fun h => h.2
  · exact fun h => ⟨Or.inl h.2.2, h⟩

theorem cleaned_audit_none (h : (db.auditEvents.get? (lit "ae_" ++ hexlify event)) = none) :
    ((db.cleaned c).auditEvents.get? (lit "ae_" ++ hexlify event)) = none := by
  rw [cleaned_auditEvent, h]
  rfl

/-! ### Outcomes -/

variable {α : Type}

theorem cleaned_metering (hle : c ≤ now) (clientId : Str) (operation : Operation) (limit : ℤ)
    (x : Except Error α) :
    (db.cleaned c).metering clientId operation limit now x =
      db.metering clientId operation limit now x := by
  rw [metering, metering, cleaned_rateWindow hle]

theorem cleaned_registering (kid check : Str) (x : Except Error α) :
    (db.cleaned c).registering kid check x = db.registering kid check x := by
  rw [registering, registering, cleaned_hashKeys]

/-- **Authentication** forgets nothing. A secret that cannot be encoded is no secret: the one of a
forgotten credential is rejected instead of raising. -/
theorem cleaned_authentication (hle : c ≤ now) {secret : Json} (role : Role)
    (hsecret : ∀ text, secret = .str text → text.encodable = true) :
    (db.cleaned c).authentication H k secret role now = db.authentication H k secret role now := by
  unfold authentication
  cases secret with
  | str text =>
    dsimp only
    cases hid : Service.credentialIdFromSecret text role with
    | none => rfl
    | some id =>
      dsimp only
      congr 1
      rw [cleaned_credential]
      cases hrow : db.credentials.get? id with
      | none => rfl
      | some row =>
        by_cases hkept : db.keepsCredential c row = true
        · rw [Option.filter_some, if_pos hkept]
        · rw [Option.filter_some, if_neg hkept]
          -- a dropped credential was refused anyway, after the digest was computed
          have hrejected := not_accepted_of_dropped hle (Bool.not_eq_true _ ▸ hkept)
          dsimp only
          by_cases hrole : row.role ≠ role
          · rw [if_pos hrole]
          · rw [if_neg hrole]
            cases hkey : k.keyFor row.hashKid with
            | none => rfl
            | some key =>
              obtain ⟨d, hd⟩ := exists_credentialDigest (H := H) key (hsecret text rfl)
              dsimp only
              rw [hd]
              dsimp only
              rw [hrejected, if_neg Bool.false_ne_true, ite_self]
  | _ => rfl

/-- **An issuance** of a record that is not stored yet. -/
theorem cleaned_issueOutcome (hle : c ≤ now) {record : ProofRecord} (check : Str)
    (hdigest : db.proofs.get? record.tokenDigest = none)
    (htag : ∀ r ∈ db.proofs, r.proofTag ≠ record.proofTag)
    (hevent : db.auditEvents.get? (lit "ae_" ++ hexlify event) = none) :
    (db.cleaned c).issueOutcome record check now event =
      db.issueOutcome record check now event := by
  have hstoring : ∀ x : Except Error ProofRecord, db.storing record x = x := by
    refine fun x => if_neg ?_
    rintro (h | h)
    · obtain ⟨r, hr, hsame⟩ := List.mem_map.mp h
      exact htag r hr hsame
    · rw [hdigest] at h
      cases h
  have hstoring' : ∀ x : Except Error ProofRecord, (db.cleaned c).storing record x = x := by
    refine fun x => if_neg ?_
    rintro (h | h)
    · obtain ⟨r, hr, hsame⟩ := List.mem_map.mp h
      rw [(db.cleaned_effect c).proofs] at hr
      exact htag r (List.mem_filter.mp hr).1 hsame
    · rw [cleaned_proof, hdigest] at h
      cases h
  rw [issueOutcome, issueOutcome, cleaned_restoreRequired, cleaned_registering, cleaned_joined]
  congr 3
  cases hjoined : db.joined record.issueCredentialId .issuance with
  | none => rfl
  | some x =>
    obtain ⟨credential, client⟩ := x
    by_cases hkept : db.keepsCredential c credential = true
    · rw [Option.filter_some, if_pos hkept]
      dsimp only
      rw [cleaned_metering hle, hstoring, hstoring', auditing_of_fresh hevent,
        auditing_of_fresh (cleaned_audit_none hevent)]
    · -- a credential that was dropped is not accepted either
      rw [Option.filter_some, if_neg hkept]
      have hrejected := not_accepted_of_dropped hle (Bool.not_eq_true _ ▸ hkept)
      dsimp only
      rw [if_pos (show credential.clientId ≠ record.clientId ∨
        ¬ credentialIsAccepted credential now = true from Or.inr (by rw [hrejected]; exact
          Bool.false_ne_true)), ite_self]

/-- **A rotation** to a credential id that is not taken. -/
theorem cleaned_rotateOutcome {a : RotateCredential}
    (hid : db.credentials.get? a.replacement.credentialId = none)
    (hevent : db.auditEvents.get? (lit "ae_" ++ hexlify event) = none) :
    (db.cleaned c).rotateOutcome a event = db.rotateOutcome a event := by
  -- current credentials are not dropped
  have hcurrent : ∀ id, (∃ row ∈ (db.cleaned c).credentials.rows,
      (row.clientId = a.replacement.clientId ∧ row.role = a.replacement.role ∧
        row.status = .current) ∧ row.credentialId ≠ id) ↔
      ∃ row ∈ db.credentials.rows, (row.clientId = a.replacement.clientId ∧
        row.role = a.replacement.role ∧ row.status = .current) ∧ row.credentialId ≠ id := by
    intro id
    rw [cleaned_credentials_rows]
    constructor
    · rintro ⟨row, hrow, h⟩
      exact ⟨row, (List.mem_filter.mp hrow).1, h⟩
    · rintro ⟨row, hrow, h⟩
      refine ⟨row, List.mem_filter.mpr ⟨hrow, ?_⟩, h⟩
      rw [keepsCredential, decide_eq_true_eq]
      exact Or.inl h.1.2.2
  have hreplacing : ∀ (id : Str) (x : Except Error (Str × ℤ)),
      (db.cleaned c).replacing a.replacement id x = db.replacing a.replacement id x := by
    intro id x
    rw [replacing, replacing, cleaned_clients, cleaned_credential, hid]
    refine if_congr (or_congr Iff.rfl (or_congr (hcurrent id) Iff.rfl)) rfl rfl
  have haudit : ∀ x : Except Error (Str × ℤ), (db.cleaned c).auditing event x =
      db.auditing event x := by
    intro x
    rw [auditing_of_fresh hevent, auditing_of_fresh (cleaned_audit_none hevent)]
  unfold rotateOutcome
  simp only [cleaned_restoreRequired, cleaned_registering, cleaned_clients,
    cleaned_currentCredential, hreplacing, haudit]

/-- **A revocation.** -/
theorem cleaned_revokeOutcome (clientId : Str)
    (hevent : db.auditEvents.get? (lit "ae_" ++ hexlify event) = none) :
    (db.cleaned c).revokeOutcome clientId event = db.revokeOutcome clientId event := by
  have haudit : (db.cleaned c).auditing event (.ok true : Except Error Bool) =
      db.auditing event (.ok true) := by
    rw [auditing_of_fresh hevent, auditing_of_fresh (cleaned_audit_none hevent)]
  unfold revokeOutcome
  simp only [cleaned_restoreRequired, cleaned_clients, haudit]

/-- The stored decision of a key that is still remembered. -/
theorem cleaned_storedFor {a : ConsumeProof}
    (hkept : ∀ key row, a.idempotencyKey = some key → db.idempotent a.clientId key = some row →
      c - idempotencyRetentionSeconds ≤ row.createdAt) :
    (db.cleaned c).storedFor a = db.storedFor a := by
  unfold storedFor
  cases hkey : a.idempotencyKey with
  | none => rfl
  | some key =>
    dsimp only
    unfold storedDecision
    cases hrow : db.idempotent a.clientId key with
    | none => rw [cleaned_idempotent_none hrow]
    | some row => rw [cleaned_idempotent hrow (hkept key row hkey hrow)]

/-- **A key after its retention** is unused. -/
theorem cleaned_storedFor_forgotten (hunique : db.KeysUnique) {a : ConsumeProof} {key : Str}
    {row : VerificationRow} (hkey : a.idempotencyKey = some key)
    (hrow : db.idempotent a.clientId key = some row)
    (hold : row.createdAt < c - idempotencyRetentionSeconds)
    (hclient : a.clientId.encodable = true) (hencodable : key.encodable = true) :
    (db.cleaned c).storedFor a = .ok none := by
  have hnone : (db.cleaned c).idempotent a.clientId key = none := by
    rw [idempotent, (db.cleaned_effect c).verifications, List.find?_eq_none]
    intro v hv hsame
    obtain ⟨hmem, hkept⟩ := List.mem_filter.mp hv
    obtain ⟨hclientId, hv'⟩ := of_decide_eq_true hsame
    have hfound := hunique.idempotent (v := v) hmem hv'
    rw [hclientId, hrow] at hfound
    obtain rfl := Option.some.inj hfound
    have hle := of_decide_eq_true hkept
    omega
  rw [storedFor, hkey]
  dsimp only
  rw [storedDecision, if_pos ⟨hclient, hencodable⟩, hnone]

/-- The row of a proof that is still remembered. -/
theorem cleaned_proofOf {clientId D : Str}
    (hkept : ∀ r, db.proofOf clientId D = some r → c - proofRetentionSeconds ≤ r.expiresAt) :
    (db.cleaned c).proofOf clientId D = db.proofOf clientId D := by
  unfold proofOf at hkept ⊢
  rw [cleaned_proof]
  cases hrow : db.proofs.get? D with
  | none => rfl
  | some r =>
    rw [hrow] at hkept
    by_cases howner : r.clientId = clientId
    · rw [Option.filter_some, if_pos (decide_eq_true (hkept r (if_pos (decide_eq_true howner))))]
    · have hother : (some r).filter (fun r => decide (r.clientId = clientId)) = none :=
        if_neg (by simpa using howner)
      rw [hother, Option.filter_some]
      split_ifs
      · exact hother
      · rfl

/-- **A proof after its retention** is unknown. -/
theorem cleaned_decisionOn_forgotten {a : ConsumeProof} {r : ProofRow}
    (hrow : db.proofOf a.clientId a.tokenDigest = some r)
    (hold : r.expiresAt < c - proofRetentionSeconds) :
    (db.cleaned c).decisionOn a now draws =
      rejectedResult .invalid draws.verificationId none (some a.clientId) now := by
  have hnone : (db.cleaned c).proofOf a.clientId a.tokenDigest = none := by
    unfold proofOf at hrow ⊢
    rw [cleaned_proof]
    cases hget : db.proofs.get? a.tokenDigest with
    | none => rfl
    | some r' =>
      rw [hget] at hrow
      obtain ⟨hr, -⟩ := Option.filter_eq_some_iff.mp hrow
      obtain rfl := Option.some.inj hr
      have hdropped : ¬ decide (c - proofRetentionSeconds ≤ r'.expiresAt) = true := by
        rw [decide_eq_true_eq]
        omega
      rw [Option.filter_some, if_neg hdropped]
      rfl
  rw [decisionOn, hnone]
  rfl

/-- **A verification** of a proof and under a key that are still remembered. -/
theorem cleaned_consumeOutcome (hle : c ≤ now) {a : ConsumeProof}
    (hproof : ∀ r, db.proofOf a.clientId a.tokenDigest = some r →
      c - proofRetentionSeconds ≤ r.expiresAt)
    (hkey : ∀ key row, a.idempotencyKey = some key → db.idempotent a.clientId key = some row →
      c - idempotencyRetentionSeconds ≤ row.createdAt)
    (hid : db.verifications.get? draws.verificationId = none)
    (hevent : db.auditEvents.get? (lit "ae_" ++ hexlify draws.event) = none) :
    (db.cleaned c).consumeOutcome a now draws = db.consumeOutcome a now draws := by
  have hid' : (db.cleaned c).verifications.get? draws.verificationId = none := by
    rw [cleaned_verification, hid]
    rfl
  have hdecision : (db.cleaned c).decisionOn a now draws = db.decisionOn a now draws := by
    rw [decisionOn, decisionOn, cleaned_proofOf hproof]
  rw [consumeOutcome, consumeOutcome, cleaned_restoreRequired, cleaned_joined,
    cleaned_storedFor hkey, hdecision]
  congr 2
  cases hjoined : db.joined a.credentialId .verification with
  | none => rfl
  | some x =>
    obtain ⟨credential, client⟩ := x
    by_cases hkept : db.keepsCredential c credential = true
    · rw [Option.filter_some, if_pos hkept]
      dsimp only
      simp only [cleaned_metering hle, deciding, hid, hid', auditing_of_fresh hevent,
        auditing_of_fresh (cleaned_audit_none hevent)]
    · rw [Option.filter_some, if_neg hkept]
      have hrejected := not_accepted_of_dropped hle (Bool.not_eq_true _ ▸ hkept)
      dsimp only
      rw [if_pos (show credential.clientId ≠ a.clientId ∨ client.status ≠ .active ∨
        ¬ credentialIsAccepted credential now = true from Or.inr (Or.inr (by
          rw [hrejected]
          exact Bool.false_ne_true)))]

/-- The decision on a request that passed its checks, or why there is none. -/
def charged (db : Ledger) (a : ConsumeProof) (limit now : ℤ) (draws : Draws) :
    Except Error VerificationResult :=
  db.metering a.clientId .verify limit now <|
    binding [a.tokenDigest] <|
      binding ([draws.verificationId, a.clientId, a.credentialId, a.requestFingerprint] ++
          (db.decisionOn a now draws).witness.proofTag.toList ++ a.idempotencyKey.toList) <|
        db.deciding draws (.ok (db.decisionOn a now draws))

/-- **The decision on a forgotten proof**: where there is one, the proof is unknown. -/
theorem cleaned_charged_forgotten (hle : c ≤ now) {a : ConsumeProof} {r : ProofRow}
    (hrow : db.proofOf a.clientId a.tokenDigest = some r) (htag : r.proofTag.encodable = true)
    (hold : r.expiresAt < c - proofRetentionSeconds)
    (hid : db.verifications.get? draws.verificationId = none)
    (hevent : db.auditEvents.get? (lit "ae_" ++ hexlify draws.event) = none) (limit : ℤ) :
    (db.cleaned c).charged a limit now draws = db.charged a limit now draws ∨
      db.charged a limit now draws = .ok (db.decisionOn a now draws) ∧
        (db.cleaned c).charged a limit now draws =
          .ok (rejectedResult .invalid draws.verificationId none (some a.clientId) now) := by
  have hid' : (db.cleaned c).verifications.get? draws.verificationId = none := by
    rw [cleaned_verification, hid]
    rfl
  have htags : (db.decisionOn a now draws).witness.proofTag.toList.all Str.encodable = true := by
    refine List.all_eq_true.mpr fun tag ht => ?_
    obtain ⟨record, hrecord, hsame⟩ := ConsumeProof.decision_tag (Option.mem_toList.mp ht)
    rw [hrow] at hrecord
    obtain rfl := Option.some.inj hrecord
    rw [← hsame]
    exact htag
  unfold charged
  rw [cleaned_metering hle, cleaned_decisionOn_forgotten hrow hold, deciding_of_fresh hid hevent,
    deciding_of_fresh hid' (cleaned_audit_none hevent)]
  -- the tag of the row is the only text that one statement binds and the other does not
  have hparams : ([draws.verificationId, a.clientId, a.credentialId, a.requestFingerprint] ++
        (rejectedResult .invalid draws.verificationId none (some a.clientId)
          now).witness.proofTag.toList ++ a.idempotencyKey.toList).all Str.encodable =
      ([draws.verificationId, a.clientId, a.credentialId, a.requestFingerprint] ++
        (db.decisionOn a now draws).witness.proofTag.toList ++
          a.idempotencyKey.toList).all Str.encodable := by
    rw [List.all_append, List.all_append, List.all_append, List.all_append, htags]
    rfl
  rcases binding_cases _ _ (.ok (rejectedResult .invalid draws.verificationId none
    (some a.clientId) now)) (.ok (db.decisionOn a now draws)) hparams with hsame | ⟨hnew, hdb⟩
  · exact Or.inl (by rw [hsame])
  · rw [hnew, hdb]
    rcases binding_cases [a.tokenDigest] [a.tokenDigest] (.ok (rejectedResult .invalid
      draws.verificationId none (some a.clientId) now)) (.ok (db.decisionOn a now draws)) rfl
      with hsame | ⟨hnew, hdb⟩
    · exact Or.inl (by rw [hsame])
    · rw [hnew, hdb]
      rcases db.metering_cases a.clientId .verify limit now (.ok (rejectedResult .invalid
        draws.verificationId none (some a.clientId) now)) (.ok (db.decisionOn a now draws))
        with hsame | ⟨hnew, hdb⟩
      · exact Or.inl hsame
      · exact Or.inr ⟨hdb, hnew⟩

/-- **A verification of a forgotten proof**: where it would have been decided on the row of the
proof, the proof is unknown. Everything else is answered as before. -/
theorem cleaned_consumeOutcome_forgotten (hle : c ≤ now) {a : ConsumeProof} {r : ProofRow}
    (hrow : db.proofOf a.clientId a.tokenDigest = some r) (htag : r.proofTag.encodable = true)
    (hold : r.expiresAt < c - proofRetentionSeconds)
    (hkey : ∀ key row, a.idempotencyKey = some key → db.idempotent a.clientId key = some row →
      c - idempotencyRetentionSeconds ≤ row.createdAt)
    (hid : db.verifications.get? draws.verificationId = none)
    (hevent : db.auditEvents.get? (lit "ae_" ++ hexlify draws.event) = none) :
    (db.cleaned c).consumeOutcome a now draws = db.consumeOutcome a now draws ∨
      db.consumeOutcome a now draws = .ok (db.decisionOn a now draws) ∧
        (db.cleaned c).consumeOutcome a now draws =
          .ok (rejectedResult .invalid draws.verificationId none (some a.clientId) now) := by
  have hcharged := cleaned_charged_forgotten hle hrow htag hold hid hevent
  unfold consumeOutcome
  rw [cleaned_restoreRequired, cleaned_joined, cleaned_storedFor hkey]
  by_cases hsealed : db.restoreRequired = true
  · rw [if_pos hsealed, if_pos hsealed]
    exact Or.inl rfl
  rw [if_neg hsealed, if_neg hsealed]
  unfold binding
  by_cases hcredential : [a.credentialId].all Str.encodable = true
  · rw [if_pos hcredential, if_pos hcredential]
    cases hjoined : db.joined a.credentialId .verification with
    | none => exact Or.inl rfl
    | some x =>
      obtain ⟨credential, client⟩ := x
      rw [Option.filter_some]
      dsimp only
      by_cases hrefused : credential.clientId ≠ a.clientId ∨ client.status ≠ .active ∨
          ¬ credentialIsAccepted credential now = true
      · rw [if_pos hrefused]
        left
        by_cases hkept : db.keepsCredential c credential = true
        · rw [if_pos hkept]
          dsimp only
          rw [if_pos hrefused]
        · rw [if_neg hkept]
      -- an accepted credential is kept by every cleanup before
      · have haccepted : credentialIsAccepted credential now = true := by
          by_contra hrejected
          exact hrefused (Or.inr (Or.inr hrejected))
        have hkept : db.keepsCredential c credential = true :=
          keepsCredential_of_accepted hle haccepted
        rw [if_pos hkept, if_neg hrefused]
        dsimp only
        rw [if_neg hrefused]
        cases db.storedFor a with
        | error e => exact Or.inl rfl
        | ok cached =>
          cases cached with
          | some cached => exact Or.inl rfl
          | none => exact hcharged client.verifyLimitPerMinute
  · rw [if_neg hcredential, if_neg hcredential]
    exact Or.inl rfl

/-- **A verification under a forgotten key** is answered as one without a key. -/
theorem cleaned_consumeOutcome_unused {a : ConsumeProof} {key : Str}
    (hkey : a.idempotencyKey = some key) (hencodable : key.encodable = true)
    (hstored : (db.cleaned c).storedFor a = .ok none) :
    (db.cleaned c).consumeOutcome a now draws =
      (db.cleaned c).consumeOutcome { a with idempotencyKey := none } now draws := by
  -- a free key changes nothing but the row that is stored
  have hcharged : ∀ limit, (db.cleaned c).charged a limit now draws =
      (db.cleaned c).charged { a with idempotencyKey := none } limit now draws := by
    intro limit
    have hdecision : (db.cleaned c).decisionOn { a with idempotencyKey := none } now draws =
        (db.cleaned c).decisionOn a now draws := rfl
    have hparams : ∀ params : List Str, (params ++ (some key).toList).all Str.encodable =
        (params ++ (none : Option Str).toList).all Str.encodable := by
      intro params
      rw [List.all_append, List.all_append]
      simp only [Option.toList_some, Option.toList_none, List.all_cons, List.all_nil, hencodable,
        Bool.and_true]
    unfold charged
    rw [hdecision, hkey]
    congr 2
    unfold binding
    rw [hparams]
  have hstored' : (db.cleaned c).storedFor { a with idempotencyKey := none } = .ok none := rfl
  unfold consumeOutcome
  rw [hstored, hstored']
  congr 2
  cases (db.cleaned c).joined a.credentialId .verification with
  | none => rfl
  | some x =>
    dsimp only
    split_ifs
    · rfl
    · exact hcharged x.2.verifyLimitPerMinute

/-! ### The guarantee -/

/-- The proof of a request is unknown, or within its retention at `c`. -/
def RemembersProof (db : Ledger) (c : ℤ) (a : ConsumeProof) : Prop :=
  ∀ r, db.proofOf a.clientId a.tokenDigest = some r → c - proofRetentionSeconds ≤ r.expiresAt

/-- The key of a request is not in use, or within its retention at `c`. -/
def RemembersKey (db : Ledger) (c : ℤ) (a : ConsumeProof) : Prop :=
  ∀ key row, a.idempotencyKey = some key → db.idempotent a.clientId key = some row →
    c - idempotencyRetentionSeconds ≤ row.createdAt

/-- No row has one of the ids that a transaction drew. -/
structure Untaken (db : Ledger) (draws : Draws) : Prop where
  verification : db.verifications.get? draws.verificationId = none
  event : db.auditEvents.get? (lit "ae_" ++ hexlify draws.event) = none

/-- **What the requests at a reading `now` notice** of a cleanup at a time `c` before it. -/
structure CleanedFor (H : HashLib) (db : Ledger) (c now : ℤ) : Prop where
  /-- The cleanup ends well. -/
  cleaned : ∃ counts, Tx.run (Store.cleanup c) db = .ok (counts, db.cleaned c)
  /-- A later cleanup does not notice it. -/
  superseded : (db.cleaned c).cleaned now = db.cleaned now
  /-- The same secrets authenticate, if they can be encoded. -/
  authentication : ∀ k text role, text.encodable = true →
    (db.cleaned c).authentication H k (.str text) role now =
      db.authentication H k (.str text) role now
  /-- An issuance of a new record, with a new event id, ends the same way. -/
  issue : ∀ (record : ProofRecord) (check : Str) (draws : Draws),
    db.proofs.get? record.tokenDigest = none → (∀ r ∈ db.proofs, r.proofTag ≠ record.proofTag) →
    db.Untaken draws → (Store.issueProof record check now draws.event).outcome (db.cleaned c) =
      (Store.issueProof record check now draws.event).outcome db
  /-- So does a rotation to a new credential. -/
  rotate : ∀ (a : RotateCredential) (draws : Draws),
    db.credentials.get? a.replacement.credentialId = none → db.Untaken draws →
    (Store.rotateCredential a draws.event).outcome (db.cleaned c) =
      (Store.rotateCredential a draws.event).outcome db
  /-- So does a revocation. -/
  revoke : ∀ (clientId : Str) (draws : Draws), db.Untaken draws →
    (Store.revokeClient clientId now draws.event).outcome (db.cleaned c) =
      (Store.revokeClient clientId now draws.event).outcome db
  /-- So does a verification of a proof and under a key that are remembered. -/
  verify : ∀ (a : ConsumeProof) (draws : Draws), db.RemembersProof c a → db.RemembersKey c a →
    db.Untaken draws → (Store.consumeProof a now draws).outcome (db.cleaned c) =
      (Store.consumeProof a now draws).outcome db
  /-- A proof that is forgotten is unknown: a decision about it is a rejection as `invalid`. -/
  forgottenProof : ∀ (a : ConsumeProof) (draws : Draws), ¬ db.RemembersProof c a →
    db.RemembersKey c a → db.Untaken draws →
    (Store.consumeProof a now draws).outcome (db.cleaned c) =
        (Store.consumeProof a now draws).outcome db ∨
      (Store.consumeProof a now draws).outcome db = .ok (db.decisionOn a now draws) ∧
        (Store.consumeProof a now draws).outcome (db.cleaned c) =
          .ok (rejectedResult .invalid draws.verificationId none (some a.clientId) now)
  /-- A key that is forgotten is no longer in use. -/
  forgottenKey : ∀ (a : ConsumeProof) (draws : Draws), ¬ db.RemembersKey c a →
    a.clientId.encodable = true → (∀ key, a.idempotencyKey = some key → key.encodable = true) →
    (Store.consumeProof a now draws).outcome (db.cleaned c) =
      (Store.consumeProof { a with idempotencyKey := none } now draws).outcome (db.cleaned c)

theorem cleanedFor (hunique : db.KeysUnique) (hencodable : ∀ r ∈ db.proofs, r.Encodable)
    (hc : CleanupTime c) (hle : c ≤ now) : CleanedFor H db c now where
  cleaned := Store.cleanup_run hc db
  superseded := cleaned_cleaned hle
  authentication k text role htext :=
    cleaned_authentication hle role fun t ht => Json.str.inj ht ▸ htext
  issue record check draws hdigest htag hfree := by
    rw [Store.issueProof_outcome, Store.issueProof_outcome]
    exact cleaned_issueOutcome hle check hdigest htag hfree.event
  rotate a draws hid hfree := by
    rw [Store.rotateCredential_outcome, Store.rotateCredential_outcome]
    exact cleaned_rotateOutcome hid hfree.event
  revoke clientId draws hfree := by
    rw [Store.revokeClient_outcome, Store.revokeClient_outcome]
    exact cleaned_revokeOutcome clientId hfree.event
  verify a draws hproof hkey hfree := by
    rw [Store.consumeProof_outcome, Store.consumeProof_outcome]
    exact cleaned_consumeOutcome hle hproof hkey hfree.verification hfree.event
  forgottenProof a draws hproof hkey hfree := by
    rw [Store.consumeProof_outcome, Store.consumeProof_outcome]
    simp only [RemembersProof, not_forall, not_le] at hproof
    obtain ⟨r, hrow, hold⟩ := hproof
    have hmem : r ∈ db.proofs := by
      obtain ⟨hget, -⟩ := Option.filter_eq_some_iff.mp hrow
      exact (Table.get?_eq_some.mp hget).1
    exact cleaned_consumeOutcome_forgotten hle hrow (hencodable r hmem).proofTag hold hkey
      hfree.verification hfree.event
  forgottenKey a draws hkey hclient hkeys := by
    rw [Store.consumeProof_outcome, Store.consumeProof_outcome]
    simp only [RemembersKey, not_forall, not_le] at hkey
    obtain ⟨key, row, hkey, hrow, hold⟩ := hkey
    exact cleaned_consumeOutcome_unused hkey (hkeys key hkey)
      (cleaned_storedFor_forgotten hunique hkey hrow hold hclient (hkeys key hkey))

end Ledger

variable {runs : List (List SystemTrans)} {s : SystemState}

/-- The keys of an instance, restored or not. -/
theorem Lineage.keysUnique (h : Lineage H runs s) : s.world.ledger.KeysUnique := by
  refine h.history (P := fun _ db => db.KeysUnique) keysUnique_empty ?_ ?_
  · intro cs db hunique v hv v' hv'
    rw [Store.backup_verifications] at hv hv'
    exact hunique v hv v' hv'
  · exact fun hunique hs _ => hunique.step hs

/-- **What a cleanup forgets.** On the ledger of an instance, restored or not, a cleanup at any
time that SQLite can bind makes no difference to what comes later, except for the proofs and the
keys that are past their retentions. -/
theorem cleanup_forgets (h : Lineage H runs s) (hc : CleanupTime c) (hle : c ≤ now) :
    s.world.ledger.CleanedFor H c now :=
  Ledger.cleanedFor h.keysUnique h.readsBack.1 hc hle

/-- A proof is issued and accepted under a key. -/
def Scenario.acceptedOnce : List SystemMove :=
  served ++ thread 0 2 10 (.api (.issueProof (issueRequest 25))) 1001 40 ++
    thread 0 3 10 (.api (.verifyProof (verifyRequest 28 (proof 47) (lit "login")
      (some (lit "key"))))) 1002 60

/-- A cleanup forgets an accepted proof, and not the key of its verification. -/
theorem cleanup_forgets_served : ∃ τ s, SystemRun plainHash τ s ∧
    s.world.ledger.proofs.rows.length = 1 ∧ (s.world.ledger.cleaned 5000).proofs.rows = [] ∧
      (s.world.ledger.cleaned 5000).verifications.rows.length = 1 ∧
        s.world.ledger.CleanedFor plainHash 5000 6000 := by
  obtain ⟨τ, s, hrun, hproofs, hcleaned, hkept⟩ := exists_systemRun Scenario.acceptedOnce
    (fun _ s => s.world.ledger.proofs.rows.length = 1 ∧
      (s.world.ledger.cleaned 5000).proofs.rows = [] ∧
        (s.world.ledger.cleaned 5000).verifications.rows.length = 1) (by decide +kernel)
  exact ⟨τ, s, hrun, hproofs, hcleaned, hkept, cleanup_forgets (.created hrun) (by decide)
    (by decide)⟩

end Onceproof

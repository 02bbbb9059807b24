import Onceproof.Guarantees.Authentication
import Onceproof.Guarantees.Lifecycle
import Onceproof.Guarantees.ServedBodies
import Onceproof.Ledger.Authority
import Onceproof.Ledger.Cleaning
import Onceproof.Ledger.Published
import Onceproof.Service.Undisturbed

/-!
# No premature loss

A proof that was issued stays verifiable until it is accepted, its client is revoked or it expires.
No other step of the ledger changes its row (`IssuedIn.kept`), the key of the row stays known to
every serving process, and so a verification with the bindings of the receipt and an accepted
credential of the client is accepted (`proof_not_lost`).
-/

namespace Onceproof

variable {H : HashLib} {w : World} {p : Str} {c : ProofRecord} {τ₁ τ₂ : List SystemTrans}
variable {u : SystemTrans} {s : SystemState} {runs : List (List SystemTrans)}
variable {db db' : Ledger} {l : Commit} {D : Str} {r : ProofRow}

/-! ### The row of the proof -/

/-- **A step leaves a live proof alone**, unless it accepts the proof, revokes its client or
activates a restored backup, or forgets the proof after its retention. -/
theorem LedgerStep.keeps_proof (hs : LedgerStep db l db') (hrow : db.proofs.get? D = some r)
    (hunsealed : db.restoreRequired = false)
    (haccepted : ∀ result, ¬ AcceptedAs D result ⟨db, l, db'⟩)
    (hrevoked : ∀ now, l.call ≠ .revokeClient r.clientId now)
    (hretained : ∀ now, l.call = .cleanup now → now - proofRetentionSeconds ≤ r.expiresAt) :
    db'.proofs.get? D = some r := by
  generalize hrow' : db'.proofs.get? D = o'
  have hproof := hs.proof D
  rw [hrow, hrow'] at hproof
  cases hproof with
  | same => rfl
  | consumed label digest effect verified =>
    exact absurd ⟨_, _, ⟨label, effect⟩, digest, verified⟩ (haccepted _)
  | shortened now live label =>
    rcases label with ⟨x, rfl⟩ | ⟨x, rfl⟩
    · exact absurd rfl (hrevoked now)
    · cases hs.effect with
      | activate effect =>
        rw [effect.sealed] at hunsealed
        cases hunsealed
  | forgotten label stale =>
    subst label
    have hle := hretained _ rfl
    omega

namespace IssuedIn

/-- The ledger is not sealed after an issuance. -/
theorem unsealed_dst (h : IssuedIn H w p c τ₁ u τ₂ s) :
    u.dst.world.ledger.restoreRequired = false := by
  obtain ⟨tid, pid, q, record, check, i, hl, -⟩ := h.commit
  have heffect := issueCommit_effect h.run hl
  rw [Ledger.restoreRequired, Ledger.maintenanceValue, heffect.maintenance]
  exact heffect.operational

/-- **The run lemma**: the row of the proof is the one that was stored. -/
theorem kept (hH : H.Ideal) (h : IssuedIn H w p c τ₁ u τ₂ s)
    (hunaccepted : ∀ r ∈ freshResults p c.clientId τ₂, r.verified = false)
    (hunrevoked : ∀ t ∈ commits τ₂, ∀ now, t.label.call ≠ .revokeClient c.clientId now)
    (hretained : ∀ t ∈ commits τ₂, ∀ now, t.label.call = .cleanup now →
      now - proofRetentionSeconds ≤ c.expiresAt) :
    s.world.ledger.proofs.get? c.tokenDigest = some c.toRow ∧
      s.world.ledger.restoreRequired = false := by
  induction τ₂ using List.reverseRecOn generalizing s with
  | nil =>
    obtain rfl := h.after.eq_of_nil
    exact ⟨h.row_dst, h.unsealed_dst⟩
  | append_singleton τ₂ t ih =>
    obtain ⟨-, hstep, rfl⟩ := h.after.of_snoc
    have hresults : freshResults p c.clientId (τ₂ ++ [t]) =
        freshResults p c.clientId τ₂ ++ freshResults p c.clientId [t] := List.filterMap_append
    rw [commits_append] at hunrevoked hretained
    obtain ⟨hrow, hunsealed⟩ := ih h.cut
      (fun r hr => hunaccepted r (by rw [hresults]; exact List.mem_append_left _ hr))
      (fun t ht => hunrevoked t (List.mem_append_left _ ht))
      (fun t ht => hretained t (List.mem_append_left _ ht))
    rcases system_ledger hstep with ⟨cm, hcm, hs⟩ | ⟨hcm, hledger⟩
    · have hcommits : (⟨t.src.world.ledger, cm, t.dst.world.ledger⟩ : Trans Ledger Commit) ∈
          commits τ₂ ++ commits [t] := by
        refine List.mem_append_right _ ?_
        simp [commits, projectTrans, hcm]
      refine ⟨hs.keeps_proof hrow hunsealed (fun result haccepted => ?_)
        (hunrevoked _ hcommits) (hretained _ hcommits), run_unsealed (.single hs) hunsealed⟩
      -- an acceptance of the proof is one of its fresh results
      have hfresh := h.freshResult_of_accepted hH hcm haccepted fun r hr => by
        rw [hrow] at hr
        exact Option.some.inj hr ▸ c.toRow_of
      obtain ⟨a, x, -, -, hverified⟩ := haccepted
      have hmem : result ∈ freshResults p c.clientId (τ₂ ++ [t]) := by
        rw [hresults]
        refine List.mem_append_right _ ?_
        rw [freshResults, List.filterMap_cons_some hfresh]
        exact List.mem_cons_self
      rw [hunaccepted result hmem] at hverified
      cases hverified
    · rw [← hledger]
      exact ⟨hrow, hunsealed⟩

end IssuedIn

/-! ### The request -/

/-- The verification of a proof with the bindings of its receipt. -/
def ProofReceipt.request (r : ProofReceipt) (proof : Str) (secret key : Json) : VerifyRequest where
  verificationSecret := secret
  proof := .str proof
  purpose := .str r.purpose
  audience := .str r.audience
  subject := .str r.subject
  idempotencyKey := key

/-- The claims of a receipt. -/
def ProofReceipt.claims (r : ProofReceipt) : ProofClaims where
  clientId := r.clientId
  subject := r.subject
  purpose := r.purpose
  audience := r.audience
  issuedAt := r.issuedAt
  expiresAt := r.expiresAt

/-- A verification finds what it needs besides the proof: a serving process that accepts its
credential, a key that is not in use, a free slot of the quota, and ids that are not taken. -/
structure World.Admits (H : HashLib) (w : World) (p : ℕ) (clientId : Str) (secret key : Json)
    (now : ℤ) (draws : Draws) : Prop where
  serving : w.Serving p
  authenticated : ∃ k record, w.memoryOf p = some k ∧ record.clientId = clientId ∧
    w.ledger.authentication H k secret .verification now = .ok (some record)
  key : ∃ idempotencyKey, Service.idempotencyKey key = .ok idempotencyKey ∧
    ∀ t ∈ idempotencyKey, w.ledger.idempotent clientId t = none
  slot : ∀ client, w.ledger.clients.get? clientId = some client →
    (w.ledger.rateWindow clientId .verify (now - 60)).length < client.verifyLimitPerMinute
  verificationId : w.ledger.verifications.get? draws.verificationId = none
  event : w.ledger.auditEvents.get? (lit "ae_" ++ hexlify draws.event) = none

variable {pid tid n : ℕ} {o : Outside} {k : KeyRing} {now t : ℤ} {draws : Draws}
variable {secret : Json} {record : CredentialRecord} {a : ConsumeProof}

/-- A credential is accepted earlier if it is accepted later. -/
theorem credentialIsAccepted_of_le {row : CredentialRow} (hle : t ≤ now)
    (h : credentialIsAccepted row now = true) : credentialIsAccepted row t = true := by
  unfold credentialIsAccepted at h ⊢
  split at h
  · rfl
  · split at h
    · have hlive := of_decide_eq_true h
      exact decide_eq_true (by omega)
    · exact h
  · exact h

namespace Ledger

/-- **Authentication survives an opportunistic cleanup** at an earlier reading. -/
theorem MaybeCleaned.authentication (hdb : db.MaybeCleaned t db') (hle : t ≤ now)
    {role : Role} (h : db.authentication H k secret role now = .ok (some record)) :
    db'.authentication H k secret role t = .ok (some record) := by
  obtain ⟨text, id, row, key, hsecret, hid, hencodable, hrow, hrole, hkey, hdigest, haccepted,
    hrecord⟩ := authentication_eq_some.mp h
  exact authentication_eq_some.mpr ⟨text, id, row, key, hsecret, hid, hencodable,
    hdb.credential hle hrow haccepted, hrole, hkey, hdigest,
    credentialIsAccepted_of_le hle haccepted,
    hrecord⟩

/-- A key that is not in use. -/
theorem storedFor_of_fresh (hclient : a.clientId.encodable = true)
    (hkey : ∀ key, a.idempotencyKey = some key →
      key.encodable = true ∧ db.idempotent a.clientId key = none) :
    db.storedFor a = .ok none := by
  unfold storedFor
  cases hk : a.idempotencyKey with
  | none => rfl
  | some key =>
    obtain ⟨hencodable, hnone⟩ := hkey key hk
    change db.storedDecision a.clientId key a.requestFingerprint = .ok none
    rw [storedDecision, if_pos ⟨hclient, hencodable⟩, hnone]

/-- Nothing is served from a key that is not in use. -/
theorem cachedDecision_of_fresh (hunsealed : db.restoreRequired = false)
    (hcredential : a.credentialId.encodable = true) (hclient : a.clientId.encodable = true)
    (hkey : ∀ key, a.idempotencyKey = some key →
      key.encodable = true ∧ db.idempotent a.clientId key = none) (now : ℤ) :
    db.cachedDecision a now = .ok none := by
  have hstored := storedFor_of_fresh hclient hkey
  unfold storedFor at hstored
  unfold cachedDecision
  cases hk : a.idempotencyKey with
  | none => rfl
  | some key =>
    rw [hk] at hstored
    dsimp only at hstored ⊢
    rw [hunsealed, if_neg Bool.false_ne_true, if_pos hcredential]
    split
    · rfl
    · split_ifs
      · rfl
      · exact hstored

/-- **A request that nothing stands in the way of** is decided on the row of its proof. -/
theorem consumeOutcome_fresh (hunsealed : db.restoreRequired = false)
    (haccepted : db.Accepted .verification a.credentialId a.clientId now)
    (hcredential : a.credentialId.encodable = true) (hclient : a.clientId.encodable = true)
    (hkey : ∀ key, a.idempotencyKey = some key →
      key.encodable = true ∧ db.idempotent a.clientId key = none)
    (hslot : ∀ client, db.clients.get? a.clientId = some client →
      (db.rateWindow a.clientId .verify (now - 60)).length < client.verifyLimitPerMinute)
    (hdigest : a.tokenDigest.encodable = true)
    (hfingerprint : a.requestFingerprint.encodable = true)
    (htag : ∀ tag ∈ (db.decisionOn a now draws).witness.proofTag, tag.encodable = true)
    (hid : db.verifications.get? draws.verificationId = none)
    (hevent : db.auditEvents.get? (lit "ae_" ++ hexlify draws.event) = none) :
    db.consumeOutcome a now draws = .ok (db.decisionOn a now draws) := by
  obtain ⟨credential, client, haccepts⟩ := haccepted
  -- every parameter of the insertion can be bound
  have hbound : ([draws.verificationId, a.clientId, a.credentialId, a.requestFingerprint] ++
      (db.decisionOn a now draws).witness.proofTag.toList ++
        a.idempotencyKey.toList).all Str.encodable = true := by
    simp only [List.all_append, List.all_cons, List.all_nil, Bool.and_true, Bool.and_eq_true,
      draws.encodable_verificationId, hclient, hcredential, hfingerprint, true_and]
    refine ⟨List.all_eq_true.mpr fun tag ht => htag tag (Option.mem_toList.mp ht),
      List.all_eq_true.mpr fun key hk => (hkey key (Option.mem_toList.mp hk)).1⟩
  have hfree : ¬ client.verifyLimitPerMinute ≤
      ((db.rateWindow a.clientId .verify (now - 60)).length : ℤ) := by
    have hlt := hslot client haccepts.lookup.2.2
    omega
  have hgranted : ¬ (credential.clientId ≠ a.clientId ∨ client.status ≠ .active ∨
      ¬ credentialIsAccepted credential now) := by
    rw [not_or, not_or, not_not, not_not, not_not]
    exact ⟨haccepts.owner, haccepts.active, haccepts.accepted⟩
  rw [consumeOutcome, hunsealed, if_neg Bool.false_ne_true,
    binding_of_encodable (by simpa using hcredential), haccepts.joined]
  dsimp only
  rw [if_neg hgranted, storedFor_of_fresh hclient hkey]
  dsimp only
  rw [metering, binding_of_encodable (by simpa using hclient)]
  dsimp only
  rw [if_neg hfree, binding_of_encodable (by simpa using hdigest), binding_of_encodable hbound,
    deciding, hid, if_neg (by simp), auditing, hevent, if_neg (by simp)]

end Ledger

/-- **The decision on a live row** with its own bindings is an acceptance. -/
theorem ConsumeProof.decision_live (a : ConsumeProof) {c : ProofRecord}
    (hpurpose : c.purpose = a.purpose)
    (haudience : c.audience = a.audience) (hsubject : c.subject = a.subject)
    (hlive : now < c.expiresAt) (verificationId : Str) :
    a.decision (some (proofFromRow c.toRow)) verificationId now =
      acceptedResult c verificationId now := by
  have hunconsumed : ¬ (proofFromRow c.toRow).consumedAt ≠ none := fun h => h rfl
  have hunexpired : ¬ (proofFromRow c.toRow).expiresAt ≤ now := not_le.mpr hlive
  have hbound : ¬ ((proofFromRow c.toRow).purpose ≠ a.purpose ∨
      (proofFromRow c.toRow).audience ≠ a.audience ∨
        (proofFromRow c.toRow).subject ≠ a.subject) := by
    rw [not_or, not_or, not_not, not_not, not_not]
    exact ⟨hpurpose, haudience, hsubject⟩
  unfold ConsumeProof.decision
  dsimp only
  rw [if_neg hunconsumed, if_neg hunexpired, if_neg hbound]
  rfl

/-! ### The proof as a text -/

private theorem printable_alphabet : (base64Alphabet.all fun c => 32 ≤ c.val) = true := by decide

/-- **A proof of the usual length** is accepted as a text. -/
theorem Service.text_proofToken {kid bytes : Bytes} (hkid : kid.length = 8)
    (hbytes : bytes.length = 32) :
    Service.text (.str (Service.proofToken (lit "hk_" ++ hexlify kid) bytes)) "proof" 512 =
      .ok (Service.proofToken (lit "hk_" ++ hexlify kid) bytes) := by
  have hprefix : (lit "op1").all (fun c => 32 ≤ c.val) = true ∧
      (lit "hk_").all (fun c => 32 ≤ c.val) = true ∧ 32 ≤ dot.val := by decide
  refine Service.text_eq_ok.mpr ⟨rfl, List.cons_ne_nil _ _, ?_, fun x hx => ?_⟩
  · have hhex := length_hexlify kid
    have hrandom := length_base64url bytes
    have hlit : (lit "op1").length = 3 ∧ (lit "hk_").length = 3 := by decide
    simp only [Service.proofToken, List.length_append, List.length_cons]
    omega
  · simp only [Service.proofToken, List.mem_append, List.mem_cons] at hx
    rcases hx with hx | rfl | (hx | hx) | rfl | hx
    · exact of_decide_eq_true (List.all_eq_true.mp hprefix.1 x hx)
    · exact hprefix.2.2
    · exact of_decide_eq_true (List.all_eq_true.mp hprefix.2.1 x hx)
    · obtain ⟨m, rfl⟩ := mem_hexlify hx
      have hdigit := hexDigit_cases m
      omega
    · exact hprefix.2.2
    · exact of_decide_eq_true (List.all_eq_true.mp printable_alphabet x (mem_base64url hx))

namespace IssuedIn

variable {h : IssuedIn H w p c τ₁ u τ₂ s}

/-- The fields of the record pass the validators. -/
theorem validated (h : IssuedIn H w p c τ₁ u τ₂ s) :
    Service.text (.str c.subject) "subject" maxSubjectLength = .ok c.subject ∧
      Service.purpose (.str c.purpose) = .ok c.purpose ∧
      Service.audience (.str c.audience) = .ok c.audience := by
  obtain ⟨tid, pid, q, record, check, i, hl, hargs⟩ := h.commit
  rw [(issueCommit_effect h.run hl).committed_eq]
  have hsubject := Service.text_eq_ok.mp hargs.subject
  have hpurpose := Service.purpose_eq_ok.mp hargs.purpose
  have haudience := Service.audience_eq_ok.mp hargs.audience
  have htext := Service.text_eq_ok.mp haudience.1
  exact ⟨Service.text_eq_ok.mpr ⟨rfl, hsubject.2⟩, Service.purpose_eq_ok.mpr ⟨rfl, hpurpose.2⟩,
    Service.audience_eq_ok.mpr ⟨Service.text_eq_ok.mpr ⟨rfl, htext.2⟩, haudience.2⟩⟩

/-- **A serving process looks the proof up** under its digest, while its row is there. -/
theorem looked_up (hH : H.Ideal) (h : IssuedIn H w p c τ₁ u τ₂ s) (hs : Custody H s)
    (hnamed : s.world.keyring.Named SizedKid) {pid : ℕ} (hserving : s.world.Serving pid)
    {k : KeyRing} (hk : s.world.memoryOf pid = some k)
    (hrow : s.world.ledger.proofs.get? c.tokenDigest = some c.toRow) :
    Service.text (.str p) "proof" 512 = .ok p ∧ p.encodable = true ∧
      Service.lookupDigest H k p = .ok c.tokenDigest := by
  obtain ⟨tid, q, r, record, check, i, hl, hargs⟩ := h.commit
  obtain ⟨m, bytes, -, hbytes, hp, hkid, hdigest, -⟩ := hargs.token
  have hcommitted := (issueCommit_effect h.run hl).committed_eq
  have hlength := h.sized.length hbytes
  have hmem : c.toRow ∈ s.world.ledger.proofs := (Table.get?_eq_some.mp hrow).1
  have hdigest' : proofDigest H m.currentKey.2.val p = .ok c.toRow.tokenDigest := by
    rw [hcommitted]
    exact hdigest
  -- the key id was drawn with its length, so the proof can be parsed
  obtain ⟨kidBytes, hkidLength, hkidEq⟩ : SizedKid m.currentKey.1 := by
    obtain ⟨key, bytes', hkey, -⟩ := hs.keyed.proofs _ hmem
    have hsame : c.toRow.hashKid = m.currentKey.1 := by
      rw [hcommitted]
      exact hkid
    rw [← hsame]
    exact hnamed _ (Finmap.mem_of_lookup_eq_some hkey)
  refine ⟨?_, ?_, ?_⟩
  · rw [hp, hkidEq]
    exact Service.text_proofToken hkidLength hlength
  · rw [proofDigest_rootKey] at hdigest'
    obtain ⟨data, hdata, -⟩ := digest_eq_ok.mp hdigest'
    exact Str.utf8?_isSome_iff.mp (by rw [hdata]; rfl)
  · rw [hp] at hdigest' ⊢
    refine hs.lookupDigest hH (fun kid hmemKid => ?_) hserving hk hmem ?_ hdigest'
    · obtain ⟨b, -, hb⟩ := hnamed kid hmemKid
      exact ⟨b, hb⟩
    · rintro rfl
      cases hlength

/-- **A live proof is accepted** by an undisturbed verification with the bindings of its receipt. -/
theorem verifies (hH : H.Ideal) (h : IssuedIn H w p c τ₁ u τ₂ s) (hs : Custody H s)
    (hnamed : s.world.keyring.Named SizedKid) (hgoverned : s.world.ledger.Governed)
    (hencodable : ∀ r ∈ s.world.ledger.proofs, r.Encodable) (hscheduled : s.world.Scheduled)
    (hrow : s.world.ledger.proofs.get? c.tokenDigest = some c.toRow)
    (hunsealed : s.world.ledger.restoreRequired = false) (ho : o.Quiet)
    (hreading : ∀ a, (o.issued (.store (.consumeProof a))).chance = ⟨now, draws⟩)
    (hle : (o.drawn n).now ≤ now) (hlive : now < c.expiresAt) {key : Json}
    (hadmits : s.world.Admits H pid c.clientId secret key now draws) :
    ∃ w' m, (Service.verifyProof H (c.receipt.request p secret key)).eval pid tid o (s.world, n) =
      some (.ok (acceptedResult c draws.verificationId now), w', m) := by
  obtain ⟨k, record, hk, howner, hauthentication⟩ := hadmits.authenticated
  obtain ⟨idempotencyKey, hkey, hunused⟩ := hadmits.key
  obtain ⟨htext, hencodes, hlookup⟩ := h.looked_up hH hs hnamed hadmits.serving hk hrow
  obtain ⟨hsubject, hpurpose, haudience⟩ := h.validated
  obtain ⟨fingerprint, hfingerprint, hfingerprintEncodable⟩ :=
    Service.exists_requestFingerprint H hencodes c.subject c.purpose c.audience
  obtain ⟨t, ht⟩ := Option.isSome_iff_exists.mp (hscheduled pid hadmits.serving)
  have hmem : c.toRow ∈ s.world.ledger.proofs := (Table.get?_eq_some.mp hrow).1
  -- the request as the store gets it
  let a : ConsumeProof :=
    { credentialId := record.credentialId
      clientId := record.clientId
      tokenDigest := c.tokenDigest
      subject := c.subject
      purpose := c.purpose
      audience := c.audience
      requestFingerprint := fingerprint
      idempotencyKey := idempotencyKey }
  -- the world after the opportunistic cleanup
  let w₁ : World := s.world.maintained pid (o.drawn n).now
  have hdb : s.world.ledger.MaybeCleaned (o.drawn n).now w₁.ledger := s.world.maintained_ledger _ _
  have hk₁ : w₁.memoryOf pid = some k := (s.world.maintained_memoryOf _ _ _).trans hk
  have hrow₁ : w₁.ledger.proofs.get? c.tokenDigest = some c.toRow := by
    refine hdb.proof hrow ?_
    change (o.drawn n).now - proofRetentionSeconds ≤ c.expiresAt
    have hretention : (0 : ℤ) ≤ proofRetentionSeconds := by decide
    omega
  obtain ⟨text, id, row, rootKey, -, hid, hidEncodable, hcredential, hrole, -, -, haccepted, rfl⟩ :=
    Ledger.authentication_eq_some.mp hauthentication
  obtain ⟨hrowMem, rfl⟩ := Table.get?_eq_some.mp hcredential
  have hauthority : w₁.ledger.Accepted .verification a.credentialId a.clientId now :=
    hdb.accepted hle (hrole ▸ (hgoverned.accepted_iff hrowMem).mpr haccepted)
  have hsame : a.clientId = c.clientId := howner
  have hclient : a.clientId.encodable = true := by
    rw [hsame]
    exact (hencodable _ hmem).clientId
  have hfresh : ∀ key, a.idempotencyKey = some key →
      key.encodable = true ∧ w₁.ledger.idempotent a.clientId key = none := by
    rintro key' rfl
    refine ⟨Service.encodable_idempotencyKey hkey, hdb.idempotent_none ?_⟩
    rw [hsame]
    exact hunused key' rfl
  have hunsealed₁ : w₁.ledger.restoreRequired = false := hdb.restoreRequired.trans hunsealed
  have hdecision : w₁.ledger.decisionOn a now draws =
      acceptedResult c draws.verificationId now := by
    have hproof : w₁.ledger.proofOf a.clientId a.tokenDigest = some c.toRow := by
      rw [Ledger.proofOf, hrow₁, hsame]
      exact if_pos (decide_eq_true rfl)
    rw [Ledger.decisionOn, hproof]
    exact a.decision_live rfl rfl rfl hlive _
  have houtcome : w₁.ledger.consumeOutcome a now draws =
      .ok (acceptedResult c draws.verificationId now) := by
    rw [Ledger.consumeOutcome_fresh hunsealed₁ hauthority hidEncodable hclient hfresh ?_ ?_
      hfingerprintEncodable ?_ (hdb.verification_none hadmits.verificationId)
      (hdb.auditEvent_none hadmits.event), hdecision]
    · intro client hc
      rw [hdb.rateWindow hle, hsame]
      rw [hdb.clients, hsame] at hc
      exact hadmits.slot client hc
    · obtain ⟨key', hdigest⟩ := h.commit.digest h.run
      exact encodable_of_proofDigest hdigest
    · rw [hdecision]
      rintro tag ⟨⟩
      exact (hencodable _ hmem).proofTag
  -- the steps of the program
  obtain ⟨m, hcached⟩ := eval_cachedFor pid tid (n + 1) w₁ a ho
  rw [Ledger.cachedDecision_of_fresh hunsealed₁ hidEncodable hclient hfresh] at hcached
  have hx : (Tx.write Error.interrupted none ((StoreCall.consumeProof a).tx
      (o.issued (.store (.consumeProof a))).chance) w₁.ledger).1 =
      .ok (acceptedResult c draws.verificationId now) := by
    rw [Tx.write_fst, hreading]
    exact (Store.consumeProof_outcome _ a now draws).trans houtcome
  have hdecided : ∃ w', (Service.decideCached a).eval pid tid o (w₁, n + 1) =
      some (.ok (acceptedResult c draws.verificationId now), w', m) := by
    rw [Service.decideCached, eval_bind, hcached]
    exact ⟨_, eval_store ho (Prod.ext hx rfl)⟩
  have hprepared : (Service.decisionFor H (c.receipt.request p secret key)).eval pid tid o
      (s.world, n) = some (.ok (.inr a), w₁, n + 1) := by
    have hmaintained : (Service.maybeCleanup (o.drawn n).now).eval pid tid o (s.world, n + 1) =
        some (.ok (), w₁, n + 1) := eval_maybeCleanup ho (o.drawn n).timely ht
    have hauthenticated : (Service.authenticate H secret .verification (o.drawn n).now).eval pid tid
        o (w₁, n + 1) = some (.ok (some (credentialFromRow row)), w₁, n + 1) := by
      rw [eval_authenticate ho hk₁, hdb.authentication hle hauthentication]
    unfold Service.decisionFor ProofReceipt.request ProofRecord.receipt
    dsimp only
    rw [htext, hsubject, hpurpose, haudience, hkey]
    simp only [Prog.lift_ok, Prog.ret_bind]
    rw [eval_clock ho, eval_bind, hmaintained]
    dsimp only
    rw [eval_bind, hauthenticated]
    dsimp only
    rw [eval_memory hk₁, hlookup, hfingerprint]
    rfl
  obtain ⟨w', hw'⟩ := hdecided
  refine ⟨w', m, ?_⟩
  rw [verifyProof_eq, eval_bind, hprepared]
  exact hw'

end IssuedIn

/-! ### The guarantee -/

theorem Commit.reading?_cleanup {l : Commit} (h : l.call = .cleanup t) : l.reading? = some t := by
  obtain ⟨call, chance, reply⟩ := l
  change call = .cleanup t at h
  subst h
  rfl

/-- The last run of a lineage, from the world that it started in. -/
theorem SizedLineage.last {τ : List SystemTrans} (h : SizedLineage H (runs ++ [τ]) s) :
    ∃ w, SystemRunFrom H w τ s ∧ Custody H (.start w) ∧ w.keyring.Named DrawnKid ∧ SizedDraws τ ∧
      s.world.Scheduled := by
  have hidle : ∀ {w : World}, (∀ p, w.procs p = none) → w.Scheduled := by
    intro w hw p hp
    rw [World.Serving, hw p] at hp
    cases hp
  generalize hruns : runs ++ [τ] = rs at h
  cases h with
  | @created kidBytes key τ' _ kid run draws =>
    obtain rfl : τ = τ' := (List.append_inj' (hruns.trans (List.nil_append _).symm) rfl).2
      |> List.singleton_inj.mp
    exact ⟨_, run, .idle (Ledger.covered_empty _) (Ledger.keyed_empty _) fun _ => rfl,
      KeyRing.named_created ⟨kidBytes, rfl⟩, draws, run.scheduled (hidle fun _ => rfl)⟩
  | @restored runs' τ' s' _ backedUp run draws =>
    obtain rfl : τ = τ' := List.singleton_inj.mp (List.append_inj' hruns rfl).2
    have hcustody := backedUp.lineage.custody
    exact ⟨_, run, .restored hcustody.covered hcustody.keyed, backedUp.lineage.drawnKids, draws,
      run.scheduled (hidle fun _ => rfl)⟩

/-- **No premature loss.** A proof that `issue_proof` returned is accepted by a verification with
the bindings of its receipt, as long as it was not accepted before, its client was not revoked and
it has not expired, whatever else happened to the instance in the meantime. -/
theorem proof_not_lost (hH : H.Ideal) {τ : List SystemTrans}
    (h : SizedLineage H (runs ++ [τ ++ u :: τ₂]) s) (hfresh : FreshTokens (τ ++ u :: τ₂))
    {q : IssueRequest} {issued : IssuedProof}
    (hret : u.label = .ret tid pid (.api (.issueProof q)) (.ok (.issued issued)))
    (hunaccepted : ∀ r ∈ freshResults issued.proof issued.receipt.clientId (τ ++ u :: τ₂),
      r.verified = false)
    (hunrevoked : ∀ t ∈ commits (τ ++ u :: τ₂), ∀ now,
      t.label.call ≠ .revokeClient issued.receipt.clientId now)
    {pid' tid' : ℕ} (ho : o.Quiet)
    (hclock : ∀ t ∈ commits (τ ++ u :: τ₂), ∀ x ∈ t.label.reading?, x ≤ (o.drawn n).now)
    (hreading : ∀ a, (o.issued (.store (.consumeProof a))).chance = ⟨now, draws⟩)
    (hle : (o.drawn n).now ≤ now) (hlive : now < issued.receipt.expiresAt) {key : Json}
    (hadmits : s.world.Admits H pid' issued.receipt.clientId secret key now draws) :
    ∃ result w' m, (Service.verifyProof H (issued.receipt.request issued.proof secret key)).eval
        pid' tid' o (s.world, n) = some (.ok result, w', m) ∧
      result.verified = true ∧ result.claims = some issued.receipt.claims := by
  obtain ⟨w, hrun, hcustody, hnamed, hsized, hscheduled⟩ := h.last
  obtain ⟨τ₁, v, τ₁', c, -, -, -, rfl, hcommit, hreceipt, -⟩ :=
    exists_issueCommit_of_ret hH hrun hret
  have hsplit : τ₁ ++ v :: τ₁' ++ u :: τ₂ = τ₁ ++ v :: (τ₁' ++ u :: τ₂) := by simp
  rw [hsplit] at hrun hsized hfresh hunaccepted hunrevoked hclock
  have hissued : IssuedIn H w issued.proof c τ₁ v (τ₁' ++ u :: τ₂) s :=
    ⟨hrun, hcustody, hnamed, hfresh, hsized, hcommit⟩
  have hlater : ∀ t ∈ commits (τ₁' ++ u :: τ₂), t ∈ commits (τ₁ ++ v :: (τ₁' ++ u :: τ₂)) := by
    intro t ht
    rw [commits_append]
    refine List.mem_append_right _ ?_
    rw [show v :: (τ₁' ++ u :: τ₂) = [v] ++ (τ₁' ++ u :: τ₂) from rfl, commits_append]
    exact List.mem_append_right _ ht
  rw [hreceipt] at hunaccepted hunrevoked hlive hadmits ⊢
  have hresults : freshResults issued.proof c.clientId (τ₁' ++ u :: τ₂) ⊆
      freshResults issued.proof c.clientId (τ₁ ++ v :: (τ₁' ++ u :: τ₂)) := by
    intro r hr
    rw [freshResults, List.filterMap_append]
    refine List.mem_append_right _ ?_
    rw [show v :: (τ₁' ++ u :: τ₂) = [v] ++ (τ₁' ++ u :: τ₂) from rfl, List.filterMap_append]
    exact List.mem_append_right _ hr
  -- the cleanups ran at earlier readings
  have hretained : ∀ t ∈ commits (τ₁' ++ u :: τ₂), ∀ now', t.label.call = .cleanup now' →
      now' - proofRetentionSeconds ≤ c.expiresAt := by
    intro t ht now' hcall
    have hx := hclock t (hlater t ht) now' (Commit.reading?_cleanup hcall)
    change now < c.expiresAt at hlive
    have hretention : (0 : ℤ) ≤ proofRetentionSeconds := by decide
    omega
  obtain ⟨hrow, hunsealed⟩ := hissued.kept hH (fun r hr => hunaccepted r (hresults hr))
    (fun t ht => hunrevoked t (hlater t ht)) hretained
  obtain ⟨w', m, heval⟩ := hissued.verifies hH h.lineage.custody h.named h.lineage.governed
    h.lineage.readsBack.1 hscheduled hrow hunsealed ho hreading hle hlive hadmits
  exact ⟨_, w', m, heval, rfl, rfl⟩

namespace Scenario

/-- A proof is issued, and then asked about with another purpose. -/
def mismatched : List SystemMove :=
  sizedServed ++ sizedThread 0 2 issueSizes (.api (.issueProof sizedIssueRequest)) 1001 40 ++
    sizedThread 0 3 (List.replicate 6 0)
      (.api (.verifyProof (sizedVerifyRequest (sizedProof 47) (lit "other") none))) 1002 60

/-- The proof that a call returns. -/
def returnedProof? : SystemEvent → Option IssuedProof
  | .ret _ _ (.api (.issueProof _)) (.ok (.issued issued)) => some issued
  | _ => none

theorem of_returnedProof? {l : SystemEvent} {issued : IssuedProof}
    (h : returnedProof? l = some issued) : ∃ tid p q,
      l = .ret tid p (.api (.issueProof q)) (.ok (.issued issued)) := by
  unfold returnedProof? at h
  split at h
  · obtain rfl := Option.some.inj h
    exact ⟨_, _, _, rfl⟩
  · cases h

/-- No client was revoked. -/
def unrevoked (cs : List (Trans Ledger Commit)) : Bool :=
  cs.all fun t => match t.label.call with
    | .revokeClient _ _ => false
    | _ => true

theorem of_unrevoked {cs : List (Trans Ledger Commit)} (h : unrevoked cs = true)
    {t : Trans Ledger Commit} (ht : t ∈ cs) (clientId : Str) (now : ℤ) :
    t.label.call ≠ .revokeClient clientId now := by
  intro hcall
  have hall := List.all_eq_true.mp h t ht
  rw [hcall] at hall
  cases hall

/-- What `World.Admits` asks for, for a request without a key. -/
def admits (w : World) (p : ℕ) (clientId : Str) (secret : Json) (now : ℤ) (draws : Draws) : Bool :=
  (w.procs p).any Proc.serving &&
    (w.memoryOf p).any (fun k =>
      match w.ledger.authentication plainHash k secret .verification now with
      | .ok (some record) => record.clientId = clientId
      | _ => false) &&
    (w.ledger.clients.get? clientId).all (fun client =>
      decide (((w.ledger.rateWindow clientId .verify (now - 60)).length : ℤ) <
        client.verifyLimitPerMinute)) &&
    (w.ledger.verifications.get? draws.verificationId).isNone &&
    (w.ledger.auditEvents.get? (lit "ae_" ++ hexlify draws.event)).isNone

theorem of_admits {w : World} {p : ℕ} {clientId : Str} {secret : Json} {now : ℤ} {draws : Draws}
    (h : admits w p clientId secret now draws = true) :
    w.Admits plainHash p clientId secret .null now draws := by
  simp only [admits, Bool.and_eq_true, Option.isNone_iff_eq_none] at h
  obtain ⟨⟨⟨⟨hserving, hmemory⟩, hslot⟩, hid⟩, hevent⟩ := h
  refine ⟨hserving, ?_, ⟨none, rfl, fun t ht => (by cases ht)⟩, fun client hclient => ?_, hid,
    hevent⟩
  · obtain ⟨k, hk, hauth⟩ := (Option.any_eq_true _ _).mp hmemory
    split at hauth
    · next record hrecord => exact ⟨k, record, hk, of_decide_eq_true hauth, hrecord⟩
    · cases hauth
  · rw [hclient] at hslot
    exact of_decide_eq_true hslot

/-- An undisturbed thread at the time 1003. -/
def undisturbed : Outside where
  drawn n := sizedChoice 16 1003 (UInt8.ofNat n)
  issued _ := sizedChoice 16 1003 90

theorem undisturbed_quiet : undisturbed.Quiet := ⟨fun _ => rfl, fun _ => rfl, fun _ => rfl⟩

end Scenario

/-- A proof that was asked about with another purpose is still accepted. -/
theorem proof_not_lost_mismatched : ∃ runs s, ∃ issued : IssuedProof, ∃ result w' m,
    SizedLineage plainHash runs s ∧
    (Service.verifyProof plainHash (issued.receipt.request issued.proof
        (.str (Scenario.sizedSecret .verification 28)) .null)).eval 0 9 Scenario.undisturbed
        (s.world, 0) = some (.ok result, w', m) ∧
      result.verified = true ∧ result.claims = some issued.receipt.claims := by
  obtain ⟨⟨τ, s⟩, hsim, hchecks⟩ := (Option.any_eq_true _ _).mp
    (show ((system plainHash).simulate Scenario.sizedStart Scenario.mismatched).any
      (fun x => (cutAt (fun l => (Scenario.returnedProof? l).isSome) x.1).any fun y =>
        (Scenario.returnedProof? y.2.1.label).any (fun issued =>
          (freshResults issued.proof issued.receipt.clientId x.1).all (fun r => !r.verified) &&
          decide (1003 < issued.receipt.expiresAt) &&
          Scenario.admits x.2.world 0 issued.receipt.clientId
            (.str (Scenario.sizedSecret .verification 28)) 1003 ⟨List.replicate 16 90, [90, 1]⟩) &&
        Scenario.unrevoked (commits x.1) && decide (FreshTokens x.1) && decide (SizedDraws x.1) &&
        (commits x.1).all fun t => t.label.reading?.all fun a => a ≤ 1003) = true by
      decide +kernel)
  obtain ⟨⟨τ₁, u, τ₂⟩, hcut, hchecks⟩ := (Option.any_eq_true _ _).mp hchecks
  obtain ⟨rfl, -⟩ := cutAt_eq_some hcut
  simp only [Bool.and_eq_true, decide_eq_true_eq] at hchecks
  obtain ⟨⟨⟨⟨hissued, hunrevoked⟩, hfresh⟩, hsized⟩, hclock⟩ := hchecks
  obtain ⟨issued, hret, hissued⟩ := (Option.any_eq_true _ _).mp hissued
  simp only [Bool.and_eq_true, decide_eq_true_eq] at hissued
  obtain ⟨⟨hunaccepted, hlive⟩, hadmits⟩ := hissued
  obtain ⟨tid, p, q, hl⟩ := Scenario.of_returnedProof? hret
  have hlineage : SizedLineage plainHash ([] ++ [τ₁ ++ u :: τ₂]) s :=
    .created (by decide) (Machine.run_of_simulate hsim) hsized
  obtain ⟨result, w', m, heval, hverified, hclaims⟩ :=
    proof_not_lost plainHash_ideal hlineage hfresh
    hl (fun r hr => by simpa using List.all_eq_true.mp hunaccepted r hr)
    (fun t ht now => Scenario.of_unrevoked hunrevoked ht _ now) Scenario.undisturbed_quiet
    (fun t ht x hx => by
      have hall := List.all_eq_true.mp hclock t ht
      rw [hx] at hall
      exact of_decide_eq_true hall)
    (fun a => rfl) le_rfl hlive (Scenario.of_admits hadmits)
  exact ⟨_, s, issued, result, w', m, hlineage, heval, hverified, hclaims⟩

end Onceproof

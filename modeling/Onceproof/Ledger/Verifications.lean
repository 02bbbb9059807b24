import Onceproof.Ledger.Issuance

/-!
# The decision behind a result

`Decision` is a committed `verify_proof` call that decided afresh, together with the proof it
was called with. Every verified result that is returned, from a transaction or from a stored
row, was made by such a decision for the same proof (`exists_decision`), and an accepting
decision follows the issuance of its proof (`Decision.issued`).
-/

namespace Onceproof

/-- `d`, after the transitions `τ₁`, is a fresh decision on a request for the proof `p`. -/
def Decision (H : HashLib) (p : Str) (τ₁ : List SystemTrans) (d : SystemTrans)
    (a : ConsumeProof) (result : VerificationResult) : Prop :=
  ∃ tid pid q i k,
    d.label = .act tid pid (.api (.verifyProof q)) (.store (.consumeProof a)) i (.ok result) ∧
      DecideEffect a i.now i.draws d.src.world.ledger result d.dst.world.ledger ∧
      q.Reads p a.subject a.purpose a.audience a.idempotencyKey ∧
      Service.requestFingerprint H p a.subject a.purpose a.audience = .ok a.requestFingerprint ∧
      Hist.Got (acted tid τ₁) .memory k ∧ Service.lookupDigest H k p = .ok a.tokenDigest

/-- A verification of the proof `p` returned a result. -/
def VerificationReturned (τ : List SystemTrans) (p : Str) (result : VerificationResult) : Prop :=
  ∃ t ∈ τ, ∃ tid pid q, t.label =
    .ret tid pid (.api (.verifyProof q)) (.ok (.verification result)) ∧ q.proof = .str p

variable {H : HashLib} {τ τ₁ τ₂ : List SystemTrans} {s : SystemState}
variable {u d : SystemTrans} {p : Str} {a : ConsumeProof} {result : VerificationResult}

/-- A digest by which a proof is looked up is its keyed digest if it is any proof's. -/
theorem Service.lookupDigest_keyed (hH : H.Ideal) {k : KeyRing} {p p' D : Str} {key : RootKey}
    (hlookup : Service.lookupDigest H k p = .ok D) (hD : proofDigest H key.val p' = .ok D) :
    p = p' := by
  unfold Service.lookupDigest at hlookup
  split at hlookup
  · exact (hH.proofDigest_inj hlookup hD).2
  · unfold sha256Hex at hlookup
    split at hlookup
    · exact absurd (Except.ok.inj hlookup) (hH.sha256_ne_proofDigest hD)
    · cases hlookup

/-- A fresh decision of the ledger comes from a request. -/
theorem exists_decision_of_decides {w : World} (h : SystemRunFrom H w τ s)
    {t : Trans Ledger Commit} (ht : t ∈ commits τ) {x : Chance} (hd : DecidesAs a x result t) :
    ∃ τ₁ d τ₂ p, τ = τ₁ ++ d :: τ₂ ∧ Decision H p τ₁ d a result ∧
      t.src = d.src.world.ledger ∧ t.dst = d.dst.world.ledger := by
  obtain ⟨hlabel, heffect⟩ := hd
  obtain ⟨τ₁, d, τ₂, tid, pid, r, i, hcut, hl, hx, hsrc, hdst, hsupplied⟩ := commit_supplied h ht
  rw [hlabel] at hl hx hsupplied
  obtain ⟨-, q, rfl, hargs⟩ := hsupplied
  obtain ⟨p, k, hreads, hfingerprint, hk, hdigest⟩ := hargs.request
  have hx : x = i.chance := hx
  rw [hx, hsrc, hdst] at heffect
  exact ⟨τ₁, d, τ₂, p, hcut, ⟨tid, pid, q, i, k, hl, heffect, hreads, hfingerprint, hk, hdigest⟩,
    hsrc, hdst⟩

/-- The decision behind a stored row whose fingerprint is that of a request for `p`. -/
theorem exists_decision_of_stored (hH : H.Ideal) (h : SystemRun H τ s) {v : VerificationRow}
    (hv : v ∈ s.world.ledger.verifications)
    (hread : resultFromJson (.ok v.resultJson) = .ok result) {subject purpose audience : Str}
    (hf : Service.requestFingerprint H p subject purpose audience = .ok v.requestFingerprint) :
    ∃ τ₁ d τ₂ a, τ = τ₁ ++ d :: τ₂ ∧ Decision H p τ₁ d a result ∧
      ∃ now, v = a.verificationRow result now := by
  obtain ⟨t, ht, a, x, hdecides, rfl⟩ := stored_decision h.ledger hv hread
  obtain ⟨kidBytes, key, hrun⟩ := h
  obtain ⟨τ₁, d, τ₂, p', hcut, hdecision, -⟩ := exists_decision_of_decides hrun ht hdecides
  have hsame : p = p' := by
    obtain ⟨_, _, _, _, _, -, -, -, hf', -⟩ := hdecision
    exact Service.proof_of_requestFingerprint hH hf hf'
  exact ⟨τ₁, d, τ₂, a, hcut, hsame ▸ hdecision, x.now, rfl⟩

/-- **Every verified result was decided** for the proof that was asked about. -/
theorem exists_decision (hH : H.Ideal) (h : SystemRun H τ s)
    (hreturned : VerificationReturned τ p result) (hverified : result.verified = true) :
    ∃ τ₁ d τ₂ a, τ = τ₁ ++ d :: τ₂ ∧ Decision H p τ₁ d a result := by
  obtain ⟨u, hu, tid, pid, q, hl, hp⟩ := hreturned
  obtain ⟨σ, ρ, rfl⟩ := List.append_of_mem hu
  have hσ := h.of_cut.1
  have hext : ∀ {τ₁ τ₂ : List SystemTrans} {d : SystemTrans}, σ = τ₁ ++ d :: τ₂ →
      σ ++ u :: ρ = τ₁ ++ d :: (τ₂ ++ u :: ρ) := by
    rintro τ₁ τ₂ d rfl
    simp
  obtain ⟨kidBytes, key, hrun⟩ := h
  obtain ⟨y, hy, houtcome⟩ := (SystemRunFrom.ret hrun hl).2
  obtain rfl : y = .ok result := by
    cases y with
    | error e => cases hy
    | ok y => rw [Outcome.verification.inj (Except.ok.inj hy)]
  -- the request reads `p`, whatever its other fields are
  have hread : ∀ {p' subject purpose audience : Str} {key : Option Str},
      q.Reads p' subject purpose audience key → p' = p := by
    intro p' subject purpose audience key hreads
    have := (Service.text_eq_ok.mp hreads.proof).1
    rw [hp] at this
    exact (Json.str.inj this).symm
  cases houtcome with
  | rejected => cases hverified
  | @cached a result cleans args cached =>
    cases cached with
    | @replayed k row result keyed found same read =>
      obtain ⟨p', k', hreads, hf, -⟩ := args.request
      obtain rfl := hread hreads
      obtain ⟨v, hv, pid', r', i, hvl⟩ := mem_acted.mp found
      obtain ⟨σ₁, σ₂, rfl⟩ := List.append_of_mem hv
      have hrow := Op.exec_idempotent (SystemRunFrom.exec hrun
        (List.mem_append_left _ (List.mem_append_right _ List.mem_cons_self)) hvl)
      obtain ⟨τ₁, d, τ₂, a', rfl, hdecision, -⟩ := exists_decision_of_stored hH hσ.of_cut.1
        (Ledger.idempotent_eq_some hrow.symm).1 read (same ▸ hf)
      exact ⟨τ₁, d, (τ₂ ++ v :: σ₂) ++ u :: ρ, a', hext (by simp), hdecision⟩
  | @consumed a result args cached answer =>
    obtain ⟨p', k', hreads, hf, -⟩ := args.request
    obtain rfl := hread hreads
    obtain ⟨v, hv, pid', r', i, hvl⟩ := mem_acted.mp answer
    obtain ⟨σ₁, σ₂, rfl⟩ := List.append_of_mem hv
    have hrun' := hrun
    rw [List.append_assoc, List.cons_append] at hrun'
    obtain ⟨hexec, hsupplied⟩ := SystemRunFrom.act hrun' hvl
    rcases Op.exec_store hexec with ⟨reply, hreply, hs, -⟩ | ⟨e, he, -⟩
    · obtain rfl := Except.ok.inj hreply
      have heffect : ConsumeEffect a i.now i.draws v.src.world.ledger result v.dst.world.ledger :=
        Store.consumeProof_ok hs
      generalize hsrc : v.src.world.ledger = db at heffect
      generalize hdst : v.dst.world.ledger = db' at heffect
      cases heffect with
      | refused => cases hverified
      | replayed _ _ key row _ keyed stored same read =>
        rw [← hsrc] at stored
        obtain ⟨τ₁, d, τ₂, a', rfl, hdecision, -⟩ := exists_decision_of_stored hH hσ.of_cut.1
          (Ledger.idempotent_eq_some stored).1 read (same ▸ hf)
        exact ⟨τ₁, d, (τ₂ ++ v :: σ₂) ++ u :: ρ, a', hext (by simp), hdecision⟩
      | decided effect =>
        obtain ⟨-, q', rfl, hargs'⟩ := hsupplied
        obtain ⟨p'', k'', hreads'', hf'', hk'', hdigest''⟩ := hargs'.request
        obtain rfl := Service.proof_of_requestFingerprint hH hf hf''
        rw [← hsrc, ← hdst] at effect
        exact ⟨σ₁, v, _, a, hext rfl,
          ⟨tid, pid', q', i, k'', hvl, effect, hreads'', hf'', hk'', hdigest''⟩⟩
    · cases he

/-- **An accepted proof was issued before**, and the row that the decision found is that of
the issuance. -/
theorem Decision.issued (hH : H.Ideal) (h : SystemRun H (τ₁ ++ d :: τ₂) s)
    (hd : Decision H p τ₁ d a result) (hverified : result.verified = true) :
    ∃ σ₁ u σ₂ c r, τ₁ = σ₁ ++ u :: σ₂ ∧ IssueCommit H p σ₁ u c ∧
      d.src.world.ledger.proofs.get? a.tokenDigest = some r ∧ r.Of c ∧
      r.clientId = a.clientId ∧ result.witness.decidedAt < r.expiresAt ∧
      r.purpose = a.purpose ∧ r.audience = a.audience ∧ r.subject = a.subject ∧
      ∃ verificationId now, result = acceptedResult (proofFromRow r) verificationId now := by
  obtain ⟨tid, pid, q, i, k, hl, heffect, -, -, -, hdigest⟩ := hd
  obtain ⟨r, hr, howner, hlive, hopen, hpurpose, haudience, hsubject, hresult⟩ :=
    heffect.accepted hverified
  obtain ⟨h₁, -, -⟩ := h.of_cut
  rcases run_proof_issued h₁.ledger hr with ⟨t, ht, c, hissued, hof⟩ | ⟨r₀, hr₀, -⟩
  · obtain ⟨kidBytes, key, hrun₁⟩ := h₁
    obtain ⟨σ₁, u, σ₂, p', key', rfl, hissue, -, -, hD⟩ := exists_issueCommit hrun₁ ht hissued
    obtain rfl := Service.lookupDigest_keyed hH hdigest hD
    refine ⟨σ₁, u, σ₂, c, r, rfl, hissue, hr, hof, howner, ?_, hpurpose, haudience, hsubject,
      _, _, hresult⟩
    rw [heffect.witness.2.2]
    exact hopen
  · cases hr₀

/-- The commit of an accepting decision. -/
theorem Decision.acceptedAs (hd : Decision H p τ₁ d a result) (hverified : result.verified = true) :
    ∃ cm, SystemEvent.commit? d.label = some cm ∧
      AcceptedAs a.tokenDigest result ⟨d.src.world.ledger, cm, d.dst.world.ledger⟩ := by
  obtain ⟨tid, pid, q, i, k, hl, heffect, -⟩ := hd
  exact ⟨⟨.consumeProof a, i.chance, result⟩, by rw [hl]; rfl, a, i.chance, ⟨rfl, heffect⟩, rfl,
    hverified⟩

end Onceproof

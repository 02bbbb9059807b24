import Onceproof.Ledger.Verifications
import Onceproof.Scenario

/-!
# Single use

One proof is accepted once, for the client, subject, purpose and audience it was issued for.
Two accepting decisions for one proof would lie under one digest, with an issuance between
them (`issued_between`), and that would be a second issuance of the proof.
-/

namespace Onceproof

variable {H : HashLib} {τ τ₁ τ₁' τ₂ τ₂' : List SystemTrans} {s : SystemState}
variable {d d' : SystemTrans} {p : Str} {a a' : ConsumeProof}
variable {result result' : VerificationResult}

/-- No acceptance of a proof follows another one. -/
private theorem no_later_acceptance (hH : H.Ideal) (h : SystemRun H τ s) (hfresh : FreshTokens τ)
    (hcut : τ = τ₁ ++ d :: τ₂) {m : List SystemTrans} (hcut' : τ₂ = m ++ d' :: τ₂')
    (hd : Decision H p τ₁ d a result) (hd' : Decision H p (τ₁ ++ d :: m) d' a' result')
    (hv : result.verified = true) (hv' : result'.verified = true) : False := by
  have hcut₂ : τ = (τ₁ ++ d :: m) ++ d' :: τ₂' := by simp [hcut, hcut']
  obtain ⟨σ₁, u, σ₂, c, r, hσ, hissue, hr, hof, -⟩ := hd.issued hH (hcut ▸ h) hv
  obtain ⟨σ₁', u', σ₂', c', r', hσ', hissue', hr', hof', -⟩ := hd'.issued hH (hcut₂ ▸ h) hv'
  obtain ⟨kidBytes, key, hrun⟩ := h
  have hfirst : τ = σ₁ ++ u :: (σ₂ ++ d :: τ₂) := by simp [hcut, hσ]
  have hsecond : τ = σ₁' ++ u' :: (σ₂' ++ d' :: τ₂') := by simp [hcut₂, hσ']
  -- both decisions looked the proof up under the digest of its one issuance
  obtain ⟨-, -, -, rfl⟩ := hissue.unique hrun hfresh hfirst hsecond hissue'
  have hdigest : a'.tokenDigest = a.tokenDigest := by
    rw [← (Table.get?_eq_some.mp hr').2, ← (Table.get?_eq_some.mp hr).2, hof'.tokenDigest,
      hof.tokenDigest]
  obtain ⟨cm, -, haccepted⟩ := hd.acceptedAs hv
  obtain ⟨cm', -, haccepted'⟩ := hd'.acceptedAs hv'
  rw [hdigest] at haccepted'
  -- so an issuance under that digest lies between them
  have hmid : Run (system H).Step d.dst m d'.src :=
    (SystemRunFrom.cut (hcut ▸ hrun)).2.2 |> fun hafter => (hcut' ▸ hafter).of_cut.1
  obtain ⟨t, ht, c₂, hissued⟩ := issued_between (ledgerRun hmid) haccepted.spent
    haccepted'.not_spent
  obtain ⟨x, hx, tid, pid, r₂, i, hl, hchance, hsrc, hdst⟩ := mem_commits.mp ht
  obtain ⟨m₁, m₂, rfl⟩ := List.append_of_mem hx
  have hthird : τ = (τ₁ ++ d :: m₁) ++ x :: (m₂ ++ d' :: τ₂') := by simp [hcut, hcut']
  obtain ⟨record, check, x', hlabel, hD, -⟩ := hissued
  rw [hlabel] at hl
  obtain ⟨-, q, p₂, rfl, hargs⟩ := (SystemRunFrom.act (hthird ▸ hrun) hl).2
  obtain ⟨k, bytes, -, -, -, -, hdigest₂, -⟩ := hargs.token
  obtain ⟨key', hkey'⟩ := hissue.digest (hfirst ▸ hrun)
  have hDc : a.tokenDigest = c.tokenDigest := by
    rw [← (Table.get?_eq_some.mp hr).2, hof.tokenDigest]
  rw [hD, hDc] at hdigest₂
  obtain ⟨-, rfl⟩ := hH.proofDigest_inj hkey' hdigest₂
  obtain ⟨heq, -⟩ := hissue.unique hrun hfresh hfirst hthird
    ⟨tid, pid, q, record, check, i, hl, hargs⟩
  have hlength := congrArg List.length heq
  rw [hσ] at hlength
  simp only [List.length_append, List.length_cons] at hlength
  omega

/-- **A proof is accepted by one decision.** -/
theorem Decision.unique (hH : H.Ideal) (h : SystemRun H τ s) (hfresh : FreshTokens τ)
    (hcut : τ = τ₁ ++ d :: τ₂) (hcut' : τ = τ₁' ++ d' :: τ₂') (hd : Decision H p τ₁ d a result)
    (hd' : Decision H p τ₁' d' a' result') (hv : result.verified = true)
    (hv' : result'.verified = true) : τ₁ = τ₁' ∧ d = d' ∧ result = result' := by
  rcases cut_cases (hcut.symm.trans hcut') with ⟨rfl, rfl, -⟩ | ⟨m, rfl, hm⟩ | ⟨m, rfl, hm⟩
  · refine ⟨rfl, rfl, ?_⟩
    obtain ⟨tid, pid, q, i, k, hl, -⟩ := hd
    obtain ⟨tid', pid', q', i', k', hl', -⟩ := hd'
    rw [hl] at hl'
    injection hl' with _ _ _ hcall _ hreply
    obtain rfl := StoreCall.consumeProof.inj (Op.store.inj hcall)
    exact Except.ok.inj hreply
  · exact (no_later_acceptance hH h hfresh hcut hm hd hd' hv hv').elim
  · exact (no_later_acceptance hH h hfresh hcut' hm hd' hd hv' hv).elim

/-- The decision that made a verified result for the proof `p`, and its one issuance. -/
structure DecidedOnce (H : HashLib) (τ : List SystemTrans) (p : Str)
    (result : VerificationResult) (τ₁ : List SystemTrans) (d : SystemTrans) (a : ConsumeProof) :
    Prop where
  decision : Decision H p τ₁ d a result
  /-- The decision drew the verification id of the result. -/
  drawn : ∃ tid pid r i, d.label = .act tid pid r (.store (.consumeProof a)) i (.ok result) ∧
    result.witness.verificationId = i.draws.verificationId
  /-- One committed issuance of the proof, before the decision, whose call is the one that
  returns the proof, with the client of the accepting credential and the bindings of the
  request and of the claims. -/
  issuance : ∃ σ₁ u σ₂ c, τ₁ = σ₁ ++ u :: σ₂ ∧ IssueCommit H p σ₁ u c ∧
    (∀ σ₁' u' σ₂' c', τ = σ₁' ++ u' :: σ₂' → IssueCommit H p σ₁' u' c' → σ₁' = σ₁ ∧ u' = u) ∧
    (∀ v ∈ τ, ∀ tid pid q issued,
      v.label = .ret tid pid (.api (.issueProof q)) (.ok (.issued issued)) →
        (issued.proof = p ↔ ∃ pid' r, u.label.thread? = some (tid, pid', r))) ∧
    (∃ credential client now,
      d.src.world.ledger.Accepts .verification a.credentialId a.clientId now credential client ∧
        credential.clientId = c.clientId) ∧
    c.subject = a.subject ∧ c.purpose = a.purpose ∧ c.audience = a.audience ∧
    ∃ claims, result.claims = some claims ∧ claims.clientId = c.clientId ∧
      claims.subject = c.subject ∧ claims.purpose = c.purpose ∧ claims.audience = c.audience
  /-- The decision came before the proof expired. -/
  unexpired : ∃ r, d.src.world.ledger.proofs.get? a.tokenDigest = some r ∧
    result.witness.decidedAt < r.expiresAt

/-- All verified results that were ever returned for a proof carry one verification id, and
each was made by one decision that follows the one issuance of the proof. -/
structure SingleUse (H : HashLib) (τ : List SystemTrans) (p : Str) : Prop where
  oneId : ∀ result result', VerificationReturned τ p result → VerificationReturned τ p result' →
    result.verified = true → result'.verified = true →
      result.witness.verificationId = result'.witness.verificationId
  decided : ∀ result, VerificationReturned τ p result → result.verified = true →
    ∃ τ₁ d τ₂ a, τ = τ₁ ++ d :: τ₂ ∧ DecidedOnce H τ p result τ₁ d a

/-- **Single use with matching issuance.** -/
theorem single_use (hH : H.Ideal) (h : SystemRun H τ s) (hfresh : FreshTokens τ) (p : Str) :
    SingleUse H τ p := by
  refine ⟨fun result result' hr hr' hv hv' => ?_, fun result hr hv => ?_⟩
  · obtain ⟨τ₁, d, τ₂, a, hcut, hd⟩ := exists_decision hH h hr hv
    obtain ⟨τ₁', d', τ₂', a', hcut', hd'⟩ := exists_decision hH h hr' hv'
    rw [(hd.unique hH h hfresh hcut hcut' hd' hv hv').2.2]
  · obtain ⟨τ₁, d, τ₂, a, rfl, hd⟩ := exists_decision hH h hr hv
    obtain ⟨σ₁, u, σ₂, c, r, rfl, hissue, hrow, hof, howner, hopen, hpurpose, haudience,
      hsubject, verificationId, now, hresult⟩ := hd.issued hH h hv
    obtain ⟨tid, pid, q, i, k, hl, heffect, -⟩ := id hd
    obtain ⟨kidBytes, key, hrun⟩ := h
    have hcut : (σ₁ ++ u :: σ₂) ++ d :: τ₂ = σ₁ ++ u :: (σ₂ ++ d :: τ₂) := by simp
    refine ⟨σ₁ ++ u :: σ₂, d, τ₂, a, rfl, hd, ⟨tid, pid, _, i, hl, heffect.witness.1⟩,
      ⟨σ₁, u, σ₂, c, rfl, hissue, fun σ₁' u' σ₂' c' hcut' hissue' => ?_,
        fun v hv => hissue.returned_iff hH hrun hfresh hcut hv, ?_, ?_⟩, ⟨r, hrow, hopen⟩⟩
    · obtain ⟨hσ, hu, -⟩ := hissue'.unique hrun hfresh hcut' hcut hissue
      exact ⟨hσ, hu⟩
    · obtain ⟨credential, client, hacc, -⟩ := heffect.authorized
      exact ⟨credential, client, i.now, hacc, by rw [hacc.owner, ← howner, hof.clientId]⟩
    · rw [← hof.subject, ← hof.purpose, ← hof.audience]
      refine ⟨hsubject, hpurpose, haudience, _, by rw [hresult]; rfl, ?_, rfl, rfl, rfl⟩
      exact hof.clientId

/-- A proof is verified, and verified again under the same idempotency key. -/
theorem single_use_served : ∃ τ s, SystemRun plainHash τ s ∧
    (verificationResults τ).map VerificationResult.verified = [true, true] ∧
    SingleUse plainHash τ (Scenario.proof 47) := by
  obtain ⟨τ, s, hrun, hfresh, hresults⟩ := exists_systemRun
    (Scenario.served ++
      Scenario.thread 0 2 10 (.api (.issueProof (Scenario.issueRequest 25))) 1001 40 ++
      Scenario.thread 0 3 10 (.api (.verifyProof (Scenario.verifyRequest 28 (Scenario.proof 47)
        (lit "login") (some (lit "key"))))) 1002 60 ++
      Scenario.thread 0 4 9 (.api (.verifyProof (Scenario.verifyRequest 28 (Scenario.proof 47)
        (lit "login") (some (lit "key"))))) 1003 80)
    (fun τ _ => FreshTokens τ ∧
      (verificationResults τ).map VerificationResult.verified = [true, true])
    (by decide +kernel)
  exact ⟨τ, s, hrun, hresults, single_use plainHash_ideal hrun hfresh _⟩

end Onceproof

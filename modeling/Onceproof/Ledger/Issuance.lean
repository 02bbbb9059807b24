import Onceproof.Ledger.Proofs

/-!
# The issuance of a proof

`IssueCommit` is a committed `issue_proof` call together with the proof it built. Tokens are
fresh and keyed digests are injective, so a proof has one such commit (`IssueCommit.unique`),
its digest leads back to it (`exists_issueCommit`), and it is what the call returns
(`IssueCommit.returns`, `exists_issueCommit_of_ret`).
-/

namespace Onceproof

/-- `u`, after the transitions `τ₁`, commits an `issue_proof` call that built the proof `p`
and stored it as `c`. -/
def IssueCommit (H : HashLib) (p : Str) (τ₁ : List SystemTrans) (u : SystemTrans)
    (c : ProofRecord) : Prop :=
  ∃ tid pid q record check i,
    u.label = .act tid pid (.api (.issueProof q)) (.store (.issueProof record check)) i (.ok c) ∧
      IssueArgs H q (acted tid τ₁) p record check

/-- The receipt of a committed record. -/
def ProofRecord.receipt (c : ProofRecord) : ProofReceipt where
  proofTag := c.proofTag
  clientId := c.clientId
  subject := c.subject
  purpose := c.purpose
  audience := c.audience
  issuedAt := c.issuedAt
  expiresAt := c.expiresAt

variable {H : HashLib} {w : World} {τ τ₁ τ₂ τ₁' τ₂' : List SystemTrans} {s : SystemState}
variable {u u' : SystemTrans} {p p' : Str} {c c' : ProofRecord}

/-- A committed issuance in a run, with the effect of its transaction. -/
theorem issueCommit_effect (h : SystemRunFrom H w (τ₁ ++ u :: τ₂) s) {tid pid : ℕ}
    {r : Request} {record : ProofRecord} {check : Str} {i : Choice}
    (hl : u.label = .act tid pid r (.store (.issueProof record check)) i (.ok c)) :
    IssueEffect record check i.now i.draws.event u.src.world.ledger c u.dst.world.ledger := by
  rcases Op.exec_store (h.act hl).1 with ⟨reply, hreply, hs, -⟩ | ⟨e, he, -⟩
  · obtain rfl := Except.ok.inj hreply
    exact Store.issueProof_ok hs
  · cases he

/-- A thread calls the store to issue at most once. -/
theorem issue_once (h : SystemRunFrom H w τ s) (hcut : τ = τ₁ ++ u :: τ₂)
    (hcut' : τ = τ₁' ++ u' :: τ₂') {tid pid pid' : ℕ} {r r' : Request}
    {record record' : ProofRecord} {check check' : Str} {i i' : Choice}
    {x : (Op.store (.issueProof record check)).Ans}
    {x' : (Op.store (.issueProof record' check')).Ans}
    (hl : u.label = .act tid pid r (.store (.issueProof record check)) i x)
    (hl' : u'.label = .act tid pid' r' (.store (.issueProof record' check')) i' x') :
    τ₁ = τ₁' ∧ u = u' ∧ τ₂ = τ₂' := by
  refine Machine.act_once (Φ := Supplied H) (Ψ := Returned H)
    (K := fun c => ∃ record check, c = .store (.issueProof record check)) program_spec ?_ h hcut
    hcut' hl hl' ⟨_, _, rfl⟩ ⟨_, _, rfl⟩
  rintro r hist _ hsupplied ⟨record, check, rfl⟩ ⟨_, y⟩ hmem ⟨record', check', rfl⟩
  obtain ⟨now, hnow⟩ := hsupplied.1 _ _ hmem
  cases hnow

/-- **A proof is issued once.** -/
theorem IssueCommit.unique (h : SystemRunFrom H w τ s) (hfresh : FreshTokens τ)
    (hcut : τ = τ₁ ++ u :: τ₂) (hcut' : τ = τ₁' ++ u' :: τ₂') (hu : IssueCommit H p τ₁ u c)
    (hu' : IssueCommit H p τ₁' u' c') : τ₁ = τ₁' ∧ u = u' ∧ τ₂ = τ₂' ∧ c = c' := by
  obtain ⟨tid, pid, q, record, check, i, hl, hargs⟩ := hu
  obtain ⟨tid', pid', q', record', check', i', hl', hargs'⟩ := hu'
  obtain ⟨k, bytes, -, hdraw, hp, -⟩ := hargs.token
  obtain ⟨k', bytes', -, hdraw', hp', -⟩ := hargs'.token
  obtain ⟨-, rfl⟩ := Service.proofToken_inj (hp.symm.trans hp')
  obtain rfl := hfresh.thread (hcut ▸ List.subset_append_left _ _)
    (hcut' ▸ List.subset_append_left _ _) hdraw hdraw'
  obtain ⟨hpre, rfl, hpost⟩ := issue_once h hcut hcut' hl hl'
  rw [hl] at hl'
  injection hl' with _ _ _ hcall _ hreply
  obtain ⟨rfl, rfl⟩ := StoreCall.issueProof.inj (Op.store.inj hcall)
  exact ⟨hpre, rfl, hpost, Except.ok.inj hreply⟩

/-- The digest under which a proof was stored. -/
theorem IssueCommit.digest (h : SystemRunFrom H w (τ₁ ++ u :: τ₂) s)
    (hu : IssueCommit H p τ₁ u c) :
    ∃ key : RootKey, proofDigest H key.val p = .ok c.tokenDigest := by
  obtain ⟨tid, pid, q, record, check, i, hl, hargs⟩ := hu
  obtain ⟨k, bytes, -, -, -, -, hdigest, -⟩ := hargs.token
  rw [(issueCommit_effect h hl).committed_eq]
  exact ⟨_, hdigest⟩

/-- **The proof behind a digest**: an issuance of the ledger is that of a proof with the
digest. -/
theorem exists_issueCommit (h : SystemRunFrom H w τ s) {D : Str} {t : Trans Ledger Commit}
    (ht : t ∈ commits τ) (hissued : IssuedAs D c t) :
    ∃ τ₁ u τ₂ p, ∃ key : RootKey, τ = τ₁ ++ u :: τ₂ ∧ IssueCommit H p τ₁ u c ∧
      t.src = u.src.world.ledger ∧ t.dst = u.dst.world.ledger ∧
        proofDigest H key.val p = .ok D := by
  obtain ⟨record, check, x, hlabel, rfl, -⟩ := hissued
  obtain ⟨τ₁, u, τ₂, tid, pid, r, i, hcut, hl, -, hsrc, hdst, hsupplied⟩ := commit_supplied h ht
  rw [hlabel] at hl hsupplied
  obtain ⟨-, q, p, rfl, hargs⟩ := hsupplied
  obtain ⟨k, bytes, -, -, -, -, hdigest, -⟩ := hargs.token
  exact ⟨τ₁, u, τ₂, p, _, hcut, ⟨tid, pid, q, record, check, i, hl, hargs⟩, hsrc, hdst, hdigest⟩

/-- **What is returned was committed**: a call that returns a proof committed it, and its
receipt is that of the committed record. -/
theorem exists_issueCommit_of_ret (hH : H.Ideal) (h : SystemRunFrom H w (τ ++ u :: τ₂) s)
    {tid pid : ℕ} {q : IssueRequest} {issued : IssuedProof}
    (hl : u.label = .ret tid pid (.api (.issueProof q)) (.ok (.issued issued))) :
    ∃ τ₁ v τ₁' c i record check, τ = τ₁ ++ v :: τ₁' ∧ IssueCommit H issued.proof τ₁ v c ∧
      issued.receipt = c.receipt ∧ ∃ p r, v.label =
        .act tid p r (.store (.issueProof record check)) i (.ok c) := by
  obtain ⟨y, hy, houtcome⟩ := (h.ret hl).2
  cases houtcome with
  | raised e => cases hy
  | @issued proof check record committed args answer =>
    obtain rfl := Outcome.issued.inj (Except.ok.inj hy)
    obtain ⟨v, hv, pid', r', i, hvl⟩ := mem_acted.mp answer
    obtain ⟨τ₁, τ₁', rfl⟩ := List.append_of_mem hv
    rw [List.append_assoc, List.cons_append] at h
    obtain ⟨-, q', p', rfl, hargs'⟩ := (h.act hvl).2
    have heffect := issueCommit_effect h hvl
    obtain ⟨k, bytes, -, -, -, -, hdigest, -⟩ := args.token
    obtain ⟨k', bytes', -, -, -, -, hdigest', -⟩ := hargs'.token
    obtain ⟨-, rfl⟩ := hH.proofDigest_inj hdigest hdigest'
    refine ⟨τ₁, v, τ₁', committed, i, record, check, rfl,
      ⟨tid, pid', q', record, check, i, hvl, hargs'⟩, ?_, pid', _, hvl⟩
    rw [heffect.committed_eq]
    rfl

/-- **The call returns what it committed.** -/
theorem IssueCommit.returns (hH : H.Ideal) (h : SystemRunFrom H w τ s)
    (hcut : τ = τ₁ ++ u :: τ₂) {tid pid : ℕ} {q : IssueRequest} {record : ProofRecord}
    {check : Str} {i : Choice} (hl : u.label = .act tid pid (.api (.issueProof q))
      (.store (.issueProof record check)) i (.ok c))
    (hargs : IssueArgs H q (acted tid τ₁) p record check) {v : SystemTrans} (hv : v ∈ τ)
    {pid' : ℕ} {q' : IssueRequest} {issued : IssuedProof}
    (hret : v.label = .ret tid pid' (.api (.issueProof q')) (.ok (.issued issued))) :
    issued = { proof := p, receipt := c.receipt } := by
  obtain ⟨τ₃, τ₄, hcut'⟩ := List.append_of_mem hv
  have h' := hcut' ▸ h
  obtain ⟨τ₅, u', τ₆, c', i', record', check', rfl, hu', hreceipt, p', r', hl'⟩ :=
    exists_issueCommit_of_ret hH h' hret
  have hcut'' : τ = τ₅ ++ u' :: (τ₆ ++ v :: τ₄) := by simp [hcut']
  obtain ⟨rfl, rfl, -⟩ := issue_once h hcut hcut'' hl hl'
  obtain ⟨tid', pid'', q'', record'', check'', i'', hl'', hargs''⟩ := hu'
  rw [hl] at hl''
  injection hl'' with _ _ _ hcall _ hreply
  obtain ⟨rfl, rfl⟩ := StoreCall.issueProof.inj (Op.store.inj hcall)
  obtain rfl := Except.ok.inj hreply
  obtain ⟨k, bytes, -, -, -, -, hdigest, -⟩ := hargs.token
  obtain ⟨k', bytes', -, -, -, -, hdigest', -⟩ := hargs''.token
  obtain ⟨-, hproof⟩ := hH.proofDigest_inj hdigest hdigest'
  obtain ⟨proof, receipt⟩ := issued
  rw [hproof, ← hreceipt]

/-- The calls that return a proof are those of the thread that issued it. -/
theorem IssueCommit.returned_iff (hH : H.Ideal) (h : SystemRunFrom H w τ s)
    (hfresh : FreshTokens τ) (hcut : τ = τ₁ ++ u :: τ₂) (hu : IssueCommit H p τ₁ u c)
    {v : SystemTrans} (hv : v ∈ τ) (tid pid : ℕ) (q : IssueRequest) (issued : IssuedProof)
    (hret : v.label = .ret tid pid (.api (.issueProof q)) (.ok (.issued issued))) :
    issued.proof = p ↔ ∃ pid' r, u.label.thread? = some (tid, pid', r) := by
  constructor
  · rintro rfl
    obtain ⟨τ₃, τ₄, hcut'⟩ := List.append_of_mem hv
    obtain ⟨τ₅, u', τ₆, c', i', record', check', rfl, hu', -, p', r', hl'⟩ :=
      exists_issueCommit_of_ret hH (hcut' ▸ h) hret
    have hcut'' : τ = τ₅ ++ u' :: (τ₆ ++ v :: τ₄) := by simp [hcut']
    obtain ⟨-, rfl, -⟩ := hu.unique h hfresh hcut hcut'' hu'
    exact ⟨p', r', by rw [hl']; rfl⟩
  · rintro ⟨pid', r, hthread⟩
    obtain ⟨tid', pid'', q', record, check, i, hl, hargs⟩ := hu
    rw [hl] at hthread
    obtain ⟨rfl, -⟩ := Prod.mk.inj (Option.some.inj hthread)
    rw [IssueCommit.returns hH h hcut hl hargs hv hret]

end Onceproof

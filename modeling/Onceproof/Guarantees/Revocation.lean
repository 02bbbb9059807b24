import Onceproof.Ledger.Authority
import Onceproof.Ledger.Decisions
import Onceproof.Scenario

/-!
# Revocation is final

A revoked client stays revoked with all of its credentials (`Ledger.Revoked`), whatever the
clock reads later. `RevocationFinal` collects what this means for a run after a committed
revocation: for the checks in the store, the early authentication, issuance, rotation, and
every way in which a verification may end as verified.
-/

namespace Onceproof

/-! ### Runs after a revocation -/

/-- What authorized the result of a verification: the check in the transaction that returned
it, or, if no transaction was needed, the check before the idempotency lookup. -/
inductive SystemEvent.Authorizes (tid : ℕ) (result : VerificationResult)
    (hist : Hist) : SystemEvent → Prop
  | transaction (p : ℕ) (r : Request) (a : ConsumeProof) (i : Choice) :
      Authorizes tid result hist (.act tid p r (.store (.consumeProof a)) i (.ok result))
  | cached (p : ℕ) (r : Request) (id : Str) (i : Choice) (credential : CredentialRow)
      (client : ClientRow) (noStore : hist.OnlyCleans) :
      Authorizes tid result hist (.act tid p r (.joined id) i (.ok (some (credential, client))))

/-- What a committed revocation of a client means for the rest of the run. -/
structure RevocationFinal (clientId : Str) (τ₁ : List SystemTrans) (t : SystemTrans)
    (τ₂ : List SystemTrans) (s : SystemState) : Prop where
  /-- The client and its credentials stay revoked. -/
  status : s.world.ledger.Revoked clientId
  /-- The checks in the store accept no credential of the client, whatever the clock reads. -/
  store : ∀ u ∈ τ₂, ∀ role credentialId now,
    ¬ u.src.world.ledger.Accepted role credentialId clientId now
  /-- The early authentication accepts no credential row of the client that it reads. -/
  authentication : ∀ u ∈ τ₂, ∀ tid p r id i row,
    u.label = .act tid p r (.credential id) i (.ok (some row)) → row.clientId = clientId →
      ∀ now, credentialIsAccepted row now = false
  /-- No proof is issued for the client. -/
  issue : ∀ u ∈ commits τ₂, ∀ record check x reply,
    u.label = ⟨.issueProof record check, x, reply⟩ → record.clientId ≠ clientId
  /-- No transaction verifies a proof for the client, freshly or by a replay. -/
  consume : ∀ u ∈ commits τ₂, ∀ a x result,
    u.label = ⟨.consumeProof a, x, result⟩ → a.clientId = clientId → result.verified = false
  /-- Every rotation fails and leaves the ledger alone. -/
  rotate : ∀ u ∈ τ₂, ∀ tid p r a i x,
    u.label = .act tid p r (.store (.rotateCredential a)) i x → a.clientId = clientId →
      (∃ e, x = .error e) ∧ u.dst.world.ledger = u.src.world.ledger
  /-- A verified result for a proof of the client was authorized before the revocation. -/
  verify : ∀ τ₃ u τ₄, τ₂ = τ₃ ++ u :: τ₄ → ∀ tid p q result c,
    u.label = .ret tid p (.api (.verifyProof q)) (.ok (.verification result)) →
      result.verified = true → result.claims = some c → c.clientId = clientId →
        ∃ v ∈ τ₁, v.label.Authorizes tid result (acted tid (τ₁ ++ t :: τ₃))

variable {H : HashLib} {τ₁ τ₂ : List SystemTrans} {t : SystemTrans} {s : SystemState}
variable {clientId : Str}

/-- The revocation itself leaves the client without authority. -/
theorem revoked_dst (h : SystemRun H (τ₁ ++ t :: τ₂) s) {tid p : ℕ} {r : Request} {now : ℤ}
    {i : Choice} {reply : Bool}
    (hl : t.label = .act tid p r (.store (.revokeClient clientId now)) i (.ok reply)) :
    t.dst.world.ledger.Revoked clientId := by
  obtain ⟨h₁, hs, -⟩ := h.of_cut
  obtain ⟨kidBytes, key, hrun⟩ := h
  rcases Op.exec_store (hrun.act hl).1 with ⟨reply', hreply, hrun', -⟩ | ⟨e, he, -⟩
  · obtain rfl := Except.ok.inj hreply
    have hdst : SystemRun H (τ₁ ++ [⟨t.src, t.label, t.dst⟩]) t.dst := by
      obtain ⟨kidBytes, key, h₁⟩ := h₁
      exact ⟨kidBytes, key, Run.snoc h₁ hs⟩
    obtain ⟨c, hc, hrevoked⟩ := (Store.revokeClient_ok hrun').revoked_client
    exact run_revoked hdst hc hrevoked
  · cases he

/-- The authorization of a verified result lies before the revocation. -/
private theorem verify_authorized (h : SystemRun H (τ₁ ++ t :: τ₂) s)
    (hafter : ∀ u ∈ τ₂, u.src.world.ledger.Revoked clientId)
    (hconsume : ∀ u ∈ commits τ₂, ∀ a x result,
      u.label = ⟨.consumeProof a, x, result⟩ → a.clientId = clientId → result.verified = false)
    {tid₀ p₀ : ℕ} {r₀ : Request} {now : ℤ} {i₀ : Choice} {reply : Bool}
    (hl : t.label = .act tid₀ p₀ r₀ (.store (.revokeClient clientId now)) i₀ (.ok reply))
    {τ₃ τ₄ : List SystemTrans} {u : SystemTrans} (hτ₂ : τ₂ = τ₃ ++ u :: τ₄) {tid p : ℕ}
    {q : VerifyRequest} {result : VerificationResult} {c : ProofClaims}
    (hu : u.label = .ret tid p (.api (.verifyProof q)) (.ok (.verification result)))
    (hverified : result.verified = true) (hclaims : result.claims = some c)
    (howner : c.clientId = clientId) :
    ∃ v ∈ τ₁, v.label.Authorizes tid result (acted tid (τ₁ ++ t :: τ₃)) := by
  have hcut : τ₁ ++ t :: τ₂ = (τ₁ ++ t :: τ₃) ++ u :: τ₄ := by simp [hτ₂]
  rw [hcut] at h
  have hpre := h.of_cut.1
  obtain ⟨kidBytes, key, hrun⟩ := h
  obtain ⟨y, hy, houtcome⟩ := (hrun.ret hu).2
  obtain rfl : y = .ok result := by
    cases y with
    | error e => cases hy
    | ok y => rw [Outcome.verification.inj (Except.ok.inj hy)]
  -- a transition of the thread is before the revocation, the revocation itself, or after it
  have hplace : ∀ {v : SystemTrans}, v ∈ τ₁ ++ t :: τ₃ → v ∈ τ₁ ∨ v = t ∨ v ∈ τ₂ := by
    intro v hv
    rcases List.mem_append.mp hv with hv | hv
    · exact Or.inl hv
    · rcases List.mem_cons.mp hv with hv | hv
      · exact Or.inr (Or.inl hv)
      · exact Or.inr (Or.inr (hτ₂ ▸ List.mem_append_left _ hv))
  have hexec : ∀ {v : SystemTrans} {c : Op} {a : c.Ans} {p : ℕ} {r : Request} {i : Choice},
      v ∈ τ₁ ++ t :: τ₃ → v.label = .act tid p r c i a →
        c.exec p tid i v.src.world = some (a, v.dst.world) :=
    fun hv hvl => hrun.exec (List.mem_append_left _ hv) hvl
  have hledger : ∀ {v : SystemTrans}, v ∈ τ₁ ++ t :: τ₃ →
      ∃ cs, Run LedgerStep .empty cs v.src.world.ledger := by
    intro v hv
    obtain ⟨a, b, hab⟩ := List.append_of_mem hv
    rw [hab] at hpre
    exact ⟨_, hpre.of_cut.1.ledger⟩
  cases houtcome with
  | rejected => cases hverified
  | @consumed a result args cached answer =>
    obtain ⟨v, hv, p', r', i', hvl⟩ := mem_acted.mp answer
    obtain ⟨cs, hcs⟩ := hledger hv
    have hstep : LedgerStep v.src.world.ledger ⟨.consumeProof a, i'.chance, result⟩
        v.dst.world.ledger := by
      rcases Op.exec_store (hexec hv hvl) with ⟨reply', hreply, hs, -⟩ | ⟨e, he, -⟩
      · obtain rfl := Except.ok.inj hreply
        exact hs
      · cases he
    rcases hplace hv with hv | rfl | hv
    · exact ⟨v, hv, hvl ▸ .transaction p' r' a i'⟩
    · rw [hl] at hvl
      cases hvl
    -- no attempt after the revocation is accepted
    · have hcommit : (⟨v.src.world.ledger, ⟨.consumeProof a, i'.chance, result⟩,
          v.dst.world.ledger⟩ : Trans Ledger Commit) ∈ commits τ₂ :=
        mem_commits.mpr ⟨v, hv, tid, p', r', i', hvl, rfl, rfl, rfl⟩
      have hfalse := hconsume _ hcommit a i'.chance result rfl
        ((consume_claims hcs hstep hclaims).symm.trans howner)
      rw [hverified] at hfalse
      cases hfalse
  | @cached a result cleans args cached =>
    cases cached with
    | @replayed k row result keyed found same read =>
      obtain ⟨v, hv, p', r', i', hvl⟩ := mem_acted.mp found
      obtain ⟨cs, hcs⟩ := hledger hv
      have hrow := Op.exec_idempotent (hexec hv hvl)
      have hclient : a.clientId = clientId :=
        (stored_claims hcs hrow.symm read hclaims).symm.trans howner
      obtain ⟨b₁, b₂, hb⟩ := List.append_of_mem hv
      rw [hb, List.append_assoc, List.cons_append] at hrun
      -- a cached answer is read after the client was found active
      obtain ⟨id, credential, client, now', hjoined, -, hactive, hcredential, hacc⟩ :=
        (hrun.act hvl).2
      obtain ⟨v', hv', p'', r'', i'', hvl'⟩ := mem_acted.mp hjoined
      have hv' : v' ∈ τ₁ ++ t :: τ₃ := hb ▸ List.mem_append_left _ hv'
      rcases hplace hv' with hin | rfl | hin
      · exact ⟨v', hin, hvl' ▸ .cached p'' r'' id i'' credential client cleans⟩
      · rw [hl] at hvl'
        cases hvl'
      · obtain ⟨c', hc', hrevoked⟩ := (hafter v' hin).client
        have hrow' := (Op.exec_joined (hexec hv' hvl')).symm
        have hlookup := (Ledger.Accepts.lookup ⟨hrow', hactive, rfl, hacc⟩).2.2
        rw [hcredential, hclient, hc'] at hlookup
        rw [← Option.some.inj hlookup, hrevoked] at hactive
        cases hactive

/-- **Revocation is final.** -/
theorem revocation_final (h : SystemRun H (τ₁ ++ t :: τ₂) s) {tid p : ℕ} {r : Request}
    {now : ℤ} {i : Choice} {reply : Bool}
    (hl : t.label = .act tid p r (.store (.revokeClient clientId now)) i (.ok reply)) :
    RevocationFinal clientId τ₁ t τ₂ s := by
  have hdst := revoked_dst h hl
  obtain ⟨kidBytes, key, hrun⟩ := h
  obtain ⟨hend, hafter⟩ := hrun.after (I := fun db => db.Revoked clientId)
    (fun hI hs hwf => hI.step hs hwf) hdst
  have hmem : ∀ {u : SystemTrans}, u ∈ τ₂ → u ∈ τ₁ ++ t :: τ₂ :=
    fun hu => List.mem_append_right _ (List.mem_cons_of_mem _ hu)
  have hcommit : ∀ {u : Trans Ledger Commit}, u ∈ commits τ₂ →
      LedgerStep u.src u.label u.dst ∧ u.src.Revoked clientId := by
    intro u hu
    obtain ⟨v, hv, -, -, -, -, -, -, hsrc, -⟩ := mem_commits.mp hu
    exact ⟨(ledgerRun hrun.cut.2.2).step_of_mem hu, hsrc ▸ (hafter v hv).1⟩
  -- an accepted attempt needs an active client, which is gone for good
  have hconsume : ∀ u ∈ commits τ₂, ∀ a x result,
      u.label = ⟨.consumeProof a, x, result⟩ → a.clientId = clientId →
        result.verified = false := by
    intro u hu a x result hul howner
    obtain ⟨hs, hrevoked⟩ := hcommit hu
    obtain ⟨db, l, db'⟩ := u
    dsimp only at hul hs hrevoked
    rw [hul] at hs
    cases hs.effect with
    | consume effect =>
      cases effect with
      | refused => rfl
      | replayed _ accepted => exact absurd (howner ▸ accepted) (hrevoked.not_accepted _ _ _)
      | decided effect =>
        obtain ⟨credential, client, hacc, -⟩ := effect.authorized
        exact absurd ⟨credential, client, howner ▸ hacc⟩ (hrevoked.not_accepted _ _ _)
  refine ⟨hend, fun u hu role credentialId now => (hafter u hu).1.not_accepted _ _ _, ?_, ?_,
    hconsume, ?_, fun τ₃ u τ₄ hτ₂ tid' p' q result c hu hv hc howner =>
      verify_authorized ⟨kidBytes, key, hrun⟩ (fun u hu => (hafter u hu).1) hconsume hl hτ₂ hu
        hv hc howner⟩
  · intro u hu tid' p' r' id i' row hul howner now'
    have hrow := (Op.exec_credential (hrun.exec (hmem hu) hul)).symm
    have hstatus := (hafter u hu).1.credentials row (Table.get?_eq_some.mp hrow).1 howner
    simp [credentialIsAccepted, hstatus]
  · intro u hu record check x reply' hul howner
    obtain ⟨hs, hrevoked⟩ := hcommit hu
    obtain ⟨db, l, db'⟩ := u
    dsimp only at hul hs hrevoked
    rw [hul] at hs
    cases hs.effect with
    | issue effect =>
      obtain ⟨credential, client, hacc, -⟩ := effect.authorized
      exact absurd ⟨credential, client, howner ▸ hacc⟩ (hrevoked.not_accepted _ _ _)
  · intro u hu tid' p' r' a i' x hul howner
    rcases Op.exec_store (hrun.exec (hmem hu) hul) with ⟨reply', -, hs, -⟩ | ⟨e, he, hw⟩
    · obtain ⟨client, hclient, hactive⟩ := (Store.rotateCredential_ok hs).active
      obtain ⟨c, hc, hrevoked⟩ := (hafter u hu).1.client
      rw [howner, hc] at hclient
      rw [← Option.some.inj hclient, hrevoked] at hactive
      cases hactive
    · exact ⟨⟨e, he⟩, by rw [hw]⟩

/-- The client that an event revokes. -/
def SystemEvent.revokes? : SystemEvent → Option Str
  | .act _ _ _ (.store (.revokeClient clientId _)) _ (.ok _) => some clientId
  | _ => none

/-- A client is revoked, and the verification of its proof is rejected. -/
theorem revocation_final_served : ∃ τ₁ t τ₂ s, SystemRun plainHash (τ₁ ++ t :: τ₂) s ∧
    (verificationResults τ₂).map VerificationResult.reason = [some .credentialRejected] ∧
    RevocationFinal (Scenario.clientId 24) τ₁ t τ₂ s := by
  obtain ⟨τ₁, t, τ₂, s, hrun, ht, hrejected⟩ := exists_systemRun_cut
    (Scenario.served ++
      Scenario.thread 0 2 10 (.api (.issueProof (Scenario.issueRequest 25))) 1001 40 ++
      Scenario.thread 0 3 2 (.api (.revokeClient (.str (Scenario.clientId 24)))) 1002 60 ++
      Scenario.thread 0 4 5 (.api (.verifyProof
        (Scenario.verifyRequest 28 (Scenario.proof 47) (lit "login") none))) 1003 70)
    (fun l => SystemEvent.revokes? l = some (Scenario.clientId 24))
    (fun _ _ τ₂ _ => (verificationResults τ₂).map VerificationResult.reason =
      [some .credentialRejected]) (by decide +kernel)
  refine ⟨τ₁, t, τ₂, s, hrun, hrejected, ?_⟩
  have hl := of_decide_eq_true ht
  unfold SystemEvent.revokes? at hl
  split at hl
  · rename_i tid p r clientId now i reply heq
    obtain rfl := Option.some.inj hl
    exact revocation_final hrun heq
  · cases hl

end Onceproof

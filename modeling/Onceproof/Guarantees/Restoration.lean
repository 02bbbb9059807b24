import Onceproof.Ledger.Restored
import Onceproof.Guarantees.SingleUse

/-!
# Restoring a backup

A backup may be restored beside the instance that it was made of, and the two go on without
knowing of each other. `restored_safely` says what the copy never does: before it is activated it
commits nothing but cleanups, and afterwards no client of the backup is served again, whatever the
copy still holds of it. `accepted_by_one_instance` says what this is for: over any number of
instances that were restored from each other, a proof is accepted by one of them, and by one
decision.
-/

namespace Onceproof

variable {H : HashLib} {s s' : SystemState} {σ τ τ₁ τ₁' τ₂ τ₂' : List SystemTrans}
variable {d d' : SystemTrans} {p : Str} {a a' : ConsumeProof}
variable {result result' : VerificationResult}

/-! ### One copy -/

/-- What an instance that was started over the backup `b` keeps to. -/
structure RestoredSafely (b : Ledger) (τ : List SystemTrans) : Prop where
  /-- Before its activation, the instance commits nothing but cleanups, and holds no row that is
  not in the backup. -/
  dormant : ∀ cs₁ t cs₂, commits τ = cs₁ ++ t :: cs₂ → (∀ t' ∈ cs₁, ¬ t'.label.call.Activates) →
    ((∃ now, t.label.call = .cleanup now) ∨ t.label.call.Activates) ∧ t.src.RemainsOf b
  /-- What is committed about a client of the backup changes nothing and accepts nothing. -/
  powerless : ∀ t ∈ commits τ, ∀ id, (b.clients.get? id).isSome = true →
    t.label.call.client? = some id → t.label.Powerless id ∧ t.dst = t.src
  /-- The early authentication accepts no credential of a client of the backup, unless the
  instance is not active yet. -/
  authentication : ∀ u ∈ τ, ∀ tid pid r id i row,
    u.label = .act tid pid r (.credential id) i (.ok (some row)) →
      (b.clients.get? row.clientId).isSome = true →
        u.src.world.ledger.restoreRequired = true ∨ ∀ now, credentialIsAccepted row now = false
  /-- A verification that succeeds, freshly or by a replay, follows the activation, and is for a
  client that is not in the backup. -/
  answers : ∀ σ u ρ, τ = σ ++ u :: ρ → ∀ tid pid q result,
    u.label = .ret tid pid (.api (.verifyProof q)) (.ok (.verification result)) →
      result.verified = true → (∃ t ∈ commits σ, t.label.call.Activates) ∧
        ∃ claims, result.claims = some claims ∧ b.clients.get? claims.clientId = none

/-- **A restored copy is safe.** -/
theorem restored_safely (h : RestoredRun H s τ s') :
    RestoredSafely (Store.backup s.world.ledger) τ where
  dormant cs₁ t cs₂ hcs hnone := by
    obtain ⟨hs, -, hdescends⟩ := h.commit_descendsFrom (hcs ▸ List.mem_append_right _
      List.mem_cons_self)
    -- only an activation opens the ledger, and there was none
    have hsealed : t.src.restoreRequired = true := by
      by_contra hopen
      obtain ⟨t', ht', hactivates⟩ := exists_activation ((hcs ▸ ledgerRun h.run).of_cut.1)
        (Store.restoreRequired_backup _) (Bool.not_eq_true _ ▸ hopen)
      exact hnone t' ht' hactivates
    exact ⟨hs.of_sealed hsealed, hdescends.dormant hsealed⟩
  powerless t ht id hid hl := by
    obtain ⟨hs, -, hdescends⟩ := h.commit_descendsFrom ht
    cases hseal : t.src.restoreRequired with
    | false => exact hs.powerless (hdescends.activated hseal id hid) hl
    | true =>
      -- while the ledger is sealed, no commit names a client
      rcases hs.of_sealed hseal with ⟨now, hcall⟩ | hactivates
      · rw [hcall] at hl
        cases hl
      · cases hcall : t.label.call with
        | activateRestoredBackup now =>
          rw [hcall] at hl
          cases hl
        | _ => simp [hcall, StoreCall.Activates] at hactivates
  authentication u hu tid pid r id i row hl howner := by
    have hrow := (Op.exec_credential (h.run.exec hu hl)).symm
    have hdescends := h.descendsFrom hu
    cases hseal : u.src.world.ledger.restoreRequired with
    | true => exact Or.inl rfl
    | false =>
      refine Or.inr fun now => ?_
      have hstatus := (hdescends.activated hseal _ howner).credentials row
        (Table.get?_eq_some.mp hrow).1 rfl
      simp [credentialIsAccepted, hstatus]
  answers σ u ρ hcut tid pid q result hl hverified := by
    subst hcut
    obtain ⟨-, -, t, ht, a, x, ⟨-, heffect⟩, hforeign, -⟩ := h.decided hl hverified
    constructor
    · obtain ⟨cs₁, cs₂, hcs⟩ := List.append_of_mem ht
      obtain ⟨t', ht', hactivates⟩ := exists_activation ((hcs ▸ ledgerRun h.run.cut.1).of_cut.1)
        (Store.restoreRequired_backup _) heffect.operational
      exact ⟨t', hcs ▸ List.mem_append_left _ ht', hactivates⟩
    · obtain ⟨r, -, howner, -, -, -, -, -, rfl⟩ := heffect.accepted hverified
      refine ⟨_, rfl, ?_⟩
      rw [← howner] at hforeign
      exact hforeign

/-! ### A copy that is activated -/

namespace Scenario

/-- The only proof is issued, and a backup is made. -/
def backedUp : List SystemMove :=
  served ++ thread 0 2 10 (.api (.issueProof (issueRequest 25))) 1001 40

/-- The original accepts the proof after the backup. -/
def acceptedAfterwards : List SystemMove :=
  thread 0 3 6 (.api (.verifyProof (verifyRequest 28 (proof 47) (lit "login") none))) 1007 70

/-- A copy is activated and creates a client. It is asked about the proof of the backup, and then
about a proof of its own. -/
def activatedCopy : List SystemMove :=
  thread 1 0 8 (.command .dbActivateRestore) 1005 60 ++
    thread 0 1 10 (.command .serve) 1006 80 ++
    thread 0 2 16 (.api (.createClient clientRequest)) 1006 100 ++
    thread 0 3 5 (.api (.verifyProof (verifyRequest 28 (proof 47) (lit "login") none))) 1007 130 ++
    thread 0 4 10 (.api (.issueProof (issueRequest 105))) 1008 140 ++
    thread 0 5 6 (.api (.verifyProof (verifyRequest 108 (proof 147) (lit "login") none))) 1009 160

end Scenario

/-- A property of three simulations, of a run, of its continuation and of a copy of the state
between them, is a property of runs. -/
theorem exists_restoredRun (js js₁ js₂ : List SystemMove)
    (P : List SystemTrans → List SystemTrans → Prop) [∀ τ τ', Decidable (P τ τ')]
    (h : (Scenario.run js).any (fun x => ((system plainHash).simulate x.2 js₁).any fun y =>
      ((system plainHash).simulate (.start (.restored x.2.world.ledger x.2.world.keyring)) js₂).any
        fun z => P (x.1 ++ y.1) z.1) = true) :
    ∃ s τ τ' s₁ s₂, SystemRun plainHash τ s₁ ∧ RestoredRun plainHash s τ' s₂ ∧ P τ τ' := by
  obtain ⟨⟨τ, s⟩, hrun, h⟩ := (Option.any_eq_true _ _).mp h
  obtain ⟨⟨τ₁, s₁⟩, hrun₁, h⟩ := (Option.any_eq_true _ _).mp h
  obtain ⟨⟨τ₂, s₂⟩, hrun₂, hP⟩ := (Option.any_eq_true _ _).mp h
  have hstart := systemRun_of_simulate hrun
  have hcopy : RestoredRun plainHash s τ₂ s₂ :=
    ⟨⟨_, .created hstart⟩, Machine.run_of_simulate hrun₂⟩
  obtain ⟨kidBytes, key, hbefore⟩ := hstart
  exact ⟨s, τ ++ τ₁, τ₂, s₁, s₂, ⟨kidBytes, key, hbefore.append (Machine.run_of_simulate hrun₁)⟩,
    hcopy, of_decide_eq_true hP⟩

/-- The copy rejects the proof of the backup and accepts its own. -/
theorem restored_safely_activated : ∃ s τ s', RestoredRun plainHash s τ s' ∧
    (verificationResults τ).map VerificationResult.reason = [some .credentialRejected, none] ∧
    RestoredSafely (Store.backup s.world.ledger) τ := by
  obtain ⟨s, τ, τ', s₁, s₂, -, hcopy, hresults⟩ := exists_restoredRun Scenario.backedUp
    Scenario.acceptedAfterwards Scenario.activatedCopy
    (fun _ τ' => (verificationResults τ').map VerificationResult.reason =
      [some .credentialRejected, none]) (by decide +kernel)
  exact ⟨s, τ', s₂, hcopy, hresults, restored_safely hcopy⟩

/-! ### Many copies -/

/-- The run of an instance, new or restored. -/
inductive InstanceRun (H : HashLib) (τ : List SystemTrans) : Prop
  | created {s : SystemState} (run : SystemRun H τ s)
  | restored {s s' : SystemState} (run : RestoredRun H s τ s')

namespace InstanceRun

theorem exists_from (h : InstanceRun H τ) : ∃ w s, SystemRunFrom H w τ s := by
  cases h with
  | created run =>
    obtain ⟨kidBytes, key, hrun⟩ := run
    exact ⟨_, _, hrun⟩
  | restored run => exact ⟨_, _, run.run⟩

theorem exists_decision (h : InstanceRun H τ) (hH : H.Ideal)
    (hreturned : VerificationReturned τ p result) (hverified : result.verified = true) :
    ∃ τ₁ d τ₂ a, τ = τ₁ ++ d :: τ₂ ∧ Decision H p τ₁ d a result := by
  cases h with
  | created run => exact Onceproof.exists_decision hH run hreturned hverified
  | restored run => exact run.exists_decision hH hreturned hverified

/-- **An instance accepts only what it has issued**, under the digest of the issuance. -/
theorem issued (h : InstanceRun H (τ₁ ++ d :: τ₂)) (hH : H.Ideal) (hd : Decision H p τ₁ d a result)
    (hverified : result.verified = true) :
    ∃ σ₁ u σ₂ c, τ₁ = σ₁ ++ u :: σ₂ ∧ IssueCommit H p σ₁ u c ∧
      a.tokenDigest = c.tokenDigest := by
  cases h with
  | created run =>
    obtain ⟨σ₁, u, σ₂, c, r, hcut, hissue, hr, hof, -⟩ := hd.issued hH run hverified
    refine ⟨σ₁, u, σ₂, c, hcut, hissue, ?_⟩
    rw [← hof.tokenDigest]
    exact (Table.get?_eq_some.mp hr).2.symm
  | restored run => exact run.issued hH hd hverified

/-- No acceptance of a proof follows another one. -/
private theorem not_accepted_again (h : InstanceRun H τ) (hH : H.Ideal) (hfresh : FreshTokens τ)
    {m : List SystemTrans} (hcut : τ = τ₁ ++ d :: m ++ d' :: τ₂) (hd : Decision H p τ₁ d a result)
    (hd' : Decision H p (τ₁ ++ d :: m) d' a' result') (hv : result.verified = true)
    (hv' : result'.verified = true) : False := by
  have hfirst : τ = τ₁ ++ d :: (m ++ d' :: τ₂) := by simp [hcut]
  obtain ⟨w, s, hrun⟩ := h.exists_from
  obtain ⟨σ₁, u, σ₂, c, rfl, hissue, hdigest⟩ := (hfirst ▸ h).issued hH hd hv
  obtain ⟨σ₁', u', σ₂', c', hcut', hissue', hdigest'⟩ := (hcut ▸ h).issued hH hd' hv'
  have hissued : τ = σ₁ ++ u :: (σ₂ ++ d :: (m ++ d' :: τ₂)) := by simp [hfirst]
  have hissued' : τ = σ₁' ++ u' :: (σ₂' ++ d' :: τ₂) := by simp [hcut, hcut']
  obtain ⟨-, -, -, rfl⟩ := hissue.unique hrun hfresh hissued hissued' hissue'
  -- the first acceptance has spent the digest, and between the two it was not issued again
  obtain ⟨cm, -, haccepted⟩ := hd.acceptedAs hv
  obtain ⟨cm', -, haccepted'⟩ := hd'.acceptedAs hv'
  rw [hdigest] at haccepted
  rw [hdigest'] at haccepted'
  have hmid : Run (system H).Step d.dst m d'.src := (hfirst ▸ hrun).cut.2.2.of_cut.1
  obtain ⟨t, ht, c', hagain⟩ := issued_between (ledgerRun hmid) haccepted.spent
    haccepted'.not_spent
  refine hissue.not_reissued hH (hissued ▸ hrun) (hissued ▸ hfresh) (commits_subset ?_ ht) hagain
  intro v hv
  simp [hv]

/-- **An instance accepts a proof by one decision.** -/
theorem decision_unique (h : InstanceRun H τ) (hH : H.Ideal) (hfresh : FreshTokens τ)
    (hcut : τ = τ₁ ++ d :: τ₂) (hcut' : τ = τ₁' ++ d' :: τ₂') (hd : Decision H p τ₁ d a result)
    (hd' : Decision H p τ₁' d' a' result') (hv : result.verified = true)
    (hv' : result'.verified = true) : result = result' := by
  rcases cut_cases (hcut.symm.trans hcut') with ⟨rfl, rfl, -⟩ | ⟨m, rfl, hm⟩ | ⟨m, rfl, hm⟩
  · obtain ⟨tid, pid, q, i, k, hl, -⟩ := hd
    obtain ⟨tid', pid', q', i', k', hl', -⟩ := hd'
    rw [hl] at hl'
    injection hl' with _ _ _ hcall _ hreply
    obtain rfl := StoreCall.consumeProof.inj (Op.store.inj hcall)
    exact Except.ok.inj hreply
  · exact (not_accepted_again h hH hfresh hcut' hd hd' hv hv').elim
  · exact (not_accepted_again h hH hfresh hcut hd' hd hv' hv).elim

end InstanceRun

/-- Runs that share no token draw no token twice. -/
theorem FreshTokens.of_flatten {τs : List (List SystemTrans)} (h : FreshTokens τs.flatten)
    {i j : Fin τs.length} {x : ℕ × Bytes} (hi : x ∈ tokenDraws τs[i])
    (hj : x ∈ tokenDraws τs[j]) : FreshTokens τs[i] ∧ i = j := by
  unfold FreshTokens tokenDraws at h
  rw [List.filterMap_flatten, List.nodup_flatten, List.pairwise_map, List.forall_mem_map] at h
  obtain ⟨hone, htwo⟩ := h
  refine ⟨hone _ (List.getElem_mem _), ?_⟩
  rw [List.pairwise_iff_get] at htwo
  rcases lt_trichotomy i j with hlt | heq | hgt
  · exact (htwo i j hlt hi hj).elim
  · exact heq
  · exact (htwo j i hgt hj hi).elim

/-- **One acceptance over all instances**: however instances were restored from each other, a
proof is accepted by one of them, and always with the same result. -/
theorem accepted_by_one_instance (hH : H.Ideal) {τs : List (List SystemTrans)}
    (h : ∀ τ ∈ τs, InstanceRun H τ) (hfresh : FreshTokens τs.flatten) (i j : Fin τs.length)
    (hi : VerificationReturned τs[i] p result) (hj : VerificationReturned τs[j] p result')
    (hv : result.verified = true) (hv' : result'.verified = true) : i = j ∧ result = result' := by
  have hinstance : ∀ k : Fin τs.length, InstanceRun H τs[k] := fun k => h _ (List.getElem_mem _)
  -- the token of the proof was drawn by every instance that accepted it
  have hdrawn : ∀ {k : Fin τs.length} {result : VerificationResult},
      VerificationReturned τs[k] p result → result.verified = true →
        ∃ kid bytes, p = Service.proofToken kid bytes ∧ (32, bytes) ∈ tokenDraws τs[k] := by
    intro k result hreturned hverified
    obtain ⟨τ₁, d, τ₂, a, hcut, hd⟩ := (hinstance k).exists_decision hH hreturned hverified
    obtain ⟨σ₁, u, σ₂, c, rfl, hissue, -⟩ := (hcut ▸ hinstance k).issued hH hd hverified
    obtain ⟨kid, bytes, hp, hdraw⟩ := hissue.drawn
    refine ⟨kid, bytes, hp, ?_⟩
    rw [hcut]
    exact List.mem_filterMap.mpr (List.mem_filterMap.mp hdraw |>.imp fun v hv =>
      ⟨by simp [hv.1], hv.2⟩)
  obtain ⟨kid, bytes, hp, hdraw⟩ := hdrawn hi hv
  obtain ⟨kid', bytes', hp', hdraw'⟩ := hdrawn hj hv'
  obtain ⟨-, rfl⟩ := Service.proofToken_inj (hp.symm.trans hp')
  obtain ⟨hfresh', rfl⟩ := hfresh.of_flatten hdraw hdraw'
  obtain ⟨τ₁, d, τ₂, a, hcut, hd⟩ := (hinstance i).exists_decision hH hi hv
  obtain ⟨τ₁', d', τ₂', a', hcut', hd'⟩ := (hinstance i).exists_decision hH hj hv'
  exact ⟨rfl, (hinstance i).decision_unique hH hfresh' hcut hcut' hd hd' hv hv'⟩

/-- The verified result of a proof that an event returns. -/
def SystemEvent.accepted? (p : Str) : SystemEvent → Option VerificationResult
  | .ret _ _ (.api (.verifyProof q)) (.ok (.verification result)) =>
    match q.proof with
    | .str p' => if p' = p ∧ result.verified then some result else none
    | _ => none
  | _ => none

/-- The acceptances of a proof in a run. -/
def acceptances (p : Str) (τ : List SystemTrans) : List VerificationResult :=
  τ.filterMap fun t => t.label.accepted? p

theorem verificationReturned_of_mem (h : result ∈ acceptances p τ) :
    VerificationReturned τ p result ∧ result.verified = true := by
  obtain ⟨t, ht, haccepted⟩ := List.mem_filterMap.mp h
  unfold SystemEvent.accepted? at haccepted
  split at haccepted
  · rename_i tid pid q result' hl
    split at haccepted
    · rename_i p' hp
      split_ifs at haccepted with hif
      obtain ⟨rfl, hverified⟩ := hif
      obtain rfl := Option.some.inj haccepted
      exact ⟨⟨t, ht, tid, pid, q, hl, hp⟩, hverified⟩
    · cases haccepted
  · cases haccepted

/-- The original accepts the proof of the backup, so the copy never does. -/
theorem accepted_by_one_instance_activated : ∃ τ τ', InstanceRun plainHash τ ∧
    InstanceRun plainHash τ' ∧ (acceptances (Scenario.proof 47) τ).length = 1 ∧
    (acceptances (Scenario.proof 147) τ').length = 1 ∧
    ∀ result, VerificationReturned τ' (Scenario.proof 47) result → result.verified = false := by
  obtain ⟨s, τ, τ', s₁, s₂, hrun, hcopy, hfresh, hone, hother⟩ := exists_restoredRun
    Scenario.backedUp Scenario.acceptedAfterwards Scenario.activatedCopy
    (fun τ τ' => FreshTokens [τ, τ'].flatten ∧ (acceptances (Scenario.proof 47) τ).length = 1 ∧
      (acceptances (Scenario.proof 147) τ').length = 1) (by decide +kernel)
  refine ⟨τ, τ', .created hrun, .restored hcopy, hone, hother, fun result' hreturned => ?_⟩
  obtain ⟨result, hresult⟩ := List.exists_mem_of_length_pos (hone ▸ Nat.one_pos)
  obtain ⟨hi, hv⟩ := verificationReturned_of_mem hresult
  by_contra hv'
  have hinstances : ∀ σ ∈ [τ, τ'], InstanceRun plainHash σ := by
    simpa using ⟨.created hrun, .restored hcopy⟩
  obtain ⟨hsame, -⟩ := accepted_by_one_instance plainHash_ideal hinstances hfresh 0 1 hi hreturned
    hv (Bool.not_eq_false _ ▸ hv')
  cases hsame

end Onceproof

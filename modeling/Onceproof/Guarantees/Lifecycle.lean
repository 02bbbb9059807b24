import Onceproof.Keys.Lookup
import Onceproof.Ledger.Lifecycle
import Onceproof.Scenario

/-!
# The proof lifecycle

The fresh decisions about one proof, in commit order, go through the lifecycle of the proof and
never back (`proof_lifecycle`): mismatches, then an acceptance and its replays or the end of the
lifetime, and then nothing is known of the proof. An accepted proof is answered as consumed until
its retention has passed.
-/

namespace Onceproof

/-- The value is the given text. -/
def Json.isText (s : Str) : Json → Bool
  | .str t => t = s
  | _ => false

theorem Json.isText_iff {v : Json} {s : Str} : v.isText s = true ↔ v = .str s := by
  cases v <;> simp [Json.isText]

/-- The result of an attempt on the proof `p` with an accepted credential of a client, if it was
freshly decided: a decision that is served from an idempotency key stores nothing. -/
def freshResult? (p clientId : Str) (t : SystemTrans) : Option VerificationResult :=
  match t.label with
  | .act _ _ (.api (.verifyProof q)) (.store (.consumeProof a)) _ (.ok result) =>
    if q.proof.isText p ∧ a.clientId = clientId ∧
        t.src.world.ledger.verifications.rows.length <
          t.dst.world.ledger.verifications.rows.length then some result
    else none
  | _ => none

/-- The results of the attempts on a proof, in commit order. -/
def freshResults (p clientId : Str) (τ : List SystemTrans) : List VerificationResult :=
  τ.filterMap (freshResult? p clientId)

/-- No attempt on the proof is under way. -/
def Unpresented (p : Str) (s : SystemState) : Prop :=
  ∀ tid th q, s.threads tid = some th → th.req = .api (.verifyProof q) → q.proof ≠ .str p

/-- The results of the attempts on a proof with the given expiry, in commit order. -/
structure ProofLifecycle (expiresAt : ℤ) (results : List VerificationResult) : Prop where
  word : LifecycleWord (results.map VerificationResult.outcome)
  /-- Until the retention has passed, every attempt after the acceptance is answered as consumed. -/
  consumed : results.Pairwise fun r r' => r.verified = true →
    r'.witness.decidedAt ≤ expiresAt + proofRetentionSeconds → r'.outcome = some .alreadyConsumed

variable {H : HashLib} {w : World} {p : Str} {c : ProofRecord} {τ₁ τ₂ σ : List SystemTrans}
variable {u t : SystemTrans} {s s' : SystemState} {runs : List (List SystemTrans)}

theorem freshResult?_eq_some {clientId : Str} {result : VerificationResult}
    (h : freshResult? p clientId t = some result) : ∃ tid pid q a i,
      t.label = .act tid pid (.api (.verifyProof q)) (.store (.consumeProof a)) i (.ok result) ∧
        q.proof = .str p ∧ a.clientId = clientId ∧
          t.src.world.ledger.verifications.rows.length <
            t.dst.world.ledger.verifications.rows.length := by
  unfold freshResult? at h
  split at h
  · next tid pid q a i result' hl =>
    split_ifs at h with hcond
    obtain rfl := Option.some.inj h
    exact ⟨tid, pid, q, a, i, hl, Json.isText_iff.mp hcond.1, hcond.2⟩
  · cases h

/-- A decision is fresh if and only if it is stored. -/
theorem ConsumeEffect.decided_of_length {a : ConsumeProof} {now : ℤ} {draws : Draws}
    {db db' : Ledger} {result : VerificationResult} (h : ConsumeEffect a now draws db result db')
    (hlength : db.verifications.rows.length < db'.verifications.rows.length) :
    DecideEffect a now draws db result db' := by
  cases h with
  | decided effect => exact effect
  | refused => exact absurd hlength (lt_irrefl _)
  | replayed => exact absurd hlength (lt_irrefl _)

namespace IssuedIn

/-- The thread of an attempt after the issuance was called after it. -/
theorem called_late (h : IssuedIn H w p c τ₁ u τ₂ s) (hquiet : Unpresented p u.dst) {tid : ℕ}
    {th : Thread ℕ Request Op Op.Ans Error Outcome} (hth : s.threads tid = some th)
    {q : VerifyRequest} (hreq : th.req = .api (.verifyProof q)) (hq : q.proof = .str p) :
    u.dst.next ≤ tid := by
  rcases Machine.running_before h.after hth with hle | ⟨th₀, hth₀, hreq₀⟩
  · exact hle
  · exact absurd hq (hquiet tid th₀ q hth₀ (hreq₀.trans hreq))

/-- **An attempt of the run** is one on the row of the proof. -/
theorem attemptAs (hH : H.Ideal) (h : IssuedIn H w p c τ₁ u (τ₂ ++ [t]) s)
    (hquiet : Unpresented p u.dst) {result : VerificationResult}
    (hresult : freshResult? p c.clientId t = some result) :
    ∃ a x, SystemEvent.commit? t.label = some ⟨.consumeProof a, x, result⟩ ∧
      AttemptAs c.tokenDigest c a x result
        ⟨t.src.world.ledger, ⟨.consumeProof a, x, result⟩, t.dst.world.ledger⟩ := by
  obtain ⟨tid, pid, q, a, i, hl, hq, howner, hlength⟩ := freshResult?_eq_some hresult
  have hrun := h.run
  rw [← List.cons_append, ← List.append_assoc] at hrun
  obtain ⟨hexec, -, q', hq', hargs⟩ := SystemRunFrom.act hrun hl
  obtain rfl := ApiCall.verifyProof.inj (Request.api.inj hq')
  obtain ⟨proof, k, hreads, -, hread, hlookup⟩ := hargs.request
  have hproof : q.proof = .str proof := (Service.text_eq_ok.mp hreads.proof).1
  obtain rfl := Json.str.inj (hq.symm.trans hproof)
  rcases Op.exec_store hexec with ⟨reply, hreply, hs, -⟩ | ⟨e, he, -⟩
  · obtain rfl := Except.ok.inj hreply
    refine ⟨a, i.chance, by rw [hl]; rfl, ⟨⟨rfl, ?_⟩, howner, ?_⟩⟩
    · exact (Store.consumeProof_ok hs).decided_of_length hlength
    · have hsrc := h.cut
      have hthread : t.label.thread? = some (tid, pid, .api (.verifyProof q)) := by rw [hl]; rfl
      rcases hrun.cut.2.1.of_thread? hthread with ⟨hcall, -⟩ | ⟨th, hth, -, hreq⟩
      · rw [hl] at hcall
        cases hcall
      · exact hsrc.lookup hH hth hreq (hsrc.called_late hquiet hth hreq hq) hread hlookup
  · cases he

/-- An acceptance of the proof is an attempt of its client. -/
theorem freshResult_of_accepted (hH : H.Ideal) (h : IssuedIn H w p c τ₁ u (τ₂ ++ [t]) s)
    {cm : Commit} (hcm : SystemEvent.commit? t.label = some cm) {result : VerificationResult}
    (haccepted : AcceptedAs c.tokenDigest result
      ⟨t.src.world.ledger, cm, t.dst.world.ledger⟩)
    (hrow : ∀ r, t.src.world.ledger.proofs.get? c.tokenDigest = some r → r.Of c) :
    freshResult? p c.clientId t = some result := by
  obtain ⟨a, x, ⟨hlabel, heffect⟩, hD, hv⟩ := haccepted
  dsimp only at hlabel heffect
  obtain ⟨tid, pid, r, i, hl, -⟩ := commit?_eq_some hcm
  subst hlabel
  dsimp only at hl
  have hrun := h.run
  rw [← List.cons_append, ← List.append_assoc] at hrun
  obtain ⟨-, -, q, rfl, hargs⟩ := SystemRunFrom.act hrun hl
  obtain ⟨proof, k, hreads, -, -, hlookup⟩ := hargs.request
  obtain ⟨key, kid, bytes, -, -, hdigest⟩ := h.token
  obtain rfl := Service.lookupDigest_keyed hH (hD ▸ hlookup) hdigest
  obtain ⟨row, hget, howner, -⟩ := heffect.accepted hv
  have hq : q.proof.isText proof = true :=
    Json.isText_iff.mpr (Service.text_eq_ok.mp hreads.proof).1
  have hclient : a.clientId = c.clientId := by
    rw [← howner, (hrow row (hD ▸ hget)).clientId]
  have hlength : t.src.world.ledger.verifications.rows.length <
      t.dst.world.ledger.verifications.rows.length := by
    rw [heffect.verifications, List.length_append]
    exact Nat.lt_succ_self _
  unfold freshResult?
  rw [hl]
  exact if_pos ⟨hq, hclient, hlength⟩

/-- The client of an issued proof is in the ledger. -/
theorem status_dst (h : IssuedIn H w p c τ₁ u τ₂ s) :
    u.dst.world.ledger.statusOf c.clientId ≠ none := by
  obtain ⟨tid, pid, q, record, check, i, hl, -⟩ := h.commit
  have heffect := issueCommit_effect h.run hl
  obtain ⟨credential, client, haccepts, -⟩ := heffect.authorized
  rw [Ledger.statusOf, heffect.clients, heffect.committed_eq, haccepts.lookup.2.2]
  exact Option.some_ne_none _

/-- **The run lemma**: where the proof stands after its attempts. -/
theorem stage (hH : H.Ideal) (h : IssuedIn H w p c τ₁ u τ₂ s) (hquiet : Unpresented p u.dst)
    (hclock : ClockOrdered (commits τ₂)) :
    Stage (commits τ₂) s.world.ledger c (s.world.ledger.proofs.get? c.tokenDigest)
        ((freshResults p c.clientId τ₂).map VerificationResult.outcome) ∧
      s.world.ledger.statusOf c.clientId ≠ none ∧
      (freshResults p c.clientId τ₂).Pairwise fun r r' => r.verified = true →
        r'.witness.decidedAt ≤ c.expiresAt + proofRetentionSeconds →
          r'.outcome = some .alreadyConsumed := by
  induction τ₂ using List.reverseRecOn generalizing s with
  | nil =>
    obtain rfl := h.after.eq_of_nil
    rw [h.row_dst]
    exact ⟨.live 0 0 c.toRow_of rfl (Or.inl rfl) fun hn => absurd rfl hn, h.status_dst,
      List.Pairwise.nil⟩
  | append_singleton τ₂ t ih =>
    obtain ⟨-, hstep, rfl⟩ := h.after.of_snoc
    rw [commits_append] at hclock
    obtain ⟨hstage, hstatus, hpairs⟩ := ih h.cut hclock.of_append_left
    have hresults : freshResults p c.clientId (τ₂ ++ [t]) =
        freshResults p c.clientId τ₂ ++ (freshResult? p c.clientId t).toList := by
      rw [freshResults, List.filterMap_append]
      cases hr : freshResult? p c.clientId t <;> simp [freshResults, hr]
    rw [hresults, commits_append]
    -- a step commits to the ledger or leaves it as it is
    rcases system_ledger hstep with ⟨cm, hcm, hs⟩ | ⟨hcm, hledger⟩
    · have hcommits : commits [t] = [⟨t.src.world.ledger, cm, t.dst.world.ledger⟩] := by
        simp [commits, projectTrans, hcm]
      rw [hcommits] at hclock ⊢
      cases hr : freshResult? p c.clientId t with
      | none =>
        have hmem : (⟨t.src.world.ledger, cm, t.dst.world.ledger⟩ : Trans Ledger Commit) ∈
            commits (τ₂ ++ [t]) := by
          rw [commits_append, hcommits]
          exact List.mem_append_right _ (List.mem_singleton_self _)
        rw [Option.toList_none, List.append_nil]
        refine ⟨hstage.step hs hstatus (h.not_reissued hH hmem) fun result haccepted => ?_,
          (hs.statusOf hstatus).1, hpairs⟩
        rw [h.freshResult_of_accepted hH hcm haccepted hstage.of_row] at hr
        cases hr
      -- the commit is an attempt with this proof
      | some result =>
        obtain ⟨a, x, hcm', hattempt⟩ := h.attemptAs hH hquiet hr
        obtain rfl := Option.some.inj (hcm.symm.trans hcm')
        obtain ⟨hnext, hconsumed⟩ := hstage.attempt hattempt fun t' ht' =>
          hclock.before ht' (List.mem_singleton_self _)
        rw [Option.toList_some, List.map_append]
        refine ⟨hnext, (hs.statusOf hstatus).1, List.pairwise_append.mpr
          ⟨hpairs, List.pairwise_singleton _ _, fun r hmem r' hr' hverified hle => ?_⟩⟩
        obtain rfl := List.mem_singleton.mp hr'
        rw [hattempt.decides.2.witness.2.2] at hle
        refine hconsumed (List.mem_map.mpr ⟨r, hmem, ?_⟩) hle
        rw [VerificationResult.outcome, if_pos hverified]
    · have hnone : freshResult? p c.clientId t = none := by
        cases hr : freshResult? p c.clientId t with
        | none => rfl
        | some result =>
          obtain ⟨a, x, hcm', -⟩ := h.attemptAs hH hquiet hr
          rw [hcm] at hcm'
          cases hcm'
      have hcommits : commits [t] = [] := by simp [commits, projectTrans, hcm]
      rw [hnone, hcommits, Option.toList_none, List.append_nil, List.append_nil, ← hledger]
      exact ⟨hstage, hstatus, hpairs⟩

end IssuedIn

/-- **The proof lifecycle never goes backwards**, in any run of an instance, restored or not. -/
theorem proof_lifecycle (hH : H.Ideal) (h : Lineage H runs s) (hτ : τ₁ ++ u :: τ₂ ∈ runs)
    (hfresh : FreshTokens (τ₁ ++ u :: τ₂)) (hsized : SizedDraws (τ₁ ++ u :: τ₂))
    (hclock : ClockOrdered (commits (τ₁ ++ u :: τ₂))) (hu : IssueCommit H p τ₁ u c)
    (hquiet : Unpresented p u.dst) :
    ProofLifecycle c.expiresAt (freshResults p c.clientId τ₂) := by
  obtain ⟨w, s', hrun, hcustody, hnamed⟩ := h.run_of_mem hτ
  rw [List.append_cons, commits_append] at hclock
  obtain ⟨hstage, -, hconsumed⟩ :=
    IssuedIn.stage hH ⟨hrun, hcustody, hnamed, hfresh, hsized, hu⟩ hquiet hclock.of_append_right
  exact ⟨hstage.lifecycleWord, hconsumed⟩

namespace Scenario

/-- A proof is asked about with another purpose, verified, asked about again and, more than an hour
after its expiry, forgotten. -/
def wholeLife : List SystemMove :=
  sizedServed ++ sizedThread 0 2 issueSizes (.api (.issueProof sizedIssueRequest)) 1001 40 ++
    sizedThread 0 3 (List.replicate 6 0)
      (.api (.verifyProof (sizedVerifyRequest (sizedProof 47) (lit "other") none))) 1002 60 ++
    sizedThread 0 4 (List.replicate 6 0)
      (.api (.verifyProof (sizedVerifyRequest (sizedProof 47) (lit "login") none))) 1003 70 ++
    sizedThread 0 5 (List.replicate 6 0)
      (.api (.verifyProof (sizedVerifyRequest (sizedProof 47) (lit "other") none))) 1064 80 ++
    sizedThread 0 6 (List.replicate 11 0)
      (.api (.verifyProof (sizedVerifyRequest (sizedProof 47) (lit "login") none))) 4700 90

/-- The record that a transition issued. -/
def issued? : SystemEvent → Option ProofRecord
  | .act _ _ _ (.store (.issueProof _ _)) _ (.ok c) => some c
  | _ => none

/-- No verification was called in a run. -/
def unverified (τ : List SystemTrans) : Bool :=
  τ.all fun t => match t.label with
    | .call _ _ (.api (.verifyProof _)) => false
    | _ => true

/-- The digest that a proof of `start` is stored under. -/
def startDigest (p : Str) : Option Str := (proofDigest plainHash zeroKey.val p).toOption

end Scenario

/-- No attempt is under way in a run without verifications. -/
theorem unpresented_of_unverified {H : HashLib} {w : World} {τ : List SystemTrans}
    {s : SystemState} (h : SystemRunFrom H w τ s) (hτ : Scenario.unverified τ = true) (p : Str) :
    Unpresented p s := by
  intro tid th q hth hreq
  obtain ⟨t, ht, hl⟩ := Machine.called_of_running h tid th hth
  have hall := List.all_eq_true.mp hτ t ht
  rw [hl, hreq] at hall
  cases hall

/-- A proof through all of its life. -/
theorem proof_lifecycle_wholeLife : ∃ τ₁ u τ₂ s c, SystemRun plainHash (τ₁ ++ u :: τ₂) s ∧
    IssueCommit plainHash (Scenario.sizedProof 47) τ₁ u c ∧
    (freshResults (Scenario.sizedProof 47) c.clientId τ₂).map VerificationResult.outcome =
      [some .bindingMismatch, none, some .alreadyConsumed, some .invalid] ∧
    ProofLifecycle c.expiresAt (freshResults (Scenario.sizedProof 47) c.clientId τ₂) := by
  obtain ⟨τ₁, u, τ₂, s, hrun, -, ⟨hquiet, hissued⟩, hfresh, hsized, hclock⟩ :=
    exists_systemRun_cut Scenario.wholeLife (fun l => (Scenario.issued? l).isSome)
      (fun τ₁ u τ₂ _ => (Scenario.unverified (τ₁ ++ [u]) = true ∧
        (Scenario.issued? u.label).any (fun c =>
          Scenario.startDigest (Scenario.sizedProof 47) = some c.tokenDigest ∧
          (freshResults (Scenario.sizedProof 47) c.clientId τ₂).map VerificationResult.outcome =
            [some .bindingMismatch, none, some .alreadyConsumed, some .invalid]) = true) ∧
        FreshTokens (τ₁ ++ u :: τ₂) ∧ SizedDraws (τ₁ ++ u :: τ₂) ∧
        ClockOrdered (commits (τ₁ ++ u :: τ₂)))
      (by decide +kernel)
  obtain ⟨c, hc, hissued⟩ := (Option.any_eq_true _ _).mp hissued
  obtain ⟨hdigest, hresults⟩ := of_decide_eq_true hissued
  obtain ⟨kidBytes, key, hfrom⟩ := id hrun
  have hcommit : IssueCommit plainHash (Scenario.sizedProof 47) τ₁ u c := by
    unfold Scenario.issued? at hc
    split at hc
    · next tid pid r record check i c' hl =>
      obtain rfl := Option.some.inj hc
      obtain ⟨-, q, p, rfl, hargs⟩ := (SystemRunFrom.act hfrom hl).2
      obtain ⟨k, bytes, -, -, -, -, hrecord, -⟩ := hargs.token
      have hstored : record.tokenDigest = c'.tokenDigest := by
        rw [(issueCommit_effect hfrom hl).committed_eq]
      have hstart : proofDigest plainHash Scenario.zeroKey.val (Scenario.sizedProof 47) =
          .ok c'.tokenDigest := by
        unfold Scenario.startDigest at hdigest
        cases hd : proofDigest plainHash Scenario.zeroKey.val (Scenario.sizedProof 47) with
        | error e => rw [hd] at hdigest; cases hdigest
        | ok d => rw [hd] at hdigest; exact congrArg Except.ok (Option.some.inj hdigest)
      obtain ⟨-, rfl⟩ := plainHash_ideal.proofDigest_inj hstart (hstored ▸ hrecord)
      exact ⟨tid, pid, q, record, check, i, hl, hargs⟩
    · cases hc
  refine ⟨τ₁, u, τ₂, s, c, hrun, hcommit, hresults, ?_⟩
  have hdst : SystemRunFrom plainHash _ (τ₁ ++ [⟨u.src, u.label, u.dst⟩]) u.dst :=
    .snoc hfrom.cut.1 hfrom.cut.2.1
  exact proof_lifecycle plainHash_ideal (.created hrun) (List.mem_singleton_self _) hfresh hsized
    hclock hcommit (unpresented_of_unverified hdst hquiet _)

end Onceproof

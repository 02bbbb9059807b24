import Onceproof.Ledger.Attempts
import Onceproof.Ledger.Idempotency
import Onceproof.Ledger.Results
import Onceproof.Scenario

/-!
# The idempotency contract

Once a decision is stored under a client's idempotency key, the key stands for it until the
decision is past its retention: every attempt under the key is answered from it, by the
lookup outside a transaction or by the one under the write lock, whichever comes first after
the commit. The clock must not be negative: a stored time below zero is not read back
(`idempotency_counterexample`).
-/

namespace Onceproof

/-! ### The contract -/

/-- `d` commits the decision `r` of the client `C` under the key `K`, for a request with the
fingerprint `F`, at the reading `t₀`. -/
def KeyedDecision (C K F : Str) (r : VerificationResult) (t₀ : ℤ) (d : SystemTrans) : Prop :=
  ∃ tid pid req a i, d.label = .act tid pid req (.store (.consumeProof a)) i (.ok r) ∧
    DecideEffect a i.now i.draws d.src.world.ledger r d.dst.world.ledger ∧
    a.clientId = C ∧ a.idempotencyKey = some K ∧ a.requestFingerprint = F ∧ i.now = t₀

/-- An attempt that has not been answered: it found no stored decision so far, and did not
call the store to decide. -/
def Hist.Unanswered (h : Hist) : Prop :=
  (∀ clientId key row, ¬ h.Got (.idempotent clientId key) (some row)) ∧
    ∀ a y, (⟨.store (.consumeProof a), y⟩ : Answered Op Op.Ans) ∉ h

/-- The check under the write lock refused the credential of an attempt, at its reading. -/
structure Refused (tid : ℕ) (m : List SystemTrans) (result : VerificationResult)
    (v : SystemTrans) (a : ConsumeProof) (i : Choice) : Prop where
  mem : v ∈ m
  label : ∃ p r, v.label = .act tid p r (.store (.consumeProof a)) i (.ok result)
  refused : ¬ v.src.world.ledger.Accepted .verification a.credentialId a.clientId i.now

/-- How an attempt under a bound key ends, by what its thread did since the decision. -/
inductive BoundOutcome (tid : ℕ) (m : List SystemTrans) (F : Str) (r : VerificationResult)
    (fingerprint : Str) : Except Error VerificationResult → Prop
  | replayed (same : fingerprint = F) : BoundOutcome tid m F r fingerprint (.ok r)
  | conflict (other : fingerprint ≠ F) :
      BoundOutcome tid m F r fingerprint (.error (.valueError "idempotency_conflict"))
  | refused {result : VerificationResult} {v : SystemTrans} {a : ConsumeProof} {i : Choice}
      (reason : result.reason = some .credentialRejected)
      (refused : Refused tid m result v a i) : BoundOutcome tid m F r fingerprint (.ok result)
  | interrupted : BoundOutcome tid m F r fingerprint (.error .interrupted)

/-- The thread `tid` wrote nothing to the ledger but cleanups. -/
def WritesNothing (tid : ℕ) (σ : List SystemTrans) : Prop :=
  ∀ v ∈ σ, ∀ p r call i reply, v.label = .act tid p r (.store call) i (.ok reply) →
    (∃ now, call = .cleanup now) ∨ v.dst.world.ledger = v.src.world.ledger

/-- An attempt that ended without a decision: the credential was rejected, or an exception
was raised, such as `RateLimitError` or a conflict. -/
def Undecided : Except Error VerificationResult → Prop
  | .ok result => result.reason = some .credentialRejected
  | .error _ => True

/-- The idempotency contract of a run. -/
structure IdempotencyContract (H : HashLib) (τ : List SystemTrans) (s : SystemState) : Prop where
  /-- While a stored decision is retained, the attempts of its client under its key are
  answered from it and write nothing. -/
  bound : ∀ {τ₁ d τ₂ C K F r t₀}, τ = τ₁ ++ d :: τ₂ → KeyedDecision C K F r t₀ d →
    ∀ {m u ρ t}, τ₂ = m ++ u :: ρ → t ≤ t₀ + idempotencyRetentionSeconds →
      CleanupsBy t (commits m) → ∀ {tid pid q y a},
        u.label = .ret tid pid (.api (.verifyProof q)) (y.map Outcome.verification) →
        Hist.Unanswered (acted tid (τ₁ ++ [d])) →
        VerifyArgs H q (acted tid (τ₁ ++ d :: m)) a → a.clientId = C →
        a.idempotencyKey = some K →
          BoundOutcome tid m F r a.requestFingerprint y ∧ WritesNothing tid m
  /-- An attempt that ended without a decision never bound a key. -/
  unbound : ∀ {σ u ρ tid pid q y}, τ = σ ++ u :: ρ →
    u.label = .ret tid pid (.api (.verifyProof q)) (y.map Outcome.verification) →
      Undecided y → WritesNothing tid σ
  /-- At no time are there two stored decisions of a client under a key. -/
  unique : s.world.ledger.KeysUnique ∧
    ∀ u ∈ τ, u.src.world.ledger.KeysUnique ∧ u.dst.world.ledger.KeysUnique

variable {H : HashLib} {τ τ₁ τ₂ σ ρ m : List SystemTrans} {s : SystemState} {u d v : SystemTrans}
variable {tid pid p : ℕ} {q : VerifyRequest} {y : Except Error VerificationResult}
variable {a : ConsumeProof} {C K F : Str} {r : VerificationResult} {t₀ t : ℤ}

/-! ### Attempts that do not bind -/

/-- A decision that is not the refusal of a credential was not made by one. -/
theorem DecideEffect.reason_ne {now : ℤ} {draws : Draws} {db db' : Ledger}
    {result : VerificationResult} (h : DecideEffect a now draws db result db') :
    result.reason ≠ some .credentialRejected := by
  rw [h.result_eq]
  unfold ConsumeProof.decision
  cases (db.proofOf a.clientId a.tokenDigest).map proofFromRow with
  | none => exact fun h => by cases h
  | some record =>
    dsimp only
    split_ifs <;> exact fun h => by cases h

theorem map_verification_inj {y y' : Except Error VerificationResult}
    (h : y.map Outcome.verification = y'.map Outcome.verification) : y = y' := by
  cases y <;> cases y' <;> cases h <;> rfl

/-- What an attempt commits is a cleanup or the answer it returns. -/
theorem attempt_commit (h : SystemRun H (σ ++ u :: ρ) s)
    (hret : u.label = .ret tid pid (.api (.verifyProof q)) (y.map Outcome.verification))
    (hv : v ∈ σ) {req : Request} {call : StoreCall} {i : Choice} {reply : call.Reply}
    (hl : v.label = .act tid p req (.store call) i (.ok reply)) :
    (∃ now, call = .cleanup now) ∨ ∃ a result, call = .consumeProof a ∧ y = .ok result ∧
      ConsumeEffect a i.now i.draws v.src.world.ledger result v.dst.world.ledger := by
  obtain ⟨kidBytes, key, hrun⟩ := h
  obtain ⟨y', hy, hsettles, -⟩ := attempt_ret hrun hret
  have hyy := map_verification_inj hy
  obtain ⟨σ₁, σ₂, rfl⟩ := List.append_of_mem hv
  have hcut : (σ₁ ++ v :: σ₂) ++ u :: ρ = σ₁ ++ v :: (σ₂ ++ u :: ρ) := by simp
  obtain ⟨hexec, hcommand⟩ := attempt_act hrun
    (List.mem_append_right _ List.mem_cons_self) (by rw [hret]; rfl) hcut hl
  cases hcommand with
  | cleanup hcleanup =>
    cases hcleanup
    exact Or.inl ⟨_, rfl⟩
  | cached _ hcached => cases hcached
  | @consume a _ _ =>
    have hgot : Hist.Got (acted tid (σ₁ ++ v :: σ₂)) (.store (.consumeProof a)) reply :=
      mem_acted.mpr ⟨v, List.mem_append_right _ List.mem_cons_self, p, req, i, hl⟩
    refine Or.inr ⟨a, reply, rfl, hyy.trans (hsettles a reply hgot), ?_⟩
    rcases Op.exec_store hexec with ⟨reply', hreply, hs, -⟩ | ⟨e, he, -⟩
    · obtain rfl := Except.ok.inj hreply
      exact Store.consumeProof_ok hs
    · cases he

theorem writesNothing_of_undecided (h : SystemRun H (σ ++ u :: ρ) s)
    (hret : u.label = .ret tid pid (.api (.verifyProof q)) (y.map Outcome.verification))
    (hy : Undecided y) : WritesNothing tid σ := by
  intro v hv p req call i reply hl
  rcases attempt_commit h hret hv hl with hcleanup | ⟨a, result, -, rfl, heffect⟩
  · exact Or.inl hcleanup
  · refine Or.inr ?_
    generalize v.src.world.ledger = db at heffect
    generalize v.dst.world.ledger = db' at heffect
    cases heffect with
    | refused | replayed => rfl
    | decided effect => exact absurd hy effect.reason_ne

/-! ### Attempts under a bound key -/

/-- The stored decision as a row. -/
theorem KeyedDecision.stored (hd : KeyedDecision C K F r t₀ d) :
    ∃ v ∈ d.dst.world.ledger.verifications, v.clientId = C ∧ v.idempotencyKey = some K ∧
      v.requestFingerprint = F ∧ v.createdAt = t₀ ∧ v.resultJson = resultJson r := by
  obtain ⟨tid, pid, req, a, i, -, heffect, rfl, hkey, rfl, rfl⟩ := hd
  refine ⟨a.verificationRow r i.now, ?_, rfl, hkey, rfl, rfl, rfl⟩
  rw [Table.mem_def, heffect.verifications]
  exact List.mem_append_right _ (List.mem_singleton_self _)

/-- The client and the key of a decision can be bound to a statement. -/
theorem KeyedDecision.encodable (hd : KeyedDecision C K F r t₀ d) :
    C.encodable = true ∧ K.encodable = true := by
  obtain ⟨tid, pid, req, a, i, -, heffect, rfl, hkey, -⟩ := hd
  have henc := heffect.encodable
  simp only [hkey, Option.toList_some, List.all_append, List.all_cons, List.all_nil,
    Bool.and_true, Bool.and_eq_true] at henc
  exact ⟨henc.1.1, henc.2⟩

/-- The commit of a decision. -/
theorem KeyedDecision.decides (hd : KeyedDecision C K F r t₀ d) :
    ∃ a x c, commits [d] = [c] ∧ DecidesAs a x r c := by
  obtain ⟨tid, pid, req, a, i, hl, heffect, -⟩ := hd
  refine ⟨a, i.chance, ⟨d.src.world.ledger, ⟨.consumeProof a, i.chance, r⟩, d.dst.world.ledger⟩,
    ?_, rfl, heffect⟩
  simp [commits, projectTrans, hl, SystemEvent.commit?]

/-- **While it is retained, a stored decision is what its key stands for.** -/
theorem KeyedDecision.bound (h : SystemRun H (τ₁ ++ d :: (m ++ ρ)) s)
    (hreadings : NonnegativeReadings (commits (τ₁ ++ d :: (m ++ ρ))))
    (hd : KeyedDecision C K F r t₀ d) (ht : t ≤ t₀ + idempotencyRetentionSeconds)
    (hcleanups : CleanupsBy t (commits m)) {s' : SystemState}
    (hm : Run (system H).Step d.dst m s') :
    s'.world.ledger.restoreRequired = false ∧ ∃ v, s'.world.ledger.idempotent C K = some v ∧
      v.requestFingerprint = F ∧ resultFromJson (.ok v.resultJson) = .ok r := by
  obtain ⟨v, hv, rfl, hkey, rfl, rfl, hjson⟩ := hd.stored
  obtain ⟨a, x, c, hc, hdecides⟩ := hd.decides
  have hd₁ : Run (system H).Step d.src [d] d.dst := Run.single h.of_cut.2.1
  have hrun : Run LedgerStep .empty (commits (τ₁ ++ [d] ++ m)) s'.world.ledger := by
    rw [commits_append, commits_append]
    exact (h.of_cut.1.ledger.append (ledgerRun hd₁)).append (ledgerRun hm)
  refine ⟨run_unsealed hrun restoreRequired_empty, v, ?_, rfl, ?_⟩
  · exact (run_keysUnique hrun keysUnique_empty).idempotent
      (run_verification_kept (ledgerRun hm) hcleanups ht hv) hkey
  · rw [hjson]
    have hmem : c ∈ commits (τ₁ ++ d :: (m ++ ρ)) := by
      rw [show τ₁ ++ d :: (m ++ ρ) = τ₁ ++ [d] ++ (m ++ ρ) by simp, commits_append,
        commits_append, hc]
      simp
    refine decided_read_back h.ledger Ledger.reportable_empty (fun t ht => ?_) hreadings hmem
      hdecides
    obtain ⟨kidBytes, key, h⟩ := h
    exact commit_wellFormed h ht

/-- The store's answer to an attempt under a bound key. -/
theorem KeyedDecision.answer (h : SystemRun H (τ₁ ++ d :: (m ++ u :: ρ)) s)
    (hreadings : NonnegativeReadings (commits (τ₁ ++ d :: (m ++ u :: ρ))))
    (hd : KeyedDecision C K F r t₀ d) (ht : t ≤ t₀ + idempotencyRetentionSeconds)
    (hcleanups : CleanupsBy t (commits m)) (hv : v ∈ m) {a : ConsumeProof}
    (hcredential : a.credentialId.encodable = true) (hC : a.clientId = C)
    (hK : a.idempotencyKey = some K) (now : ℤ) (draws : Draws) :
    (¬ v.src.world.ledger.Accepted .verification a.credentialId a.clientId now ∧
        Tx.run (Store.consumeProof a now draws) v.src.world.ledger = .ok
          (rejectedResult .credentialRejected draws.verificationId none none now,
            v.src.world.ledger)) ∨
      (a.requestFingerprint = F ∧ Tx.run (Store.consumeProof a now draws) v.src.world.ledger =
        .ok (r, v.src.world.ledger)) ∨
      (a.requestFingerprint ≠ F ∧ Tx.run (Store.consumeProof a now draws) v.src.world.ledger =
        .error (.valueError "idempotency_conflict")) := by
  obtain ⟨m₁, m₂, rfl⟩ := List.append_of_mem hv
  have hm := h.of_cut.2.2
  rw [List.append_assoc, List.cons_append] at hm
  have hcleanups₁ : CleanupsBy t (commits m₁) := fun c hc => hcleanups c (by simp [hc])
  obtain ⟨hop, row, hrow, rfl, hread⟩ := hd.bound (m := m₁) (ρ := v :: m₂ ++ u :: ρ)
    (by simpa using h) (by simpa using hreadings) ht hcleanups₁ hm.of_cut.1
  obtain ⟨hclient, hkey⟩ := hd.encodable
  exact Store.consumeProof_bound hop hcredential (hC ▸ hclient) hkey hK (hC ▸ hrow) hread

/-- A text with a digest under one key has one under every key. -/
theorem credentialDigest_ne_error {key key' : RootKey} {secret c : Str} {e : Error}
    (h : credentialDigest H key.val secret = .ok c) :
    credentialDigest H key'.val secret ≠ .error e := by
  rw [credentialDigest_rootKey] at h ⊢
  obtain ⟨data, hdata, -⟩ := digest_eq_ok.mp h
  intro herror
  simp [digest, hdata] at herror

/-- A proof with a fingerprint can be looked up. -/
theorem Service.lookupDigest_ne_error {k : KeyRing} {proof subject purpose audience F : Str}
    {e : Error} (h : Service.requestFingerprint H proof subject purpose audience = .ok F) :
    Service.lookupDigest H k proof ≠ .error e := by
  have henc : ∃ data, proof.utf8? = some data := by
    unfold Service.requestFingerprint sha256Hex at h
    cases hdata : proof.utf8? with
    | none => simp [hdata] at h
    | some data => exact ⟨data, rfl⟩
  obtain ⟨data, hdata⟩ := henc
  intro herror
  unfold Service.lookupDigest at herror
  split at herror
  · rw [proofDigest_rootKey] at herror
    simp [digest, hdata] at herror
  · simp [sha256Hex, hdata] at herror

/-- An attempt of the client `C` under its key `K`: it goes on after the decision `d`, made at
`t₀` and retained to the time `t`, and returns `y` in the step `u`. -/
structure BoundAttempt (H : HashLib) (τ₁ : List SystemTrans) (d : SystemTrans)
    (m : List SystemTrans) (u : SystemTrans) (ρ : List SystemTrans) (s : SystemState)
    (tid pid : ℕ) (q : VerifyRequest) (y : Except Error VerificationResult) (a : ConsumeProof)
    (C K F : Str) (r : VerificationResult) (t₀ t : ℤ) : Prop where
  run : SystemRun H (τ₁ ++ d :: (m ++ u :: ρ)) s
  readings : NonnegativeReadings (commits (τ₁ ++ d :: (m ++ u :: ρ)))
  decision : KeyedDecision C K F r t₀ d
  retained : t ≤ t₀ + idempotencyRetentionSeconds
  cleanups : CleanupsBy t (commits m)
  returned : u.label = .ret tid pid (.api (.verifyProof q)) (y.map Outcome.verification)
  unanswered : Hist.Unanswered (acted tid (τ₁ ++ [d]))
  args : VerifyArgs H q (acted tid (τ₁ ++ d :: m)) a
  client : a.clientId = C
  key : a.idempotencyKey = some K

namespace BoundAttempt

/-- The run up to the return. -/
theorem subset_run : τ₁ ++ d :: m ⊆ τ₁ ++ d :: (m ++ u :: ρ) := by
  rw [show τ₁ ++ d :: (m ++ u :: ρ) = (τ₁ ++ d :: m) ++ u :: ρ by simp]
  exact List.subset_append_left _ _

theorem mem_split (hv : v ∈ τ₁ ++ d :: m) : v ∈ τ₁ ++ [d] ∨ v ∈ m := by
  simpa [or_assoc] using hv

section

variable (h : BoundAttempt H τ₁ d m u ρ s tid pid q y a C K F r t₀ t)

include h

theorem thread : u.label.thread? = some (tid, pid, .api (.verifyProof q)) := by
  rw [h.returned]
  rfl

theorem credential_encodable : a.credentialId.encodable = true := by
  obtain ⟨kidBytes, key, hrun⟩ := h.run
  obtain ⟨-, row, now, ⟨⟨secret, id, -, -, hrow, -⟩, -⟩, -, hcid, -⟩ := h.args
  obtain ⟨hid, henc⟩ := encodable_of_read hrun subset_run hrow
  rw [← hcid, hid, henc]

/-- The arguments at any point are these, up to the digest. -/
theorem args_eq {a' : ConsumeProof} (hσ : σ ⊆ τ₁ ++ d :: (m ++ u :: ρ))
    (ha' : VerifyArgs H q (acted tid σ) a') : a' = { a with tokenDigest := a'.tokenDigest } := by
  obtain ⟨kidBytes, key, hrun⟩ := h.run
  exact VerifyArgs.unique hrun (by simp) h.thread subset_run hσ h.args ha'

/-- **The lookup**: a row that was found is the stored decision. -/
theorem found {a' : ConsumeProof} {k : Str} {row : VerificationRow}
    (ha' : VerifyArgs H q (acted tid (τ₁ ++ d :: m)) a') (hk : a'.idempotencyKey = some k)
    (hgot : Hist.Got (acted tid (τ₁ ++ d :: m)) (.idempotent a'.clientId k) (some row)) :
    a'.requestFingerprint = a.requestFingerprint ∧ row.requestFingerprint = F ∧
      resultFromJson (.ok row.resultJson) = .ok r := by
  obtain ⟨kidBytes, key, hrun⟩ := h.run
  obtain ⟨v, hv, p, r', i, hl⟩ := mem_acted.mp hgot
  have heq := h.args_eq subset_run ha'
  rcases mem_split hv with hbefore | hafter
  · exact absurd (mem_acted.mpr ⟨v, hbefore, p, r', i, hl⟩) (h.unanswered.1 _ _ _)
  · have hlookup := Op.exec_idempotent (hrun.exec (subset_run hv) hl)
    obtain ⟨m₁, m₂, rfl⟩ := List.append_of_mem hafter
    have hm := h.run.of_cut.2.2
    rw [List.append_assoc, List.cons_append] at hm
    obtain ⟨-, v₀, hv₀, hF, hread⟩ := h.decision.bound (m := m₁) (ρ := v :: m₂ ++ u :: ρ)
      (by simpa using h.run) (by simpa using h.readings) h.retained
      (fun c hc => h.cleanups c (by simp [hc])) hm.of_cut.1
    rw [heq] at hk hlookup
    obtain rfl := Option.some.inj (h.key.symm.trans hk)
    rw [show ({ a with tokenDigest := a'.tokenDigest } : ConsumeProof).clientId = C from h.client,
      hv₀] at hlookup
    obtain rfl := Option.some.inj hlookup
    exact ⟨by rw [heq], hF, hread⟩

/-- **The store**, called with the arguments of the attempt. -/
theorem answer {a' : ConsumeProof} (hv : v ∈ m) (hσ : σ ⊆ τ₁ ++ d :: (m ++ u :: ρ))
    (ha' : VerifyArgs H q (acted tid σ) a') (now : ℤ) (draws : Draws) :
    (¬ v.src.world.ledger.Accepted .verification a'.credentialId a'.clientId now ∧
      Tx.run (Store.consumeProof a' now draws) v.src.world.ledger = .ok
        (rejectedResult .credentialRejected draws.verificationId none none now,
          v.src.world.ledger)) ∨
    (a.requestFingerprint = F ∧ Tx.run (Store.consumeProof a' now draws) v.src.world.ledger =
      .ok (r, v.src.world.ledger)) ∨
    (a.requestFingerprint ≠ F ∧ Tx.run (Store.consumeProof a' now draws) v.src.world.ledger =
      .error (.valueError "idempotency_conflict")) := by
  rw [h.args_eq hσ ha']
  exact h.decision.answer (a := { a with tokenDigest := a'.tokenDigest }) h.run h.readings
    h.retained h.cleanups hv h.credential_encodable h.client h.key now draws

/-- A call of the store has the arguments of the attempt. -/
theorem call {a' : ConsumeProof} {r' : Request} {i : Choice}
    {z : (Op.store (.consumeProof a')).Ans} (hv : v ∈ m)
    (hl : v.label = .act tid p r' (.store (.consumeProof a')) i z) :
    ∃ σ, σ ⊆ τ₁ ++ d :: (m ++ u :: ρ) ∧ VerifyArgs H q (acted tid σ) a' := by
  obtain ⟨kidBytes, key, hrun⟩ := h.run
  obtain ⟨σ₁, σ₂, hcut⟩ :=
    List.append_of_mem (show v ∈ τ₁ ++ d :: (m ++ u :: ρ) from subset_run (by simp [hv]))
  refine ⟨σ₁, hcut ▸ List.subset_append_left _ _, ?_⟩
  cases (attempt_act hrun (by simp) h.thread hcut hl).2 with
  | cleanup hc => cases hc
  | cached _ hc => cases hc
  | consume _ args => exact args

/-- A command that raised was interrupted, or found the key in use by another request. -/
theorem failed {e : Error} (he : Hist.Failed (acted tid (τ₁ ++ d :: m)) e) :
    BoundOutcome tid m F r a.requestFingerprint (.error e) := by
  obtain ⟨kidBytes, key, hrun⟩ := h.run
  obtain ⟨hclient, hkey⟩ := h.decision.encodable
  rcases attempt_failed hrun (by simp) h.thread subset_run h.args (h.client ▸ hclient)
    (fun k hk => Option.some.inj (h.key.symm.trans hk) ▸ hkey) he with rfl |
      ⟨v, σ₁, σ₂, p, r', i, a', hcut, hv, hl, ha', hraised⟩
  · exact .interrupted
  · rcases mem_split hv with hbefore | hafter
    · exact absurd (mem_acted.mpr ⟨v, hbefore, p, r', i, hl⟩) (h.unanswered.2 _ _)
    · rcases h.answer hafter (hcut ▸ List.subset_append_left _ _) ha' i.now i.draws with
        ⟨-, hok⟩ | ⟨-, hok⟩ | ⟨hother, herror⟩
      · cases hraised.symm.trans hok
      · cases hraised.symm.trans hok
      · obtain rfl := Except.error.inj (hraised.symm.trans herror)
        exact .conflict hother

/-- **The cached read** raises only when it is interrupted or finds the key in use by another
request. -/
theorem cachedError {a' : ConsumeProof} {e : Error}
    (args : VerifyArgs H q (acted tid (τ₁ ++ d :: m)) a')
    (cached : CachedOutcome (acted tid (τ₁ ++ d :: m)) a'.credentialId a'.clientId
      a'.idempotencyKey a'.requestFingerprint (.error e)) :
    BoundOutcome tid m F r a.requestFingerprint (.error e) := by
  cases cached with
  | failed hf => exact h.failed hf
  | «sealed» hsealed =>
    -- no ledger of this run was restored
    obtain ⟨kidBytes, key, hrun⟩ := h.run
    obtain ⟨v, hv, p, r', i, hl⟩ := mem_acted.mp hsealed
    have hrequired := Op.exec_restoreRequired (hrun.exec (subset_run hv) hl)
    obtain ⟨σ₁, σ₂, hcut⟩ :=
      List.append_of_mem (show v ∈ τ₁ ++ d :: (m ++ u :: ρ) from subset_run hv)
    rw [run_unsealed (hcut ▸ h.run).of_cut.1.ledger restoreRequired_empty] at hrequired
    cases hrequired
  | conflict keyed found other =>
    obtain ⟨hsame, hF, -⟩ := h.found args keyed found
    exact .conflict fun heq => other (hF.trans (heq.symm.trans hsame.symm))
  | corrupt keyed found same read =>
    rw [(h.found args keyed found).2.2] at read
    cases read

/-- **The store's answer** replays the decision, unless it refused the credential. -/
theorem consumed {a' : ConsumeProof} {result : VerificationResult}
    (answer : Hist.Got (acted tid (τ₁ ++ d :: m)) (.store (.consumeProof a')) result) :
    BoundOutcome tid m F r a.requestFingerprint (.ok result) := by
  obtain ⟨kidBytes, key, hrun⟩ := h.run
  obtain ⟨v, hv, p, r', i, hl⟩ := mem_acted.mp answer
  rcases mem_split hv with hbefore | hafter
  · exact absurd (mem_acted.mpr ⟨v, hbefore, p, r', i, hl⟩) (h.unanswered.2 _ _)
  obtain ⟨σ₁, hσ₁, ha'⟩ := h.call hafter hl
  rcases Op.exec_store (hrun.exec (subset_run hv) hl) with ⟨reply, hreply, hs, -⟩ | ⟨e, he, -⟩
  · obtain rfl := Except.ok.inj hreply
    rcases h.answer hafter hσ₁ ha' i.now i.draws with ⟨hrefused, hok⟩ | ⟨hF, hok⟩ | ⟨-, herror⟩
    · obtain rfl := (Prod.mk.inj (Except.ok.inj (Eq.trans (Eq.symm hs) hok))).1
      exact .refused rfl ⟨hafter, ⟨p, r', hl⟩, hrefused⟩
    · obtain rfl := (Prod.mk.inj (Except.ok.inj (Eq.trans (Eq.symm hs) hok))).1
      exact .replayed hF
    · cases Eq.trans (Eq.symm hs) herror
  · cases he

/-- **An attempt under a bound key** is answered from the stored decision. -/
theorem outcome : BoundOutcome tid m F r a.requestFingerprint y := by
  obtain ⟨kidBytes, key, hrun⟩ := h.run
  obtain ⟨⟨proof, k, hreads, hfingerprint, -⟩, row, now, hauth, hnow, -⟩ := h.args
  obtain ⟨secret, id, htext, -, -, -, key', -, -, hsecret⟩ := hauth.secret
  rw [show τ₁ ++ d :: (m ++ u :: ρ) = (τ₁ ++ d :: m) ++ u :: ρ by simp] at hrun
  obtain ⟨y', hy, -, houtcome⟩ := attempt_ret hrun h.returned
  obtain rfl := map_verification_inj hy
  cases houtcome with
  | failed hf => exact h.failed hf
  | invalid hinvalid => exact absurd hreads (hinvalid _ _ _ _ _)
  | unauthenticated _ auth =>
    cases auth with
    | failed hf => exact h.failed hf
    | unencodable text digest =>
      obtain rfl := Json.str.inj (htext.symm.trans text)
      exact absurd digest (credentialDigest_ne_error hsecret)
  -- the credential was accepted at the attempt's one reading
  | rejected _ _ _ unaccepted => exact absurd hauth (unaccepted row now hnow)
  | unencodable reads digest =>
    obtain ⟨rfl, rfl, rfl, rfl, -⟩ := hreads.unique reads
    rcases digest with hlookup | hf
    · exact absurd hlookup (Service.lookupDigest_ne_error hfingerprint)
    · rw [hfingerprint] at hf
      cases hf
  | cachedError args cached => exact h.cachedError args cached
  | cached _ args cached =>
    cases cached with
    | replayed keyed found same read =>
      obtain ⟨hsame, hF, hread⟩ := h.found args keyed found
      obtain rfl := Except.ok.inj (hread.symm.trans read)
      exact .replayed (hsame.symm.trans (same.symm.trans hF))
  | consumed _ _ answer => exact h.consumed answer

/-- **An attempt under a bound key** writes nothing but cleanups. -/
theorem writesNothing : WritesNothing tid m := by
  intro v hv p r' call i reply hl
  obtain ⟨kidBytes, key, hrun⟩ := h.run
  obtain ⟨σ₁, σ₂, hcut⟩ :=
    List.append_of_mem (show v ∈ τ₁ ++ d :: (m ++ u :: ρ) from subset_run (by simp [hv]))
  obtain ⟨hexec, hcommand⟩ := attempt_act hrun (by simp) h.thread hcut hl
  cases hcommand with
  | cleanup hcleanup =>
    cases hcleanup
    exact Or.inl ⟨_, rfl⟩
  | cached _ hc => cases hc
  | consume _ args =>
    rcases Op.exec_store hexec with ⟨reply, hreply, hs, -⟩ | ⟨e, he, -⟩
    · refine Or.inr ?_
      rcases h.answer hv (hcut ▸ List.subset_append_left _ _) args i.now i.draws with
        ⟨-, hok⟩ | ⟨-, hok⟩ | ⟨-, herror⟩
      · exact (Prod.mk.inj (Except.ok.inj (Eq.trans (Eq.symm hs) hok))).2
      · exact (Prod.mk.inj (Except.ok.inj (Eq.trans (Eq.symm hs) hok))).2
      · cases Eq.trans (Eq.symm hs) herror
    · cases he

end

end BoundAttempt

/-- **The idempotency contract** holds in every run whose readings are ordered and not
negative. -/
theorem idempotency_contract (h : SystemRun H τ s) (_hclock : ClockOrdered (commits τ))
    (hreadings : NonnegativeReadings (commits τ)) : IdempotencyContract H τ s where
  bound hcut hd := by
    rintro m u ρ t rfl ht hcleanups tid pid q y a hret hunanswered hargs hC hK
    subst hcut
    have hattempt : BoundAttempt H _ _ m u ρ s tid pid q y a _ _ _ _ _ t :=
      ⟨h, hreadings, hd, ht, hcleanups, hret, hunanswered, hargs, hC, hK⟩
    exact ⟨hattempt.outcome, hattempt.writesNothing⟩
  unbound hcut hret hy := writesNothing_of_undecided (hcut ▸ h) hret hy
  unique := by
    refine ⟨run_keysUnique h.ledger keysUnique_empty, fun u hu => ?_⟩
    obtain ⟨τ₁, τ₂, rfl⟩ := List.append_of_mem hu
    obtain ⟨h₁, hs, -⟩ := h.of_cut
    have hsrc := run_keysUnique h₁.ledger keysUnique_empty
    exact ⟨hsrc, run_keysUnique (ledgerRun (Run.single hs)) hsrc⟩

/-- A decision is replayed under its key, and another request under the key conflicts. -/
theorem idempotency_contract_served : ∃ τ s, SystemRun plainHash τ s ∧
    (verificationResults τ).map VerificationResult.verified = [true, true] ∧
    verificationErrors τ = [.valueError "idempotency_conflict"] ∧
    IdempotencyContract plainHash τ s := by
  obtain ⟨τ, s, hrun, ⟨hclock, hreadings⟩, hresults, herrors⟩ := exists_systemRun
    (Scenario.served ++
      Scenario.thread 0 2 10 (.api (.issueProof (Scenario.issueRequest 25))) 1001 40 ++
      Scenario.thread 0 3 10 (.api (.verifyProof (Scenario.verifyRequest 28 (Scenario.proof 47)
        (lit "login") (some (lit "key"))))) 1002 60 ++
      Scenario.thread 0 4 9 (.api (.verifyProof (Scenario.verifyRequest 28 (Scenario.proof 47)
        (lit "login") (some (lit "key"))))) 1003 80 ++
      Scenario.thread 0 5 9 (.api (.verifyProof (Scenario.verifyRequest 28 (Scenario.proof 47)
        (lit "logout") (some (lit "key"))))) 1004 100)
    (fun τ _ => (ClockOrdered (commits τ) ∧ NonnegativeReadings (commits τ)) ∧
      (verificationResults τ).map VerificationResult.verified = [true, true] ∧
        verificationErrors τ = [.valueError "idempotency_conflict"])
    (by decide +kernel)
  exact ⟨τ, s, hrun, hresults, herrors, idempotency_contract hrun hclock hreadings⟩

/-! ### Negative readings -/

/-- What an event commits under an idempotency key. -/
def SystemEvent.keyed? : SystemEvent → Option (Str × Option Str × ℤ × Option RejectionReason)
  | .act _ _ _ (.store (.consumeProof a)) i (.ok r) =>
    some (a.clientId, a.idempotencyKey, i.now, r.reason)
  | _ => none

/-- An event of the thread 4 that looks a key up. -/
def SystemEvent.looksUp (clientId key : Str) : SystemEvent → Bool
  | .act 4 _ _ (.idempotent clientId' key') _ _ => clientId' = clientId ∧ key' = key
  | _ => false

/-- A commit of the cleanup. -/
def Commit.cleans (c : Commit) : Bool :=
  match c.call with
  | .cleanup _ => true
  | _ => false

/-- The thread 4 fails to read a stored decision. -/
def SystemEvent.corrupt : SystemEvent → Bool
  | .ret 4 _ (.api (.verifyProof _)) (.error .storeCorruptionError) => true
  | _ => false

/-- Before 1970 the contract fails: a decision at a negative reading is stored, and the reader
refuses its time. -/
theorem idempotency_counterexample : ∃ τ s, SystemRun plainHash τ s ∧
    ClockOrdered (commits τ) ∧ ¬ IdempotencyContract plainHash τ s := by
  obtain ⟨τ₁, d, τ₂, s, h, hd, hclock, hfresh, hunread, hlater⟩ := exists_systemRun_cut
    (Scenario.servedAt (-1000) ++
      Scenario.thread 0 2 10 (.api (.issueProof (Scenario.issueRequest 25))) (-999) 40 ++
      Scenario.thread 0 3 10 (.api (.verifyProof (Scenario.verifyRequest 28 (Scenario.proof 47)
        (lit "login") (some (lit "key"))))) (-998) 60 ++
      Scenario.thread 0 4 9 (.api (.verifyProof (Scenario.verifyRequest 28 (Scenario.proof 47)
        (lit "login") (some (lit "key"))))) (-997) 80)
    (fun l => SystemEvent.keyed? l = some (Scenario.clientId 24, some (lit "key"), -998, none))
    (fun τ₁ d τ₂ _ => ClockOrdered (commits (τ₁ ++ d :: τ₂)) ∧
      (d.src.world.ledger.idempotent (Scenario.clientId 24) (lit "key")).isNone = true ∧
      (acted 4 (τ₁ ++ [d])).isEmpty = true ∧
      (cutAt SystemEvent.corrupt τ₂).any (fun y =>
        (commits y.1).all (fun c => !c.label.cleans) ∧
        y.1.any fun t => SystemEvent.looksUp (Scenario.clientId 24) (lit "key") t.label) = true)
    (by decide +kernel)
  refine ⟨_, s, h, hclock, fun hcontract => ?_⟩
  obtain ⟨⟨m, u, ρ⟩, hcut, hm⟩ := (Option.any_eq_true _ _).mp hlater
  obtain ⟨rfl, hcorrupt⟩ := cutAt_eq_some hcut
  obtain ⟨hcleans, hlookup⟩ := of_decide_eq_true hm
  obtain ⟨v, hv, hlooksUp⟩ := List.any_eq_true.mp hlookup
  obtain ⟨kidBytes, key, hrun⟩ := id h
  -- the decision
  have hkeyed := of_decide_eq_true hd
  unfold SystemEvent.keyed? at hkeyed
  split at hkeyed
  case h_2 => cases hkeyed
  rename_i tid pid req a i r hdl
  simp only [Option.some.injEq, Prod.mk.injEq] at hkeyed
  obtain ⟨hC, hK, hnow, hreason⟩ := hkeyed
  have hdecision : KeyedDecision (Scenario.clientId 24) (lit "key") a.requestFingerprint r (-998)
      d := by
    refine ⟨tid, pid, req, a, i, hdl, ?_, hC, hK, rfl, hnow⟩
    rcases Op.exec_store (hrun.act hdl).1 with ⟨reply, hreply, hs, -⟩ | ⟨e, he, -⟩
    · obtain rfl := Except.ok.inj hreply
      have heffect : ConsumeEffect a i.now i.draws d.src.world.ledger r d.dst.world.ledger :=
        Store.consumeProof_ok hs
      generalize d.src.world.ledger = db at heffect hfresh
      generalize d.dst.world.ledger = db' at heffect
      cases heffect with
      | refused => cases hreason
      | replayed _ _ key row _ keyed stored =>
        obtain rfl := Option.some.inj (hK.symm.trans keyed)
        rw [hC, Option.isNone_iff_eq_none.mp hfresh] at stored
        cases stored
      | decided effect => exact effect
    · cases he
  -- the failed attempt
  unfold SystemEvent.corrupt at hcorrupt
  split at hcorrupt
  case h_2 => cases hcorrupt
  rename_i pid' q hul
  unfold SystemEvent.looksUp at hlooksUp
  split at hlooksUp
  case h_2 => cases hlooksUp
  rename_i p r' clientId' key' i' z hvl
  obtain ⟨rfl, rfl⟩ := of_decide_eq_true hlooksUp
  obtain ⟨m₁, m₂, rfl⟩ := List.append_of_mem hv
  have hcutv : τ₁ ++ d :: ((m₁ ++ v :: m₂) ++ u :: ρ) =
      (τ₁ ++ d :: m₁) ++ v :: (m₂ ++ u :: ρ) := by simp
  obtain ⟨a', hargs, hC', hK'⟩ := (attempt_act (u := u) hrun (by simp) (by rw [hul]; rfl) hcutv
    hvl).2.lookup
  have hpre : acted 4 (τ₁ ++ d :: m₁) <+: acted 4 (τ₁ ++ d :: (m₁ ++ v :: m₂)) := by
    rw [show τ₁ ++ d :: (m₁ ++ v :: m₂) = (τ₁ ++ d :: m₁) ++ v :: m₂ by simp,
      acted_append 4 (τ₁ ++ d :: m₁)]
    exact List.prefix_append _ _
  have hnone := List.isEmpty_iff.mp hunread
  have houtcome := (hcontract.bound rfl hdecision rfl le_rfl (fun c hc now x counts hl => ?_)
    (y := .error .storeCorruptionError) hul ?_ (hargs.mono hpre) hC' hK').1
  · cases houtcome
  · have hcall := List.all_eq_true.mp hcleans c hc
    simp [Commit.cleans, hl] at hcall
  · rw [hnone]
    exact ⟨fun _ _ _ => List.not_mem_nil, fun _ _ => List.not_mem_nil⟩

end Onceproof

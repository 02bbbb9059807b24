import Onceproof.Keys.Custody
import Onceproof.Ledger.Cleaning
import Onceproof.Service.Evaluation

/-!
# Requests that run undisturbed

What the parts of a request come to when one thread runs them without interruption:
`_authenticate` is a function of the ledger and of the keyring in memory
(`Ledger.authentication`), the opportunistic cleanup makes one change of the world
(`World.maintained`), and a transaction ends with its outcome.
-/

namespace Onceproof

variable {H : HashLib} {α β : Type} {p tid n : ℕ} {o : Outside} {w w' : World} {k : KeyRing}
variable {now : ℤ}

/-! ### Authentication -/

/-- What `_authenticate` computes. -/
def Ledger.authentication (H : HashLib) (db : Ledger) (k : KeyRing) (secret : Json) (role : Role)
    (now : ℤ) : Except Error (Option CredentialRecord) :=
  match secret with
  | .str text =>
    match Service.credentialIdFromSecret text role with
    | none => .ok none
    | some id => binding [id] <|
      match db.credentials.get? id with
      | none => .ok none
      | some row =>
        if row.role ≠ role then .ok none
        else match k.keyFor row.hashKid with
          | none => .ok none
          | some key => match credentialDigest H key.val text with
            | .error e => .error e
            | .ok digest =>
              if row.secretDigest ≠ digest then .ok none
              else if credentialIsAccepted row now then .ok (some (credentialFromRow row))
              else .ok none
  | _ => .ok none

/-- **Authentication** is a function of the ledger and of the keyring in memory. -/
theorem eval_authenticate (ho : o.Quiet) (hk : w.memoryOf p = some k) (secret : Json) (role : Role)
    (now : ℤ) : (Service.authenticate H secret role now).eval p tid o (w, n) =
      some (w.ledger.authentication H k secret role now, w, n) := by
  cases secret with
  | str text =>
    unfold Service.authenticate Ledger.authentication
    dsimp only
    cases Service.credentialIdFromSecret text role with
    | none => rfl
    | some id =>
      dsimp only
      rw [eval_query [id] (fun db => db.credentials.get? id) (fun _ _ => rfl) rfl ho, binding]
      split_ifs with hid
      · cases w.ledger.credentials.get? id with
        | none => rfl
        | some row =>
          have hrecord : (credentialFromRow row).role = row.role := rfl
          have hstatus :
              (credentialFromRow row).isAccepted now = credentialIsAccepted row now := rfl
          dsimp only
          rw [hrecord, hstatus]
          by_cases hrole : row.role ≠ role
          · rw [if_pos hrole, if_pos hrole]
            rfl
          · rw [if_neg hrole, if_neg hrole, eval_memory hk]
            change HostProg.eval (match k.keyFor row.hashKid with
              | none => _
              | some key => _) p tid o (w, n) = _
            cases k.keyFor row.hashKid with
            | none => rfl
            | some key =>
              dsimp only
              rw [eval_bind, eval_lift]
              cases credentialDigest H key.val text with
              | error e => rfl
              | ok digest =>
                change HostProg.eval (if row.secretDigest ≠ digest then pure none
                  else if credentialIsAccepted row now = true then
                    pure (some (credentialFromRow row)) else pure none) p tid o (w, n) =
                  some (if row.secretDigest ≠ digest then .ok none
                    else if credentialIsAccepted row now = true then
                      .ok (some (credentialFromRow row)) else .ok none, w, n)
                split_ifs
                · rfl
                · rfl
                · rfl
      · rfl
  | _ => rfl

/-- The secrets that authenticate. -/
theorem Ledger.authentication_eq_some {db : Ledger} {secret : Json} {role : Role}
    {record : CredentialRecord} :
    db.authentication H k secret role now = .ok (some record) ↔
      ∃ text id row key, secret = .str text ∧
        Service.credentialIdFromSecret text role = some id ∧ id.encodable = true ∧
        db.credentials.get? id = some row ∧ row.role = role ∧ k.keyFor row.hashKid = some key ∧
        credentialDigest H key.val text = .ok row.secretDigest ∧
        credentialIsAccepted row now = true ∧ record = credentialFromRow row := by
  constructor
  · intro h
    cases secret with
    | str text =>
      -- every check that fails makes the answer an error or `none`
      unfold Ledger.authentication at h
      dsimp only at h
      cases hid : Service.credentialIdFromSecret text role with
      | none =>
        rw [hid] at h
        cases h
      | some id =>
        rw [hid] at h
        dsimp only [binding] at h
        split_ifs at h with henc
        cases hrow : db.credentials.get? id with
        | none =>
          rw [hrow] at h
          cases h
        | some row =>
          rw [hrow] at h
          dsimp only at h
          by_cases hrole : row.role = role
          · rw [if_neg (not_not.mpr hrole)] at h
            cases hkey : k.keyFor row.hashKid with
            | none =>
              rw [hkey] at h
              cases h
            | some key =>
              rw [hkey] at h
              dsimp only at h
              cases hdigest : credentialDigest H key.val text with
              | error e =>
                rw [hdigest] at h
                cases h
              | ok digest =>
                rw [hdigest] at h
                dsimp only at h
                split_ifs at h with hsame haccepted
                · cases h
                · obtain rfl := Option.some.inj (Except.ok.inj h)
                  refine ⟨text, id, row, key, rfl, hid, by simpa using henc, hrow, hrole, hkey, ?_,
                    haccepted, rfl⟩
                  rw [hdigest, not_not.mp hsame]
                · cases h
          · rw [if_pos hrole] at h
            cases h
    | _ => cases h
  · rintro ⟨text, id, row, key, rfl, hid, henc, hrow, hrole, hkey, hdigest, haccepted, rfl⟩
    unfold Ledger.authentication
    dsimp only
    rw [hid]
    dsimp only
    rw [binding_of_encodable (by simpa using henc), hrow]
    dsimp only
    rw [if_neg (not_not.mpr hrole), hkey]
    dsimp only
    rw [hdigest]
    dsimp only
    rw [if_neg (not_not.mpr rfl), if_pos haccepted]

/-! ### The opportunistic cleanup -/

/-- A serving process has scheduled its next cleanup. -/
def World.Scheduled (w : World) : Prop :=
  ∀ p, w.Serving p → ((w.procs p).bind Proc.nextCleanupAt).isSome = true

theorem World.scheduled_of_procs {w w' : World} (hprocs : w'.procs = w.procs) (h : w.Scheduled) :
    w'.Scheduled := by
  intro p hp
  rw [World.Serving, hprocs] at hp
  rw [hprocs]
  exact h p hp

/-- A change of one process. -/
theorem World.Scheduled.setProc (h : w.Scheduled) {f : Proc → Proc}
    (hf : ∀ q, w.procs p = some q → (f q).serving = true → (f q).nextCleanupAt.isSome = true) :
    (w.setProc p f).Scheduled := by
  intro p' hp'
  rw [World.Serving, World.setProc] at hp'
  rw [World.setProc]
  dsimp only at hp' ⊢
  by_cases hpp : p' = p
  · subst hpp
    rw [Function.update_self] at hp' ⊢
    obtain ⟨q', hq', hserving⟩ := (Option.any_eq_true _ _).mp hp'
    obtain ⟨q, hq, rfl⟩ := Option.map_eq_some_iff.mp hq'
    rw [hq']
    exact hf q hq hserving
  · rw [Function.update_of_ne hpp] at hp' ⊢
    exact h p' hp'

/-- **A process that serves has scheduled its next cleanup.** -/
theorem SystemRunFrom.scheduled {τ : List SystemTrans} {s : SystemState}
    (h : SystemRunFrom H w τ s) (h₀ : w.Scheduled) : s.world.Scheduled := by
  refine Run.invariant (I := fun s : SystemState => s.world.Scheduled) ?_ h h₀
  intro s l s' hI hs
  cases hs with
  | @call p r w' admitted =>
    cases r with
    | command c =>
      simp only [system, Request.accept] at admitted
      split_ifs at admitted
      obtain rfl := Option.some.inj admitted
      intro p' hp'
      by_cases hpp : p' = p
      · subst hpp
        rw [World.Serving] at hp'
        dsimp only at hp'
        rw [Function.update_self] at hp'
        cases hp'
      · rw [World.Serving] at hp'
        dsimp only at hp' ⊢
        rw [Function.update_of_ne hpp] at hp' ⊢
        exact hI p' hp'
    | api c =>
      simp only [system, Request.accept] at admitted
      split_ifs at admitted
      exact Option.some.inj admitted ▸ hI
  | @act tid p r hist c k i a w' running executed =>
    have hexec : c.exec p tid i s.world = some (a, w') := executed
    have hI : s.world.Scheduled := hI
    have hkept : ∀ q, s.world.procs p = some q → q.serving = true →
        q.nextCleanupAt.isSome = true := by
      intro q hq hserving
      have hp := hI p (by rw [World.Serving, hq]; exact hserving)
      rw [hq] at hp
      exact hp
    change w'.Scheduled
    -- serving begins only once a cleanup is scheduled
    by_cases hstart : c = .startServing
    · subst hstart
      simp only [Op.exec] at hexec
      split_ifs at hexec with hloaded
      obtain ⟨-, rfl⟩ := Prod.mk.inj (Option.some.inj hexec)
      refine hI.setProc fun q hq _ => ?_
      rw [hq] at hloaded
      exact hloaded.2
    · cases Op.exec_frame hexec with
      | none => exact hI
      | locked => exact World.scheduled_of_procs (w := s.world) rfl hI
      | released => exact World.scheduled_of_procs (w := s.world) rfl hI
      | replaced => exact World.scheduled_of_procs (w := s.world) rfl hI
      | remembered k => exact hI.setProc hkept
      | scheduled t => exact hI.setProc fun _ _ _ => rfl
      | served => exact absurd rfl hstart
      | committed => exact World.scheduled_of_procs (w := s.world) rfl hI
  | ret => exact hI
  | stop p =>
    intro p' hp'
    by_cases hpp : p' = p
    · subst hpp
      rw [World.Serving] at hp'
      simp only [system, World.stop] at hp'
      rw [Function.update_self] at hp'
      cases hp'
    · rw [World.Serving] at hp'
      simp only [system, World.stop] at hp' ⊢
      rw [Function.update_of_ne hpp] at hp' ⊢
      exact hI p' hp'

/-- The world after an opportunistic cleanup: one that is due, and that no other thread makes. -/
def World.maintained (w : World) (p : ℕ) (now : ℤ) : World :=
  if ((w.procs p).bind Proc.nextCleanupAt).any (fun t => t ≤ now) ∧
      w.locks (LockName.maintenanceLock.of p) = none then
    { w with ledger := w.ledger.cleaned now }.setProc p fun q =>
      { q with nextCleanupAt := some (now + cleanupIntervalSeconds) }
  else w

/-- A lock that was free is free again. -/
theorem World.locks_restored {l : Lock} (w : World) (h : Option (ℕ × ℕ))
    (hfree : w.locks l = none) :
    Function.update (Function.update w.locks l h) l none = w.locks := by
  rw [Function.update_idem, ← hfree, Function.update_eq_self]

/-- **The opportunistic cleanup** raises nothing. -/
theorem eval_maybeCleanup (ho : o.Quiet) (hnow : Timely now) {t : ℤ}
    (ht : (w.procs p).bind Proc.nextCleanupAt = some t) :
    (Service.maybeCleanup now).eval p tid o (w, n) = some (.ok (), w.maintained p now, n) := by
  have hread : ∀ (w' : World) (f : ℤ → HostProg Unit), w'.procs = w.procs →
      HostProg.eval (Op.nextCleanupAt.run >>= f) p tid o (w', n) =
        (f t).eval p tid o (w', n) := by
    intro w' f hprocs
    exact eval_command rfl (by rw [Op.exec, hprocs, ht]; rfl)
  have hmaintained : w.maintained p now =
      if t ≤ now ∧ w.locks (LockName.maintenanceLock.of p) = none then
        { w with ledger := w.ledger.cleaned now }.setProc p fun q =>
          { q with nextCleanupAt := some (now + cleanupIntervalSeconds) }
      else w := by
    rw [World.maintained, ht]
    simp
  rw [Service.maybeCleanup, hread w _ rfl, hmaintained]
  by_cases hdue : now < t
  · rw [if_pos hdue, if_neg (fun h => absurd h.1 (by omega))]
    rfl
  · rw [if_neg hdue]
    have hle : t ≤ now := by omega
    by_cases hfree : w.locks (LockName.maintenanceLock.of p) = none
    · rw [if_pos ⟨hle, hfree⟩]
      -- the lock is free, so the second look at the schedule finds the same time
      have htry : (Op.tryAcquire .maintenanceLock).exec p tid
          (o.issued (.tryAcquire .maintenanceLock)) w =
            some (.ok true, w.setLock (LockName.maintenanceLock.of p) (some (p, tid))) := by
        simp [Op.exec, orFault, hfree, ho.issued]
      refine (eval_command rfl htry).trans ?_
      rw [if_pos rfl, eval_ensure_release,
        hread (w.setLock (LockName.maintenanceLock.of p) (some (p, tid))) _ rfl, if_pos hle,
        eval_bind]
      obtain ⟨counts, hrun⟩ := Store.cleanup_run hnow.cleanupTime w.ledger
      have hstore : HostProg.eval (Op.store (.cleanup now)).run p tid o
          (w.setLock (LockName.maintenanceLock.of p) (some (p, tid)), n) =
            some (.ok counts, { w.setLock (LockName.maintenanceLock.of p) (some (p, tid)) with
              ledger := w.ledger.cleaned now }, n) :=
        eval_store ho (Tx.write_of_run hrun)
      rw [hstore]
      have hset : ∀ w' : World, HostProg.eval
          (Op.setNextCleanupAt (now + cleanupIntervalSeconds)).run p tid o (w', n) =
            some (.ok (), w'.setProc p fun q =>
              { q with nextCleanupAt := some (now + cleanupIntervalSeconds) }, n) := fun w' => rfl
      dsimp only
      rw [hset]
      refine congrArg (fun w' : World => some ((.ok () : Except Error Unit), w', n)) ?_
      rw [World.setProc, World.setLock, World.setLock, World.setProc]
      dsimp only
      rw [World.locks_restored w _ hfree]
    · have htry : (Op.tryAcquire .maintenanceLock).exec p tid
          (o.issued (.tryAcquire .maintenanceLock)) w = some (.ok false, w) := by
        simp [Op.exec, orFault, Option.isSome_iff_ne_none.mpr hfree, ho.issued]
      refine (eval_command rfl htry).trans ?_
      rw [if_neg Bool.false_ne_true, if_neg (fun h => hfree h.2)]
      rfl

/-- The opportunistic cleanup cleans the ledger or leaves it alone. -/
theorem World.maintained_ledger (w : World) (p : ℕ) (now : ℤ) :
    w.ledger.MaybeCleaned now (w.maintained p now).ledger := by
  unfold World.maintained
  split_ifs
  · exact Or.inr rfl
  · exact Or.inl rfl

/-- And it does not touch the keyring. -/
theorem World.maintained_memoryOf (w : World) (p p' : ℕ) (now : ℤ) :
    (w.maintained p now).memoryOf p' = w.memoryOf p' := by
  unfold World.maintained
  split_ifs
  · rw [World.memoryOf, World.memoryOf, World.setProc]
    dsimp only
    by_cases hp : p' = p
    · subst hp
      rw [Function.update_self]
      cases w.procs p' <;> rfl
    · rw [Function.update_of_ne hp]
  · rfl

/-! ### The fast path -/

/-- The stored decision that a read without the lock finds for a request. -/
def Ledger.cachedDecision (db : Ledger) (a : ConsumeProof) (now : ℤ) :
    Except Error (Option VerificationResult) :=
  match a.idempotencyKey with
  | none => .ok none
  | some key =>
    if db.restoreRequired then .error .restoreRequiredError
    else if a.credentialId.encodable then
      match db.joined a.credentialId .verification with
      | none => .ok none
      | some (credential, client) =>
        if credential.clientId ≠ a.clientId ∨ client.status ≠ .active ∨
            ¬ credentialIsAccepted credential now then .ok none
        else db.storedDecision a.clientId key a.requestFingerprint
    else .error .unicodeEncodeError

/-- The fast path for a request. -/
def Service.cachedFor (a : ConsumeProof) : HostProg (Option VerificationResult) :=
  Service.cachedVerification a.credentialId a.clientId a.idempotencyKey a.requestFingerprint

/-- **The fast path reads one decision**, and writes nothing. -/
theorem eval_cachedFor (p tid n : ℕ) (w : World) (a : ConsumeProof) (ho : o.Quiet) :
    ∃ m, (Service.cachedFor a).eval p tid o (w, n) =
      some (w.ledger.cachedDecision a (o.drawn n).now, w, m) := by
  unfold Service.cachedFor Service.cachedVerification Ledger.cachedDecision
  cases a.idempotencyKey with
  | none => exact ⟨n, rfl⟩
  | some key =>
    dsimp only
    rw [eval_query [] (fun db => db.restoreRequired) (fun _ _ => rfl) rfl ho, if_pos List.all_nil]
    cases w.ledger.restoreRequired with
    | true => exact ⟨n, rfl⟩
    | false =>
      rw [if_neg Bool.false_ne_true, if_neg Bool.false_ne_true, eval_clock ho,
        eval_query [a.credentialId] (fun db => db.joined a.credentialId .verification)
          (fun _ _ => rfl) rfl ho]
      simp only [List.all_cons, List.all_nil, Bool.and_true]
      refine ⟨n + 1, ?_⟩
      by_cases hcredential : a.credentialId.encodable = true
      · rw [if_pos hcredential, if_pos hcredential]
        rcases w.ledger.joined a.credentialId .verification with _ | ⟨credential, client⟩
        · rfl
        · dsimp only
          by_cases hrefused : credential.clientId ≠ a.clientId ∨ client.status ≠ .active ∨
              ¬ credentialIsAccepted credential (o.drawn n).now
          · rw [if_pos hrefused, if_pos hrefused]
            rfl
          · rw [if_neg hrefused, if_neg hrefused, eval_query [a.clientId, key]
              (fun db => db.idempotent a.clientId key) (fun _ _ => rfl) rfl ho,
              Ledger.storedDecision]
            simp only [List.all_cons, List.all_nil, Bool.and_true, Bool.and_eq_true]
            split_ifs with hbound
            · rcases w.ledger.idempotent a.clientId key with _ | row
              · rfl
              · dsimp only
                split_ifs with hother
                · rfl
                · rcases resultFromJson (.ok row.resultJson) with e | result <;> rfl
            · rfl
      · rw [if_neg hcredential, if_neg hcredential]

/-! ### Verifying -/

variable (H) in
/-- `verify_proof` up to its decision: a rejected secret, or the request for a decision. -/
def Service.decisionFor (q : VerifyRequest) : HostProg (VerificationResult ⊕ ConsumeProof) := do
  let proof ← Prog.lift (Service.text q.proof "proof" 512)
  let subject ← Prog.lift (Service.text q.subject "subject" maxSubjectLength)
  let purpose ← Prog.lift (Service.purpose q.purpose)
  let audience ← Prog.lift (Service.audience q.audience)
  let idempotencyKey ← Prog.lift (Service.idempotencyKey q.idempotencyKey)
  let now : ℤ ← Op.clock.run
  Service.maybeCleanup now
  match ← Service.authenticate H q.verificationSecret .verification now with
  | none =>
    let idBytes : Bytes ← (Op.tokenBytes 16).run
    pure (.inl (rejectedResult .credentialRejected (lit "vr_" ++ hexlify idBytes) none none now))
  | some credential =>
    let memory : KeyRing ← Op.memory.run
    let tokenDigest ← Prog.lift (Service.lookupDigest H memory proof)
    let fingerprint ← Prog.lift (Service.requestFingerprint H proof subject purpose audience)
    pure (.inr
      { credentialId := credential.credentialId
        clientId := credential.clientId
        tokenDigest
        subject
        purpose
        audience
        requestFingerprint := fingerprint
        idempotencyKey })

/-- The decision with the fast path. -/
def Service.decideCached (a : ConsumeProof) : HostProg VerificationResult := do
  match ← Service.cachedFor a with
  | some cached => pure cached
  | none => (Op.store (.consumeProof a)).run

/-- `verify_proof` reads its arguments and decides. -/
theorem verifyProof_eq (q : VerifyRequest) :
    Service.verifyProof H q = Service.decisionFor H q >>= Sum.elim pure Service.decideCached := by
  unfold Service.verifyProof Service.decisionFor
  simp only [Prog.bind_assoc]
  refine congrArg _ (funext fun proof => congrArg _ (funext fun subject => ?_))
  refine congrArg _ (funext fun purpose => congrArg _ (funext fun audience => ?_))
  refine congrArg _ (funext fun idempotencyKey => congrArg _ (funext fun now => ?_))
  refine congrArg _ (funext fun _ => congrArg _ (funext fun record => ?_))
  rcases record with _ | credential
  · dsimp only
    rw [Prog.bind_assoc]
    rfl
  · simp only [Prog.bind_assoc]
    rfl

end Onceproof

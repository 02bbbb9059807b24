import Onceproof.Service.Programs
import Onceproof.Ledger.Metering
import Onceproof.Lib.Answers

/-!
# The service without faults

The exceptions that the requests of a client can end with when nothing is interrupted: no command
fails on its own account, and no transaction is cut off. The answers may come from any worlds, so
other threads and processes may do anything in between.

* `Op.FaultFree`: some world answers the command so, without an interruption.
* `Error.Answered`: the exceptions that the checks, the digests and the statements raise.
* `credentialIsAccepted_answered`, `issueProof_answered` and `verifyProof_answered`: these are the
  only ones.
-/

namespace Onceproof

variable {H : HashLib} {α β : Type}

/-- Some world gives this answer without an interruption. -/
def Op.FaultFree (c : Op) (a : c.Ans) : Prop :=
  ∃ (p tid : ℕ) (i : Choice) (w w' : World), i.fault = false ∧ i.late = false ∧ i.cut = none ∧
    c.exec p tid i w = some (a, w')

/-- The exceptions of a request whose commands are not interrupted. -/
def Error.Answered : Error → Prop
  | .valueError _ | .permissionError _ | .rateLimitError _ | .storeCorruptionError
  | .restoreRequiredError | .integrityError | .unicodeEncodeError => True
  | _ => False

theorem storeErrors_answered : StoreErrors Error.Answered where
  encode := trivial
  integrity := trivial
  restore := trivial
  corruption := trivial
  value := fun _ => trivial
  permission := fun _ => trivial

/-! ### Commands -/

/-- Without a fault the value is answered. -/
theorem orFault_of_not_fault {i : Choice} (hfault : i.fault = false) (w : World)
    (x : Except Error α × World) : orFault i w x = some x := by
  rw [orFault, hfault]
  rfl

/-- The commands of a request: those that write are the three transactions. -/
def Op.OfRequest : Op → Prop
  | .store (.issueProof _ _) | .store (.consumeProof _) => True
  | .store (.cleanup now) => CleanupTime now
  | .store _ | .replaceKeyring _ => False
  | _ => True

/-- The three transactions raise only what is answered. -/
theorem answered_of_tx {call : StoreCall} {x : Chance} {db : Ledger} {e : Error}
    (hcall : (Op.store call).OfRequest) (h : Tx.run (call.tx x) db = .error e) : e.Answered := by
  cases call with
  | issueProof record check =>
    exact raises_issueProof storeErrors_answered (fun _ => trivial) _ _ _ _ _ _ h
  | consumeProof a => exact raises_consumeProof storeErrors_answered (fun _ => trivial) _ _ _ _ _ h
  | cleanup now =>
    obtain ⟨counts, hrun⟩ := Store.cleanup_run hcall db
    cases hrun.symm.trans h
  | _ => exact hcall.elim

/-- **A command of a request** that is not interrupted raises only what is answered. -/
theorem Op.FaultFree.answered {c : Op} {e : Error} (h : c.FaultFree (.error e))
    (hc : c.OfRequest) : e.Answered := by
  obtain ⟨p, tid, i, w, w', hfault, -, hcut, hexec⟩ := h
  have hnone : ∀ {α : Type} {a : α} {w₁ : World},
      orFault i w (.ok a, w₁) ≠ some (Except.error e, w') := by
    intro α a w₁ hx
    rw [orFault_of_not_fault hfault] at hx
    cases (Prod.mk.inj (Option.some.inj hx)).1
  have hquery : ∀ {α : Type} {params : List Str} {query : Ledger → α},
      queried i w params query = some (.error e, w') → e.Answered := by
    intro α params query hx
    rw [queried, orFault_of_not_fault hfault] at hx
    have hvalue := (Prod.mk.inj (Option.some.inj hx)).1
    split_ifs at hvalue
    rw [← Except.error.inj hvalue]
    trivial
  cases c with
  | clock | tokenBytes | newRootKey | readKeyring | deliver | backup => exact absurd hexec hnone
  | newKid | acquire =>
    simp only [Op.exec] at hexec
    split_ifs at hexec
    exact absurd hexec hnone
  | tryAcquire =>
    simp only [Op.exec] at hexec
    split_ifs at hexec <;> exact absurd hexec hnone
  | release | setMemory | setNextCleanupAt => cases hexec
  | replaceKeyring k => exact hc.elim
  | memory | nextCleanupAt =>
    simp only [Op.exec, Option.map_eq_some_iff, Prod.mk.injEq] at hexec
    obtain ⟨_, -, hvalue, -⟩ := hexec
    cases hvalue
  | startServing =>
    simp only [Op.exec] at hexec
    split_ifs at hexec
    cases hexec
  | credential | client | joined | idempotent | credentialUses | proofUses | keyChecks =>
    simp only [Op.exec] at hexec
    exact hquery hexec
  | restoreRequired | referencedKids =>
    simp only [Op.exec] at hexec
    exact hquery hexec
  | store call =>
    simp only [Op.exec, hcut, Option.some.injEq] at hexec
    cases hrun : Tx.run (call.tx i.chance) w.ledger with
    | ok y =>
      rw [Tx.write_of_run hrun] at hexec
      cases (Prod.mk.inj hexec).1
    | error e' =>
      rw [Tx.write_of_run_error hrun] at hexec
      obtain rfl := Except.error.inj (Prod.mk.inj hexec).1
      exact answered_of_tx hc hrun

/-! ### Programs -/

/-- What a program raises is answered. -/
abbrev HostProg.Answered (p : HostProg α) : Prop :=
  p.Under Op.FaultFree fun x => ∀ e, x = .error e → e.Answered

/-- A program that returns raises nothing. -/
theorem answered_ret (a : α) : HostProg.Answered (Prog.ret a) := by
  intro e he
  cases he

theorem answered_raise {e : Error} (he : e.Answered) :
    HostProg.Answered (Prog.raise e : HostProg α) := by
  intro e' he'
  rwa [← Except.error.inj he']

/-- Parts one after the other. -/
theorem answered_bind {p : HostProg α} {f : α → HostProg β} (hp : p.Answered)
    (hf : ∀ a, (f a).Answered) : HostProg.Answered (p >>= f) := by
  refine Prog.Under.bind (hp.mono fun x hx => ?_)
  cases x with
  | ok a => exact hf a
  | error e =>
    intro e' he'
    rw [← Except.error.inj he']
    exact hx e rfl

theorem answered_lift {x : Except Error α} (hx : ∀ e, x = .error e → e.Answered) :
    HostProg.Answered (Prog.lift x : HostProg α) := Prog.under_lift.mpr hx

/-- A command of a request. -/
theorem answered_run {c : Op} (hc : c.OfRequest) : HostProg.Answered c.run := by
  refine Prog.under_perform.mpr fun a ha e he => ?_
  rw [he] at ha
  exact ha.answered hc

/-- A clock reading, and what follows it. -/
theorem answered_clock {f : ℤ → HostProg β} (hf : ∀ now, Timely now → (f now).Answered) :
    HostProg.Answered (Op.clock.run >>= f) := by
  refine Prog.Under.bind (Prog.under_perform.mpr fun a ha => ?_)
  cases a with
  | ok now =>
    obtain ⟨p, tid, i, w, w', -, -, -, hexec⟩ := ha
    exact hf now (Op.exec_clock hexec)
  | error e =>
    intro e' he'
    rw [← Except.error.inj he']
    exact ha.answered trivial

theorem answered_ite {c : Prop} [Decidable c] {p q : HostProg α} (hp : p.Answered)
    (hq : q.Answered) : HostProg.Answered (if c then p else q) := by
  split_ifs
  · exact hp
  · exact hq

/-- Releasing a lock never fails. -/
theorem under_release (l : LockName) :
    (Op.release l).run.Under Op.FaultFree fun x => x = .ok () := by
  refine Prog.under_perform.mpr fun a ha => ?_
  obtain ⟨p, tid, i, w, w', -, -, -, hexec⟩ := ha
  simp only [Op.exec, Option.some.injEq, Prod.mk.injEq] at hexec
  exact hexec.1.symm

theorem answered_ensure {p : HostProg α} (hp : p.Answered) (l : LockName) :
    HostProg.Answered (p.ensure (Op.release l).run) := hp.ensure (under_release l)

theorem answered_withLock {p : HostProg α} (hp : p.Answered) (l : LockName) :
    HostProg.Answered (withLock l p) :=
  answered_bind (answered_run trivial) fun _ => answered_ensure hp l

section Digests

variable {s : Str}

theorem answered_digest {derivedKey : Bytes} {e : Error}
    (h : digest H derivedKey s = .error e) : e.Answered := by
  unfold digest at h
  split at h
  · cases h
  · rw [← Except.error.inj h]
    trivial

theorem answered_sha256Hex {e : Error} (h : sha256Hex H s = .error e) : e.Answered := by
  unfold sha256Hex at h
  split at h
  · cases h
  · rw [← Except.error.inj h]
    trivial

end Digests

/-- **Authenticating.** -/
theorem authenticate_answered (secret : Json) (role : Role) (now : ℤ) :
    (Service.authenticate H secret role now).Answered := by
  unfold Service.authenticate
  cases secret with
  | str text =>
    dsimp only
    cases Service.credentialIdFromSecret text role with
    | none => exact answered_ret none
    | some id =>
      refine answered_bind (answered_run trivial) fun row => ?_
      cases row with
      | none => exact answered_ret none
      | some row =>
        refine answered_ite (answered_ret none) (answered_bind (answered_run trivial) fun k => ?_)
        cases k.keyFor (credentialFromRow row).hashKid with
        | none => exact answered_ret none
        | some key =>
          refine answered_bind (answered_lift fun e he => ?_) fun d => ?_
          · rw [credentialDigest_rootKey] at he
            exact answered_digest he
          · exact answered_ite (answered_ret none)
              (answered_ite (answered_ret _) (answered_ret none))
  | _ => exact answered_ret none

/-- **The opportunistic cleanup.** -/
theorem maybeCleanup_answered {now : ℤ} (hnow : Timely now) :
    (Service.maybeCleanup now).Answered := by
  refine answered_bind (answered_run trivial) fun next => ?_
  refine answered_ite (answered_ret ()) (answered_bind (answered_run trivial) fun acquired => ?_)
  refine answered_ite (answered_ensure ?_ _) (answered_ret ())
  refine answered_bind (answered_run trivial) fun next => ?_
  refine answered_ite ?_ (answered_ret ())
  exact answered_bind (answered_run hnow.cleanupTime) fun _ => answered_run trivial

theorem credentialIsAccepted_answered (secret : Json) (role : Str) :
    (Service.credentialIsAccepted H secret role).Answered := by
  unfold Service.credentialIsAccepted
  cases Role.ofText? role with
  | none => exact answered_ret false
  | some role =>
    refine answered_bind (answered_run trivial) fun now => ?_
    exact answered_bind (authenticate_answered _ _ _) fun record => answered_ret _

/-- **Issuing.** -/
theorem issueProof_answered (q : IssueRequest) : (Service.issueProof H q).Answered := by
  refine answered_bind (answered_lift fun e he => Service.text_error he ▸ trivial) fun subject => ?_
  refine answered_bind (answered_lift fun e he => Service.purpose_error he ▸ trivial)
    fun purpose => ?_
  refine answered_bind (answered_lift fun e he => Service.audience_error he ▸ trivial)
    fun audience => ?_
  refine answered_clock fun now hnow => ?_
  refine answered_bind (maybeCleanup_answered hnow) fun _ => ?_
  refine answered_withLock (answered_bind (authenticate_answered _ _ _) fun credential => ?_) _
  cases credential with
  | none => exact answered_raise trivial
  | some credential =>
    refine answered_bind (answered_run trivial) fun row => ?_
    cases row with
    | none => exact answered_raise trivial
    | some row =>
      refine answered_bind (answered_lift fun e he => ?_) fun client => ?_
      · unfold clientFromRow at he
        split at he
        · cases he
        · rw [← Except.error.inj he]
          trivial
      refine answered_ite (answered_raise trivial) (answered_ite (answered_raise trivial) ?_)
      refine answered_bind (answered_lift fun e he => ?_) fun ttl => ?_
      · unfold Service.ttl at he
        split at he <;> exact Service.integer_error he ▸ trivial
      refine answered_bind (answered_run trivial) fun k => ?_
      refine answered_bind (answered_run trivial) fun bytes => ?_
      refine answered_bind (answered_lift fun e he => ?_) fun tokenDigest => ?_
      · rw [proofDigest_rootKey] at he
        exact answered_digest he
      refine answered_bind (answered_lift fun e he => ?_) fun check => ?_
      · obtain ⟨check, hcheck⟩ := exists_keyCheck (H := H) k.currentKey.2
        rw [hcheck] at he
        cases he
      exact answered_bind (answered_run trivial) fun _ => answered_ret _

theorem cachedVerification_answered (credentialId clientId : Str) (key : Option Str)
    (fingerprint : Str) :
    (Service.cachedVerification credentialId clientId key fingerprint).Answered := by
  unfold Service.cachedVerification
  cases key with
  | none => exact answered_ret none
  | some key =>
    refine answered_bind (answered_run trivial) fun required => ?_
    refine answered_ite (answered_raise trivial)
      (answered_bind (answered_run trivial) fun now => ?_)
    refine answered_bind (answered_run trivial) fun row => ?_
    rcases row with _ | ⟨credential, client⟩
    · exact answered_ret none
    refine answered_ite (answered_ret none) (answered_bind (answered_run trivial) fun stored => ?_)
    cases stored with
    | none => exact answered_ret none
    | some row =>
      refine answered_ite (answered_raise trivial) ?_
      refine answered_bind (answered_lift fun e he => ?_) fun result => answered_ret _
      rw [resultFromJson_error he]
      trivial

/-- **Verifying.** -/
theorem verifyProof_answered (q : VerifyRequest) : (Service.verifyProof H q).Answered := by
  refine answered_bind (answered_lift fun e he => Service.text_error he ▸ trivial) fun proof => ?_
  refine answered_bind (answered_lift fun e he => Service.text_error he ▸ trivial) fun subject => ?_
  refine answered_bind (answered_lift fun e he => Service.purpose_error he ▸ trivial)
    fun purpose => ?_
  refine answered_bind (answered_lift fun e he => Service.audience_error he ▸ trivial)
    fun audience => ?_
  refine answered_bind (answered_lift fun e he => Service.idempotencyKey_error he ▸ trivial)
    fun key => ?_
  refine answered_clock fun now hnow => ?_
  refine answered_bind (maybeCleanup_answered hnow) fun _ => ?_
  refine answered_bind (authenticate_answered _ _ _) fun credential => ?_
  cases credential with
  | none => exact answered_bind (answered_run trivial) fun _ => answered_ret _
  | some credential =>
    refine answered_bind (answered_run trivial) fun k => ?_
    refine answered_bind (answered_lift fun e he => ?_) fun tokenDigest => ?_
    · unfold Service.lookupDigest at he
      split at he
      · rw [proofDigest_rootKey] at he
        exact answered_digest he
      · exact answered_sha256Hex he
    refine answered_bind (answered_lift fun e he => ?_) fun fingerprint => ?_
    · rcases except_bind_eq_error he with h | ⟨_, -, h⟩
      · exact answered_sha256Hex h
      · exact answered_sha256Hex h
    refine answered_bind (cachedVerification_answered _ _ _ _) fun cached => ?_
    cases cached with
    | some cached => exact answered_ret cached
    | none => exact answered_run trivial

end Onceproof

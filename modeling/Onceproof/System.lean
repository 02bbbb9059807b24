import Onceproof.Service.Programs

/-!
# The system

The processes of one instance as a `Machine`: the `onceproof` commands, each in a process of
its own, and the calls of the service object of a serving process, each in a thread of its
own. A server loads its keyring and runs under the instance lock; a process that stops frees
its locks.

A `SystemRun` starts in a new instance. `commits` are the transactions of a run that
committed, and `ledgerRun` makes them a run of the ledger (`LedgerStep`).
-/

namespace Onceproof

variable (H : HashLib)

/-! ### Requests -/

/-- A call of the service object or the keyring of a serving process. -/
inductive ApiCall
  | createClient (q : CreateClientRequest)
  | issueProof (q : IssueRequest)
  | verifyProof (q : VerifyRequest)
  | rotateCredential (q : RotateRequest)
  | revokeClient (clientId : Json)
  | cleanup (now : Json)
  | activateRestoredBackup
  | retireHashKey (kid : Str)
  | rotateKey
  | credentialIsAccepted (secret : Json) (role : Str)
  | ready

/-- The `onceproof` commands. -/
inductive Command
  | serve
  | clientCreate (q : CreateClientRequest)
  | clientRotate (q : RotateRequest)
  | clientRevoke (clientId : Json)
  | cleanup
  | keyRotate
  | keyRetire (kid : Str)
  | dbBackup
  | dbActivateRestore

/-- What a thread is started for. -/
inductive Request
  | command (c : Command)
  | api (c : ApiCall)

/-- What a thread returns. -/
inductive Outcome
  | client (credentials : ClientCredentials)
  | issued (issued : IssuedProof)
  | verification (result : VerificationResult)
  | rotated (rotated : RotatedCredential)
  | revoked (changed : Bool)
  | cleaned (counts : CleanupCounts)
  | accepted (accepted : Bool)
  | ready (ready : Bool)
  | kid (kid : Str)
  | backup (database : Ledger) (keyring : KeyRing)
  | done

/-! ### Programs -/

/-- The program of an API call. -/
def ApiCall.program : ApiCall → HostProg Outcome
  | createClient q => Outcome.client <$> Service.createClient H q
  | issueProof q => Outcome.issued <$> Service.issueProof H q
  | verifyProof q => Outcome.verification <$> Service.verifyProof H q
  | rotateCredential q => Outcome.rotated <$> Service.rotateCredential H q
  | revokeClient clientId => Outcome.revoked <$> Service.revokeClient clientId
  | cleanup now => Outcome.cleaned <$> Service.cleanup now
  | activateRestoredBackup => (fun _ => Outcome.done) <$> Service.activateRestoredBackup
  | retireHashKey kid => (fun _ => Outcome.done) <$> Service.retireHashKey kid
  | rotateKey => Outcome.kid <$> KeyRing.rotate
  | credentialIsAccepted secret role =>
    Outcome.accepted <$> Service.credentialIsAccepted H secret role
  | ready => Outcome.ready <$> Service.ready H

/-- `with instance_lock(database_path)`, which does not wait. -/
def withInstanceLock {α : Type} (p : HostProg α) : HostProg α := do
  let acquired : Bool ← (Op.tryAcquire .instanceLock).run
  if acquired then
    p.ensure (Op.release .instanceLock).run
  else
    HostProg.raise .instanceBusyError

/-- `_serve`: the server starts if it is ready, and holds the instance lock until the process
stops. -/
def Command.serveProgram : HostProg Unit := do
  let acquired : Bool ← (Op.tryAcquire .instanceLock).run
  if acquired then
    Service.construct
    if ← Service.ready H then
      Op.startServing.run
    else
      HostProg.raise (.valueError "instance_not_ready")
  else
    HostProg.raise .instanceBusyError

/-- The program of a command. -/
def Command.program : Command → HostProg Outcome
  | serve => (fun _ => Outcome.done) <$> Command.serveProgram H
  | clientCreate q => do
    Service.construct
    Outcome.client <$> Service.createClient H q
  | clientRotate q => do
    Service.construct
    Outcome.rotated <$> Service.rotateCredential H q
  | clientRevoke clientId => do
    Service.construct
    Outcome.revoked <$> Service.revokeClient clientId
  | cleanup => do
    Service.construct
    Outcome.cleaned <$> Service.cleanup .null
  | keyRotate => withInstanceLock do
    KeyRing.reload
    Outcome.kid <$> KeyRing.rotate
  | keyRetire kid => withInstanceLock do
    Service.construct
    (fun _ => Outcome.done) <$> Service.retireHashKey kid
  | dbBackup => do
    Service.construct
    (fun x => Outcome.backup x.1 x.2) <$> KeyRing.backupWith
  | dbActivateRestore => withInstanceLock do
    Service.construct
    (fun _ => Outcome.done) <$> Service.activateRestoredBackup

/-- The program of a request. -/
def Request.program : Request → HostProg Outcome
  | command c => c.program H
  | api c => c.program H

/-- A command starts a process; an API call needs a serving one. -/
def Request.accept (p : ℕ) (r : Request) (w : World) : Option World :=
  match r with
  | command _ =>
    if (w.procs p).isNone then
      some { w with procs := Function.update w.procs p (some .fresh) }
    else none
  | api _ => if (w.procs p).any Proc.serving then some w else none

/-- The machine of an instance. -/
def system : Machine World ℕ Request Op Choice Op.Ans Error Outcome where
  program := Request.program H
  exec := Op.exec
  accept := Request.accept
  stop := World.stop

/-! ### Runs -/

/-- States of the system. -/
abbrev SystemState : Type := MachineState World ℕ Request Op Op.Ans Error Outcome

/-- Events of the system. -/
abbrev SystemEvent : Type := Event ℕ Request Op Choice Op.Ans Error Outcome

/-- Transitions of the system. -/
abbrev SystemTrans : Type := Trans SystemState SystemEvent

/-- A run of the system from a world without threads. -/
def SystemRunFrom (w : World) (τ : List SystemTrans) (s : SystemState) : Prop :=
  Run (system H).Step (.start w) τ s

/-- A run of a new instance. -/
def SystemRun (τ : List SystemTrans) (s : SystemState) : Prop :=
  ∃ kidBytes key, SystemRunFrom H (.created (lit "hk_" ++ hexlify kidBytes) key) τ s

/-! ### The ledger of a run -/

/-- The commit that an event is. -/
def SystemEvent.commit? : SystemEvent → Option Commit
  | .act _ _ _ (.store c) i (.ok reply) => some ⟨c, i.chance, reply⟩
  | _ => none

/-- The commits of a run, with the ledgers before and after them. -/
def commits (τ : List SystemTrans) : List (Trans Ledger Commit) :=
  projectTrans (fun s => s.world.ledger) (fun _ l _ => SystemEvent.commit? l) τ

@[simp]
theorem commits_append (τ τ' : List SystemTrans) :
    commits (τ ++ τ') = commits τ ++ commits τ' :=
  projectTrans_append _ _ _ _

variable {H : HashLib}

theorem commit?_eq_some {l : SystemEvent} {cm : Commit} (h : SystemEvent.commit? l = some cm) :
    ∃ tid p r i, l = .act tid p r (.store cm.call) i (.ok cm.reply) ∧
      cm.chance = i.chance := by
  unfold SystemEvent.commit? at h
  split at h
  · obtain rfl := Option.some.inj h
    exact ⟨_, _, _, _, rfl, rfl⟩
  · simp at h

/-- A step of the system is a step of its ledger or leaves it alone. -/
theorem system_ledger {s s' : SystemState} {l : SystemEvent} (h : (system H).Step s l s') :
    (∃ cm, SystemEvent.commit? l = some cm ∧ LedgerStep s.world.ledger cm s'.world.ledger) ∨
      (SystemEvent.commit? l = none ∧ s.world.ledger = s'.world.ledger) := by
  rcases h.world with ⟨tid, p, r, rfl, hw⟩ | ⟨tid, p, r, c, i, a, rfl, hw⟩ |
      ⟨tid, p, r, x, rfl, hw⟩ | ⟨p, rfl, hw⟩
  · refine Or.inr ⟨rfl, ?_⟩
    simp only [system, Request.accept] at hw
    cases r with
    | command c =>
      simp only at hw
      split_ifs at hw
      rw [← Option.some.inj hw]
    | api c =>
      simp only at hw
      split_ifs at hw
      rw [← Option.some.inj hw]
  · by_cases hc : ∃ call, c = .store call
    · obtain ⟨call, rfl⟩ := hc
      have hexec : (Op.store call).exec p tid i s.world = some (a, s'.world) := hw
      rcases Op.exec_store hexec with ⟨reply, rfl, hrun, -⟩ | ⟨e, rfl, hsame⟩
      · exact Or.inl ⟨⟨call, i.chance, reply⟩, rfl, hrun⟩
      · exact Or.inr ⟨rfl, by rw [hsame]⟩
    · have hne : ∀ call, c ≠ .store call := fun call hcall => hc ⟨call, hcall⟩
      have hexec : c.exec p tid i s.world = some (a, s'.world) := hw
      refine Or.inr ⟨?_, (Op.exec_ledger hexec hne).symm⟩
      cases hcm : SystemEvent.commit? (.act tid p r c i a) with
      | none => rfl
      | some cm =>
        obtain ⟨_, _, _, _, hl, -⟩ := commit?_eq_some hcm
        exact absurd (Event.act.inj hl).2.2.2.1 (hne _)
  · exact Or.inr ⟨rfl, by rw [hw]⟩
  · exact Or.inr ⟨rfl, by rw [hw]; rfl⟩

/-- **The commits of a run are a run of the ledger.** -/
theorem ledgerRun {s s' : SystemState} {τ : List SystemTrans}
    (h : Run (system H).Step s τ s') :
    Run LedgerStep s.world.ledger (commits τ) s'.world.ledger :=
  h.project (f := fun s : SystemState => s.world.ledger)
    (g := fun _ l _ => SystemEvent.commit? l) system_ledger

/-- A commit of a run is one of its transitions. -/
theorem mem_commits {τ : List SystemTrans} {t : Trans Ledger Commit} :
    t ∈ commits τ ↔ ∃ u ∈ τ, ∃ tid p r i,
      u.label = .act tid p r (.store t.label.call) i (.ok t.label.reply) ∧
        t.label.chance = i.chance ∧ t.src = u.src.world.ledger ∧
        t.dst = u.dst.world.ledger := by
  rw [commits, mem_projectTrans]
  constructor
  · rintro ⟨u, hu, cm, hcm, rfl⟩
    obtain ⟨tid, p, r, i, hl, hx⟩ := commit?_eq_some hcm
    exact ⟨u, hu, tid, p, r, i, hl, hx, rfl, rfl⟩
  · rintro ⟨u, hu, tid, p, r, i, hl, hx, hsrc, hdst⟩
    obtain ⟨src, ⟨call, x, reply⟩, dst⟩ := t
    dsimp only at hl hx hsrc hdst
    subst hsrc hdst hx
    exact ⟨u, hu, ⟨call, i.chance, reply⟩, by rw [hl]; rfl, rfl⟩

end Onceproof

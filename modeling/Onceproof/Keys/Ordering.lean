import Onceproof.Keys.Knowledge

/-!
# The order of the locks

A thread waits for two kinds of locks, the key lock of its process and the lock of the keyring
file; the instance lock and the maintenance lock are only tried. It takes them by increasing rank
(`LockName.rank`), it reads attributes of its process only after they were set, and it ends without
a lock that others wait for. `program_ordered` collects this for all requests.
-/

namespace Onceproof

/-- The rank of a lock: a thread waits for it only while it holds locks of lower ranks. -/
def LockName.rank : LockName → ℕ
  | instanceLock | maintenanceLock => 0
  | keyLock => 1
  | keyringFile => 2

/-- The locks that a thread waits for. -/
def LockName.IsWaited (l : LockName) : Prop := 0 < l.rank

instance (l : LockName) : Decidable l.IsWaited := inferInstanceAs (Decidable (0 < l.rank))

/-- The thread set the keyring of its process. -/
def Hist.Loaded (h : Hist) : Prop := ∃ m, h.Got (.setMemory m) ()

/-- The thread set the cleanup time of its process. -/
def Hist.Scheduled (h : Hist) : Prop := ∃ t, h.Got (.setNextCleanupAt t) ()

/-- The commands of a request that can be executed at once, or wait in the order of the locks. -/
def Op.InOrder (r : Request) (h : Hist) : Op → Prop
  | .acquire l => l.IsWaited ∧ ∀ l' ∈ (known h).held, l'.rank < l.rank
  | .memory => r.IsApi ∨ h.Loaded
  | .nextCleanupAt => r.IsApi
  | .startServing => h.Loaded ∧ h.Scheduled
  | _ => True

theorem Hist.Loaded.mono {h h' : Hist} (hl : h.Loaded) (hpre : h <+: h') : h'.Loaded :=
  hl.imp fun _ hm => hm.mono hpre

theorem Hist.Scheduled.mono {h h' : Hist} (hs : h.Scheduled) (hpre : h <+: h') : h'.Scheduled :=
  hs.imp fun _ ht => ht.mono hpre

/-- The commands that take and free no lock. -/
def Op.keepsLocks : Op → Bool
  | .acquire _ | .tryAcquire _ | .release _ => false
  | _ => true

/-- Only the commands on locks change which locks are held. -/
theorem Knowledge.held_next (k : Knowledge) {c : Op} (hc : c.keepsLocks = true) (a : c.Ans) :
    (k.next ⟨c, a⟩).held = k.held := by
  cases c with
  | acquire | tryAcquire | release => cases hc
  | readKeyring | memory | setMemory | tokenBytes | newKid | backup | startServing =>
    cases a <;> rfl
  | credentialUses | proofUses => rcases a with e | (_ | _) <;> rfl
  | _ => rfl

/-- The commands that are in order once the keyring is loaded. -/
def Op.isPlain : Op → Bool
  | .acquire _ | .tryAcquire _ | .release _ | .nextCleanupAt | .startServing => false
  | _ => true

theorem Op.keepsLocks_of_isPlain {c : Op} (hc : c.isPlain = true) : c.keepsLocks = true := by
  cases c <;> first | rfl | cases hc

/-- A command that takes no lock is in order once the memory is loaded. -/
theorem Op.inOrder_of_isPlain {c : Op} (hc : c.isPlain = true) {r : Request} {h : Hist}
    (hloaded : r.IsApi ∨ h.Loaded) : c.InOrder r h := by
  cases c with
  | acquire | tryAcquire | release | nextCleanupAt | startServing => cases hc
  | memory => exact hloaded
  | _ => trivial

/-- A program that, while its thread holds `L`, issues its commands in order, and that ends with
the same locks. -/
def Ranked {α : Type} (r : Request) (L : List LockName) (prog : HostProg α) : Prop :=
  ∀ h : Hist, (known h).held = L → r.IsApi ∨ h.Loaded →
    prog.Spec (Op.InOrder r) (fun h _ => (known h).held = L) h

namespace Ranked

variable {H : HashLib} {r : Request} {L : List LockName} {α β : Type} {prog : HostProg α}
variable {f : α → HostProg β}

theorem pure (a : α) : Ranked r L (Prog.ret a) := fun _ hheld _ => hheld

theorem raise (e : Error) : Ranked r L (Prog.raise e : HostProg α) := fun _ hheld _ => hheld

/-- Parts one after the other: the second begins with the locks that the first left. -/
theorem bind (hp : Ranked r L prog) (hf : ∀ a, Ranked r L (f a)) :
    Ranked r L (prog >>= f) := by
  intro h hheld hloaded
  refine Prog.Spec.bind ((hp h hheld hloaded).grows.mono (fun _ _ => id) ?_)
  rintro h' (e | a) ⟨hpre, hheld'⟩
  · exact hheld'
  · exact hf a h' hheld' (hloaded.imp_right fun hl => hl.mono hpre)

/-- A value that is computed without commands. -/
theorem lift_bind {x : Except Error α} (hf : ∀ a, Ranked r L (f a)) :
    Ranked r L (Prog.lift x >>= f) := by
  cases x with
  | ok a => exact hf a
  | error e => exact raise e

theorem ite {c : Prop} [Decidable c] {q : HostProg α} (hthen : Ranked r L prog)
    (helse : Ranked r L q) : Ranked r L (if c then prog else q) := by
  by_cases hc : c
  · rwa [if_pos hc]
  · rwa [if_neg hc]

theorem map (g : α → β) (h : Ranked r L prog) : Ranked r L (g <$> prog) :=
  bind h fun _ => pure _

/-! ### Commands -/

/-- A command that keeps the locks. -/
theorem held_snoc {h : Hist} {c : Op} (hc : c.keepsLocks = true) (hheld : (known h).held = L)
    (a : c.Ans) : (known (h ++ [⟨c, a⟩])).held = L := by
  rw [known_snoc, Knowledge.held_next _ hc, hheld]

/-- A command that takes and frees no lock, and what follows it. -/
theorem command_of {c : Op} (hc : c.keepsLocks = true)
    (hin : ∀ h : Hist, r.IsApi ∨ h.Loaded → c.InOrder r h) {f : c.Val → HostProg β}
    (hf : ∀ v, Ranked r L (f v)) : Ranked r L (c.run >>= f) := by
  intro h hheld hloaded
  refine Prog.spec_perform_bind.mpr ⟨hin h hloaded, fun v => ?_, fun e => held_snoc hc hheld _⟩
  refine hf v _ (held_snoc hc hheld _) (hloaded.imp_right fun hl => hl.mono ?_)
  exact List.prefix_append _ _

/-- A plain command, and what follows it. -/
theorem command {c : Op} (hc : c.isPlain = true) {f : c.Val → HostProg β}
    (hf : ∀ v, Ranked r L (f v)) : Ranked r L (c.run >>= f) :=
  command_of (Op.keepsLocks_of_isPlain hc) (fun _ => Op.inOrder_of_isPlain hc) hf

/-- A plain command at the end of a program. -/
theorem last {c : Op} (hc : c.isPlain = true) : Ranked r L c.run := by
  intro h hheld hloaded
  refine Prog.spec_perform.mpr ⟨Op.inOrder_of_isPlain hc hloaded, fun v => ?_, fun e => ?_⟩
  · exact held_snoc (Op.keepsLocks_of_isPlain hc) hheld _
  · exact held_snoc (Op.keepsLocks_of_isPlain hc) hheld _

/-! ### Locks -/

/-- The lock is free again at the end. -/
theorem ensure_release {l : LockName} {prog : HostProg α} {h : Hist}
    (hp : prog.Spec (Op.InOrder r) (fun h _ => (known h).held = l :: L) h) :
    (prog.ensure (Op.release l).run).Spec (Op.InOrder r)
      (fun h _ => (known h).held = L) h := by
  refine Prog.Spec.ensure (hp.mono (fun _ _ => id) fun h' x hheld => ?_)
  have hfreed : ∀ a, (known (h' ++ [⟨.release l, a⟩])).held = L := by
    intro a
    simp [Knowledge.forget, hheld]
  exact Prog.spec_perform.mpr ⟨trivial, fun v => hfreed _, fun e => hfreed _⟩

/-- A lock that is waited for under locks of lower ranks. -/
theorem withLock {l : LockName} (hl : l.IsWaited) (hL : ∀ l' ∈ L, l'.rank < l.rank)
    (hp : Ranked r (l :: L) prog) : Ranked r L (Onceproof.withLock l prog) := by
  intro h hheld hloaded
  refine Prog.spec_perform_bind.mpr ⟨⟨hl, hheld ▸ hL⟩, fun _ => ?_, fun e => ?_⟩
  · refine ensure_release (hp _ ?_ (hloaded.imp_right fun hl => hl.mono ?_))
    · simp [Knowledge.forget, hheld]
    · exact List.prefix_append _ _
  · simpa using hheld

/-- The file lock is taken last. -/
theorem stable (hL : ∀ l ∈ L, l.rank < LockName.keyringFile.rank)
    (hp : Ranked r (.keyringFile :: L) prog) : Ranked r L (KeyRing.stable prog) :=
  withLock (by decide) hL (command rfl fun _ => command rfl fun _ => ite (raise _) hp)

/-! ### The keyring -/

/-- A reload takes no lock. -/
theorem reload : Ranked r L KeyRing.reload := command rfl fun _ => last rfl

/-- A thread that reloads has loaded the keyring of its process. -/
theorem spec_reload {h : Hist} (hheld : (known h).held = L) :
    KeyRing.reload.Spec (Op.InOrder r) (fun h' x => (known h').held = L ∧
      ∀ u, x = .ok u → Hist.Loaded h') h := by
  refine Prog.spec_perform_bind.mpr ⟨trivial, fun disk => ?_, fun e => ?_⟩
  · refine (Prog.spec_perform (c := Op.setMemory disk)).mpr ⟨trivial, fun _ => ?_, fun e => ?_⟩
    · exact ⟨held_snoc rfl (held_snoc rfl hheld _) _, fun _ _ => ⟨disk, Hist.got_snoc _ _ _⟩⟩
    · exact ⟨held_snoc rfl (held_snoc rfl hheld _) _, fun _ hx => by cases hx⟩
  · exact ⟨held_snoc rfl hheld _, fun _ hx => by cases hx⟩

theorem replaceAndReload (k : KeyRing) : Ranked r L (KeyRing.replaceAndReload k) := by
  intro h hheld hloaded
  have hreload : ∀ a : (Op.replaceKeyring k).Ans,
      (Prog.raiseAs .keyringCommitUncertain KeyRing.reload).Spec (Op.InOrder r)
        (fun h _ => (known h).held = L) (h ++ [⟨.replaceKeyring k, a⟩]) := by
    intro a
    refine Prog.Spec.raiseAs ((reload _ (held_snoc rfl hheld a) ?_).mono (fun _ _ => id) ?_)
    · exact hloaded.imp_right fun hl => hl.mono (List.prefix_append _ _)
    · rintro h' (e | _) hheld' <;> exact hheld'
  refine ⟨trivial, fun a => ?_⟩
  cases a with
  | ok _ => exact hreload _
  | error e =>
    refine Prog.Spec.bind ((hreload _).mono (fun _ _ => id) ?_)
    rintro h' (e' | _) hheld' <;> exact hheld'

/-- A rotation takes the file lock. -/
theorem rotate (hL : ∀ l ∈ L, l.rank < LockName.keyringFile.rank) : Ranked r L KeyRing.rotate :=
  stable hL (command rfl fun _ => command rfl fun _ => command rfl fun _ =>
    bind (replaceAndReload _) fun _ => pure _)

/-- A retirement takes the key lock and then the file lock. -/
theorem retireHashKey (kid : Str) (hL : ∀ l ∈ L, l.rank < LockName.keyLock.rank) :
    Ranked r L (Service.retireHashKey kid) := by
  have hfile : ∀ l ∈ LockName.keyLock :: L, l.rank < LockName.keyringFile.rank := by
    intro l hl
    rcases List.mem_cons.mp hl with rfl | hl
    · decide
    · exact (hL l hl).trans (by decide)
  refine withLock (by decide) hL (stable hfile (command rfl fun m => ?_))
  by_cases hold : kid = m.currentKid
  · rw [dif_pos hold]
    exact raise _
  · rw [dif_neg hold]
    refine ite (raise _) (bind ?_ fun used => ite (raise _) (replaceAndReload _))
    exact command rfl fun _ => command rfl fun _ => pure _

theorem backupWith (hL : ∀ l ∈ L, l.rank < LockName.keyringFile.rank) :
    Ranked r L KeyRing.backupWith :=
  stable hL (command rfl fun _ => command rfl fun _ => pure _)

/-! ### The service -/

/-- An authentication takes no lock. -/
theorem authenticate (secret : Json) (role : Role) (now : ℤ) :
    Ranked r L (Service.authenticate H secret role now) := by
  unfold Service.authenticate
  cases secret with
  | str secret =>
    dsimp only
    cases Service.credentialIdFromSecret secret role with
    | none => exact pure _
    | some id =>
      refine command rfl fun row => ?_
      cases row with
      | none => exact pure _
      | some row =>
        refine ite (pure _) (command rfl fun m => ?_)
        cases m.keyFor (credentialFromRow row).hashKid with
        | none => exact pure _
        | some key => exact lift_bind fun d => ite (pure _) (ite (pure _) (pure _))
  | _ => exact pure _

/-- The cleanup time is read by the calls of a serving process only. -/
theorem maybeCleanup (hr : r.IsApi) (now : ℤ) : Ranked r L (Service.maybeCleanup now) := by
  have hnext : ∀ {L} {f : ℤ → HostProg Unit}, (∀ t, Ranked r L (f t)) →
      Ranked r L (Op.nextCleanupAt.run >>= f) :=
    fun hf => command_of (c := .nextCleanupAt) rfl (fun _ _ => hr) hf
  refine hnext fun t => ite (pure _) ?_
  intro h hheld hloaded
  refine Prog.spec_perform_bind.mpr ⟨trivial, fun acquired => ?_, fun e => ?_⟩
  · cases acquired with
    | false => simpa using hheld
    | true =>
      refine ensure_release (hnext (fun t' => ite ?_ (pure _)) _ ?_ (Or.inl hr))
      · exact command rfl fun _ => last rfl
      · simp [Knowledge.forget, hheld]
  · simpa using hheld

theorem newCredential (role : Role) (clientId : Str) :
    Ranked r L (Service.newCredential H role clientId) :=
  command rfl fun _ => command rfl fun _ => command rfl fun _ =>
    lift_bind fun _ => pure _

/-- The key lock is below the lock of the file. -/
theorem lower_keyLock : ∀ l ∈ [LockName.keyLock], l.rank < LockName.keyringFile.rank := by
  decide

/-- So does the creation of a client. -/
theorem createClient (q : CreateClientRequest) : Ranked r [] (Service.createClient H q) := by
  refine lift_bind fun name => ite (raise _) (lift_bind fun audiences => lift_bind fun ttl =>
    lift_bind fun issueLimit => lift_bind fun verifyLimit =>
      withLock (by decide) (by decide) (stable lower_keyLock ?_))
  refine command rfl fun idBytes => bind (newCredential _ _) fun issuance =>
    bind (newCredential _ _) fun verification => ?_
  dsimp only
  refine ite (command rfl fun _ => ?_) ?_
  all_goals
    exact command rfl fun m => lift_bind fun check => command rfl fun now =>
      command rfl fun _ => pure _

/-- And the rotation of a credential. -/
theorem rotateCredential (q : RotateRequest) :
    Ranked r [] (Service.rotateCredential H q) := by
  unfold Service.rotateCredential
  cases Role.ofText? q.role with
  | none => exact raise _
  | some role =>
    refine lift_bind fun grace => lift_bind fun clientId => command rfl fun now =>
      withLock (by decide) (by decide) (stable lower_keyLock
        (bind (newCredential _ _) fun replacement => ?_))
    dsimp only
    refine ite (command rfl fun _ => ?_) ?_
    all_goals
      exact command rfl fun m => lift_bind fun check => command rfl fun reply => pure _

theorem revokeClient (clientId : Json) : Ranked r L (Service.revokeClient clientId) :=
  lift_bind fun _ => command rfl fun _ => last rfl

/-- An issuance takes the key lock only. -/
theorem issueProof (hr : r.IsApi) (q : IssueRequest) : Ranked r [] (Service.issueProof H q) := by
  refine lift_bind fun subject => lift_bind fun purpose => lift_bind fun audience =>
    command rfl fun now => bind (maybeCleanup hr now) fun _ =>
    withLock (by decide) (by decide) (bind (authenticate _ _ _) fun credential => ?_)
  cases credential with
  | none => exact raise _
  | some credential =>
    refine command rfl fun row => ?_
    cases row with
    | none => exact raise _
    | some row =>
      exact lift_bind fun client => ite (raise _) (ite (raise _) (lift_bind fun ttl =>
        command rfl fun m => command rfl fun tokenBytes => lift_bind fun d =>
          lift_bind fun check => command rfl fun committed => pure _))

theorem cachedVerification (credentialId clientId : Str) (idempotencyKey : Option Str)
    (fingerprint : Str) : Ranked r L
      (Service.cachedVerification credentialId clientId idempotencyKey fingerprint) := by
  cases idempotencyKey with
  | none => exact pure _
  | some t =>
    refine command rfl fun required => ite (raise _) (command rfl fun now =>
      command rfl fun row => ?_)
    cases row with
    | none => exact pure _
    | some row =>
      refine ite (pure _) (command rfl fun stored => ?_)
      cases stored with
      | none => exact pure _
      | some stored => exact ite (raise _) (lift_bind fun result => pure _)

/-- A verification waits for no lock. -/
theorem verifyProof (hr : r.IsApi) (q : VerifyRequest) :
    Ranked r [] (Service.verifyProof H q) := by
  refine lift_bind fun proof => lift_bind fun subject => lift_bind fun purpose =>
    lift_bind fun audience => lift_bind fun idempotencyKey => command rfl fun now =>
    bind (maybeCleanup hr now) fun _ => bind (authenticate _ _ _) fun credential => ?_
  cases credential with
  | none => exact command rfl fun idBytes => pure _
  | some credential =>
    refine command rfl fun m => lift_bind fun D => lift_bind fun fingerprint =>
      bind (cachedVerification _ _ _ _) fun cached => ?_
    cases cached with
    | some cached => exact pure _
    | none => exact last rfl

theorem cleanup (now : Json) : Ranked r L (Service.cleanup now) := by
  unfold Service.cleanup
  cases now with
  | null => exact command rfl fun now => last rfl
  | int now => exact last rfl
  | _ => exact raise _

theorem activateRestoredBackup : Ranked r L Service.activateRestoredBackup :=
  command rfl fun _ => last rfl

/-- The comparison of keys reads the memory again and again, and takes no lock. -/
theorem keysMatch : ∀ checks : List (Str × Str), Ranked r L (Service.keysMatch H checks)
  | [] => pure _
  | (kid, expected) :: checks => by
    refine command rfl fun m => ?_
    cases m.keyFor kid with
    | none => exact pure _
    | some key => exact lift_bind fun check => ite (pure _) (keysMatch checks)

theorem referencedHashKeyChecks : Ranked r L Service.referencedHashKeyChecks :=
  command rfl fun _ => ite (pure _) (command rfl fun _ => ite (pure _) (pure _))

/-- Readiness takes no lock. -/
theorem ready : Ranked r L (Service.ready H) := by
  refine command rfl fun required => ite (pure _) (bind referencedHashKeyChecks fun checks => ?_)
  cases checks with
  | none => exact pure _
  | some checks => exact keysMatch checks

theorem credentialIsAccepted (secret : Json) (role : Str) :
    Ranked r L (Service.credentialIsAccepted H secret role) := by
  unfold Service.credentialIsAccepted
  cases Role.ofText? role with
  | none => exact pure _
  | some role => exact command rfl fun now => bind (authenticate _ _ _) fun record => pure _

/-- A command that loads its process first. -/
theorem spec_construct {h : Hist} (hheld : (known h).held = L) :
    Service.construct.Spec (Op.InOrder r) (fun h' x => (known h').held = L ∧
      ∀ u, x = .ok u → Hist.Loaded h' ∧ Hist.Scheduled h') h := by
  refine Prog.Spec.bind ((spec_reload hheld).mono (fun _ _ => id) ?_)
  rintro h₁ (e | u) ⟨hheld₁, hloaded⟩
  · exact ⟨hheld₁, fun _ hx => by cases hx⟩
  have hloaded : Hist.Loaded h₁ := hloaded u rfl
  refine Prog.spec_perform_bind.mpr ⟨trivial, fun now => ?_, fun e => ?_⟩
  · refine (Prog.spec_perform (c := Op.setNextCleanupAt _)).mpr
      ⟨trivial, fun _ => ⟨?_, fun _ _ => ⟨?_, ?_⟩⟩, fun e => ⟨?_, fun _ hx => by cases hx⟩⟩
    · exact held_snoc rfl (held_snoc rfl hheld₁ _) _
    · exact (hloaded.mono (List.prefix_append _ _)).mono (List.prefix_append _ _)
    · exact ⟨_, Hist.got_snoc _ _ _⟩
    · exact held_snoc rfl (held_snoc rfl hheld₁ _) _
  · exact ⟨held_snoc rfl hheld₁ _, fun _ hx => by cases hx⟩

/-- The rest of a command, once its process is loaded. -/
theorem construct_bind {f : Unit → HostProg α} {h : Hist} (hheld : (known h).held = L)
    (hf : ∀ u, Ranked r L (f u)) : (Service.construct >>= f).Spec (Op.InOrder r)
      (fun h _ => (known h).held = L) h := by
  refine Prog.Spec.bind ((spec_construct hheld).mono (fun _ _ => id) ?_)
  rintro h₁ (e | u) ⟨hheld₁, hdone⟩
  · exact hheld₁
  · exact hf u h₁ hheld₁ (Or.inr (hdone u rfl).1)

/-- A reload, and what follows it in a process that has loaded its keyring. -/
theorem reload_bind {f : Unit → HostProg α} {h : Hist} (hheld : (known h).held = L)
    (hf : ∀ u, Ranked r L (f u)) : (KeyRing.reload >>= f).Spec (Op.InOrder r)
      (fun h _ => (known h).held = L) h := by
  refine Prog.Spec.bind ((spec_reload hheld).mono (fun _ _ => id) ?_)
  rintro h₁ (e | u) ⟨hheld₁, hloaded⟩
  · exact hheld₁
  · exact hf u h₁ hheld₁ (Or.inr (hloaded u rfl))

/-- The instance lock is tried and never waited for. -/
theorem withInstanceLock (hp : ∀ h : Hist, (known h).held = [.instanceLock] →
      prog.Spec (Op.InOrder r) (fun h _ => (known h).held = [.instanceLock]) h) :
    (Onceproof.withInstanceLock prog).Spec (Op.InOrder r)
      (fun h _ => (known h).held = []) [] := by
  refine Prog.spec_perform_bind.mpr ⟨trivial, fun acquired => ?_, fun e => rfl⟩
  cases acquired with
  | true => exact ensure_release (hp _ rfl)
  | false => rfl

/-- A server ends with the instance lock or without a lock. -/
theorem serveProgram : (Command.serveProgram H).Spec (Op.InOrder r)
    (fun h _ => ∀ l ∈ (known h).held, ¬ l.IsWaited) [] := by
  have hend : ∀ {h : Hist}, (known h).held = [.instanceLock] →
      ∀ l ∈ (known h).held, ¬ l.IsWaited := by
    intro h hheld l hl
    rw [hheld, List.mem_singleton] at hl
    exact hl ▸ (by decide)
  refine Prog.spec_perform_bind.mpr ⟨trivial, fun acquired => ?_, fun e _ hl => by cases hl⟩
  cases acquired with
  | false => exact fun _ hl => by cases hl
  | true =>
    refine Prog.Spec.bind ((spec_construct (L := [.instanceLock]) rfl).mono (fun _ _ => id) ?_)
    rintro h₁ (e | u) ⟨hheld₁, hdone⟩
    · exact hend hheld₁
    obtain ⟨hloaded, hscheduled⟩ := hdone u rfl
    refine Prog.Spec.bind ((ready h₁ hheld₁ (Or.inr hloaded)).grows.mono (fun _ _ => id) ?_)
    rintro h₂ (e | ready) ⟨hpre, hheld₂⟩
    · exact hend hheld₂
    refine Prog.spec_ite.mpr ⟨fun _ => Prog.spec_perform.mpr ⟨?_, fun v => ?_, fun e => ?_⟩,
      fun _ => hend hheld₂⟩
    · exact ⟨hloaded.mono hpre, hscheduled.mono hpre⟩
    · exact hend (held_snoc rfl hheld₂ _)
    · exact hend (held_snoc rfl hheld₂ _)

end Ranked

/-- **Every program takes its locks in order**, and ends without a lock that others wait for. -/
theorem program_ordered {H : HashLib} (r : Request) : (r.program H).Spec
    (Op.InOrder r) (fun h _ => ∀ l ∈ (known h).held, ¬ l.IsWaited) [] := by
  have hend : ∀ {p : HostProg Outcome}, p.Spec (Op.InOrder r)
      (fun h _ => (known h).held = []) [] →
        p.Spec (Op.InOrder r) (fun h _ => ∀ l ∈ (known h).held, ¬ l.IsWaited) [] := by
    intro p hp
    refine hp.mono (fun _ _ => id) fun h _ hheld l hl => ?_
    rw [hheld] at hl
    cases hl
  cases r with
  | api c =>
    have hr : (Request.api c).IsApi := trivial
    have hall : Ranked (.api c) [] (c.program H) := by
      cases c with
      | createClient q => exact .map _ (.createClient q)
      | issueProof q => exact .map _ (.issueProof hr q)
      | verifyProof q => exact .map _ (.verifyProof hr q)
      | rotateCredential q => exact .map _ (.rotateCredential q)
      | revokeClient clientId => exact .map _ (.revokeClient clientId)
      | cleanup now => exact .map _ (.cleanup now)
      | activateRestoredBackup => exact .map _ .activateRestoredBackup
      | retireHashKey kid => exact .map _ (.retireHashKey kid (by decide))
      | rotateKey => exact .map _ (.rotate (by decide))
      | credentialIsAccepted secret role => exact .map _ (.credentialIsAccepted secret role)
      | ready => exact .map _ .ready
    exact hend (hall [] rfl (Or.inl hr))
  | command c =>
    cases c with
    -- a server keeps the instance lock, for which nobody waits
    | serve => exact Prog.Spec.bind (Ranked.serveProgram.mono (fun _ _ => id) (by
        rintro h (e | u) hheld <;> exact hheld))
    | clientCreate q => exact hend (Ranked.construct_bind rfl fun _ => .map _ (.createClient q))
    | clientRotate q => exact hend (Ranked.construct_bind rfl fun _ => .map _ (.rotateCredential q))
    | clientRevoke clientId =>
      exact hend (Ranked.construct_bind rfl fun _ => .map _ (.revokeClient clientId))
    | cleanup => exact hend (Ranked.construct_bind rfl fun _ => .map _ (.cleanup .null))
    | keyRotate =>
      exact hend (Ranked.withInstanceLock fun h hheld => Ranked.reload_bind hheld fun _ =>
        .map _ (.rotate (by decide)))
    | keyRetire kid =>
      exact hend (Ranked.withInstanceLock fun h hheld => Ranked.construct_bind hheld fun _ =>
        .map _ (.retireHashKey kid (by decide)))
    | dbBackup => exact hend (Ranked.construct_bind rfl fun _ => .map _ (.backupWith (by decide)))
    | dbActivateRestore =>
      exact hend (Ranked.withInstanceLock fun h hheld => Ranked.construct_bind hheld fun _ =>
        .map _ .activateRestoredBackup)

end Onceproof

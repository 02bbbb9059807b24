import Onceproof.System

/-!
# Specifications of the service's programs

What the programs pass to the store, and what their outcomes say about the answers they got,
as specifications over local histories.

* `Supplied` is the condition under which a command is issued: the arguments of a store call
  come from the request and from earlier answers, and the idempotency lookup of the cached
  read follows a check of the seal and of the credential.
* `AuthCommand`, `CleanupCommand` and `VerifyCommand` are the commands that an authentication,
  an opportunistic cleanup and a whole verification issue.
* `AuthOutcome`, `CachedOutcome`, `VerifyOutcome` and `IssueOutcome` describe every way in
  which a program ends.
-/

namespace Onceproof

/-- Local histories of a process's programs. -/
abbrev Hist : Type := List (Answered Op Op.Ans)

/-- A command answered with a value in a history. -/
def Hist.Got (h : Hist) (c : Op) (v : c.Val) : Prop := (⟨c, .ok v⟩ : Answered Op Op.Ans) ∈ h

/-- A command answered with an exception in a history. -/
def Hist.Failed (h : Hist) (e : Error) : Prop :=
  ∃ c : Op, (⟨c, .error e⟩ : Answered Op Op.Ans) ∈ h

section Got

variable {h h' : Hist} {c : Op} {v : c.Val} {e : Error}

theorem Hist.Got.mono (hg : h.Got c v) (hpre : h <+: h') : h'.Got c v := hpre.subset hg

theorem Hist.Failed.mono (hf : h.Failed e) (hpre : h <+: h') : h'.Failed e :=
  hf.imp fun _ hc => hpre.subset hc

theorem Hist.got_snoc (h : Hist) (c : Op) (v : c.Val) :
    Hist.Got (h ++ [⟨c, .ok v⟩]) c v := List.mem_append_right _ (List.mem_singleton_self _)

theorem Hist.failed_snoc (h : Hist) (c : Op) (e : Error) :
    Hist.Failed (h ++ [⟨c, .error e⟩]) e :=
  ⟨c, List.mem_append_right _ (List.mem_singleton_self _)⟩

theorem Hist.Got.snoc (hg : h.Got c v) (x : Answered Op Op.Ans) : Hist.Got (h ++ [x]) c v :=
  hg.mono (List.prefix_append _ _)

/-- An answer is an earlier one, or the last one. -/
theorem Hist.got_snoc_iff {v' : c.Val} :
    Hist.Got (h ++ [⟨c, .ok v'⟩]) c v ↔ h.Got c v ∨ v = v' := by
  rw [Hist.Got, List.mem_append, List.mem_singleton]
  refine or_congr_right ⟨fun heq => ?_, fun heq => heq ▸ rfl⟩
  exact Except.ok.inj (eq_of_heq (Sigma.mk.inj heq).2)

/-- A command is not answered by the answer to another one. -/
theorem Hist.Got.of_snoc {c' : Op} {a : c'.Ans} (hg : Hist.Got (h ++ [⟨c', a⟩]) c v)
    (hne : c' ≠ c) : h.Got c v := by
  rcases List.mem_append.mp hg with hmem | hmem
  · exact hmem
  · exact absurd (Sigma.mk.inj (List.mem_singleton.mp hmem)).1.symm hne

end Got

variable (H : HashLib)

/-! ### Conditions of commands -/

/-- The fields of a verification request that passed validation. -/
structure VerifyRequest.Reads (q : VerifyRequest) (proof subject purpose audience : Str)
    (key : Option Str) : Prop where
  proof : Service.text q.proof "proof" 512 = .ok proof
  subject : Service.text q.subject "subject" maxSubjectLength = .ok subject
  purpose : Service.purpose q.purpose = .ok purpose
  audience : Service.audience q.audience = .ok audience
  key : Service.idempotencyKey q.idempotencyKey = .ok key

/-- The early authentication that a history records. -/
structure Authenticated (h : Hist) (secret : Json) (role : Role) (now : ℤ)
    (row : CredentialRow) : Prop where
  secret : ∃ s id, secret = .str s ∧ Service.credentialIdFromSecret s role = some id ∧
    h.Got (.credential id) (some row) ∧ ∃ k key, h.Got .memory k ∧
      k.keyFor row.hashKid = some key ∧ credentialDigest H key.val s = .ok row.secretDigest
  role : row.role = role
  accepted : credentialIsAccepted row now = true

/-- The arguments that `verify_proof` passes to the store. -/
structure VerifyArgs (q : VerifyRequest) (h : Hist) (a : ConsumeProof) : Prop where
  request : ∃ proof k, q.Reads proof a.subject a.purpose a.audience a.idempotencyKey ∧
    Service.requestFingerprint H proof a.subject a.purpose a.audience =
      .ok a.requestFingerprint ∧
    h.Got .memory k ∧ Service.lookupDigest H k proof = .ok a.tokenDigest
  credential : ∃ row now, Authenticated H h q.verificationSecret .verification now row ∧
    h.Got .clock now ∧ row.credentialId = a.credentialId ∧ row.clientId = a.clientId

/-- The arguments that `issue_proof` passes to the store, for the proof it will return. -/
structure IssueArgs (q : IssueRequest) (h : Hist) (proof : Str) (record : ProofRecord)
    (check : Str) : Prop where
  token : ∃ k bytes, h.Got .memory k ∧ h.Got (.tokenBytes 32) bytes ∧
    proof = Service.proofToken k.currentKey.1 bytes ∧ record.hashKid = k.currentKey.1 ∧
    proofDigest H k.currentKey.2.val proof = .ok record.tokenDigest ∧
    keyCheck H k.currentKey.2.val = .ok check
  tag : record.proofTag = lit "pf_" ++ record.tokenDigest.take 24
  subject : Service.text q.subject "subject" maxSubjectLength = .ok record.subject
  purpose : Service.purpose q.purpose = .ok record.purpose
  audience : Service.audience q.audience = .ok record.audience
  ttl : 1 ≤ record.expiresAt - record.issuedAt
  unconsumed : record.consumedAt = none
  credential : ∃ row now, Authenticated H h q.issuanceSecret .issuance now row ∧
    h.Got .clock now ∧ row.credentialId = record.issueCredentialId ∧
    row.clientId = record.clientId

/-- The arguments that `rotate_credential` passes to the store. -/
structure RotateArgs (q : RotateRequest) (h : Hist) (a : RotateCredential) : Prop where
  role : Role.ofText? q.role = some a.role
  grace : Service.integer q.graceSeconds "grace_seconds" 0 maxRotationGraceSeconds =
    .ok a.graceSeconds
  clientId : Service.text q.clientId "client_id" 128 = .ok a.clientId
  reading : h.Got .clock a.now
  replacement : a.replacement.clientId = a.clientId ∧ a.replacement.role = a.role

/-- A history whose only writes are cleanups. -/
def Hist.OnlyCleans (h : Hist) : Prop :=
  ∀ call a, (⟨.store call, a⟩ : Answered Op Op.Ans) ∈ h → ∃ now, call = .cleanup now

/-- The condition under which a request issues a command. -/
def Supplied (r : Request) (h : Hist) : Op → Prop
  | .store (.consumeProof a) =>
    h.OnlyCleans ∧ ∃ q, r = .api (.verifyProof q) ∧ VerifyArgs H q h a
  | .store (.issueProof record check) =>
    h.OnlyCleans ∧ ∃ q proof, r = .api (.issueProof q) ∧ IssueArgs H q h proof record check
  | .store (.createClient a) =>
    (∃ bytes, h.Got (.tokenBytes 12) bytes ∧ a.clientId = lit "opc_" ++ hexlify bytes) ∧
      a.issuanceCredential.clientId = a.clientId ∧ a.issuanceCredential.role = .issuance ∧
      a.verificationCredential.clientId = a.clientId ∧
      a.verificationCredential.role = .verification
  | .store (.rotateCredential a) => ∃ q : RotateRequest,
    (r = .api (.rotateCredential q) ∨ r = .command (.clientRotate q)) ∧ RotateArgs q h a
  | .store (.cleanup now) => h.Got .clock now ∨ r = .api (.cleanup (.int now))
  | .joined _ => h.Got .restoreRequired false
  | .idempotent clientId _ => ∃ id credential client now,
      h.Got (.joined id) (some (credential, client)) ∧ h.Got .clock now ∧
        client.status = .active ∧ credential.clientId = clientId ∧
        credentialIsAccepted credential now = true
  | _ => True

/-- The commands that every request may issue at any time. -/
def Op.Free : Op → Prop
  | .store _ | .joined _ | .idempotent _ _ => False
  | _ => True

/-- The commands that do not write the ledger. -/
def Op.Queries : Op → Prop
  | .store _ => False
  | _ => True

/-- The commands that touch neither a lock nor the keyring file and write nothing that other
threads can see. -/
def Op.Idle : Op → Prop
  | .acquire _ | .tryAcquire _ | .release _ | .readKeyring | .setMemory _ | .replaceKeyring _
  | .startServing | .store _ | .backup | .joined _ | .idempotent _ _ => False
  | _ => True

theorem Op.Idle.free {c : Op} (hc : c.Idle) : c.Free := by
  cases c <;> trivial

theorem Op.Free.queries {c : Op} (hc : c.Free) : c.Queries := by
  cases c with
  | store | joined | idempotent => exact hc.elim
  | _ => trivial

/-- The commands of an authentication that starts after `h₀`. -/
inductive AuthCommand (h₀ : Hist) (secret : Json) (role : Role) : Hist → Op → Prop
  | credential {s id : Str} (text : secret = .str s)
      (parse : Service.credentialIdFromSecret s role = some id) :
      AuthCommand h₀ secret role h₀ (.credential id)
  | memory {h : Hist} : AuthCommand h₀ secret role h .memory

/-- The commands of an opportunistic cleanup. -/
inductive CleanupCommand (h : Hist) (now : ℤ) : Op → Prop
  | schedule : CleanupCommand h now .nextCleanupAt
  | lock : CleanupCommand h now (.tryAcquire .maintenanceLock)
  | cleanup (reading : h.Got .clock now) : CleanupCommand h now (.store (.cleanup now))
  | reschedule (t : ℤ) : CleanupCommand h now (.setNextCleanupAt t)
  | unlock : CleanupCommand h now (.release .maintenanceLock)

theorem AuthCommand.idle {h₀ h : Hist} {secret : Json} {role : Role} {c : Op}
    (hc : AuthCommand h₀ secret role h c) : c.Idle := by
  cases hc <;> trivial

theorem AuthCommand.free {h₀ h : Hist} {secret : Json} {role : Role} {c : Op}
    (hc : AuthCommand h₀ secret role h c) : c.Free := hc.idle.free

variable {H}

theorem Supplied.of_free {r : Request} {h : Hist} {c : Op} (hc : c.Free) : Supplied H r h c := by
  cases c <;> trivial

theorem CleanupCommand.supplied {r : Request} {h : Hist} {now : ℤ} {c : Op}
    (hc : CleanupCommand h now c) : Supplied H r h c := by
  cases hc with
  | cleanup reading => exact Or.inl reading
  | schedule | lock | reschedule | unlock => trivial

theorem Hist.onlyCleans_nil : Hist.OnlyCleans [] := fun _ _ h => absurd h List.not_mem_nil

theorem Hist.OnlyCleans.snoc_query {h : Hist} (hn : h.OnlyCleans) {c : Op} (hc : c.Queries)
    (a : c.Ans) : Hist.OnlyCleans (h ++ [⟨c, a⟩]) := by
  intro call b hmem
  rcases List.mem_append.mp hmem with hmem | hmem
  · exact hn call b hmem
  · obtain ⟨rfl, -⟩ := Sigma.mk.inj (List.mem_singleton.mp hmem)
    exact hc.elim

theorem Hist.OnlyCleans.snoc_cleanup {h : Hist} (hn : h.OnlyCleans) {now : ℤ} {c : Op}
    (hc : CleanupCommand h now c) (a : c.Ans) : Hist.OnlyCleans (h ++ [⟨c, a⟩]) := by
  intro call b hmem
  rcases List.mem_append.mp hmem with hmem | hmem
  · exact hn call b hmem
  · obtain ⟨rfl, -⟩ := Sigma.mk.inj (List.mem_singleton.mp hmem)
    cases hc with
    | cleanup => exact ⟨now, rfl⟩

/-! ### Authentication and maintenance -/

/-- How an authentication ends. -/
inductive AuthOutcome (H : HashLib) (h : Hist) (secret : Json) (role : Role) (now : ℤ) :
    Except Error (Option CredentialRecord) → Prop
  | failed {e : Error} (failed : h.Failed e) : AuthOutcome H h secret role now (.error e)
  | unencodable {s : Str} {key : RootKey} {e : Error} (text : secret = .str s)
      (digest : credentialDigest H key.val s = .error e) :
      AuthOutcome H h secret role now (.error e)
  | malformed (parse : ∀ s, secret = .str s → Service.credentialIdFromSecret s role = none) :
      AuthOutcome H h secret role now (.ok none)
  | unknown {s id : Str} (text : secret = .str s)
      (parse : Service.credentialIdFromSecret s role = some id)
      (found : h.Got (.credential id) none) : AuthOutcome H h secret role now (.ok none)
  | refused {s id : Str} {row : CredentialRow} (text : secret = .str s)
      (parse : Service.credentialIdFromSecret s role = some id)
      (found : h.Got (.credential id) (some row))
      (refused : row.role ≠ role ∨ ∃ k, h.Got .memory k ∧
        (k.keyFor row.hashKid = none ∨
          (∃ key d, k.keyFor row.hashKid = some key ∧
            credentialDigest H key.val s = .ok d ∧ row.secretDigest ≠ d) ∨
          credentialIsAccepted row now = false)) :
      AuthOutcome H h secret role now (.ok none)
  | accepted {row : CredentialRow} (authenticated : Authenticated H h secret role now row) :
      AuthOutcome H h secret role now (.ok (some (credentialFromRow row)))

theorem isAccepted_credentialFromRow (row : CredentialRow) (now : ℤ) :
    (credentialFromRow row).isAccepted now = credentialIsAccepted row now := rfl

theorem authenticate_spec (h : Hist) (secret : Json) (role : Role) (now : ℤ) :
    (Service.authenticate H secret role now).Spec (AuthCommand h secret role)
      (fun h' x => h <+: h' ∧ AuthOutcome H h' secret role now x) h := by
  refine Prog.Spec.grows ?_
  cases secret with
  | str s =>
    dsimp only [Service.authenticate]
    cases hid : Service.credentialIdFromSecret s role with
    | none =>
      refine .malformed fun s' hs' => ?_
      obtain rfl := Json.str.inj hs'
      exact hid
    | some id =>
      refine Prog.spec_perform_bind.mpr
        ⟨.credential rfl hid, fun row => ?_, fun e => .failed (Hist.failed_snoc _ _ _)⟩
      -- each check that fails is an outcome of its own
      cases row with
      | none => exact .unknown rfl hid (Hist.got_snoc _ _ _)
      | some row =>
        refine Prog.spec_ite.mpr ⟨fun hrole => ?_, fun hrole => ?_⟩
        · exact .refused rfl hid (Hist.got_snoc _ _ _) (Or.inl hrole)
        · have hrole : row.role = role := not_not.mp hrole
          refine Prog.spec_perform_bind.mpr
            ⟨.memory, fun k => ?_, fun e => .failed (Hist.failed_snoc _ _ _)⟩
          have hrow : Hist.Got ((h ++ [⟨.credential id, .ok (some row)⟩]) ++
              [⟨.memory, .ok k⟩]) (.credential id) (some row) :=
            (Hist.got_snoc h (.credential id) (some row)).snoc _
          cases hkey : k.keyFor (credentialFromRow row).hashKid with
          | none => exact .refused rfl hid hrow (Or.inr ⟨k, Hist.got_snoc _ _ _, Or.inl hkey⟩)
          | some key =>
            refine Prog.spec_lift_bind.mpr ⟨fun d hd => ?_, fun e he => .unencodable rfl he⟩
            refine Prog.spec_ite.mpr ⟨fun hne => ?_, fun heq => ?_⟩
            · exact .refused rfl hid hrow
                (Or.inr ⟨k, Hist.got_snoc _ _ _, Or.inr (Or.inl ⟨key, d, hkey, hd, hne⟩)⟩)
            · refine Prog.spec_ite.mpr ⟨fun hacc => ?_, fun hacc => ?_⟩
              · refine .accepted ⟨⟨s, id, rfl, hid, hrow, k, key, Hist.got_snoc _ _ _, hkey, ?_⟩,
                  hrole, hacc⟩
                rw [hd, ← not_not.mp heq]
                rfl
              · exact .refused rfl hid hrow
                  (Or.inr ⟨k, Hist.got_snoc _ _ _, Or.inr (Or.inr (Bool.not_eq_true _ ▸ hacc))⟩)
  | null => exact .malformed fun s hs => by cases hs
  | bool b => exact .malformed fun s hs => by cases hs
  | int n => exact .malformed fun s hs => by cases hs
  | float x => exact .malformed fun s hs => by cases hs
  | arr l => exact .malformed fun s hs => by cases hs
  | obj l => exact .malformed fun s hs => by cases hs

/-- A specification that is closed under longer histories and admits failed commands. -/
structure Lasting {α : Type} (Ψ : Hist → Except Error α → Prop) : Prop where
  snoc : ∀ {h x} (y : Answered Op Op.Ans), Ψ h x → Ψ (h ++ [y]) x
  failed : ∀ {h e}, Hist.Failed h e → Ψ h (.error e)

section Locks

variable {α : Type} {Φ : Hist → Op → Prop} {p : HostProg α} {l : LockName} {h : Hist}
variable {Ψ : Hist → Except Error α → Prop}

theorem ensureRelease_spec (hΦ : ∀ h, Φ h (.release l)) (hΨ : Lasting Ψ)
    (hp : p.Spec Φ Ψ h) : (p.ensure (Op.release l).run).Spec Φ Ψ h := by
  refine Prog.Spec.ensure (hp.mono (fun _ _ => id) fun h x hx => ?_)
  exact Prog.spec_perform.mpr ⟨hΦ _, fun _ => hΨ.snoc _ hx,
    fun e => hΨ.failed (Hist.failed_snoc _ _ _)⟩

theorem withLock_spec (hΦ : ∀ h c, Op.Free c → Φ h c) (hΨ : Lasting Ψ)
    (hp : p.Spec Φ Ψ (h ++ [⟨.acquire l, .ok ()⟩])) : (withLock l p).Spec Φ Ψ h :=
  Prog.spec_perform_bind.mpr
    ⟨hΦ _ _ trivial, fun _ => ensureRelease_spec (fun h => hΦ h _ trivial) hΨ hp,
    fun _ => hΨ.failed (Hist.failed_snoc _ _ _)⟩

end Locks

/-- A program that fails only with a command. -/
def OnlyFails {α : Type} (h : Hist) (x : Except Error α) : Prop :=
  ∀ e, x = .error e → Hist.Failed h e

theorem onlyFails_lasting {α : Type} : Lasting (OnlyFails (α := α)) where
  snoc y h e he := (h e he).mono (List.prefix_append _ _)
  failed h e he := by
    obtain rfl := Except.error.inj he
    exact h

theorem onlyFails_ok {α : Type} (h : Hist) (a : α) : OnlyFails h (.ok a) := by
  intro e he
  cases he

theorem maybeCleanup_spec {h : Hist} {now : ℤ} (hnow : Hist.Got h .clock now) :
    (Service.maybeCleanup now).Spec (fun h c => CleanupCommand h now c)
      (fun h' x => h <+: h' ∧ OnlyFails h' x) h := by
  refine Prog.Spec.grows ?_
  have hfail : ∀ {α : Type} {h : Hist} {c : Op} {e : Error},
      OnlyFails (α := α) (h ++ [⟨c, .error e⟩]) (.error e) :=
    onlyFails_lasting.failed (Hist.failed_snoc _ _ _)
  refine Prog.spec_perform_bind.mpr ⟨.schedule, fun t => ?_, fun e => hfail⟩
  refine Prog.spec_ite.mpr ⟨fun _ => onlyFails_ok _ _, fun _ => ?_⟩
  refine Prog.spec_perform_bind.mpr ⟨.lock, fun b => ?_, fun e => hfail⟩
  refine Prog.spec_ite.mpr ⟨fun _ => ensureRelease_spec (fun _ => .unlock) onlyFails_lasting ?_,
    fun _ => onlyFails_ok _ _⟩
  refine Prog.spec_perform_bind.mpr ⟨.schedule, fun t' => ?_, fun e => hfail⟩
  refine Prog.spec_ite.mpr ⟨fun _ => ?_, fun _ => onlyFails_ok _ _⟩
  refine Prog.spec_perform_bind.mpr
    ⟨.cleanup (((hnow.snoc _).snoc _).snoc _), fun _ => ?_, fun e => hfail⟩
  refine (Prog.spec_perform (c := .setNextCleanupAt _)).mpr ⟨?_, fun _ => onlyFails_ok _ _,
    fun e => hfail⟩
  exact .reschedule _

/-! ### Verification -/

/-- How a cached read ends. -/
inductive CachedOutcome (h : Hist) (credentialId clientId : Str) (key : Option Str)
    (fingerprint : Str) : Except Error (Option VerificationResult) → Prop
  | failed {e : Error} (failed : Hist.Failed h e) :
      CachedOutcome h credentialId clientId key fingerprint (.error e)
  | unkeyed (unkeyed : key = none) :
      CachedOutcome h credentialId clientId key fingerprint (.ok none)
  | sealed (sealed : Hist.Got h .restoreRequired true) :
      CachedOutcome h credentialId clientId key fingerprint (.error .restoreRequiredError)
  | refused {row : Option (CredentialRow × ClientRow)} {now : ℤ}
      (found : Hist.Got h (.joined credentialId) row) (reading : Hist.Got h .clock now)
      (refused : ∀ credential client, row = some (credential, client) →
        ¬ (credential.clientId = clientId ∧ client.status = .active ∧
          credentialIsAccepted credential now = true)) :
      CachedOutcome h credentialId clientId key fingerprint (.ok none)
  | fresh {k : Str} (keyed : key = some k) (found : Hist.Got h (.idempotent clientId k) none) :
      CachedOutcome h credentialId clientId key fingerprint (.ok none)
  | conflict {k : Str} {row : VerificationRow} (keyed : key = some k)
      (found : Hist.Got h (.idempotent clientId k) (some row))
      (other : row.requestFingerprint ≠ fingerprint) :
      CachedOutcome h credentialId clientId key fingerprint
        (.error (.valueError "idempotency_conflict"))
  | corrupt {k : Str} {row : VerificationRow} {e : Error} (keyed : key = some k)
      (found : Hist.Got h (.idempotent clientId k) (some row))
      (same : row.requestFingerprint = fingerprint)
      (read : resultFromJson (.ok row.resultJson) = .error e) :
      CachedOutcome h credentialId clientId key fingerprint (.error e)
  | replayed {k : Str} {row : VerificationRow} {result : VerificationResult}
      (keyed : key = some k) (found : Hist.Got h (.idempotent clientId k) (some row))
      (same : row.requestFingerprint = fingerprint)
      (read : resultFromJson (.ok row.resultJson) = .ok result) :
      CachedOutcome h credentialId clientId key fingerprint (.ok (some result))

/-- The commands of a cached read. -/
inductive CachedCommand (h : Hist) (credentialId clientId : Str) (key : Option Str) : Op → Prop
  | restore : CachedCommand h credentialId clientId key .restoreRequired
  | clock : CachedCommand h credentialId clientId key .clock
  | joined (unsealed : h.Got .restoreRequired false) :
      CachedCommand h credentialId clientId key (.joined credentialId)
  | lookup {k : Str} {credential : CredentialRow} {client : ClientRow} {now : ℤ}
      (keyed : key = some k) (found : h.Got (.joined credentialId) (some (credential, client)))
      (reading : h.Got .clock now) (active : client.status = .active)
      (owner : credential.clientId = clientId)
      (accepted : credentialIsAccepted credential now = true) :
      CachedCommand h credentialId clientId key (.idempotent clientId k)

theorem CachedCommand.queries {h : Hist} {credentialId clientId : Str} {key : Option Str} {c : Op}
    (hc : CachedCommand h credentialId clientId key c) : c.Queries := by
  cases hc <;> trivial

theorem CachedCommand.supplied {r : Request} {h : Hist} {credentialId clientId : Str}
    {key : Option Str} {c : Op} (hc : CachedCommand h credentialId clientId key c) :
    Supplied H r h c := by
  cases hc with
  | restore | clock => trivial
  | joined hopen => exact hopen
  | lookup keyed found reading active owner accepted =>
    exact ⟨_, _, _, _, found, reading, active, owner, accepted⟩

theorem cachedVerification_spec (h : Hist) (credentialId clientId : Str)
    (key : Option Str) (fingerprint : Str) :
    (Service.cachedVerification credentialId clientId key fingerprint).Spec
      (fun h c => CachedCommand h credentialId clientId key c)
      (fun h' x => h <+: h' ∧ CachedOutcome h' credentialId clientId key fingerprint x) h := by
  refine Prog.Spec.grows ?_
  cases key with
  | none => exact .unkeyed rfl
  | some key =>
    refine Prog.spec_perform_bind.mpr
      ⟨.restore, fun required => ?_, fun e => .failed (Hist.failed_snoc _ _ _)⟩
    refine Prog.spec_ite.mpr ⟨fun hsealed => ?_, fun hopen => ?_⟩
    · have hsealed : required = true := hsealed
      subst hsealed
      exact .sealed (Hist.got_snoc _ _ _)
    have hopen : required = false := by simpa using hopen
    subst hopen
    refine Prog.spec_perform_bind.mpr
      ⟨.clock, fun now => ?_, fun e => .failed (Hist.failed_snoc _ _ _)⟩
    refine Prog.spec_perform_bind.mpr ⟨.joined ((Hist.got_snoc h .restoreRequired false).snoc _),
      fun row => ?_, fun e => .failed (Hist.failed_snoc _ _ _)⟩
    have hnow : Hist.Got (h ++ [⟨.restoreRequired, .ok false⟩] ++ [⟨.clock, .ok now⟩])
        .clock now := Hist.got_snoc _ _ _
    cases row with
    | none => exact .refused (Hist.got_snoc _ _ _) (hnow.snoc _) fun _ _ hrow => by cases hrow
    | some row =>
      obtain ⟨credential, client⟩ := row
      refine Prog.spec_ite.mpr ⟨fun hrefused => ?_, fun haccepted => ?_⟩
      · refine .refused (Hist.got_snoc _ _ _) (hnow.snoc _) fun credential' client' hrow => ?_
        obtain ⟨rfl, rfl⟩ := Prod.mk.inj (Option.some.inj hrow)
        rintro ⟨howner, hactive, hacc⟩
        rcases hrefused with h | h | h
        · exact h howner
        · exact h hactive
        · exact h hacc
      · simp only [not_or, not_not] at haccepted
        refine Prog.spec_perform_bind.mpr ⟨?_, fun stored => ?_,
          fun e => .failed (Hist.failed_snoc _ _ _)⟩
        · exact .lookup rfl (Hist.got_snoc _ _ _) (hnow.snoc _) haccepted.2.1 haccepted.1
            haccepted.2.2
        · cases stored with
          | none => exact .fresh rfl (Hist.got_snoc _ _ _)
          | some row =>
            refine Prog.spec_ite.mpr ⟨fun hother => ?_, fun hsame => ?_⟩
            · exact .conflict rfl (Hist.got_snoc _ _ _) hother
            · refine Prog.spec_lift_bind.mpr ⟨fun result hread => ?_, fun e hread => ?_⟩
              · exact .replayed rfl (Hist.got_snoc _ _ _) (not_not.mp hsame) hread
              · exact .corrupt rfl (Hist.got_snoc _ _ _) (not_not.mp hsame) hread

/-- How a verification ends. -/
inductive VerifyOutcome (H : HashLib) (q : VerifyRequest) (h : Hist) :
    Except Error VerificationResult → Prop
  | failed {e : Error} (failed : Hist.Failed h e) : VerifyOutcome H q h (.error e)
  | invalid {e : Error}
      (invalid : ∀ proof subject purpose audience key,
        ¬ q.Reads proof subject purpose audience key) : VerifyOutcome H q h (.error e)
  | unauthenticated {now : ℤ} {e : Error} (reading : Hist.Got h .clock now)
      (auth : AuthOutcome H h q.verificationSecret .verification now (.error e)) :
      VerifyOutcome H q h (.error e)
  | rejected {now : ℤ} {bytes : Bytes} (reading : Hist.Got h .clock now)
      (auth : AuthOutcome H h q.verificationSecret .verification now (.ok none))
      (drawn : Hist.Got h (.tokenBytes 16) bytes)
      (unaccepted : ∀ row t, Hist.Got h .clock t →
        ¬ Authenticated H h q.verificationSecret .verification t row) :
      VerifyOutcome H q h (.ok
        (rejectedResult .credentialRejected (lit "vr_" ++ hexlify bytes) none none now))
  | unencodable {proof subject purpose audience : Str} {key : Option Str} {k : KeyRing}
      {e : Error} (reads : q.Reads proof subject purpose audience key)
      (digest : Service.lookupDigest H k proof = .error e ∨
        Service.requestFingerprint H proof subject purpose audience = .error e) :
      VerifyOutcome H q h (.error e)
  | cachedError {a : ConsumeProof} {e : Error} (args : VerifyArgs H q h a)
      (cached : CachedOutcome h a.credentialId a.clientId a.idempotencyKey
        a.requestFingerprint (.error e)) : VerifyOutcome H q h (.error e)
  | cached {a : ConsumeProof} {result : VerificationResult} (cleans : h.OnlyCleans)
      (args : VerifyArgs H q h a)
      (cached : CachedOutcome h a.credentialId a.clientId a.idempotencyKey
        a.requestFingerprint (.ok (some result))) : VerifyOutcome H q h (.ok result)
  | consumed {a : ConsumeProof} {result : VerificationResult} (args : VerifyArgs H q h a)
      (cached : CachedOutcome h a.credentialId a.clientId a.idempotencyKey
        a.requestFingerprint (.ok none))
      (answer : Hist.Got h (.store (.consumeProof a)) result) :
      VerifyOutcome H q h (.ok result)

section Mono

variable {h h' : Hist}

theorem Authenticated.mono {secret : Json} {role : Role} {now : ℤ} {row : CredentialRow}
    (ha : Authenticated H h secret role now row) (hpre : h <+: h') :
    Authenticated H h' secret role now row := by
  obtain ⟨⟨s, id, hs, hid, hrow, k, key, hk, hkey, hd⟩, hrole, hacc⟩ := ha
  exact ⟨⟨s, id, hs, hid, hrow.mono hpre, k, key, hk.mono hpre, hkey, hd⟩, hrole, hacc⟩

theorem AuthOutcome.mono {secret : Json} {role : Role} {now : ℤ}
    {x : Except Error (Option CredentialRecord)} (ha : AuthOutcome H h secret role now x)
    (hpre : h <+: h') : AuthOutcome H h' secret role now x := by
  cases ha with
  | failed hf => exact .failed (hf.mono hpre)
  | unencodable ht hd => exact .unencodable ht hd
  | malformed hp => exact .malformed hp
  | unknown ht hp hf => exact .unknown ht hp (hf.mono hpre)
  | refused ht hp hf hr =>
    exact .refused ht hp (hf.mono hpre)
      (hr.imp_right fun ⟨k, hk, hrest⟩ => ⟨k, hk.mono hpre, hrest⟩)
  | accepted ha => exact .accepted (ha.mono hpre)

theorem VerifyArgs.mono {q : VerifyRequest} {a : ConsumeProof} (ha : VerifyArgs H q h a)
    (hpre : h <+: h') : VerifyArgs H q h' a := by
  obtain ⟨⟨proof, k, hreads, hf, hk, hd⟩, row, now, hauth, hnow, hids⟩ := ha
  exact ⟨⟨proof, k, hreads, hf, hk.mono hpre, hd⟩, row, now, hauth.mono hpre,
    hnow.mono hpre, hids⟩

theorem CachedOutcome.mono {credentialId clientId fingerprint : Str} {key : Option Str}
    {x : Except Error (Option VerificationResult)}
    (hc : CachedOutcome h credentialId clientId key fingerprint x) (hpre : h <+: h') :
    CachedOutcome h' credentialId clientId key fingerprint x := by
  cases hc with
  | failed hf => exact .failed (hf.mono hpre)
  | unkeyed hu => exact .unkeyed hu
  | «sealed» hs => exact .sealed (hs.mono hpre)
  | refused hf hr hne => exact .refused (hf.mono hpre) (hr.mono hpre) hne
  | fresh hk hf => exact .fresh hk (hf.mono hpre)
  | conflict hk hf ho => exact .conflict hk (hf.mono hpre) ho
  | corrupt hk hf hs hr => exact .corrupt hk (hf.mono hpre) hs hr
  | replayed hk hf hs hr => exact .replayed hk (hf.mono hpre) hs hr

theorem IssueArgs.mono {q : IssueRequest} {proof check : Str} {record : ProofRecord}
    (ha : IssueArgs H q h proof record check) (hpre : h <+: h') :
    IssueArgs H q h' proof record check := by
  obtain ⟨k, bytes, hk, hb, hrest⟩ := ha.token
  obtain ⟨row, now, hauth, hnow, hids⟩ := ha.credential
  exact {
    ha with
    token := ⟨k, bytes, hk.mono hpre, hb.mono hpre, hrest⟩
    credential := ⟨row, now, hauth.mono hpre, hnow.mono hpre, hids⟩ }

end Mono

/-- The commands of a verification. -/
inductive VerifyCommand (H : HashLib) (q : VerifyRequest) (h : Hist) : Op → Prop
  | clock : VerifyCommand H q h .clock
  | cleanup {now : ℤ} {c : Op} (cleanup : CleanupCommand h now c) : VerifyCommand H q h c
  | credential {s id : Str} (text : q.verificationSecret = .str s)
      (parse : Service.credentialIdFromSecret s .verification = some id)
      (first : ∀ id' a, (⟨.credential id', a⟩ : Answered Op Op.Ans) ∉ h) :
      VerifyCommand H q h (.credential id)
  | memory : VerifyCommand H q h .memory
  | draw : VerifyCommand H q h (.tokenBytes 16)
  | cached {a : ConsumeProof} {c : Op} (args : VerifyArgs H q h a)
      (cached : CachedCommand h a.credentialId a.clientId a.idempotencyKey c) :
      VerifyCommand H q h c
  | consume {a : ConsumeProof} (cleans : h.OnlyCleans) (args : VerifyArgs H q h a) :
      VerifyCommand H q h (.store (.consumeProof a))

theorem VerifyCommand.supplied {q : VerifyRequest} {h : Hist} {c : Op}
    (hc : VerifyCommand H q h c) : Supplied H (.api (.verifyProof q)) h c := by
  cases hc with
  | clock | credential | memory | draw => trivial
  | cleanup hc => exact hc.supplied
  | cached _ hc => exact hc.supplied
  | consume cleans args => exact ⟨cleans, q, rfl, args⟩

/-- A verification that commits a decision returns it. -/
def Hist.Settles (h : Hist) (x : Except Error VerificationResult) : Prop :=
  ∀ a result, h.Got (.store (.consumeProof a)) result → x = .ok result

theorem Hist.OnlyCleans.settles {h : Hist} (hn : h.OnlyCleans)
    (x : Except Error VerificationResult) : h.Settles x := by
  intro a result hgot
  obtain ⟨now, hnow⟩ := hn _ _ hgot
  cases hnow

/-- Nothing was read about a credential. -/
def Hist.Unread (h : Hist) : Prop :=
  ∀ id a, (⟨.credential id, a⟩ : Answered Op Op.Ans) ∉ h

theorem Hist.Unread.snoc {h : Hist} (hn : h.Unread) {c : Op} (hc : ∀ id, c ≠ .credential id)
    (a : c.Ans) : Hist.Unread (h ++ [⟨c, a⟩]) := by
  intro id b hmem
  rcases List.mem_append.mp hmem with hmem | hmem
  · exact hn id b hmem
  · exact hc id (Sigma.mk.inj (List.mem_singleton.mp hmem)).1.symm

/-- A history that read no credential and no keyring, and of the clock only `now`. -/
structure Hist.Untried (h : Hist) (now : ℤ) : Prop where
  unread : h.Unread
  memory : ∀ k, ¬ h.Got .memory k
  clock : ∀ t, h.Got .clock t → t = now

theorem Hist.untried_clock (now : ℤ) : Hist.Untried ([] ++ [⟨.clock, .ok now⟩]) now where
  unread := Hist.Unread.snoc (fun _ _ => List.not_mem_nil) (c := .clock) (fun _ h => by cases h) _
  memory _ hk := List.not_mem_nil (hk.of_snoc fun h => by cases h)
  clock _ ht := (Hist.got_snoc_iff.mp ht).resolve_left List.not_mem_nil

/-- A cleanup tries no credential. -/
theorem Hist.Untried.snoc_cleanup {h : Hist} {now t : ℤ} (hn : h.Untried now) {c : Op}
    (hc : CleanupCommand h t c) (a : c.Ans) : Hist.Untried (h ++ [⟨c, a⟩]) now where
  unread := hn.unread.snoc (fun _ h => by cases hc <;> cases h) a
  memory k hk := hn.memory k (hk.of_snoc fun h => by cases hc <;> cases h)
  clock t ht := hn.clock t (ht.of_snoc fun h => by cases hc <;> cases h)

/-- The one credential that was read. -/
theorem Hist.Unread.found {h : Hist} (hn : h.Unread) {id id' : Str}
    {found : Option CredentialRow} {row : CredentialRow}
    (hg : Hist.Got (h ++ [⟨.credential id, .ok found⟩]) (.credential id') (some row)) :
    found = some row := by
  rcases List.mem_append.mp hg with hmem | hmem
  · exact absurd hmem (hn _ _)
  · exact (Except.ok.inj (eq_of_heq (Sigma.mk.inj (List.mem_singleton.mp hmem)).2)).symm

theorem Authenticated.of_snoc {h : Hist} {secret : Json} {role : Role} {now : ℤ}
    {row : CredentialRow} {c : Op} {a : c.Ans}
    (ha : Authenticated H (h ++ [⟨c, a⟩]) secret role now row)
    (hcredential : ∀ id, c ≠ .credential id) (hmemory : c ≠ .memory) :
    Authenticated H h secret role now row := by
  obtain ⟨⟨s, id, hs, hid, hrow, k, key, hk, hkey, hd⟩, hrole, hacc⟩ := ha
  exact ⟨⟨s, id, hs, hid, hrow.of_snoc (hcredential id), k, key, hk.of_snoc hmemory, hkey, hd⟩,
    hrole, hacc⟩

/-- Who authenticates by one credential row, one keyring and one reading passes every check of
`_authenticate` on them. -/
theorem Authenticated.checks {h : Hist} {now t : ℤ} {s id : Str} {role : Role} {k : KeyRing}
    {row row' : CredentialRow} (hn : h.Untried now)
    (ht : Hist.Got (h ++ [⟨.credential id, .ok (some row)⟩] ++ [⟨.memory, .ok k⟩]) .clock t)
    (ha : Authenticated H (h ++ [⟨.credential id, .ok (some row)⟩] ++ [⟨.memory, .ok k⟩])
      (.str s) role t row') :
    credentialIsAccepted row now = true ∧ ∃ key, k.keyFor row.hashKid = some key ∧
      credentialDigest H key.val s = .ok row.secretDigest := by
  obtain ⟨⟨s', id', hs, -, hrow, k', key, hk, hkey, hd⟩, -, hacc⟩ := ha
  obtain rfl := Json.str.inj hs
  obtain rfl := Option.some.inj (hn.unread.found (hrow.of_snoc fun h => by cases h))
  obtain rfl := hn.clock t ((ht.of_snoc fun h => by cases h).of_snoc fun h => by cases h)
  obtain rfl : k' = k := by
    refine (Hist.got_snoc_iff.mp hk).resolve_left fun hbefore => hn.memory k' ?_
    exact hbefore.of_snoc fun h => by cases h
  exact ⟨hacc, key, hkey, hd⟩

/-- **A refusal stands**: a secret that `_authenticate` did not accept, on the first credential,
keyring and reading that were asked for, authenticates no row by what was read. -/
theorem authenticate_refused {h : Hist} {now : ℤ} (hn : h.Untried now) (secret : Json)
    (role : Role) :
    (Service.authenticate H secret role now).Spec (fun _ _ => True)
      (fun h' x => x = .ok none → ∀ row t, Hist.Got h' .clock t →
        ¬ Authenticated H h' secret role t row) h := by
  cases secret with
  | str s =>
    dsimp only [Service.authenticate]
    cases hid : Service.credentialIdFromSecret s role with
    | none =>
      rintro - row t - ⟨⟨s', id', hs, hid', -⟩, -⟩
      obtain rfl := Json.str.inj hs
      cases hid.symm.trans hid'
    | some id =>
      refine Prog.spec_perform_bind.mpr ⟨trivial, fun found => ?_, fun e he => by cases he⟩
      cases found with
      | none =>
        rintro - row t - ⟨⟨_, _, -, -, hrow, -⟩, -⟩
        cases hn.unread.found hrow
      | some row =>
        refine Prog.spec_ite.mpr ⟨fun hrole => ?_, fun _ => ?_⟩
        · rintro - row' t - ⟨⟨_, _, -, -, hrow, -⟩, hrole', -⟩
          obtain rfl := Option.some.inj (hn.unread.found hrow)
          exact hrole hrole'
        · refine Prog.spec_perform_bind.mpr ⟨trivial, fun k => ?_, fun e he => by cases he⟩
          cases hkey : k.keyFor (credentialFromRow row).hashKid with
          | none =>
            intro _ row' t ht ha
            obtain ⟨-, key, hkey', -⟩ := ha.checks hn ht
            cases hkey.symm.trans hkey'
          | some key =>
            refine Prog.spec_lift_bind.mpr ⟨fun d hd => ?_, fun e _ he => by cases he⟩
            refine Prog.spec_ite.mpr ⟨fun hne => ?_, fun _ => ?_⟩
            · intro _ row' t ht ha
              obtain ⟨-, key', hkey', hd'⟩ := ha.checks hn ht
              obtain rfl := Option.some.inj (hkey.symm.trans hkey')
              exact hne (Except.ok.inj (hd'.symm.trans hd))
            · refine Prog.spec_ite.mpr ⟨fun _ he => (by cases he), fun hacc => ?_⟩
              intro _ row' t ht ha
              exact hacc (ha.checks hn ht).1
  | null | bool | int | float | arr | obj =>
    rintro - row t - ⟨⟨_, _, hs, -⟩, -⟩
    cases hs

theorem verifyProof_spec (q : VerifyRequest) :
    (Service.verifyProof H q).Spec (VerifyCommand H q)
      (fun h x => Hist.Settles h x ∧ VerifyOutcome H q h x) [] := by
  have hnil : ∀ x, Hist.Settles [] x := fun x => Hist.onlyCleans_nil.settles x
  refine Prog.spec_lift_bind.mpr ⟨fun proof hproof => ?_, fun e he =>
    ⟨hnil _, .invalid fun _ _ _ _ _ hq => by simp [hq.proof] at he⟩⟩
  refine Prog.spec_lift_bind.mpr ⟨fun subject hsubject => ?_, fun e he =>
    ⟨hnil _, .invalid fun _ _ _ _ _ hq => by simp [hq.subject] at he⟩⟩
  refine Prog.spec_lift_bind.mpr ⟨fun purpose hpurpose => ?_, fun e he =>
    ⟨hnil _, .invalid fun _ _ _ _ _ hq => by simp [hq.purpose] at he⟩⟩
  refine Prog.spec_lift_bind.mpr ⟨fun audience haudience => ?_, fun e he =>
    ⟨hnil _, .invalid fun _ _ _ _ _ hq => by simp [hq.audience] at he⟩⟩
  refine Prog.spec_lift_bind.mpr ⟨fun key hkey => ?_, fun e he =>
    ⟨hnil _, .invalid fun _ _ _ _ _ hq => by simp [hq.key] at he⟩⟩
  have hreads : q.Reads proof subject purpose audience key :=
    ⟨hproof, hsubject, hpurpose, haudience, hkey⟩
  -- a query that fails before anything was decided
  have hfailed : ∀ {h : Hist} {c : Op} {e : Error}, h.OnlyCleans → c.Queries →
      Hist.Settles (h ++ [⟨c, .error e⟩]) (.error e) ∧
        VerifyOutcome H q (h ++ [⟨c, .error e⟩]) (.error e) := fun hn hc =>
    ⟨(hn.snoc_query hc _).settles _, .failed (Hist.failed_snoc _ _ _)⟩
  refine Prog.spec_perform_bind.mpr
    ⟨.clock, fun now => ?_, fun e => hfailed (c := .clock) Hist.onlyCleans_nil trivial⟩
  have hclock : Hist.OnlyCleans ([] ++ [⟨.clock, .ok now⟩]) :=
    Hist.onlyCleans_nil.snoc_query (c := .clock) trivial _
  refine Prog.Spec.bind (((maybeCleanup_spec (Hist.got_snoc _ _ _)).keep
    (J := fun h => Hist.OnlyCleans h ∧ Hist.Untried h now) (fun _ _ a hn hc =>
      ⟨hn.1.snoc_cleanup hc a, hn.2.snoc_cleanup hc a⟩) ⟨hclock, Hist.untried_clock now⟩).mono
        (fun _ _ hc => .cleanup hc.2) ?_)
  rintro h (e | _) ⟨⟨hcleans, huntried⟩, hpre, hx⟩
  · exact ⟨hcleans.settles _, .failed (hx e rfl)⟩
  have hnow : Hist.Got h .clock now := (Hist.got_snoc _ _ _).mono hpre
  refine Prog.Spec.bind ((((authenticate_spec h _ _ _).and (authenticate_refused huntried _ _)).keep
    (J := Hist.OnlyCleans) (fun _ _ a hn hc => hn.snoc_query hc.1.free.queries a) hcleans).mono
      (fun _ _ hc => ?_) ?_)
  · cases hc.2.1 with
    | credential text parse => exact .credential text parse huntried.unread
    | memory => exact .memory
  rintro h₁ (e | credential) ⟨hcleans₁, ⟨hpre₁, hauth⟩, hrefused⟩
  · exact ⟨hcleans₁.settles _, .unauthenticated (hnow.mono hpre₁) hauth⟩
  cases credential with
  | none =>
    refine Prog.spec_perform_bind.mpr
      ⟨.draw, fun bytes => ?_, fun e => hfailed (c := .tokenBytes 16) hcleans₁ trivial⟩
    refine ⟨(hcleans₁.snoc_query (c := .tokenBytes 16) trivial _).settles _,
      .rejected ((hnow.mono hpre₁).snoc _) (hauth.mono (List.prefix_append _ _))
        (Hist.got_snoc _ _ _) fun row t ht ha => ?_⟩
    have hdraw : Op.tokenBytes 16 ≠ .clock := fun h => by cases h
    exact hrefused rfl row t (ht.of_snoc hdraw)
      (Authenticated.of_snoc (c := .tokenBytes 16) (a := .ok bytes) ha (fun _ h => by cases h)
        fun h => by cases h)
  | some credential =>
    cases hauth with
    | @accepted row hauth =>
      refine Prog.spec_perform_bind.mpr
        ⟨.memory, fun k => ?_, fun e => hfailed (c := .memory) hcleans₁ trivial⟩
      have hcleans' : Hist.OnlyCleans (h₁ ++ [⟨.memory, .ok k⟩]) :=
        hcleans₁.snoc_query (c := .memory) trivial _
      refine Prog.spec_lift_bind.mpr ⟨fun digest hdigest => ?_, fun e he =>
        ⟨hcleans'.settles _, .unencodable hreads (Or.inl he)⟩⟩
      refine Prog.spec_lift_bind.mpr ⟨fun fingerprint hfingerprint => ?_, fun e he =>
        ⟨hcleans'.settles _, .unencodable (k := k) hreads (Or.inr he)⟩⟩
      have hargs : VerifyArgs H q (h₁ ++ [⟨.memory, .ok k⟩])
          { credentialId := row.credentialId, clientId := row.clientId,
            tokenDigest := digest, subject, purpose, audience,
            requestFingerprint := fingerprint, idempotencyKey := key } :=
        ⟨⟨proof, k, hreads, hfingerprint, Hist.got_snoc _ _ _, hdigest⟩, row, now,
          hauth.mono (List.prefix_append _ _), (hnow.mono hpre₁).snoc _, rfl, rfl⟩
      refine Prog.Spec.bind ((((cachedVerification_spec _ _ _ _ _).keep (J := Hist.OnlyCleans)
        (fun _ _ a hn hc => hn.snoc_query hc.queries a) hcleans').keep
          (J := fun h => VerifyArgs H q h _)
            (fun _ _ a hargs _ => hargs.mono (List.prefix_append _ _)) hargs).mono
              (fun _ _ hc => .cached hc.1 hc.2.2) ?_)
      rintro h₂ (e | cached) ⟨hargs₂, hcleans₂, -, hcached⟩
      · exact ⟨hcleans₂.settles _, .cachedError hargs₂ hcached⟩
      cases cached with
      | some result => exact ⟨hcleans₂.settles _, .cached hcleans₂ hargs₂ hcached⟩
      | none =>
        have hlast : ∀ {y : Except Error VerificationResult} {a : ConsumeProof},
            Hist.Settles (h₂ ++ [⟨.store (.consumeProof a), y⟩]) y := by
          intro y a a' result hgot
          rcases List.mem_append.mp hgot with hgot | hgot
          · exact hcleans₂.settles y a' result hgot
          · obtain ⟨hcall, hy⟩ := Sigma.mk.inj (List.mem_singleton.mp hgot)
            obtain rfl := StoreCall.consumeProof.inj (Op.store.inj hcall)
            exact (eq_of_heq hy).symm
        refine Prog.spec_perform.mpr ⟨.consume hcleans₂ hargs₂, fun result => ?_, fun e => ?_⟩
        · exact ⟨hlast, .consumed (hargs₂.mono (List.prefix_append _ _))
            (hcached.mono (List.prefix_append _ _)) (Hist.got_snoc _ _ _)⟩
        · exact ⟨hlast, .failed (Hist.failed_snoc _ _ _)⟩

/-! ### Issuance -/

theorem Service.one_le_ttl {ttlSeconds : Json} {client : ClientRecord} {ttl : ℤ}
    (h : Service.ttl ttlSeconds client = .ok ttl) : 1 ≤ ttl := by
  have hint : ∀ {v : Json}, Service.integer v "ttl_seconds" 1 client.proofTtlSeconds = .ok ttl →
      1 ≤ ttl := by
    intro v hv
    unfold Service.integer at hv
    split at hv
    · split_ifs at hv with hn
      rw [← Except.ok.inj hv]
      exact hn.1
    · cases hv
  unfold Service.ttl at h
  split at h <;> exact hint h

/-- How an issuance ends. -/
inductive IssueOutcome (H : HashLib) (q : IssueRequest) (h : Hist) :
    Except Error IssuedProof → Prop
  | raised (e : Error) : IssueOutcome H q h (.error e)
  | issued {proof check : Str} {record committed : ProofRecord}
      (args : IssueArgs H q h proof record check)
      (answer : Hist.Got h (.store (.issueProof record check)) committed) :
      IssueOutcome H q h (.ok
        { proof
          receipt :=
            { proofTag := record.proofTag
              clientId := record.clientId
              subject := record.subject
              purpose := record.purpose
              audience := record.audience
              issuedAt := committed.issuedAt
              expiresAt := committed.expiresAt } })

theorem issueOutcome_lasting (q : IssueRequest) : Lasting (IssueOutcome H q) where
  snoc y ho := by
    cases ho with
    | raised e => exact .raised e
    | issued args answer =>
      exact .issued (args.mono (List.prefix_append _ _)) (answer.snoc y)
  failed _ := .raised _

/-- What `issue_proof` read of the client before it issued. -/
def IssueChecks (q : IssueRequest) (h : Hist) (record : ProofRecord) : Prop :=
  ∃ row client, h.Got (.client record.clientId) (some row) ∧ clientFromRow row = .ok client ∧
    client.status = .active ∧ record.audience ∈ client.allowedAudiences ∧
    Service.ttl q.ttlSeconds client = .ok (record.expiresAt - record.issuedAt)

/-- **`issue_proof`** may clean up, and then issues one writing command, with the record of the
proof that it returns. -/
theorem issueProof_commands {Φ : Hist → Op → Prop} (q : IssueRequest)
    (hfree : ∀ h c, Op.Free c → Φ h c) (hcleanup : ∀ h now c, CleanupCommand h now c → Φ h c)
    (hstore : ∀ h proof record check, Hist.OnlyCleans h → IssueArgs H q h proof record check →
      IssueChecks q h record → Φ h (.store (.issueProof record check))) :
    (Service.issueProof H q).Spec Φ (IssueOutcome H q) [] := by
  refine Prog.spec_lift_bind.mpr ⟨fun subject hsubject => ?_, fun e _ => .raised e⟩
  refine Prog.spec_lift_bind.mpr ⟨fun purpose hpurpose => ?_, fun e _ => .raised e⟩
  refine Prog.spec_lift_bind.mpr ⟨fun audience haudience => ?_, fun e _ => .raised e⟩
  refine Prog.spec_perform_bind.mpr ⟨hfree _ _ trivial, fun now => ?_, fun e => .raised e⟩
  have hclock : Hist.OnlyCleans ([] ++ [⟨.clock, .ok now⟩]) :=
    Hist.onlyCleans_nil.snoc_query (c := .clock) trivial _
  refine Prog.Spec.bind ((((maybeCleanup_spec (Hist.got_snoc _ _ _)).keep
    (J := Hist.OnlyCleans) (fun h c a hn hc => hn.snoc_cleanup hc a) hclock).mono
      (fun _ _ hc => hcleanup _ _ _ hc.2)) ?_)
  rintro h (e | _) ⟨hcleans, hpre, -⟩
  · exact .raised e
  have hnow : Hist.Got h .clock now := (Hist.got_snoc _ _ _).mono hpre
  -- what is known from before the lock is carried into it as a prefix of the history
  refine withLock_spec hfree (issueOutcome_lasting q) ?_
  have hcleans : Hist.OnlyCleans (h ++ [⟨.acquire .keyLock, .ok ()⟩]) :=
    hcleans.snoc_query (c := .acquire .keyLock) trivial _
  refine Prog.Spec.bind (((authenticate_spec _ _ _ _).keep (J := Hist.OnlyCleans)
    (fun h c a hn hc => hn.snoc_query hc.free.queries a) hcleans).mono
      (fun _ _ hc => hfree _ _ hc.2.free) ?_)
  rintro h₁ (e | credential) ⟨hcleans₁, hpre₁, hauth⟩
  · exact .raised e
  cases hauth with
  | malformed | unknown | refused => exact .raised _
  | @accepted row hauth =>
    have hnow₁ : Hist.Got h₁ .clock now := (hnow.snoc _).mono hpre₁
    refine Prog.spec_perform_bind.mpr ⟨hfree _ _ trivial, fun client => ?_, fun e => .raised e⟩
    cases client with
    | none => exact .raised _
    | some client =>
      refine Prog.spec_lift_bind.mpr ⟨fun client' hclient => ?_, fun e _ => .raised e⟩
      refine Prog.spec_ite.mpr ⟨fun _ => .raised _, fun hactive => ?_⟩
      refine Prog.spec_ite.mpr ⟨fun _ => .raised _, fun haud => ?_⟩
      refine Prog.spec_lift_bind.mpr ⟨fun ttl httl => ?_, fun e _ => .raised e⟩
      refine Prog.spec_perform_bind.mpr ⟨hfree _ _ trivial, fun k => ?_, fun e => .raised e⟩
      refine Prog.spec_perform_bind.mpr ⟨hfree _ _ trivial, fun bytes => ?_, fun e => .raised e⟩
      refine Prog.spec_lift_bind.mpr ⟨fun digest hdigest => ?_, fun e _ => .raised e⟩
      refine Prog.spec_lift_bind.mpr ⟨fun check hcheck => ?_, fun e _ => .raised e⟩
      -- the history at the commit, by the reads after the authentication
      set h₂ : Hist := h₁ ++ [⟨.client (credentialFromRow row).clientId, .ok (some client)⟩] ++
        [⟨.memory, .ok k⟩] ++ [⟨.tokenBytes 32, .ok bytes⟩] with hh₂
      have hpre₂ : h₁ <+: h₂ := by
        rw [hh₂]
        simp only [List.append_assoc]
        exact List.prefix_append _ _
      have hcleans₂ : Hist.OnlyCleans h₂ :=
        ((hcleans₁.snoc_query (c := .client _) trivial _).snoc_query (c := .memory) trivial
          _).snoc_query (c := .tokenBytes 32) trivial _
      have hargs : IssueArgs H q h₂ (Service.proofToken k.currentKey.1 bytes)
          { tokenDigest := digest
            proofTag := lit "pf_" ++ digest.take 24
            hashKid := k.currentKey.1
            clientId := row.clientId
            issueCredentialId := row.credentialId
            subject
            purpose
            audience
            issuedAt := now
            expiresAt := now + ttl
            consumedAt := none } check :=
        { token := ⟨k, bytes, (Hist.got_snoc _ _ _).snoc _, Hist.got_snoc _ _ _, rfl, rfl,
            hdigest, hcheck⟩
          tag := rfl
          subject := hsubject
          purpose := hpurpose
          audience := haudience
          ttl := by
            have := Service.one_le_ttl httl
            simpa using this
          unconsumed := rfl
          credential := ⟨row, now, hauth.mono hpre₂, hnow₁.mono hpre₂, rfl, rfl⟩ }
      have hchecks : IssueChecks q h₂
          { tokenDigest := digest
            proofTag := lit "pf_" ++ digest.take 24
            hashKid := k.currentKey.1
            clientId := row.clientId
            issueCredentialId := row.credentialId
            subject
            purpose
            audience
            issuedAt := now
            expiresAt := now + ttl
            consumedAt := none } := by
        refine ⟨client, client', ?_, hclient, not_not.mp hactive, not_not.mp haud, ?_⟩
        · exact ((Hist.got_snoc h₁ (.client row.clientId) (some client)).snoc _).snoc _
        · simpa using httl
      refine Prog.spec_perform_bind.mpr ⟨hstore _ _ _ _ hcleans₂ hargs hchecks,
        fun committed => ?_, fun e => .raised e⟩
      exact .issued (hargs.mono (List.prefix_append _ _)) (Hist.got_snoc _ _ _)

end Onceproof

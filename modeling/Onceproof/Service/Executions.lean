import Onceproof.Service.Specs
import Onceproof.Lib.Execution

/-!
# Executions of the service's programs

The programs of the service, run by themselves in a process that has loaded its keyring. What the
outside contributes to each command is arbitrary; the rules below follow a program command by
command.

* `World.Loaded` is what a program that does not write relies on: the keyring in memory, and a
  property of the ledger.
* `HostProg.Ends` says how every execution of a program ends; its rules are named after the
  commands (`ends_quiet`, `ends_memory`, `ends_store`) and the locks (`ends_withLock`,
  `ends_stable`).
* `createClient_raises`, `rotateCredential_raises` and `issueProof_raises` say which exceptions
  the programs can end with, given those of the transactions they commit.
-/

namespace Onceproof

variable {H : HashLib} {p tid : ℕ} {w w' : World} {k : KeyRing} {L : Ledger → Prop} {h : Hist}
variable {α β : Type}

/-- A process has the keyring `k` in memory, over a ledger with the property `L`. -/
structure World.Loaded (w : World) (p : ℕ) (k : KeyRing) (L : Ledger → Prop) : Prop where
  memory : (w.procs p).bind Proc.memory = some k
  ledger : L w.ledger

/-- The commands that write neither the ledger nor the keyring. -/
def Op.Quiet : Op → Prop
  | .store _ | .setMemory _ | .replaceKeyring _ => False
  | _ => True

/-- Every execution of a program from the world `w` ends in `Q`. -/
abbrev HostProg.Ends (p tid : ℕ) (Q : Except Error α → World → Prop) (prog : HostProg α) (h : Hist)
    (w : World) : Prop :=
  prog.Safe (Op.exec p tid) (fun _ _ => True) (fun _ => Q) h w

/-- Every exception is one of `E`. -/
def Raises (E : Error → Prop) (x : Except Error α) (_ : World) : Prop := ∀ e, x = .error e → E e

/-- Exceptions that a program raises by itself. -/
structure HostErrors (E : Error → Prop) : Prop where
  interrupted : E .interrupted
  encode : E .unicodeEncodeError
  value : ∀ code, E (.valueError code)
  permission : ∀ code, E (.permissionError code)

theorem raises_ok {E : Error → Prop} (a : α) (w : World) : Raises E (.ok a) w := by
  intro e he
  cases he

theorem raises_error {E : Error → Prop} {e : Error} (he : E e) (w : World) :
    Raises E (.error e : Except Error α) w := by
  intro e' he'
  rwa [← Except.error.inj he']

/-- How a program ends is how its executions end. -/
theorem HostProg.Ends.completes {Q : Except Error α → World → Prop} {prog : HostProg α}
    (hp : prog.Ends p tid Q h w) {τ : Hist} {x : Except Error α}
    (hx : prog.Completes (Op.exec p tid) w τ x w') : Q x w' := by
  obtain ⟨p', hsteps, hout⟩ := hx
  exact (hp.steps trivial hsteps).2 x hout

/-! ### Commands -/

theorem World.setProc_memory {f : Proc → Proc} (hf : ∀ q, (f q).memory = q.memory) (p' : ℕ) :
    ((w.setProc p f).procs p').bind Proc.memory = (w.procs p').bind Proc.memory := by
  have hprocs : (w.setProc p f).procs p' =
      if p' = p then (w.procs p).map f else w.procs p' := Function.update_apply _ _ _ _
  rw [hprocs]
  split_ifs with hp
  · rw [hp]
    cases w.procs p with
    | none => rfl
    | some q => exact hf q
  · rfl

/-- A quiet command keeps the keyring in memory and the ledger. -/
theorem World.Loaded.exec {c : Op} {i : Choice} {a : c.Ans} (hw : w.Loaded p k L) (hc : c.Quiet)
    (hexec : c.exec p tid i w = some (a, w')) : w'.Loaded p k L := by
  cases Op.exec_frame hexec with
  | none => exact hw
  | locked | released => exact ⟨hw.memory, hw.ledger⟩
  | replaced | remembered | committed => exact hc.elim
  | scheduled | served =>
    refine ⟨(World.setProc_memory ?_ p).trans hw.memory, hw.ledger⟩
    intro q
    rfl

theorem Op.exec_quiet_error {c : Op} {i : Choice} {e : Error} (hc : c.Quiet)
    (hexec : c.exec p tid i w = some (.error e, w')) :
    e = .interrupted ∨ e = .unicodeEncodeError := by
  rcases Op.exec_error hexec with h | ⟨h, -⟩ | ⟨_, rfl⟩ | ⟨_, rfl, -⟩
  · exact Or.inl h
  · exact Or.inr h
  · exact hc.elim
  · exact hc.elim

section Rules

variable {E : Error → Prop} {Q : Except Error β → World → Prop}

/-- A quiet command, and what follows it. -/
theorem ends_quiet {c : Op} {f : c.Val → HostProg β} (hw : w.Loaded p k L) (hc : c.Quiet)
    (hE : HostErrors E) (hQ : ∀ e w', E e → w'.Loaded p k L → Q (.error e) w')
    (hf : ∀ v h' w', w'.Loaded p k L → (f v).Ends p tid Q h' w') :
    (c.run >>= f).Ends p tid Q h w := by
  refine Prog.safe_perform_bind.mpr fun i a w' hexec => ⟨trivial, ?_⟩
  have hw' := hw.exec hc hexec
  cases a with
  | ok v => exact hf v _ w' hw'
  | error e =>
    refine hQ e w' ?_ hw'
    rcases Op.exec_quiet_error hc hexec with rfl | rfl
    · exact hE.interrupted
    · exact hE.encode

/-- A clock reading, and what follows it. -/
theorem ends_clock {f : ℤ → HostProg β} (hw : w.Loaded p k L) (hE : HostErrors E)
    (hQ : ∀ e w', E e → w'.Loaded p k L → Q (.error e) w')
    (hf : ∀ now, Timely now → ∀ h' w', w'.Loaded p k L → (f now).Ends p tid Q h' w') :
    (Op.clock.run >>= f).Ends p tid Q h w := by
  refine Prog.safe_perform_bind.mpr fun i a w' hexec => ⟨trivial, ?_⟩
  have hw' := hw.exec (c := .clock) trivial hexec
  cases a with
  | ok now => exact hf now (Op.exec_clock hexec) _ w' hw'
  | error e =>
    refine hQ e w' ?_ hw'
    rcases Op.exec_quiet_error (c := .clock) trivial hexec with rfl | rfl
    · exact hE.interrupted
    · exact hE.encode

/-- The command that reads the keyring in memory. -/
theorem ends_memory {f : KeyRing → HostProg β} (hw : w.Loaded p k L)
    (hf : ∀ h', (f k).Ends p tid Q h' w) : (Op.memory.run >>= f).Ends p tid Q h w := by
  refine Prog.safe_perform_bind.mpr fun i a w' hexec => ⟨trivial, ?_⟩
  simp only [Op.exec, hw.memory, Option.map_some, Option.some.injEq, Prod.mk.injEq] at hexec
  obtain ⟨rfl, rfl⟩ := hexec
  exact hf _

/-- A query, and what follows it. -/
theorem ends_query {c : Op} {params : List Str} {query : Ledger → c.Val} {f : c.Val → HostProg β}
    (hc : ∀ i w, c.exec p tid i w = queried i w params query) (hE : HostErrors E)
    (hQ : ∀ e, E e → Q (.error e) w) (hf : ∀ h', (f (query w.ledger)).Ends p tid Q h' w) :
    (c.run >>= f).Ends p tid Q h w := by
  refine Prog.safe_perform_bind.mpr fun i a w' hexec => ⟨trivial, ?_⟩
  rw [hc] at hexec
  obtain ⟨rfl, -⟩ := queried_eq_some hexec
  cases a with
  | ok v =>
    rw [queried_ok hexec]
    exact hf _
  | error e =>
    rcases queried_error hexec with rfl | ⟨rfl, -⟩
    · exact hQ _ hE.interrupted
    · exact hQ _ hE.encode

/-- A value that is computed without commands. -/
theorem ends_lift {x : Except Error α} {f : α → HostProg β}
    (hQ : ∀ e, x = .error e → Q (.error e) w) (hf : ∀ v, x = .ok v → (f v).Ends p tid Q h w) :
    HostProg.Ends p tid Q (Prog.lift x >>= f) h w := by
  cases x with
  | ok v => exact hf v rfl
  | error e => exact hQ e rfl

theorem ends_ite {c : Prop} [Decidable c] {a b : HostProg β} (ha : c → a.Ends p tid Q h w)
    (hb : ¬ c → b.Ends p tid Q h w) : HostProg.Ends p tid Q (if c then a else b) h w := by
  split_ifs with hc
  · exact ha hc
  · exact hb hc

/-- A transaction, and what follows it. -/
theorem ends_store {call : StoreCall} {f : call.Reply → HostProg β}
    (hQ : ∀ e x, e = .interrupted ∨ Tx.run (call.tx x) w.ledger = .error e → Q (.error e) w)
    (hf : ∀ reply x db' h', Tx.run (call.tx x) w.ledger = .ok (reply, db') →
      (f reply).Ends p tid Q h' { w with ledger := db' }) :
    ((Op.store call).run >>= f).Ends p tid Q h w := by
  refine Prog.safe_perform_bind.mpr fun i a w' hexec => ⟨trivial, ?_⟩
  cases a with
  | ok reply =>
    rcases Op.exec_store hexec with ⟨reply', hreply, hrun, hw'⟩ | ⟨e, he, -⟩
    · obtain rfl := Except.ok.inj hreply
      exact hw' ▸ hf reply i.chance w'.ledger _ hrun
    · cases he
  | error e =>
    rcases Op.exec_store hexec with ⟨_, he, -⟩ | ⟨e', he, rfl⟩
    · cases he
    · simp only [Op.exec, Option.some.injEq] at hexec
      exact hQ e i.chance (Tx.write_raised (Prod.ext (Prod.mk.inj hexec).1 rfl))

/-- A program under a lock: taking it may raise, and it is freed however the program ends. -/
theorem ends_withLock {l : LockName} {prog : HostProg β} (hw : w.Loaded p k L)
    (hE : HostErrors E) (hQ : ∀ e w', E e → w'.Loaded p k L → Q (.error e) w')
    (hfree : ∀ x w', Q x w' → Q x (w'.setLock (l.of p) none))
    (hprog : ∀ h' w', w'.Loaded p k L → prog.Ends p tid Q h' w') :
    (withLock l prog).Ends p tid Q h w := by
  refine ends_quiet hw trivial hE hQ fun _ h' w' hw' => ?_
  refine Prog.Safe.ensure ((hprog h' w' hw').mono (fun _ _ => id) fun h'' x w'' hx => ?_)
  refine (Prog.safe_perform (J := fun _ _ => True)).mpr fun i a w₃ hexec => ⟨trivial, ?_⟩
  simp only [Op.exec, Option.some.injEq, Prod.mk.injEq] at hexec
  obtain ⟨rfl, rfl⟩ := hexec
  exact hfree x w'' hx

/-- A program under the file lock, after the file was compared with the memory. -/
theorem ends_stable {prog : HostProg β} (hw : w.Loaded p k L) (hE : HostErrors E)
    (hQ : ∀ e w', E e → w'.Loaded p k L → Q (.error e) w')
    (hfree : ∀ x w', Q x w' → Q x (w'.setLock (LockName.keyringFile.of p) none))
    (hprog : ∀ h' w', w'.Loaded p k L → prog.Ends p tid Q h' w') :
    (KeyRing.stable prog).Ends p tid Q h w := by
  refine ends_withLock hw hE hQ hfree fun h' w' hw' => ?_
  refine ends_quiet hw' trivial hE hQ fun disk h' w' hw' => ends_memory hw' fun h' => ?_
  split_ifs with hdisk
  · exact hQ _ _ (hE.value _) hw'
  · exact hprog _ _ hw'

end Rules

/-! ### The programs of the service -/

section Programs

variable {E : Error → Prop}

/-- A credential is made with the current key. -/
theorem newCredential_ends {role : Role} {clientId : Str} (hw : w.Loaded p k L)
    (hE : HostErrors E) :
    (Service.newCredential H role clientId).Ends p tid (fun x w' => World.Loaded w' p k L ∧
      match x with
      | .ok c => c.1.hashKid = k.currentKid
      | .error e => E e) h w := by
  have hQ : ∀ (e : Error) (w' : World), E e → w'.Loaded p k L → w'.Loaded p k L ∧ E e :=
    fun _ _ he hw' => ⟨hw', he⟩
  refine ends_quiet hw trivial hE hQ fun idBytes h' w' hw' => ?_
  refine ends_quiet hw' trivial hE hQ fun secretBytes h' w' hw' => ?_
  refine ends_memory hw' fun h' => ends_lift (fun e he => ⟨hw', ?_⟩) fun d _ => ⟨hw', rfl⟩
  rw [credentialDigest_rootKey, digest] at he
  split at he
  · cases he
  · exact Except.error.inj he ▸ hE.encode

/-- The arguments of a creation name the current key. -/
structure CreateClient.Keyed (H : HashLib) (k : KeyRing) (a : CreateClient) : Prop where
  issuance : a.issuanceCredential.hashKid = k.currentKid
  check : keyCheck H k.currentKey.2.val = .ok a.hashKeyCheck

theorem createClient_raises (q : CreateClientRequest) (hw : w.Loaded p k L) (hE : HostErrors E)
    (hstore : ∀ a x db e, L db → a.Keyed H k →
      Tx.run ((StoreCall.createClient a).tx x) db = .error e → E e) :
    (Service.createClient H q).Ends p tid (Raises E) h w := by
  have hQ : ∀ (e : Error) (w' : World), E e → w'.Loaded p k L →
      Raises E (.error e : Except Error ClientCredentials) w' := fun _ w' he _ => raises_error he w'
  refine ends_lift (fun e he => hQ e w (Service.text_error he ▸ hE.value _) hw) fun name _ => ?_
  refine ends_ite (fun _ => hQ _ w (hE.value _) hw) fun _ => ?_
  refine ends_lift (fun e he => hQ e w ?_ hw) fun audiences _ => ?_
  · obtain ⟨v, -, hv⟩ := except_mapM_eq_error he
    exact Service.audience_error hv ▸ hE.value _
  refine ends_lift (fun e he => hQ e w (Service.integer_error he ▸ hE.value _) hw) fun ttl _ => ?_
  refine ends_lift (fun e he => hQ e w (Service.integer_error he ▸ hE.value _) hw) fun issue _ => ?_
  refine ends_lift (fun e he => hQ e w (Service.integer_error he ▸ hE.value _) hw)
    fun verify _ => ?_
  refine ends_withLock hw hE hQ (fun _ _ => id) fun h' w' hw' => ?_
  refine ends_stable hw' hE hQ (fun _ _ => id) fun h' w' hw' => ?_
  refine ends_quiet hw' trivial hE hQ fun idBytes h' w' hw' => ?_
  refine Prog.Safe.bind ((newCredential_ends hw' hE).mono (fun _ _ => id) ?_)
  rintro h₁ (e | ⟨issuance, secret₁⟩) w₁ ⟨hw₁, hissuance⟩
  · exact hQ e w₁ hissuance hw₁
  refine Prog.Safe.bind ((newCredential_ends hw₁ hE).mono (fun _ _ => id) ?_)
  rintro h₂ (e | ⟨verification, secret₂⟩) w₂ ⟨hw₂, hverification⟩
  · exact hQ e w₂ hverification hw₂
  have hrest : ∀ h₃ w₃, w₃.Loaded p k L → HostProg.Ends p tid (Raises E) (do
      let memory : KeyRing ← Op.memory.run
      let check ← Prog.lift (keyCheck H memory.currentKey.2.val)
      let now : ℤ ← Op.clock.run
      (Op.store (.createClient
        { clientId := lit "opc_" ++ hexlify idBytes
          name
          allowedAudiences := audiences.eraseDups
          proofTtlSeconds := ttl
          issueLimitPerMinute := issue
          verifyLimitPerMinute := verify
          issuanceCredential := issuance
          verificationCredential := verification
          hashKeyCheck := check
          now })).run
      pure
        { clientId := lit "opc_" ++ hexlify idBytes
          issuanceCredentialId := issuance.credentialId
          issuanceSecret := secret₁
          verificationCredentialId := verification.credentialId
          verificationSecret := secret₂ : ClientCredentials }) h₃ w₃ := by
    intro h₃ w₃ hw₃
    refine ends_memory hw₃ fun h₄ => ends_lift (fun e he => ?_) fun check hcheck => ?_
    · obtain ⟨check, hcheck⟩ := exists_keyCheck (H := H) k.currentKey.2
      rw [hcheck] at he
      cases he
    refine ends_quiet hw₃ trivial hE hQ fun now h₅ w₅ hw₅ => ?_
    refine ends_store (fun e x he => raises_error ?_ w₅) fun _ _ db' _ _ =>
      raises_ok _ { w₅ with ledger := db' }
    rcases he with rfl | he
    · exact hE.interrupted
    · exact hstore _ x _ e hw₅.ledger ⟨hissuance, hcheck⟩ he
  refine ends_ite (fun _ => ?_) fun _ => hrest h₂ w₂ hw₂
  exact ends_quiet hw₂ trivial hE hQ fun _ h₃ w₃ hw₃ => hrest h₃ w₃ hw₃

/-- The arguments of a rotation name the current key. -/
structure RotateCredential.Keyed (H : HashLib) (k : KeyRing) (a : RotateCredential) : Prop where
  replacement : a.replacement.hashKid = k.currentKid
  check : keyCheck H k.currentKey.2.val = .ok a.hashKeyCheck

theorem rotateCredential_raises (q : RotateRequest) (hw : w.Loaded p k L) (hE : HostErrors E)
    (hstore : ∀ a x db e, L db → a.Keyed H k →
      Tx.run ((StoreCall.rotateCredential a).tx x) db = .error e → E e) :
    (Service.rotateCredential H q).Ends p tid (Raises E) h w := by
  have hQ : ∀ (e : Error) (w' : World), E e → w'.Loaded p k L →
      Raises E (.error e : Except Error RotatedCredential) w' := fun _ w' he _ => raises_error he w'
  unfold Service.rotateCredential
  cases Role.ofText? q.role with
  | none => exact hQ _ w (hE.value _) hw
  | some role =>
    dsimp only
    refine ends_lift (fun e he => hQ e w (Service.integer_error he ▸ hE.value _) hw)
      fun graceSeconds _ => ?_
    refine ends_lift (fun e he => hQ e w (Service.text_error he ▸ hE.value _) hw)
      fun clientId _ => ?_
    refine ends_quiet hw trivial hE hQ fun now h' w' hw' => ?_
    refine ends_withLock hw' hE hQ (fun _ _ => id) fun h' w' hw' => ?_
    refine ends_stable hw' hE hQ (fun _ _ => id) fun h' w' hw' => ?_
    refine Prog.Safe.bind ((newCredential_ends hw' hE).mono (fun _ _ => id) ?_)
    rintro h₁ (e | ⟨replacement, secret⟩) w₁ ⟨hw₁, hreplacement⟩
    · exact hQ e w₁ hreplacement hw₁
    have hrest : ∀ h₃ w₃, w₃.Loaded p k L → HostProg.Ends p tid (Raises E) (do
        let memory : KeyRing ← Op.memory.run
        let check ← Prog.lift (keyCheck H memory.currentKey.2.val)
        let reply : Str × ℤ ← (Op.store (.rotateCredential
          { clientId, role, replacement, hashKeyCheck := check, graceSeconds, now })).run
        pure
          { clientId
            credentialId := replacement.credentialId
            role := q.role
            secret
            previousCredentialId := reply.1
            previousValidUntil := reply.2 : RotatedCredential }) h₃ w₃ := by
      intro h₃ w₃ hw₃
      refine ends_memory hw₃ fun h₄ => ends_lift (fun e he => ?_) fun check hcheck => ?_
      · obtain ⟨check, hcheck⟩ := exists_keyCheck (H := H) k.currentKey.2
        rw [hcheck] at he
        cases he
      refine ends_store (fun e x he => raises_error ?_ w₃) fun _ _ db' _ _ =>
        raises_ok _ { w₃ with ledger := db' }
      rcases he with rfl | he
      · exact hE.interrupted
      · exact hstore _ x _ e hw₃.ledger ⟨hreplacement, hcheck⟩ he
    refine ends_ite (fun _ => ?_) fun _ => hrest h₁ w₁ hw₁
    exact ends_quiet hw₁ trivial hE hQ fun _ h₃ w₃ hw₃ => hrest h₃ w₃ hw₃

/-- An authentication writes nothing and finds a credential or not. -/
theorem authenticate_ends {secret : Json} {role : Role} {now : ℤ} (hw : w.Loaded p k L)
    (hE : HostErrors E) :
    (Service.authenticate H secret role now).Ends p tid
      (fun x w' => World.Loaded w' p k L ∧ ∀ e, x = .error e → E e) h w := by
  have hend : ∀ (x : Option CredentialRecord) (w' : World), w'.Loaded p k L →
      w'.Loaded p k L ∧ ∀ e, (.ok x : Except Error (Option CredentialRecord)) = .error e → E e :=
    fun _ _ hw' => ⟨hw', fun _ he => (by cases he)⟩
  have hQ : ∀ (e : Error) (w' : World), E e → w'.Loaded p k L → w'.Loaded p k L ∧
      ∀ e', (.error e : Except Error (Option CredentialRecord)) = .error e' → E e' :=
    fun e w' he hw' => ⟨hw', fun e' he' => Except.error.inj he' ▸ he⟩
  unfold Service.authenticate
  cases secret with
  | str text =>
    dsimp only
    cases Service.credentialIdFromSecret text role with
    | none => exact hend none w hw
    | some id =>
      refine ends_quiet hw trivial hE hQ fun row h' w' hw' => ?_
      cases row with
      | none => exact hend none w' hw'
      | some row =>
        refine ends_ite (fun _ => hend none w' hw') fun _ => ends_memory hw' fun h' => ?_
        cases k.keyFor (credentialFromRow row).hashKid with
        | none => exact hend none w' hw'
        | some key =>
          refine ends_lift (fun e he => hQ e w' ?_ hw') fun d _ => ?_
          · rw [credentialDigest_rootKey, digest] at he
            split at he
            · cases he
            · exact Except.error.inj he ▸ hE.encode
          · refine ends_ite (fun _ => hend none w' hw') fun _ => ?_
            exact ends_ite (fun _ => hend _ w' hw') fun _ => hend none w' hw'
  | _ => exact hend none w hw

/-- An opportunistic cleanup: the ledger may have been cleaned, and nothing else is new. -/
theorem maybeCleanup_ends {now : ℤ} (hnow : Timely now) (hw : w.Loaded p k L) (hE : HostErrors E)
    (hok : ∀ x counts db db', L db → Tx.run ((StoreCall.cleanup now).tx x) db = .ok (counts, db') →
      L db') :
    (Service.maybeCleanup now).Ends p tid
      (fun x w' => World.Loaded w' p k L ∧ ∀ e, x = .error e → E e) h w := by
  have hend : ∀ w' : World, w'.Loaded p k L →
      w'.Loaded p k L ∧ ∀ e, (.ok () : Except Error Unit) = .error e → E e :=
    fun _ hw' => ⟨hw', fun _ he => (by cases he)⟩
  have hQ : ∀ (e : Error) (w' : World), E e → w'.Loaded p k L → w'.Loaded p k L ∧
      ∀ e', (.error e : Except Error Unit) = .error e' → E e' :=
    fun e w' he hw' => ⟨hw', fun e' he' => Except.error.inj he' ▸ he⟩
  refine ends_quiet hw trivial hE hQ fun next h' w' hw' => ?_
  refine ends_ite (fun _ => hend w' hw') fun _ => ?_
  refine ends_quiet hw' trivial hE hQ fun acquired h' w' hw' => ?_
  refine ends_ite (fun _ => ?_) fun _ => hend w' hw'
  refine Prog.Safe.ensure (Prog.Safe.mono (Q := fun _ x w' => World.Loaded w' p k L ∧
    ∀ e, x = .error e → E e) ?_ (fun _ _ => id) fun h'' x w'' hx => ?_)
  · refine ends_quiet hw' trivial hE hQ fun next h' w' hw' => ?_
    refine ends_ite (fun _ => ?_) fun _ => hend w' hw'
    refine ends_store (fun e x he => hQ e w' ?_ hw') fun counts x db' h' hrun => ?_
    · rcases he with rfl | he
      · exact hE.interrupted
      · obtain ⟨counts, hrun⟩ := Store.cleanup_run hnow.cleanupTime w'.ledger
        cases hrun.symm.trans he
    · have hw'' : World.Loaded { w' with ledger := db' } p k L :=
        ⟨hw'.memory, hok x counts _ _ hw'.ledger hrun⟩
      refine (Prog.safe_perform (J := fun _ _ => True)).mpr fun i a w₃ hexec => ⟨trivial, ?_⟩
      have hquiet : (Op.setNextCleanupAt (now + cleanupIntervalSeconds)).Quiet := trivial
      refine ⟨hw''.exec hquiet hexec, fun e he => ?_⟩
      subst he
      rcases Op.exec_quiet_error hquiet hexec with rfl | rfl
      · exact hE.interrupted
      · exact hE.encode
  · refine (Prog.safe_perform (J := fun _ _ => True)).mpr fun i a w₃ hexec => ⟨trivial, ?_⟩
    have hw₃ := hx.1.exec (c := .release .maintenanceLock) trivial hexec
    simp only [Op.exec, Option.some.injEq, Prod.mk.injEq] at hexec
    obtain ⟨rfl, -⟩ := hexec
    exact ⟨hw₃, hx.2⟩

/-- The arguments of an issuance name the current key. -/
structure ProofRecord.Keyed (H : HashLib) (k : KeyRing) (record : ProofRecord) (check : Str) :
    Prop where
  record : record.hashKid = k.currentKid
  check : keyCheck H k.currentKey.2.val = .ok check

theorem issueProof_raises (q : IssueRequest) (hw : w.Loaded p k L) (hE : HostErrors E)
    (hclean : ∀ now x counts db db', L db →
      Tx.run ((StoreCall.cleanup now).tx x) db = .ok (counts, db') → L db')
    (hclients : ∀ db, L db → ∀ row ∈ db.clients, ∃ client, clientFromRow row = .ok client)
    (hstore : ∀ record check x db e, L db → record.Keyed H k check →
      Tx.run ((StoreCall.issueProof record check).tx x) db = .error e → E e) :
    (Service.issueProof H q).Ends p tid (Raises E) h w := by
  have hQ : ∀ (e : Error) (w' : World), E e → w'.Loaded p k L →
      Raises E (.error e : Except Error IssuedProof) w' := fun _ w' he _ => raises_error he w'
  refine ends_lift (fun e he => hQ e w (Service.text_error he ▸ hE.value _) hw) fun subject _ => ?_
  refine ends_lift (fun e he => hQ e w (Service.purpose_error he ▸ hE.value _) hw)
    fun purpose _ => ?_
  refine ends_lift (fun e he => hQ e w (Service.audience_error he ▸ hE.value _) hw)
    fun audience _ => ?_
  refine ends_clock hw hE hQ fun now hnow h' w' hw' => ?_
  refine Prog.Safe.bind ((maybeCleanup_ends hnow hw' hE (hclean now)).mono
    (fun _ _ => id) ?_)
  rintro h₁ (e | ⟨⟩) w₁ ⟨hw₁, he⟩
  · exact hQ e w₁ (he e rfl) hw₁
  refine ends_withLock hw₁ hE hQ (fun _ _ => id) fun h' w' hw' => ?_
  refine Prog.Safe.bind ((authenticate_ends hw' hE).mono (fun _ _ => id) ?_)
  rintro h₂ (e | credential) w₂ ⟨hw₂, he⟩
  · exact hQ e w₂ (he e rfl) hw₂
  cases credential with
  | none => exact hQ _ w₂ (hE.permission _) hw₂
  | some credential =>
    have hquery : ∀ i w, (Op.client credential.clientId).exec p tid i w =
        queried i w [credential.clientId] fun db => db.clients.get? credential.clientId :=
      fun _ _ => rfl
    refine ends_query hquery hE (fun e he => hQ e w₂ he hw₂) fun h₃ => ?_
    cases hrow : w₂.ledger.clients.get? credential.clientId with
    | none => exact hQ _ w₂ (hE.permission _) hw₂
    | some row =>
      obtain ⟨client, hclient⟩ := hclients _ hw₂.ledger row (Table.get?_eq_some.mp hrow).1
      refine ends_lift (fun e he => ?_) fun client _ => ?_
      · rw [hclient] at he
        cases he
      refine ends_ite (fun _ => hQ _ w₂ (hE.permission _) hw₂) fun _ => ?_
      refine ends_ite (fun _ => hQ _ w₂ (hE.value _) hw₂) fun _ => ?_
      refine ends_lift (fun e he => hQ e w₂ ?_ hw₂) fun ttl _ => ?_
      · unfold Service.ttl at he
        split at he <;> exact Service.integer_error he ▸ hE.value _
      refine ends_memory hw₂ fun h₄ => ?_
      refine ends_quiet hw₂ trivial hE hQ fun bytes h₅ w₅ hw₅ => ?_
      refine ends_lift (fun e he => hQ e w₅ ?_ hw₅) fun tokenDigest _ => ?_
      · rw [proofDigest_rootKey, digest] at he
        split at he
        · cases he
        · exact Except.error.inj he ▸ hE.encode
      refine ends_lift (fun e he => ?_) fun check hcheck => ?_
      · obtain ⟨check, hcheck⟩ := exists_keyCheck (H := H) k.currentKey.2
        rw [hcheck] at he
        cases he
      refine ends_store (fun e x he => raises_error ?_ w₅) fun _ _ db' _ _ =>
        raises_ok _ { w₅ with ledger := db' }
      rcases he with rfl | he
      · exact hE.interrupted
      · exact hstore _ _ x _ e hw₅.ledger ⟨rfl, hcheck⟩ he

end Programs

end Onceproof

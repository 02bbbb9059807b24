import Onceproof.Keys.Spare
import Onceproof.Ledger.Verifications

/-!
# Requests and a spare key

Whatever a request asks for, except about the key itself, its thread issues the same commands in
the same order whether the keyring has a spare key or not, up to three differences that no answer
shows: the keyrings that it reads and writes, the ids that a new key must not have, and the digest
of a proof that names the spare key (`request_inStep`).
-/

namespace Onceproof

variable {H : HashLib} {w w' : World} {k m : KeyRing} {kid : Str} {key : RootKey} {p tid : ℕ}
variable {i : Choice} {db : Ledger} {α β : Type}

/-- The loop of `_new_kid` does not draw the id. -/
def NotRedrawn (kid : Str) (c : Op) (i : Choice) : Prop :=
  ∀ existing, c = .newKid existing → lit "hk_" ++ hexlify i.bytes ≠ kid

/-- Two programs of a thread, without the spare key and with it, that issue their commands in step
and end in the same way. -/
abbrev InStep (H : HashLib) (kid : Str) (key : RootKey) (p tid : ℕ) (prog prog' : HostProg α) :
    Prop :=
  Prog.Coupled (Op.exec p tid) (World.Kept H) (NotRedrawn kid) (World.Spares kid key) Eq prog prog'

namespace InStep

variable {prog prog' : HostProg α} {f f' : α → HostProg β}

theorem pure (a : α) : InStep H kid key p tid (Prog.ret a) (Prog.ret a) :=
  Prog.Coupled.ret rfl

theorem raise (e : Error) : InStep H kid key p tid (Prog.raise e : HostProg α) (Prog.raise e) :=
  Prog.Coupled.raise rfl

/-- Parts one after the other, with the same answers. -/
theorem bind (h : InStep H kid key p tid prog prog')
    (hf : ∀ a, InStep H kid key p tid (f a) (f' a)) :
    InStep H kid key p tid (prog >>= f) (prog' >>= f') := by
  refine Prog.Coupled.bind (h.mono ?_)
  rintro (e | a) _ rfl
  · exact .error rfl
  · exact .ok (hf a)

/-- A value that is computed without commands. -/
theorem lift_bind {x : Except Error α} (hf : ∀ a, x = .ok a → InStep H kid key p tid (f a) (f' a)) :
    InStep H kid key p tid (Prog.lift x >>= f) (Prog.lift x >>= f') :=
  Prog.Coupled.lift_bind (fun _ _ => rfl) hf

theorem ite {c : Prop} [Decidable c] {q q' : HostProg α} (hthen : InStep H kid key p tid prog prog')
    (helse : InStep H kid key p tid q q') :
    InStep H kid key p tid (if c then prog else q) (if c then prog' else q') := by
  by_cases hc : c
  · rwa [if_pos hc, if_pos hc]
  · rwa [if_neg hc, if_neg hc]

/-! ### Commands -/

/-- A command that has nothing to do with keys is answered alike. -/
theorem neutral {c : Op} (hc : c.isKeyless = true) :
    Prog.Neutral (Op.exec p tid) (World.Kept H) (NotRedrawn kid) (World.Spares kid key) c := by
  rintro i w _ a v - - ⟨hw, rfl⟩ hexec
  refine ⟨v.withKey kid key, ?_, hw.exec hc hexec, rfl⟩
  rw [exec_withKey hc, hexec]
  rfl

/-- A command that touches no keyring, and what follows it. -/
theorem command {c : Op} (hc : c.isKeyless = true) {f f' : c.Val → HostProg β}
    (hf : ∀ v, InStep H kid key p tid (f v) (f' v)) :
    InStep H kid key p tid (c.run >>= f) (c.run >>= f') :=
  Prog.Coupled.neutral_bind (neutral hc) (fun _ => rfl) fun _ _ _ => hf _

/-- A query, and what follows its answer about a ledger whose rows do not name the key. -/
theorem query {c : Op} (hc : c.isKeyless = true) (query : Ledger → c.Val)
    (hquery : ∀ {i w v u}, c.exec p tid i w = some (.ok v, u) → v = query w.ledger)
    {f f' : c.Val → HostProg β} (hf : ∀ w : World, w.Kept H → kid ∉ w.keyring.keys →
      InStep H kid key p tid (f (query w.ledger)) (f' (query w.ledger))) :
    InStep H kid key p tid (c.run >>= f) (c.run >>= f') := by
  refine Prog.Coupled.neutral_bind (neutral hc) (fun _ => rfl) fun {i w w' v u} hw hR hexec => ?_
  obtain rfl := hquery hexec
  exact hf w hw hR.1.keyring

/-- A command at the end of a program. -/
theorem last {c : Op} (hc : c.isKeyless = true) : InStep H kid key p tid c.run c.run := by
  refine .act_neutral (neutral hc) fun {i w w' a v} _ _ _ => ?_
  cases a with
  | ok v => exact pure v
  | error e => exact raise e

/-- What is read from memory has the spare key in one run and not in the other. -/
theorem memory_bind {f f' : KeyRing → HostProg β} (hf : ∀ m : KeyRing, kid ∉ m.keys →
      InStep H kid key p tid (f m) (f' (m.withKey kid key))) :
    InStep H kid key p tid (Op.memory.run >>= f) (Op.memory.run >>= f') := by
  refine Prog.Coupled.perform_bind ?_
  rintro i w _ a v - - ⟨hw, rfl⟩ hexec
  have hread : ∀ w : World, Op.memory.exec p tid i w = (w.memoryOf p).map fun k => (.ok k, w) :=
    fun _ => rfl
  rw [hread, Option.map_eq_some_iff] at hexec
  obtain ⟨m, hm, heq⟩ := hexec
  obtain ⟨rfl, rfl⟩ := Prod.mk.inj heq
  refine ⟨.ok (m.withKey kid key), _, ?_, ⟨hw, rfl⟩, .ok (hf m (hw.memory p m hm))⟩
  rw [hread, World.memoryOf_withKey, hm]
  rfl

/-- So has what is read from the file. -/
theorem readKeyring_bind {f f' : KeyRing → HostProg β} (hf : ∀ d : KeyRing, kid ∉ d.keys →
      InStep H kid key p tid (f d) (f' (d.withKey kid key))) :
    InStep H kid key p tid (Op.readKeyring.run >>= f) (Op.readKeyring.run >>= f') := by
  refine Prog.Coupled.perform_bind ?_
  rintro i w _ a v - - ⟨hw, rfl⟩ hexec
  have hread : ∀ w : World, Op.readKeyring.exec p tid i w = orFault i w (.ok w.keyring, w) :=
    fun _ => rfl
  rw [hread] at hexec ⊢
  rcases orFault_eq_some.mp hexec with ⟨hfault, heq⟩ | ⟨hfault, heq⟩
  · obtain ⟨rfl, rfl⟩ := Prod.mk.inj heq
    exact ⟨_, _, orFault_eq_some.mpr (Or.inl ⟨hfault, rfl⟩), ⟨hw, rfl⟩, .error rfl⟩
  · obtain ⟨rfl, rfl⟩ := Prod.mk.inj heq
    exact ⟨_, _, orFault_eq_some.mpr (Or.inr ⟨hfault, rfl⟩), ⟨hw, rfl⟩, .ok (hf _ hw.keyring)⟩

/-- A generation is taken over by a process. -/
theorem setMemory (hm : kid ∉ m.keys) :
    InStep H kid key p tid (Op.setMemory m).run (Op.setMemory (m.withKey kid key)).run := by
  have hset : ∀ (i : Choice) (m : KeyRing) (w : World), (Op.setMemory m).exec p tid i w =
      some (.ok (), w.setProc p fun q => { q with memory := some m }) := fun _ _ _ => rfl
  refine .act ?_ ?_
  · rintro i w _ a v - - ⟨hw, rfl⟩ hexec
    rw [hset] at hexec
    obtain ⟨rfl, rfl⟩ := Prod.mk.inj (Option.some.inj hexec)
    refine ⟨.ok (), _, hset i _ _, ⟨hw.keyring, fun p' m' hm' => ?_⟩, ?_⟩
    · have hprocs : (w.setProc p fun q => { q with memory := some m }).procs =
          Function.update w.procs p ((w.procs p).map fun q => { q with memory := some m }) := rfl
      rw [World.memoryOf, hprocs] at hm'
      by_cases hp : p' = p
      · subst hp
        rw [Function.update_self] at hm'
        cases hproc : w.procs p' with
        | none =>
          rw [hproc] at hm'
          cases hm'
        | some q =>
          rw [hproc] at hm'
          exact Option.some.inj hm' ▸ hm
      · rw [Function.update_of_ne hp] at hm'
        exact hw.memory p' m' hm'
    · exact World.setProc_withKey_of fun _ => rfl
  · rintro i w _ a v a' v' - - ⟨hw, rfl⟩ hexec hexec'
    rw [hset] at hexec hexec'
    obtain ⟨rfl, rfl⟩ := Prod.mk.inj (Option.some.inj hexec)
    obtain ⟨rfl, rfl⟩ := Prod.mk.inj (Option.some.inj hexec')
    exact pure ()

/-- The file is replaced, and what follows it. -/
theorem replaceKeyring_act (hm : kid ∉ m.keys) {f f' : Except Error Unit → HostProg β}
    (hf : ∀ x, InStep H kid key p tid (f x) (f' x)) :
    InStep H kid key p tid (.act (.replaceKeyring m) f)
      (.act (.replaceKeyring (m.withKey kid key)) f') := by
  have hexec : ∀ {i : Choice} {m : KeyRing} {w : World}, (Op.replaceKeyring m).exec p tid i w =
      if i.late then some (.error .keyringCommitUncertain, { w with keyring := m })
      else orFault i w (.ok (), { w with keyring := m }) := rfl
  have hnext : ∀ {i : Choice} {w : World} {a : Except Error Unit} {v : World}, w.Lacks kid →
      (Op.replaceKeyring m).exec p tid i w = some (a, v) → v.Lacks kid ∧
        (Op.replaceKeyring (m.withKey kid key)).exec p tid i (w.withKey kid key) =
          some (a, v.withKey kid key) := by
    intro i w a v hw h
    rw [hexec] at h ⊢
    by_cases hlate : i.late = true
    · rw [if_pos hlate] at h ⊢
      obtain ⟨rfl, rfl⟩ := Prod.mk.inj (Option.some.inj h)
      exact ⟨⟨hm, hw.memory⟩, rfl⟩
    · rw [if_neg hlate] at h ⊢
      rcases orFault_eq_some.mp h with ⟨hfault, heq⟩ | ⟨hfault, heq⟩
      · obtain ⟨rfl, rfl⟩ := Prod.mk.inj heq
        exact ⟨hw, orFault_eq_some.mpr (Or.inl ⟨hfault, rfl⟩)⟩
      · obtain ⟨rfl, rfl⟩ := Prod.mk.inj heq
        exact ⟨⟨hm, hw.memory⟩, orFault_eq_some.mpr (Or.inr ⟨hfault, rfl⟩)⟩
  refine .act ?_ ?_
  · rintro i w _ a v - - ⟨hw, rfl⟩ h
    obtain ⟨hv, h'⟩ := hnext hw h
    exact ⟨a, _, h', hv, rfl⟩
  · rintro i w _ a v a' v' - - ⟨hw, rfl⟩ h h'
    obtain ⟨-, hsame⟩ := hnext hw h
    obtain ⟨rfl, -⟩ := Prod.mk.inj (Option.some.inj (h'.symm.trans hsame))
    exact hf a'

/-- The id of a new key, which is another one, and what follows it. -/
theorem newKid_bind {f f' : Str → HostProg β}
    (hf : ∀ kid', kid' ≠ kid → InStep H kid key p tid (f kid') (f' kid')) :
    InStep H kid key p tid ((Op.newKid m.keys.keys).run >>= f)
      ((Op.newKid (m.withKey kid key).keys.keys).run >>= f') := by
  have hexec : ∀ {i : Choice} {existing : Finset Str} {w : World},
      (Op.newKid existing).exec p tid i w =
        if lit "hk_" ++ hexlify i.bytes ∈ existing then none
        else orFault i w (.ok (lit "hk_" ++ hexlify i.bytes), w) := rfl
  refine Prog.Coupled.perform_bind ?_
  rintro i w _ a v - hdrawn ⟨hw, rfl⟩ h
  have hne : lit "hk_" ++ hexlify i.bytes ≠ kid := hdrawn _ rfl
  rw [hexec] at h ⊢
  by_cases hold : lit "hk_" ++ hexlify i.bytes ∈ m.keys.keys
  · rw [if_pos hold] at h
    cases h
  · have hnew : lit "hk_" ++ hexlify i.bytes ∉ (m.withKey kid key).keys.keys := by
      rw [Finmap.mem_keys] at hold ⊢
      exact fun hmem => (Finmap.mem_insert.mp hmem).elim hne hold
    rw [if_neg hold] at h
    rw [if_neg hnew]
    rcases orFault_eq_some.mp h with ⟨hfault, heq⟩ | ⟨hfault, heq⟩
    · obtain ⟨rfl, rfl⟩ := Prod.mk.inj heq
      exact ⟨_, _, orFault_eq_some.mpr (Or.inl ⟨hfault, rfl⟩), ⟨hw, rfl⟩, .error rfl⟩
    · obtain ⟨rfl, rfl⟩ := Prod.mk.inj heq
      exact ⟨_, _, orFault_eq_some.mpr (Or.inr ⟨hfault, rfl⟩), ⟨hw, rfl⟩, .ok (hf _ hne)⟩

/-! ### Locks and keyring files -/

theorem ensure_release (l : LockName) (h : InStep H kid key p tid prog prog') :
    InStep H kid key p tid (prog.ensure (Op.release l).run) (prog'.ensure (Op.release l).run) := by
  refine Prog.Coupled.ensure h ((last (c := .release l) rfl).mono ?_)
  rintro (e | u) _ rfl
  · exact .error rfl
  · exact .ok trivial

/-- A program under a lock. -/
theorem withLock (l : LockName) (h : InStep H kid key p tid prog prog') :
    InStep H kid key p tid (Onceproof.withLock l prog) (Onceproof.withLock l prog') :=
  command rfl fun _ => ensure_release l h

/-- The file agrees with the memory in both cases or in none. -/
theorem stable (h : InStep H kid key p tid prog prog') :
    InStep H kid key p tid (KeyRing.stable prog) (KeyRing.stable prog') := by
  refine withLock _ (readKeyring_bind fun d hd => memory_bind fun m hm => ?_)
  by_cases hsame : d = m
  · rw [if_neg (not_not.mpr hsame), if_neg (not_not.mpr ((KeyRing.withKey_inj hd hm).mpr hsame))]
    exact h
  · rw [if_pos hsame, if_pos fun heq => hsame ((KeyRing.withKey_inj hd hm).mp heq)]
    exact raise _

theorem reload : InStep H kid key p tid KeyRing.reload KeyRing.reload :=
  readKeyring_bind fun _ hd => setMemory hd

/-- A new generation is written, with the spare key and without. -/
theorem replaceAndReload (hm : kid ∉ m.keys) :
    InStep H kid key p tid (KeyRing.replaceAndReload m)
      (KeyRing.replaceAndReload (m.withKey kid key)) := by
  have hreload : InStep H kid key p tid (Prog.raiseAs .keyringCommitUncertain KeyRing.reload)
      (Prog.raiseAs .keyringCommitUncertain KeyRing.reload) := by
    refine Prog.Coupled.raiseAs (reload.mono ?_)
    rintro (e | u) _ rfl
    · exact .error rfl
    · exact .ok rfl
  refine replaceKeyring_act hm fun x => ?_
  cases x with
  | ok => exact hreload
  | error e => exact bind hreload fun _ => raise e

/-! ### The service -/

theorem construct : InStep H kid key p tid Service.construct Service.construct :=
  bind reload fun _ => command rfl fun _ => last rfl

/-- A rotation draws the same key id in both, which is not the spare one. -/
theorem rotate : InStep H kid key p tid KeyRing.rotate KeyRing.rotate := by
  refine stable (memory_bind fun m hm => newKid_bind fun kid' hne => command rfl fun key' => ?_)
  rw [KeyRing.withKey_rotated hne]
  refine bind (replaceAndReload ?_) fun _ => pure _
  exact fun hmem => (Finmap.mem_insert.mp hmem).elim (fun heq => hne heq.symm) hm

/-- Another key is retired with the spare key or without it. -/
theorem retireHashKey {kid' : Str} (hne : kid' ≠ kid) :
    InStep H kid key p tid (Service.retireHashKey kid') (Service.retireHashKey kid') := by
  refine withLock _ (stable (memory_bind fun m hm => ?_))
  have hcurrent : (m.withKey kid key).currentKid = m.currentKid := rfl
  by_cases hold : kid' = m.currentKid
  · rw [dif_pos hold, dif_pos (hold.trans hcurrent.symm)]
    exact raise _
  have hold' : kid' ≠ (m.withKey kid key).currentKid := hold
  rw [dif_neg hold, dif_neg hold', KeyRing.keyFor_withKey_of_ne hne]
  refine ite (raise _) (bind (command rfl fun _ => command rfl fun _ => pure _) fun used => ?_)
  refine ite (raise _) ?_
  rw [KeyRing.withKey_retired hold hne]
  exact replaceAndReload fun hmem => hm (Finmap.mem_erase.mp hmem).2

/-- A cleanup looks at no key. -/
theorem maybeCleanup (now : ℤ) :
    InStep H kid key p tid (Service.maybeCleanup now) (Service.maybeCleanup now) := by
  refine command rfl fun t => ite (pure _) (command rfl fun acquired => ite ?_ (pure _))
  refine ensure_release _ (command rfl fun t' => ite ?_ (pure _))
  exact command rfl fun _ => last rfl

/-- The rows of a ledger name other keys. -/
theorem row_kid_ne (hw : w.Kept H) (hkid : kid ∉ w.keyring.keys) :
    (∀ c ∈ w.ledger.credentials, c.hashKid ≠ kid) ∧ ∀ r ∈ w.ledger.proofs, r.hashKid ≠ kid := by
  have hcovers : ∀ {kid'}, w.ledger.Covers H w.keyring kid' → kid' ≠ kid := by
    rintro kid' ⟨key', check, hkey', -⟩ rfl
    rw [KeyRing.keyFor_of_notMem hkid] at hkey'
    cases hkey'
  exact ⟨fun c hc => hcovers (hw.covered.credentials c hc),
    fun r hr => hcovers (hw.covered.proofs r hr)⟩

/-- An authentication comes to the same answer. -/
theorem authenticate (secret : Json) (role : Role) (now : ℤ) :
    InStep H kid key p tid (Service.authenticate H secret role now)
      (Service.authenticate H secret role now) := by
  unfold Service.authenticate
  cases secret with
  | str secret =>
    dsimp only
    cases Service.credentialIdFromSecret secret role with
    | none => exact pure _
    | some id =>
      refine query rfl (fun db => db.credentials.get? id) Op.exec_credential fun w hw hkid => ?_
      cases hrow : w.ledger.credentials.get? id with
      | none => exact pure _
      | some row =>
        have hne : (credentialFromRow row).hashKid ≠ kid :=
          (row_kid_ne hw hkid).1 row (Table.get?_eq_some.mp hrow).1
        refine ite (pure _) (memory_bind fun m _ => ?_)
        rw [KeyRing.keyFor_withKey_of_ne hne]
        cases m.keyFor (credentialFromRow row).hashKid with
        | none => exact pure _
        | some key' => exact lift_bind fun d _ => ite (pure _) (ite (pure _) (pure _))
  | _ => exact pure _

theorem newCredential (role : Role) (clientId : Str) :
    InStep H kid key p tid (Service.newCredential H role clientId)
      (Service.newCredential H role clientId) := by
  refine command rfl fun idBytes => command rfl fun secretBytes => memory_bind fun m hm => ?_
  rw [KeyRing.currentKey_withKey hm]
  exact lift_bind fun d _ => pure _

/-- New credentials are digested with the current key, which both runs have. -/
theorem createClient (q : CreateClientRequest) :
    InStep H kid key p tid (Service.createClient H q) (Service.createClient H q) := by
  refine lift_bind fun name _ => ite (raise _) (lift_bind fun audiences _ => lift_bind fun ttl _ =>
    lift_bind fun issueLimit _ => lift_bind fun verifyLimit _ => withLock _ (stable ?_))
  refine command rfl fun idBytes => bind (newCredential _ _) fun issuance =>
    bind (newCredential _ _) fun verification => ?_
  dsimp only
  -- the credentials are delivered or not, and the rest is the same
  refine ite (command rfl fun _ => ?_) ?_
  all_goals
    refine memory_bind fun m hm => ?_
    rw [KeyRing.currentKey_withKey hm]
    exact lift_bind fun check _ => command rfl fun now => command rfl fun _ => pure _

theorem rotateCredential (q : RotateRequest) :
    InStep H kid key p tid (Service.rotateCredential H q) (Service.rotateCredential H q) := by
  unfold Service.rotateCredential
  cases Role.ofText? q.role with
  | none => exact raise _
  | some role =>
    refine lift_bind fun grace _ => lift_bind fun clientId _ => command rfl fun now =>
      withLock _ (stable (bind (newCredential _ _) fun replacement => ?_))
    dsimp only
    refine ite (command rfl fun _ => ?_) ?_
    all_goals
      refine memory_bind fun m hm => ?_
      rw [KeyRing.currentKey_withKey hm]
      exact lift_bind fun check _ => command rfl fun reply => pure _

/-- So is a new proof. -/
theorem issueProof (q : IssueRequest) :
    InStep H kid key p tid (Service.issueProof H q) (Service.issueProof H q) := by
  refine lift_bind fun subject _ => lift_bind fun purpose _ => lift_bind fun audience _ =>
    command rfl fun now => bind (maybeCleanup now) fun _ =>
    withLock _ (bind (authenticate _ _ _) fun credential => ?_)
  cases credential with
  | none => exact raise _
  | some credential =>
    refine command rfl fun row => ?_
    cases row with
    | none => exact raise _
    | some row =>
      refine lift_bind fun client _ => ite (raise _) (ite (raise _) (lift_bind fun ttl _ =>
        memory_bind fun m hm => command rfl fun tokenBytes => ?_))
      rw [KeyRing.currentKey_withKey hm]
      exact lift_bind fun d _ => lift_bind fun check _ => command rfl fun committed => pure _

theorem cachedVerification (credentialId clientId : Str) (idempotencyKey : Option Str)
    (fingerprint : Str) : InStep H kid key p tid
      (Service.cachedVerification credentialId clientId idempotencyKey fingerprint)
      (Service.cachedVerification credentialId clientId idempotencyKey fingerprint) := by
  cases idempotencyKey with
  | none => exact pure _
  | some t =>
    refine command rfl fun required => ite (raise _)
      (command rfl fun now => command rfl fun row => ?_)
    cases row with
    | none => exact pure _
    | some row =>
      refine ite (pure _) (command rfl fun stored => ?_)
      cases stored with
      | none => exact pure _
      | some stored => exact ite (raise _) (lift_bind fun result _ => pure _)

/-- Every referenced check is that of another key. -/
theorem keysMatch : ∀ {checks : List (Str × Str)}, (∀ c ∈ checks, c.1 ≠ kid) →
    InStep H kid key p tid (Service.keysMatch H checks) (Service.keysMatch H checks)
  | [], _ => pure _
  | (kid', expected) :: checks, hchecks => by
    have hne : kid' ≠ kid := hchecks _ List.mem_cons_self
    have hrest := keysMatch fun c hc => hchecks c (List.mem_cons_of_mem _ hc)
    refine memory_bind fun m _ => ?_
    rw [KeyRing.keyFor_withKey_of_ne hne]
    cases m.keyFor kid' with
    | none => exact pure _
    | some key' => exact lift_bind fun check _ => ite (pure _) hrest

/-- The key ids that rows name. -/
theorem exec_referencedKids {kids : List Str}
    (h : Op.referencedKids.exec p tid i w = some (.ok kids, w')) : kids = w.ledger.referenced := by
  rw [Op.exec] at h
  exact queried_ok h

/-- The checks that the ledger has recorded for them. -/
theorem exec_keyChecks {kids : List Str} {checks : List (Str × Str)}
    (h : (Op.keyChecks kids).exec p tid i w = some (.ok checks, w')) :
    checks = w.ledger.checks kids := by
  rw [Op.exec] at h
  exact queried_ok h

/-- The checks of the rows are those of other keys. -/
theorem referencedHashKeyChecks_bind {g g' : Option (List (Str × Str)) → HostProg β}
    (hnone : InStep H kid key p tid (g none) (g' none))
    (hsome : ∀ checks : List (Str × Str), (∀ c ∈ checks, c.1 ≠ kid) →
      InStep H kid key p tid (g (some checks)) (g' (some checks))) :
    InStep H kid key p tid (Service.referencedHashKeyChecks >>= g)
      (Service.referencedHashKeyChecks >>= g') := by
  rw [Service.referencedHashKeyChecks, Prog.bind_assoc, Prog.bind_assoc]
  refine query rfl Ledger.referenced exec_referencedKids fun w hw hkid => ?_
  have hkids : kid ∉ w.ledger.referenced := by
    intro hmem
    rcases Ledger.mem_referenced.mp hmem with ⟨c, hc, heq⟩ | ⟨r, hr, heq⟩
    · exact (row_kid_ne hw hkid).1 c hc heq
    · exact (row_kid_ne hw hkid).2 r hr heq
  by_cases hnil : w.ledger.referenced = []
  · rw [if_pos hnil]
    exact hsome [] fun c hc => absurd hc List.not_mem_nil
  rw [if_neg hnil, Prog.bind_assoc, Prog.bind_assoc]
  refine query rfl (fun db => db.checks w.ledger.referenced) exec_keyChecks fun w' _ _ => ?_
  have hchecks : ∀ c ∈ w'.ledger.checks w.ledger.referenced, c.1 ≠ kid :=
    fun c hc heq => hkids (heq ▸ (Ledger.mem_checks.mp hc).1)
  by_cases hall : (w.ledger.referenced.all fun kid => (w'.ledger.checks
      w.ledger.referenced).any fun c => c.1 = kid) = true
  · rw [if_pos hall]
    exact hsome _ hchecks
  · rw [if_neg hall]
    exact hnone

/-- Readiness compares the keys that rows name. -/
theorem ready : InStep H kid key p tid (Service.ready H) (Service.ready H) := by
  refine command rfl fun required => ite (pure _) (referencedHashKeyChecks_bind (pure _) ?_)
  exact fun checks hchecks => keysMatch hchecks

theorem credentialIsAccepted (secret : Json) (role : Str) :
    InStep H kid key p tid (Service.credentialIsAccepted H secret role)
      (Service.credentialIsAccepted H secret role) := by
  unfold Service.credentialIsAccepted
  cases Role.ofText? role with
  | none => exact pure _
  | some role => exact command rfl fun now => bind (authenticate _ _ _) fun record => pure _

/-! ### Verifications -/

/-- A digest under which no row is stored while the key is spare. -/
structure Unmatched (H : HashLib) (kid D : Str) : Prop where
  encodable : D.encodable = true
  missing : ∀ w : World, w.Kept H → kid ∉ w.keyring.keys → w.ledger.proofs.get? D = none

/-- A proof that names the spare key is looked up in vain. -/
theorem unmatched_of_lookup (hH : H.Ideal) {proof D : Str}
    (hproof : Service.proofKid proof = some kid)
    (hlookup : Service.lookupDigest H m proof = .ok D) : Unmatched H kid D := by
  refine ⟨?_, fun w hw hkid => ?_⟩
  · unfold Service.lookupDigest at hlookup
    split at hlookup
    · exact encodable_of_proofDigest hlookup
    · obtain ⟨data, -, rfl⟩ := sha256Hex_eq_ok.mp hlookup
      exact encodable_hexlify _
  · by_contra hfound
    obtain ⟨row, hrow⟩ := Option.ne_none_iff_exists'.mp hfound
    obtain ⟨hmem, hdigest⟩ := Table.get?_eq_some.mp hrow
    obtain ⟨key', bytes, hkey', hkeyed⟩ := hw.keyed.proofs row hmem
    have hnamed : row.hashKid ∈ w.keyring.keys := by
      by_contra habsent
      rw [KeyRing.keyFor_of_notMem habsent] at hkey'
      cases hkey'
    -- the row was digested from this very proof, under its own key id
    obtain rfl := Service.lookupDigest_keyed hH hlookup (hdigest ▸ hkeyed)
    have hbytes : base64url bytes ≠ [] := by
      intro hnil
      rw [Service.proofKid, Service.proofToken, hnil, Service.threeParts_join (by decide)
        (hw.named _ hnamed).undotted List.not_mem_nil] at hproof
      simp at hproof
    rw [Service.proofKid_proofToken (hw.named _ hnamed).undotted (hw.named _ hnamed).prefixed
      hbytes] at hproof
    exact hkid (Option.some.inj hproof ▸ hnamed)

/-- **Two consumptions** of proofs that are not stored do the same. -/
theorem consumeProof_alike {a : ConsumeProof} {D D' : Str} {now : ℤ} {draws : Draws}
    (hD : D.encodable = true) (hD' : D'.encodable = true) (hmissing : db.proofs.get? D = none)
    (hmissing' : db.proofs.get? D' = none) :
    Tx.Alike (Store.consumeProof { a with tokenDigest := D } now draws)
      (Store.consumeProof { a with tokenDigest := D' } now draws) db := by
  unfold Store.consumeProof
  refine Tx.Alike.bind fun _ db₁ h₁ => ?_
  obtain ⟨-, hdb₁⟩ := run_requireOperational_ok.mp h₁
  refine Tx.Alike.bind fun row db₂ h₂ => ?_
  obtain ⟨-, -, hdb₂⟩ := run_select_ok.mp h₂
  cases row with
  | none => exact .refl _ _
  | some row =>
    dsimp only
    split_ifs with hrejected
    · exact .refl _ _
    refine Tx.Alike.bind fun cached db₃ h₃ => ?_
    have hdb₃ : db₃ = db₂ := (run_idempotentResult_ok h₃).1
    cases cached with
    | some cached => exact .refl _ _
    | none =>
      refine Tx.Alike.bind fun _ db₄ h₄ => ?_
      obtain ⟨-, hdb₄⟩ := run_consumeRateSlot_ok h₄
      have hproofs : db₄.proofs = db.proofs := by
        rw [hdb₄, hdb₃, hdb₂, hdb₁]
      -- both lookups find nothing, and what follows does not see the digest
      have hselect : ∀ {D : Str}, D.encodable = true → db.proofs.get? D = none →
          (if [D].all Str.encodable then
            (.ok (db₄.proofs.get? D, db₄) : Except Error (Option ProofRow × Ledger))
          else .error .unicodeEncodeError) = .ok (none, db₄) := by
        intro D hD hmissing
        rw [if_pos (by simp [hD]), hproofs, hmissing]
      refine Tx.Alike.exec_bind ((hselect hD hmissing).trans (hselect hD' hmissing').symm)
        fun row db₅ h₅ => ?_
      obtain ⟨rfl, -⟩ := Prod.mk.inj (Except.ok.inj ((hselect hD hmissing).symm.trans h₅))
      exact .refl _ _

/-- The consumption of a proof that names the spare key. -/
theorem consumeProof {a : ConsumeProof} {D D' : Str} (hD : Unmatched H kid D)
    (hD' : Unmatched H kid D') :
    InStep H kid key p tid (Op.store (.consumeProof { a with tokenDigest := D })).run
      (Op.store (.consumeProof { a with tokenDigest := D' })).run := by
  have hexec : ∀ {i : Choice} {w : World} {a : ConsumeProof},
      (Op.store (.consumeProof a)).exec p tid i w =
        some ((Tx.write .interrupted i.cut (Store.consumeProof a i.now i.draws) w.ledger).1,
          { w with ledger :=
            (Tx.write .interrupted i.cut (Store.consumeProof a i.now i.draws) w.ledger).2 }) :=
    fun {_ _ _} => rfl
  -- the outcome and the new ledger are the same for both digests
  have hnext : ∀ {i : Choice} {w : World} {x : Except Error VerificationResult} {v : World},
      w.Kept H → w.Lacks kid →
      (Op.store (.consumeProof { a with tokenDigest := D })).exec p tid i w = some (x, v) →
        (Op.store (.consumeProof { a with tokenDigest := D' })).exec p tid i
          (w.withKey kid key) = some (x, v.withKey kid key) := by
    intro i w x v hkept hw h
    have halike : Tx.Alike (Store.consumeProof { a with tokenDigest := D } i.now i.draws)
        (Store.consumeProof { a with tokenDigest := D' } i.now i.draws) w.ledger :=
      consumeProof_alike hD.encodable hD'.encodable (hD.missing w hkept hw.keyring)
        (hD'.missing w hkept hw.keyring)
    have hledger : (w.withKey kid key).ledger = w.ledger := rfl
    rw [hexec] at h ⊢
    rw [hledger, ← halike.write]
    obtain ⟨rfl, rfl⟩ := Prod.mk.inj (Option.some.inj h)
    rfl
  refine .act ?_ ?_
  · rintro i w _ x v hkept - ⟨hw, rfl⟩ h
    refine ⟨x, v.withKey kid key, hnext hkept hw h, ?_, rfl⟩
    exact hw.exec (c := .store (.consumeProof { a with tokenDigest := D })) rfl h
  · rintro i w _ x v x' v' hkept - ⟨hw, rfl⟩ h h'
    obtain ⟨rfl, -⟩ := Prod.mk.inj (Option.some.inj (h'.symm.trans (hnext hkept hw h)))
    cases x' with
    | ok result => exact pure result
    | error e => exact raise e

/-- **Verifications**: a proof that names the spare key is invalid either way. -/
theorem verifyProof (hH : H.Ideal) (q : VerifyRequest) :
    InStep H kid key p tid (Service.verifyProof H q) (Service.verifyProof H q) := by
  refine lift_bind fun proof hproof => lift_bind fun subject _ => lift_bind fun purpose _ =>
    lift_bind fun audience _ => lift_bind fun idempotencyKey _ => command rfl fun now =>
    bind (maybeCleanup now) fun _ => bind (authenticate _ _ _) fun credential => ?_
  cases credential with
  | none => exact command rfl fun idBytes => pure _
  | some credential =>
    refine memory_bind fun m hm => ?_
    -- only a proof of the spare key is looked up under another digest
    by_cases hspare : Service.proofKid proof = some kid
    · have hplain : Service.lookupDigest H m proof = sha256Hex H proof := by
        rw [Service.lookupDigest, hspare, Option.bind_some, KeyRing.keyFor_of_notMem hm]
      have hkeyed : Service.lookupDigest H (m.withKey kid key) proof =
          proofDigest H key.val proof := by
        rw [Service.lookupDigest, hspare, Option.bind_some, KeyRing.keyFor_withKey, if_pos rfl]
      rw [hplain, hkeyed]
      cases htext : proof.utf8? with
      | none =>
        have hsha : sha256Hex H proof = .error .unicodeEncodeError := by rw [sha256Hex, htext]
        have hmac : proofDigest H key.val proof = .error .unicodeEncodeError := by
          rw [proofDigest_rootKey, digest, htext]
        rw [hsha, hmac]
        exact raise _
      | some data =>
        obtain ⟨D, hD⟩ : ∃ D, sha256Hex H proof = .ok D := ⟨_, by rw [sha256Hex, htext]⟩
        obtain ⟨D', hD'⟩ : ∃ D', proofDigest H key.val proof = .ok D' :=
          ⟨_, by rw [proofDigest_rootKey, digest, htext]⟩
        rw [hD, hD']
        refine lift_bind fun fingerprint _ => bind (cachedVerification _ _ _ _) fun cached => ?_
        cases cached with
        | some cached => exact pure _
        | none =>
          -- neither digest is in the ledger, so both attempts are refused alike
          exact consumeProof (a := ⟨credential.credentialId, credential.clientId, D, subject,
              purpose, audience, fingerprint, idempotencyKey⟩)
            (unmatched_of_lookup hH hspare (hplain.trans hD))
            (unmatched_of_lookup hH hspare (hkeyed.trans hD'))
    · have hsame : Service.lookupDigest H (m.withKey kid key) proof =
          Service.lookupDigest H m proof := by
        have hkeys : (Service.proofKid proof).bind (m.withKey kid key).keyFor =
            (Service.proofKid proof).bind m.keyFor := by
          cases hkid : Service.proofKid proof with
          | none => rfl
          | some kid' =>
            refine KeyRing.keyFor_withKey_of_ne fun heq => hspare ?_
            rw [hkid, heq]
        rw [Service.lookupDigest, Service.lookupDigest, hkeys]
      rw [hsame]
      refine lift_bind fun D _ => lift_bind fun fingerprint _ =>
        bind (cachedVerification _ _ _ _) fun cached => ?_
      cases cached with
      | some cached => exact pure _
      | none => exact last rfl

/-! ### Requests -/

theorem map (g : α → β) (h : InStep H kid key p tid prog prog') :
    InStep H kid key p tid (g <$> prog) (g <$> prog') :=
  bind h fun _ => pure _

theorem withInstanceLock (h : InStep H kid key p tid prog prog') :
    InStep H kid key p tid (Onceproof.withInstanceLock prog) (Onceproof.withInstanceLock prog') :=
  command rfl fun _ => ite (ensure_release _ h) (raise _)

theorem cleanup (now : Json) : InStep H kid key p tid (Service.cleanup now)
    (Service.cleanup now) := by
  unfold Service.cleanup
  cases now with
  | null => exact command rfl fun now => last rfl
  | int now => exact last rfl
  | _ => exact raise _

theorem revokeClient (clientId : Json) :
    InStep H kid key p tid (Service.revokeClient clientId) (Service.revokeClient clientId) :=
  lift_bind fun _ _ => command rfl fun _ => last rfl

theorem activateRestoredBackup : InStep H kid key p tid Service.activateRestoredBackup
    Service.activateRestoredBackup :=
  command rfl fun _ => last rfl

theorem serveProgram :
    InStep H kid key p tid (Command.serveProgram H) (Command.serveProgram H) :=
  command rfl fun _ => ite (bind construct fun _ => bind ready fun _ => ite (last rfl) (raise _))
    (raise _)

end InStep

/-- A request that is not about the key: it does not retire it, and does not back the keyring
up. -/
def Request.Ignores (kid : Str) : Request → Prop
  | .command (.keyRetire kid') => kid' ≠ kid
  | .command .dbBackup => False
  | .api (.retireHashKey kid') => kid' ≠ kid
  | _ => True

/-- **Requests and a spare key**: the commands are issued in step, and the outcome is the same. -/
theorem request_inStep (hH : H.Ideal) {r : Request} (hr : r.Ignores kid) :
    InStep H kid key p tid (r.program H) (r.program H) := by
  cases r with
  | command c =>
    cases c with
    | serve => exact .map _ .serveProgram
    | clientCreate q => exact .bind .construct fun _ => .map _ (.createClient q)
    | clientRotate q => exact .bind .construct fun _ => .map _ (.rotateCredential q)
    | clientRevoke clientId => exact .bind .construct fun _ => .map _ (.revokeClient clientId)
    | cleanup => exact .bind .construct fun _ => .map _ (.cleanup .null)
    | keyRotate => exact .withInstanceLock (.bind .reload fun _ => .map _ .rotate)
    | keyRetire kid' =>
      exact .withInstanceLock (.bind .construct fun _ => .map _ (.retireHashKey hr))
    | dbBackup => exact hr.elim
    | dbActivateRestore =>
      exact .withInstanceLock (.bind .construct fun _ => .map _ .activateRestoredBackup)
  | api c =>
    cases c with
    | createClient q => exact .map _ (.createClient q)
    | issueProof q => exact .map _ (.issueProof q)
    | verifyProof q => exact .map _ (.verifyProof hH q)
    | rotateCredential q => exact .map _ (.rotateCredential q)
    | revokeClient clientId => exact .map _ (.revokeClient clientId)
    | cleanup now => exact .map _ (.cleanup now)
    | activateRestoredBackup => exact .map _ .activateRestoredBackup
    | retireHashKey kid' => exact .map _ (.retireHashKey hr)
    | rotateKey => exact .map _ .rotate
    | credentialIsAccepted secret role => exact .map _ (.credentialIsAccepted secret role)
    | ready => exact .map _ .ready

/-! ### Runs -/

/-- **The machine of an instance** does not notice a spare key. -/
theorem spare_couples (hH : H.Ideal) : (system H).Couples (World.Kept H) (NotRedrawn kid)
    (World.Spares kid key) (fun _ => Eq) (Request.Ignores kid) where
  accept := by
    rintro p r w _ v ⟨hw, rfl⟩ haccept
    have hnone : ((w.withKey kid key).procs p).isNone = (w.procs p).isNone := Option.isNone_map
    have hserving : ((w.withKey kid key).procs p).any Proc.serving = (w.procs p).any Proc.serving :=
      (Option.any_map ..)
    cases r with
    | command c =>
      simp only [system, Request.accept] at haccept ⊢
      rw [hnone]
      split_ifs at haccept ⊢ with hfree
      obtain rfl := Option.some.inj haccept
      refine ⟨_, rfl, ⟨hw.keyring, fun p' m hm => ?_⟩, ?_⟩
      · rw [World.memoryOf] at hm
        by_cases hp : p' = p
        -- a new process has no keyring yet
        · subst hp
          simp [Proc.fresh] at hm
        · simp only [Function.update_of_ne hp] at hm
          exact hw.memory p' m hm
      · have hprocs : Function.update (w.withKey kid key).procs p (some Proc.fresh) = _ :=
          World.update_withKey (some Proc.fresh)
        rw [hprocs]
        rfl
    | api c =>
      simp only [system, Request.accept] at haccept ⊢
      rw [hserving]
      split_ifs at haccept ⊢ with hserved
      obtain rfl := Option.some.inj haccept
      exact ⟨_, rfl, hw, rfl⟩
  stop := by
    rintro p w _ ⟨hw, rfl⟩
    refine ⟨⟨hw.keyring, fun p' m hm => ?_⟩, ?_⟩
    · simp only [system, World.stop, World.memoryOf] at hm
      by_cases hp : p' = p
      · subst hp
        simp at hm
      · rw [Function.update_of_ne hp] at hm
        exact hw.memory p' m hm
    · have hprocs : Function.update (w.withKey kid key).procs p none = _ :=
        World.update_withKey none
      simp only [system, World.stop]
      rw [hprocs]
      rfl
  program hr := request_inStep hH hr

end Onceproof

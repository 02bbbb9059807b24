import Onceproof.Keys.Knowledge

/-!
# The programs keep the discipline of the locks

Every program issues its commands as `Allowed` says and frees the locks that it takes, a
server's instance lock excepted. `program_allowed` collects this for all requests, with what
a `db backup` returns: a copy of the ledger and a generation known when the copy was made.
-/

namespace Onceproof

variable {H : HashLib} {r : Request} {h : Hist} {L : List LockName} {α : Type}

/-- The commands that are allowed for what the thread knows. -/
abbrev Rules (H : HashLib) (r : Request) (h : Hist) (c : Op) : Prop := Allowed H r (known h) c

theorem Op.Idle.keeps {c : Op} (hc : c.Idle) : c.Keeps := by
  cases c <;> trivial

/-- A command that writes nothing needs no permission. -/
theorem Op.Idle.allowed {c : Op} (hc : c.Idle) (k : Knowledge) : Allowed H r k c := by
  cases c <;> trivial

/-- An idle program keeps what is known. -/
theorem Prog.Spec.keeps {p : HostProg α} {Ψ : Hist → Except Error α → Prop}
    (hp : p.Spec (fun _ c => c.Idle) Ψ h) :
    p.Spec (Rules H r) (fun h' x => (known h).Keeps (known h') ∧ Ψ h' x) h := by
  refine (hp.keep (J := fun h' => (known h).Keeps (known h')) (fun h' c a hkeeps hc => ?_)
    (.refl _)).mono (fun h' c hc => hc.2.allowed (known h')) fun _ _ => id
  rw [known_snoc]
  exact hkeeps.trans ((known h').keeps_next hc.keeps a)

/-! ### Locks -/

section Locks

variable {l : LockName} {p : HostProg α} {Ψ : Hist → Except Error α → Prop}

/-- The lock is freed however the program ends. -/
theorem ensureRelease_known (hl : l = .instanceLock → r ≠ .command .serve) (hΨ : Lasting Ψ)
    (hp : p.Spec (Rules H r) (fun h x => (known h).held = l :: L ∧ Ψ h x) h) :
    (p.ensure (Op.release l).run).Spec (Rules H r) (fun h x => (known h).held = L ∧ Ψ h x) h := by
  refine Prog.Spec.ensure (hp.mono (fun _ _ => id) ?_)
  rintro h' x ⟨hheld, hx⟩
  have hfreed : ∀ a, (known (h' ++ [⟨.release l, a⟩])).held = L := by
    intro a
    simp [Knowledge.forget, hheld]
  refine Prog.spec_perform.mpr ⟨⟨by simp [hheld], hl⟩, fun _ => ⟨hfreed _, hΨ.snoc _ hx⟩, ?_⟩
  exact fun e => ⟨hfreed _, hΨ.failed (Hist.failed_snoc _ _ _)⟩

/-- A program under a lock ends with the locks it began with. -/
theorem withLock_known (hl : l ≠ .instanceLock) (hΨ : Lasting Ψ) (hheld : (known h).held = L)
    (hp : ∀ h', (known h').held = l :: L →
      p.Spec (Rules H r) (fun h x => (known h).held = l :: L ∧ Ψ h x) h') :
    (withLock l p).Spec (Rules H r) (fun h x => (known h).held = L ∧ Ψ h x) h := by
  refine Prog.spec_perform_bind.mpr ⟨hl, fun _ => ?_, fun e => ?_⟩
  · refine ensureRelease_known (fun heq => absurd heq hl) hΨ (hp _ ?_)
    simp [Knowledge.forget, hheld]
  · exact ⟨by simp [hheld], hΨ.failed (Hist.failed_snoc _ _ _)⟩

/-- Under `KeyRing.stable` the file and the memory of the process agree. -/
theorem stable_known (hΨ : Lasting Ψ) (hraise : ∀ h e, Ψ h (.error e)) (hheld : (known h).held = L)
    (hp : ∀ h', (known h').held = .keyringFile :: L → (known h').Agreed →
      p.Spec (Rules H r) (fun h x => (known h).held = .keyringFile :: L ∧ Ψ h x) h') :
    (KeyRing.stable p).Spec (Rules H r) (fun h x => (known h).held = L ∧ Ψ h x) h := by
  refine withLock_known (by decide) hΨ hheld fun h' hheld' => ?_
  refine Prog.spec_perform_bind.mpr ⟨trivial, fun disk => ?_, fun e => ?_⟩
  · refine Prog.spec_perform_bind.mpr ⟨trivial, fun memory => ?_, fun e => ?_⟩
    · refine Prog.spec_ite.mpr ⟨fun _ => ⟨by simp [hheld'], hraise _ _⟩,
        fun hsame => ?_⟩
      have hsame : disk = memory := not_not.mp hsame
      refine hp _ (by simp [hheld']) ⟨by simp [hheld'], disk, ?_⟩
      simp [hsame]
    · exact ⟨by simp [hheld'], hraise _ _⟩
  · exact ⟨by simp [hheld'], hraise _ _⟩

end Locks

/-- A program that ends holding the locks `L`. -/
abbrev Holding (L : List LockName) (h : Hist) (_ : Except Error α) : Prop := (known h).held = L

@[simp]
theorem holding_def {x : Except Error α} : Holding L h x ↔ (known h).held = L := Iff.rfl

theorem holding_iff {p : HostProg α} :
    p.Spec (Rules H r) (fun h _ => (known h).held = L ∧ True) h ↔
      p.Spec (Rules H r) (Holding L) h := by
  simp only [and_true]

/-- The opportunistic cleanup tries its lock and frees it. -/
theorem maybeCleanup_known (now : ℤ) (hheld : (known h).held = L) :
    (Service.maybeCleanup now).Spec (Rules H r) (Holding L) h := by
  refine Prog.spec_perform_bind.mpr ⟨trivial, fun t => ?_, fun e => ?_⟩
  · refine Prog.spec_ite.mpr ⟨fun _ => by simpa using hheld, fun _ => ?_⟩
    refine Prog.spec_perform_bind.mpr ⟨fun hl => (by cases hl), fun b => ?_, fun e => ?_⟩
    · cases b with
      | false => simpa using hheld
      | true =>
        refine holding_iff.mp (ensureRelease_known (fun hl => by cases hl) trivial_lasting ?_)
        refine Prog.spec_perform_bind.mpr ⟨trivial, fun t' => ?_, fun e => ?_⟩
        · refine Prog.spec_ite.mpr ⟨fun _ => ?_, fun _ => ?_⟩
          · refine Prog.spec_perform_bind.mpr ⟨trivial, fun _ => ?_, fun e => ?_⟩
            · refine (Prog.spec_perform (c := Op.setNextCleanupAt _)).mpr
                ⟨trivial, fun _ => ?_, fun e => ?_⟩ <;>
              simp [Knowledge.forget, hheld]
            · simp [Knowledge.forget, hheld]
          · simp [Knowledge.forget, hheld]
        · simp [Knowledge.forget, hheld]
    · simpa using hheld
  · simpa using hheld

/-! ### The keyring -/

/-- A reload sets what it has read. -/
theorem reload_known (hheld : (known h).held = L)
    (hset : .keyringFile ∈ L ∨ ¬ r.IsApi ∧ (known h).started = false) :
    KeyRing.reload.Spec (Rules H r) (fun h' x => (known h').held = L ∧
      (known h').started = (known h).started ∧
        ∀ u, x = .ok u → ∃ m, (known h').read = some m ∧ m ∈ (known h').memories) h := by
  refine Prog.spec_perform_bind.mpr ⟨trivial, fun disk => ?_, fun e => ?_⟩
  · refine (Prog.spec_perform (c := Op.setMemory disk)).mpr ⟨⟨?_, ?_⟩, fun _ => ?_, fun e => ?_⟩
    · simp
    · simpa [hheld] using hset
    · refine ⟨by simp [hheld], by simp, fun _ _ => ⟨disk, ?_⟩⟩
      simp
    · exact ⟨by simp [hheld], by simp, fun _ hx => by cases hx⟩
  · exact ⟨by simp [hheld], by simp, fun _ hx => by cases hx⟩

/-- The keyring file is replaced under its lock, by a thread that has compared it with the memory.
-/
theorem replaceAndReload_known {k : KeyRing} (hheld : (known h).held = .keyringFile :: L)
    (hk : (known h).Agreed ∧ r.Replaces (known h) k) :
    (KeyRing.replaceAndReload k).Spec (Rules H r) (Holding (.keyringFile :: L)) h := by
  have hreload : ∀ a : (Op.replaceKeyring k).Ans,
      (Prog.raiseAs .keyringCommitUncertain KeyRing.reload).Spec (Rules H r)
        (Holding (.keyringFile :: L)) (h ++ [⟨.replaceKeyring k, a⟩]) := by
    intro a
    refine Prog.Spec.raiseAs ((reload_known (L := .keyringFile :: L)
      (by simp [Knowledge.forget, hheld]) (Or.inl List.mem_cons_self)).mono
        (fun _ _ => id) ?_)
    rintro h' (e | _) hknown <;> exact hknown.1
  refine ⟨hk, fun a => ?_⟩
  cases a with
  | ok _ => exact hreload _
  | error e =>
    refine Prog.Spec.bind ((hreload _).mono (fun _ _ => id) ?_)
    rintro h' (e' | _) hheld' <;> exact hheld'

/-- A rotation draws a key id that is not in use. -/
theorem rotate_known (hheld : (known h).held = L)
    (hr : r.IsApi ∨ .instanceLock ∈ L ∧ r ≠ .command .serve) :
    KeyRing.rotate.Spec (Rules H r) (Holding L) h := by
  refine holding_iff.mp (stable_known trivial_lasting (fun _ _ => trivial) hheld ?_)
  intro h' hheld' hagreed
  refine Prog.spec_perform_bind.mpr ⟨trivial, fun m => ?_, fun e => ?_⟩
  · refine Prog.spec_perform_bind.mpr ⟨trivial, fun kid => ?_, fun e => ?_⟩
    · refine Prog.spec_perform_bind.mpr ⟨trivial, fun key => ?_, fun e => ?_⟩
      · refine Prog.Spec.bind ((replaceAndReload_known (L := L) ?_ ⟨?_, ?_⟩).mono
          (fun _ _ => id) ?_)
        · simp [hheld']
        · simp only [known_snoc]
          refine Knowledge.Keeps.agreed ?_ hagreed
          exact ((Knowledge.keeps_next _ (c := .memory) trivial _).trans
            (Knowledge.keeps_next _ (c := .newKid _) trivial _)).trans
              (Knowledge.keeps_next _ (c := .newRootKey) trivial _)
        · refine .rotated key ?_ ?_ (hr.imp_right fun hr => ⟨?_, hr.2⟩)
          · simp
          · simp
          · simp [hheld', hr.1]
        · rintro h'' (e | _) hheld'' <;> exact ⟨hheld'', trivial⟩
      · simp [hheld']
    · simp [hheld']
  · simp [hheld']

/-- A retirement has counted the rows of the key, under the key lock or alone. -/
theorem retireHashKey_known (kid : Str) (hheld : (known h).held = L)
    (hr : r.IsApi ∨ .instanceLock ∈ L ∧ r ≠ .command .serve) :
    (Service.retireHashKey kid).Spec (Rules H r) (Holding L) h := by
  refine holding_iff.mp (withLock_known (by decide) trivial_lasting hheld ?_)
  intro h₁ hheld₁
  refine stable_known trivial_lasting (fun _ _ => trivial) hheld₁ fun h₂ hheld₂ hagreed => ?_
  refine Prog.spec_perform_bind.mpr ⟨trivial, fun m => ?_, fun e => ?_⟩
  · split_ifs with hcurrent hknown
    · simp [hheld₂]
    · simp [hheld₂]
    · simp only [Service.hashKeyIsInUse, Prog.bind_assoc]
      refine Prog.spec_perform_bind.mpr ⟨trivial, fun credential => ?_, fun e => ?_⟩
      · refine Prog.spec_perform_bind.mpr ⟨trivial, fun proof => ?_, fun e => ?_⟩
        · rw [Prog.pure_def, Prog.ret_bind]
          refine Prog.spec_ite.mpr ⟨fun _ => ?_, fun hunused => ?_⟩
          · cases credential <;> cases proof <;> simp [hheld₂]
          · -- neither table uses the key
            obtain ⟨rfl, rfl⟩ : credential = false ∧ proof = false := by simpa using hunused
            refine (replaceAndReload_known (L := .keyLock :: L) ?_ ⟨?_, ?_⟩).mono
              (fun _ _ => id) fun _ _ hx => ⟨hx, trivial⟩
            · simp [hheld₂]
            · simp only [known_snoc]
              refine Knowledge.Keeps.agreed ?_ hagreed
              exact ((Knowledge.keeps_next _ (c := .memory) trivial _).trans
                (Knowledge.keeps_next _ (c := .credentialUses _) trivial _)).trans
                  (Knowledge.keeps_next _ (c := .proofUses _) trivial _)
            · refine .retired hcurrent ?_ ?_ ?_ (hr.imp (fun hr => ⟨hr, ?_⟩)
                fun hr => ⟨?_, hr.2⟩)
              · simp
              · simp
              · simp
              · simp [hheld₂]
              · simp [hheld₂, hr.1]
        · cases credential <;> simp [hheld₂]
      · simp [hheld₂]
  · simp [hheld₂]

/-- What a thread knows and returns when it made a backup. -/
def BackedUp (h : Hist) (x : Except Error (Ledger × KeyRing)) : Prop :=
  ∀ y, x = .ok y → y ∈ (known h).backups

/-- A backup is never forgotten. -/
theorem Knowledge.backups_next (k : Knowledge) (y : Answered Op Op.Ans) :
    k.backups ⊆ (k.next y).backups := by
  obtain ⟨c, a⟩ := y
  cases c with
  | acquire | tokenBytes | readKeyring | memory | setMemory | newKid | startServing =>
    cases a <;> exact List.Subset.refl _
  | tryAcquire | credentialUses | proofUses =>
    rcases a with e | (_ | _) <;> exact List.Subset.refl _
  | backup =>
    cases a with
    | error e => exact List.Subset.refl _
    | ok db => exact List.subset_append_right _ _
  | _ => exact List.Subset.refl _

theorem backedUp_lasting : Lasting BackedUp where
  snoc y hx z hz := by
    rw [known_snoc]
    exact Knowledge.backups_next _ y (hx z hz)
  failed _ _ hz := by cases hz

/-- A backup copies the ledger and the keyring under the file lock. -/
theorem backupWith_known (hheld : (known h).held = L) :
    KeyRing.backupWith.Spec (Rules H r) (fun h x => (known h).held = L ∧ BackedUp h x) h := by
  have hraise : ∀ h e, BackedUp h (.error e) := fun _ _ _ hz => by cases hz
  refine stable_known backedUp_lasting hraise hheld fun h' hheld' hagreed => ?_
  refine Prog.spec_perform_bind.mpr ⟨trivial, fun m => ?_, fun e => ?_⟩
  · refine Prog.spec_perform_bind.mpr ⟨?_, fun db => ⟨?_, fun z hz => ?_⟩, fun e => ?_⟩
    · rw [Rules, known_snoc]
      exact (Knowledge.keeps_next _ (c := .memory) trivial _).agreed hagreed
    · simp [hheld']
    · obtain rfl := Except.ok.inj hz
      simp
    · exact ⟨by simp [hheld'], hraise _ _⟩
  · exact ⟨by simp [hheld'], hraise _ _⟩

/-! ### Clients and credentials -/

/-- A new credential is hashed under the current key of the memory. -/
theorem newCredential_known (role : Role) (clientId : Str) :
    (Service.newCredential H role clientId).Spec (Rules H r) (fun h' x =>
      (known h).Keeps (known h') ∧ ∀ c secret, x = .ok (c, secret) →
        ∃ m ∈ (known h').memories, c.Minted H m.currentKey (known h').tokens) h := by
  refine Prog.Spec.keeps ?_
  refine Prog.spec_perform_bind.mpr ⟨trivial, fun idBytes => ?_, fun _ _ _ hx => by cases hx⟩
  refine Prog.spec_perform_bind.mpr ⟨trivial, fun bytes => ?_, fun _ _ _ hx => by cases hx⟩
  refine Prog.spec_perform_bind.mpr ⟨trivial, fun m => ?_, fun _ _ _ hx => by cases hx⟩
  refine Prog.spec_lift_bind.mpr ⟨fun digest hdigest => ?_, fun _ _ _ _ hx => by cases hx⟩
  rintro c secret hx
  obtain ⟨rfl, -⟩ := Prod.mk.inj (Except.ok.inj hx)
  refine ⟨m, by simp, rfl, idBytes, bytes, ?_, ?_, rfl, hdigest⟩ <;>
    simp

theorem Knowledge.Keeps.holding {k k' : Knowledge} (h : k.Keeps k') (hheld : k.held = L) :
    k'.held = L := h.held.trans hheld

/-- Both credentials of a client are digested with the current key, under both locks. -/
theorem createClient_known (q : CreateClientRequest) (hheld : (known h).held = L) :
    (Service.createClient H q).Spec (Rules H r) (Holding L) h := by
  refine Prog.spec_lift_bind.mpr ⟨fun name _ => ?_, fun _ _ => hheld⟩
  refine Prog.spec_ite.mpr ⟨fun _ => hheld, fun _ => ?_⟩
  refine Prog.spec_lift_bind.mpr ⟨fun audiences _ => ?_, fun _ _ => hheld⟩
  refine Prog.spec_lift_bind.mpr ⟨fun ttl _ => ?_, fun _ _ => hheld⟩
  refine Prog.spec_lift_bind.mpr ⟨fun issueLimit _ => ?_, fun _ _ => hheld⟩
  refine Prog.spec_lift_bind.mpr ⟨fun verifyLimit _ => ?_, fun _ _ => hheld⟩
  refine holding_iff.mp (withLock_known (by decide) trivial_lasting hheld fun h₁ hheld₁ => ?_)
  refine stable_known trivial_lasting (fun _ _ => trivial) hheld₁ fun h₂ hheld₂ hagreed => ?_
  refine holding_iff.mpr (Prog.spec_perform_bind.mpr ⟨trivial, fun idBytes => ?_, fun e => ?_⟩)
  · refine Prog.Spec.bind ((newCredential_known _ _).mono (fun _ _ => id) ?_)
    rintro h₃ x ⟨hkeeps₃, hissuance⟩
    replace hkeeps₃ : (known h₂).Keeps (known h₃) := by
      rw [known_snoc] at hkeeps₃
      exact (Knowledge.keeps_next _ (c := .tokenBytes 12) trivial _).trans hkeeps₃
    obtain e | ⟨issuance, secret₁⟩ := x
    · exact hkeeps₃.holding hheld₂
    refine Prog.Spec.bind ((newCredential_known _ _).mono (fun _ _ => id) ?_)
    rintro h₄ x ⟨hkeeps₄, hverification⟩
    obtain e | ⟨verification, secret₂⟩ := x
    · exact (hkeeps₃.trans hkeeps₄).holding hheld₂
    obtain ⟨m, hm, hminted⟩ := hissuance _ _ rfl
    obtain ⟨m₂, hm₂, hminted₂⟩ := hverification _ _ rfl
    have hstore : ∀ h₅, (known h₄).Keeps (known h₅) → Prog.Spec (Rules H r)
        (Holding (.keyringFile :: .keyLock :: L)) (do
          let memory : KeyRing ← Op.memory.run
          let check ← Prog.lift (keyCheck H memory.currentKey.2.val)
          let now : ℤ ← Op.clock.run
          (Op.store (.createClient
            { clientId := lit "opc_" ++ hexlify idBytes
              name
              allowedAudiences := audiences.eraseDups
              proofTtlSeconds := ttl
              issueLimitPerMinute := issueLimit
              verifyLimitPerMinute := verifyLimit
              issuanceCredential := issuance
              verificationCredential := verification
              hashKeyCheck := check
              now })).run
          pure
            { clientId := lit "opc_" ++ hexlify idBytes
              issuanceCredentialId := issuance.credentialId
              issuanceSecret := secret₁
              verificationCredentialId := verification.credentialId
              verificationSecret := secret₂ : ClientCredentials }) h₅ := by
      intro h₅ hkeeps₅
      have hkeeps : (known h₂).Keeps (known h₅) := (hkeeps₃.trans hkeeps₄).trans hkeeps₅
      have hheld₅ := hkeeps.holding hheld₂
      refine Prog.spec_perform_bind.mpr ⟨trivial, fun m' => ?_, fun e => ?_⟩
      · refine Prog.spec_lift_bind.mpr ⟨fun check hcheck => ?_, fun _ _ => ?_⟩
        · refine Prog.spec_perform_bind.mpr ⟨trivial, fun now => ?_, fun e => ?_⟩
          · refine Prog.spec_perform_bind.mpr ⟨?_, fun _ => ?_, fun e => ?_⟩
            · have hagreed₅ := hkeeps.agreed hagreed
              have hm₅ := hkeeps₅.memories (hkeeps₄.memories hm)
              have htokens := List.Subset.trans hkeeps₄.tokens hkeeps₅.tokens
              simp only [known_append, List.foldl_cons, List.foldl_nil, Rules]
              refine ⟨?_, ⟨m, ?_, hminted.mono htokens⟩, ⟨m₂, ?_, hminted₂.mono hkeeps₅.tokens⟩,
                m', ?_, hcheck⟩
              · obtain ⟨hfile, d, hread, hd⟩ := hagreed₅
                exact ⟨hfile, d, hread, List.mem_cons_of_mem _ hd⟩
              · exact List.mem_cons_of_mem _ hm₅
              · exact List.mem_cons_of_mem _ (hkeeps₅.memories hm₂)
              · exact List.mem_cons_self
            · simp [hheld₅]
            · simp [hheld₅]
          · simp [hheld₅]
        · simp [hheld₅]
      · simp [hheld₅]
    refine Prog.spec_ite.mpr ⟨fun _ => ?_, fun _ => hstore _ (.refl _)⟩
    refine Prog.spec_perform_bind.mpr ⟨trivial, fun _ => hstore _ ?_, fun e => ?_⟩
    · rw [known_snoc]
      exact Knowledge.keeps_next _ (c := .deliver _) trivial _
    · rw [holding_def, known_snoc]
      exact ((hkeeps₃.trans hkeeps₄).trans
        (Knowledge.keeps_next _ (c := .deliver _) trivial _)).holding hheld₂
  · simp [hheld₂]

/-- So is the credential that replaces another. -/
theorem rotateCredential_known (q : RotateRequest) (hheld : (known h).held = L) :
    (Service.rotateCredential H q).Spec (Rules H r) (Holding L) h := by
  unfold Service.rotateCredential
  cases hrole : Role.ofText? q.role with
  | none => exact hheld
  | some role =>
    refine Prog.spec_lift_bind.mpr ⟨fun grace _ => ?_, fun _ _ => hheld⟩
    refine Prog.spec_lift_bind.mpr ⟨fun clientId _ => ?_, fun _ _ => hheld⟩
    refine Prog.spec_perform_bind.mpr ⟨trivial, fun now => ?_, fun e => ?_⟩
    · have hclock : (known (h ++ [⟨.clock, .ok now⟩])).held = L := by
        simp [hheld]
      refine holding_iff.mp (withLock_known (by decide) trivial_lasting hclock
        fun h₁ hheld₁ => ?_)
      refine stable_known trivial_lasting (fun _ _ => trivial) hheld₁
        fun h₂ hheld₂ hagreed => holding_iff.mpr ?_
      refine Prog.Spec.bind ((newCredential_known _ _).mono (fun _ _ => id) ?_)
      rintro h₃ (e | ⟨replacement, secret⟩) ⟨hkeeps₃, hreplacement⟩
      · exact hkeeps₃.holding hheld₂
      obtain ⟨m, hm, hminted⟩ := hreplacement _ _ rfl
      have hstore : ∀ h₄, (known h₃).Keeps (known h₄) → Prog.Spec (Rules H r)
          (Holding (.keyringFile :: .keyLock :: L)) (do
            let memory : KeyRing ← Op.memory.run
            let check ← Prog.lift (keyCheck H memory.currentKey.2.val)
            let reply : Str × ℤ ← (Op.store (.rotateCredential
              { clientId, role, replacement, hashKeyCheck := check, graceSeconds := grace,
                now })).run
            pure
              { clientId
                credentialId := replacement.credentialId
                role := q.role
                secret
                previousCredentialId := reply.1
                previousValidUntil := reply.2 : RotatedCredential }) h₄ := by
        intro h₄ hkeeps₄
        have hkeeps : (known h₂).Keeps (known h₄) := hkeeps₃.trans hkeeps₄
        have hheld₄ := hkeeps.holding hheld₂
        refine Prog.spec_perform_bind.mpr ⟨trivial, fun m' => ?_, fun e => ?_⟩
        · refine Prog.spec_lift_bind.mpr ⟨fun check hcheck => ?_, fun _ _ => ?_⟩
          · refine Prog.spec_perform_bind.mpr ⟨?_, fun _ => ?_, fun e => ?_⟩
            · obtain ⟨hfile, d, hread, hd⟩ := hkeeps.agreed hagreed
              simp only [known_append, List.foldl_cons, List.foldl_nil, Rules]
              refine ⟨⟨hfile, d, hread, List.mem_cons_of_mem _ hd⟩,
                ⟨m, ?_, hminted.mono hkeeps₄.tokens⟩, m', ?_, hcheck⟩
              · exact List.mem_cons_of_mem _ (hkeeps₄.memories hm)
              · exact List.mem_cons_self
            · simp [hheld₄]
            · simp [hheld₄]
          · simp [hheld₄]
        · simp [hheld₄]
      refine Prog.spec_ite.mpr ⟨fun _ => ?_, fun _ => hstore _ (.refl _)⟩
      refine Prog.spec_perform_bind.mpr ⟨trivial, fun _ => hstore _ ?_, fun e => ?_⟩
      · rw [known_snoc]
        exact Knowledge.keeps_next _ (c := .deliver _) trivial _
      · rw [holding_def, known_snoc]
        exact (hkeeps₃.trans (Knowledge.keeps_next _ (c := .deliver _) trivial _)).holding hheld₂
    · simp [hheld]

/-! ### Proofs -/

/-- A proof is digested with the current key, under the key lock. -/
theorem issueProof_known (q : IssueRequest) (hr : r.IsApi) (hheld : (known h).held = L) :
    (Service.issueProof H q).Spec (Rules H r) (Holding L) h := by
  refine Prog.spec_lift_bind.mpr ⟨fun subject _ => ?_, fun _ _ => hheld⟩
  refine Prog.spec_lift_bind.mpr ⟨fun purpose _ => ?_, fun _ _ => hheld⟩
  refine Prog.spec_lift_bind.mpr ⟨fun audience _ => ?_, fun _ _ => hheld⟩
  refine Prog.spec_perform_bind.mpr ⟨trivial, fun now => ?_, fun e => ?_⟩
  · have hclock : (known (h ++ [⟨.clock, .ok now⟩])).held = L := by
      simp [hheld]
    refine Prog.Spec.bind ((maybeCleanup_known now hclock).mono (fun _ _ => id) ?_)
    rintro h₁ (e | _) hheld₁
    · exact hheld₁
    refine holding_iff.mp (withLock_known (by decide) trivial_lasting hheld₁ fun h₂ hheld₂ => ?_)
    refine holding_iff.mpr (Prog.Spec.bind ((((authenticate_spec _ _ _ _).mono
      (fun _ _ => AuthCommand.idle) fun _ _ => id).keeps).mono (fun _ _ => id) ?_))
    rintro h₃ x ⟨hkeeps, -⟩
    have hheld₃ := hkeeps.holding hheld₂
    obtain e | credential := x
    · exact hheld₃
    cases credential with
    | none => exact hheld₃
    | some credential =>
      refine Prog.spec_perform_bind.mpr ⟨trivial, fun client => ?_, fun e => ?_⟩
      · cases client with
        | none => simp [hheld₃]
        | some client =>
          refine Prog.spec_lift_bind.mpr ⟨fun client' _ => ?_, fun _ _ => ?_⟩
          · refine Prog.spec_ite.mpr ⟨fun _ => by simp [hheld₃], fun _ => ?_⟩
            refine Prog.spec_ite.mpr ⟨fun _ => by simp [hheld₃], fun _ => ?_⟩
            refine Prog.spec_lift_bind.mpr ⟨fun ttl _ => ?_, fun _ _ => ?_⟩
            · refine Prog.spec_perform_bind.mpr ⟨trivial, fun m => ?_, fun e => ?_⟩
              · refine Prog.spec_perform_bind.mpr ⟨trivial, fun bytes => ?_, fun e => ?_⟩
                · refine Prog.spec_lift_bind.mpr ⟨fun digest hdigest => ?_, fun _ _ => ?_⟩
                  · refine Prog.spec_lift_bind.mpr ⟨fun check hcheck => ?_, fun _ _ => ?_⟩
                    · refine Prog.spec_perform_bind.mpr ⟨⟨hr, ?_, m, ?_, bytes, rfl, hcheck,
                        hdigest⟩, fun committed => ?_, fun e => ?_⟩
                      · simp [hheld₃]
                      · simp
                      · simp [hheld₃]
                      · simp [hheld₃]
                    · simp [hheld₃]
                  · simp [hheld₃]
                · simp [hheld₃]
              · simp [hheld₃]
            · simp [hheld₃]
          · simp [hheld₃]
      · simp [hheld₃]
  · simp [hheld]

/-- A cached read touches nothing that is known. -/
theorem CachedCommand.keeps {credentialId clientId : Str} {key : Option Str} {c : Op}
    (hc : CachedCommand h credentialId clientId key c) (k : Knowledge) (a : c.Ans) :
    Allowed H r k c ∧ k.Keeps (k.next ⟨c, a⟩) := by
  cases hc <;> exact ⟨trivial, Knowledge.keeps_next _ (by trivial) _⟩

/-- A verification looks its key up and stores nothing under it. -/
theorem verifyProof_known (q : VerifyRequest) (hheld : (known h).held = L) :
    (Service.verifyProof H q).Spec (Rules H r) (Holding L) h := by
  refine Prog.spec_lift_bind.mpr ⟨fun proof _ => ?_, fun _ _ => hheld⟩
  refine Prog.spec_lift_bind.mpr ⟨fun subject _ => ?_, fun _ _ => hheld⟩
  refine Prog.spec_lift_bind.mpr ⟨fun purpose _ => ?_, fun _ _ => hheld⟩
  refine Prog.spec_lift_bind.mpr ⟨fun audience _ => ?_, fun _ _ => hheld⟩
  refine Prog.spec_lift_bind.mpr ⟨fun key _ => ?_, fun _ _ => hheld⟩
  refine Prog.spec_perform_bind.mpr ⟨trivial, fun now => ?_, fun e => ?_⟩
  · have hclock : (known (h ++ [⟨.clock, .ok now⟩])).held = L := by
      simp [hheld]
    refine Prog.Spec.bind ((maybeCleanup_known now hclock).mono (fun _ _ => id) ?_)
    rintro h₁ (e | _) hheld₁
    · exact hheld₁
    refine Prog.Spec.bind ((((authenticate_spec _ _ _ _).mono
      (fun _ _ => AuthCommand.idle) fun _ _ => id).keeps).mono (fun _ _ => id) ?_)
    rintro h₂ x ⟨hkeeps₂, -⟩
    have hheld₂ := hkeeps₂.holding hheld₁
    obtain e | credential := x
    · exact hheld₂
    cases credential with
    | none =>
      refine Prog.spec_perform_bind.mpr ⟨trivial, fun bytes => ?_, fun e => ?_⟩
      · simp [hheld₂]
      · simp [hheld₂]
    | some credential =>
      refine Prog.spec_perform_bind.mpr ⟨trivial, fun m => ?_, fun e => ?_⟩
      · have hheld₃ : (known (h₂ ++ [⟨.memory, .ok m⟩])).held = L := by
          simp [hheld₂]
        refine Prog.spec_lift_bind.mpr ⟨fun digest _ => ?_, fun _ _ => hheld₃⟩
        refine Prog.spec_lift_bind.mpr ⟨fun fingerprint _ => ?_, fun _ _ => hheld₃⟩
        refine Prog.Spec.bind ((((cachedVerification_spec _ _ _ _ _).keep
          (J := fun h => (known h).held = L) (fun h c a hheld hc => ?_) hheld₃)).mono
            (fun h c hc => ?_) ?_)
        · rw [known_snoc]
          exact (hc.keeps (H := H) (r := r) (known h) a).2.holding hheld
        · exact (hc.2.keeps (H := H) (r := r) (known h) (.error .interrupted)).1
        · rintro h₄ (e | cached) ⟨hheld₄, -⟩
          · exact hheld₄
          cases cached with
          | some result => exact hheld₄
          | none =>
            refine Prog.spec_perform.mpr ⟨trivial, fun _ => ?_, fun e => ?_⟩
            · simp [hheld₄]
            · simp [hheld₄]
      · simp [hheld₂]
  · simp [hheld]

/-! ### Requests -/

/-- What a request returns, if it is a backup. -/
def ReturnsBackup (h : Hist) (x : Except Error Outcome) : Prop :=
  ∀ db k, x = .ok (.backup db k) → (db, k) ∈ (known h).backups

theorem returnsBackup_lasting : Lasting ReturnsBackup where
  snoc y hx db k hdb := by
    rw [known_snoc]
    exact Knowledge.backups_next _ y (hx db k hdb)
  failed _ _ _ hx := by cases hx

/-- An outcome that is no backup. -/
theorem spec_returns {Ψ : Hist → Except Error α → Prop} {p : HostProg α} {f : α → Outcome}
    (hf : ∀ a db k, f a ≠ .backup db k) (hp : p.Spec (Rules H r) (fun h x =>
      (known h).held = L ∧ Ψ h x) h) :
    (f <$> p).Spec (Rules H r) (fun h x => (known h).held = L ∧ ReturnsBackup h x) h := by
  refine (spec_map hp).mono (fun _ _ => id) ?_
  rintro h' x ⟨y, rfl, hheld, -⟩
  refine ⟨hheld, fun db k hx => ?_⟩
  cases y with
  | error e => cases hx
  | ok a => exact absurd (Except.ok.inj hx) (hf a db k)

theorem revokeClient_known (clientId : Json) (hheld : (known h).held = L) :
    (Service.revokeClient clientId).Spec (Rules H r) (Holding L) h := by
  refine Prog.spec_lift_bind.mpr ⟨fun clientId _ => ?_, fun _ _ => hheld⟩
  refine Prog.spec_perform_bind.mpr ⟨trivial, fun now => ?_, fun e => ?_⟩
  · refine (Prog.spec_perform (c := Op.store (.revokeClient clientId now))).mpr
      ⟨trivial, fun _ => ?_, fun e => ?_⟩ <;> simp [hheld]
  · simp [hheld]

/-- A cleanup at a given time is one commit. -/
theorem cleanup_known (now : Json) (hheld : (known h).held = L) :
    (Service.cleanup now).Spec (Rules H r) (Holding L) h := by
  have hstore : ∀ t h, (known h).held = L →
      (Op.store (.cleanup t)).run.Spec (Rules H r) (Holding L) h := fun t h hheld =>
    (Prog.spec_perform (c := Op.store (.cleanup t))).mpr
      ⟨trivial, fun _ => by simp [hheld],
        fun e => by simp [hheld]⟩
  cases now with
  | null =>
    refine Prog.spec_perform_bind.mpr ⟨trivial, fun t => hstore t _ ?_, fun e => ?_⟩ <;>
      simp [hheld]
  | int t => exact hstore t h hheld
  | bool | float | str | arr | obj => exact hheld

theorem activateRestoredBackup_known (hheld : (known h).held = L) :
    Service.activateRestoredBackup.Spec (Rules H r) (Holding L) h := by
  refine Prog.spec_perform_bind.mpr ⟨trivial, fun now => ?_, fun e => ?_⟩
  · refine (Prog.spec_perform (c := Op.store (.activateRestoredBackup now))).mpr
      ⟨trivial, fun _ => ?_, fun e => ?_⟩ <;> simp [hheld]
  · simp [hheld]

/-- A command that has just started. -/
structure Fresh (r : Request) (L : List LockName) (h : Hist) : Prop where
  command : ¬ r.IsApi
  held : (known h).held = L
  started : (known h).started = false

/-- A service that is constructed has loaded its keyring. -/
theorem construct_known (hfresh : Fresh r L h) :
    Service.construct.Spec (Rules H r) (fun h' x => Fresh r L h' ∧
      ∀ u, x = .ok u → ∃ m, (known h').read = some m ∧ m ∈ (known h').memories) h := by
  obtain ⟨hcommand, hheld, hstarted⟩ := hfresh
  refine Prog.Spec.bind ((reload_known hheld (Or.inr ⟨hcommand, hstarted⟩)).mono
    (fun _ _ => id) ?_)
  rintro h₁ (e | u) ⟨hheld₁, hstarted₁, hread⟩
  · exact ⟨⟨hcommand, hheld₁, hstarted₁.trans hstarted⟩, fun _ hx => by cases hx⟩
  have hfresh₁ : Fresh r L h₁ := ⟨hcommand, hheld₁, hstarted₁.trans hstarted⟩
  obtain ⟨m, hm⟩ := hread u rfl
  refine Prog.spec_perform_bind.mpr ⟨trivial, fun now => ?_, fun e => ?_⟩
  · refine (Prog.spec_perform (c := Op.setNextCleanupAt _)).mpr
      ⟨trivial, fun _ => ⟨⟨hcommand, ?_, ?_⟩, fun _ _ => ⟨m, ?_⟩⟩,
        fun e => ⟨⟨hcommand, ?_, ?_⟩, fun _ hx => by cases hx⟩⟩ <;>
      simp [hheld₁, hfresh₁.started, hm]
  · exact ⟨⟨hcommand, by simp [hheld₁],
      by simp [hfresh₁.started]⟩, fun _ hx => by cases hx⟩

/-- A command after the process has loaded its keyring. -/
theorem spec_construct_known {p : HostProg Outcome} (hfresh : Fresh r L h)
    (hp : ∀ h', Fresh r L h' →
      p.Spec (Rules H r) (fun h x => (known h).held = L ∧ ReturnsBackup h x) h') :
    (Service.construct >>= fun _ => p).Spec (Rules H r)
      (fun h x => (known h).held = L ∧ ReturnsBackup h x) h := by
  refine Prog.Spec.bind ((construct_known hfresh).mono (fun _ _ => id) ?_)
  rintro h₁ (e | _) ⟨hfresh₁, -⟩
  · exact ⟨hfresh₁.held, fun _ _ hx => by cases hx⟩
  · exact hp h₁ hfresh₁

/-- A command of an operator holds the instance lock. -/
theorem withInstanceLock_known {p : HostProg Outcome} (hserve : r ≠ .command .serve)
    (hfresh : Fresh r [] h) (hp : ∀ h', Fresh r [.instanceLock] h' →
      p.Spec (Rules H r) (fun h x => (known h).held = [.instanceLock] ∧ ReturnsBackup h x) h') :
    (withInstanceLock p).Spec (Rules H r)
      (fun h x => (known h).held = [] ∧ ReturnsBackup h x) h := by
  obtain ⟨hcommand, hheld, hstarted⟩ := hfresh
  have hnone : ∀ h e, ReturnsBackup h (.error e) := fun _ _ _ _ hx => by cases hx
  refine Prog.spec_perform_bind.mpr ⟨fun _ => hcommand, fun acquired => ?_, fun e => ?_⟩
  · cases acquired with
    | true =>
      refine ensureRelease_known (fun _ => hserve) returnsBackup_lasting (hp _ ⟨hcommand, ?_, ?_⟩)
      · simp [Knowledge.forget, hheld]
      · simp [Knowledge.forget, hstarted]
    | false => exact ⟨by simp [hheld], hnone _ _⟩
  · exact ⟨by simp [hheld], hnone _ _⟩

/-- The server holds it as long as it serves. -/
theorem serveProgram_known (hfresh : Fresh (.command .serve) [] h) :
    (Command.serveProgram H).Spec (Rules H (.command .serve)) (fun _ _ => True) h := by
  obtain ⟨hcommand, hheld, hstarted⟩ := hfresh
  refine Prog.spec_perform_bind.mpr ⟨fun _ => hcommand, fun acquired => ?_, fun e => trivial⟩
  cases acquired with
  | false => trivial
  | true =>
    refine Prog.Spec.bind ((construct_known (L := [.instanceLock]) ⟨hcommand, ?_, ?_⟩).mono
      (fun _ _ => id) ?_)
    · simp [Knowledge.forget, hheld]
    · simp [Knowledge.forget, hstarted]
    rintro h₁ (e | u) ⟨hfresh₁, hread⟩
    · trivial
    obtain ⟨m, hm, hmem⟩ := hread u rfl
    refine Prog.Spec.bind (((ready_spec _).keeps).mono (fun _ _ => id) ?_)
    rintro h₂ (e | ready) ⟨hkeeps, -⟩
    · trivial
    refine Prog.spec_ite.mpr ⟨fun _ => spec_run .startServing ⟨rfl, ?_, ?_, m, ?_, ?_⟩,
      fun _ => trivial⟩
    · exact hkeeps.started.trans hfresh₁.started
    · rw [hkeeps.held, hfresh₁.held]
      exact List.mem_cons_self
    · exact hkeeps.read.trans hm
    · exact hkeeps.memories hmem

/-- **Every program keeps the discipline of the locks.** -/
theorem program_allowed (r : Request) :
    (r.program H).Spec (Rules H r) ReturnsBackup [] := by
  have hend : ∀ {p : HostProg Outcome}, p.Spec (Rules H r)
      (fun h x => (known h).held = [] ∧ ReturnsBackup h x) [] →
        p.Spec (Rules H r) ReturnsBackup [] :=
    fun hp => hp.mono (fun _ _ => id) fun _ _ => And.right
  -- a backup is what it read under the lock
  have hbackup : ∀ {h : Hist}, (known h).held = [] →
      ((fun x : Ledger × KeyRing => Outcome.backup x.1 x.2) <$> KeyRing.backupWith).Spec
        (Rules H r) (fun h x => (known h).held = [] ∧ ReturnsBackup h x) h := by
    intro h hheld
    refine (spec_map (backupWith_known hheld)).mono (fun _ _ => id) ?_
    rintro h' x ⟨y, rfl, hheld', hy⟩
    refine ⟨hheld', fun db k hx => ?_⟩
    cases y with
    | error e => cases hx
    | ok y =>
      obtain ⟨rfl, rfl⟩ := Outcome.backup.inj (Except.ok.inj hx)
      exact hy y rfl
  cases r with
  | api c =>
    cases c with
    | createClient q =>
      exact hend (spec_returns (fun _ _ _ => nofun) (holding_iff.mpr (createClient_known q rfl)))
    | issueProof q =>
      exact hend (spec_returns (fun _ _ _ => nofun)
        (holding_iff.mpr (issueProof_known q trivial rfl)))
    | verifyProof q =>
      exact hend (spec_returns (fun _ _ _ => nofun) (holding_iff.mpr (verifyProof_known q rfl)))
    | rotateCredential q =>
      exact hend (spec_returns (fun _ _ _ => nofun)
        (holding_iff.mpr (rotateCredential_known q rfl)))
    | revokeClient clientId =>
      exact hend (spec_returns (fun _ _ _ => nofun)
        (holding_iff.mpr (revokeClient_known clientId rfl)))
    | cleanup now =>
      exact hend (spec_returns (fun _ _ _ => nofun) (holding_iff.mpr (cleanup_known now rfl)))
    | activateRestoredBackup =>
      exact hend (spec_returns (fun _ _ _ => nofun)
        (holding_iff.mpr (activateRestoredBackup_known rfl)))
    | retireHashKey kid =>
      exact hend (spec_returns (fun _ _ _ => nofun)
        (holding_iff.mpr (retireHashKey_known kid rfl (Or.inl trivial))))
    | rotateKey =>
      exact hend (spec_returns (fun _ _ _ => nofun)
        (holding_iff.mpr (rotate_known rfl (Or.inl trivial))))
    | credentialIsAccepted secret role =>
      exact hend (spec_returns (L := []) (fun _ _ _ => nofun)
        ((credentialIsAccepted_spec secret role []).keeps.mono (fun _ _ => id)
          fun _ _ hx => ⟨hx.1.held, trivial⟩))
    | ready =>
      exact hend (spec_returns (L := []) (fun _ _ _ => nofun) ((ready_spec []).keeps.mono
        (fun _ _ => id) fun _ _ hx => ⟨hx.1.held, trivial⟩))
  | command c =>
    have hfresh : Fresh (.command c) [] [] := ⟨id, rfl, rfl⟩
    -- the commands that change keys hold the instance lock
    have hinstance : ∀ {h : Hist}, Fresh (.command c) [.instanceLock] h → c ≠ .serve →
        (.command c : Request).IsApi ∨ .instanceLock ∈ [LockName.instanceLock] ∧
          Request.command c ≠ .command .serve := fun _ hc =>
      Or.inr ⟨List.mem_cons_self, fun heq => hc (Request.command.inj heq)⟩
    cases c with
    | serve =>
      refine (spec_map (serveProgram_known hfresh)).mono (fun _ _ => id) ?_
      rintro h x ⟨y, rfl, -⟩ db k hx
      cases y <;> cases hx
    | clientCreate q =>
      exact hend (spec_construct_known hfresh fun h hh => spec_returns (fun _ _ _ => nofun)
        (holding_iff.mpr (createClient_known q hh.held)))
    | clientRotate q =>
      exact hend (spec_construct_known hfresh fun h hh => spec_returns (fun _ _ _ => nofun)
        (holding_iff.mpr (rotateCredential_known q hh.held)))
    | clientRevoke clientId =>
      exact hend (spec_construct_known hfresh fun h hh => spec_returns (fun _ _ _ => nofun)
        (holding_iff.mpr (revokeClient_known clientId hh.held)))
    | cleanup =>
      exact hend (spec_construct_known hfresh fun h hh => spec_returns (fun _ _ _ => nofun)
        (holding_iff.mpr (cleanup_known .null hh.held)))
    | keyRotate =>
      refine hend (withInstanceLock_known nofun hfresh fun h hh => ?_)
      refine Prog.Spec.bind ((reload_known hh.held (Or.inr ⟨hh.command, hh.started⟩)).mono
        (fun _ _ => id) ?_)
      rintro h₁ (e | u) ⟨hheld, -⟩
      · exact ⟨hheld, fun _ _ hx => by cases hx⟩
      · exact spec_returns (fun _ _ _ => nofun)
          (holding_iff.mpr (rotate_known hheld (hinstance hh nofun)))
    | keyRetire kid =>
      exact hend (withInstanceLock_known nofun hfresh fun h hh => spec_construct_known hh
        fun h' hh' => spec_returns (fun _ _ _ => nofun)
          (holding_iff.mpr (retireHashKey_known kid hh'.held (hinstance hh nofun))))
    | dbBackup =>
      exact hend (spec_construct_known hfresh fun h hh => hbackup hh.held)
    | dbActivateRestore =>
      exact hend (withInstanceLock_known nofun hfresh fun h hh => spec_construct_known hh
        fun h' hh' => spec_returns (fun _ _ _ => nofun)
          (holding_iff.mpr (activateRestoredBackup_known hh'.held)))

end Onceproof

import Onceproof.Service.Specs

/-!
# Specifications of requests

The remaining programs of the service and the commands, and `program_spec`: every request
issues its commands under `Supplied` and ends as `Returned` says.
-/

namespace Onceproof

variable {H : HashLib}

/-! ### Clients and credentials -/

theorem trivial_lasting {α : Type} : Lasting (fun (_ : Hist) (_ : Except Error α) => True) :=
  ⟨fun _ _ => trivial, fun _ => trivial⟩

section Keyring

variable {α : Type} {Φ : Hist → Op → Prop} {p : HostProg α} {h : Hist}
variable {Ψ : Hist → Except Error α → Prop}

/-- The program under `KeyRing.stable` starts with the two generations that agreed. -/
theorem stable_spec (hΦ : ∀ h c, Op.Free c → Φ h c) (hΨ : Lasting Ψ)
    (hraise : ∀ h e, Ψ h (.error e)) (hp : ∀ h', h <+: h' → p.Spec Φ Ψ h') :
    (KeyRing.stable p).Spec Φ Ψ h := by
  refine withLock_spec hΦ hΨ ?_
  refine Prog.spec_perform_bind.mpr ⟨hΦ _ _ trivial, fun disk => ?_, fun e => hraise _ _⟩
  refine Prog.spec_perform_bind.mpr ⟨hΦ _ _ trivial, fun memory => ?_, fun e => hraise _ _⟩
  refine Prog.spec_ite.mpr ⟨fun _ => hraise _ _, fun _ => hp _ ?_⟩
  simp only [List.append_assoc]
  exact List.prefix_append _ _

end Keyring

/-- A credential with its secret, as `_new_credential` returned them in a history. -/
def Hist.Generated (H : HashLib) (h : Hist) (c : CredentialRecord) (secret : Str) : Prop :=
  ∃ h₁ τ h₂, h = h₁ ++ τ ++ h₂ ∧
    (Service.newCredential H c.role c.clientId).Yields τ (.ok (c, secret))

/-- What was drawn stays drawn. -/
theorem Hist.Generated.mono {h h' : Hist} {c : CredentialRecord} {secret : Str}
    (hg : h.Generated H c secret) (hpre : h <+: h') : h'.Generated H c secret := by
  obtain ⟨h₁, τ, h₂, rfl, hτ⟩ := hg
  obtain ⟨h₃, rfl⟩ := hpre
  exact ⟨h₁, τ, h₂ ++ h₃, by simp, hτ⟩

/-- What `_new_credential` returns. -/
theorem newCredential_yields {role : Role} {clientId secret : Str} {c : CredentialRecord} {τ : Hist}
    (h : (Service.newCredential H role clientId).Yields τ (.ok (c, secret))) :
    ∃ (idBytes bytes : Bytes) (m : KeyRing), c.clientId = clientId ∧ c.role = role ∧
      c.credentialId = role.idPrefix ++ hexlify idBytes ∧
      secret = Service.newSecret role c.credentialId bytes ∧ c.hashKid = m.currentKey.1 ∧
      credentialDigest H m.currentKey.2.val secret = .ok c.secretDigest ∧
      τ = [⟨.tokenBytes 12, .ok idBytes⟩, ⟨.tokenBytes 32, .ok bytes⟩, ⟨.memory, .ok m⟩] := by
  rcases Prog.yields_perform_bind.mp h with ⟨idBytes, _, rfl, h₁⟩ | ⟨e, -, hx⟩
  · rcases Prog.yields_perform_bind.mp h₁ with ⟨bytes, _, rfl, h₂⟩ | ⟨e, -, hx⟩
    · rcases Prog.yields_perform_bind.mp h₂ with ⟨m, _, rfl, h₃⟩ | ⟨e, -, hx⟩
      · rcases Prog.yields_lift_bind.mp h₃ with ⟨d, hd, h₄⟩ | ⟨e, -, -, hx⟩
        · cases h₄
          exact ⟨idBytes, bytes, m, rfl, rfl, rfl, rfl, rfl, hd, rfl⟩
        · cases hx
      · cases hx
    · cases hx
  · cases hx

/-- A new credential is of its client and its role, and its secret was drawn. -/
theorem newCredential_spec (h : Hist) (role : Role) (clientId : Str) :
    (Service.newCredential H role clientId).Spec (fun _ c => c.Free)
      (fun h' x => h <+: h' ∧ ∀ c secret, x = .ok (c, secret) →
        c.clientId = clientId ∧ c.role = role ∧ Hist.Generated H h' c secret) h := by
  have hfree : (Service.newCredential H role clientId).Spec (fun _ c => c.Free)
      (fun _ _ => True) h := by
    refine Prog.spec_perform_bind.mpr ⟨trivial, fun _ => ?_, fun _ => trivial⟩
    refine Prog.spec_perform_bind.mpr ⟨trivial, fun _ => ?_, fun _ => trivial⟩
    refine Prog.spec_perform_bind.mpr ⟨trivial, fun _ => ?_, fun _ => trivial⟩
    exact Prog.spec_lift_bind.mpr ⟨fun _ _ => trivial, fun _ _ => trivial⟩
  refine hfree.yields.mono (fun _ _ => id) ?_
  rintro h' x ⟨⟨τ, rfl, hτ⟩, -⟩
  refine ⟨List.prefix_append _ _, fun c secret hx => ?_⟩
  subst hx
  obtain ⟨_, _, _, rfl, rfl, -⟩ := newCredential_yields hτ
  exact ⟨rfl, rfl, h, τ, [], by simp, hτ⟩

/-- The arguments that `create_client` passes to the store. -/
structure CreateArgs (H : HashLib) (q : CreateClientRequest) (h : Hist) (a : CreateClient) :
    Prop where
  clientId : ∃ bytes, h.Got (.tokenBytes 12) bytes ∧ a.clientId = lit "opc_" ++ hexlify bytes
  name : Service.text q.name "name" maxNameLength = .ok a.name
  nonempty : q.allowedAudiences ≠ []
  audiences : ∃ l, q.allowedAudiences.mapM Service.audience = .ok l ∧
    a.allowedAudiences = l.eraseDups
  issuance : a.issuanceCredential.clientId = a.clientId ∧ a.issuanceCredential.role = .issuance ∧
    ∃ secret, h.Generated H a.issuanceCredential secret
  verification : a.verificationCredential.clientId = a.clientId ∧
    a.verificationCredential.role = .verification ∧
    ∃ secret, h.Generated H a.verificationCredential secret
  reading : h.Got .clock a.now

/-- How the creation of a client ends. -/
inductive CreateOutcome (H : HashLib) (q : CreateClientRequest) (h : Hist) :
    Except Error ClientCredentials → Prop
  | raised (e : Error) : CreateOutcome H q h (.error e)
  | created {a : CreateClient} {issuanceSecret verificationSecret : Str} (args : CreateArgs H q h a)
      (issuance : h.Generated H a.issuanceCredential issuanceSecret)
      (verification : h.Generated H a.verificationCredential verificationSecret)
      (answer : Hist.Got h (.store (.createClient a)) ()) :
      CreateOutcome H q h (.ok
        { clientId := a.clientId
          issuanceCredentialId := a.issuanceCredential.credentialId
          issuanceSecret
          verificationCredentialId := a.verificationCredential.credentialId
          verificationSecret })

/-- What the arguments of a call rest on stays true. -/
theorem CreateArgs.mono {q : CreateClientRequest} {h h' : Hist} {a : CreateClient}
    (ha : CreateArgs H q h a) (hpre : h <+: h') : CreateArgs H q h' a := by
  obtain ⟨bytes, hbytes, hid⟩ := ha.clientId
  obtain ⟨hissuer, hirole, isecret, hi⟩ := ha.issuance
  obtain ⟨hverifier, hvrole, vsecret, hv⟩ := ha.verification
  exact {
    ha with
    clientId := ⟨bytes, hbytes.mono hpre, hid⟩
    issuance := ⟨hissuer, hirole, isecret, hi.mono hpre⟩
    verification := ⟨hverifier, hvrole, vsecret, hv.mono hpre⟩
    reading := ha.reading.mono hpre }

theorem createOutcome_lasting (q : CreateClientRequest) : Lasting (CreateOutcome H q) where
  snoc y ho := by
    have hpre : ∀ h : Hist, h <+: h ++ [y] := fun h => List.prefix_append h [y]
    cases ho with
    | raised e => exact .raised e
    | created args issuance verification answer =>
      exact .created (args.mono (hpre _)) (issuance.mono (hpre _)) (verification.mono (hpre _))
        (answer.snoc y)
  failed _ := .raised _

/-- **`create_client`** issues one writing command, with the credentials that it returns. -/
theorem createClient_commands {Φ : Hist → Op → Prop} (q : CreateClientRequest) (h : Hist)
    (hfree : ∀ h c, Op.Free c → Φ h c)
    (hstore : ∀ h a, CreateArgs H q h a → Φ h (.store (.createClient a))) :
    (Service.createClient H q).Spec Φ (CreateOutcome H q) h := by
  refine Prog.spec_lift_bind.mpr ⟨fun name hname => ?_, fun e _ => .raised e⟩
  refine Prog.spec_ite.mpr ⟨fun _ => .raised _, fun hnonempty => ?_⟩
  refine Prog.spec_lift_bind.mpr ⟨fun audiences haudiences => ?_, fun e _ => .raised e⟩
  refine Prog.spec_lift_bind.mpr ⟨fun ttl _ => ?_, fun e _ => .raised e⟩
  refine Prog.spec_lift_bind.mpr ⟨fun issueLimit _ => ?_, fun e _ => .raised e⟩
  refine Prog.spec_lift_bind.mpr ⟨fun verifyLimit _ => ?_, fun e _ => .raised e⟩
  refine withLock_spec hfree (createOutcome_lasting q) ?_
  refine stable_spec hfree (createOutcome_lasting q) (fun _ e => .raised e) fun h' _ => ?_
  refine Prog.spec_perform_bind.mpr ⟨hfree _ _ trivial, fun idBytes => ?_, fun e => .raised e⟩
  have hid : Hist.Got (h' ++ [⟨.tokenBytes 12, .ok idBytes⟩]) (.tokenBytes 12) idBytes :=
    Hist.got_snoc _ _ _
  refine Prog.Spec.bind ((newCredential_spec _ _ _).mono hfree ?_)
  rintro h₁ (e | ⟨issuance, secret₁⟩) ⟨hpre₁, hissuance⟩
  · exact .raised e
  refine Prog.Spec.bind ((newCredential_spec _ _ _).mono hfree ?_)
  rintro h₂ (e | ⟨verification, secret₂⟩) ⟨hpre₂, hverification⟩
  · exact .raised e
  obtain ⟨hiclient, hirole, higenerated⟩ := hissuance _ _ rfl
  obtain ⟨hvclient, hvrole, hvgenerated⟩ := hverification _ _ rfl
  have hid₂ := (hid.mono hpre₁).mono hpre₂
  -- with or without a sink, what follows the delivery is the same
  have hrest : ∀ h₃, h₂ <+: h₃ → Prog.Spec Φ (CreateOutcome H q) (do
      let memory : KeyRing ← Op.memory.run
      let check ← Prog.lift (keyCheck H memory.currentKey.2.val)
      let now : ℤ ← Op.clock.run
      (Op.store (.createClient
        { clientId := lit "opc_" ++ hexlify idBytes
          name
          allowedAudiences := audiences.eraseDups
          proofTtlSeconds := ttl
          issueLimitPerMinute := issueLimit
          verifyLimitPerMinute := verifyLimit
          issuanceCredential := issuance
          verificationCredential := verification
          hashKeyCheck := check
          now })).run
      pure
        { clientId := lit "opc_" ++ hexlify idBytes
          issuanceCredentialId := issuance.credentialId
          issuanceSecret := secret₁
          verificationCredentialId := verification.credentialId
          verificationSecret := secret₂ : ClientCredentials }) h₃ := by
    intro h₃ hpre₃
    refine Prog.spec_perform_bind.mpr ⟨hfree _ _ trivial, fun k => ?_, fun e => .raised e⟩
    refine Prog.spec_lift_bind.mpr ⟨fun check _ => ?_, fun e _ => .raised e⟩
    refine Prog.spec_perform_bind.mpr ⟨hfree _ _ trivial, fun now => ?_, fun e => .raised e⟩
    have hpre₄ : h₂ <+: h₃ ++ [⟨.memory, .ok k⟩] ++ [⟨.clock, .ok now⟩] := by
      rw [List.append_assoc]
      exact hpre₃.trans (List.prefix_append _ _)
    have hargs : CreateArgs H q (h₃ ++ [⟨.memory, .ok k⟩] ++ [⟨.clock, .ok now⟩])
        { clientId := lit "opc_" ++ hexlify idBytes
          name
          allowedAudiences := audiences.eraseDups
          proofTtlSeconds := ttl
          issueLimitPerMinute := issueLimit
          verifyLimitPerMinute := verifyLimit
          issuanceCredential := issuance
          verificationCredential := verification
          hashKeyCheck := check
          now } :=
      { clientId := ⟨idBytes, hid₂.mono hpre₄, rfl⟩
        name := hname
        nonempty := hnonempty
        audiences := ⟨audiences, haudiences, rfl⟩
        issuance := ⟨hiclient, hirole, secret₁, (higenerated.mono hpre₂).mono hpre₄⟩
        verification := ⟨hvclient, hvrole, secret₂, hvgenerated.mono hpre₄⟩
        reading := Hist.got_snoc _ _ _ }
    refine Prog.spec_perform_bind.mpr ⟨hstore _ _ hargs, fun _ => ?_, fun e => .raised e⟩
    exact .created (hargs.mono (List.prefix_append _ _))
      ((higenerated.mono hpre₂).mono (hpre₄.trans (List.prefix_append _ _)))
      (hvgenerated.mono (hpre₄.trans (List.prefix_append _ _))) (Hist.got_snoc _ _ _)
  refine Prog.spec_ite.mpr ⟨fun _ => ?_, fun _ => hrest _ (List.prefix_refl _)⟩
  exact Prog.spec_perform_bind.mpr
    ⟨hfree _ _ trivial, fun _ => hrest _ (List.prefix_append _ _), fun e => .raised e⟩

theorem RotateArgs.mono {q : RotateRequest} {h h' : Hist} {a : RotateCredential}
    (ha : RotateArgs q h a) (hpre : h <+: h') : RotateArgs q h' a :=
  { ha with reading := ha.reading.mono hpre }

/-- How a rotation ends. -/
inductive RotateOutcome (q : RotateRequest) (h : Hist) : Except Error RotatedCredential → Prop
  | raised (e : Error) : RotateOutcome q h (.error e)
  | rotated {a : RotateCredential} {reply : Str × ℤ} {secret : Str} (args : RotateArgs q h a)
      (answer : Hist.Got h (.store (.rotateCredential a)) reply) :
      RotateOutcome q h (.ok
        { clientId := a.clientId
          credentialId := a.replacement.credentialId
          role := q.role
          secret
          previousCredentialId := reply.1
          previousValidUntil := reply.2 })

theorem rotateOutcome_lasting (q : RotateRequest) : Lasting (RotateOutcome q) where
  snoc y ho := by
    cases ho with
    | raised e => exact .raised e
    | rotated args answer =>
      exact .rotated (args.mono (List.prefix_append _ _)) (answer.snoc y)
  failed _ := .raised _

/-- A rotation returns the secret of the credential that it stored. -/
def ReturnsSecret (H : HashLib) (h : Hist) (x : Except Error RotatedCredential) : Prop :=
  ∀ rotated, x = .ok rotated → ∃ a reply, Hist.Got h (.store (.rotateCredential a)) reply ∧
    rotated.credentialId = a.replacement.credentialId ∧
    h.Generated H a.replacement rotated.secret

/-- A rotation that raises returns no secret. -/
theorem returnsSecret_error {h : Hist} (e : Error) : ReturnsSecret H h (.error e) :=
  fun _ hx => by cases hx

theorem returnsSecret_lasting :
    Lasting fun (h : Hist) (x : Except Error RotatedCredential) => ReturnsSecret H h x where
  snoc y ho := by
    intro rotated hx
    obtain ⟨a, reply, hgot, hid, hgenerated⟩ := ho rotated hx
    exact ⟨a, reply, hgot.snoc y, hid, hgenerated.mono (List.prefix_append _ _)⟩
  failed _ := returnsSecret_error _

/-- **`rotate_credential`** issues one writing command, with the credential that it returns. -/
theorem rotateCredential_commands {Φ : Hist → Op → Prop} (q : RotateRequest) (h : Hist)
    (hfree : ∀ h c, Op.Free c → Φ h c)
    (hstore : ∀ h a, RotateArgs q h a → (∃ secret, h.Generated H a.replacement secret) →
      Φ h (.store (.rotateCredential a))) :
    (Service.rotateCredential H q).Spec Φ
      (fun h x => RotateOutcome q h x ∧ ReturnsSecret H h x) h := by
  have hraised : ∀ (h : Hist) (e : Error),
      RotateOutcome q h (.error e) ∧ ReturnsSecret H h (.error e) :=
    fun h e => ⟨.raised e, returnsSecret_error e⟩
  have hlasting : Lasting fun (h : Hist) (x : Except Error RotatedCredential) =>
      RotateOutcome q h x ∧ ReturnsSecret H h x :=
    ⟨fun y ho => ⟨(rotateOutcome_lasting q).snoc y ho.1, returnsSecret_lasting.snoc y ho.2⟩,
      fun _ => hraised _ _⟩
  unfold Service.rotateCredential
  cases hrole : Role.ofText? q.role with
  | none => exact hraised _ _
  | some role =>
    refine Prog.spec_lift_bind.mpr ⟨fun grace hgrace => ?_, fun e _ => hraised _ e⟩
    refine Prog.spec_lift_bind.mpr ⟨fun clientId hclientId => ?_, fun e _ => hraised _ e⟩
    refine Prog.spec_perform_bind.mpr ⟨hfree _ _ trivial, fun now => ?_, fun e => hraised _ e⟩
    have hnow : Hist.Got (h ++ [⟨.clock, .ok now⟩]) .clock now := Hist.got_snoc _ _ _
    refine withLock_spec hfree hlasting ?_
    refine stable_spec hfree hlasting hraised fun h' hpre' => ?_
    refine Prog.Spec.bind ((newCredential_spec _ _ _).mono hfree ?_)
    rintro h₁ (e | ⟨replacement, secret⟩) ⟨hpre₁, hreplacement⟩
    · exact hraised _ e
    obtain ⟨hclient, hrole', hgenerated⟩ := hreplacement _ _ rfl
    have hnow₁ : Hist.Got h₁ .clock now := ((hnow.snoc _).mono hpre').mono hpre₁
    have hrest : ∀ h₂, h₁ <+: h₂ → Prog.Spec Φ
        (fun h x => RotateOutcome q h x ∧ ReturnsSecret H h x) (do
        let memory : KeyRing ← Op.memory.run
        let check ← Prog.lift (keyCheck H memory.currentKey.2.val)
        let reply : Str × ℤ ← (Op.store (.rotateCredential
          { clientId, role, replacement, hashKeyCheck := check, graceSeconds := grace,
            now })).run
        pure
          { clientId
            credentialId := replacement.credentialId
            role := q.role
            secret
            previousCredentialId := reply.1
            previousValidUntil := reply.2 }) h₂ := by
      intro h₂ hpre₂
      refine Prog.spec_perform_bind.mpr ⟨hfree _ _ trivial, fun k => ?_, fun e => hraised _ e⟩
      refine Prog.spec_lift_bind.mpr ⟨fun check _ => ?_, fun e _ => hraised _ e⟩
      have hargs : RotateArgs q (h₂ ++ [⟨.memory, .ok k⟩])
          { clientId, role, replacement, hashKeyCheck := check, graceSeconds := grace, now } :=
        ⟨hrole, hgrace, hclientId, (hnow₁.mono hpre₂).snoc _, hclient, hrole'⟩
      have hgenerated₂ : Hist.Generated H (h₂ ++ [⟨.memory, .ok k⟩]) replacement secret :=
        hgenerated.mono (hpre₂.trans (List.prefix_append _ _))
      refine Prog.spec_perform_bind.mpr ⟨hstore _ _ hargs ⟨secret, hgenerated₂⟩,
        fun reply => ⟨?_, ?_⟩, fun e => hraised _ e⟩
      · exact .rotated (hargs.mono (List.prefix_append _ _)) (Hist.got_snoc _ _ _)
      · rintro rotated hx
        obtain rfl := Except.ok.inj hx
        exact ⟨_, reply, Hist.got_snoc _ _ _, rfl, hgenerated₂.mono (List.prefix_append _ _)⟩
    refine Prog.spec_ite.mpr ⟨fun _ => ?_, fun _ => hrest _ (List.prefix_refl _)⟩
    exact Prog.spec_perform_bind.mpr
      ⟨hfree _ _ trivial, fun _ => hrest _ (List.prefix_append _ _), fun e => hraised _ e⟩

/-- A single command. -/
theorem spec_run {Φ : Hist → Op → Prop} {h : Hist} (c : Op) (hc : Φ h c) :
    Prog.Spec Φ (fun _ _ => True) c.run h :=
  Prog.spec_perform.mpr ⟨hc, fun _ => trivial, fun _ => trivial⟩

theorem reload_spec (h : Hist) :
    KeyRing.reload.Spec (fun _ c => c.Free) (fun _ _ => True) h :=
  Prog.spec_perform_bind.mpr
    ⟨trivial, fun k => spec_run (.setMemory k) trivial, fun _ => trivial⟩

theorem construct_spec (h : Hist) :
    Service.construct.Spec (fun _ c => c.Free) (fun _ _ => True) h := by
  refine Prog.Spec.bind ((reload_spec h).mono (fun _ _ => id) ?_)
  rintro h₁ (e | _) -
  · trivial
  · exact Prog.spec_perform_bind.mpr
      ⟨trivial, fun _ => spec_run (.setNextCleanupAt _) trivial, fun _ => trivial⟩

/-- A revocation calls the store once, at its clock reading. -/
theorem revokeClient_commands {Φ : Hist → Op → Prop} (v : Json) (h : Hist)
    (hfree : ∀ h c, Op.Free c → Φ h c)
    (hstore : ∀ h clientId now, Service.text v "client_id" 128 = .ok clientId →
      Hist.Got h .clock now → Φ h (.store (.revokeClient clientId now))) :
    (Service.revokeClient v).Spec Φ (fun _ _ => True) h := by
  refine Prog.spec_lift_bind.mpr ⟨fun clientId hclientId => ?_, fun _ _ => trivial⟩
  refine Prog.spec_perform_bind.mpr ⟨hfree _ _ trivial, fun now => ?_, fun _ => trivial⟩
  exact spec_run (.store (.revokeClient clientId now))
    (hstore _ _ _ hclientId (Hist.got_snoc _ _ _))

/-- So does an activation. -/
theorem activateRestoredBackup_commands {Φ : Hist → Op → Prop} (h : Hist)
    (hfree : ∀ h c, Op.Free c → Φ h c)
    (hstore : ∀ h now, Hist.Got h .clock now → Φ h (.store (.activateRestoredBackup now))) :
    Service.activateRestoredBackup.Spec Φ (fun _ _ => True) h := by
  refine Prog.spec_perform_bind.mpr ⟨hfree _ _ trivial, fun now => ?_, fun _ => trivial⟩
  exact spec_run (.store (.activateRestoredBackup now)) (hstore _ _ (Hist.got_snoc _ _ _))

/-- A cleanup calls it at a clock reading or at the time that it was given. -/
theorem cleanup_commands {Φ : Hist → Op → Prop} (v : Json) (h : Hist)
    (hfree : ∀ h c, Op.Free c → Φ h c)
    (hstore : ∀ h now, Hist.Got h .clock now ∨ v = .int now → Φ h (.store (.cleanup now))) :
    (Service.cleanup v).Spec Φ (fun _ _ => True) h := by
  cases v with
  | null =>
    refine Prog.spec_perform_bind.mpr ⟨hfree _ _ trivial, fun t => ?_, fun _ => trivial⟩
    exact spec_run (.store (.cleanup t)) (hstore _ _ (Or.inl (Hist.got_snoc _ _ _)))
  | int t => exact spec_run (.store (.cleanup t)) (hstore _ _ (Or.inr rfl))
  | bool | float | str | arr | obj => trivial

/-- The programs on the keyring leave the ledger alone. -/
theorem replaceAndReload_spec (k : KeyRing) (h : Hist) :
    (KeyRing.replaceAndReload k).Spec (fun _ c => c.Free) (fun _ _ => True) h := by
  have hreload : ∀ h : Hist, (Prog.raiseAs .keyringCommitUncertain KeyRing.reload).Spec
      (fun _ c => c.Free) (fun _ _ => True) h := fun h =>
    Prog.Spec.raiseAs ((reload_spec h).mono (fun _ _ => id) (by rintro h₁ (e | _) - <;> trivial))
  refine ⟨trivial, fun a => ?_⟩
  cases a with
  | ok _ => exact hreload _
  | error e =>
    refine Prog.Spec.bind ((hreload _).mono (fun _ _ => id) ?_)
    rintro h₁ (e' | _) - <;> trivial

theorem rotate_spec (h : Hist) :
    KeyRing.rotate.Spec (fun _ c => c.Free) (fun _ _ => True) h := by
  refine stable_spec (fun _ _ => id) trivial_lasting (fun _ _ => trivial) fun h' _ => ?_
  refine Prog.spec_perform_bind.mpr ⟨trivial, fun memory => ?_, fun _ => trivial⟩
  refine Prog.spec_perform_bind.mpr ⟨trivial, fun kid => ?_, fun _ => trivial⟩
  refine Prog.spec_perform_bind.mpr ⟨trivial, fun key => ?_, fun _ => trivial⟩
  refine Prog.Spec.bind ((replaceAndReload_spec _ _).mono (fun _ _ => id) ?_)
  rintro _ (e | _) - <;> trivial

theorem retireHashKey_spec (kid : Str) (h : Hist) :
    (Service.retireHashKey kid).Spec (fun _ c => c.Free) (fun _ _ => True) h := by
  refine withLock_spec (fun _ _ => id) trivial_lasting ?_
  refine stable_spec (fun _ _ => id) trivial_lasting (fun _ _ => trivial) fun h' _ => ?_
  refine Prog.spec_perform_bind.mpr ⟨trivial, fun memory => ?_, fun _ => trivial⟩
  split_ifs
  · trivial
  · trivial
  · simp only [Service.hashKeyIsInUse, Prog.bind_assoc, Prog.spec_perform_bind, Op.Free,
      true_and, Prog.pure_def, Prog.ret_bind, Prog.spec_ite, implies_true, and_true]
    exact fun _ _ => ⟨fun _ => trivial, fun _ => replaceAndReload_spec _ _⟩

theorem backupWith_spec (h : Hist) :
    KeyRing.backupWith.Spec (fun _ c => c.Free) (fun _ _ => True) h := by
  refine stable_spec (fun _ _ => id) trivial_lasting (fun _ _ => trivial) fun h' _ => ?_
  simp only [Prog.spec_perform_bind, Op.Free, Prog.pure_def, Prog.spec_ret, implies_true,
    and_self]

/-- The check of a credential only reads. -/
theorem credentialIsAccepted_spec (secret : Json) (role : Str) (h : Hist) :
    (Service.credentialIsAccepted H secret role).Spec (fun _ c => c.Idle) (fun _ _ => True)
      h := by
  unfold Service.credentialIsAccepted
  split
  · trivial
  · refine Prog.spec_perform_bind.mpr ⟨trivial, fun now => ?_, fun _ => trivial⟩
    refine Prog.Spec.bind ((authenticate_spec _ _ _ _).mono (fun _ _ => AuthCommand.idle) ?_)
    rintro _ (e | _) - <;> trivial

/-- So does readiness. -/
theorem keysMatch_spec (checks : List (Str × Str)) (h : Hist) :
    (Service.keysMatch H checks).Spec (fun _ c => c.Idle) (fun _ _ => True) h := by
  induction checks generalizing h with
  | nil => trivial
  | cons x checks ih =>
    obtain ⟨kid, expected⟩ := x
    refine Prog.spec_perform_bind.mpr ⟨trivial, fun memory => ?_, fun _ => trivial⟩
    split
    · trivial
    · refine Prog.spec_lift_bind.mpr ⟨fun check _ => ?_, fun _ _ => trivial⟩
      exact Prog.spec_ite.mpr ⟨fun _ => trivial, fun _ => ih _⟩

theorem referencedHashKeyChecks_spec (h : Hist) :
    Service.referencedHashKeyChecks.Spec (fun _ c => c.Idle) (fun _ _ => True) h := by
  refine Prog.spec_perform_bind.mpr ⟨trivial, fun kids => ?_, fun _ => trivial⟩
  refine Prog.spec_ite.mpr ⟨fun _ => trivial, fun _ => ?_⟩
  refine Prog.spec_perform_bind.mpr ⟨trivial, fun checks => ?_, fun _ => trivial⟩
  exact Prog.spec_ite.mpr ⟨fun _ => trivial, fun _ => trivial⟩

theorem ready_spec (h : Hist) :
    (Service.ready H).Spec (fun _ c => c.Idle) (fun _ _ => True) h := by
  refine Prog.spec_perform_bind.mpr ⟨trivial, fun required => ?_, fun _ => trivial⟩
  refine Prog.spec_ite.mpr ⟨fun _ => trivial, fun _ => ?_⟩
  refine Prog.Spec.bind ((referencedHashKeyChecks_spec _).mono (fun _ _ => id) ?_)
  rintro _ (_ | _ | checks) -
  · trivial
  · trivial
  · exact keysMatch_spec checks _

/-- A program under the instance lock. -/
theorem withInstanceLock_spec {α : Type} {Φ : Hist → Op → Prop} {p : HostProg α} {h : Hist}
    (hΦ : ∀ h c, Op.Free c → Φ h c) (hp : ∀ h, p.Spec Φ (fun _ _ => True) h) :
    (withInstanceLock p).Spec Φ (fun _ _ => True) h := by
  refine Prog.spec_perform_bind.mpr ⟨hΦ _ _ trivial, fun acquired => ?_, fun _ => trivial⟩
  exact Prog.spec_ite.mpr
    ⟨fun _ => ensureRelease_spec (fun h => hΦ h _ trivial) trivial_lasting (hp _),
      fun _ => trivial⟩

theorem serveProgram_spec (h : Hist) :
    (Command.serveProgram H).Spec (fun _ c => c.Free) (fun _ _ => True) h := by
  refine Prog.spec_perform_bind.mpr ⟨trivial, fun acquired => ?_, fun _ => trivial⟩
  refine Prog.spec_ite.mpr ⟨fun _ => ?_, fun _ => trivial⟩
  refine Prog.Spec.bind ((construct_spec _).mono (fun _ _ => id) ?_)
  rintro h₁ (e | _) -
  · trivial
  refine Prog.Spec.bind ((ready_spec _).mono (fun _ _ => Op.Idle.free) ?_)
  rintro h₂ (e | ready) -
  · trivial
  · exact Prog.spec_ite.mpr
      ⟨fun _ => spec_run .startServing trivial, fun _ => trivial⟩

/-! ### Requests -/

/-- What the outcome of a request says about the history of its thread. -/
def Returned (H : HashLib) (r : Request) (h : Hist) (x : Except Error Outcome) : Prop :=
  match r with
  | .api (.verifyProof q) => ∃ y, x = y.map Outcome.verification ∧ VerifyOutcome H q h y
  | .api (.issueProof q) => ∃ y, x = y.map Outcome.issued ∧ IssueOutcome H q h y
  | .api (.rotateCredential q) => ∃ y, x = y.map Outcome.rotated ∧ RotateOutcome q h y
  | .command (.clientRotate q) =>
    (∃ e, x = .error e) ∨ ∃ y, x = y.map Outcome.rotated ∧ RotateOutcome q h y
  | _ => True

/-- The outcome of a program under a constructor. -/
theorem spec_map {α β : Type} {Φ : Hist → Op → Prop} {Ψ : Hist → Except Error α → Prop}
    {p : HostProg α} {h : Hist} {f : α → β} (hp : p.Spec Φ Ψ h) :
    (f <$> p).Spec Φ (fun h x => ∃ y, x = y.map f ∧ Ψ h y) h := by
  rw [Prog.map_def]
  refine Prog.Spec.bind (hp.mono (fun _ _ => id) ?_)
  rintro h₁ (e | a) hΨ
  · exact ⟨.error e, rfl, hΨ⟩
  · exact ⟨.ok a, rfl, hΨ⟩

theorem spec_map_trivial {α β : Type} {Φ : Hist → Op → Prop} {p : HostProg α} {h : Hist}
    {f : α → β} (hp : p.Spec Φ (fun _ _ => True) h) :
    (f <$> p).Spec Φ (fun _ _ => True) h :=
  (spec_map hp).mono (fun _ _ => id) fun _ _ _ => trivial

/-- What a request that hands out credentials says about its history. -/
def ReturnsCredentials (H : HashLib) (r : Request) (h : Hist) (x : Except Error Outcome) : Prop :=
  match r with
  | .api (.createClient q) | .command (.clientCreate q) =>
    (∃ e, x = .error e) ∨ ∃ y, x = y.map Outcome.client ∧ CreateOutcome H q h y
  | .api (.rotateCredential _) | .command (.clientRotate _) =>
    (∃ e, x = .error e) ∨ ∃ y, x = y.map Outcome.rotated ∧ ReturnsSecret H h y
  | _ => True

/-- The commands of a request. -/
inductive RequestCommand (H : HashLib) (r : Request) (h : Hist) : Op → Prop
  | free {c : Op} (free : c.Free) : RequestCommand H r h c
  | sweep {now : ℤ} (reading : h.Got .clock now ∨ r = .api (.cleanup (.int now))) :
      RequestCommand H r h (.store (.cleanup now))
  | verify {q : VerifyRequest} {c : Op} (request : r = .api (.verifyProof q))
      (command : VerifyCommand H q h c) : RequestCommand H r h c
  | issue {q : IssueRequest} {proof check : Str} {record : ProofRecord}
      (request : r = .api (.issueProof q)) (cleans : h.OnlyCleans)
      (args : IssueArgs H q h proof record check) (checks : IssueChecks q h record) :
      RequestCommand H r h (.store (.issueProof record check))
  | create {q : CreateClientRequest} {a : CreateClient}
      (request : r = .api (.createClient q) ∨ r = .command (.clientCreate q))
      (args : CreateArgs H q h a) : RequestCommand H r h (.store (.createClient a))
  | rotate {q : RotateRequest} {a : RotateCredential}
      (request : r = .api (.rotateCredential q) ∨ r = .command (.clientRotate q))
      (args : RotateArgs q h a) (generated : ∃ secret, h.Generated H a.replacement secret) :
      RequestCommand H r h (.store (.rotateCredential a))
  | revoke {v : Json} {clientId : Str} {now : ℤ}
      (request : r = .api (.revokeClient v) ∨ r = .command (.clientRevoke v))
      (text : Service.text v "client_id" 128 = .ok clientId) (reading : h.Got .clock now) :
      RequestCommand H r h (.store (.revokeClient clientId now))
  | activate {now : ℤ}
      (request : r = .api .activateRestoredBackup ∨ r = .command .dbActivateRestore)
      (reading : h.Got .clock now) : RequestCommand H r h (.store (.activateRestoredBackup now))

/-- The commands of an opportunistic cleanup are commands of its request. -/
theorem CleanupCommand.request {r : Request} {h : Hist} {now : ℤ} {c : Op}
    (hc : CleanupCommand h now c) : RequestCommand H r h c := by
  cases hc with
  | cleanup reading => exact .sweep (Or.inl reading)
  | schedule | lock | reschedule | unlock => exact .free trivial

/-- The commands of a request are supplied by it. -/
theorem RequestCommand.supplied {r : Request} {h : Hist} {c : Op} (hc : RequestCommand H r h c) :
    Supplied H r h c := by
  cases hc with
  | free hfree => exact .of_free hfree
  | sweep reading => exact reading
  | verify request command =>
    subst request
    exact command.supplied
  | issue request cleans args => exact ⟨cleans, _, _, request, args⟩
  | create request args =>
    exact ⟨args.clientId, args.issuance.1, args.issuance.2.1, args.verification.1,
      args.verification.2.1⟩
  | rotate request args => exact ⟨_, request, args⟩
  | revoke | activate => trivial

/-- What the writing commands of a request are supplied with, call by call. -/
def Commanded (H : HashLib) (r : Request) (h : Hist) : Op → Prop
  | .store (.createClient a) => ∃ q,
    (r = .api (.createClient q) ∨ r = .command (.clientCreate q)) ∧ CreateArgs H q h a
  | .store (.issueProof record check) => ∃ q proof, r = .api (.issueProof q) ∧
    IssueArgs H q h proof record check ∧ IssueChecks q h record
  | .store (.consumeProof a) => ∃ q, r = .api (.verifyProof q) ∧ VerifyArgs H q h a
  | .store (.rotateCredential a) => ∃ q,
    (r = .api (.rotateCredential q) ∨ r = .command (.clientRotate q)) ∧ RotateArgs q h a ∧
      ∃ secret, h.Generated H a.replacement secret
  | .store (.revokeClient clientId now) => ∃ v,
    (r = .api (.revokeClient v) ∨ r = .command (.clientRevoke v)) ∧
      Service.text v "client_id" 128 = .ok clientId ∧ h.Got .clock now
  | .store (.cleanup now) => h.Got .clock now ∨ r = .api (.cleanup (.int now))
  | .store (.activateRestoredBackup now) => h.Got .clock now
  | _ => True

/-- **The writing commands of a request**, call by call. -/
theorem RequestCommand.commanded {r : Request} {h : Hist} {c : Op} (hc : RequestCommand H r h c) :
    Commanded H r h c := by
  cases hc with
  | @free c hfree =>
    cases c with
    | store => exact hfree.elim
    | _ => trivial
  | sweep reading => exact reading
  | @verify q c request command =>
    cases command with
    | @cleanup now c hcleanup =>
      cases hcleanup with
      | cleanup reading => exact Or.inl reading
      | schedule | lock | reschedule | unlock => trivial
    | @cached a c args hcached => cases hcached <;> trivial
    | clock | credential | memory | draw => trivial
    | consume cleans args => exact ⟨q, request, args⟩
  | issue request cleans args checks => exact ⟨_, _, request, args, checks⟩
  | create request args => exact ⟨_, request, args⟩
  | rotate request args generated => exact ⟨_, request, args, generated⟩
  | revoke request text reading => exact ⟨_, request, text, reading⟩
  | activate request reading => exact reading

/-- A command after the process has loaded its keyring. -/
theorem spec_construct {α : Type} {Φ : Hist → Op → Prop} {p : HostProg α} {h : Hist}
    {Ψ : Hist → Except Error α → Prop} (hfree : ∀ h c, Op.Free c → Φ h c)
    (hraise : ∀ h e, Ψ h (.error e)) (hp : ∀ h, p.Spec Φ Ψ h) :
    (Service.construct >>= fun _ => p).Spec Φ Ψ h := by
  refine Prog.Spec.bind ((construct_spec h).mono hfree ?_)
  rintro h₁ (e | _) -
  · exact hraise _ _
  · exact hp _

/-- **Every request meets its specification.** -/
theorem program_commands (r : Request) : (r.program H).Spec (RequestCommand H r)
    (fun h x => Returned H r h x ∧ ReturnsCredentials H r h x) [] := by
  have hfree : ∀ h c, Op.Free c → RequestCommand H r h c := fun _ _ => .free
  have hof : ∀ {p : HostProg Outcome} {h : Hist}, p.Spec (fun _ c => c.Free) (fun _ _ => True) h →
      p.Spec (RequestCommand H r) (fun _ _ => True) h := fun hp => hp.mono hfree fun _ _ => id
  have hidle : ∀ {p : HostProg Outcome} {h : Hist},
      p.Spec (fun _ c => c.Idle) (fun _ _ => True) h →
        p.Spec (RequestCommand H r) (fun _ _ => True) h :=
    fun hp => hp.mono (fun _ _ hc => .free hc.free) fun _ _ => id
  -- nothing is said about the outcome of the other requests
  have hplain : ∀ {p : HostProg Outcome} {h : Hist}, (∀ h x, Returned H r h x) →
      (∀ h x, ReturnsCredentials H r h x) → p.Spec (RequestCommand H r) (fun _ _ => True) h →
        p.Spec (RequestCommand H r) (fun h x => Returned H r h x ∧ ReturnsCredentials H r h x) h :=
    fun hr hc hp => hp.mono (fun _ _ => id) fun h x _ => ⟨hr h x, hc h x⟩
  have htriv : ∀ (h : Hist) (e : Error), (fun (_ : Hist) (_ : Except Error Outcome) => True) h
      (.error e) := fun _ _ => trivial
  cases r with
  | api c =>
    cases c with
    | createClient q =>
      refine (spec_map (createClient_commands q [] hfree fun h a ha => ?_)).mono (fun _ _ => id)
        fun h x hx => ⟨trivial, Or.inr hx⟩
      exact .create (Or.inl rfl) ha
    | issueProof q =>
      refine (spec_map (issueProof_commands q hfree (fun _ _ _ => CleanupCommand.request) ?_)).mono
        (fun _ _ => id) fun h x hx => ⟨hx, trivial⟩
      exact fun h proof record check hcleans hargs hchecks => .issue rfl hcleans hargs hchecks
    | verifyProof q =>
      refine (spec_map (verifyProof_spec q)).mono (fun _ _ => .verify rfl) fun h x hx => ?_
      obtain ⟨y, hy, -, houtcome⟩ := hx
      exact ⟨⟨y, hy, houtcome⟩, trivial⟩
    | rotateCredential q =>
      refine (spec_map (rotateCredential_commands q [] hfree fun h a ha hg => ?_)).mono
        (fun _ _ => id) fun h x hx => ?_
      · exact .rotate (Or.inl rfl) ha hg
      · obtain ⟨y, hy, houtcome, hsecret⟩ := hx
        exact ⟨⟨y, hy, houtcome⟩, Or.inr ⟨y, hy, hsecret⟩⟩
    | revokeClient v =>
      refine hplain (fun _ _ => trivial) (fun _ _ => trivial)
        (spec_map_trivial (revokeClient_commands v [] hfree ?_))
      exact fun h clientId now htext hnow => .revoke (Or.inl rfl) htext hnow
    | cleanup v =>
      refine hplain (fun _ _ => trivial) (fun _ _ => trivial)
        (spec_map_trivial (cleanup_commands v [] hfree ?_))
      exact fun h now hnow => .sweep (hnow.imp_right fun hv => by rw [hv])
    | activateRestoredBackup =>
      refine hplain (fun _ _ => trivial) (fun _ _ => trivial)
        (spec_map_trivial (activateRestoredBackup_commands [] hfree ?_))
      exact fun h now hnow => .activate (Or.inl rfl) hnow
    | retireHashKey kid =>
      exact hplain (fun _ _ => trivial) (fun _ _ => trivial)
        (hof (spec_map_trivial (retireHashKey_spec kid [])))
    | rotateKey =>
      exact hplain (fun _ _ => trivial) (fun _ _ => trivial)
        (hof (spec_map_trivial (rotate_spec [])))
    | credentialIsAccepted secret role =>
      exact hplain (fun _ _ => trivial) (fun _ _ => trivial)
        (hidle (spec_map_trivial (credentialIsAccepted_spec secret role [])))
    | ready =>
      exact hplain (fun _ _ => trivial) (fun _ _ => trivial)
        (hidle (spec_map_trivial (ready_spec [])))
  | command c =>
    cases c with
    | serve =>
      exact hplain (fun _ _ => trivial) (fun _ _ => trivial)
        (hof (spec_map_trivial (serveProgram_spec [])))
    -- the commands construct an instance first; what they do then is what the API does
    | clientCreate q =>
      refine spec_construct hfree (fun _ e => ⟨trivial, Or.inl ⟨e, rfl⟩⟩) fun h => ?_
      refine (spec_map (createClient_commands q h hfree fun h a ha => ?_)).mono (fun _ _ => id)
        fun h x hx => ⟨trivial, Or.inr hx⟩
      exact .create (Or.inr rfl) ha
    | clientRotate q =>
      refine spec_construct hfree (fun _ e => ⟨Or.inl ⟨e, rfl⟩, Or.inl ⟨e, rfl⟩⟩) fun h => ?_
      refine (spec_map (rotateCredential_commands q h hfree fun h a ha hg => ?_)).mono
        (fun _ _ => id) fun h x hx => ?_
      · exact .rotate (Or.inr rfl) ha hg
      · obtain ⟨y, hy, houtcome, hsecret⟩ := hx
        exact ⟨Or.inr ⟨y, hy, houtcome⟩, Or.inr ⟨y, hy, hsecret⟩⟩
    | clientRevoke v =>
      refine hplain (fun _ _ => trivial) (fun _ _ => trivial)
        (spec_construct hfree htriv fun h => spec_map_trivial (revokeClient_commands v h hfree ?_))
      exact fun h clientId now htext hnow => .revoke (Or.inr rfl) htext hnow
    | cleanup =>
      refine hplain (fun _ _ => trivial) (fun _ _ => trivial)
        (spec_construct hfree htriv fun h => spec_map_trivial (cleanup_commands _ h hfree ?_))
      exact fun h now hnow => .sweep (hnow.imp_right fun hv => by cases hv)
    -- the command loads the keyring alone, and then rotates
    | keyRotate =>
      refine hplain (fun _ _ => trivial) (fun _ _ => trivial)
        (withInstanceLock_spec hfree fun h => ?_)
      refine Prog.Spec.bind ((reload_spec h).mono hfree ?_)
      rintro h₁ (e | _) -
      · trivial
      · exact hof (spec_map_trivial (rotate_spec h₁))
    | keyRetire kid =>
      exact hplain (fun _ _ => trivial) (fun _ _ => trivial) (withInstanceLock_spec hfree fun h =>
        spec_construct hfree htriv fun h => hof (spec_map_trivial (retireHashKey_spec kid h)))
    | dbBackup =>
      exact hplain (fun _ _ => trivial) (fun _ _ => trivial)
        (spec_construct hfree htriv fun h => hof (spec_map_trivial (backupWith_spec h)))
    | dbActivateRestore =>
      refine hplain (fun _ _ => trivial) (fun _ _ => trivial) (withInstanceLock_spec hfree fun h =>
        spec_construct hfree htriv fun h =>
          spec_map_trivial (activateRestoredBackup_commands h hfree ?_))
      exact fun h now hnow => .activate (Or.inr rfl) hnow

/-- What the commands of a request are supplied with, and what it returns. -/
theorem program_spec (r : Request) :
    (r.program H).Spec (Supplied H r) (Returned H r) [] :=
  (program_commands r).mono (fun _ _ => RequestCommand.supplied) fun _ _ => And.left

end Onceproof

import Onceproof.Ledger.Lineage

/-!
# The secrets of the credentials

The thread that stores a credential has drawn its secret. `GeneratedFor` says that a text is the
secret that was generated for a credential of a ledger.

* `Lineage.generated`: every credential has a secret that was generated for it.
* `GeneratedFor.secret`: the secret carries the role and the id of the credential, and the
  credential stores its digest.
* `credentialIdFromSecret_newSecret`: the parser reads the id back from every secret that was
  drawn.
-/

namespace Onceproof

variable {H : HashLib} {w : World} {τ : List SystemTrans} {s : SystemState}
variable {runs : List (List SystemTrans)} {c : CredentialRow} {secret : Str}

/-! ### The format of secrets -/

/-- **The parser reads the id back** from a secret that was built with it. -/
theorem Service.credentialIdFromSecret_newSecret {role : Role} {idBytes bytes : Bytes}
    (hbytes : bytes ≠ []) :
    Service.credentialIdFromSecret
      (Service.newSecret role (role.idPrefix ++ hexlify idBytes) bytes) role =
        some (role.idPrefix ++ hexlify idBytes) := by
  have hprefix : dot ∉ role.secretPrefix := by
    cases role <;> decide
  have hid : dot ∉ role.idPrefix ++ hexlify idBytes := by
    have hrole : dot ∉ role.idPrefix := by
      cases role <;> decide
    simpa using ⟨hrole, dot_notMem_hexlify idBytes⟩
  have hidne : role.idPrefix ++ hexlify idBytes ≠ [] := by
    cases role <;> simp [Role.idPrefix, lit_eq_nil]
  have hrandom : base64url bytes ≠ [] := by
    intro h
    have hempty : base64url bytes = base64url [] := h
    exact hbytes (base64url_inj hempty)
  rw [Service.credentialIdFromSecret, Service.newSecret,
    Service.threeParts_join hprefix hid (dot_notMem_base64url bytes)]
  simp [hidne, hrandom]

/-- A text names a credential of one role only. -/
theorem Service.credentialIdFromSecret_role {role role' : Role} {id id' : Str}
    (h : Service.credentialIdFromSecret secret role = some id)
    (h' : Service.credentialIdFromSecret secret role' = some id') : role = role' := by
  have hprefix : ∀ {r : Role} {i : Str}, Service.credentialIdFromSecret secret r = some i →
      ∃ b c, Service.threeParts secret = some (r.secretPrefix, b, c) := by
    intro r i hi
    unfold Service.credentialIdFromSecret at hi
    cases hparts : Service.threeParts secret with
    | none => simp [hparts] at hi
    | some x =>
      obtain ⟨a, b, c⟩ := x
      rw [hparts] at hi
      dsimp only at hi
      split_ifs at hi with hcond
      simp only [not_or, not_not] at hcond
      exact ⟨b, c, by rw [hcond.1]⟩
  obtain ⟨b, c, hparts⟩ := hprefix h
  obtain ⟨b', c', hparts'⟩ := hprefix h'
  have hsame : role.secretPrefix = role'.secretPrefix := by
    rw [hparts] at hparts'
    exact (Prod.mk.inj (Option.some.inj hparts')).1
  revert hsame
  cases role <;> cases role' <;> decide

/-! ### Generated secrets -/

/-- Keyed credential digests are injective. -/
def HashLib.CredentialInjective (H : HashLib) : Prop :=
  ∀ {key key' : RootKey} {secret secret' d : Str}, credentialDigest H key.val secret = .ok d →
    credentialDigest H key'.val secret' = .ok d → key = key' ∧ secret = secret'

/-- The random generator returns as many bytes as it is asked for: `n`, 8 for a key id, 16 for
the id of a verification. -/
def SystemEvent.Sized : SystemEvent → Prop
  | .act _ _ _ (.tokenBytes n) _ (.ok b) => b.length = n
  | .act _ _ _ (.newKid _) i _ => i.bytes.length = 8
  | .act _ _ _ (.store (.consumeProof _)) i _ => i.draws.verification.length = 16
  | _ => True

instance : ∀ l : SystemEvent, Decidable (SystemEvent.Sized l) := fun l => by
  unfold SystemEvent.Sized
  split <;> infer_instance

/-- The random generator serves a run as it is asked. -/
def SizedDraws (τ : List SystemTrans) : Prop := ∀ u ∈ τ, SystemEvent.Sized u.label

instance (τ : List SystemTrans) : Decidable (SizedDraws τ) :=
  inferInstanceAs (Decidable (∀ u ∈ τ, SystemEvent.Sized u.label))

/-- What a thread has drawn is as long as it asked for. -/
theorem SizedDraws.length {τ₁ τ₂ : List SystemTrans} {u : SystemTrans} {tid n : ℕ} {b : Bytes}
    (h : SizedDraws (τ₁ ++ u :: τ₂)) (hb : Hist.Got (acted tid τ₁) (.tokenBytes n) b) :
    b.length = n := by
  obtain ⟨v, hv, p, r, i, hl⟩ := mem_acted.mp hb
  have hsized := h v (List.mem_append_left _ hv)
  rwa [hl] at hsized

/-- **The ids of clients** are drawn. -/
theorem Lineage.clientId_eq (h : Lineage H runs s) (hsized : ∀ τ ∈ runs, SizedDraws τ) :
    ∀ id, (s.world.ledger.clients.get? id).isSome = true →
      ∃ bytes : Bytes, bytes.length = 12 ∧ id = lit "opc_" ++ hexlify bytes := by
  refine h.ledger_kept (I := fun db => ∀ id, (db.clients.get? id).isSome = true →
    ∃ bytes : Bytes, bytes.length = 12 ∧ id = lit "opc_" ++ hexlify bytes)
    (fun _ hc => (by cases hc)) (fun hI id hc => ?_) ?_
  · exact hI id (Store.backup_clients _ ▸ hc)
  · intro τ₁ u τ₂ tid p r call i reply hcut hl hcommand hcommit hI id hc
    have hstep := hcommit.client id
    generalize ho : u.src.world.ledger.clients.get? id = o at hstep
    generalize ho' : u.dst.world.ledger.clients.get? id = o' at hstep hc
    cases hstep with
    | same => exact hI id (ho ▸ hc)
    | @created a x c label named =>
      obtain rfl : call = .createClient a := congrArg Commit.call label
      obtain ⟨q, -, hargs⟩ := hcommand.commanded
      obtain ⟨bytes, hdrawn, hid⟩ := hargs.clientId
      exact ⟨bytes, (hsized _ hcut).length hdrawn, named ▸ hid⟩
    | revoked => exact hI id (ho ▸ rfl)

/-- A row of a credential record: what happens to a credential changes none of these fields. -/
structure CredentialRow.Of (c : CredentialRow) (record : CredentialRecord) : Prop where
  credentialId : c.credentialId = record.credentialId
  clientId : c.clientId = record.clientId
  role : c.role = record.role
  hashKid : c.hashKid = record.hashKid
  secretDigest : c.secretDigest = record.secretDigest

/-- The secret that was generated for a credential: the thread that stored the credential had
drawn the two together. -/
def GeneratedFor (H : HashLib) (runs : List (List SystemTrans)) (c : CredentialRow)
    (secret : Str) : Prop :=
  ∃ τ₁ u τ₂ tid p r call i reply record now, τ₁ ++ u :: τ₂ ∈ runs ∧
    u.label = .act tid p r (.store call) i (.ok reply) ∧
    Commit.Inserts ⟨call, i.chance, reply⟩ record now ∧ c.Of record ∧
    Hist.Generated H (acted tid τ₁) record secret

theorem GeneratedFor.congr {c' : CredentialRow} (h : GeneratedFor H runs c secret)
    (hof : ∀ record, c.Of record → c'.Of record) : GeneratedFor H runs c' secret := by
  obtain ⟨τ₁, u, τ₂, tid, p, r, call, i, reply, record, now, hτ, hl, hins, hc, hg⟩ := h
  exact ⟨τ₁, u, τ₂, tid, p, r, call, i, reply, record, now, hτ, hl, hins, hof record hc, hg⟩

/-- A request stores a credential with the secret that it drew for it. -/
theorem RequestCommand.generated {r : Request} {h : Hist} {call : StoreCall} {x : Chance}
    {reply : call.Reply} {record : CredentialRecord} {now : ℤ}
    (hc : RequestCommand H r h (.store call)) (hins : Commit.Inserts ⟨call, x, reply⟩ record now) :
    ∃ secret, h.Generated H record secret := by
  have hcommanded := hc.commanded
  cases hins with
  | issuance a =>
    obtain ⟨q, -, hargs⟩ := hcommanded
    exact hargs.issuance.2.2
  | verification a =>
    obtain ⟨q, -, hargs⟩ := hcommanded
    exact hargs.verification.2.2
  | replacement a =>
    obtain ⟨q, -, -, hgenerated⟩ := hcommanded
    exact hgenerated

/-- **Every credential has a secret that was generated for it.** -/
theorem Lineage.generated (h : Lineage H runs s) :
    ∀ c ∈ s.world.ledger.credentials, ∃ secret, GeneratedFor H runs c secret := by
  refine h.ledger_kept (I := fun db => ∀ c ∈ db.credentials, ∃ secret, GeneratedFor H runs c secret)
    (fun _ hc => absurd hc Table.not_mem_empty) (fun hI c hc => ?_) ?_
  · exact hI c (Store.backup_credentials _ ▸ hc)
  · intro τ₁ u τ₂ tid p r call i reply hcut hl hcommand hcommit hI c hc
    rcases hcommit.credential_origin hc with ⟨c₀, hc₀, hid, hclient, hrole, hkid, hdigest⟩ |
        ⟨record, now, hins, rfl⟩
    · -- the credential was there
      obtain ⟨secret, hsecret⟩ := hI c₀ hc₀
      refine ⟨secret, hsecret.congr fun record hof => ?_⟩
      exact ⟨hid ▸ hof.credentialId, hclient ▸ hof.clientId, hrole ▸ hof.role,
        hkid ▸ hof.hashKid, hdigest ▸ hof.secretDigest⟩
    · -- the commit has just stored it
      obtain ⟨secret, hsecret⟩ := hcommand.generated hins
      exact ⟨secret, τ₁, u, τ₂, tid, p, r, call, i, reply, record, now, hcut, hl, hins,
        ⟨rfl, rfl, rfl, rfl, rfl⟩, hsecret⟩

/-- **The secret of a credential** carries its role and its id, and the credential stores its
digest. -/
theorem GeneratedFor.secret_eq (h : GeneratedFor H runs c secret)
    (hsized : ∀ τ ∈ runs, SizedDraws τ) :
    ∃ (key : RootKey) (idBytes bytes : Bytes), idBytes.length = 12 ∧ bytes.length = 32 ∧
      c.credentialId = c.role.idPrefix ++ hexlify idBytes ∧
      secret = Service.newSecret c.role c.credentialId bytes ∧
      credentialDigest H key.val secret = .ok c.secretDigest := by
  obtain ⟨τ₁, u, τ₂, tid, p, r, call, i, reply, record, now, hτ, -, -, hof, h₁, σ, h₂, hh,
    hyields⟩ := h
  obtain ⟨idBytes, bytes, m, -, -, hid, hsecret, -, hdigest, rfl⟩ := newCredential_yields hyields
  have hid' : Hist.Got (acted tid τ₁) (.tokenBytes 12) idBytes := by
    simp [Hist.Got, hh]
  have hbytes : Hist.Got (acted tid τ₁) (.tokenBytes 32) bytes := by
    simp [Hist.Got, hh]
  refine ⟨m.currentKey.2, idBytes, bytes, (hsized _ hτ).length hid', (hsized _ hτ).length hbytes,
    ?_, ?_, ?_⟩
  · rw [hof.credentialId, hof.role, hid]
  · rw [hof.credentialId, hof.role, hsecret]
  · rw [hof.secretDigest, hdigest]

/-- The parser reads the id back from the secret of a credential. -/
theorem GeneratedFor.parse (h : GeneratedFor H runs c secret)
    (hsized : ∀ τ ∈ runs, SizedDraws τ) :
    Service.credentialIdFromSecret secret c.role = some c.credentialId := by
  obtain ⟨key, idBytes, bytes, -, hlength, hid, hsecret, -⟩ := h.secret_eq hsized
  have hbytes : bytes ≠ [] := by
    rintro rfl
    cases hlength
  rw [hsecret, hid]
  exact Service.credentialIdFromSecret_newSecret hbytes

/-- The id of a credential can be bound to a statement. -/
theorem GeneratedFor.encodable (h : GeneratedFor H runs c secret)
    (hsized : ∀ τ ∈ runs, SizedDraws τ) : c.credentialId.encodable = true := by
  obtain ⟨key, idBytes, bytes, -, -, hid, -⟩ := h.secret_eq hsized
  rw [hid, encodable_append, encodable_hexlify]
  cases c.role <;> rfl

/-- **One secret for a credential**, if the keyed digest is injective. -/
theorem GeneratedFor.unique (hH : H.CredentialInjective) (h : GeneratedFor H runs c secret)
    {secret' : Str} (h' : GeneratedFor H runs c secret') (hsized : ∀ τ ∈ runs, SizedDraws τ) :
    secret = secret' := by
  obtain ⟨key, -, -, -, -, -, -, hdigest⟩ := h.secret_eq hsized
  obtain ⟨key', -, -, -, -, -, -, hdigest'⟩ := h'.secret_eq hsized
  exact (hH hdigest hdigest').2

end Onceproof

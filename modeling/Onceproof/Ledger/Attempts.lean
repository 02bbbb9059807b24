import Onceproof.Ledger.Provenance

/-!
# Verification attempts

What the thread of a `verify_proof` call does in a run. Its arguments are fixed by the one
credential row that it reads (`VerifyArgs.unique`), and its commands raise only when they are
interrupted or when the store's transaction raises (`attempt_failed`).
-/

namespace Onceproof

/-! ### Commands and ends -/

/-- The commands of a verification; nothing is said of other requests. -/
def Request.Commands (H : HashLib) (r : Request) (h : Hist) (c : Op) : Prop :=
  match r with
  | .api (.verifyProof q) => VerifyCommand H q h c
  | _ => True

/-- The end of a verification; nothing is said of other requests. -/
def Request.Ends (H : HashLib) (r : Request) (h : Hist) (x : Except Error Outcome) : Prop :=
  match r with
  | .api (.verifyProof q) =>
    ∃ y, x = y.map Outcome.verification ∧ h.Settles y ∧ VerifyOutcome H q h y
  | _ => True

theorem commands_spec {H : HashLib} (r : Request) :
    (r.program H).Spec (r.Commands H) (r.Ends H) [] := by
  cases r with
  | command c => exact Prog.spec_true _ _
  | api c =>
    cases c with
    | verifyProof q => exact spec_map (verifyProof_spec q)
    | createClient | issueProof | rotateCredential | revokeClient | cleanup
    | activateRestoredBackup | retireHashKey | rotateKey | credentialIsAccepted | ready =>
      exact Prog.spec_true _ _

variable {H : HashLib} {w : World} {τ σ σ₁ σ₂ ρ : List SystemTrans} {s : SystemState}
variable {u v : SystemTrans} {tid pid p : ℕ} {q : VerifyRequest} {r : Request}

/-- The events of a thread name one request. -/
theorem SystemRunFrom.request_eq (h : SystemRunFrom H w τ s) (hu : u ∈ τ) (hv : v ∈ τ)
    {p' : ℕ} {r' : Request} (hlu : u.label.thread? = some (tid, p, r))
    (hlv : v.label.thread? = some (tid, p', r')) : p' = p ∧ r' = r := by
  obtain ⟨hp, hr⟩ := (Machine.coherent h).unique u hu v hv tid p r p' r' hlu hlv
  exact ⟨hp.symm, hr.symm⟩

/-- A command of an attempt. -/
theorem attempt_act (h : SystemRunFrom H w τ s) (hu : u ∈ τ)
    (hlu : u.label.thread? = some (tid, pid, .api (.verifyProof q))) (hcut : τ = σ₁ ++ v :: σ₂)
    {c : Op} {i : Choice} {a : c.Ans} (hl : v.label = .act tid p r c i a) :
    c.exec p tid i v.src.world = some (a, v.dst.world) ∧ VerifyCommand H q (acted tid σ₁) c := by
  have hv : v ∈ τ := hcut ▸ List.mem_append_right _ List.mem_cons_self
  obtain ⟨-, rfl⟩ := h.request_eq hu hv hlu (by rw [hl]; rfl)
  exact Machine.act_spec (Φ := Request.Commands H) (Ψ := Request.Ends H) commands_spec (hcut ▸ h) hl

/-- The return of an attempt. -/
theorem attempt_ret (h : SystemRunFrom H w (σ ++ u :: ρ) s) {x : Except Error Outcome}
    (hl : u.label = .ret tid pid (.api (.verifyProof q)) x) :
    ∃ y, x = y.map Outcome.verification ∧ Hist.Settles (acted tid σ) y ∧
      VerifyOutcome H q (acted tid σ) y :=
  (Machine.ret_spec (Φ := Request.Commands H) (Ψ := Request.Ends H) commands_spec h hl).2

theorem VerifyCommand.unread {h : Hist} {id : Str} (hc : VerifyCommand H q h (.credential id)) :
    h.Unread := by
  generalize hcall : Op.credential id = c at hc
  cases hc with
  | credential _ _ first => exact first
  | clock | memory | draw | consume => cases hcall
  | cleanup hcleanup =>
    subst hcall
    cases hcleanup
  | cached _ hcached =>
    subst hcall
    cases hcached

/-- The lookup of an idempotency key comes with the arguments of the attempt. -/
theorem VerifyCommand.lookup {h : Hist} {clientId key : Str}
    (hc : VerifyCommand H q h (.idempotent clientId key)) :
    ∃ a, VerifyArgs H q h a ∧ a.clientId = clientId ∧ a.idempotencyKey = some key := by
  generalize hcall : Op.idempotent clientId key = c at hc
  cases hc with
  | clock | memory | draw | consume | credential => cases hcall
  | cleanup hcleanup =>
    subst hcall
    cases hcleanup
  | @cached a _ args cached =>
    cases cached with
    | restore | clock | joined => cases hcall
    | lookup keyed =>
      obtain ⟨rfl, rfl⟩ := Op.idempotent.inj hcall
      exact ⟨a, args, rfl, keyed⟩

/-- An attempt reads one credential row, once. -/
theorem attempt_credential (h : SystemRunFrom H w τ s) (hu : u ∈ τ)
    (hlu : u.label.thread? = some (tid, pid, .api (.verifyProof q))) (h₁ : σ₁ ⊆ τ) (h₂ : σ₂ ⊆ τ)
    {id id' : Str} {a : (Op.credential id).Ans} {a' : (Op.credential id').Ans}
    (ha : (⟨.credential id, a⟩ : Answered Op Op.Ans) ∈ acted tid σ₁)
    (ha' : (⟨.credential id', a'⟩ : Answered Op Op.Ans) ∈ acted tid σ₂) :
    (⟨.credential id, a⟩ : Answered Op Op.Ans) = ⟨.credential id', a'⟩ := by
  obtain ⟨v, hv, p, r, i, hl⟩ := mem_acted.mp ha
  obtain ⟨v', hv', p', r', i', hl'⟩ := mem_acted.mp ha'
  obtain ⟨τ₁, τ₂, hcut⟩ := List.append_of_mem (h₁ hv)
  obtain ⟨τ₁', τ₂', hcut'⟩ := List.append_of_mem (h₂ hv')
  have hlater : ∀ {τ₁ τ₁' τ₂' k : List SystemTrans} {v v' : SystemTrans} {p p' : ℕ}
      {r r' : Request} {id id' : Str} {a : (Op.credential id).Ans} {a' : (Op.credential id').Ans}
      {i i' : Choice}, v.label = .act tid p r (.credential id) i a →
      v'.label = .act tid p' r' (.credential id') i' a' → τ = τ₁' ++ v' :: τ₂' →
      τ₁' = τ₁ ++ v :: k → False := by
    intro τ₁ τ₁' τ₂' k v v' p p' r r' id id' a a' i i' hl hl' hcut' hk
    have hmem : (⟨.credential id, a⟩ : Answered Op Op.Ans) ∈ acted tid τ₁' :=
      mem_acted.mpr ⟨v, hk ▸ List.mem_append_right _ List.mem_cons_self, p, r, i, hl⟩
    exact (attempt_act h hu hlu hcut' hl').2.unread _ _ hmem
  rcases cut_cases (hcut.symm.trans hcut') with ⟨-, rfl, -⟩ | ⟨k, hk, -⟩ | ⟨k, hk, -⟩
  · rw [hl] at hl'
    injection hl' with _ _ _ hcall _ hanswer
    obtain rfl := Op.credential.inj hcall
    rw [hanswer]
  · exact (hlater hl hl' hcut' hk).elim
  · exact (hlater hl' hl hcut hk).elim

theorem VerifyRequest.Reads.unique {proof proof' subject subject' purpose purpose' : Str}
    {audience audience' : Str} {key key' : Option Str}
    (h : q.Reads proof subject purpose audience key)
    (h' : q.Reads proof' subject' purpose' audience' key') :
    proof' = proof ∧ subject' = subject ∧ purpose' = purpose ∧ audience' = audience ∧
      key' = key :=
  ⟨Except.ok.inj (h'.proof.symm.trans h.proof), Except.ok.inj (h'.subject.symm.trans h.subject),
    Except.ok.inj (h'.purpose.symm.trans h.purpose),
    Except.ok.inj (h'.audience.symm.trans h.audience), Except.ok.inj (h'.key.symm.trans h.key)⟩

/-- **An attempt has one set of arguments**, up to the digest that its keyring gives the
proof. -/
theorem VerifyArgs.unique (h : SystemRunFrom H w τ s) (hu : u ∈ τ)
    (hlu : u.label.thread? = some (tid, pid, .api (.verifyProof q))) (h₁ : σ₁ ⊆ τ) (h₂ : σ₂ ⊆ τ)
    {a a' : ConsumeProof} (ha : VerifyArgs H q (acted tid σ₁) a)
    (ha' : VerifyArgs H q (acted tid σ₂) a') :
    a' = { a with tokenDigest := a'.tokenDigest } := by
  obtain ⟨⟨proof, k, hreads, hf, -⟩, row, now, ⟨⟨s, id, -, -, hrow, -⟩, -⟩, -, hcid, hclient⟩ := ha
  obtain ⟨⟨proof', k', hreads', hf', -⟩, row', now', ⟨⟨s', id', -, -, hrow', -⟩, -⟩, -, hcid',
    hclient'⟩ := ha'
  obtain ⟨rfl, hsubject, hpurpose, haudience, hkey⟩ := hreads.unique hreads'
  have hsame := attempt_credential h hu hlu h₁ h₂ hrow hrow'
  obtain ⟨hid, hanswer⟩ := Sigma.mk.inj hsame
  obtain rfl := Op.credential.inj hid
  obtain rfl := Option.some.inj (Except.ok.inj (eq_of_heq hanswer))
  have hfingerprint : a'.requestFingerprint = a.requestFingerprint := by
    rw [hsubject, hpurpose, haudience, hf] at hf'
    exact (Except.ok.inj hf').symm
  obtain ⟨credentialId, clientId, tokenDigest, subject, purpose, audience, fingerprint, key⟩ := a'
  dsimp only at hsubject hpurpose haudience hkey hfingerprint hcid' hclient' ⊢
  rw [hsubject, hpurpose, haudience, hkey, hfingerprint, ← hcid', ← hclient', hcid, hclient]

/-! ### Failures -/

/-- The id of a credential that was read can be bound to a statement. -/
theorem encodable_of_read (h : SystemRunFrom H w τ s) (hσ : σ ⊆ τ) {id : Str}
    {row : CredentialRow} (hrow : Hist.Got (acted tid σ) (.credential id) (some row)) :
    row.credentialId = id ∧ id.encodable = true := by
  obtain ⟨v, hv, p, r, i, hl⟩ := mem_acted.mp hrow
  have hexec := h.exec (hσ hv) hl
  have hlookup := Op.exec_credential hexec
  refine ⟨(Table.get?_eq_some.mp hlookup.symm).2, ?_⟩
  simp only [Op.exec] at hexec
  rcases (queried_eq_some hexec).2 with ⟨e, he⟩ | ⟨-, hparams⟩
  · cases he
  · simpa using hparams

/-- What a thread read from the clock is a clock reading. -/
theorem timely_of_read (h : SystemRunFrom H w τ s) (hσ : σ ⊆ τ) {t : ℤ}
    (hread : Hist.Got (acted tid σ) .clock t) : Timely t := by
  obtain ⟨v, hv, p, r, i, hl⟩ := mem_acted.mp hread
  exact Op.exec_clock (h.exec (hσ hv) hl)

/-- **Why a command of an attempt raises**: it was interrupted, or it is the store's
transaction and raises by itself. -/
theorem attempt_failed (h : SystemRunFrom H w τ s) (hu : u ∈ τ)
    (hlu : u.label.thread? = some (tid, pid, .api (.verifyProof q))) (hσ : σ ⊆ τ)
    {a : ConsumeProof} (ha : VerifyArgs H q (acted tid σ) a) (hclient : a.clientId.encodable = true)
    (hkey : ∀ k, a.idempotencyKey = some k → k.encodable = true) {e : Error}
    (hfailed : Hist.Failed (acted tid σ) e) :
    e = .interrupted ∨ ∃ v σ₁ σ₂ p r i a', τ = σ₁ ++ v :: σ₂ ∧ v ∈ σ ∧
      v.label = .act tid p r (.store (.consumeProof a')) i (.error e) ∧
      VerifyArgs H q (acted tid σ₁) a' ∧
      Tx.run (Store.consumeProof a' i.now i.draws) v.src.world.ledger = .error e := by
  obtain ⟨c, hc⟩ := hfailed
  obtain ⟨v, hv, p, r, i, hl⟩ := mem_acted.mp hc
  obtain ⟨σ₁, σ₂, hcut⟩ := List.append_of_mem (hσ hv)
  have hσ₁ : σ₁ ⊆ τ := hcut ▸ List.subset_append_left _ _
  obtain ⟨hexec, hcommand⟩ := attempt_act h hu hlu hcut hl
  obtain ⟨-, row, now, ⟨⟨s, id, htext, hparse, hrow, -⟩, -⟩, -, hcid, -⟩ := id ha
  obtain ⟨hid, henc⟩ := encodable_of_read h hσ hrow
  rcases Op.exec_error hexec with he | ⟨-, hparams⟩ | ⟨k, rfl⟩ | ⟨call, rfl, hraised⟩
  · exact Or.inl he
  · -- every text that the attempt binds can be bound
    have hbound : c.params.all Str.encodable = true := by
      cases hcommand with
      | clock | memory | draw | consume => rfl
      | cleanup hcleanup => cases hcleanup <;> rfl
      | credential =>
        have hsame := attempt_credential h hu hlu hσ hσ hrow hc
        cases (Sigma.mk.inj hsame).1
        simpa [Op.params] using henc
      | @cached a' c' args cached =>
        have heq := VerifyArgs.unique h hu hlu hσ hσ₁ ha args
        cases cached with
        | restore | clock => rfl
        | joined =>
          rw [heq]
          simpa [Op.params, ← hcid, hid] using henc
        | lookup keyed =>
          rw [heq] at keyed ⊢
          simpa [Op.params] using ⟨hclient, hkey _ keyed⟩
    rw [hbound] at hparams
    cases hparams
  · cases hcommand with
    | cleanup hcleanup => cases hcleanup
    | cached _ hcached => cases hcached
  · cases hcommand with
    | cleanup hcleanup =>
      cases hcleanup with
      | cleanup reading =>
        have htime := (timely_of_read h hσ₁ reading).cleanupTime
        obtain ⟨counts, hrun⟩ := Store.cleanup_run htime v.src.world.ledger
        cases hraised.symm.trans hrun
    | cached _ hcached => cases hcached
    | consume _ args => exact Or.inr ⟨v, σ₁, σ₂, p, r, i, _, hcut, hv, hl, args, hraised⟩

end Onceproof

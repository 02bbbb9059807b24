import Onceproof.Ledger.Credentials
import Onceproof.Scenario

/-!
# The states of a credential

A credential is created current, becomes previous by a rotation and revoked by a revocation or
the activation of a restored backup, and never moves back. What every reachable ledger says about
the credentials of its clients, what every commit did to them, and why a rotation of an active
client's credential can fail are collected in `CredentialStates`, `CredentialMoves` and
`RotationRefused`.
-/

namespace Onceproof

/-- What a reachable ledger says about credentials. -/
structure CredentialStates (db : Ledger) : Prop where
  /-- An active client has exactly one current credential in each role. -/
  active : ∀ client ∈ db.clients, client.status = .active → ∀ role,
    ∃! c, c ∈ db.credentials ∧ c.Serves client.clientId role ∧ c.status = .current
  revoked : ∀ client ∈ db.clients, client.status = .revoked → ∀ c ∈ db.credentials,
    c.clientId = client.clientId → c.status = .revoked
  deadline : ∀ c ∈ db.credentials, c.status = .previous → c.validUntil ≠ none
  /-- A rotation fails neither for want of a current credential nor for a second one. -/
  refused : ∀ a event e client, a.WellFormed → client ∈ db.clients →
    client.clientId = a.clientId → client.status = .active →
      Tx.run (Store.rotateCredential a event) db = .error e → RotationRefused a event db e

/-- What a rotation did: `old` was the one current credential of the role. -/
structure RotationMoves (a : RotateCredential) (reply : Str × ℤ) (db db' : Ledger)
    (old : CredentialRow) : Prop where
  mem : old ∈ db.credentials
  current : old.Serves a.clientId a.role ∧ old.status = .current
  only : ∀ c ∈ db.credentials, c.Serves a.clientId a.role → c.status = .current → c = old
  reply_eq : reply = (old.credentialId, a.now + a.graceSeconds)
  demoted : { old with status := .previous, validUntil := some (a.now + a.graceSeconds) } ∈
    db'.credentials
  /-- The credentials of the other role, and of other clients, are unchanged. -/
  others : ∀ c, ¬ c.Serves a.clientId a.role → (c ∈ db'.credentials ↔ c ∈ db.credentials)

/-- What a commit did to credentials. -/
structure CredentialMoves (t : Trans Ledger Commit) : Prop where
  /-- Nothing moves back to current. -/
  current : ∀ r ∈ t.src.credentials, ∀ r' ∈ t.dst.credentials,
    r'.credentialId = r.credentialId → r'.status = .current → r.status = .current
  /-- Nothing leaves the state revoked. -/
  revoked : ∀ r ∈ t.src.credentials, ∀ r' ∈ t.dst.credentials,
    r'.credentialId = r.credentialId → r.status = .revoked → r'.status = .revoked
  rotation : ∀ a x reply, t.label = ⟨.rotateCredential a, x, reply⟩ →
    ∃ old, RotationMoves a reply t.src t.dst old

variable {H : HashLib} {runs : List (List SystemTrans)} {s : SystemState} {db db' : Ledger}
variable {l : Commit} {a : RotateCredential} {event : Bytes} {reply : Str × ℤ}

theorem Ledger.Credentialed.states (h : db.Credentialed) (hgoverned : db.Governed) :
    CredentialStates db where
  active client hclient hactive role := by
    obtain ⟨c, hc, hserves, hcurrent⟩ := h.hasCurrent client hclient hactive role
    refine ⟨c, ⟨hc, hserves, hcurrent⟩, ?_⟩
    rintro c' ⟨hc', hserves', hcurrent'⟩
    have hsame : c'.Serves c.clientId c.role :=
      ⟨hserves'.owner.trans hserves.owner.symm, hserves'.role.trans hserves.role.symm⟩
    exact h.oneCurrent c hc c' hc' hsame hcurrent hcurrent'
  revoked client hclient hrevoked c hc howner := by
    have hget : db.clients.get? client.clientId = some client :=
      Table.get?_eq_some.mpr ⟨hclient, rfl⟩
    exact (hgoverned.revoked client.clientId client hget hrevoked).2 c hc howner
  deadline := h.deadline
  refused a event e client hwf hclient hid hactive he := by
    have hget : db.clients.get? a.clientId = some client :=
      Table.get?_eq_some.mpr ⟨hclient, hid⟩
    exact Store.rotateCredential_error h hwf hget hactive he

theorem RotateEffect.moves (h : RotateEffect a event db reply db') (hdb : db.Credentialed)
    (hwf : a.WellFormed) : ∃ old, RotationMoves a reply db db' old := by
  obtain ⟨old, hold, hreply⟩ := h.current
  obtain ⟨hmem, howner, hrole, hcurrent⟩ := Ledger.currentCredential_eq_some hold
  have hid : reply.1 = old.credentialId := by rw [hreply]
  have huntil : reply.2 = a.now + a.graceSeconds := by rw [hreply]
  have hrows : ∀ c, c ∈ db'.credentials ↔
      (∃ c₀ ∈ db.credentials, c₀.demote reply.1 reply.2 = c) ∨
        c = a.replacement.toCurrentRow a.now := by
    intro c
    simp [Table.mem_def, h.credentials]
  refine ⟨old, hmem, ⟨⟨howner, hrole⟩, hcurrent⟩, ?_, hreply, ?_, ?_⟩
  · intro c hc hserves hcur
    have hsame : c.Serves old.clientId old.role :=
      ⟨hserves.owner.trans howner.symm, hserves.role.trans hrole.symm⟩
    exact hdb.oneCurrent old hmem c hc hsame hcurrent hcur
  · refine (hrows _).mpr (Or.inl ⟨old, hmem, ?_⟩)
    rw [hid, huntil, CredentialRow.demote_self]
  · -- neither the demoted row nor the replacement is of another role or client
    intro c hother
    rw [hrows]
    constructor
    · rintro (⟨c₀, hc₀, rfl⟩ | rfl)
      · by_cases hc₀id : c₀.credentialId = reply.1
        · have hc₀old : c₀ = old := Table.eq_of_key_eq hc₀ hmem (hc₀id.trans hid)
          rw [← hc₀id, CredentialRow.demote_self] at hother
          exact absurd ⟨hc₀old ▸ howner, hc₀old ▸ hrole⟩ hother
        · rwa [CredentialRow.demote_ne hc₀id]
      · exact absurd ⟨hwf.clientId, hwf.role⟩ hother
    · intro hc
      have hne : c.credentialId ≠ reply.1 := by
        intro heq
        have hcold : c = old := Table.eq_of_key_eq hc hmem (heq.trans hid)
        exact hother ⟨hcold ▸ howner, hcold ▸ hrole⟩
      exact Or.inl ⟨c, hc, CredentialRow.demote_ne hne _⟩

theorem LedgerStep.credentialMoves (hs : LedgerStep db l db') (hdb : db.Credentialed)
    (hwf : l.call.WellFormed) : CredentialMoves ⟨db, l, db'⟩ where
  current r hr r' hr' hid hcurrent := by
    have hstep := hs.credential r.credentialId
    rw [Table.get?_eq_some.mpr ⟨hr, rfl⟩, Table.get?_eq_some.mpr ⟨hr', hid⟩] at hstep
    cases hstep with
    | same => exact hcurrent
    | demoted | revoked => cases hcurrent
  revoked r hr r' hr' hid hrevoked := by
    have hstep := hs.credential r.credentialId
    rw [Table.get?_eq_some.mpr ⟨hr, rfl⟩, Table.get?_eq_some.mpr ⟨hr', hid⟩] at hstep
    cases hstep with
    | same => exact hrevoked
    | demoted label current => rw [current] at hrevoked; cases hrevoked
    | revoked => rfl
  rotation a x reply hl := by
    dsimp only at hl
    subst hl
    cases hs.effect with
    | rotate effect => exact effect.moves hdb hwf

/-- **The credential state machine**, in every state that an instance or a restored copy of one
can reach and for every commit on the way to it. -/
theorem credential_state_machine (h : Lineage H runs s) :
    CredentialStates s.world.ledger ∧ ∀ t ∈ lineageCommits runs, CredentialMoves t := by
  refine ⟨h.credentialed.states h.governed, ?_⟩
  have hhistory := h.history (P := fun cs db =>
    db.Governed ∧ db.Credentialed ∧ ∀ t ∈ cs, CredentialMoves t)
    ⟨Ledger.governed_empty, Ledger.credentialed_empty, fun t ht => (by cases ht)⟩ ?_ ?_
  · exact hhistory.2.2
  · rintro cs db ⟨hgoverned, hdb, hcs⟩
    exact ⟨hgoverned.backup, hdb.backup, hcs⟩
  · rintro cs db l db' ⟨hgoverned, hdb, hcs⟩ hs hproper
    refine ⟨hgoverned.step hs hproper.wellFormed, hdb.step hgoverned hs hproper.wellFormed, ?_⟩
    intro t ht
    rcases List.mem_append.mp ht with ht | ht
    · exact hcs t ht
    · rw [List.mem_singleton.mp ht]
      exact hs.credentialMoves hdb hproper.wellFormed

/-- A server creates a client and rotates its verification credential: the ledger has three
credentials, and two of them are current. -/
theorem credential_state_machine_rotated : ∃ τ s, SystemRun plainHash τ s ∧
    s.world.ledger.credentials.rows.map (fun c => (c.role, c.status)) =
      [(.issuance, .current), (.verification, .previous), (.verification, .current)] ∧
    CredentialStates s.world.ledger ∧ ∀ t ∈ lineageCommits [τ], CredentialMoves t := by
  obtain ⟨τ, s, hrun, hrows⟩ := exists_systemRun
    (Scenario.served ++
      Scenario.thread 0 2 12 (.api (.rotateCredential (Scenario.rotateRequest 60))) 1002 40)
    (fun _ s => s.world.ledger.credentials.rows.map (fun c => (c.role, c.status)) =
      [(.issuance, .current), (.verification, .previous), (.verification, .current)])
    (by decide +kernel)
  exact ⟨τ, s, hrun, hrows, credential_state_machine (.created hrun)⟩

end Onceproof

import Onceproof.Ledger.Lineage

/-!
# Clients and their credentials

A revoked client has no credential left that is not revoked, and no commit gives it one
(`Ledger.Revoked`). Together with the foreign key of the credentials this means that a
credential which is not revoked belongs to an active client (`Ledger.Governed`), so that the
check of a credential alone and the one of the credential and its client agree
(`Ledger.Governed.accepted_iff`).
-/

namespace Onceproof

/-! ### Revoked clients -/

/-- A revoked client without any credential that is not revoked. -/
structure Ledger.Revoked (db : Ledger) (clientId : Str) : Prop where
  client : ∃ c, db.clients.get? clientId = some c ∧ c.status = .revoked
  credentials : ∀ c ∈ db.credentials, c.clientId = clientId → c.status = .revoked

/-- A revoked client has no authority. -/
theorem Ledger.Revoked.not_accepted {db : Ledger} {clientId : Str} (h : db.Revoked clientId)
    (role : Role) (credentialId : Str) (now : ℤ) :
    ¬ db.Accepted role credentialId clientId now := by
  rw [Ledger.accepted_iff]
  rintro ⟨-, client, -, -, -, -, hclient, hactive⟩
  obtain ⟨c, hc, hrevoked⟩ := h.client
  rw [hc] at hclient
  rw [← Option.some.inj hclient, hrevoked] at hactive
  cases hactive

/-- A commit that inserts a credential names an active or a new client. -/
theorem LedgerStep.inserts_active {db db' : Ledger} {l : Commit} (h : LedgerStep db l db')
    (hwf : l.call.WellFormed) {c : CredentialRecord} {now : ℤ} (hins : l.Inserts c now)
    {client : ClientRow} (hclient : db.clients.get? c.clientId = some client) :
    client.status = .active := by
  cases hins with
  | issuance a x =>
    cases h.effect with
    | create effect =>
      obtain ⟨row, -, -, hfresh, -⟩ := effect.clients
      obtain ⟨hmem, hid⟩ := Table.get?_eq_some.mp hclient
      exact absurd (hid.trans hwf.issuance.1) (hfresh client hmem)
  | verification a x =>
    cases h.effect with
    | create effect =>
      obtain ⟨row, -, -, hfresh, -⟩ := effect.clients
      obtain ⟨hmem, hid⟩ := Table.get?_eq_some.mp hclient
      exact absurd (hid.trans hwf.verification.1) (hfresh client hmem)
  | replacement a x reply =>
    cases h.effect with
    | rotate effect =>
      obtain ⟨client', hclient', hactive⟩ := effect.active
      rw [hwf.clientId, hclient'] at hclient
      rwa [← Option.some.inj hclient]

/-- A committed revocation leaves the client revoked, also when it already was. -/
theorem RevokeEffect.revoked_client {clientId : Str} {now : ℤ} {event : Bytes} {db db' : Ledger}
    {reply : Bool}
    (h : RevokeEffect clientId now event db reply db') :
    ∃ c, db'.clients.get? clientId = some c ∧ c.status = .revoked := by
  cases h with
  | already operational client found status => exact ⟨client, found, status⟩
  | revoked operational client found clients =>
    refine ⟨{ client with status := .revoked, revokedAt := some now }, ?_, rfl⟩
    rw [Table.get?_map clients fun c => by split_ifs <;> rfl, found]
    simp [(Table.get?_eq_some.mp found).2]

/-- **Step lemma**: no commit gives a revoked client authority. -/
theorem Ledger.Revoked.step {db db' : Ledger} {l : Commit} {clientId : Str}
    (h : db.Revoked clientId) (hs : LedgerStep db l db') (hwf : l.call.WellFormed) :
    db'.Revoked clientId := by
  obtain ⟨client, hclient, hrevoked⟩ := h.client
  refine ⟨?_, fun c hc howner => ?_⟩
  · have hstep := hs.client clientId
    rw [hclient] at hstep
    generalize hg : db'.clients.get? clientId = o at hstep
    cases hstep with
    | same => exact ⟨client, rfl, hrevoked⟩
    | revoked now revokedAt label => exact ⟨_, rfl, rfl⟩
  · obtain ⟨hmem, -⟩ : c ∈ db'.credentials ∧ True := ⟨hc, trivial⟩
    have hstep := hs.credential c.credentialId
    rw [Table.get?_eq_some.mpr ⟨hmem, rfl⟩] at hstep
    generalize hg : db.credentials.get? c.credentialId = o at hstep
    have hold : ∀ {r : CredentialRow}, db.credentials.get? c.credentialId = some r →
        r.clientId = clientId → r.status = .revoked :=
      fun hr => h.credentials _ (Table.get?_eq_some.mp hr).1
    cases hstep with
    | same => exact hold hg howner
    | @inserted record now hins hnamed =>
      have howner : record.clientId = clientId := howner
      rw [← howner] at hclient
      have hactive := hs.inserts_active hwf hins hclient
      rw [hrevoked] at hactive
      cases hactive
    | @demoted a x reply r label current owner role =>
      have hr := hold hg howner
      rw [current] at hr
      cases hr
    | revoked => rfl

/-- A committed revocation leaves no authority behind. -/
theorem LedgerStep.revokes {db db' : Ledger} {l : Commit} (hs : LedgerStep db l db')
    (hI : ∀ clientId c, db.clients.get? clientId = some c → c.status = .revoked →
      db.Revoked clientId) (hwf : l.call.WellFormed) {clientId : Str} {c : ClientRow}
    (hc : db'.clients.get? clientId = some c) (hrevoked : c.status = .revoked) :
    db'.Revoked clientId := by
  have hstep := hs.client clientId
  rw [hc] at hstep
  generalize hg : db.clients.get? clientId = o at hstep
  cases hstep with
  | same => exact (hI clientId c hg hrevoked).step hs hwf
  | created label named active =>
    rw [active] at hrevoked
    cases hrevoked
  | @revoked c₀ now revokedAt label =>
    refine ⟨⟨_, hc, rfl⟩, fun cr hcr howner => ?_⟩
    rcases label with ⟨x, rfl⟩ | ⟨x, rfl⟩
    · cases hs.effect with
      | revoke effect =>
        cases effect with
        | revoked _ _ _ _ hcredentials =>
          rw [Table.mem_def, hcredentials] at hcr
          obtain ⟨r, hr, rfl⟩ := List.mem_map.mp hcr
          split_ifs with hcond
          · rfl
          · rw [if_neg hcond] at howner
            by_contra hne
            exact hcond ⟨howner, hne⟩
    · cases hs.effect with
      | activate effect =>
        rw [Table.mem_def, effect.credentials] at hcr
        obtain ⟨r, -, rfl⟩ := List.mem_map.mp hcr
        rfl

/-- In a run, a client with the status `revoked` has no authority. -/
theorem run_revoked {H : HashLib} {τ : List SystemTrans} {s : SystemState}
    (h : SystemRun H τ s) {clientId : Str} {c : ClientRow}
    (hc : s.world.ledger.clients.get? clientId = some c) (hrevoked : c.status = .revoked) :
    s.world.ledger.Revoked clientId := by
  obtain ⟨kidBytes, key, hrun⟩ := h
  refine (ledgerRun hrun).kept (I := fun db => ∀ clientId c,
    db.clients.get? clientId = some c → c.status = .revoked → db.Revoked clientId)
    (fun t ht hI hs _ _ hc hrevoked => ?_) (fun _ _ hc => by cases hc) clientId c hc hrevoked
  exact hs.revokes hI (commit_wellFormed hrun ht) hc hrevoked

/-! ### Credentials and their clients -/

/-- Every credential has its client, and those of a revoked client are revoked. -/
structure Ledger.Governed (db : Ledger) : Prop where
  client : ∀ c ∈ db.credentials, (db.clients.get? c.clientId).isSome = true
  revoked : ∀ clientId c, db.clients.get? clientId = some c → c.status = .revoked →
    db.Revoked clientId

theorem Ledger.governed_empty : Ledger.empty.Governed :=
  ⟨fun _ hc => (by cases hc), fun _ _ hc => (by cases hc)⟩

/-- A commit that inserts a credential leaves its client in the ledger. -/
theorem LedgerStep.inserts_client {db db' : Ledger} {l : Commit} (h : LedgerStep db l db')
    (hwf : l.call.WellFormed) {c : CredentialRecord} {now : ℤ} (hins : l.Inserts c now) :
    (db'.clients.get? c.clientId).isSome = true := by
  have hcreated : ∀ {a : CreateClient} {event : Bytes}, CreateEffect a event db db' →
      (db'.clients.get? a.clientId).isSome = true := by
    intro a event effect
    obtain ⟨row, hid, -, -, hrows⟩ := effect.clients
    rw [Table.get?_append hrows, List.find?_singleton, if_pos (by simpa using hid)]
    cases db.clients.get? a.clientId <;> rfl
  cases hins with
  | issuance a x =>
    cases h.effect with
    | create effect => exact hwf.issuance.1 ▸ hcreated effect
  | verification a x =>
    cases h.effect with
    | create effect => exact hwf.verification.1 ▸ hcreated effect
  | replacement a x reply =>
    cases h.effect with
    | rotate effect => exact effect.clients ▸ effect.owner

theorem Ledger.Governed.step {db db' : Ledger} {l : Commit} (h : db.Governed)
    (hs : LedgerStep db l db') (hwf : l.call.WellFormed) : db'.Governed := by
  refine ⟨fun c hc => ?_, fun clientId c hc hrevoked => hs.revokes h.revoked hwf hc hrevoked⟩
  have hstep := hs.credential c.credentialId
  rw [Table.get?_eq_some.mpr ⟨hc, rfl⟩] at hstep
  generalize hg : db.credentials.get? c.credentialId = o at hstep
  have hold : ∀ {r : CredentialRow}, db.credentials.get? c.credentialId = some r →
      (db'.clients.get? r.clientId).isSome = true :=
    fun hr => hs.client_kept (h.client _ (Table.get?_eq_some.mp hr).1)
  cases hstep with
  | same => exact hold hg
  | inserted label named => exact hs.inserts_client hwf label
  | @demoted a x reply r => exact hold (r := r) hg
  | @revoked r => exact hold (r := r) hg

theorem Ledger.Governed.backup {db : Ledger} (h : db.Governed) : (Store.backup db).Governed := by
  refine ⟨fun c hc => ?_, fun clientId c hc hstatus => ?_⟩
  · rw [Store.backup_clients]
    exact h.client c (Store.backup_credentials db ▸ hc)
  · rw [Store.backup_clients] at hc
    obtain ⟨hclient, hcredentials⟩ := h.revoked clientId c hc hstatus
    exact ⟨by rwa [Store.backup_clients], by rwa [Store.backup_credentials]⟩

/-- **The ledger of every instance is governed.** -/
theorem Lineage.governed {H : HashLib} {runs : List (List SystemTrans)} {s : SystemState}
    (h : Lineage H runs s) : s.world.ledger.Governed := by
  refine Lineage.history (P := fun _ db => db.Governed) Ledger.governed_empty ?_ ?_ h
  · exact fun hP => hP.backup
  · exact fun hP hs hproper => hP.step hs hproper.wellFormed

/-- **The client does not matter**: a credential is accepted with its client if and only if its
own status is. -/
theorem Ledger.Governed.accepted_iff {db : Ledger} (h : db.Governed) {c : CredentialRow}
    (hc : c ∈ db.credentials) {now : ℤ} :
    db.Accepted c.role c.credentialId c.clientId now ↔ credentialIsAccepted c now = true := by
  rw [Ledger.accepted_iff]
  have hlookup : db.credentials.get? c.credentialId = some c := Table.get?_eq_some.mpr ⟨hc, rfl⟩
  constructor
  · rintro ⟨c', client, hc', -, -, haccepted, -⟩
    rw [hlookup] at hc'
    obtain rfl := Option.some.inj hc'
    exact haccepted
  · intro haccepted
    obtain ⟨client, hclient⟩ := Option.isSome_iff_exists.mp (h.client c hc)
    refine ⟨c, client, hlookup, rfl, rfl, haccepted, hclient, ?_⟩
    -- the client of a credential that is accepted was not revoked
    cases hstatus : client.status with
    | active => rfl
    | revoked =>
      have hrevoked := (h.revoked c.clientId client hclient hstatus).credentials c hc rfl
      rw [credentialIsAccepted, hrevoked] at haccepted
      cases haccepted

end Onceproof

import Onceproof.Ledger.Lineage

/-!
# What the rows of a ledger look like

Rows keep the formats that the service gives them. `Ledger.Readable` says that every client can
be read back, and `Ledger.Bound` that every recorded key id can be bound to a statement.
-/

namespace Onceproof

/-- Every client can be read. -/
def Ledger.Readable (db : Ledger) : Prop :=
  ∀ row ∈ db.clients, ∃ client, clientFromRow row = .ok client

/-- The key ids with a check can be bound to a statement. -/
def Ledger.Bound (db : Ledger) : Prop :=
  ∀ row ∈ db.hashKeys, row.hashKid.encodable = true

variable {H : HashLib} {runs : List (List SystemTrans)} {s : SystemState} {db db' : Ledger}
variable {l : Commit}

/-! ### Clients -/

theorem Str.joinSurrogates_ne_nil {s : Str} (h : s ≠ []) : s.joinSurrogates ≠ [] := by
  rcases Str.joinSurrogates_cases s with heq | ⟨-, c, hc, -⟩
  · rwa [heq]
  · exact List.ne_nil_of_mem hc

theorem audiencesOfJson_persist {l : List Str} (h : ∀ s ∈ l, s ≠ []) :
    audiencesOfJson (Json.persist (.arr (l.map .str))) = some (l.map Str.joinSurrogates) := by
  simp only [Json.persist, audiencesOfJson]
  induction l with
  | nil => rfl
  | cons s l ih =>
    have hs : s.joinSurrogates ≠ [] := Str.joinSurrogates_ne_nil (h s List.mem_cons_self)
    have hrest := ih fun s' hs' => h s' (List.mem_cons_of_mem s hs')
    rw [List.map_cons, Json.persistItems, List.mapM_cons, hrest]
    simp [Json.persist, hs]

/-- A client row with the audiences of a request is read back. -/
theorem clientFromRow_ok {row : ClientRow} {l : List Str} (hl : l ≠ []) (h : ∀ s ∈ l, s ≠ [])
    (hrow : row.allowedAudiencesJson = Json.persist (.arr (l.map .str))) :
    ∃ client, clientFromRow row = .ok client := by
  have hread := audiencesOfJson_persist h
  cases l with
  | nil => exact absurd rfl hl
  | cons s l =>
    unfold clientFromRow
    rw [hrow, hread]
    exact ⟨_, rfl⟩

theorem clientFromRow_congr {row row' : ClientRow} {client : ClientRecord}
    (h : clientFromRow row = .ok client)
    (hsame : row'.allowedAudiencesJson = row.allowedAudiencesJson) :
    ∃ client', clientFromRow row' = .ok client' := by
  unfold clientFromRow at h ⊢
  rw [hsame]
  split at h
  · exact ⟨_, rfl⟩
  · cases h

/-- Only a creation brings a client, and nothing changes the audiences of one. -/
theorem LedgerStep.client_audiences (hs : LedgerStep db l db') {row : ClientRow}
    (hrow : row ∈ db'.clients) :
    (∃ row₀ ∈ db.clients, row.allowedAudiencesJson = row₀.allowedAudiencesJson) ∨
      ∃ a x, l = ⟨.createClient a, x, ()⟩ ∧
        row.allowedAudiencesJson = Json.persist (.arr (a.allowedAudiences.map .str)) := by
  have hstep := hs.client row.clientId
  rw [Table.get?_eq_some.mpr ⟨hrow, rfl⟩] at hstep
  generalize hg : db.clients.get? row.clientId = o at hstep
  cases hstep with
  | same => exact Or.inl ⟨row, (Table.get?_eq_some.mp hg).1, rfl⟩
  | @created a x _ label named active =>
    subst label
    cases hs.effect with
    | create effect =>
      rcases effect.audiences row hrow with hold | hnew
      · exact Or.inl ⟨row, hold, rfl⟩
      · exact Or.inr ⟨a, x, rfl, hnew⟩
  | @revoked c now revokedAt label => exact Or.inl ⟨c, (Table.get?_eq_some.mp hg).1, rfl⟩

/-- The audiences of a creation are texts, and there is one. -/
theorem CreateArgs.audiences_ne_nil {q : CreateClientRequest} {h : Hist} {a : CreateClient}
    (hargs : CreateArgs H q h a) : a.allowedAudiences ≠ [] ∧ ∀ s ∈ a.allowedAudiences, s ≠ [] := by
  obtain ⟨l, hl, heq⟩ := hargs.audiences
  obtain ⟨hlength, hitems⟩ := except_mapM_eq_ok hl
  rw [heq]
  constructor
  · -- the first text of the list stays
    cases l with
    | nil => exact absurd (List.length_eq_zero_iff.mp hlength.symm) hargs.nonempty
    | cons s l => simp [List.eraseDups_cons]
  · intro s hs
    obtain ⟨v, -, hv⟩ := hitems s (List.mem_eraseDups.mp hs)
    exact Service.audience_ne_nil hv

/-- **Every client of an instance can be read.** -/
theorem Lineage.readable (h : Lineage H runs s) : s.world.ledger.Readable := by
  refine h.ledger_kept (I := Ledger.Readable) (fun _ hc => absurd hc Table.not_mem_empty) ?_ ?_
  · intro db hdb row hrow
    exact hdb row (Store.backup_clients db ▸ hrow)
  · intro τ₁ u τ₂ tid p r call i reply _ _ hcommand hcommit hI row hrow
    rcases hcommit.client_audiences hrow with ⟨row₀, hrow₀, hsame⟩ | ⟨a, x, hl, hnew⟩
    · obtain ⟨client, hclient⟩ := hI row₀ hrow₀
      exact clientFromRow_congr hclient hsame
    · obtain ⟨rfl, -⟩ := Commit.mk.inj hl
      obtain ⟨q, -, hargs⟩ := hcommand.commanded
      exact clientFromRow_ok hargs.audiences_ne_nil.1 hargs.audiences_ne_nil.2 hnew

/-! ### Key ids -/

theorem Ledger.Registers.bound_kept {kid check : Str} {t : Table HashKeyRow HashKeyRow.hashKid}
    (h : db.Registers kid check t) (hdb : db.Bound) : ∀ row ∈ t, row.hashKid.encodable = true := by
  intro row hrow
  rcases h.only row hrow with hold | rfl
  · exact hdb row hold
  · exact h.bound

theorem LedgerStep.bound_kept (hs : LedgerStep db l db') (hdb : db.Bound) : db'.Bound := by
  have hsame : db'.hashKeys = db.hashKeys → db'.Bound := by
    intro hkeys
    rw [Ledger.Bound, hkeys]
    exact hdb
  cases hs.effect with
  | create effect => exact effect.hashKeys.bound_kept hdb
  | issue effect => exact effect.hashKeys.bound_kept hdb
  | rotate effect => exact effect.hashKeys.bound_kept hdb
  | consume effect =>
    cases effect with
    | refused | replayed => exact hdb
    | decided effect => exact hsame effect.hashKeys
  | revoke effect =>
    cases effect with
    | already => exact hdb
    | revoked _ _ _ _ _ _ _ hashKeys => exact hsame hashKeys
  | cleanup effect => exact hsame effect.hashKeys
  | activate effect => exact hsame effect.hashKeys

theorem Lineage.bound (h : Lineage H runs s) : s.world.ledger.Bound := by
  refine h.history (P := fun _ db => db.Bound) (fun _ hr => absurd hr Table.not_mem_empty) ?_ ?_
  · intro _ db hdb row hrow
    exact hdb row (Store.backup_hashKeys db ▸ hrow)
  · intro _ _ _ _ hdb hs _
    exact hs.bound_kept hdb

end Onceproof

import Onceproof.Ledger.Authority
import Onceproof.Store.Checks

/-!
# One current credential for each role

An active client has exactly one current credential in each of its two roles, and every previous
credential has a deadline. `Ledger.Credentialed` is kept by the four transactions that write the
status of a credential and by the one that deletes credentials, so a rotation always finds the
credential that it replaces and never meets a second one (`Store.rotateCredential_error`).
-/

namespace Onceproof

/-- A credential of a client in a role. -/
structure CredentialRow.Serves (c : CredentialRow) (clientId : Str) (role : Role) : Prop where
  owner : c.clientId = clientId
  role : c.role = role

/-- The credentials of the clients are in order. -/
structure Ledger.Credentialed (db : Ledger) : Prop where
  /-- An active client has a current credential in every role. -/
  hasCurrent : ∀ client ∈ db.clients, client.status = .active → ∀ role,
    ∃ c ∈ db.credentials, c.Serves client.clientId role ∧ c.status = .current
  /-- No client has two current credentials in one role. -/
  oneCurrent : ∀ c ∈ db.credentials, ∀ c' ∈ db.credentials, c'.Serves c.clientId c.role →
    c.status = .current → c'.status = .current → c' = c
  deadline : ∀ c ∈ db.credentials, c.status = .previous → c.validUntil ≠ none

variable {db db' : Ledger} {l : Commit}

theorem Ledger.credentialed_empty : Ledger.empty.Credentialed where
  hasCurrent _ h := by cases h
  oneCurrent _ h := by cases h
  deadline _ h := by cases h

/-! ### The effects -/

/-- A new client gets one current credential in each role. -/
theorem CreateEffect.credentialed {a : CreateClient} {event : Bytes}
    (h : CreateEffect a event db db') (hdb : db.Credentialed) (hgoverned : db.Governed)
    (hwf : a.WellFormed) : db'.Credentialed := by
  obtain ⟨row, hid, -, hfresh, hclients⟩ := h.clients
  -- no older credential belongs to the new client
  have hnone : ∀ c ∈ db.credentials, c.clientId ≠ a.clientId := by
    intro c hc howner
    obtain ⟨client, hclient⟩ := Option.isSome_iff_exists.mp (hgoverned.client c hc)
    obtain ⟨hmem, hkey⟩ := Table.get?_eq_some.mp hclient
    exact hfresh client hmem (hkey.trans howner)
  have hmem : ∀ c, c ∈ db'.credentials ↔ c ∈ db.credentials ∨
      c = a.issuanceCredential.toCurrentRow a.now ∨
        c = a.verificationCredential.toCurrentRow a.now := by
    intro c
    simp [Table.mem_def, h.credentials]
  refine ⟨fun client hclient hactive role => ?_, fun c hc c' hc' hserves hcur hcur' => ?_,
    fun c hc hprevious => ?_⟩
  · rw [Table.mem_def, hclients, List.mem_append, List.mem_singleton] at hclient
    rcases hclient with hold | rfl
    · obtain ⟨c, hc, hrest⟩ := hdb.hasCurrent client hold hactive role
      exact ⟨c, (hmem c).mpr (Or.inl hc), hrest⟩
    · cases role with
      | issuance =>
        exact ⟨_, (hmem _).mpr (Or.inr (Or.inl rfl)),
          ⟨hwf.issuance.1.trans hid.symm, hwf.issuance.2⟩, rfl⟩
      | verification =>
        exact ⟨_, (hmem _).mpr (Or.inr (Or.inr rfl)),
          ⟨hwf.verification.1.trans hid.symm, hwf.verification.2⟩, rfl⟩
  · obtain ⟨howner, hrole⟩ := hserves
    have hnew : ∀ c, c = a.issuanceCredential.toCurrentRow a.now ∨
        c = a.verificationCredential.toCurrentRow a.now → c.clientId = a.clientId := by
      rintro c (rfl | rfl)
      · exact hwf.issuance.1
      · exact hwf.verification.1
    rcases (hmem c).mp hc with hold | hnewc <;> rcases (hmem c').mp hc' with hold' | hnewc'
    · exact hdb.oneCurrent c hold c' hold' ⟨howner, hrole⟩ hcur hcur'
    · exact absurd (howner.symm.trans (hnew c' hnewc')) (hnone c hold)
    · exact absurd (howner.trans (hnew c hnewc)) (hnone c' hold')
    · have hroles : (a.issuanceCredential.toCurrentRow a.now).role ≠
          (a.verificationCredential.toCurrentRow a.now).role := by
        simp [CredentialRecord.toCurrentRow, hwf.issuance.2, hwf.verification.2]
      rcases hnewc with rfl | rfl <;> rcases hnewc' with rfl | rfl
      · rfl
      · exact absurd hrole.symm hroles
      · exact absurd hrole hroles
      · rfl
  · rcases (hmem c).mp hc with hold | rfl | rfl
    · exact hdb.deadline c hold hprevious
    · cases hprevious
    · cases hprevious

theorem CredentialRow.demote_self (c : CredentialRow) (validUntil : ℤ) :
    c.demote c.credentialId validUntil =
      { c with status := .previous, validUntil := some validUntil } := if_pos rfl

theorem CredentialRow.demote_ne {c : CredentialRow} {id : Str} (h : c.credentialId ≠ id)
    (validUntil : ℤ) : c.demote id validUntil = c := if_neg h

/-- A rotation replaces the one current credential of its role. -/
theorem RotateEffect.credentialed {a : RotateCredential} {event : Bytes} {reply : Str × ℤ}
    (h : RotateEffect a event db reply db') (hdb : db.Credentialed) (hwf : a.WellFormed) :
    db'.Credentialed := by
  obtain ⟨old, hold, rfl⟩ := h.current
  obtain ⟨holdMem, holdOwner, holdRole, holdCurrent⟩ := Ledger.currentCredential_eq_some hold
  have hmem : ∀ c, c ∈ db'.credentials ↔
      (∃ c₀ ∈ db.credentials, c₀.demote old.credentialId (a.now + a.graceSeconds) = c) ∨
        c = a.replacement.toCurrentRow a.now := by
    intro c
    simp [Table.mem_def, h.credentials]
  -- a current row is the new one, or an older one of another client or role
  have hcurrent : ∀ c ∈ db'.credentials, c.status = .current →
      c = a.replacement.toCurrentRow a.now ∨
        c ∈ db.credentials ∧ ¬ c.Serves a.clientId a.role := by
    intro c hc hcur
    rcases (hmem c).mp hc with ⟨c₀, hc₀, rfl⟩ | rfl
    · by_cases hid : c₀.credentialId = old.credentialId
      · rw [← hid, CredentialRow.demote_self] at hcur
        cases hcur
      · rw [CredentialRow.demote_ne hid] at hcur ⊢
        refine Or.inr ⟨hc₀, fun hserves => ?_⟩
        exact h.noCurrent c₀ hc₀ hid (hserves.owner.trans hwf.clientId.symm)
          (hserves.role.trans hwf.role.symm) hcur
    · exact Or.inl rfl
  refine ⟨fun client hclient hactive role => ?_, fun c hc c' hc' hserves hcur hcur' => ?_,
    fun c hc hprevious => ?_⟩
  · rw [h.clients] at hclient
    obtain ⟨c, hc, hserves, hcur⟩ := hdb.hasCurrent client hclient hactive role
    by_cases hid : c.credentialId = old.credentialId
    · obtain rfl := Table.eq_of_key_eq hc holdMem hid
      refine ⟨_, (hmem _).mpr (Or.inr rfl), ⟨?_, ?_⟩, rfl⟩
      · exact hwf.clientId.trans (holdOwner.symm.trans hserves.owner)
      · exact hwf.role.trans (holdRole.symm.trans hserves.role)
    · exact ⟨c, (hmem c).mpr (Or.inl ⟨c, hc, CredentialRow.demote_ne hid _⟩), hserves, hcur⟩
  · have hnew : (a.replacement.toCurrentRow a.now).Serves a.clientId a.role :=
      ⟨hwf.clientId, hwf.role⟩
    rcases hcurrent c hc hcur with rfl | ⟨hold, hother⟩ <;>
      rcases hcurrent c' hc' hcur' with rfl | ⟨hold', hother'⟩
    · rfl
    · exact absurd ⟨hserves.owner.trans hnew.owner, hserves.role.trans hnew.role⟩ hother'
    · exact absurd ⟨hserves.owner.symm.trans hnew.owner, hserves.role.symm.trans hnew.role⟩ hother
    · exact hdb.oneCurrent c hold c' hold' hserves hcur hcur'
  · rcases (hmem c).mp hc with ⟨c₀, hc₀, rfl⟩ | rfl
    · by_cases hid : c₀.credentialId = old.credentialId
      · rw [← hid, CredentialRow.demote_self]
        exact Option.some_ne_none _
      · rw [CredentialRow.demote_ne hid] at hprevious ⊢
        exact hdb.deadline c₀ hc₀ hprevious
    · cases hprevious

/-- A step that drops credentials or ends them, but none of an active client that is current. -/
private theorem credentialed_of_ended (hdb : db.Credentialed)
    (hrows : ∀ c ∈ db'.credentials, c ∈ db.credentials ∨ c.status = .revoked)
    (hactive : ∀ client ∈ db'.clients, client.status = .active → client ∈ db.clients)
    (hkept : ∀ c ∈ db.credentials, c.status = .current →
      (∃ client ∈ db'.clients, client.clientId = c.clientId ∧ client.status = .active) →
        c ∈ db'.credentials) : db'.Credentialed := by
  refine ⟨fun client hclient hstatus role => ?_, fun c hc c' hc' hserves hcur hcur' => ?_,
    fun c hc hprevious => ?_⟩
  · obtain ⟨c, hc, hserves, hcur⟩ :=
      hdb.hasCurrent client (hactive client hclient hstatus) hstatus role
    exact ⟨c, hkept c hc hcur ⟨client, hclient, hserves.owner.symm, hstatus⟩, hserves, hcur⟩
  · rcases hrows c hc with hold | hrevoked
    · rcases hrows c' hc' with hold' | hrevoked'
      · exact hdb.oneCurrent c hold c' hold' hserves hcur hcur'
      · rw [hrevoked'] at hcur'
        cases hcur'
    · rw [hrevoked] at hcur
      cases hcur
  · rcases hrows c hc with hold | hrevoked
    · exact hdb.deadline c hold hprevious
    · rw [hrevoked] at hprevious
      cases hprevious

theorem RevokeEffect.credentialed {clientId : Str} {now : ℤ} {event : Bytes} {reply : Bool}
    (h : RevokeEffect clientId now event db reply db') (hdb : db.Credentialed) :
    db'.Credentialed := by
  cases h with
  | already => exact hdb
  | revoked _ _ _ hclients hcredentials =>
    refine credentialed_of_ended hdb (fun c hc => ?_) (fun client hclient hactive => ?_) ?_
    · rw [Table.mem_def, hcredentials] at hc
      obtain ⟨c₀, hc₀, rfl⟩ := List.mem_map.mp hc
      split_ifs with hended
      · exact Or.inr rfl
      · exact Or.inl hc₀
    · rw [Table.mem_def, hclients] at hclient
      obtain ⟨client₀, hclient₀, rfl⟩ := List.mem_map.mp hclient
      split_ifs with hid
      · rw [if_pos hid] at hactive
        cases hactive
      · exact hclient₀
    · rintro c hc - ⟨client, hclient, howner, hactive⟩
      rw [Table.mem_def, hclients] at hclient
      obtain ⟨client₀, -, rfl⟩ := List.mem_map.mp hclient
      rw [Table.mem_def, hcredentials]
      refine List.mem_map.mpr ⟨c, hc, if_neg fun hended => ?_⟩
      split_ifs at hactive howner with hid
      exact hid (howner.trans hended.1)

theorem CleanupEffect.credentialed {now : ℤ} (h : CleanupEffect now db db')
    (hdb : db.Credentialed) : db'.Credentialed := by
  refine credentialed_of_ended hdb (fun c hc => ?_) (fun client hclient _ => ?_) ?_
  · rw [Table.mem_def, h.credentials] at hc
    exact Or.inl (List.mem_of_mem_filter hc)
  · rwa [h.clients] at hclient
  · rintro c hc hcur -
    rw [Table.mem_def, h.credentials]
    exact List.mem_filter.mpr ⟨hc, by simp [hcur]⟩

theorem ActivateEffect.credentialed {now : ℤ} {event : Bytes}
    (h : ActivateEffect now event db db') (hdb : db.Credentialed) : db'.Credentialed := by
  have hnone : ∀ client ∈ db'.clients, client.status = .revoked := by
    intro client hclient
    rw [Table.mem_def, h.clients] at hclient
    obtain ⟨client₀, -, rfl⟩ := List.mem_map.mp hclient
    rfl
  refine credentialed_of_ended hdb (fun c hc => ?_) (fun client hclient hactive => ?_) ?_
  · rw [Table.mem_def, h.credentials] at hc
    obtain ⟨c₀, -, rfl⟩ := List.mem_map.mp hc
    exact Or.inr rfl
  · rw [hnone client hclient] at hactive
    cases hactive
  · rintro c - - ⟨client, hclient, -, hactive⟩
    rw [hnone client hclient] at hactive
    cases hactive

/-- **Step lemma.** -/
theorem Ledger.Credentialed.step (h : db.Credentialed) (hgoverned : db.Governed)
    (hs : LedgerStep db l db') (hwf : l.call.WellFormed) : db'.Credentialed := by
  have hsame : db'.clients = db.clients → db'.credentials = db.credentials →
      db'.Credentialed := by
    intro hclients hcredentials
    constructor
    · rw [hclients, hcredentials]
      exact h.hasCurrent
    · rw [hcredentials]
      exact h.oneCurrent
    · rw [hcredentials]
      exact h.deadline
  cases hs.effect with
  | create effect => exact effect.credentialed h hgoverned hwf
  | issue effect => exact hsame effect.clients effect.credentials
  | consume effect =>
    cases effect with
    | refused => exact h
    | replayed => exact h
    | decided effect => exact hsame effect.clients effect.credentials
  | rotate effect => exact effect.credentialed h hwf
  | revoke effect => exact effect.credentialed h
  | cleanup effect => exact effect.credentialed h
  | activate effect => exact effect.credentialed h

/-! ### Rotations -/

theorem Ledger.Credentialed.currentCredential (h : db.Credentialed) {client : ClientRow}
    (hclient : client ∈ db.clients) (hactive : client.status = .active) (role : Role) :
    ∃ c, db.currentCredential client.clientId role = some c := by
  obtain ⟨c, hc, hserves, hcur⟩ := h.hasCurrent client hclient hactive role
  cases hfound : db.currentCredential client.clientId role with
  | some c' => exact ⟨c', rfl⟩
  | none =>
    have hnone := List.find?_eq_none.mp hfound c hc
    simp [hserves.owner, hserves.role, hcur] at hnone

/-- What is left to refuse the rotation of an active client's credential: the restore seal, a key
with another check, a text that cannot be bound, or an id that is taken. -/
inductive RotationRefused (a : RotateCredential) (event : Bytes) (db : Ledger) : Error → Prop
  | sealed (required : db.restoreRequired = true) : RotationRefused a event db .restoreRequiredError
  | key (row : HashKeyRow) (recorded : db.hashKeys.get? a.replacement.hashKid = some row)
      (differs : row.keyCheck ≠ a.hashKeyCheck) : RotationRefused a event db .storeCorruptionError
  | text : RotationRefused a event db .unicodeEncodeError
  | credential (c : CredentialRow) (hc : c ∈ db.credentials)
      (taken : c.credentialId = a.replacement.credentialId) :
      RotationRefused a event db .integrityError
  | event (r : AuditRow) (hr : r ∈ db.auditEvents)
    (taken : r.eventId = lit "ae_" ++ hexlify event) :
      RotationRefused a event db .integrityError

/-- **A rotation never misses the current credential** of an active client, and never meets a
second one. -/
theorem Store.rotateCredential_error {a : RotateCredential} {event : Bytes} {e : Error}
    (hdb : db.Credentialed) (hwf : a.WellFormed) {client : ClientRow}
    (hclient : db.clients.get? a.clientId = some client) (hactive : client.status = .active)
    (h : Tx.run (Store.rotateCredential a event) db = .error e) :
    RotationRefused a event db e := by
  obtain ⟨hmem, hid⟩ := Table.get?_eq_some.mp hclient
  obtain ⟨current, hcurrent⟩ := hdb.currentCredential hmem hactive a.role
  rw [hid] at hcurrent
  simp only [Store.rotateCredential, Tx.run_bind_error] at h
  rcases h with h | ⟨_, db₁, h₁, h⟩
  · obtain ⟨rfl, hrequired⟩ := run_requireOperational_error h
    exact .sealed hrequired
  obtain ⟨-, hkept⟩ := run_requireOperational_ok.mp h₁
  subst db₁
  rcases h with h | ⟨_, db₂, h₂, h⟩
  · rcases run_registerHashKey_error h with rfl | ⟨rfl, row, hrow, hcheck⟩
    · exact .text
    · exact .key row hrow hcheck
  obtain ⟨-, hdb₂⟩ := run_registerHashKey_ok h₂
  rcases h with h | ⟨found, db₃, h₃, h⟩
  · obtain rfl := run_select_error h
    exact .text
  obtain ⟨-, hfound, rfl⟩ := run_select_ok.mp h₃
  rw [hdb₂, hclient] at hfound
  subst hfound
  dsimp only at h
  split_ifs at h with hstatus
  · exact absurd hactive hstatus
  rw [Tx.run_bind_error] at h
  rcases h with h | ⟨found, db₄, h₄, h⟩
  · obtain rfl := run_select_error h
    exact .text
  obtain ⟨-, hfound, rfl⟩ := run_select_ok.mp h₄
  have hcurrent₂ : found = some current := by
    rw [hfound, hdb₂]
    exact hcurrent
  subst hcurrent₂
  simp only [Tx.run_bind_error] at h
  rcases h with h | ⟨_, db₅, h₅, h⟩
  · obtain rfl := run_change_error h
    exact .text
  obtain ⟨-, h₅⟩ := run_change_ok.mp h₅
  have hdb₅ := (Prod.mk.inj h₅).2.symm
  rw [hdb₂] at hdb₅
  have hcredentials : ∀ c ∈ db₅.credentials, ∃ c₀ ∈ db.credentials,
      c₀.credentialId = c.credentialId ∧ (c.status = .current → c₀.Serves c.clientId c.role ∧
        c₀.status = .current ∧ c₀.credentialId ≠ current.credentialId) := by
    intro c hc
    rw [hdb₅, Table.mem_update] at hc
    obtain ⟨c₀, hc₀, rfl⟩ := hc
    simp only [decide_eq_true_eq]
    split_ifs with hid
    · exact ⟨c₀, hc₀, rfl, fun hcur => (by cases hcur)⟩
    · exact ⟨c₀, hc₀, rfl, fun hcur => ⟨⟨rfl, rfl⟩, hcur, hid⟩⟩
  rcases h with h | ⟨_, db₆, h₆, h⟩
  · rcases run_insertCurrentCredential_error h with rfl | ⟨rfl, hnone | hsecond | ⟨c, hc, htaken⟩⟩
    · exact .text
    · rw [hdb₅, hwf.clientId, hclient] at hnone
      cases hnone
    · -- a second current credential would have been one before the update
      obtain ⟨c, hc⟩ := Option.isSome_iff_exists.mp hsecond
      obtain ⟨hc, howner, hrole, hcur⟩ := Ledger.currentCredential_eq_some hc
      obtain ⟨c₀, hc₀, -, hrest⟩ := hcredentials c hc
      obtain ⟨hserves, hcur₀, hid₀⟩ := hrest hcur
      obtain ⟨hmem', howner', hrole', hcur'⟩ := Ledger.currentCredential_eq_some hcurrent
      refine absurd (congrArg CredentialRow.credentialId
        (hdb.oneCurrent current hmem' c₀ hc₀ ⟨?_, ?_⟩ hcur' hcur₀)) hid₀
      · rw [hserves.owner, howner, hwf.clientId, howner']
      · rw [hserves.role, hrole, hwf.role, hrole']
    · obtain ⟨c₀, hc₀, hid₀, -⟩ := hcredentials c hc
      exact .credential c₀ hc₀ (hid₀.trans htaken)
  rcases h with h | ⟨_, db₇, h₇, h⟩
  · obtain ⟨-, -, -, -, hdb₆⟩ := run_insertCurrentCredential_ok h₆
    rcases run_insertAudit_error h with rfl | ⟨rfl, r, hr, htaken⟩
    · exact .text
    · rw [hdb₆, hdb₅] at hr
      exact .event r hr htaken
  · cases h

theorem Ledger.Credentialed.backup (h : db.Credentialed) : (Store.backup db).Credentialed := by
  constructor
  · rw [Store.backup_clients, Store.backup_credentials]
    exact h.hasCurrent
  · rw [Store.backup_credentials]
    exact h.oneCurrent
  · rw [Store.backup_credentials]
    exact h.deadline

/-- **The credentials of every instance are in order.** -/
theorem Lineage.credentialed {H : HashLib} {runs : List (List SystemTrans)} {s : SystemState}
    (h : Lineage H runs s) : s.world.ledger.Credentialed := by
  refine (Lineage.history (P := fun _ db => db.Governed ∧ db.Credentialed)
    ⟨Ledger.governed_empty, Ledger.credentialed_empty⟩ ?_ ?_ h).2
  · rintro cs db ⟨hgoverned, hdb⟩
    exact ⟨hgoverned.backup, hdb.backup⟩
  · intro cs db l db' hP hs hproper
    exact ⟨hP.1.step hs hproper.wellFormed, hP.2.step hP.1 hs hproper.wellFormed⟩

end Onceproof

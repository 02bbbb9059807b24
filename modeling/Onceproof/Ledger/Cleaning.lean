import Onceproof.Ledger.Outcomes

/-!
# Lookups after a cleanup

A cleanup drops rows from five tables. Each lookup of a request finds afterwards what it found
before, unless the row is past its retention (`Ledger.cleaned_proof`, `Ledger.cleaned_credential`,
`Ledger.cleaned_idempotent`, `Ledger.cleaned_rateWindow`). A later cleanup makes an earlier one
superfluous (`Ledger.cleaned_cleaned`).
-/

namespace Onceproof

namespace Ledger

variable (db : Ledger) (now : ℤ)

@[simp] theorem cleaned_clients : (db.cleaned now).clients = db.clients :=
  (db.cleaned_effect now).clients

@[simp] theorem cleaned_hashKeys : (db.cleaned now).hashKeys = db.hashKeys :=
  (db.cleaned_effect now).hashKeys

@[simp] theorem cleaned_restoreRequired :
    (db.cleaned now).restoreRequired = db.restoreRequired :=
  (db.cleaned_effect now).restoreRequired

/-- A proof is forgotten after its retention. -/
theorem cleaned_proof (D : Str) : (db.cleaned now).proofs.get? D =
    (db.proofs.get? D).filter fun r => now - proofRetentionSeconds ≤ r.expiresAt :=
  Table.get?_filter (db.cleaned_effect now).proofs D

/-- The credentials that a cleanup keeps. -/
def keepsCredential (db : Ledger) (now : ℤ) (c : CredentialRow) : Bool :=
  c.status = .current ∨ now ≤ c.endedAt ∨
    ∃ r ∈ (db.cleaned now).proofs.rows, r.issueCredentialId = c.credentialId

theorem cleaned_credentials_rows :
    (db.cleaned now).credentials.rows = db.credentials.rows.filter (db.keepsCredential now) :=
  (db.cleaned_effect now).credentials

theorem cleaned_credential (id : Str) : (db.cleaned now).credentials.get? id =
    (db.credentials.get? id).filter (db.keepsCredential now) :=
  Table.get?_filter (db.cleaned_credentials_rows now) id

theorem cleaned_verification (id : Str) : (db.cleaned now).verifications.get? id =
    (db.verifications.get? id).filter fun v => now - idempotencyRetentionSeconds ≤ v.createdAt :=
  Table.get?_filter (db.cleaned_effect now).verifications id

theorem cleaned_auditEvent (id : Str) : (db.cleaned now).auditEvents.get? id =
    (db.auditEvents.get? id).filter fun e => now - auditRetentionSeconds ≤ e.createdAt :=
  Table.get?_filter (db.cleaned_effect now).auditEvents id

variable {db now}

/-- The events of a window that ends later are all kept. -/
theorem cleaned_rateWindow {now' : ℤ} (h : now ≤ now') (clientId : Str) (operation : Operation) :
    (db.cleaned now).rateWindow clientId operation (now' - 60) =
      db.rateWindow clientId operation (now' - 60) := by
  rw [rateWindow, rateWindow, (db.cleaned_effect now).rateEvents, List.filter_filter]
  refine List.filter_congr fun e _ => ?_
  by_cases hlate : now' - 60 < e.occurredAt
  · have hkept : now - 60 < e.occurredAt := by omega
    simp [hlate, hkept]
  · simp [hlate]

/-- The idempotency keys in use are older ones. -/
theorem cleaned_idempotent_none {clientId key : Str} (h : db.idempotent clientId key = none) :
    (db.cleaned now).idempotent clientId key = none := by
  rw [idempotent, List.find?_eq_none] at h ⊢
  rw [(db.cleaned_effect now).verifications]
  exact fun v hv => h v (List.mem_filter.mp hv).1

/-- A decision within its retention is still found under its key. -/
theorem cleaned_idempotent {clientId key : Str} {row : VerificationRow}
    (h : db.idempotent clientId key = some row)
    (hrecent : now - idempotencyRetentionSeconds ≤ row.createdAt) :
    (db.cleaned now).idempotent clientId key = some row := by
  rw [idempotent] at h ⊢
  rw [(db.cleaned_effect now).verifications]
  obtain ⟨hrow, before, after, hrows, hbefore⟩ := List.find?_eq_some_iff_append.mp h
  refine List.find?_eq_some_iff_append.mpr ⟨hrow, _, _, by
    rw [hrows, List.filter_append, List.filter_cons_of_pos (by simpa using hrecent)], ?_⟩
  exact fun v hv => hbefore v (List.mem_filter.mp hv).1

/-- An accepted credential is kept. -/
theorem keepsCredential_of_accepted {c : CredentialRow} {now' : ℤ} (hle : now ≤ now')
    (h : credentialIsAccepted c now' = true) : db.keepsCredential now c = true := by
  rw [keepsCredential, decide_eq_true_eq]
  unfold credentialIsAccepted at h
  split at h
  · next hstatus => exact Or.inl hstatus
  · split at h
    · next validUntil hvalid =>
      refine Or.inr (Or.inl ?_)
      have hlive : now' < validUntil := of_decide_eq_true h
      rw [CredentialRow.endedAt, hvalid]
      change now ≤ validUntil
      omega
    · cases h
  · cases h

/-! ### Repeated cleanups -/

/-- The rows of the maintenance table after an upsert. -/
theorem upsertMaintenance_rows (db : Ledger) (name : MaintenanceName) (value : ℤ) :
    (db.upsertMaintenance name value).maintenance.rows =
      if name ∈ db.maintenance.rows.map MaintenanceRow.name then
        db.maintenance.rows.map fun r =>
          if r.name = name then { r with valueInteger := value } else r
      else db.maintenance.rows ++ [⟨name, value⟩] := by
  unfold upsertMaintenance
  cases hinsert : db.maintenance.insert? ⟨name, value⟩ with
  | some t =>
    obtain ⟨hfresh, hrows⟩ := Table.insert?_eq_some.mp hinsert
    have habsent : name ∉ db.maintenance.rows.map MaintenanceRow.name := by
      rintro hmem
      obtain ⟨r, hr, hname⟩ := List.mem_map.mp hmem
      exact hfresh r hr hname
    rw [if_neg habsent]
    exact hrows
  | none =>
    obtain ⟨r, hr, hname⟩ := Table.insert?_eq_none.mp hinsert
    rw [if_pos (List.mem_map.mpr ⟨r, hr, hname⟩)]
    simp only [Table.rows_update, decide_eq_true_eq]

/-- An upsert replaces an earlier one. -/
theorem upsertMaintenance_rows_twice {db db' : Ledger} {name : MaintenanceName} {a : ℤ} (b : ℤ)
    (h : db'.maintenance.rows = (db.upsertMaintenance name a).maintenance.rows) :
    (db'.upsertMaintenance name b).maintenance.rows =
      (db.upsertMaintenance name b).maintenance.rows := by
  rw [upsertMaintenance_rows, upsertMaintenance_rows, h, upsertMaintenance_rows]
  by_cases hmem : name ∈ db.maintenance.rows.map MaintenanceRow.name
  · have hnames : (db.maintenance.rows.map fun r => if r.name = name then
        { r with valueInteger := a } else r).map MaintenanceRow.name =
          db.maintenance.rows.map MaintenanceRow.name := by
      rw [List.map_map]
      refine List.map_congr_left fun r _ => ?_
      by_cases hr : r.name = name <;> simp [hr]
    rw [if_pos hmem, if_pos hmem, hnames, if_pos hmem, List.map_map]
    refine List.map_congr_left fun r _ => ?_
    by_cases hr : r.name = name <;> simp [hr]
  · have hothers : ∀ r ∈ db.maintenance.rows, r.name ≠ name := fun r hr hname =>
      hmem (List.mem_map.mpr ⟨r, hr, hname⟩)
    rw [if_neg hmem, if_neg hmem, if_pos (by simp), List.map_append]
    congr 1
    · exact (List.map_congr_left fun r hr => if_neg (hothers r hr)).trans (List.map_id _)
    · simp

theorem cleaned_maintenance (db : Ledger) (now : ℤ) : (db.cleaned now).maintenance.rows =
    (db.upsertMaintenance .lastCleanupAt now).maintenance.rows := by
  rw [cleaned, upsertMaintenance_rows, upsertMaintenance_rows]

/-- **A later cleanup** makes an earlier one superfluous. -/
theorem cleaned_cleaned {c : ℤ} (hle : c ≤ now) : (db.cleaned c).cleaned now = db.cleaned now := by
  have hc := db.cleaned_effect c
  have hn := db.cleaned_effect now
  have hcn := (db.cleaned c).cleaned_effect now
  have hproofs : ((db.cleaned c).cleaned now).proofs.rows = (db.cleaned now).proofs.rows := by
    rw [hcn.proofs, hc.proofs, hn.proofs, List.filter_filter]
    refine List.filter_congr fun r _ => ?_
    by_cases hr : now - proofRetentionSeconds ≤ r.expiresAt
    · have hr' : c - proofRetentionSeconds ≤ r.expiresAt := by omega
      simp [hr, hr']
    · simp [hr]
  -- a credential kept for its proofs is kept for those that remain
  have hkept : ∀ r ∈ (db.cleaned now).proofs.rows, r ∈ (db.cleaned c).proofs.rows := by
    intro r hr
    rw [hn.proofs] at hr
    rw [hc.proofs]
    obtain ⟨hmem, hlive⟩ := List.mem_filter.mp hr
    have hlive := of_decide_eq_true hlive
    exact List.mem_filter.mpr ⟨hmem, decide_eq_true (by omega)⟩
  refine Ledger.ext ?_ (Table.ext ?_) (Table.ext hproofs) (Table.ext ?_) (Table.ext ?_) ?_ ?_
    (Table.ext ?_)
  · rw [hcn.clients, hc.clients, hn.clients]
  · rw [hcn.credentials, hc.credentials, hn.credentials, List.filter_filter, hproofs]
    refine List.filter_congr fun row _ => ?_
    rw [Bool.eq_iff_iff]
    simp only [Bool.and_eq_true, decide_eq_true_eq]
    refine ⟨fun h => h.1, fun h => ⟨h, ?_⟩⟩
    rcases h with hcurrent | hended | ⟨r, hr, hissued⟩
    · exact Or.inl hcurrent
    · exact Or.inr (Or.inl (by omega))
    · exact Or.inr (Or.inr ⟨r, hkept r hr, hissued⟩)
  · rw [hcn.verifications, hc.verifications, hn.verifications, List.filter_filter]
    refine List.filter_congr fun v _ => ?_
    by_cases hv : now - idempotencyRetentionSeconds ≤ v.createdAt
    · have hv' : c - idempotencyRetentionSeconds ≤ v.createdAt := by omega
      simp [hv, hv']
    · simp [hv]
  · rw [hcn.auditEvents, hc.auditEvents, hn.auditEvents, List.filter_filter]
    refine List.filter_congr fun e _ => ?_
    by_cases he : now - auditRetentionSeconds ≤ e.createdAt
    · have he' : c - auditRetentionSeconds ≤ e.createdAt := by omega
      simp [he, he']
    · simp [he]
  · rw [hcn.rateEvents, hc.rateEvents, hn.rateEvents, List.filter_filter]
    refine List.filter_congr fun e _ => ?_
    by_cases he : now - 60 < e.occurredAt
    · have he' : c - 60 < e.occurredAt := by omega
      simp [he, he']
    · simp [he]
  · rw [hcn.hashKeys, hc.hashKeys, hn.hashKeys]
  · rw [cleaned_maintenance, upsertMaintenance_rows_twice now (db.cleaned_maintenance c),
      cleaned_maintenance]

/-! ### An opportunistic cleanup -/

/-- The ledger after a cleanup at the reading `c`, or without one. -/
def MaybeCleaned (db : Ledger) (c : ℤ) (db' : Ledger) : Prop := db' = db ∨ db' = db.cleaned c

namespace MaybeCleaned

variable {db' : Ledger} {c : ℤ}

theorem clients (h : db.MaybeCleaned c db') : db'.clients = db.clients := by
  rcases h with rfl | rfl
  · rfl
  · exact db.cleaned_clients c

theorem restoreRequired (h : db.MaybeCleaned c db') :
    db'.restoreRequired = db.restoreRequired := by
  rcases h with rfl | rfl
  · rfl
  · exact db.cleaned_restoreRequired c

theorem rateWindow (h : db.MaybeCleaned c db') (hle : c ≤ now) (clientId : Str)
    (operation : Operation) :
    db'.rateWindow clientId operation (now - 60) = db.rateWindow clientId operation (now - 60) := by
  rcases h with rfl | rfl
  · rfl
  · exact cleaned_rateWindow hle clientId operation

theorem idempotent_none (h : db.MaybeCleaned c db') {clientId key : Str}
    (hnone : db.idempotent clientId key = none) : db'.idempotent clientId key = none := by
  rcases h with rfl | rfl
  · exact hnone
  · exact cleaned_idempotent_none hnone

/-- A credential that is accepted later is still there. -/
theorem credential (h : db.MaybeCleaned c db') (hle : c ≤ now) {id : Str} {row : CredentialRow}
    (hrow : db.credentials.get? id = some row) (haccepted : credentialIsAccepted row now = true) :
    db'.credentials.get? id = some row := by
  rcases h with rfl | rfl
  · exact hrow
  · rw [cleaned_credential, hrow]
    exact if_pos (keepsCredential_of_accepted hle haccepted)

/-- A proof within its retention is still there. -/
theorem proof (h : db.MaybeCleaned c db') {D : Str} {r : ProofRow}
    (hrow : db.proofs.get? D = some r) (hretained : c - proofRetentionSeconds ≤ r.expiresAt) :
    db'.proofs.get? D = some r := by
  rcases h with rfl | rfl
  · exact hrow
  · rw [cleaned_proof, hrow]
    exact if_pos (decide_eq_true hretained)

theorem verification_none (h : db.MaybeCleaned c db') {id : Str}
    (hnone : db.verifications.get? id = none) : db'.verifications.get? id = none := by
  rcases h with rfl | rfl
  · exact hnone
  · rw [cleaned_verification, hnone]
    rfl

theorem auditEvent_none (h : db.MaybeCleaned c db') {id : Str}
    (hnone : db.auditEvents.get? id = none) : db'.auditEvents.get? id = none := by
  rcases h with rfl | rfl
  · exact hnone
  · rw [cleaned_auditEvent, hnone]
    rfl

/-- Authority is kept. -/
theorem accepted (h : db.MaybeCleaned c db') (hle : c ≤ now) {role : Role}
    {credentialId clientId : Str} (haccepted : db.Accepted role credentialId clientId now) :
    db'.Accepted role credentialId clientId now := by
  obtain ⟨credential, client, hrow, hrole, howner, hlive, hclient, hactive⟩ :=
    Ledger.accepted_iff.mp haccepted
  refine Ledger.accepted_iff.mpr ⟨credential, client, h.credential hle hrow hlive, hrole, howner,
    hlive, ?_, hactive⟩
  rw [h.clients, hclient]

end MaybeCleaned

end Ledger

end Onceproof

import Onceproof.Persistence
import Onceproof.Store.Effects

/-!
# The checks under the write lock

When `issue_proof` and `consume_proof` refuse a credential. The exceptions of the statements
behind the check are told apart from the check's own (`Tx.Raises`).
-/

namespace Onceproof

/-! ### What the statements raise -/

/-- A query raises only if a text cannot be bound. -/
theorem raises_select {α : Type} {E : Error → Prop} (params : List Str) (query : Ledger → α)
    (hE : E .unicodeEncodeError) : (select params query).Raises E := by
  intro db e h
  rw [select, run_execute] at h
  split_ifs at h
  exact Except.error.inj h ▸ hE

/-- So does a change that violates no constraint. -/
theorem raises_change {α : Type} {E : Error → Prop} (params : List Str) (stmt : Ledger → α × Ledger)
    (hE : E .unicodeEncodeError) : (change params stmt).Raises E := by
  intro db e h
  rw [change, run_execute] at h
  split_ifs at h
  exact Except.error.inj h ▸ hE

/-- An insertion may also violate a constraint. -/
theorem raises_insert {E : Error → Prop} {params : List Str}
    {stmt : Ledger → Except Error Ledger} (hE : E .unicodeEncodeError)
    (hstmt : ∀ db e, stmt db = .error e → E e) : (insert params stmt).Raises E := by
  intro db e h
  rw [insert, run_execute] at h
  split_ifs at h
  · cases hs : stmt db with
    | ok db' => simp [hs, Except.map] at h
    | error e' =>
      rw [hs] at h
      obtain rfl := Except.error.inj h
      exact hstmt db e' hs
  · exact Except.error.inj h ▸ hE

/-- A table that refuses a row has one under its key. -/
theorem inserted_error {τ : Type} {t : Option τ} {f : τ → Ledger} {e : Error}
    (h : Ledger.inserted t f = .error e) : e = .integrityError := by
  cases t with
  | none => exact (Except.error.inj h).symm
  | some t => cases h

/-- Every violated constraint is one and the same exception. -/
theorem Ledger.insertProof_error {row : ProofRow} {db : Ledger} {e : Error}
    (h : Ledger.insertProof row db = .error e) : e = .integrityError := by
  unfold Ledger.insertProof at h
  split_ifs at h
  · exact (Except.error.inj h).symm
  · exact (Except.error.inj h).symm
  · exact (Except.error.inj h).symm
  · exact inserted_error h

theorem Ledger.insertVerification_error {row : VerificationRow} {db : Ledger} {e : Error}
    (h : Ledger.insertVerification row db = .error e) : e = .integrityError := by
  unfold Ledger.insertVerification at h
  split_ifs at h
  · exact (Except.error.inj h).symm
  · exact inserted_error h

/-- An exception other than those of a check. -/
def Error.IsStatement : Error → Prop
  | .unicodeEncodeError | .integrityError | .rateLimitError _ | .typeError => True
  | _ => False

/-- Claiming a slot of the rate window. -/
theorem raises_consumeRateSlot (clientId : Str) (operation : Operation) (limit now : ℤ) :
    (consumeRateSlot clientId operation limit now).Raises Error.IsStatement := by
  refine Tx.Raises.bind (raises_change _ _ trivial) fun _ => ?_
  refine Tx.Raises.bind (raises_select _ _ trivial) fun window => ?_
  split_ifs
  · split <;>
    · intro db e h
      exact Except.error.inj h ▸ trivial
  · exact raises_change _ _ trivial

/-- Writing an audit event. -/
theorem raises_insertAudit (event : Bytes) (now : ℤ) (kind : AuditKind) (outcome : AuditOutcome)
    (clientId credentialId proofTag : Option Str) (reason : Option RejectionReason) :
    (insertAudit event now kind outcome clientId credentialId proofTag reason).Raises
      Error.IsStatement :=
  raises_insert trivial fun _ _ h => inserted_error h ▸ trivial

/-- Deciding about a proof only reads and writes. -/
theorem raises_decideProof {E : Error → Prop} (a : ConsumeProof) (record : Option ProofRecord)
    (verificationId : Str) (now : ℤ) (hE : E .unicodeEncodeError) :
    (decideProof a record verificationId now).Raises E := by
  cases record with
  | none => exact Tx.Raises.pure _
  | some record =>
    unfold decideProof
    dsimp only
    split_ifs
    · exact Tx.Raises.pure _
    · exact Tx.Raises.pure _
    · exact Tx.Raises.pure _
    · refine Tx.Raises.bind (raises_change _ _ hE) fun rowcount => ?_
      split_ifs
      · exact Tx.Raises.pure _
      · exact Tx.Raises.pure _

/-! ### Why a statement raises -/

section Raised

variable {db : Ledger} {e : Error}

/-- A query that fails could not bind a text. -/
theorem run_select_error {α : Type} {params : List Str} {query : Ledger → α}
    (h : Tx.run (select params query) db = .error e) : e = .unicodeEncodeError :=
  raises_select (E := fun e => e = .unicodeEncodeError) params query rfl db e h

theorem run_change_error {α : Type} {params : List Str} {stmt : Ledger → α × Ledger}
    (h : Tx.run (change params stmt) db = .error e) : e = .unicodeEncodeError :=
  raises_change (E := fun e => e = .unicodeEncodeError) params stmt rfl db e h

/-- An insertion that fails could not bind a text or broke a constraint. -/
theorem run_insert_error {params : List Str} {stmt : Ledger → Except Error Ledger}
    (h : Tx.run (insert params stmt) db = .error e) :
    e = .unicodeEncodeError ∨ stmt db = .error e := by
  rw [insert, run_execute] at h
  split_ifs at h
  · cases hs : stmt db with
    | ok db' => simp [hs, Except.map] at h
    | error e' =>
      rw [hs] at h
      exact Or.inr (congrArg Except.error (Except.error.inj h))
  · exact Or.inl (Except.error.inj h).symm

/-- An insert violates its primary key. -/
theorem inserted_error_iff {ρ κ : Type} [DecidableEq κ] {key : ρ → κ} {t : Table ρ key} {row : ρ}
    {f : Table ρ key → Ledger} : Ledger.inserted (t.insert? row) f = .error e ↔
      e = .integrityError ∧ ∃ r ∈ t, key r = key row := by
  cases ht : t.insert? row with
  | none =>
    have htaken := Table.insert?_eq_none.mp ht
    exact ⟨fun h => ⟨(Except.error.inj h).symm, htaken⟩, fun h => h.1 ▸ rfl⟩
  | some t' =>
    have hfresh := (Table.insert?_eq_some.mp ht).1
    simp only [Ledger.inserted, reduceCtorEq, false_iff, not_and, not_exists]
    exact fun _ r hr => hfresh r hr

/-- The check of the seal fails on a sealed ledger only. -/
theorem run_requireOperational_error (h : Tx.run requireOperational db = .error e) :
    e = .restoreRequiredError ∧ db.restoreRequired = true := by
  rw [requireOperational, Tx.run_bind_error] at h
  rcases h with h | ⟨required, db₁, h₁, h⟩
  · rw [select, run_execute] at h
    cases h
  · obtain ⟨-, rfl, rfl⟩ := run_select_ok.mp h₁
    split_ifs at h with hrequired
    · exact ⟨(Except.error.inj h).symm, hrequired⟩
    · cases h

/-- A sealed ledger raises. -/
theorem run_requireOperational_sealed (h : db.restoreRequired = true) :
    Tx.run requireOperational db = .error .restoreRequiredError := by
  rw [requireOperational, Tx.run_bind_of_ok (run_select_ok.mpr ⟨rfl, rfl, rfl⟩), h]
  rfl

/-- **A key is refused** because its check differs from the one that the ledger recorded. -/
theorem run_registerHashKey_error {kid check : Str}
    (h : Tx.run (registerHashKey kid check) db = .error e) : e = .unicodeEncodeError ∨
      e = .storeCorruptionError ∧ ∃ row, db.hashKeys.get? kid = some row ∧
        row.keyCheck ≠ check := by
  rw [registerHashKey, Tx.run_bind_error] at h
  rcases h with h | ⟨row, db₁, h₁, h⟩
  · exact Or.inl (run_select_error h)
  · obtain ⟨-, hrow, rfl⟩ := run_select_ok.mp h₁
    cases row with
    | none =>
      rcases run_insert_error h with h | h
      · exact Or.inl h
      · obtain ⟨-, r, hr, hkid⟩ := inserted_error_iff.mp h
        exact absurd hkid (Table.get?_eq_none.mp hrow.symm r hr)
    | some row =>
      dsimp only at h
      split_ifs at h with hcheck
      · exact Or.inr ⟨(Except.error.inj h).symm, row, hrow.symm, hcheck⟩
      · cases h

/-- An audit event is refused only if its id is taken. -/
theorem run_insertAudit_error {event : Bytes} {now : ℤ} {kind : AuditKind}
    {outcome : AuditOutcome} {clientId credentialId proofTag : Option Str}
    {reason : Option RejectionReason}
    (h : Tx.run (insertAudit event now kind outcome clientId credentialId proofTag reason) db =
      .error e) : e = .unicodeEncodeError ∨
        e = .integrityError ∧ ∃ r ∈ db.auditEvents, r.eventId = lit "ae_" ++ hexlify event := by
  rcases run_insert_error h with h | h
  · exact Or.inl h
  · exact Or.inr (inserted_error_iff.mp h)

/-- **A credential is refused** by its foreign key, by the index of current credentials, or by
its primary key. -/
theorem run_insertCurrentCredential_error {c : CredentialRecord} {now : ℤ}
    (h : Tx.run (insertCurrentCredential c now) db = .error e) : e = .unicodeEncodeError ∨
      e = .integrityError ∧ (db.clients.get? c.clientId = none ∨
        (db.currentCredential c.clientId c.role).isSome = true ∨
          ∃ r ∈ db.credentials, r.credentialId = c.credentialId) := by
  rcases run_insert_error h with h | h
  · exact Or.inl h
  · unfold Ledger.insertCredential at h
    split_ifs at h with hclient hcurrent
    · exact Or.inr ⟨(Except.error.inj h).symm, Or.inl (Option.isNone_iff_eq_none.mp hclient)⟩
    · exact Or.inr ⟨(Except.error.inj h).symm, Or.inr (Or.inl hcurrent.2)⟩
    · obtain ⟨he, hid⟩ := inserted_error_iff.mp h
      exact Or.inr ⟨he, Or.inr (Or.inr hid)⟩

end Raised

/-! ### Reading a stored decision -/

/-- **A stored decision that is not read back** is reported as corruption. -/
theorem resultFromJson_error {value : Json} {e : Error}
    (h : resultFromJson (.ok value) = .error e) : e = .storeCorruptionError := by
  change (VerificationResult.fromDict value).mapError corruption = .error e at h
  cases hread : VerificationResult.fromDict value with
  | ok result =>
    rw [hread] at h
    cases h
  | error e' =>
    have hcaught := VerificationResult.caught_fromDict value e' hread
    rw [hread] at h
    cases e' with
    | keyError | typeError | valueError => exact (Except.error.inj h).symm
    | _ => exact hcaught.elim

/-! ### Corruption of the store -/

section Corruption

variable {db : Ledger} {event : Bytes}

/-- Every exception but the one that reports corruption. -/
def Error.Other (e : Error) : Prop := e ≠ .storeCorruptionError

/-- Distinct exceptions are told apart by their constructors. -/
@[simp]
theorem Error.other_iff {e : Error} : e.Other ↔ e ≠ .storeCorruptionError :=
  Iff.rfl

/-- No statement reports corruption by itself. -/
theorem Error.IsStatement.other {e : Error} (h : e.IsStatement) : e.Other := by
  rintro rfl
  exact h

/-- Inserting a credential does not report corruption. -/
theorem raises_insertCurrentCredential (c : CredentialRecord) (now : ℤ) :
    (insertCurrentCredential c now).Raises Error.Other := by
  intro db e h
  rcases run_insertCurrentCredential_error h with rfl | ⟨rfl, -⟩ <;> simp

/-- Nor does inserting a client. -/
theorem raises_insertClientRow (a : CreateClient) (params : List Str) :
    (insert params (insertClientRow a)).Raises Error.Other := by
  refine raises_insert (by simp) fun db e h => ?_
  unfold insertClientRow at h
  split_ifs at h
  · rw [inserted_error h]
    simp
  · rw [← Except.error.inj h]
    simp

theorem Tx.Raises.other {α : Type} {t : LedgerTx α} (h : t.Raises Error.IsStatement) :
    t.Raises Error.Other := fun db e he => (h db e he).other

/-- The exception of a transaction that checks the seal, registers a key, and goes on. -/
private theorem registered_corruption {α : Type} {kid check : Str} {rest : LedgerTx α}
    (hrest : rest.Raises Error.Other)
    (h : Tx.run (do requireOperational; registerHashKey kid check; rest) db =
      .error .storeCorruptionError) :
    ∃ row, db.hashKeys.get? kid = some row ∧ row.keyCheck ≠ check := by
  rw [Tx.run_bind_error] at h
  rcases h with h | ⟨_, db₁, h₁, h⟩
  · obtain ⟨he, -⟩ := run_requireOperational_error h
    cases he
  obtain ⟨-, hkept⟩ := run_requireOperational_ok.mp h₁
  subst db₁
  rw [Tx.run_bind_error] at h
  rcases h with h | ⟨_, db₂, -, h⟩
  · rcases run_registerHashKey_error h with he | ⟨-, hrow⟩
    · cases he
    · exact hrow
  · exact absurd rfl (hrest db₂ _ h)

/-- **Corruption is reported** by a creation only for a key with another check. -/
theorem Store.createClient_corruption {a : CreateClient}
    (h : Tx.run (Store.createClient a event) db = .error .storeCorruptionError) :
    ∃ row, db.hashKeys.get? a.issuanceCredential.hashKid = some row ∧
      row.keyCheck ≠ a.hashKeyCheck := by
  unfold Store.createClient at h
  by_cases hkid : a.issuanceCredential.hashKid = a.verificationCredential.hashKid
  · simp only [hkid, ne_eq, not_true_eq_false, if_false] at h
    rw [hkid]
    refine registered_corruption ?_ h
    refine Tx.Raises.bind (raises_insertClientRow a _) fun _ => ?_
    refine Tx.Raises.bind (raises_insertCurrentCredential _ _) fun _ => ?_
    refine Tx.Raises.bind (raises_insertCurrentCredential _ _) fun _ => ?_
    exact (raises_insertAudit _ _ _ _ _ _ _ _).other
  · rw [Tx.run_bind_error] at h
    rcases h with h | ⟨_, db₁, -, h⟩
    · obtain ⟨he, -⟩ := run_requireOperational_error h
      cases he
    · rw [if_pos hkid] at h
      cases h

/-- The same for a rotation. -/
theorem Store.rotateCredential_corruption {a : RotateCredential}
    (h : Tx.run (Store.rotateCredential a event) db = .error .storeCorruptionError) :
    ∃ row, db.hashKeys.get? a.replacement.hashKid = some row ∧ row.keyCheck ≠ a.hashKeyCheck := by
  refine registered_corruption ?_ h
  refine Tx.Raises.bind (raises_select _ _ (by simp)) fun client => ?_
  cases client with
  | none => exact Tx.Raises.raise (by simp)
  | some client =>
    dsimp only
    split_ifs
    · exact Tx.Raises.raise (by simp)
    · refine Tx.Raises.bind (raises_select _ _ (by simp)) fun current => ?_
      cases current with
      | none => exact Tx.Raises.raise (by simp)
      | some current =>
        refine Tx.Raises.bind (raises_change _ _ (by simp)) fun _ => ?_
        refine Tx.Raises.bind (raises_insertCurrentCredential _ _) fun _ => ?_
        refine Tx.Raises.bind (raises_insertAudit _ _ _ _ _ _ _ _).other fun _ => ?_
        exact Tx.Raises.pure _

/-- The same for an issuance. -/
theorem Store.issueProof_corruption {record : ProofRecord} {check : Str} {now : ℤ}
    (h : Tx.run (Store.issueProof record check now event) db = .error .storeCorruptionError) :
    ∃ row, db.hashKeys.get? record.hashKid = some row ∧ row.keyCheck ≠ check := by
  refine registered_corruption ?_ h
  refine Tx.Raises.bind (raises_select _ _ (by simp)) fun j => ?_
  cases j with
  | none => exact Tx.Raises.raise (by simp)
  | some j =>
    dsimp only
    split_ifs
    · exact Tx.Raises.raise (by simp)
    · exact Tx.Raises.raise (by simp)
    · refine Tx.Raises.bind (raises_consumeRateSlot _ _ _ _).other fun _ => ?_
      refine Tx.Raises.bind (raises_insert (by simp) fun db e he => ?_) fun _ => ?_
      · rw [Ledger.insertProof_error he]
        simp
      · refine Tx.Raises.bind (raises_insertAudit _ _ _ _ _ _ _ _).other fun _ => ?_
        exact Tx.Raises.pure _

end Corruption

/-! ### Issuing -/

/-- **`issue_proof` rejects a credential** if and only if no join authorizes it. -/
theorem Store.issueProof_rejected_iff {db : Ledger} {record : ProofRecord} {check : Str} {now : ℤ}
    {event : Bytes} (hop : db.restoreRequired = false)
    (hkey : ∃ db₁, Tx.run (registerHashKey record.hashKid check) db = .ok ((), db₁))
    (henc : record.issueCredentialId.encodable = true) :
    Tx.run (Store.issueProof record check now event) db =
        .error (.permissionError "credential_rejected") ↔
      ¬ db.Accepted .issuance record.issueCredentialId record.clientId now := by
  obtain ⟨db₁, hkey⟩ := hkey
  have hdb₁ : db₁.joined record.issueCredentialId .issuance =
      db.joined record.issueCredentialId .issuance := by
    rw [(run_registerHashKey_ok hkey).2]
    rfl
  rw [Store.issueProof, Tx.run_bind_of_ok (run_requireOperational_ok (u := ()) |>.mpr ⟨hop, rfl⟩),
    Tx.run_bind_of_ok hkey]
  dsimp only
  rw [Tx.run_bind_of_ok (run_select_ok.mpr ⟨by simpa using henc, rfl, rfl⟩), hdb₁]
  cases hj : db.joined record.issueCredentialId .issuance with
  | none =>
    exact iff_of_true rfl (Ledger.not_accepted_of_joined_none _ _ hj)
  | some j =>
    obtain ⟨credential, client⟩ := j
    have haccepts : ∀ {credential' : CredentialRow} {client' : ClientRow},
        db.Accepts .issuance record.issueCredentialId record.clientId now credential' client' →
          credential' = credential ∧ client' = client := by
      intro credential' client' hacc
      rw [hacc.joined] at hj
      exact Prod.mk.inj (Option.some.inj hj)
    dsimp only
    split_ifs with hactive haccepted
    · refine iff_of_true rfl ?_
      rintro ⟨credential', client', hacc⟩
      obtain ⟨rfl, rfl⟩ := haccepts hacc
      exact hactive hacc.active
    · refine iff_of_true rfl ?_
      rintro ⟨credential', client', hacc⟩
      obtain ⟨rfl, rfl⟩ := haccepts hacc
      exact haccepted.elim (fun h => h hacc.owner) fun h => h hacc.accepted
    · -- the statements behind the check raise other exceptions
      simp only [not_or, not_not] at hactive haccepted
      have hacc : db.Accepted .issuance record.issueCredentialId record.clientId now :=
        ⟨credential, client, hj, hactive, haccepted.1, haccepted.2⟩
      refine iff_of_false (fun h => ?_) (not_not.mpr hacc)
      refine Tx.Raises.bind (raises_consumeRateSlot _ _ _ _) (fun _ => ?_) _ _ h
      refine Tx.Raises.bind (raises_insert trivial fun db e he => ?_) fun _ => ?_
      · exact Ledger.insertProof_error he ▸ trivial
      · exact Tx.Raises.bind (raises_insertAudit _ _ _ _ _ _ _ _) fun _ => Tx.Raises.pure _

/-! ### Verifying -/

/-- `consume_proof` refuses a credential that no join authorizes. -/
theorem Store.consumeProof_refused {db : Ledger} {a : ConsumeProof} {now : ℤ} {draws : Draws}
    (hop : db.restoreRequired = false) (henc : a.credentialId.encodable = true)
    (h : ¬ db.Accepted .verification a.credentialId a.clientId now) :
    Tx.run (Store.consumeProof a now draws) db =
      .ok (rejectedResult .credentialRejected draws.verificationId none none now, db) := by
  rw [Store.consumeProof, Tx.run_bind_of_ok (run_requireOperational_ok (u := ()) |>.mpr ⟨hop, rfl⟩),
    Tx.run_bind_of_ok (run_select_ok.mpr ⟨by simpa using henc, rfl, rfl⟩)]
  cases hj : db.joined a.credentialId .verification with
  | none => rfl
  | some j =>
    obtain ⟨credential, client⟩ := j
    dsimp only
    split_ifs with hrefused
    · rfl
    · simp only [not_or, not_not] at hrefused
      exact absurd ⟨credential, client, hj, hrefused.2.1, hrefused.1, hrefused.2.2⟩ h

end Onceproof

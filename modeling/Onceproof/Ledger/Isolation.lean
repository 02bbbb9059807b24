import Onceproof.Ledger.Views

/-!
# Clients that share a ledger

Commits about another client leave the view of a client alone (`LedgerStep.view_other`), and
commits about the client, cleanups and activations can be repeated on any ledger with the same
view whose rows are among those of the first one (`LedgerStep.replay`). Cleanups need one more
fact about a ledger: the credential that issued a proof belongs to the client of the proof
(`Ledger.Rooted`).
-/

namespace Onceproof

variable {db db' p p' : Ledger} {l : Commit} {A B : Str} {t now : ℤ}

/-! ### Calls and their clients -/

/-- The client that a call is about. A cleanup and an activation are about all of them. -/
def StoreCall.client? : StoreCall → Option Str
  | .createClient a => some a.clientId
  | .issueProof record _ => some record.clientId
  | .consumeProof a => some a.clientId
  | .rotateCredential a => some a.clientId
  | .revokeClient clientId _ => some clientId
  | .cleanup _ | .activateRestoredBackup _ => none

/-- A call that is not about another client than `A`. -/
def StoreCall.Concerns (c : StoreCall) (A : Str) : Prop := ∀ B ∈ c.client?, B = A

instance (c : StoreCall) (A : Str) : Decidable (c.Concerns A) :=
  inferInstanceAs (Decidable (∀ B ∈ c.client?, B = A))

/-- A call that is about another client. -/
theorem StoreCall.exists_of_not_concerns {c : StoreCall} (h : ¬ c.Concerns A) :
    ∃ B, c.client? = some B ∧ B ≠ A := by
  simp only [Concerns, not_forall] at h
  obtain ⟨B, hB, hne⟩ := h
  exact ⟨B, hB, hne⟩

/-! ### Proofs and the credentials that issued them -/

/-- The credential that issued a proof is there, and belongs to the client of the proof. -/
def Ledger.Rooted (db : Ledger) : Prop :=
  ∀ r ∈ db.proofs, ∃ c ∈ db.credentials, c.credentialId = r.issueCredentialId ∧
    c.clientId = r.clientId

theorem Ledger.rooted_empty : Ledger.empty.Rooted := fun _ hr => absurd hr Table.not_mem_empty

/-- Rows that are rewritten keep their ids and owners. -/
theorem Ledger.Rooted.map (h : db.Rooted) {f : ProofRow → ProofRow}
    {g : CredentialRow → CredentialRow} {rs : List CredentialRow}
    (hproofs : db'.proofs.rows = db.proofs.rows.map f)
    (hcredentials : db'.credentials.rows = db.credentials.rows.map g ++ rs)
    (hf : ∀ r, (f r).issueCredentialId = r.issueCredentialId ∧ (f r).clientId = r.clientId)
    (hg : ∀ c, (g c).credentialId = c.credentialId ∧ (g c).clientId = c.clientId) :
    db'.Rooted := by
  intro r' hr'
  rw [Table.mem_def, hproofs] at hr'
  obtain ⟨r, hr, rfl⟩ := List.mem_map.mp hr'
  obtain ⟨c, hc, hid, howner⟩ := h r hr
  refine ⟨g c, ?_, ?_, ?_⟩
  · rw [Table.mem_def, hcredentials]
    exact List.mem_append_left _ (List.mem_map_of_mem hc)
  · rw [(hg c).1, hid, (hf r).1]
  · rw [(hg c).2, howner, (hf r).2]

/-- The rows of a consumed proof. -/
theorem Ledger.rows_consume (db : Ledger) (D verificationId : Str) (now : ℤ) :
    (db.consume D verificationId now).rows = db.proofs.rows.map fun r =>
      if r.tokenDigest = D ∧ r.consumedAt = none ∧ now < r.expiresAt then
        { r with consumedAt := some now, consumeVerificationId := some verificationId }
      else r := by
  simp [Ledger.consume]

/-- **Step lemma.** -/
theorem Ledger.Rooted.step (h : db.Rooted) (hs : LedgerStep db l db') : db'.Rooted := by
  have hid : ∀ {α : Type} (rows : List α), rows = rows.map id := fun rows => (List.map_id _).symm
  have hnil : ∀ {α : Type} (rows : List α), rows = rows ++ [] := fun rows =>
    (List.append_nil _).symm
  cases hs.effect with
  | create effect =>
    have hcredentials := effect.credentials
    rw [hid db.credentials.rows] at hcredentials
    exact h.map (effect.proofs ▸ hid _) hcredentials (fun _ => ⟨rfl, rfl⟩) fun _ => ⟨rfl, rfl⟩
  | issue effect =>
    intro r hr
    rw [Table.mem_def, effect.proofs, List.mem_append, List.mem_singleton] at hr
    rw [effect.credentials]
    rcases hr with hr | rfl
    · exact h r hr
    · obtain ⟨credential, client, hacc, -⟩ := effect.authorized
      obtain ⟨hmem, hname⟩ := Table.get?_eq_some.mp hacc.lookup.1
      rw [effect.committed_eq]
      exact ⟨credential, hmem, hname, hacc.owner⟩
  | consume effect =>
    cases effect with
    | refused => exact h
    | replayed => exact h
    | decided effect =>
      have hcredentials : db'.credentials.rows = db.credentials.rows.map id ++ [] := by
        rw [effect.credentials, ← hid, ← hnil]
      have hproofs := effect.proofs
      split_ifs at hproofs
      · refine h.map (hproofs ▸ db.rows_consume _ _ _) hcredentials (fun r => ?_)
          fun _ => ⟨rfl, rfl⟩
        split_ifs <;> exact ⟨rfl, rfl⟩
      · exact h.map (hproofs ▸ hid _) hcredentials (fun _ => ⟨rfl, rfl⟩) fun _ => ⟨rfl, rfl⟩
  | rotate effect =>
    refine h.map (effect.proofs ▸ hid _) effect.credentials (fun _ => ⟨rfl, rfl⟩) fun c => ?_
    unfold CredentialRow.demote
    split_ifs <;> exact ⟨rfl, rfl⟩
  | revoke effect =>
    cases effect with
    | already => exact h
    | revoked _ _ _ _ hcredentials hproofs =>
      refine h.map hproofs (hcredentials.trans (hnil _)) (fun r => ?_) fun c => ?_
      · split_ifs <;> exact ⟨rfl, rfl⟩
      · split_ifs <;> exact ⟨rfl, rfl⟩
  | cleanup effect =>
    intro r hr
    have hold := hr
    rw [Table.mem_def, effect.proofs] at hold
    obtain ⟨c, hc, hname, howner⟩ := h r (List.mem_filter.mp hold).1
    -- the credential of a proof that is kept is kept with it
    refine ⟨c, ?_, hname, howner⟩
    rw [Table.mem_def, effect.credentials, List.mem_filter, decide_eq_true_eq]
    exact ⟨hc, Or.inr (Or.inr ⟨r, hr, hname.symm⟩)⟩
  | activate effect =>
    refine h.map effect.proofs (effect.credentials.trans (hnil _)) (fun r => ?_)
      fun _ => ⟨rfl, rfl⟩
    split_ifs <;> exact ⟨rfl, rfl⟩

/-! ### Commits about another client -/

section Frame

/-- A row of another client is not seen. -/
theorem filter_owner_append {ρ : Type} {rows rows' rs : List ρ} {own : ρ → Bool}
    (h : rows' = rows ++ rs) (hrs : ∀ r ∈ rs, own r = false) :
    rows'.filter own = rows.filter own := by
  have hnone : rs.filter own = [] := List.filter_eq_nil_iff.mpr fun r hr => by simp [hrs r hr]
  rw [h, List.filter_append, hnone, List.append_nil]

/-- An event about another client is not seen. -/
theorem view_audit_other {event : Bytes} {kind : AuditKind} {outcome : AuditOutcome}
    {credentialId proofTag : Option Str} {reason : Option RejectionReason} (hne : B ≠ A)
    (h : db'.auditEvents.rows = db.auditEvents.rows ++
      [auditRow event now kind outcome (some B) credentialId proofTag reason]) :
    (db'.view A t).auditEvents = (db.view A t).auditEvents := by
  refine filter_owner_append h fun r hr => ?_
  rw [List.mem_singleton.mp hr]
  exact decide_eq_false hne

/-- A slot of another client is not seen, once the reading has passed. -/
theorem view_slot_other {operation : Operation} (hne : B ≠ A) (hle : now ≤ t)
    (h : db'.rateEvents = db.slotTaken B operation now) :
    (db'.view A t).rateEvents = (db.view A t).rateEvents := by
  change db'.rateEvents.filter (fun e => e.clientId = A ∧ t - 60 < e.occurredAt) = _
  rw [h]
  have hnew : ∀ r ∈ [(⟨B, operation, now⟩ : RateEvent)],
      decide (r.clientId = A ∧ t - 60 < r.occurredAt) = false := by
    intro r hr
    rw [List.mem_singleton.mp hr]
    exact decide_eq_false fun h => hne h.1
  refine (filter_owner_append rfl hnew).trans ?_
  rw [List.filter_filter]
  refine congrArg (fun r => List.filter r db.rateEvents) (funext fun e => ?_)
  rw [Bool.eq_iff_iff, Bool.and_eq_true, decide_eq_true_eq, decide_eq_true_eq]
  constructor
  · rintro ⟨hown, -⟩
    exact hown
  · rintro ⟨howner, hlate⟩
    exact ⟨⟨howner, hlate⟩, by omega⟩

theorem view_seal (h : db'.maintenance = db.maintenance) :
    (db'.view A t).restoreRequired = (db.view A t).restoreRequired := by
  change db'.restoreRequired = db.restoreRequired
  rw [Ledger.restoreRequired, Ledger.restoreRequired, Ledger.maintenanceValue,
    Ledger.maintenanceValue, h]

/-- A proof of another client is consumed unseen. -/
theorem view_consume_other {a : ConsumeProof} {draws : Draws} {result : VerificationResult}
    (h : DecideEffect a now draws db result db') (hne : a.clientId ≠ A) :
    (db'.view A t).proofs = (db.view A t).proofs := by
  change db'.proofs.rows.filter (fun r => r.clientId = A) = db.proofs.rows.filter _
  rw [h.proofs]
  split_ifs with hverified
  · rw [Ledger.rows_consume]
    refine filter_map_of_fixed (fun r => by split_ifs <;> rfl) fun r hr howner => ?_
    -- the row that is consumed is the one that the decision found
    obtain ⟨record, hrecord, -⟩ := ConsumeProof.decision_verified (h.result_eq ▸ hverified)
    obtain ⟨found, hfound, -⟩ := Option.map_eq_some_iff.mp hrecord
    obtain ⟨hmem, hdigest, hclient⟩ := Ledger.proofOf_eq_some.mp hfound
    refine if_neg fun hsame => hne ?_
    rw [← hclient, ← Table.eq_of_key_eq hr hmem (hsame.1.trans hdigest.symm)]
    exact of_decide_eq_true howner
  · rfl

/-- **Commits about another client** leave the view of a client alone. -/
theorem LedgerStep.view_other (hs : LedgerStep db l db') (hwf : l.call.WellFormed)
    (hother : ¬ l.call.Concerns A) (hclock : ∀ x ∈ l.lockReading?, x ≤ t) :
    db'.view A t = db.view A t := by
  obtain ⟨B, hB, hne⟩ := StoreCall.exists_of_not_concerns hother
  cases hs.effect with
  | @create a x _ effect =>
    obtain rfl := Option.some.inj hB
    obtain ⟨row, hrow, -, -, hclients⟩ := effect.clients
    refine ClientView.ext ?_ ?_ ?_ ?_ (view_audit_other hne effect.auditEvents) ?_
      (view_seal effect.maintenance)
    · refine filter_owner_append hclients fun r hr => ?_
      rw [List.mem_singleton.mp hr, hrow]
      exact decide_eq_false hne
    · refine filter_owner_append effect.credentials fun r hr => ?_
      -- the two first credentials belong to the client that is created
      have howner : r.clientId = a.clientId := by
        rcases List.mem_cons.mp hr with rfl | hr
        · exact hwf.issuance.1
        · rw [List.mem_singleton.mp hr]
          exact hwf.verification.1
      exact decide_eq_false (howner ▸ hne)
    · rw [Ledger.view, Ledger.view, effect.proofs]
    · rw [Ledger.view, Ledger.view, effect.verifications]
    · rw [Ledger.view, Ledger.view, effect.rateEvents]
  | @issue record check x committed _ effect =>
    obtain rfl := Option.some.inj hB
    refine ClientView.ext ?_ ?_ ?_ ?_ (view_audit_other hne effect.auditEvents)
      (view_slot_other hne (hclock _ rfl) effect.rateEvents) (view_seal effect.maintenance)
    · rw [Ledger.view, Ledger.view, effect.clients]
    · rw [Ledger.view, Ledger.view, effect.credentials]
    · refine filter_owner_append effect.proofs fun r hr => ?_
      rw [List.mem_singleton.mp hr, effect.committed_eq]
      exact decide_eq_false hne
    · rw [Ledger.view, Ledger.view, effect.verifications]
  | @consume a x result _ effect =>
    obtain rfl := Option.some.inj hB
    cases effect with
    -- only a decision writes
    | refused => rfl
    | replayed => rfl
    | decided effect =>
      refine ClientView.ext ?_ ?_ (view_consume_other effect hne) ?_
        (view_audit_other hne effect.auditEvents)
        (view_slot_other hne (hclock _ rfl) effect.rateEvents) (view_seal effect.maintenance)
      · rw [Ledger.view, Ledger.view, effect.clients]
      · rw [Ledger.view, Ledger.view, effect.credentials]
      · refine filter_owner_append effect.verifications fun r hr => ?_
        rw [List.mem_singleton.mp hr]
        exact decide_eq_false hne
  | @rotate a x reply _ effect =>
    obtain rfl := Option.some.inj hB
    refine ClientView.ext ?_ ?_ ?_ ?_ (view_audit_other hne effect.auditEvents) ?_
      (view_seal effect.maintenance)
    · rw [Ledger.view, Ledger.view, effect.clients]
    · refine (filter_owner_append effect.credentials fun r hr => ?_).trans
        (filter_map_of_fixed (fun c => ?_) fun c hc howner => ?_)
      · rw [List.mem_singleton.mp hr]
        exact decide_eq_false (hwf.clientId.trans_ne hne)
      · unfold CredentialRow.demote
        split_ifs <;> rfl
      · -- the credential that is superseded belongs to the other client
        obtain ⟨current, hcurrent, hreply⟩ := effect.current
        obtain ⟨hmem, hclient, -, -⟩ := Ledger.currentCredential_eq_some hcurrent
        refine if_neg fun hsame => hne ?_
        rw [hreply] at hsame
        rw [← hclient, ← Table.eq_of_key_eq hc hmem hsame]
        exact of_decide_eq_true howner
    · rw [Ledger.view, Ledger.view, effect.proofs]
    · rw [Ledger.view, Ledger.view, effect.verifications]
    · rw [Ledger.view, Ledger.view, effect.rateEvents]
  | @revoke clientId _ x reply _ effect =>
    obtain rfl := Option.some.inj hB
    cases effect with
    | already => rfl
    | revoked _ _ _ hclients hcredentials hproofs haudit hkeys hrate hverifications hmaintenance =>
      refine ClientView.ext ?_ ?_ ?_ ?_ (view_audit_other hne haudit) ?_ (view_seal hmaintenance)
      · change db'.clients.rows.filter (fun c => c.clientId = A) = db.clients.rows.filter _
        rw [hclients]
        refine filter_map_of_fixed (fun c => by split_ifs <;> rfl) fun c _ howner => if_neg ?_
        exact fun h => hne (h.symm.trans (of_decide_eq_true howner))
      · change db'.credentials.rows.filter (fun c => c.clientId = A) = db.credentials.rows.filter _
        rw [hcredentials]
        refine filter_map_of_fixed (fun c => by split_ifs <;> rfl) fun c _ howner => if_neg ?_
        exact fun h => hne (h.1.symm.trans (of_decide_eq_true howner))
      · change db'.proofs.rows.filter (fun r => r.clientId = A) = db.proofs.rows.filter _
        rw [hproofs]
        refine filter_map_of_fixed (fun r => by split_ifs <;> rfl) fun r _ howner => if_neg ?_
        exact fun h => hne (h.1.symm.trans (of_decide_eq_true howner))
      · rw [Ledger.view, Ledger.view, hverifications]
      · rw [Ledger.view, Ledger.view, hrate]
  -- the two calls of the operator concern every client
  | cleanup effect => cases hB
  | activate effect => cases hB

end Frame

/-! ### Commits about the client -/

/-- The rows of one ledger are among those of another. -/
structure Ledger.Within (p db : Ledger) : Prop where
  clients : ∀ c ∈ p.clients, c ∈ db.clients
  credentials : ∀ c ∈ p.credentials, c ∈ db.credentials
  proofs : ∀ r ∈ p.proofs, r ∈ db.proofs
  verifications : ∀ v ∈ p.verifications, v ∈ db.verifications
  auditEvents : ∀ e ∈ p.auditEvents, e ∈ db.auditEvents
  hashKeys : ∀ r ∈ p.hashKeys, r ∈ db.hashKeys

theorem Ledger.Within.refl (db : Ledger) : db.Within db :=
  ⟨fun _ h => h, fun _ h => h, fun _ h => h, fun _ h => h, fun _ h => h, fun _ h => h⟩

/-- **Two ledgers that look the same to a client**, from some reading on. The second one has no
row that the first one does not have. -/
structure Ledger.Shares (A : Str) (late : ℤ → Prop) (db p : Ledger) : Prop where
  view : ∀ t, late t → db.view A t = p.view A t
  within : p.Within db

section Replay

variable {draws : Draws} {event : Bytes}

/-- A registered check agrees with what was registered before. -/
theorem Ledger.Registers.registrable {kid check : Str} {u : Table HashKeyRow HashKeyRow.hashKid}
    (h : db.Registers kid check u) : db.Registrable kid check := by
  intro row hrow
  obtain ⟨hmem, hkid⟩ := Table.get?_eq_some.mp hrow
  have hlookup := Table.get?_eq_some.mpr ⟨h.keeps row hmem, hkid⟩
  rw [h.lookup] at hlookup
  rw [← Option.some.inj hlookup]

theorem Ledger.Within.registrable (h : p.Within db) {kid check : Str}
    (hkey : db.Registrable kid check) : p.Registrable kid check := by
  intro row hrow
  obtain ⟨hmem, hkid⟩ := Table.get?_eq_some.mp hrow
  exact hkey row (Table.get?_eq_some.mpr ⟨h.hashKeys row hmem, hkid⟩)

/-- Keys that both ledgers registered. -/
theorem Ledger.Within.registers (h : p.Within db) {kid check : Str}
    {u u' : Table HashKeyRow HashKeyRow.hashKid} (hp : p.Registers kid check u')
    (hdb : db.Registers kid check u) : ∀ r ∈ u', r ∈ u := by
  intro r hr
  rcases hp.only r hr with hr | rfl
  · exact hdb.keeps r (h.hashKeys r hr)
  · exact (Table.get?_eq_some.mp hdb.lookup).1

/-- The id of an event that was inserted was free. -/
theorem freshEvent_of_append {kind : AuditKind} {outcome : AuditOutcome}
    {clientId credentialId proofTag : Option Str} {reason : Option RejectionReason}
    (h : db'.auditEvents.rows = db.auditEvents.rows ++
      [auditRow event now kind outcome clientId credentialId proofTag reason]) :
    db.FreshEvent event := Table.get?_eq_none_of_append h

theorem Ledger.Within.freshEvent (h : p.Within db) (hevent : db.FreshEvent event) :
    p.FreshEvent event := Table.get?_eq_none_of_subset h.auditEvents hevent

/-- The same rows appended to the same view. -/
theorem filter_append_congr {ρ : Type} {rows rows₁ rows' rows₁' rs : List ρ} {own : ρ → Bool}
    (h : rows₁ = rows ++ rs) (h' : rows₁' = rows' ++ rs)
    (hrows : rows.filter own = rows'.filter own) : rows₁.filter own = rows₁'.filter own := by
  rw [h, h', List.filter_append, List.filter_append, hrows]

/-- The same change of the same view. -/
theorem filter_map_congr {ρ : Type} {rows rows₁ rows' rows₁' : List ρ} {own : ρ → Bool}
    {f : ρ → ρ} (h : rows₁ = rows.map f) (h' : rows₁' = rows'.map f) (hf : ∀ r, own (f r) = own r)
    (hrows : rows.filter own = rows'.filter own) : rows₁.filter own = rows₁'.filter own := by
  rw [h, h', filter_map_of_comm hf, filter_map_of_comm hf, hrows]

/-- A slot of the client is seen on both ledgers. -/
theorem view_slot_congr {operation : Operation} (hview : db.view A t = p.view A t)
    (h : db'.rateEvents = db.slotTaken B operation now)
    (h' : p'.rateEvents = p.slotTaken B operation now) :
    (db'.view A t).rateEvents = (p'.view A t).rateEvents := by
  refine filter_append_congr h h' ?_
  rw [filter_filter_comm, Ledger.view_rateEvents_congr hview, filter_filter_comm]

theorem view_seal_congr (hview : db.view A t = p.view A t) (h : db'.maintenance = db.maintenance)
    (h' : p'.maintenance = p.maintenance) :
    (db'.view A t).restoreRequired = (p'.view A t).restoreRequired := by
  rw [view_seal h, view_seal h', hview]

/-- **An issuance** on both ledgers. -/
theorem IssueEffect.replay {record committed : ProofRecord} {check : Str}
    (h : IssueEffect record check now event db committed db')
    (h' : IssueEffect record check now event p committed p') (hwithin : p.Within db) :
    p'.Within db' ∧ ∀ t, db.view A t = p.view A t → db'.view A t = p'.view A t := by
  refine ⟨⟨?_, ?_, Table.subset_append hwithin.proofs h'.proofs h.proofs, ?_,
    Table.subset_append hwithin.auditEvents h'.auditEvents h.auditEvents,
    hwithin.registers h'.hashKeys h.hashKeys⟩, fun t hview => ?_⟩
  · rw [h.clients, h'.clients]
    exact hwithin.clients
  · rw [h.credentials, h'.credentials]
    exact hwithin.credentials
  · rw [h.verifications, h'.verifications]
    exact hwithin.verifications
  · refine ClientView.ext ?_ ?_ (filter_append_congr h.proofs h'.proofs
      (Ledger.view_proofs_congr hview)) ?_ (filter_append_congr h.auditEvents h'.auditEvents
      (Ledger.view_auditEvents_congr hview)) (view_slot_congr hview h.rateEvents h'.rateEvents)
      (view_seal_congr hview h.maintenance h'.maintenance)
    · rw [Ledger.view, Ledger.view, h.clients, h'.clients]
      exact Ledger.view_clients_congr hview
    · rw [Ledger.view, Ledger.view, h.credentials, h'.credentials]
      exact Ledger.view_credentials_congr hview
    · rw [Ledger.view, Ledger.view, h.verifications, h'.verifications]
      exact Ledger.view_verifications_congr hview

/-- **A decision** on both ledgers. -/
theorem DecideEffect.replay {a : ConsumeProof} {result : VerificationResult}
    (h : DecideEffect a now draws db result db') (h' : DecideEffect a now draws p result p')
    (hwithin : p.Within db) :
    p'.Within db' ∧ ∀ t, db.view A t = p.view A t → db'.view A t = p'.view A t := by
  refine ⟨⟨?_, ?_, ?_, Table.subset_append hwithin.verifications h'.verifications h.verifications,
    Table.subset_append hwithin.auditEvents h'.auditEvents h.auditEvents, ?_⟩, fun t hview => ?_⟩
  · rw [h.clients, h'.clients]
    exact hwithin.clients
  · rw [h.credentials, h'.credentials]
    exact hwithin.credentials
  · rw [h.proofs, h'.proofs]
    by_cases hverified : result.verified = true
    · rw [if_pos hverified, if_pos hverified]
      exact Table.subset_map hwithin.proofs (p.rows_consume _ _ _) (db.rows_consume _ _ _)
    · rw [if_neg hverified, if_neg hverified]
      exact hwithin.proofs
  · rw [h.hashKeys, h'.hashKeys]
    exact hwithin.hashKeys
  · refine ClientView.ext ?_ ?_ ?_ (filter_append_congr h.verifications h'.verifications
      (Ledger.view_verifications_congr hview)) (filter_append_congr h.auditEvents h'.auditEvents
      (Ledger.view_auditEvents_congr hview)) (view_slot_congr hview h.rateEvents h'.rateEvents)
      (view_seal_congr hview h.maintenance h'.maintenance)
    · rw [Ledger.view, Ledger.view, h.clients, h'.clients]
      exact Ledger.view_clients_congr hview
    · rw [Ledger.view, Ledger.view, h.credentials, h'.credentials]
      exact Ledger.view_credentials_congr hview
    · change db'.proofs.rows.filter (fun r => r.clientId = A) = p'.proofs.rows.filter _
      rw [h.proofs, h'.proofs]
      by_cases hverified : result.verified = true
      · rw [if_pos hverified, if_pos hverified]
        refine filter_map_congr (db.rows_consume _ _ _) (p.rows_consume _ _ _) (fun r => ?_)
          (Ledger.view_proofs_congr hview)
        split_ifs <;> rfl
      · rw [if_neg hverified, if_neg hverified]
        exact Ledger.view_proofs_congr hview

/-- **A rotation** on both ledgers. -/
theorem RotateEffect.replay {a : RotateCredential} {reply : Str × ℤ}
    (h : RotateEffect a event db reply db') (h' : RotateEffect a event p reply p')
    (hwithin : p.Within db) :
    p'.Within db' ∧ ∀ t, db.view A t = p.view A t → db'.view A t = p'.view A t := by
  refine ⟨⟨?_, Table.subset_map_append hwithin.credentials h'.credentials h.credentials, ?_, ?_,
    Table.subset_append hwithin.auditEvents h'.auditEvents h.auditEvents,
    hwithin.registers h'.hashKeys h.hashKeys⟩, fun t hview => ?_⟩
  · rw [h.clients, h'.clients]
    exact hwithin.clients
  · rw [h.proofs, h'.proofs]
    exact hwithin.proofs
  · rw [h.verifications, h'.verifications]
    exact hwithin.verifications
  · refine ClientView.ext ?_ ?_ ?_ ?_ (filter_append_congr h.auditEvents h'.auditEvents
      (Ledger.view_auditEvents_congr hview)) ?_ (view_seal_congr hview h.maintenance h'.maintenance)
    · rw [Ledger.view, Ledger.view, h.clients, h'.clients]
      exact Ledger.view_clients_congr hview
    · refine filter_append_congr h.credentials h'.credentials
        (filter_map_congr rfl rfl (fun c => ?_) (Ledger.view_credentials_congr hview))
      unfold CredentialRow.demote
      split_ifs <;> rfl
    · rw [Ledger.view, Ledger.view, h.proofs, h'.proofs]
      exact Ledger.view_proofs_congr hview
    · rw [Ledger.view, Ledger.view, h.verifications, h'.verifications]
      exact Ledger.view_verifications_congr hview
    · rw [Ledger.view, Ledger.view, h.rateEvents, h'.rateEvents]
      exact Ledger.view_rateEvents_congr hview

/-- **A revocation** on both ledgers. -/
theorem RevokeEffect.replay {clientId : Str} {reply : Bool}
    (h : RevokeEffect clientId now event db reply db')
    (h' : RevokeEffect clientId now event p reply p') (hwithin : p.Within db) :
    p'.Within db' ∧ ∀ t, db.view A t = p.view A t → db'.view A t = p'.view A t := by
  cases h with
  | already =>
    cases h' with
    | already => exact ⟨hwithin, fun t hview => hview⟩
  | revoked _ client _ hclients hcredentials hproofs haudit hkeys hrate hverifications hseal =>
    cases h' with
    | revoked _ client' _ hclients' hcredentials' hproofs' haudit' hkeys' hrate' hverifications'
        hseal' =>
      refine ⟨⟨Table.subset_map hwithin.clients hclients' hclients,
        Table.subset_map hwithin.credentials hcredentials' hcredentials,
        Table.subset_map hwithin.proofs hproofs' hproofs, ?_,
        Table.subset_append hwithin.auditEvents haudit' haudit, ?_⟩, fun t hview => ?_⟩
      · rw [hverifications, hverifications']
        exact hwithin.verifications
      · rw [hkeys, hkeys']
        exact hwithin.hashKeys
      · refine ClientView.ext
          (filter_map_congr hclients hclients' (fun c => ?_) (Ledger.view_clients_congr hview))
          (filter_map_congr hcredentials hcredentials' (fun c => ?_)
            (Ledger.view_credentials_congr hview))
          (filter_map_congr hproofs hproofs' (fun r => ?_) (Ledger.view_proofs_congr hview)) ?_
          (filter_append_congr haudit haudit' (Ledger.view_auditEvents_congr hview)) ?_
          (view_seal_congr hview hseal hseal')
        · split_ifs <;> rfl
        · split_ifs <;> rfl
        · split_ifs <;> rfl
        · rw [Ledger.view, Ledger.view, hverifications, hverifications']
          exact Ledger.view_verifications_congr hview
        · rw [Ledger.view, Ledger.view, hrate, hrate']
          exact Ledger.view_rateEvents_congr hview

/-- **An activation** on both ledgers. -/
theorem ActivateEffect.replay (h : ActivateEffect now event db db')
    (h' : ActivateEffect now event p p') (hwithin : p.Within db) :
    p'.Within db' ∧ ∀ t, db.view A t = p.view A t → db'.view A t = p'.view A t := by
  refine ⟨⟨Table.subset_map hwithin.clients h'.clients h.clients,
    Table.subset_map hwithin.credentials h'.credentials h.credentials,
    Table.subset_map hwithin.proofs h'.proofs h.proofs, ?_,
    Table.subset_append hwithin.auditEvents h'.auditEvents h.auditEvents, ?_⟩, fun t hview => ?_⟩
  · rw [h.verifications, h'.verifications]
    exact hwithin.verifications
  · rw [h.hashKeys, h'.hashKeys]
    exact hwithin.hashKeys
  · refine ClientView.ext
      (filter_map_congr h.clients h'.clients (fun c => rfl) (Ledger.view_clients_congr hview))
      (filter_map_congr h.credentials h'.credentials (fun c => rfl)
        (Ledger.view_credentials_congr hview))
      (filter_map_congr h.proofs h'.proofs (fun r => ?_) (Ledger.view_proofs_congr hview)) ?_
      (filter_append_congr h.auditEvents h'.auditEvents (Ledger.view_auditEvents_congr hview)) ?_ ?_
    · split_ifs <;> rfl
    · rw [Ledger.view, Ledger.view, h.verifications, h'.verifications]
      exact Ledger.view_verifications_congr hview
    · rw [Ledger.view, Ledger.view, h.rateEvents, h'.rateEvents]
    · exact h.restoreRequired.trans h'.restoreRequired.symm

/-- **A cleanup** on both ledgers. -/
theorem CleanupEffect.replay (h : CleanupEffect now db db') (h' : CleanupEffect now p p')
    (hwithin : p.Within db) (hrooted : db.Rooted) :
    p'.Within db' ∧ ∀ t, db.view A t = p.view A t → db'.view A t = p'.view A t := by
  have hproofs := Table.subset_filter hwithin.proofs h'.proofs h.proofs
  refine ⟨⟨?_, ?_, hproofs, Table.subset_filter hwithin.verifications h'.verifications
    h.verifications, Table.subset_filter hwithin.auditEvents h'.auditEvents h.auditEvents, ?_⟩,
    fun t hview => ?_⟩
  · rw [h.clients, h'.clients]
    exact hwithin.clients
  · intro c hc
    rw [Table.mem_def, h'.credentials, List.mem_filter, decide_eq_true_eq] at hc
    rw [Table.mem_def, h.credentials, List.mem_filter, decide_eq_true_eq]
    obtain ⟨hmem, hkept⟩ := hc
    refine ⟨hwithin.credentials c hmem, hkept.imp_right (Or.imp_right ?_)⟩
    rintro ⟨r, hr, hissued⟩
    exact ⟨r, hproofs r hr, hissued⟩
  · rw [h.hashKeys, h'.hashKeys]
    exact hwithin.hashKeys
  · have hown : db'.proofs.rows.filter (fun r => r.clientId = A) =
        p'.proofs.rows.filter fun r => r.clientId = A := by
      rw [h.proofs, h'.proofs, filter_filter_comm, Ledger.view_proofs_congr hview,
        filter_filter_comm]
    -- a credential of the client issued proofs of the client only
    have hissued : ∀ {q : Ledger}, (∀ r ∈ q.proofs, r ∈ db'.proofs) → ∀ c ∈ db.credentials,
        c.clientId = A → ((∃ r ∈ q.proofs.rows, r.issueCredentialId = c.credentialId) ↔
          ∃ r ∈ q.proofs.rows.filter (fun r => r.clientId = A),
            r.issueCredentialId = c.credentialId) := by
      intro q hq c hc howner
      constructor
      · rintro ⟨r, hr, hsame⟩
        have hr' := hq r hr
        rw [Table.mem_def, h.proofs] at hr'
        obtain ⟨c', hc', hname, hclient⟩ := hrooted r (List.mem_filter.mp hr').1
        obtain rfl := Table.eq_of_key_eq hc' hc (hname.trans hsame)
        exact ⟨r, List.mem_filter.mpr ⟨hr, decide_eq_true (hclient.symm.trans howner)⟩, hsame⟩
      · rintro ⟨r, hr, hsame⟩
        exact ⟨r, (List.mem_filter.mp hr).1, hsame⟩
    refine ClientView.ext ?_ ?_ hown ?_ ?_ ?_ ?_
    · rw [Ledger.view, Ledger.view, h.clients, h'.clients]
      exact Ledger.view_clients_congr hview
    · change db'.credentials.rows.filter (fun c => c.clientId = A) = p'.credentials.rows.filter _
      rw [h.credentials, h'.credentials]
      refine (filter_filter_comm _ _ _).trans (Eq.trans ?_ (filter_filter_comm _ _ _))
      rw [← Ledger.view_credentials_congr hview]
      refine List.filter_congr fun c hc => ?_
      obtain ⟨hmem, howner⟩ := List.mem_filter.mp hc
      have howner := of_decide_eq_true howner
      rw [decide_eq_decide, hissued (fun r hr => hr) c hmem howner,
        hissued hproofs c hmem howner, hown]
    · change db'.verifications.rows.filter (fun v => v.clientId = A) =
        p'.verifications.rows.filter _
      rw [h.verifications, h'.verifications, filter_filter_comm,
        Ledger.view_verifications_congr hview, filter_filter_comm]
    · change db'.auditEvents.rows.filter (fun e => e.clientId.all fun c => c = A) =
        p'.auditEvents.rows.filter _
      rw [h.auditEvents, h'.auditEvents, filter_filter_comm, Ledger.view_auditEvents_congr hview,
        filter_filter_comm]
    · change db'.rateEvents.filter (fun e => e.clientId = A ∧ t - 60 < e.occurredAt) =
        p'.rateEvents.filter _
      rw [h.rateEvents, h'.rateEvents, filter_filter_comm, Ledger.view_rateEvents_congr hview,
        filter_filter_comm]
    · exact h.restoreRequired.trans ((Ledger.restoreRequired_congr hview).trans
        h'.restoreRequired.symm)

end Replay

/-! ### Repeating a commit -/

section Repeat

variable {event : Bytes} {late : ℤ → Prop}

/-- A registration that no recorded check contradicts. -/
theorem run_registerHashKey_of_registrable {kid check : Str} (hkid : kid.encodable = true)
    (hcheck : check.encodable = true) (h : p.Registrable kid check) :
    ∃ u, Tx.run (registerHashKey kid check) p = .ok ((), { p with hashKeys := u }) := by
  unfold registerHashKey
  cases hrow : p.hashKeys.get? kid with
  | none =>
    obtain ⟨u, hu⟩ := Table.insert?_of_fresh (r := (⟨kid, check⟩ : HashKeyRow)) hrow
    refine ⟨u, Tx.run_bind_ok.mpr ⟨none, p, run_select_ok.mpr ⟨?_, hrow.symm, rfl⟩,
      run_insert_ok.mpr ⟨?_, inserted_ok.mpr ⟨u, hu, rfl⟩⟩⟩⟩
    · simpa using hkid
    · simpa [hcheck] using hkid
  | some row =>
    refine ⟨p.hashKeys, Tx.run_bind_ok.mpr ⟨some row, p,
      run_select_ok.mpr ⟨?_, hrow.symm, rfl⟩, ?_⟩⟩
    · simpa using hkid
    · dsimp only
      rw [if_neg (not_not.mpr (h row hrow))]
      rfl

/-- An audit event under a free id. -/
theorem run_insertAudit_of_fresh (now : ℤ) (kind : AuditKind) (outcome : AuditOutcome)
    (clientId credentialId proofTag : Option Str) (reason : Option RejectionReason)
    (hbound : (clientId.toList ++ credentialId.toList ++ proofTag.toList).all Str.encodable = true)
    (h : p.FreshEvent event) : ∃ u, Tx.run (insertAudit event now kind outcome clientId credentialId
      proofTag reason) p = .ok ((), { p with auditEvents := u }) := by
  obtain ⟨u, hu⟩ := Table.insert?_of_fresh
    (r := auditRow event now kind outcome clientId credentialId proofTag reason) h
  exact ⟨u, run_insert_ok.mpr ⟨hbound, Ledger.insertAudit_ok.mpr ⟨u, hu, rfl⟩⟩⟩

/-- An activation of a sealed ledger succeeds under a free event id. -/
theorem Store.activateRestoredBackup_run (now : ℤ) (hsealed : p.restoreRequired = true)
    (h : p.FreshEvent event) :
    ∃ p', Tx.run (Store.activateRestoredBackup now event) p = .ok ((), p') := by
  simp only [Store.activateRestoredBackup]
  rw [Tx.run_bind_of_ok (run_select_ok.mpr ⟨rfl, hsealed.symm, rfl⟩), if_pos rfl, run_change_bind,
    run_change_bind, run_change_bind, run_change_bind]
  have hfresh : ({ p with
      clients := p.clients.update (fun _ => true)
        (fun c => { c with status := .revoked, revokedAt := some (c.revokedAt.getD now) })
        fun _ => rfl
      credentials := p.credentials.update (fun _ => true)
        (fun c => { c with status := .revoked, validUntil := some now,
                           revokedAt := some (c.revokedAt.getD now) }) fun _ => rfl
      proofs := p.proofs.update (fun r => r.consumedAt = none) (ProofRow.expireBy now) fun _ => rfl
      rateEvents := [] } : Ledger).FreshEvent event := h
  obtain ⟨u, hu⟩ := run_insertAudit_of_fresh now .restoreActivated .allPriorAuthorityRevoked none
    none none none rfl hfresh
  rw [Tx.run_bind_of_ok hu]
  exact ⟨_, run_change_ok.mpr ⟨rfl, rfl⟩⟩

/-- A current credential under a free id, of a client that has none in the role. -/
theorem run_insertCurrentCredential_of_fresh {c : CredentialRecord} (now : ℤ)
    (hbound : [c.credentialId, c.clientId, c.hashKid, c.secretDigest].all Str.encodable = true)
    (hfresh : p.credentials.get? c.credentialId = none)
    (hclient : (p.clients.get? c.clientId).isSome = true)
    (hcurrent : p.currentCredential c.clientId c.role = none) :
    ∃ u, Tx.run (insertCurrentCredential c now) p = .ok ((), { p with credentials := u }) ∧
      u.rows = p.credentials.rows ++ [c.toCurrentRow now] := by
  obtain ⟨u, hu⟩ := Table.insert?_of_fresh (r := c.toCurrentRow now) hfresh
  refine ⟨u, run_insert_ok.mpr ⟨hbound, Ledger.insertCredential_ok.mpr
    ⟨hclient, fun _ => hcurrent, u, hu, rfl⟩⟩, (Table.insert?_eq_some.mp hu).2⟩

/-- A client of a smaller ledger has no other credentials. -/
theorem currentCredential_none_of_subset {q q' : Ledger} {role : Role}
    (h : ∀ c ∈ q'.credentials, c ∈ q.credentials) (hnone : q.currentCredential B role = none) :
    q'.currentCredential B role = none := by
  rw [Ledger.currentCredential, List.find?_eq_none] at hnone ⊢
  exact fun c hc => hnone c (h c hc)

/-- The row of a new client, on every ledger. -/
theorem exists_clientRow {a : CreateClient} (h : insertClientRow a db = .ok db') :
    ∃ row, row.clientId = a.clientId ∧ ∀ q, insertClientRow a q = Ledger.insertClient row q := by
  unfold insertClientRow at h
  split_ifs at h with hlimits
  refine ⟨_, ?_, fun q => by rw [insertClientRow, dif_pos hlimits]⟩
  rfl

/-- A creation that succeeds on a ledger succeeds on a smaller one, with the same client. -/
theorem Store.createClient_repeat {a : CreateClient} (hwf : a.WellFormed)
    (hcheck : a.hashKeyCheck.encodable = true) (hwithin : p.Within db)
    (hseal : db.restoreRequired = p.restoreRequired)
    (hrun : Tx.run (Store.createClient a event) db = .ok ((), db')) :
    ∃ p' row, Tx.run (Store.createClient a event) p = .ok ((), p') ∧
      db'.clients.rows = db.clients.rows ++ [row] ∧ p'.clients.rows = p.clients.rows ++ [row] := by
  have heffect := Store.createClient_ok hrun
  simp only [Store.createClient] at hrun ⊢
  rw [if_neg (not_not.mpr heffect.sameKid)] at hrun ⊢
  -- what the statements did on the first ledger
  rw [Tx.run_bind_ok] at hrun
  obtain ⟨_, db₁, h₁, h⟩ := hrun
  obtain ⟨hop, rfl⟩ := run_requireOperational_ok.mp h₁
  rw [Tx.run_bind_ok] at h
  obtain ⟨_, db₂, h₂, h⟩ := h
  obtain ⟨hreg, hdb₂⟩ := run_registerHashKey_ok h₂
  rw [Tx.run_bind_ok] at h
  obtain ⟨_, db₃, h₃, h⟩ := h
  obtain ⟨hbound₃, h₃⟩ := run_insert_ok.mp h₃
  obtain ⟨row, hrow, hinsert⟩ := exists_clientRow h₃
  rw [hinsert] at h₃
  obtain ⟨clients, hclients, hdb₃⟩ := Ledger.insertClient_ok.mp h₃
  obtain ⟨hfresh₃, hrows₃⟩ := Table.insert?_eq_some.mp hclients
  rw [Tx.run_bind_ok] at h
  obtain ⟨_, db₄, h₄, h⟩ := h
  obtain ⟨hbound₄, -⟩ := run_insert_ok.mp h₄
  obtain ⟨hfresh₄, -, hcurrent₄, hrows₄, hdb₄⟩ := run_insertCurrentCredential_ok h₄
  rw [Tx.run_bind_ok] at h
  obtain ⟨_, db₅, h₅, h⟩ := h
  obtain ⟨hbound₅, -⟩ := run_insert_ok.mp h₅
  obtain ⟨hfresh₅, -, hcurrent₅, -, hdb₅⟩ := run_insertCurrentCredential_ok h₅
  obtain ⟨hbound₆, -⟩ := run_insert_ok.mp h
  obtain ⟨-, hdb₆⟩ := run_insertAudit_ok h
  have hcredentials₃ : db₃.credentials = db₁.credentials := by rw [hdb₃, hdb₂]
  have hclients₂ : db₂.clients = db₁.clients := by rw [hdb₂]
  have hrows : db'.clients.rows = db₁.clients.rows ++ [row] := by
    rw [hdb₆, hdb₅, hdb₄, hdb₃, ← hclients₂]
    exact hrows₃
  -- and what they do on the second one
  obtain ⟨u, hu⟩ := run_registerHashKey_of_registrable hreg.bound hcheck
    (hwithin.registrable hreg.registrable)
  have hnew : p.clients.get? row.clientId = none :=
    Table.get?_eq_none_of_subset hwithin.clients (Table.get?_eq_none.mpr (hclients₂ ▸ hfresh₃))
  obtain ⟨clients', hclients'⟩ := Table.insert?_of_fresh hnew
  have hclient : ∀ {id : Str}, id = a.clientId → (clients'.get? id).isSome = true := by
    rintro id rfl
    rw [Table.get?_of_insert? hclients', if_pos hrow]
    rfl
  let p₃ : Ledger := { p with hashKeys := u, clients := clients' }
  have hwithin₃ : ∀ c ∈ p₃.credentials, c ∈ db₃.credentials := hcredentials₃ ▸ hwithin.credentials
  obtain ⟨c₄, hc₄, hc₄Rows⟩ := run_insertCurrentCredential_of_fresh (p := p₃) a.now hbound₄
    (Table.get?_eq_none_of_subset hwithin₃ (Table.get?_eq_none.mpr hfresh₄))
    (hclient hwf.issuance.1) (currentCredential_none_of_subset hwithin₃ hcurrent₄)
  let p₄ : Ledger := { p₃ with credentials := c₄ }
  have hwithin₄ : ∀ c ∈ p₄.credentials, c ∈ db₄.credentials :=
    Table.subset_append hwithin₃ hc₄Rows hrows₄
  obtain ⟨c₅, hc₅, -⟩ := run_insertCurrentCredential_of_fresh (p := p₄) a.now hbound₅
    (Table.get?_eq_none_of_subset hwithin₄ (Table.get?_eq_none.mpr hfresh₅))
    (hclient hwf.verification.1) (currentCredential_none_of_subset hwithin₄ hcurrent₅)
  let p₅ : Ledger := { p₄ with credentials := c₅ }
  have hevent : p₅.FreshEvent event := hwithin.freshEvent (freshEvent_of_append heffect.auditEvents)
  obtain ⟨e, he⟩ := run_insertAudit_of_fresh a.now .clientCreated .created _ _ _ none hbound₆ hevent
  refine ⟨{ p₅ with auditEvents := e }, row, ?_, hrows, (Table.insert?_eq_some.mp hclients').2⟩
  have hinserted :
      Tx.run (insert [a.clientId, a.name] (insertClientRow a)) { p with hashKeys := u } =
      .ok ((), p₃) := by
    refine run_insert_ok.mpr ⟨hbound₃, (hinsert _).trans ?_⟩
    exact Ledger.insertClient_ok.mpr ⟨clients', hclients', rfl⟩
  have hoperational : Tx.run requireOperational p = .ok ((), p) :=
    run_requireOperational_ok.mpr ⟨hseal ▸ hop, rfl⟩
  rw [Tx.run_bind_of_ok hoperational, Tx.run_bind_of_ok hu, Tx.run_bind_of_ok hinserted,
    Tx.run_bind_of_ok hc₄, Tx.run_bind_of_ok hc₅]
  exact he

/-- **A creation** on both ledgers. -/
theorem CreateEffect.replay {a : CreateClient} {row : ClientRow} (h : CreateEffect a event db db')
    (h' : CreateEffect a event p p') (hrow : db'.clients.rows = db.clients.rows ++ [row])
    (hrow' : p'.clients.rows = p.clients.rows ++ [row]) (hwithin : p.Within db) :
    p'.Within db' ∧ ∀ t, db.view A t = p.view A t → db'.view A t = p'.view A t := by
  refine ⟨⟨Table.subset_append hwithin.clients hrow' hrow,
    Table.subset_append hwithin.credentials h'.credentials h.credentials, ?_, ?_,
    Table.subset_append hwithin.auditEvents h'.auditEvents h.auditEvents,
    hwithin.registers h'.hashKeys h.hashKeys⟩, fun t hview => ?_⟩
  · rw [h.proofs, h'.proofs]
    exact hwithin.proofs
  · rw [h.verifications, h'.verifications]
    exact hwithin.verifications
  · refine ClientView.ext (filter_append_congr hrow hrow' (Ledger.view_clients_congr hview))
      (filter_append_congr h.credentials h'.credentials (Ledger.view_credentials_congr hview)) ?_ ?_
      (filter_append_congr h.auditEvents h'.auditEvents (Ledger.view_auditEvents_congr hview)) ?_
      (view_seal_congr hview h.maintenance h'.maintenance)
    · rw [Ledger.view, Ledger.view, h.proofs, h'.proofs]
      exact Ledger.view_proofs_congr hview
    · rw [Ledger.view, Ledger.view, h.verifications, h'.verifications]
      exact Ledger.view_verifications_congr hview
    · rw [Ledger.view, Ledger.view, h.rateEvents, h'.rateEvents]
      exact Ledger.view_rateEvents_congr hview

end Repeat

/-- The check of a hash key that a call registers can be stored. -/
def StoreCall.Checked : StoreCall → Prop
  | .createClient a => a.hashKeyCheck.encodable = true
  | .issueProof _ check => check.encodable = true
  | .rotateCredential a => a.hashKeyCheck.encodable = true
  | _ => True

/-- The same commit, up to the counts of a cleanup. -/
inductive Commit.Alike : Commit → Commit → Prop
  | same (l : Commit) : Alike l l
  | cleanup (now : ℤ) (x : Chance) (counts counts' : CleanupCounts) :
      Alike ⟨.cleanup now, x, counts⟩ ⟨.cleanup now, x, counts'⟩

section Repeat

variable {late : ℤ → Prop}

/-- A step is an outcome. -/
theorem LedgerStep.outcome (hs : LedgerStep db l db') :
    (l.call.tx l.chance).outcome db = .ok l.reply := Tx.outcome_eq_ok.mpr ⟨db', hs⟩

/-- An outcome is a step. -/
theorem exists_step_of_outcome (h : (l.call.tx l.chance).outcome p = .ok l.reply) :
    ∃ p', LedgerStep p l p' := Tx.outcome_eq_ok.mp h

/-- Decisions on both ledgers. -/
theorem ConsumeEffect.replay {a : ConsumeProof} {draws : Draws} {result : VerificationResult}
    (h : ConsumeEffect a now draws db result db') (h' : ConsumeEffect a now draws p result p')
    (howner : a.clientId = A) (hshared : db.view A t = p.view A t) (hwithin : p.Within db) :
    p'.Within db' ∧ ∀ t, db.view A t = p.view A t → db'.view A t = p'.view A t := by
  subst howner
  -- so an attempt is decided in both ledgers or in neither
  have haccepted := Ledger.accepted_congr hshared .verification a.credentialId now
  cases h with
  | refused _ hrefused =>
    cases h' with
    | refused => exact ⟨hwithin, fun t hview => hview⟩
    | replayed => exact ⟨hwithin, fun t hview => hview⟩
    | decided effect' =>
      obtain ⟨credential, client, hacc, -⟩ := effect'.authorized
      exact absurd (haccepted.mpr ⟨credential, client, hacc⟩) hrefused
  | replayed _ _ key row _ keyed stored =>
    cases h' with
    | refused => exact ⟨hwithin, fun t hview => hview⟩
    | replayed => exact ⟨hwithin, fun t hview => hview⟩
    | decided effect' =>
      have hnone := effect'.freshKey key keyed
      rw [← Ledger.idempotent_congr hshared, stored] at hnone
      cases hnone
  | decided effect =>
    cases h' with
    | refused _ hrefused =>
      obtain ⟨credential, client, hacc, -⟩ := effect.authorized
      exact absurd (haccepted.mp ⟨credential, client, hacc⟩) hrefused
    | replayed _ _ key row _ keyed stored =>
      have hnone := effect.freshKey key keyed
      rw [Ledger.idempotent_congr hshared, stored] at hnone
      cases hnone
    | decided effect' => exact effect.replay effect' hwithin

/-- **Commits that concern a client** can be repeated on a ledger that looks the same to it. -/
theorem LedgerStep.replay (hs : LedgerStep db l db') (hwf : l.call.WellFormed)
    (hchecked : l.call.Checked) (hvisible : l.call.Concerns A) (hrooted : db.Rooted)
    (h : db.Shares A late p) (hclock : ∀ x ∈ l.lockReading?, late x) {T : ℤ} (hT : late T) :
    ∃ l' p', LedgerStep p l' p' ∧ l.Alike l' ∧ db'.Shares A late p' := by
  have hview := h.view T hT
  have hshares : ∀ {p' : Ledger}, (p'.Within db' ∧ ∀ t, db.view A t = p.view A t →
      db'.view A t = p'.view A t) → db'.Shares A late p' :=
    fun hp' => ⟨fun t ht => hp'.2 t (h.view t ht), hp'.1⟩
  cases hs.effect with
  | @create a x _ effect =>
    obtain ⟨p', row, hrun, hrow, hrow'⟩ := Store.createClient_repeat hwf hchecked h.within
      (Ledger.restoreRequired_congr hview) hs
    refine ⟨⟨.createClient a, x, ()⟩, p', hrun, .same _, ?_⟩
    exact hshares (effect.replay (Store.createClient_ok hrun) hrow hrow' h.within)
  | @issue record check x committed _ effect =>
    have howner : record.clientId = A := hvisible _ rfl
    have hkey := effect.hashKeys.registrable
    have hevent := freshEvent_of_append effect.auditEvents
    have hproof : db.FreshProof record := ⟨effect.freshDigest, effect.freshTag⟩
    have hproof' : p.FreshProof record :=
      ⟨fun r hr => effect.freshDigest r (h.within.proofs r hr),
        fun r hr => effect.freshTag r (h.within.proofs r hr)⟩
    have houtcome := hs.outcome
    -- the answer depends on the view of the client and on what is fresh
    have hsame := Ledger.issueOutcome_congr (h.view _ (hclock _ rfl)) le_rfl howner hchecked hkey
      (h.within.registrable hkey) hproof hproof' hevent (h.within.freshEvent hevent)
    change (Store.issueProof record check x.now x.draws.event).outcome db = _ at houtcome
    rw [Store.issueProof_outcome, hsame, ← Store.issueProof_outcome] at houtcome
    obtain ⟨p', hs'⟩ := exists_step_of_outcome (l := ⟨.issueProof record check, x, committed⟩)
      houtcome
    exact ⟨_, p', hs', .same _, hshares (effect.replay (Store.issueProof_ok hs') h.within)⟩
  | @consume a x result _ effect =>
    have howner : a.clientId = A := hvisible _ rfl
    have houtcome := hs.outcome
    change (Store.consumeProof a x.now x.draws).outcome db = _ at houtcome
    rw [Store.consumeProof_outcome] at houtcome
    -- what is fresh in the larger ledger is fresh in the smaller one
    have hsame := Ledger.consumeOutcome_mono (h.view _ (hclock _ rfl)) le_rfl howner
      (Table.get?_eq_none_of_subset h.within.verifications) h.within.freshEvent houtcome
    rw [← Store.consumeProof_outcome] at hsame
    obtain ⟨p', hs'⟩ := exists_step_of_outcome (l := ⟨.consumeProof a, x, result⟩) hsame
    exact ⟨_, p', hs', .same _, hshares
      (effect.replay (Store.consumeProof_ok hs') howner hview h.within)⟩
  | @rotate a x reply _ effect =>
    have howner : a.clientId = A := hvisible _ rfl
    have hkey := effect.hashKeys.registrable
    have hevent := freshEvent_of_append effect.auditEvents
    have hid := Table.get?_eq_none.mpr effect.freshId
    have houtcome := hs.outcome
    have hsame := Ledger.rotateOutcome_congr hview howner (hwf.clientId.trans howner) hchecked hkey
      (h.within.registrable hkey) hid (Table.get?_eq_none_of_subset h.within.credentials hid) hevent
      (h.within.freshEvent hevent)
    change (Store.rotateCredential a x.draws.event).outcome db = _ at houtcome
    rw [Store.rotateCredential_outcome, hsame, ← Store.rotateCredential_outcome] at houtcome
    obtain ⟨p', hs'⟩ := exists_step_of_outcome (l := ⟨.rotateCredential a, x, reply⟩) houtcome
    exact ⟨_, p', hs', .same _, hshares (effect.replay (Store.rotateCredential_ok hs') h.within)⟩
  | @revoke clientId now' x reply _ effect =>
    obtain rfl : clientId = A := hvisible _ rfl
    have houtcome := hs.outcome
    change (Store.revokeClient clientId now' x.draws.event).outcome db = _ at houtcome
    rw [Store.revokeClient_outcome] at houtcome
    have hsame := Ledger.revokeOutcome_mono hview h.within.freshEvent houtcome
    rw [← Store.revokeClient_outcome p clientId now'] at hsame
    obtain ⟨p', hs'⟩ := exists_step_of_outcome (l := ⟨.revokeClient clientId now', x, reply⟩) hsame
    exact ⟨_, p', hs', .same _, hshares (effect.replay (Store.revokeClient_ok hs') h.within)⟩
  | @cleanup now' x counts _ effect =>
    obtain ⟨counts', hrun⟩ := Store.cleanup_run (Store.cleanupTime_of_run hs) p
    refine ⟨⟨.cleanup now', x, counts'⟩, p.cleaned now', hrun, .cleanup now' x counts counts', ?_⟩
    exact hshares (effect.replay (p.cleaned_effect now') h.within hrooted)
  | @activate now' x _ effect =>
    have hsealed := (Ledger.restoreRequired_congr hview).symm.trans effect.sealed
    obtain ⟨p', hrun⟩ := Store.activateRestoredBackup_run now' hsealed
      (h.within.freshEvent (freshEvent_of_append effect.auditEvents))
    refine ⟨⟨.activateRestoredBackup now', x, ()⟩, p', hrun, .same _, ?_⟩
    exact hshares (effect.replay (Store.activateRestoredBackup_ok hrun) h.within)

end Repeat

/-! ### Ledgers of one client -/

/-- A ledger without rows of other clients. -/
structure Ledger.Owned (p : Ledger) (A : Str) : Prop where
  clients : ∀ c ∈ p.clients, c.clientId = A
  credentials : ∀ c ∈ p.credentials, c.clientId = A
  proofs : ∀ r ∈ p.proofs, r.clientId = A
  verifications : ∀ v ∈ p.verifications, v.clientId = A
  auditEvents : ∀ e ∈ p.auditEvents, (e.clientId.all fun c => c = A) = true

theorem Ledger.owned_empty (A : Str) : Ledger.empty.Owned A :=
  ⟨fun _ h => absurd h Table.not_mem_empty, fun _ h => absurd h Table.not_mem_empty,
    fun _ h => absurd h Table.not_mem_empty, fun _ h => absurd h Table.not_mem_empty,
    fun _ h => absurd h Table.not_mem_empty⟩

/-- The rows that a ledger of one client shares with another ledger are all of its rows. -/
theorem Ledger.Owned.within (h : p.Owned A) (hview : db.view A t = p.view A t)
    (hkeys : ∀ r ∈ p.hashKeys, r ∈ db.hashKeys) : p.Within db := by
  have hall : ∀ {ρ : Type} {rows rows' : List ρ} {own : ρ → Bool},
      rows'.filter own = rows.filter own → (∀ r ∈ rows, own r = true) → ∀ r ∈ rows, r ∈ rows' := by
    intro ρ rows rows' own hsame hown r hr
    have hmem := List.mem_filter.mpr ⟨hr, hown r hr⟩
    rw [← hsame] at hmem
    exact (List.mem_filter.mp hmem).1
  exact ⟨hall (Ledger.view_clients_congr hview) fun c hc => decide_eq_true (h.clients c hc),
    hall (Ledger.view_credentials_congr hview) fun c hc => decide_eq_true (h.credentials c hc),
    hall (Ledger.view_proofs_congr hview) fun r hr => decide_eq_true (h.proofs r hr),
    hall (Ledger.view_verifications_congr hview) fun v hv => decide_eq_true (h.verifications v hv),
    hall (Ledger.view_auditEvents_congr hview) h.auditEvents, hkeys⟩

/-- **Step lemma**: commits that concern a client leave it alone on the ledger. -/
theorem Ledger.Owned.step (h : db.Owned A) (hs : LedgerStep db l db') (hwf : l.call.WellFormed)
    (hvisible : l.call.Concerns A) : db'.Owned A := by
  have hone : ∀ {ρ : Type} {own : ρ → Prop} {r : ρ}, own r → ∀ r' ∈ [r], own r' :=
    fun hr r' hr' => List.mem_singleton.mp hr' ▸ hr
  have haudit : ∀ {event : Bytes} {now : ℤ} {kind : AuditKind} {outcome : AuditOutcome}
      {credentialId proofTag : Option Str} {reason : Option RejectionReason} {B : Str}, B = A →
      ((auditRow event now kind outcome (some B) credentialId proofTag reason).clientId.all
        fun c => c = A) = true := fun hB => decide_eq_true hB
  cases hs.effect with
  | @create a x _ effect =>
    have howner : a.clientId = A := hvisible _ rfl
    obtain ⟨row, hrow, -, -, hclients⟩ := effect.clients
    refine ⟨Table.forall_append h.clients hclients (hone (hrow.trans howner)),
      Table.forall_append h.credentials effect.credentials fun c hc => ?_, effect.proofs ▸ h.proofs,
      effect.verifications ▸ h.verifications,
      Table.forall_append h.auditEvents effect.auditEvents (hone (haudit howner))⟩
    rcases List.mem_cons.mp hc with rfl | hc
    · exact hwf.issuance.1.trans howner
    · rw [List.mem_singleton.mp hc]
      exact hwf.verification.1.trans howner
  | @issue record check x committed _ effect =>
    have howner : record.clientId = A := hvisible _ rfl
    refine ⟨effect.clients ▸ h.clients, effect.credentials ▸ h.credentials,
      Table.forall_append h.proofs effect.proofs (hone ?_), effect.verifications ▸ h.verifications,
      Table.forall_append h.auditEvents effect.auditEvents (hone (haudit howner))⟩
    rw [effect.committed_eq]
    exact howner
  | @consume a x result _ effect =>
    have howner : a.clientId = A := hvisible _ rfl
    cases effect with
    | refused => exact h
    | replayed => exact h
    | decided effect =>
      refine ⟨effect.clients ▸ h.clients, effect.credentials ▸ h.credentials, ?_,
        Table.forall_append h.verifications effect.verifications (hone howner),
        Table.forall_append h.auditEvents effect.auditEvents (hone (haudit howner))⟩
      rw [effect.proofs]
      split_ifs
      · refine Table.forall_map h.proofs (db.rows_consume _ _ _) fun r hr => ?_
        split_ifs <;> exact hr
      · exact h.proofs
  | @rotate a x reply _ effect =>
    have howner : a.clientId = A := hvisible _ rfl
    refine ⟨effect.clients ▸ h.clients, Table.forall_map_append h.credentials effect.credentials
      (fun c hc => ?_) (hone (hwf.clientId.trans howner)), effect.proofs ▸ h.proofs,
      effect.verifications ▸ h.verifications,
      Table.forall_append h.auditEvents effect.auditEvents (hone (haudit howner))⟩
    unfold CredentialRow.demote
    split_ifs <;> exact hc
  | @revoke clientId now' x reply _ effect =>
    have howner : clientId = A := hvisible _ rfl
    cases effect with
    | already => exact h
    | revoked _ _ _ hclients hcredentials hproofs haudits hkeys hrate hverifications =>
      refine ⟨Table.forall_map h.clients hclients fun c hc => ?_,
        Table.forall_map h.credentials hcredentials fun c hc => ?_,
        Table.forall_map h.proofs hproofs fun r hr => ?_, hverifications ▸ h.verifications,
        Table.forall_append h.auditEvents haudits (hone (haudit howner))⟩
      · split_ifs <;> exact hc
      · split_ifs <;> exact hc
      · split_ifs <;> exact hr
  -- rows are only removed
  | cleanup effect =>
    exact ⟨effect.clients ▸ h.clients, Table.forall_filter h.credentials effect.credentials,
      Table.forall_filter h.proofs effect.proofs,
      Table.forall_filter h.verifications effect.verifications,
      Table.forall_filter h.auditEvents effect.auditEvents⟩
  | activate effect =>
    refine ⟨Table.forall_map h.clients effect.clients fun _ hc => hc,
      Table.forall_map h.credentials effect.credentials fun _ hc => hc,
      Table.forall_map h.proofs effect.proofs fun r hr => ?_,
      effect.verifications ▸ h.verifications,
      Table.forall_append h.auditEvents effect.auditEvents (hone rfl)⟩
    split_ifs <;> exact hr

/-- A commit keeps the keys that were registered. -/
theorem LedgerStep.hashKeys_subset (hs : LedgerStep db l db') :
    ∀ r ∈ db.hashKeys, r ∈ db'.hashKeys := by
  cases hs.effect with
  | create effect => exact effect.hashKeys.keeps
  | issue effect => exact effect.hashKeys.keeps
  | consume effect =>
    cases effect with
    | refused => exact fun _ hr => hr
    | replayed => exact fun _ hr => hr
    | decided effect => exact effect.hashKeys ▸ fun _ hr => hr
  | rotate effect => exact effect.hashKeys.keeps
  | revoke effect =>
    cases effect with
    | already => exact fun _ hr => hr
    | revoked _ _ _ _ _ _ _ hkeys => exact hkeys ▸ fun _ hr => hr
  | cleanup effect => exact effect.hashKeys ▸ fun _ hr => hr
  | activate effect => exact effect.hashKeys ▸ fun _ hr => hr

end Onceproof

import Onceproof.Ledger.Provenance

/-!
# Decisions and their records

A fresh decision (`DecidesAs`) is stored with its result, and every stored row is the record
of a decision of the run. `stored_decision` reads a row back: the result that a stored row
yields is the one that was decided.
-/

namespace Onceproof

/-! ### Decided results -/

/-- Every decision names its draw, its client and its reading. -/
theorem ConsumeProof.decision_witness (a : ConsumeProof) (record : Option ProofRecord)
    (verificationId : Str) (now : ℤ)
    (hrecord : ∀ r, record = some r → r.clientId = a.clientId) :
    (a.decision record verificationId now).witness.verificationId = verificationId ∧
      (a.decision record verificationId now).witness.clientId = some a.clientId ∧
      (a.decision record verificationId now).witness.decidedAt = now := by
  unfold ConsumeProof.decision
  cases record with
  | none => exact ⟨rfl, rfl, rfl⟩
  | some r =>
    dsimp only
    split_ifs
    · exact ⟨rfl, rfl, rfl⟩
    · exact ⟨rfl, rfl, rfl⟩
    · exact ⟨rfl, rfl, rfl⟩
    · exact ⟨rfl, congrArg some (hrecord r rfl), rfl⟩

/-- **Acceptance**: a verified result is the acceptance of a live proof with the bindings of
the request. -/
theorem ConsumeProof.decision_verified {a : ConsumeProof} {record : Option ProofRecord}
    {verificationId : Str} {now : ℤ}
    (h : (a.decision record verificationId now).verified = true) :
    ∃ r, record = some r ∧ r.consumedAt = none ∧ now < r.expiresAt ∧ r.purpose = a.purpose ∧
      r.audience = a.audience ∧ r.subject = a.subject ∧
      a.decision record verificationId now = acceptedResult r verificationId now := by
  unfold ConsumeProof.decision at h ⊢
  cases record with
  | none => cases h
  | some r =>
    dsimp only at h ⊢
    split_ifs at h ⊢ with hconsumed hexpired hbinding
    · cases h
    · cases h
    · cases h
    · simp only [not_or, not_not] at hbinding
      exact ⟨r, rfl, not_not.mp hconsumed, not_le.mp hexpired, hbinding.1, hbinding.2.1,
        hbinding.2.2, rfl⟩

/-- A decision is not made about a credential. -/
theorem ConsumeProof.decision_reason (a : ConsumeProof) (record : Option ProofRecord)
    (verificationId : Str) (now : ℤ) :
    (a.decision record verificationId now).reason ≠ some .credentialRejected := by
  unfold ConsumeProof.decision
  cases record with
  | none => simp [rejectedResult]
  | some r =>
    dsimp only
    split_ifs <;> simp [rejectedResult, acceptedResult]

/-- The claims of a decision that verifies nothing. -/
theorem ConsumeProof.decision_claims {a : ConsumeProof} {record : Option ProofRecord}
    {verificationId : Str} {now : ℤ} {c : ProofClaims}
    (h : (a.decision record verificationId now).claims = some c) :
    (a.decision record verificationId now).verified = true := by
  unfold ConsumeProof.decision at h ⊢
  cases record with
  | none => cases h
  | some r =>
    dsimp only at h ⊢
    split_ifs at h ⊢
    · cases h
    · cases h
    · cases h
    · rfl

/-- The proof row that a decision accepted. -/
theorem DecideEffect.accepted {a : ConsumeProof} {now : ℤ} {draws : Draws} {db db' : Ledger}
    {result : VerificationResult} (h : DecideEffect a now draws db result db')
    (hv : result.verified = true) :
    ∃ r, db.proofs.get? a.tokenDigest = some r ∧ r.clientId = a.clientId ∧
      r.consumedAt = none ∧ now < r.expiresAt ∧ r.purpose = a.purpose ∧
      r.audience = a.audience ∧ r.subject = a.subject ∧
      result = acceptedResult (proofFromRow r) draws.verificationId now := by
  have heq := h.result_eq
  rw [heq] at hv
  obtain ⟨record, hrecord, hconsumed, hexpires, hp, ha, hs, hresult⟩ :=
    ConsumeProof.decision_verified hv
  obtain ⟨r, hr, rfl⟩ := Option.map_eq_some_iff.mp hrecord
  obtain ⟨hmem, hdigest, hclient⟩ := Ledger.proofOf_eq_some.mp hr
  exact ⟨r, Table.get?_eq_some.mpr ⟨hmem, hdigest⟩, hclient, hconsumed, hexpires, hp, ha, hs,
    heq.trans hresult⟩

theorem DecideEffect.witness {a : ConsumeProof} {now : ℤ} {draws : Draws} {db db' : Ledger}
    {result : VerificationResult} (h : DecideEffect a now draws db result db') :
    result.witness.verificationId = draws.verificationId ∧
      result.witness.clientId = some a.clientId ∧ result.witness.decidedAt = now := by
  rw [h.result_eq]
  refine ConsumeProof.decision_witness _ _ _ _ fun r hr => ?_
  obtain ⟨row, hrow, rfl⟩ := Option.map_eq_some_iff.mp hr
  exact (Ledger.proofOf_eq_some.mp hrow).2.2

/-! ### Encodable rows -/

/-- A proof row whose texts the ledger can hold. -/
structure ProofRow.Encodable (r : ProofRow) : Prop where
  proofTag : r.proofTag.encodable = true
  clientId : r.clientId.encodable = true
  subject : r.subject.encodable = true
  purpose : r.purpose.encodable = true
  audience : r.audience.encodable = true

theorem LedgerStep.proofs_encodable {db db' : Ledger} {l : Commit} (h : LedgerStep db l db')
    (hdb : ∀ r ∈ db.proofs, r.Encodable) : ∀ r ∈ db'.proofs, r.Encodable := by
  intro r hr
  obtain ⟨D, hD⟩ : ∃ D, db'.proofs.get? D = some r :=
    ⟨_, Table.get?_eq_some.mpr ⟨hr, rfl⟩⟩
  have hold : ∀ {r₀ : ProofRow}, db.proofs.get? D = some r₀ → r₀.Encodable :=
    fun h₀ => hdb _ (Table.get?_eq_some.mp h₀).1
  have hstep := h.proof D
  rw [hD] at hstep
  generalize hg : db.proofs.get? D = o at hstep
  cases hstep with
  | same => exact hold hg
  | @issued record check x committed _ _ effect =>
    have henc := effect.encodable
    simp only [List.all_cons, List.all_nil, Bool.and_true, Bool.and_eq_true] at henc
    rw [effect.committed_eq]
    exact ⟨henc.2.1, henc.2.2.2.1, henc.2.2.2.2.2.1, henc.2.2.2.2.2.2.1, henc.2.2.2.2.2.2.2⟩
  | consumed =>
    obtain ⟨h₁, h₂, h₃, h₄, h₅⟩ := hold hg
    exact ⟨h₁, h₂, h₃, h₄, h₅⟩
  | shortened =>
    obtain ⟨h₁, h₂, h₃, h₄, h₅⟩ := hold hg
    exact ⟨h₁, h₂, h₃, h₄, h₅⟩

theorem run_proofs_encodable {db db' : Ledger} {cs : List (Trans Ledger Commit)}
    (h : Run LedgerStep db cs db') (hdb : ∀ r ∈ db.proofs, r.Encodable) :
    ∀ r ∈ db'.proofs, r.Encodable :=
  h.invariant (I := fun db => ∀ r ∈ db.proofs, r.Encodable)
    (fun hI hs => hs.proofs_encodable hI) hdb

theorem rejectedResult_encodable {reason : RejectionReason} {verificationId : Str}
    {proofTag clientId : Option Str} {now : ℤ} (hid : verificationId.encodable = true)
    (htag : ∀ t, proofTag = some t → t.encodable = true)
    (hclient : ∀ t, clientId = some t → t.encodable = true) :
    (rejectedResult reason verificationId proofTag clientId now).Encodable where
  verificationId := hid
  proofTag := htag
  clientId := hclient
  claims _ hc := by cases hc

theorem acceptedResult_encodable {r : ProofRow} {verificationId : Str} {now : ℤ}
    (hid : verificationId.encodable = true) (hr : r.Encodable) :
    (acceptedResult (proofFromRow r) verificationId now).Encodable where
  verificationId := hid
  proofTag _ ht := Option.some.inj ht ▸ hr.proofTag
  clientId _ ht := Option.some.inj ht ▸ hr.clientId
  claims _ hc := Option.some.inj hc ▸ ⟨hr.clientId, hr.subject, hr.purpose, hr.audience⟩

theorem DecideEffect.encodable_result {a : ConsumeProof} {now : ℤ} {draws : Draws}
    {db db' : Ledger} {result : VerificationResult}
    (h : DecideEffect a now draws db result db') (hdb : ∀ r ∈ db.proofs, r.Encodable) :
    result.Encodable := by
  have hclient : ∀ t, some a.clientId = some t → t.encodable = true := by
    have henc := h.encodable
    simp only [List.cons_append, List.all_cons, Bool.and_eq_true] at henc
    exact fun t ht => Option.some.inj ht ▸ henc.1
  have hid : draws.verificationId.encodable = true := by
    rw [Draws.verificationId, encodable_append]
    exact Bool.and_eq_true_iff.mpr ⟨by decide, encodable_hexlify _⟩
  rw [h.result_eq]
  unfold ConsumeProof.decision
  cases hr : db.proofOf a.clientId a.tokenDigest with
  | none => exact rejectedResult_encodable hid (fun t ht => by cases ht) hclient
  | some r =>
    have henc := hdb r (Ledger.proofOf_eq_some.mp hr).1
    have htag : ∀ t, some (proofFromRow r).proofTag = some t → t.encodable = true :=
      fun t ht => Option.some.inj ht ▸ henc.proofTag
    dsimp only [Option.map_some]
    split_ifs
    · exact rejectedResult_encodable hid htag hclient
    · exact rejectedResult_encodable hid htag hclient
    · exact rejectedResult_encodable hid htag hclient
    · exact acceptedResult_encodable hid henc

/-! ### Stored rows -/

theorem resultFromJson_eq_ok {v : Json} {r : VerificationResult} :
    resultFromJson (.ok v) = .ok r ↔ VerificationResult.fromDict v = .ok r := by
  change (VerificationResult.fromDict v).mapError corruption = .ok r ↔ _
  cases VerificationResult.fromDict v <;> simp [Except.mapError]

/-- What is read back from a stored result is that result. -/
theorem eq_of_resultFromJson {r r' : VerificationResult} (h : r.Encodable)
    (hread : resultFromJson (.ok (resultJson r)) = .ok r') : r' = r := by
  rw [resultFromJson_eq_ok, resultJson, VerificationResult.persist_toDict h] at hread
  exact VerificationResult.fromDict_toDict_eq hread

/-- Every stored row is an old one or the record of a decision of the run. -/
theorem run_verifications {db₀ db : Ledger} {cs : List (Trans Ledger Commit)}
    (h : Run LedgerStep db₀ cs db) {v : VerificationRow} (hv : v ∈ db.verifications) :
    v ∈ db₀.verifications ∨ ∃ t ∈ cs, ∃ a x result, DecidesAs a x result t ∧
      v = a.verificationRow result x.now := by
  induction h with
  | nil => exact Or.inl hv
  | snoc hr hs ih =>
    rcases hs.verification_origin hv with hold | ⟨a, x, result, hdecides, hrow⟩
    · rcases ih hold with h₀ | ⟨t, ht, hrest⟩
      · exact Or.inl h₀
      · exact Or.inr ⟨t, List.mem_append_left _ ht, hrest⟩
    · exact Or.inr ⟨_, List.mem_append_right _ (List.mem_singleton_self _), a, x, result,
        hdecides, hrow⟩

/-- **Replay**: the result read from a stored row is the one that a decision of the run made,
with the row's client, key and fingerprint. -/
theorem stored_decision {db : Ledger} {cs : List (Trans Ledger Commit)}
    (h : Run LedgerStep .empty cs db) {v : VerificationRow} (hv : v ∈ db.verifications)
    {r : VerificationResult} (hread : resultFromJson (.ok v.resultJson) = .ok r) :
    ∃ t ∈ cs, ∃ a x, DecidesAs a x r t ∧ v = a.verificationRow r x.now := by
  rcases run_verifications h hv with hempty | ⟨t, ht, a, x, result, hdecides, rfl⟩
  · cases hempty
  · obtain ⟨cs₁, cs₂, rfl⟩ := List.append_of_mem ht
    have hrows := run_proofs_encodable h.of_cut.1 fun r hr => by cases hr
    have henc := hdecides.2.encodable_result hrows
    obtain rfl := eq_of_resultFromJson henc hread
    exact ⟨t, ht, a, x, hdecides, rfl⟩

/-- What the stored rows are read back as. -/
def Ledger.ReadsBack (db : Ledger) (Q : VerificationResult → Prop) : Prop :=
  ∀ v ∈ db.verifications, ∀ r, resultFromJson (.ok v.resultJson) = .ok r → Q r

/-- **Stored results**: what holds of every fresh decision is read back from every row. -/
theorem LedgerStep.readsBack {db db' : Ledger} {l : Commit} {Q : VerificationResult → Prop}
    (h : LedgerStep db l db') (hproofs : ∀ r ∈ db.proofs, r.Encodable) (hdb : db.ReadsBack Q)
    (hdecide : ∀ a x result, DecidesAs a x result ⟨db, l, db'⟩ → Q result) : db'.ReadsBack Q := by
  intro v hv r hread
  rcases h.verification_origin hv with hold | ⟨a, x, result, hdecides, rfl⟩
  · exact hdb v hold r hread
  · obtain rfl := eq_of_resultFromJson (hdecides.2.encodable_result hproofs) hread
    exact hdecide a x r hdecides

/-! ### Claims -/

/-- The claims of a decision are those of the deciding client. -/
theorem DecideEffect.claims {a : ConsumeProof} {now : ℤ} {draws : Draws} {db db' : Ledger}
    {result : VerificationResult} (h : DecideEffect a now draws db result db') {c : ProofClaims}
    (hc : result.claims = some c) : c.clientId = a.clientId := by
  have hv : result.verified = true := by
    rw [h.result_eq] at hc ⊢
    exact ConsumeProof.decision_claims hc
  obtain ⟨r, -, howner, -, -, -, -, -, hresult⟩ := h.accepted hv
  rw [hresult] at hc
  rw [← Option.some.inj hc]
  exact howner

theorem Ledger.idempotent_eq_some {db : Ledger} {clientId key : Str} {v : VerificationRow}
    (h : db.idempotent clientId key = some v) :
    v ∈ db.verifications ∧ v.clientId = clientId ∧ v.idempotencyKey = some key := by
  have hp := List.find?_some h
  simp only [decide_eq_true_eq] at hp
  exact ⟨List.mem_of_find?_eq_some h, hp⟩

/-- The claims read from a stored row are those of the row's client. -/
theorem stored_claims {db : Ledger} {cs : List (Trans Ledger Commit)}
    (h : Run LedgerStep .empty cs db) {clientId key : Str} {v : VerificationRow}
    (hv : db.idempotent clientId key = some v) {r : VerificationResult}
    (hread : resultFromJson (.ok v.resultJson) = .ok r) {c : ProofClaims} (hc : r.claims = some c) :
    c.clientId = clientId := by
  obtain ⟨hmem, howner, -⟩ := Ledger.idempotent_eq_some hv
  obtain ⟨t, -, a, x, hdecides, rfl⟩ := stored_decision h hmem hread
  exact (hdecides.2.claims hc).trans howner

/-- The claims of a verification are those of the verifying client. -/
theorem consume_claims {db db' : Ledger} {cs : List (Trans Ledger Commit)}
    (h : Run LedgerStep .empty cs db) {a : ConsumeProof} {x : Chance}
    {result : VerificationResult} (hs : LedgerStep db ⟨.consumeProof a, x, result⟩ db')
    {c : ProofClaims} (hc : result.claims = some c) : c.clientId = a.clientId := by
  cases hs.effect with
  | consume effect =>
    cases effect with
    | refused => cases hc
    | replayed _ _ key row _ _ stored _ read => exact stored_claims h stored read hc
    | decided effect => exact effect.claims hc

end Onceproof

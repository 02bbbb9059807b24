import Onceproof.Ledger.Decisions

/-!
# What a verification writes

A call of `consume_proof` changes at most the proof that it accepts, and of that one only the two
columns that mark it consumed. A rejection leaves the proofs alone, a stored decision leaves
everything alone, and so does every exception, wherever it struck: the transaction rolls back.
-/

namespace Onceproof

/-- The row of a proof that was consumed. -/
def ProofRow.consumedBy (r : ProofRow) (verificationId : Str) (now : ℤ) : ProofRow :=
  { r with consumedAt := some now, consumeVerificationId := some verificationId }

/-- No decision is stored under the idempotency key of a request. -/
def Ledger.Undecided (db : Ledger) (a : ConsumeProof) : Prop :=
  ∀ key, a.idempotencyKey = some key → db.idempotent a.clientId key = none

/-- What a `consume_proof` that ended as `x` made of the ledger `db`. -/
structure ConsumeFootprint (a : ConsumeProof) (now : ℤ) (draws : Draws) (db : Ledger)
    (x : Except Error VerificationResult) (db' : Ledger) : Prop where
  /-- A fresh acceptance marks one proof, which was not consumed, and no other row. -/
  accepted : ∀ result, x = .ok result → result.verified = true → db.Undecided a →
    ∃ r ∈ db.proofs, r.tokenDigest = a.tokenDigest ∧ r.consumedAt = none ∧
      db'.proofs.rows = db.proofs.rows.map fun r' =>
        if r' = r then r'.consumedBy draws.verificationId now else r'
  rejected : ∀ result, x = .ok result → result.verified = false → db'.proofs = db.proofs
  stored : ¬ db.Undecided a → db' = db
  raised : ∀ e, x = .error e → db' = db
  refused : ∀ result, x = .ok result → result.reason = some .credentialRejected → db' = db
  unauthorized : ¬ db.Accepted .verification a.credentialId a.clientId now → db' = db
  clients : db'.clients = db.clients
  credentials : db'.credentials = db.credentials
  hashKeys : db'.hashKeys = db.hashKeys
  maintenance : db'.maintenance = db.maintenance

variable {a : ConsumeProof} {now : ℤ} {draws : Draws} {db db' : Ledger}
variable {x : Except Error VerificationResult} {result : VerificationResult}

/-- A call that wrote nothing and made no decision of its own. -/
theorem ConsumeFootprint.unchanged
    (h : ∀ result, x = .ok result → result.verified = true → ¬ db.Undecided a) :
    ConsumeFootprint a now draws db x db where
  accepted result hx hverified hundecided := absurd hundecided (h result hx hverified)
  rejected _ _ _ := rfl
  stored _ := rfl
  raised _ _ := rfl
  refused _ _ _ := rfl
  unauthorized _ := rfl
  clients := rfl
  credentials := rfl
  hashKeys := rfl
  maintenance := rfl

/-- A fresh acceptance marks the row that it found, and no other. -/
theorem DecideEffect.consumes (h : DecideEffect a now draws db result db')
    (hverified : result.verified = true) :
    ∃ r ∈ db.proofs, r.tokenDigest = a.tokenDigest ∧ r.consumedAt = none ∧
      db'.proofs.rows = db.proofs.rows.map fun r' =>
        if r' = r then r'.consumedBy draws.verificationId now else r' := by
  obtain ⟨r, hr, -, hlive, hunexpired, -, -, -, -⟩ := h.accepted hverified
  obtain ⟨hmem, hdigest⟩ := Table.get?_eq_some.mp hr
  refine ⟨r, hmem, hdigest, hlive, ?_⟩
  rw [h.proofs, if_pos hverified, Ledger.consume, Table.rows_update]
  refine List.map_congr_left fun r' hr' => ?_
  -- the conditional update finds the row by its primary key
  have hcond : (r'.tokenDigest = a.tokenDigest ∧ r'.consumedAt = none ∧ now < r'.expiresAt) ↔
      r' = r := by
    constructor
    · rintro ⟨hdigest', -, -⟩
      exact Table.eq_of_key_eq hr' hmem (hdigest'.trans hdigest.symm)
    · rintro rfl
      exact ⟨hdigest, hlive, hunexpired⟩
  simp only [hcond, decide_eq_true_eq]
  rfl

theorem DecideEffect.footprint (h : DecideEffect a now draws db result db') :
    ConsumeFootprint a now draws db (.ok result) db' where
  accepted result' hx hverified _ := by
    obtain rfl := Except.ok.inj hx
    exact h.consumes hverified
  rejected result' hx hverified := by
    obtain rfl := Except.ok.inj hx
    rw [h.proofs, if_neg (by simp [hverified])]
  stored hstored := absurd h.freshKey hstored
  raised e hx := by cases hx
  refused result' hx hreason := by
    obtain rfl := Except.ok.inj hx
    rw [h.result_eq] at hreason
    exact absurd hreason (ConsumeProof.decision_reason _ _ _ _)
  unauthorized hrefused := by
    obtain ⟨credential, client, haccepts, -⟩ := h.authorized
    exact absurd ⟨credential, client, haccepts⟩ hrefused
  clients := h.clients
  credentials := h.credentials
  hashKeys := h.hashKeys
  maintenance := h.maintenance

/-- **A verification touches at most the one proof it accepts**, for every request, every ledger
and every fault at any statement up to the commit. -/
theorem verification_footprint (fault : Error) (cut : Option ℕ) (a : ConsumeProof) (now : ℤ)
    (draws : Draws) (db : Ledger) :
    ConsumeFootprint a now draws db (Tx.write fault cut (Store.consumeProof a now draws) db).1
      (Tx.write fault cut (Store.consumeProof a now draws) db).2 := by
  cases hwrite : Tx.write fault cut (Store.consumeProof a now draws) db with
  | mk x db' =>
    cases x with
    | error e =>
      rw [Tx.write_error hwrite]
      exact .unchanged fun result hx => by cases hx
    | ok result =>
      cases Store.consumeProof_ok (Tx.write_ok hwrite) with
      | refused operational refused =>
        refine .unchanged fun result hx hverified => ?_
        rw [← Except.ok.inj hx] at hverified
        cases hverified
      | replayed operational accepted key row result keyed stored =>
        refine .unchanged fun _ _ _ hundecided => ?_
        rw [hundecided key keyed] at stored
        cases stored
      | decided effect => exact effect.footprint

end Onceproof

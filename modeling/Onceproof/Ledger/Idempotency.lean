import Onceproof.Ledger.Proofs

/-!
# Stored decisions under a key

A client has one stored decision under an idempotency key (`Ledger.KeysUnique`), a stored
decision is kept until a cleanup past its retention (`run_verification_kept`), and as long as
it is there the store answers a request under the key from it and writes nothing
(`Store.consumeProof_bound`).
-/

namespace Onceproof

/-! ### One row for a client and a key -/

/-- A client has at most one stored decision under a key. -/
def Ledger.KeysUnique (db : Ledger) : Prop :=
  ∀ v ∈ db.verifications, ∀ v' ∈ db.verifications, v'.clientId = v.clientId →
    ∀ key, v.idempotencyKey = some key → v'.idempotencyKey = some key → v' = v

theorem Ledger.idempotent_eq_none {db : Ledger} {clientId key : Str}
    (h : db.idempotent clientId key = none) {v : VerificationRow} (hv : v ∈ db.verifications)
    (hclient : v.clientId = clientId) : v.idempotencyKey ≠ some key := by
  intro hkey
  have hnone := List.find?_eq_none.mp h v hv
  simp [hclient, hkey] at hnone

/-- The lookup of a stored decision. -/
theorem Ledger.KeysUnique.idempotent {db : Ledger} (h : db.KeysUnique) {v : VerificationRow}
    (hv : v ∈ db.verifications) {key : Str} (hkey : v.idempotencyKey = some key) :
    db.idempotent v.clientId key = some v := by
  cases hfound : db.idempotent v.clientId key with
  | none => exact absurd hkey (Ledger.idempotent_eq_none hfound hv rfl)
  | some v' =>
    obtain ⟨hv', hclient', hkey'⟩ := Ledger.idempotent_eq_some hfound
    rw [h v hv v' hv' hclient' key hkey hkey']

/-- **Step lemma**: a decision is stored under a fresh key. -/
theorem Ledger.KeysUnique.step {db db' : Ledger} {l : Commit} (h : db.KeysUnique)
    (hs : LedgerStep db l db') : db'.KeysUnique := by
  have hfresh : ∀ {a : ConsumeProof} {x : Chance} {result : VerificationResult},
      DecidesAs a x result ⟨db, l, db'⟩ → ∀ {v : VerificationRow} {key : Str},
        v ∈ db.verifications → v.clientId = a.clientId → a.idempotencyKey = some key →
          v.idempotencyKey ≠ some key := fun hd _ _ hv hclient hkey =>
    Ledger.idempotent_eq_none (hd.2.freshKey _ hkey) hv hclient
  intro v hv v' hv' hclient key hkey hkey'
  rcases hs.verification_origin hv with hv | ⟨a, x, result, hd, rfl⟩ <;>
    rcases hs.verification_origin hv' with hv' | ⟨a', x', result', hd', rfl⟩
  · exact h v hv v' hv' hclient key hkey hkey'
  · exact absurd hkey (hfresh hd' hv hclient.symm hkey')
  · exact absurd hkey' (hfresh hd hv' hclient hkey)
  · obtain ⟨hcall, hx, hresult⟩ := Commit.mk.inj (hd.1.symm.trans hd'.1)
    obtain rfl := StoreCall.consumeProof.inj hcall
    obtain rfl := eq_of_heq hresult
    rw [hx]

theorem run_keysUnique {db db' : Ledger} {cs : List (Trans Ledger Commit)}
    (h : Run LedgerStep db cs db') (h₀ : db.KeysUnique) : db'.KeysUnique :=
  h.invariant (I := Ledger.KeysUnique) (fun hI hs => hI.step hs) h₀

theorem keysUnique_empty : Ledger.empty.KeysUnique := fun _ hv => by cases hv

/-! ### Retention -/

/-- The cleanups among the commits run at times up to `t`. -/
def CleanupsBy (t : ℤ) (cs : List (Trans Ledger Commit)) : Prop :=
  ∀ c ∈ cs, ∀ now x counts, c.label = ⟨.cleanup now, x, counts⟩ → now ≤ t

/-- **A stored decision is kept** while no cleanup runs past its retention. -/
theorem run_verification_kept {db db' : Ledger} {cs : List (Trans Ledger Commit)}
    (h : Run LedgerStep db cs db') {t : ℤ} (hcleanups : CleanupsBy t cs) {v : VerificationRow}
    (ht : t ≤ v.createdAt + idempotencyRetentionSeconds) (hv : v ∈ db.verifications) :
    v ∈ db'.verifications := by
  refine h.kept (I := fun db => v ∈ db.verifications) (fun c hc hI hs => ?_) hv
  rcases hs.verification_kept hI with hkept | ⟨now, x, counts, hl, hstale⟩
  · exact hkept
  · have hnow := hcleanups c hc now x counts hl
    omega

/-! ### Answers from a stored decision -/

/-- **The store answers from a stored decision**: a request under its key gets its result or
is refused, and nothing is written. -/
theorem Store.consumeProof_bound {db : Ledger} {a : ConsumeProof} {now : ℤ} {draws : Draws}
    {key : Str} {row : VerificationRow} {r : VerificationResult}
    (hop : db.restoreRequired = false) (hcredential : a.credentialId.encodable = true)
    (hclient : a.clientId.encodable = true) (hencodable : key.encodable = true)
    (hkey : a.idempotencyKey = some key) (hrow : db.idempotent a.clientId key = some row)
    (hread : resultFromJson (.ok row.resultJson) = .ok r) :
    (¬ db.Accepted .verification a.credentialId a.clientId now ∧
        Tx.run (Store.consumeProof a now draws) db =
          .ok (rejectedResult .credentialRejected draws.verificationId none none now, db)) ∨
      (a.requestFingerprint = row.requestFingerprint ∧
        Tx.run (Store.consumeProof a now draws) db = .ok (r, db)) ∨
      (a.requestFingerprint ≠ row.requestFingerprint ∧
        Tx.run (Store.consumeProof a now draws) db =
          .error (.valueError "idempotency_conflict")) := by
  have hlookup : Tx.run (idempotentResult a.clientId a.idempotencyKey a.requestFingerprint) db =
      if row.requestFingerprint ≠ a.requestFingerprint then
        Except.error (Error.valueError "idempotency_conflict")
      else .ok (some r, db) := by
    rw [hkey, idempotentResult, Tx.run_bind_of_ok (run_select_ok.mpr
      ⟨by simpa using ⟨hclient, hencodable⟩, rfl, rfl⟩), hrow]
    split_ifs with hother
    · simp [hother]
    · simp [not_not.mp hother, hread]
  rw [Store.consumeProof, Tx.run_bind_of_ok (run_requireOperational_ok (u := ()) |>.mpr ⟨hop, rfl⟩),
    Tx.run_bind_of_ok (run_select_ok.mpr ⟨by simpa using hcredential, rfl, rfl⟩)]
  cases hj : db.joined a.credentialId .verification with
  | none =>
    exact Or.inl ⟨Ledger.not_accepted_of_joined_none _ _ hj, rfl⟩
  | some j =>
    obtain ⟨credential, client⟩ := j
    dsimp only
    split_ifs with hrefused
    · exact Or.inl ⟨Ledger.not_accepted_of_refused hj hrefused, rfl⟩
    · by_cases hother : row.requestFingerprint = a.requestFingerprint
      · rw [if_neg (not_not.mpr hother)] at hlookup
        exact Or.inr (Or.inl ⟨hother.symm, Tx.run_bind_of_ok hlookup⟩)
      · rw [if_pos hother] at hlookup
        exact Or.inr (Or.inr ⟨Ne.symm hother, Tx.run_bind_of_error hlookup⟩)

end Onceproof

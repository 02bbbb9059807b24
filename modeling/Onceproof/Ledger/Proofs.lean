import Onceproof.Ledger.Decisions

/-!
# Proof rows over runs

What the state machine of one proof (`ProofStep`) means for runs of the ledger.

* `run_proof_issued`: every proof row was issued, and keeps the fields it was issued with.
* `issued_between`: between two acceptances under one digest lies an issuance under it.
* `FreshTokens` says that random tokens never repeat; then no two calls build one proof.
-/

namespace Onceproof

/-! ### Rows and the records they were issued as -/

/-- A row of the proof that was committed as `c`. Its lifetime may have been shortened. -/
structure ProofRow.Of (r : ProofRow) (c : ProofRecord) : Prop where
  tokenDigest : r.tokenDigest = c.tokenDigest
  proofTag : r.proofTag = c.proofTag
  hashKid : r.hashKid = c.hashKid
  clientId : r.clientId = c.clientId
  issueCredentialId : r.issueCredentialId = c.issueCredentialId
  subject : r.subject = c.subject
  purpose : r.purpose = c.purpose
  audience : r.audience = c.audience
  issuedAt : r.issuedAt = c.issuedAt
  expiresAt : r.expiresAt ≤ c.expiresAt

theorem ProofRecord.toRow_of (c : ProofRecord) : c.toRow.Of c :=
  ⟨rfl, rfl, rfl, rfl, rfl, rfl, rfl, rfl, rfl, le_rfl⟩

/-- A commit of the ledger that issues under a digest. -/
def IssuedAs (D : Str) (c : ProofRecord) (t : Trans Ledger Commit) : Prop :=
  ∃ record check x, t.label = ⟨.issueProof record check, x, c⟩ ∧ record.tokenDigest = D ∧
    IssueEffect record check x.now x.draws.event t.src c t.dst

/-- A commit of the ledger that accepts the proof with a digest. -/
def AcceptedAs (D : Str) (result : VerificationResult) (t : Trans Ledger Commit) : Prop :=
  ∃ a x, DecidesAs a x result t ∧ a.tokenDigest = D ∧ result.verified = true

/-- A proof row that exists after a step was issued in it or is an older row. -/
theorem LedgerStep.proof_origin {db db' : Ledger} {l : Commit} (h : LedgerStep db l db')
    {D : Str} {r' : ProofRow} (hr' : db'.proofs.get? D = some r') :
    (∃ c, IssuedAs D c ⟨db, l, db'⟩ ∧ r' = c.toRow) ∨
      ∃ r, db.proofs.get? D = some r ∧ ∀ c, r.Of c → r'.Of c := by
  have hstep := h.proof D
  rw [hr'] at hstep
  generalize hg : db.proofs.get? D = o at hstep
  cases hstep with
  | same => exact Or.inr ⟨r', rfl, fun _ => id⟩
  | @issued record check x committed label digest effect =>
    exact Or.inl ⟨committed, ⟨record, check, x, label, digest, effect⟩, rfl⟩
  | @consumed a x result r =>
    exact Or.inr ⟨r, rfl, fun c hc => { hc with }⟩
  | @shortened r now live label =>
    refine Or.inr ⟨r, rfl, fun c hc => { hc with expiresAt := ?_ }⟩
    have := hc.expiresAt
    dsimp only [ProofRow.expireBy]
    split_ifs <;> omega

/-- **Every proof row was issued**, with the fields it still has. -/
theorem run_proof_issued {db₀ db : Ledger} {cs : List (Trans Ledger Commit)}
    (h : Run LedgerStep db₀ cs db) {D : Str} {r : ProofRow}
    (hr : db.proofs.get? D = some r) :
    (∃ t ∈ cs, ∃ c, IssuedAs D c t ∧ r.Of c) ∨
      ∃ r₀, db₀.proofs.get? D = some r₀ ∧ ∀ c, r₀.Of c → r.Of c := by
  induction h generalizing r with
  | nil => exact Or.inr ⟨r, hr, fun _ => id⟩
  | @snoc db₁ db₂ τ l _ hs ih =>
    rcases hs.proof_origin hr with ⟨c, hissued, rfl⟩ | ⟨r₁, hr₁, hof⟩
    · exact Or.inl ⟨_, List.mem_append_right _ (List.mem_singleton_self _), c, hissued,
        c.toRow_of⟩
    · rcases ih hr₁ with ⟨t, ht, c, hissued, hc⟩ | ⟨r₀, hr₀, hof₀⟩
      · exact Or.inl ⟨t, List.mem_append_left _ ht, c, hissued, hof c hc⟩
      · exact Or.inr ⟨r₀, hr₀, fun c hc => hof c (hof₀ c hc)⟩

/-! ### Acceptances -/

/-- No live proof under a digest. -/
def Ledger.Spent (db : Ledger) (D : Str) : Prop :=
  ∀ r, db.proofs.get? D = some r → r.consumedAt ≠ none

/-- A digest without a live proof gets one only by an issuance. -/
theorem Ledger.Spent.step {db db' : Ledger} {l : Commit} {D : Str} (h : db.Spent D)
    (hs : LedgerStep db l db') : db'.Spent D ∨ ∃ c, IssuedAs D c ⟨db, l, db'⟩ := by
  by_cases hissued : ∃ c, IssuedAs D c ⟨db, l, db'⟩
  · exact Or.inr hissued
  refine Or.inl fun r' hr' => ?_
  have hstep := hs.proof D
  rw [hr'] at hstep
  generalize hg : db.proofs.get? D = o at hstep
  cases hstep with
  | same => exact h r' hg
  | @issued record check x committed label digest effect =>
    exact absurd ⟨committed, record, check, x, label, digest, effect⟩ hissued
  | consumed _ _ _ _ live => exact absurd live (h _ hg)
  | shortened now live => exact absurd live (h _ hg)

/-- An acceptance spends the proof. -/
theorem AcceptedAs.spent {D : Str} {result : VerificationResult} {t : Trans Ledger Commit}
    (h : AcceptedAs D result t) : t.dst.Spent D := by
  obtain ⟨a, x, ⟨-, heffect⟩, rfl, hv⟩ := h
  obtain ⟨r, hr, howner, hlive, hopen, -⟩ := heffect.accepted hv
  intro r' hr'
  rw [heffect.proofs, if_pos hv, Ledger.consume, Table.get?_update, hr] at hr'
  have hdigest := (Table.get?_eq_some.mp hr).2
  simp only [Option.map_some, hdigest, hlive, hopen, and_self, decide_true, if_true,
    Option.some.injEq] at hr'
  rw [← hr']
  exact Option.some_ne_none _

/-- An acceptance finds a live proof. -/
theorem AcceptedAs.not_spent {D : Str} {result : VerificationResult} {t : Trans Ledger Commit}
    (h : AcceptedAs D result t) : ¬ t.src.Spent D := by
  obtain ⟨a, x, ⟨-, heffect⟩, rfl, hv⟩ := h
  obtain ⟨r, hr, -, hlive, -⟩ := heffect.accepted hv
  exact fun hspent => hspent r hr hlive

/-- **Between two acceptances under one digest lies an issuance under it.** -/
theorem issued_between {db db' : Ledger} {cs : List (Trans Ledger Commit)} {D : Str}
    (h : Run LedgerStep db cs db') (hspent : db.Spent D) (hlive : ¬ db'.Spent D) :
    ∃ t ∈ cs, ∃ c, IssuedAs D c t := by
  by_contra hnone
  refine hlive (h.kept (I := fun db => db.Spent D) (fun t ht hI hs => ?_) hspent)
  exact (hI.step hs).resolve_right fun ⟨c, hc⟩ => hnone ⟨t, ht, c, hc⟩

/-! ### Fresh tokens -/

/-- A random token that a command drew. -/
def SystemEvent.tokenDraw? : SystemEvent → Option (ℕ × Bytes)
  | .act _ _ _ (.tokenBytes n) _ (.ok bytes) => some (n, bytes)
  | _ => none

/-- The tokens that a run drew. -/
def tokenDraws (τ : List SystemTrans) : List (ℕ × Bytes) :=
  τ.filterMap fun t => SystemEvent.tokenDraw? t.label

/-- Random tokens never repeat. -/
def FreshTokens (τ : List SystemTrans) : Prop := (tokenDraws τ).Nodup

instance (τ : List SystemTrans) : Decidable (FreshTokens τ) :=
  inferInstanceAs (Decidable (tokenDraws τ).Nodup)

/-- A fresh token is drawn by one thread. -/
theorem FreshTokens.thread {τ τ₁ τ₂ : List SystemTrans} (h : FreshTokens τ) (h₁ : τ₁ ⊆ τ)
    (h₂ : τ₂ ⊆ τ) {tid tid' n : ℕ} {bytes : Bytes}
    (hgot : Hist.Got (acted tid τ₁) (.tokenBytes n) bytes)
    (hgot' : Hist.Got (acted tid' τ₂) (.tokenBytes n) bytes) : tid = tid' := by
  obtain ⟨u, hu, p, r, i, hl⟩ := mem_acted.mp hgot
  obtain ⟨u', hu', p', r', i', hl'⟩ := mem_acted.mp hgot'
  have heq : u = u' := eq_of_nodup_filterMap h (h₁ hu) (h₂ hu') (b := (n, bytes))
    (by rw [hl]; rfl) (by rw [hl']; rfl)
  rw [heq, hl'] at hl
  exact (Event.act.inj hl).1.symm

end Onceproof

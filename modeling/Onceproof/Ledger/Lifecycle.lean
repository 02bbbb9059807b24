import Onceproof.Ledger.Authority
import Onceproof.Ledger.Proofs

/-!
# The life of one proof

A `Stage` says where one proof stands and which outcomes its attempts have had so far. A proof is
live until it is accepted or expires, a consumed proof is only replayed, and a forgotten one is
unknown. Each step of the ledger keeps the stage (`Stage.step`), and an attempt adds an outcome
that the stage allows (`Stage.attempt`).
-/

namespace Onceproof

/-- The outcome of an attempt: `none` is an acceptance. -/
def VerificationResult.outcome (r : VerificationResult) : Option RejectionReason :=
  if r.verified then none else r.reason

/-- The outcomes of one proof, in order: mismatches, then an acceptance and its replays or the end
of the lifetime, and then nothing is known of the proof. -/
inductive LifecycleWord : List (Option RejectionReason) → Prop
  | accepted (m n k : ℕ) : LifecycleWord (List.replicate m (some .bindingMismatch) ++ none ::
      (List.replicate n (some .alreadyConsumed) ++ List.replicate k (some .invalid)))
  | expired (m n k : ℕ) : LifecycleWord (List.replicate m (some .bindingMismatch) ++
      (List.replicate n (some .expired) ++ List.replicate k (some .invalid)))

variable {D : Str} {c : ProofRecord} {db db' : Ledger} {l : Commit}
variable {cs : List (Trans Ledger Commit)} {word : List (Option RejectionReason)}

theorem LifecycleWord.invalid (h : LifecycleWord word) :
    LifecycleWord (word ++ [some .invalid]) := by
  cases h with
  | accepted m n k =>
    have hword := LifecycleWord.accepted m n (k + 1)
    rw [List.replicate_succ'] at hword
    simpa using hword
  | expired m n k =>
    have hword := LifecycleWord.expired m n (k + 1)
    rw [List.replicate_succ'] at hword
    simpa using hword

/-! ### The client of a proof -/

/-- The status of a client. -/
def Ledger.statusOf (db : Ledger) (clientId : Str) : Option ClientStatus :=
  (db.clients.get? clientId).map ClientRow.status

/-- A client is never forgotten, and a revoked one stays revoked. -/
theorem LedgerStep.statusOf (h : LedgerStep db l db') {id : Str} (hid : db.statusOf id ≠ none) :
    db'.statusOf id ≠ none ∧
      (db.statusOf id = some .revoked → db'.statusOf id = some .revoked) := by
  have hstep := h.client id
  unfold Ledger.statusOf at hid ⊢
  generalize db.clients.get? id = o at hstep hid ⊢
  generalize db'.clients.get? id = o' at hstep ⊢
  cases hstep with
  | same => exact ⟨hid, fun h => h⟩
  | created => exact absurd rfl hid
  | revoked => exact ⟨Option.some_ne_none _, fun _ => rfl⟩

/-- A proof loses lifetime only when its client is revoked. -/
theorem LedgerStep.shortens (h : LedgerStep db l db') {id : Str} {now : ℤ}
    (hid : db.statusOf id ≠ none) (hl : (∃ x, l = ⟨.revokeClient id now, x, true⟩) ∨
      ∃ x, l = ⟨.activateRestoredBackup now, x, ()⟩) : db'.statusOf id = some .revoked := by
  unfold Ledger.statusOf at hid ⊢
  rcases hl with ⟨x, rfl⟩ | ⟨x, rfl⟩
  · cases h.effect with
    | revoke effect =>
      obtain ⟨client, hclient, hrevoked⟩ := effect.revoked_client
      rw [hclient, Option.map_some, hrevoked]
  · cases h.effect with
    | activate effect =>
      rw [Table.get?_map effect.clients fun _ => rfl]
      cases hclient : db.clients.get? id with
      | none => rw [hclient] at hid; exact absurd rfl hid
      | some client => rfl

/-! ### Stages -/

/-- Where the proof `c` stands in a ledger after the commits `cs`, with the row that is stored of
it and the outcomes so far. -/
inductive Stage (cs : List (Trans Ledger Commit)) (db : Ledger) (c : ProofRecord) :
    Option ProofRow → List (Option RejectionReason) → Prop
  | live {r : ProofRow} (m n : ℕ) (row : r.Of c) (live : r.consumedAt = none)
      (lifetime : r.expiresAt = c.expiresAt ∨ db.statusOf c.clientId = some .revoked)
      (expired : n ≠ 0 → ∃ t ∈ cs, ∃ x ∈ t.label.lockReading?, r.expiresAt ≤ x) :
      Stage cs db c (some r)
        (List.replicate m (some .bindingMismatch) ++ List.replicate n (some .expired))
  | consumed {r : ProofRow} (m n : ℕ) (row : r.Of c) (consumed : r.consumedAt ≠ none)
      (lifetime : r.expiresAt = c.expiresAt) :
      Stage cs db c (some r)
        (List.replicate m (some .bindingMismatch) ++
          none :: List.replicate n (some .alreadyConsumed))
  | gone {word : List (Option RejectionReason)} (word_ok : LifecycleWord word)
      (late : none ∈ word →
        ∃ t ∈ cs, ∃ x ∈ t.label.reading?, c.expiresAt + proofRetentionSeconds < x) :
      Stage cs db c none word

/-- The outcomes so far are those of one proof. -/
theorem Stage.lifecycleWord {row : Option ProofRow} (h : Stage cs db c row word) :
    LifecycleWord word := by
  cases h with
  | live m n => simpa using LifecycleWord.expired m n 0
  | consumed m n => simpa using LifecycleWord.accepted m n 0
  | gone word_ok => exact word_ok

/-- The row is that of the proof. -/
theorem Stage.of_row {row : Option ProofRow} (h : Stage cs db c row word) :
    ∀ r, row = some r → r.Of c := by
  rintro r rfl
  cases h with
  | live _ _ row => exact row
  | consumed _ _ row => exact row

/-- **A step that makes no attempt** on the proof adds no outcome. -/
theorem Stage.step (h : Stage cs db c (db.proofs.get? D) word) (hs : LedgerStep db l db')
    (hclient : db.statusOf c.clientId ≠ none) (hissued : ∀ c', ¬ IssuedAs D c' ⟨db, l, db'⟩)
    (haccepted : ∀ result, ¬ AcceptedAs D result ⟨db, l, db'⟩) :
    Stage (cs ++ [⟨db, l, db'⟩]) db' c (db'.proofs.get? D) word := by
  have hrow := hs.proof D
  have hstatus := (hs.statusOf hclient).2
  generalize db.proofs.get? D = o at h hrow
  generalize db'.proofs.get? D = o' at hrow ⊢
  have hmem : ∀ {P : Trans Ledger Commit → Prop}, (∃ t ∈ cs, P t) →
      ∃ t ∈ cs ++ [⟨db, l, db'⟩], P t :=
    fun ⟨t, ht, hP⟩ => ⟨t, List.mem_append_left _ ht, hP⟩
  cases hrow with
  | same =>
    cases h with
    | live m n row live lifetime expired =>
      exact .live m n row live (lifetime.imp_right hstatus) fun hn => hmem (expired hn)
    | consumed m n row consumed lifetime => exact .consumed m n row consumed lifetime
    | gone word_ok late => exact .gone word_ok fun hnone => hmem (late hnone)
  | @issued record check x committed label digest effect =>
    exact absurd ⟨record, check, x, label, digest, effect⟩ (hissued committed)
  | @consumed a x result r label digest effect verified =>
    exact absurd ⟨a, x, ⟨label, effect⟩, digest, verified⟩ (haccepted result)
  | @shortened r now unconsumed label =>
    cases h with
    | live m n row live lifetime expired =>
      have hle : (r.expireBy now).expiresAt ≤ r.expiresAt := by
        simp only [ProofRow.expireBy]
        split_ifs <;> omega
      refine .live m n { row with expiresAt := hle.trans row.expiresAt } live
        (Or.inr (hs.shortens hclient (row.clientId ▸ label))) fun hn => ?_
      obtain ⟨t, ht, x, hx, hexpired⟩ := expired hn
      exact hmem ⟨t, ht, x, hx, hle.trans hexpired⟩
    | consumed m n row consumed => exact absurd unconsumed consumed
  | @forgotten r now x counts label stale =>
    have hreading : ∃ t ∈ cs ++ [⟨db, l, db'⟩], ∃ y ∈ t.label.reading?, y = now :=
      ⟨_, List.mem_append_right _ (List.mem_singleton_self _), now, by rw [label]; rfl, rfl⟩
    refine .gone h.lifecycleWord fun hnone => ?_
    cases h with
    | live m n => simp [List.mem_replicate] at hnone
    | consumed m n row consumed lifetime =>
      obtain ⟨t, ht, y, hy, rfl⟩ := hreading
      exact ⟨t, ht, y, hy, by omega⟩

/-! ### Attempts -/

/-- A fresh decision on a request of the client of the proof `c` for this proof. It looked the
proof up under its digest, unless the row was gone. -/
structure AttemptAs (D : Str) (c : ProofRecord) (a : ConsumeProof) (x : Chance)
    (result : VerificationResult) (t : Trans Ledger Commit) : Prop where
  decides : DecidesAs a x result t
  owner : a.clientId = c.clientId
  lookup : a.tokenDigest = D ∨
    t.src.proofs.get? D = none ∧ t.src.proofs.get? a.tokenDigest = none

/-- An attempt decides on the row of the proof. -/
theorem AttemptAs.result_eq {a : ConsumeProof} {x : Chance} {result : VerificationResult}
    (h : AttemptAs D c a x result ⟨db, l, db'⟩) (hrow : ∀ r, db.proofs.get? D = some r → r.Of c) :
    result = a.decision ((db.proofs.get? D).map proofFromRow) x.draws.verificationId x.now := by
  obtain ⟨⟨-, heffect⟩, howner, hlookup⟩ := h
  rw [heffect.result_eq]
  congr 2
  rw [Ledger.proofOf]
  rcases hlookup with hD | ⟨hnone, hnone'⟩
  · rw [hD]
    cases hr : db.proofs.get? D with
    | none => rfl
    | some r =>
      refine Option.filter_eq_some_iff.mpr ⟨rfl, ?_⟩
      simp [(hrow r hr).clientId, howner]
  · dsimp only at hnone hnone'
    rw [hnone, hnone']
    rfl

/-- The row after an attempt: an acceptance consumes it. -/
theorem AttemptAs.row_eq {a : ConsumeProof} {x : Chance} {result : VerificationResult}
    (h : AttemptAs D c a x result ⟨db, l, db'⟩) :
    (result.verified = false ∧ db'.proofs.get? D = db.proofs.get? D) ∨
      ∃ r, result.verified = true ∧ db.proofs.get? D = some r ∧ db'.proofs.get? D = some { r with
        consumedAt := some x.now, consumeVerificationId := some x.draws.verificationId } := by
  obtain ⟨⟨-, heffect⟩, howner, hlookup⟩ := h
  dsimp only at heffect hlookup
  cases hv : result.verified with
  | false => exact Or.inl ⟨rfl, by rw [heffect.proofs, hv, if_neg Bool.false_ne_true]⟩
  | true =>
    obtain ⟨r, hr, -, hlive, hopen, -⟩ := heffect.accepted hv
    rcases hlookup with rfl | ⟨-, hnone⟩
    · refine Or.inr ⟨r, rfl, hr, ?_⟩
      rw [heffect.proofs, hv, if_pos rfl, Ledger.consume, Table.get?_update, hr]
      simp [(Table.get?_eq_some.mp hr).2, hlive, hopen]
    · rw [hr] at hnone
      cases hnone

/-- **An attempt** adds an outcome that the stage allows, and within the retention an accepted
proof is answered as consumed. -/
theorem Stage.attempt {a : ConsumeProof} {x : Chance} {result : VerificationResult}
    (h : Stage cs db c (db.proofs.get? D) word) (hs : AttemptAs D c a x result ⟨db, l, db'⟩)
    (hclock : ∀ t ∈ cs, t.label.Before l) :
    Stage (cs ++ [⟨db, l, db'⟩]) db' c (db'.proofs.get? D) (word ++ [result.outcome]) ∧
      (none ∈ word → x.now ≤ c.expiresAt + proofRetentionSeconds →
        result.outcome = some .alreadyConsumed) := by
  have hresult := hs.result_eq h.of_row
  have hnext := hs.row_eq
  -- an attempt that was not accepted left the row
  have hkept : result.verified = false → db'.proofs.get? D = db.proofs.get? D := by
    intro hv
    refine (hnext.resolve_right ?_).2
    rintro ⟨_, hv', _⟩
    rw [hv] at hv'
    cases hv'
  obtain ⟨⟨hl, heffect⟩, howner, -⟩ := hs
  dsimp only at hl heffect
  have hreading : l.lockReading? = some x.now := by rw [hl]; rfl
  have hactive : db.statusOf c.clientId = some .active := by
    obtain ⟨credential, client, haccepts, -⟩ := heffect.authorized
    rw [Ledger.statusOf, ← howner, haccepts.lookup.2.2, Option.map_some, haccepts.active]
  have hclients : db'.statusOf c.clientId = db.statusOf c.clientId := by
    rw [Ledger.statusOf, heffect.clients, Ledger.statusOf]
  generalize db.proofs.get? D = o at h hresult hnext hkept
  cases h with
  | @live r m n row live lifetime expired =>
    have hlifetime : r.expiresAt = c.expiresAt :=
      lifetime.resolve_right fun hrevoked => by rw [hactive] at hrevoked; cases hrevoked
    have hnone : none ∉ List.replicate m (some RejectionReason.bindingMismatch) ++
        List.replicate n (some RejectionReason.expired) := by simp [List.mem_replicate]
    refine ⟨?_, fun hmem => absurd hmem hnone⟩
    -- an attempt that is not refused as expired is the first one at or after the expiry
    have hfirst : ¬ r.expiresAt ≤ x.now → n = 0 := by
      intro hopen
      by_contra hn
      obtain ⟨t, ht, y, hy, hexpired⟩ := expired hn
      exact hopen (hexpired.trans
        (hclock t ht y x.now (Commit.reading?_of_lockReading? hy) hreading))
    have hconsumed : ¬ (proofFromRow r).consumedAt ≠ none := fun hne => hne live
    simp only [Option.map_some, ConsumeProof.decision, if_neg hconsumed] at hresult
    split_ifs at hresult with hexpired hbinding
    · have hsame := hkept (by rw [hresult]; rfl)
      rw [hsame, hresult]
      have hstage : Stage (cs ++ [⟨db, l, db'⟩]) db' c (some r)
          (List.replicate m (some .bindingMismatch) ++ List.replicate (n + 1) (some .expired)) :=
        .live m (n + 1) row live (Or.inl hlifetime) fun _ =>
          ⟨_, List.mem_append_right _ (List.mem_singleton_self _), x.now, hreading, hexpired⟩
      rw [List.replicate_succ'] at hstage
      simpa [VerificationResult.outcome, rejectedResult] using hstage
    · have hsame := hkept (by rw [hresult]; rfl)
      rw [hsame, hresult]
      obtain rfl := hfirst hexpired
      have hstage : Stage (cs ++ [⟨db, l, db'⟩]) db' c (some r)
          (List.replicate (m + 1) (some .bindingMismatch) ++ List.replicate 0 (some .expired)) :=
        .live (m + 1) 0 row live (Or.inl hlifetime) fun hn => absurd rfl hn
      rw [List.replicate_succ'] at hstage
      simpa [VerificationResult.outcome, rejectedResult] using hstage
    · have haccepted : ¬ (result.verified = false ∧ db'.proofs.get? D = some r) := by
        intro hv
        rw [hresult] at hv
        cases hv.1
      obtain ⟨r', -, hr', hnew⟩ := hnext.resolve_left haccepted
      obtain rfl := Option.some.inj hr'
      obtain rfl := hfirst hexpired
      rw [hnew, hresult]
      have hstage : Stage (cs ++ [⟨db, l, db'⟩]) db' c
          (some { r with
            consumedAt := some x.now, consumeVerificationId := some x.draws.verificationId })
          (List.replicate m (some .bindingMismatch) ++
            none :: List.replicate 0 (some .alreadyConsumed)) :=
        .consumed m 0 { row with } (Option.some_ne_none _) hlifetime
      simpa [VerificationResult.outcome, acceptedResult] using hstage
  | @consumed r m n row consumed lifetime =>
    have hconsumed : (proofFromRow r).consumedAt ≠ none := consumed
    simp only [Option.map_some, ConsumeProof.decision, if_pos hconsumed] at hresult
    have hsame := hkept (by rw [hresult]; rfl)
    rw [hsame, hresult]
    refine ⟨?_, fun _ _ => rfl⟩
    have hstage : Stage (cs ++ [⟨db, l, db'⟩]) db' c (some r)
        (List.replicate m (some .bindingMismatch) ++
          none :: List.replicate (n + 1) (some .alreadyConsumed)) :=
      .consumed m (n + 1) row consumed lifetime
    rw [List.replicate_succ'] at hstage
    simpa [VerificationResult.outcome, rejectedResult] using hstage
  | gone word_ok late =>
    rw [Option.map_none] at hresult
    have hsame := hkept (by rw [hresult]; rfl)
    rw [hsame, hresult]
    have houtcome : (a.decision none x.draws.verificationId x.now).outcome = some .invalid := rfl
    rw [houtcome]
    have hlate : none ∈ word → c.expiresAt + proofRetentionSeconds < x.now := by
      intro hmem
      obtain ⟨t, ht, y, hy, hlt⟩ := late hmem
      exact hlt.trans_le (hclock t ht y x.now hy hreading)
    refine ⟨.gone word_ok.invalid fun hmem => ?_, fun hmem hle => ?_⟩
    · obtain ⟨t, ht, y⟩ := late (by simpa using hmem)
      exact ⟨t, List.mem_append_left _ ht, y⟩
    · exact absurd (hlate hmem) (not_lt.mpr hle)

end Onceproof

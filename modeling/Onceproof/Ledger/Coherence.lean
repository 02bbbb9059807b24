import Onceproof.Ledger.Results
import Onceproof.Ledger.Idempotency

/-!
# Coherence of the tables

A decision writes three tables at once: the proof row, the row of the decision, and the audit
event. `Ledger.Coherent` says how the tables then fit together, and `Ledger.Witnessed` is the
invariant that carries it through the steps that forget rows. A proof lives for at most an hour
and is kept for another one, so the rows that witness it are still within their own, longer
retentions when it is forgotten (`Ledger.Forgets`).
-/

namespace Onceproof

/-! ### Coherence -/

/-- The audit events of a kind about a proof. -/
def Ledger.auditCount (db : Ledger) (kind : AuditKind) (proofTag : Str) : ℕ :=
  db.auditEvents.rows.countP fun e => e.kind = kind ∧ e.proofTag = some proofTag

/-- The proof rows, the stored decisions and the audit events fit together. -/
structure Ledger.Coherent (db : Ledger) : Prop where
  /-- A consumed proof has one stored decision, which accepts it. -/
  consumed : ∀ r ∈ db.proofs, ∀ t, r.consumedAt = some t → ∃ v ∈ db.verifications,
    r.consumeVerificationId = some v.verificationId ∧
      (∀ v' ∈ db.verifications, r.consumeVerificationId = some v'.verificationId → v' = v) ∧
      v.createdAt = t ∧
      resultFromJson (.ok v.resultJson) = .ok (acceptedResult (proofFromRow r) v.verificationId t)
  /-- No stored decision accepts a proof that is not consumed. -/
  live : ∀ r ∈ db.proofs, r.consumedAt = none → ∀ v ∈ db.verifications,
    v.proofTag = some r.proofTag → ∀ result, resultFromJson (.ok v.resultJson) = .ok result →
      result.verified = false
  issuedOnce : ∀ r ∈ db.proofs, db.auditCount .proofIssued r.proofTag = 1
  verifiedOnce : ∀ r ∈ db.proofs,
    db.auditCount .proofVerified r.proofTag = if r.consumedAt = none then 0 else 1

/-! ### Tags -/

/-- The tag of the proof that a commit issued. -/
def Commit.issuedTag? : Commit → Option Str
  | ⟨.issueProof record _, _, _⟩ => some record.proofTag
  | _ => none

/-- The tags of the proofs that were issued. -/
def issuedTags (cs : List (Trans Ledger Commit)) : List Str :=
  cs.filterMap fun t => t.label.issuedTag?

@[simp]
theorem issuedTags_append (cs cs' : List (Trans Ledger Commit)) :
    issuedTags (cs ++ cs') = issuedTags cs ++ issuedTags cs' := by
  simp [issuedTags]

/-- No tag is issued twice. -/
def DistinctTags (cs : List (Trans Ledger Commit)) : Prop := (issuedTags cs).Nodup

instance (cs : List (Trans Ledger Commit)) : Decidable (DistinctTags cs) :=
  inferInstanceAs (Decidable (issuedTags cs).Nodup)

/-! ### The invariant -/

/-- The invariant behind `Ledger.Coherent`, after the commits `cs`. -/
structure Ledger.Witnessed (cs : List (Trans Ledger Commit)) (db : Ledger) : Prop where
  coherent : db.Coherent
  named : db.clients.get? [] = none
  sound : ∀ r ∈ db.proofs, r.Sound
  /-- A proof row is the last trace of a commit of the same reading. -/
  issued : ∀ r ∈ db.proofs, ∃ t ∈ cs, t.label.lockReading? = some r.issuedAt
  lifetime : ∀ r ∈ db.proofs, r.expiresAt ≤ r.issuedAt + maxTtlSeconds
  consumedLater : ∀ r ∈ db.proofs, ∀ t, r.consumedAt = some t → r.issuedAt ≤ t
  rowTags : ∀ r ∈ db.proofs, r.proofTag ∈ issuedTags cs
  oneRow : ∀ r ∈ db.proofs, ∀ r' ∈ db.proofs, r.proofTag = r'.proofTag → r = r'
  decisionTags : ∀ v ∈ db.verifications, ∀ tag, v.proofTag = some tag → tag ∈ issuedTags cs
  auditTags : ∀ e ∈ db.auditEvents, ∀ tag, e.proofTag = some tag → tag ∈ issuedTags cs
  auditLater : ∀ r ∈ db.proofs, ∀ e ∈ db.auditEvents, e.proofTag = some r.proofTag →
    r.issuedAt ≤ e.createdAt

variable {cs cs' : List (Trans Ledger Commit)} {db db' : Ledger} {l : Commit}

/-! ### Steps that forget -/

/-- A step after which the proof rows are older ones, some of which expire sooner, and the rows
that witness them are still there. -/
structure Ledger.Forgets (db db' : Ledger) : Prop where
  clients : db.clients.get? [] = none → db'.clients.get? [] = none
  proofs : ∀ r' ∈ db'.proofs, ∃ r ∈ db.proofs,
    r' = r ∨ ∃ now, r.consumedAt = none ∧ r' = r.expireBy now
  verifications : ∀ v ∈ db'.verifications, v ∈ db.verifications
  kept : ∀ v ∈ db.verifications, ∀ r' ∈ db'.proofs, r'.issuedAt ≤ v.createdAt →
    v ∈ db'.verifications
  audit : ∃ keep extra, db'.auditEvents.rows = db.auditEvents.rows.filter keep ++ extra ∧
    (∀ e ∈ extra, e.proofTag = none) ∧
    ∀ e ∈ db.auditEvents, ∀ r' ∈ db'.proofs, r'.issuedAt ≤ e.createdAt → keep e = true

/-- The row of a proof is the older one but for its expiry. -/
theorem ProofRow.expireBy_le (r : ProofRow) (now : ℤ) :
    (r.expireBy now).expiresAt ≤ r.expiresAt := by
  dsimp only [ProofRow.expireBy]
  split_ifs <;> omega

theorem Ledger.Forgets.auditCount (h : db.Forgets db') {kind : AuditKind} {r' : ProofRow}
    (hr' : r' ∈ db'.proofs)
    (hlater : ∀ e ∈ db.auditEvents, e.proofTag = some r'.proofTag → r'.issuedAt ≤ e.createdAt) :
    db'.auditCount kind r'.proofTag = db.auditCount kind r'.proofTag := by
  obtain ⟨keep, extra, hrows, hextra, hkeep⟩ := h.audit
  have hnone : extra.countP (fun e => e.kind = kind ∧ e.proofTag = some r'.proofTag) = 0 := by
    refine List.countP_eq_zero.mpr fun e he => ?_
    simp [hextra e he]
  rw [Ledger.auditCount, hrows, List.countP_append, hnone, List.countP_filter, Nat.add_zero]
  refine List.countP_congr fun e he => ?_
  -- an event about the proof is not older than the proof
  simp only [Bool.and_eq_true, decide_eq_true_eq]
  exact ⟨And.left, fun hp => ⟨hp, hkeep e he r' hr' (hlater e he hp.2)⟩⟩

/-- **Forgetting keeps coherence.** -/
theorem Ledger.Witnessed.forget (h : db.Witnessed cs) (hf : db.Forgets db')
    (hcs : cs ⊆ cs') (htags : issuedTags cs' = issuedTags cs) : db'.Witnessed cs' := by
  -- a row that remains is an old one, perhaps expired earlier
  have hcases : ∀ r' ∈ db'.proofs, ∃ r ∈ db.proofs, r'.proofTag = r.proofTag ∧
      r'.issuedAt = r.issuedAt ∧ r'.tokenDigest = r.tokenDigest ∧
      r'.consumedAt = r.consumedAt ∧ (r.consumedAt ≠ none → r' = r) := by
    intro r' hr'
    obtain ⟨r, hr, rfl | ⟨now, hlive, rfl⟩⟩ := hf.proofs r' hr'
    · exact ⟨r', hr, rfl, rfl, rfl, rfl, fun _ => rfl⟩
    · exact ⟨r, hr, rfl, rfl, rfl, rfl, fun hc => absurd hlive hc⟩
  have hlater : ∀ r' ∈ db'.proofs, ∀ e ∈ db.auditEvents, e.proofTag = some r'.proofTag →
      r'.issuedAt ≤ e.createdAt := by
    intro r' hr' e he htag
    obtain ⟨r, hr, hrtag, hissued, -⟩ := hcases r' hr'
    rw [hissued]
    exact h.auditLater r hr e he (hrtag ▸ htag)
  have haudit : ∀ e ∈ db'.auditEvents, e ∈ db.auditEvents ∨ e.proofTag = none := by
    intro e he
    obtain ⟨keep, extra, hrows, hextra, -⟩ := hf.audit
    rw [Table.mem_def, hrows, List.mem_append, List.mem_filter] at he
    exact he.imp And.left (hextra e)
  refine ⟨⟨fun r' hr' t ht => ?_, fun r' hr' hlive v hv htag => ?_, fun r' hr' => ?_,
    fun r' hr' => ?_⟩, hf.clients h.named, fun r' hr' => ?_, fun r' hr' => ?_, fun r' hr' => ?_,
    fun r' hr' t ht => ?_, fun r' hr' => ?_, fun r₁ hr₁ r₂ hr₂ htag => ?_,
    fun v hv tag htag => ?_, fun e he tag htag => ?_, fun r' hr' e he htag => ?_⟩
  · obtain ⟨r, hr, -, -, -, hconsumed, hsame⟩ := hcases r' hr'
    -- a consumed proof is not touched, and its decision is kept as long as it is
    obtain rfl := hsame (by rw [← hconsumed, ht]; exact Option.some_ne_none t)
    obtain ⟨v, hv, hid, hone, hcreated, hread⟩ := h.coherent.consumed r' hr t ht
    have hkept := hf.kept v hv r' hr' (hcreated ▸ h.consumedLater r' hr t ht)
    exact ⟨v, hkept, hid, fun v' hv' => hone v' (hf.verifications v' hv'), hcreated, hread⟩
  · obtain ⟨r, hr, hrtag, -, -, hconsumed, -⟩ := hcases r' hr'
    exact h.coherent.live r hr (hconsumed ▸ hlive) v (hf.verifications v hv) (hrtag ▸ htag)
  · obtain ⟨r, hr, hrtag, -⟩ := hcases r' hr'
    rw [hf.auditCount hr' (hlater r' hr'), hrtag]
    exact h.coherent.issuedOnce r hr
  · obtain ⟨r, hr, hrtag, -, -, hconsumed, -⟩ := hcases r' hr'
    rw [hf.auditCount hr' (hlater r' hr'), hrtag, hconsumed]
    exact h.coherent.verifiedOnce r hr
  · obtain ⟨r, hr, rfl | ⟨now, -, rfl⟩⟩ := hf.proofs r' hr'
    · exact h.sound r' hr
    · exact { h.sound r hr with }
  · obtain ⟨r, hr, -, hissued, -⟩ := hcases r' hr'
    obtain ⟨t, ht, hreading⟩ := h.issued r hr
    exact ⟨t, hcs ht, hissued ▸ hreading⟩
  · obtain ⟨r, hr, rfl | ⟨now, -, rfl⟩⟩ := hf.proofs r' hr'
    · exact h.lifetime r' hr
    · exact (r.expireBy_le now).trans (h.lifetime r hr)
  · obtain ⟨r, hr, -, hissued, -, hconsumed, -⟩ := hcases r' hr'
    rw [hissued]
    exact h.consumedLater r hr t (hconsumed ▸ ht)
  · obtain ⟨r, hr, hrtag, -⟩ := hcases r' hr'
    rw [htags, hrtag]
    exact h.rowTags r hr
  · obtain ⟨r, hr, hrtag, -, hdigest, -⟩ := hcases r₁ hr₁
    obtain ⟨r', hr', hrtag', -, hdigest', -⟩ := hcases r₂ hr₂
    have hsame := h.oneRow r hr r' hr' (by rw [← hrtag, ← hrtag', htag])
    exact Table.eq_of_key_eq hr₁ hr₂ (by rw [hdigest, hdigest', hsame])
  · rw [htags]
    exact h.decisionTags v (hf.verifications v hv) tag htag
  · rcases haudit e he with he | hnone
    · rw [htags]
      exact h.auditTags e he tag htag
    · rw [hnone] at htag
      cases htag
  · rcases haudit e he with he | hnone
    · exact hlater r' hr' e he htag
    · rw [hnone] at htag
      cases htag

/-- A step that leaves the proof rows and their witnesses alone, but for events about no
proof. -/
private theorem forgets_of_same (extra : List AuditRow)
    (hclients : db.clients.get? [] = none → db'.clients.get? [] = none)
    (hproofs : ∀ r' ∈ db'.proofs, ∃ r ∈ db.proofs,
      r' = r ∨ ∃ now, r.consumedAt = none ∧ r' = r.expireBy now)
    (hverifications : db'.verifications = db.verifications)
    (haudit : db'.auditEvents.rows = db.auditEvents.rows ++ extra)
    (hextra : ∀ e ∈ extra, e.proofTag = none) : db.Forgets db' where
  clients := hclients
  proofs := hproofs
  verifications _ hv := hverifications ▸ hv
  kept _ hv _ _ _ := hverifications ▸ hv
  audit := ⟨fun _ => true, extra, by rw [haudit, List.filter_true], hextra, fun _ _ _ _ _ => rfl⟩

private theorem same_proofs (h : db'.proofs = db.proofs) : ∀ r' ∈ db'.proofs, ∃ r ∈ db.proofs,
    r' = r ∨ ∃ now, r.consumedAt = none ∧ r' = r.expireBy now :=
  fun r' hr' => ⟨r', h ▸ hr', Or.inl rfl⟩

private theorem shortened_proofs {p : ProofRow → Prop} [DecidablePred p] {now : ℤ}
    (hp : ∀ r, p r → r.consumedAt = none)
    (h : db'.proofs.rows = db.proofs.rows.map fun r => if p r then r.expireBy now else r) :
    ∀ r' ∈ db'.proofs, ∃ r ∈ db.proofs,
      r' = r ∨ ∃ now, r.consumedAt = none ∧ r' = r.expireBy now := by
  intro r' hr'
  rw [Table.mem_def, h, List.mem_map] at hr'
  obtain ⟨r, hr, rfl⟩ := hr'
  refine ⟨r, hr, ?_⟩
  split_ifs with hcond
  · exact Or.inr ⟨now, hp r hcond, rfl⟩
  · exact Or.inl rfl

/-- A proof that is kept keeps its witnesses. -/
theorem CleanupEffect.forgets {now : ℤ} (h : CleanupEffect now db db')
    (hlifetime : ∀ r ∈ db.proofs, r.expiresAt ≤ r.issuedAt + maxTtlSeconds) : db.Forgets db' := by
  have hproofs : ∀ r' ∈ db'.proofs, r' ∈ db.proofs ∧ now ≤ r'.issuedAt + 7200 := by
    intro r' hr'
    rw [Table.mem_def, h.proofs, List.mem_filter, decide_eq_true_eq] at hr'
    have hcap := hlifetime r' hr'.1
    have hkept := hr'.2
    simp only [proofRetentionSeconds, maxTtlSeconds] at hcap hkept
    exact ⟨hr'.1, by omega⟩
  refine ⟨fun hnone => h.clients ▸ hnone, fun r' hr' => ⟨r', (hproofs r' hr').1, Or.inl rfl⟩,
    fun v hv => ?_, fun v hv r' hr' hlater => ?_,
    ⟨fun e => now - auditRetentionSeconds ≤ e.createdAt, [], ?_, ?_, fun e he r' hr' hlater => ?_⟩⟩
  · rw [Table.mem_def, h.verifications, List.mem_filter] at hv
    exact hv.1
  · have hbound := (hproofs r' hr').2
    rw [Table.mem_def, h.verifications, List.mem_filter, decide_eq_true_eq]
    refine ⟨hv, ?_⟩
    simp only [idempotencyRetentionSeconds]
    omega
  · rw [h.auditEvents, List.append_nil]
  · simp
  · have hbound := (hproofs r' hr').2
    refine decide_eq_true ?_
    simp only [auditRetentionSeconds]
    omega

/-- **A step issues a proof, decides, or forgets.** -/
theorem LedgerStep.forgets (h : LedgerStep db l db') (hnamed : l.call.WellFormed)
    (hlifetime : ∀ r ∈ db.proofs, r.expiresAt ≤ r.issuedAt + maxTtlSeconds) :
    (∃ D c, IssuedAs D c ⟨db, l, db'⟩) ∨ (∃ a x result, DecidesAs a x result ⟨db, l, db'⟩) ∨
      (l.issuedTag? = none ∧ db.Forgets db') := by
  -- no client has the empty id
  have hclients : l.issuedTag? = none → db.clients.get? [] = none → db'.clients.get? [] = none := by
    intro _ hnone
    have hstep := h.client []
    rw [hnone] at hstep
    generalize db'.clients.get? [] = o at hstep
    cases hstep with
    | same => rfl
    | created label named =>
      rw [label] at hnamed
      exact absurd named hnamed.clientId
  cases h.effect with
  | @create a x _ effect =>
    refine Or.inr (Or.inr ⟨rfl, forgets_of_same _ (hclients rfl) (same_proofs effect.proofs)
      effect.verifications effect.auditEvents ?_⟩)
    simp [auditRow]
  | @issue record check x committed _ effect =>
    exact Or.inl ⟨record.tokenDigest, committed, record, check, x, rfl, rfl, effect⟩
  | @consume a x result _ effect =>
    cases effect with
    | refused => exact Or.inr (Or.inr ⟨rfl, forgets_of_same [] id (same_proofs rfl) rfl
        (by simp) (by simp)⟩)
    | replayed => exact Or.inr (Or.inr ⟨rfl, forgets_of_same [] id (same_proofs rfl) rfl
        (by simp) (by simp)⟩)
    | decided effect => exact Or.inr (Or.inl ⟨a, x, result, rfl, effect⟩)
  | rotate effect =>
    refine Or.inr (Or.inr ⟨rfl, forgets_of_same _ (hclients rfl) (same_proofs effect.proofs)
      effect.verifications effect.auditEvents ?_⟩)
    simp [auditRow]
  | revoke effect =>
    cases effect with
    | already => exact Or.inr (Or.inr ⟨rfl, forgets_of_same [] id (same_proofs rfl) rfl
        (by simp) (by simp)⟩)
    | revoked _ _ _ _ _ proofs auditEvents _ _ verifications =>
      refine Or.inr (Or.inr ⟨rfl, forgets_of_same _ (hclients rfl)
        (shortened_proofs (fun r hr => hr.2) proofs) verifications auditEvents ?_⟩)
      simp [auditRow]
  | cleanup effect => exact Or.inr (Or.inr ⟨rfl, effect.forgets hlifetime⟩)
  | activate effect =>
    refine Or.inr (Or.inr ⟨rfl, forgets_of_same _ (hclients rfl)
      (shortened_proofs (fun r hr => hr) effect.proofs) effect.verifications effect.auditEvents ?_⟩)
    simp [auditRow]

/-! ### Steps that record -/

/-- A count after one more event. -/
theorem Ledger.auditCount_append {e : AuditRow}
    (h : db'.auditEvents.rows = db.auditEvents.rows ++ [e]) (kind : AuditKind) (tag : Str) :
    db'.auditCount kind tag =
      db.auditCount kind tag + if e.kind = kind ∧ e.proofTag = some tag then 1 else 0 := by
  simp [Ledger.auditCount, h, List.countP_append, List.countP_singleton]

/-- A tag that no event has is not counted. -/
theorem Ledger.Witnessed.auditCount_fresh (h : db.Witnessed cs) {tag : Str}
    (htag : tag ∉ issuedTags cs) (kind : AuditKind) : db.auditCount kind tag = 0 := by
  refine List.countP_eq_zero.mpr fun e he => ?_
  simp only [decide_eq_true_eq, not_and]
  exact fun _ he' => htag (h.auditTags e he tag he')

/-- **An issuance records a proof under a fresh tag.** -/
theorem Ledger.Witnessed.issue (h : db.Witnessed cs) {D : Str} {c : ProofRecord}
    (hi : IssuedAs D c ⟨db, l, db'⟩) (hproper : l.Proper)
    (htags : DistinctTags (cs ++ [⟨db, l, db'⟩]))
    (hreading : ∀ t ∈ l.lockReading?, 0 ≤ t) :
    db'.Witnessed (cs ++ [⟨db, l, db'⟩]) := by
  obtain ⟨record, check, x, rfl, -, effect⟩ := hi
  dsimp only at effect
  have hrecord : record.WellFormed := hproper.wellFormed
  have hcap := hproper.timely record check rfl
  have hnow : 0 ≤ x.now := hreading x.now rfl
  have hissued : issuedTags (cs ++ [⟨db, ⟨.issueProof record check, x, c⟩, db'⟩]) =
      issuedTags cs ++ [record.proofTag] := by
    rw [issuedTags_append]
    rfl
  rw [DistinctTags, hissued] at htags
  -- tags are not drawn twice, so none of the old rows has the new one
  have hfresh : record.proofTag ∉ issuedTags cs := fun hmem =>
    (List.nodup_append.mp htags).2.2 _ hmem _ List.mem_cons_self rfl
  have hold : ∀ {tag}, tag ∈ issuedTags cs → tag ∈ issuedTags cs ++ [record.proofTag] :=
    fun hmem => List.mem_append_left _ hmem
  have hc := effect.committed_eq
  have hctag : c.toRow.proofTag = record.proofTag := by rw [hc]; rfl
  have hrows : ∀ r' ∈ db'.proofs, r' ∈ db.proofs ∨ r' = c.toRow := by
    intro r' hr'
    rwa [Table.mem_def, effect.proofs, List.mem_append, List.mem_singleton] at hr'
  -- the issue is recorded once, under the new tag
  have hcount : ∀ kind tag, db'.auditCount kind tag = db.auditCount kind tag +
      if AuditKind.proofIssued = kind ∧ record.proofTag = tag then 1 else 0 := by
    intro kind tag
    rw [Ledger.auditCount_append effect.auditEvents]
    simp [auditRow]
  have hne : ∀ r ∈ db.proofs, record.proofTag ≠ r.proofTag := fun r hr heq =>
    hfresh (heq ▸ h.rowTags r hr)
  have haudit : ∀ e ∈ db'.auditEvents, e ∈ db.auditEvents ∨
      e.proofTag = some record.proofTag ∧ e.createdAt = x.now := by
    intro e he
    rw [Table.mem_def, effect.auditEvents, List.mem_append, List.mem_singleton] at he
    exact he.imp_right fun heq => by rw [heq]; exact ⟨rfl, rfl⟩
  -- each part is either an old fact about an old row or a fact about the new row
  refine ⟨⟨fun r' hr' t ht => ?_, fun r' hr' hlive v hv htag => ?_, fun r' hr' => ?_,
    fun r' hr' => ?_⟩, effect.clients ▸ h.named, fun r' hr' => ?_, fun r' hr' => ?_,
    fun r' hr' => ?_, fun r' hr' t ht => ?_, fun r' hr' => ?_, fun r₁ hr₁ r₂ hr₂ htag => ?_,
    fun v hv tag htag => ?_, fun e he tag htag => ?_, fun r' hr' e he htag => ?_⟩
  · rw [effect.verifications]
    rcases hrows r' hr' with hr | rfl
    · exact h.coherent.consumed r' hr t ht
    · cases ht
  · rw [effect.verifications] at hv
    rcases hrows r' hr' with hr | rfl
    · exact h.coherent.live r' hr hlive v hv htag
    · exact absurd (h.decisionTags v hv _ htag) (hctag ▸ hfresh)
  · rcases hrows r' hr' with hr | rfl
    · rw [hcount, if_neg fun hcond => hne r' hr hcond.2, Nat.add_zero]
      exact h.coherent.issuedOnce r' hr
    · rw [hcount, hctag, h.auditCount_fresh hfresh, if_pos ⟨rfl, rfl⟩]
  · rw [hcount, if_neg (by simp), Nat.add_zero]
    rcases hrows r' hr' with hr | rfl
    · exact h.coherent.verifiedOnce r' hr
    · rw [hctag, h.auditCount_fresh hfresh]
      rfl
  · rcases hrows r' hr' with hr | rfl
    · exact h.sound r' hr
    · have henc := effect.encodable
      simp only [List.all_cons, List.all_nil, Bool.and_true, Bool.and_eq_true] at henc
      rw [hc]
      exact ⟨⟨hrecord.proofTag, henc.2.1⟩, ⟨hrecord.subject, henc.2.2.2.2.2.1⟩,
        ⟨hrecord.purpose, henc.2.2.2.2.2.2.1⟩, ⟨hrecord.audience, henc.2.2.2.2.2.2.2⟩, hnow⟩
  · rcases hrows r' hr' with hr | rfl
    · obtain ⟨t, ht, hreading'⟩ := h.issued r' hr
      exact ⟨t, List.mem_append_left _ ht, hreading'⟩
    · exact ⟨_, List.mem_append_right _ List.mem_cons_self, by rw [hc]; rfl⟩
  · rcases hrows r' hr' with hr | rfl
    · exact h.lifetime r' hr
    · rw [hc]
      exact Int.add_le_add_left hcap _
  · rcases hrows r' hr' with hr | rfl
    · exact h.consumedLater r' hr t ht
    · cases ht
  · rw [hissued]
    rcases hrows r' hr' with hr | rfl
    · exact hold (h.rowTags r' hr)
    · exact hctag ▸ List.mem_append_right _ List.mem_cons_self
  · rcases hrows r₁ hr₁ with hr₁ | rfl <;> rcases hrows r₂ hr₂ with hr₂ | rfl
    · exact h.oneRow r₁ hr₁ r₂ hr₂ htag
    · exact absurd (hctag.symm.trans htag.symm) (hne r₁ hr₁)
    · exact absurd (hctag.symm.trans htag) (hne r₂ hr₂)
    · rfl
  · rw [hissued]
    exact hold (h.decisionTags v (effect.verifications ▸ hv) tag htag)
  · rw [hissued]
    rcases haudit e he with he | ⟨hrow, -⟩
    · exact hold (h.auditTags e he tag htag)
    · rw [hrow] at htag
      exact Option.some.inj htag ▸ List.mem_append_right _ List.mem_cons_self
  · rcases hrows r' hr' with hr | rfl <;> rcases haudit e he with he | ⟨hrow, hcreated⟩
    · exact h.auditLater r' hr e he htag
    · exact absurd (Option.some.inj (hrow.symm.trans htag)) (hne r' hr)
    · exact absurd (h.auditTags e he _ htag) (hctag ▸ hfresh)
    · rw [hcreated, hc]
      exact le_rfl

theorem ConsumeProof.decision_tag {a : ConsumeProof} {record : Option ProofRecord}
    {verificationId tag : Str} {now : ℤ}
    (h : (a.decision record verificationId now).witness.proofTag = some tag) :
    ∃ r, record = some r ∧ r.proofTag = tag := by
  unfold ConsumeProof.decision at h
  cases record with
  | none => cases h
  | some r =>
    refine ⟨r, rfl, ?_⟩
    dsimp only at h
    split_ifs at h <;> exact Option.some.inj h

/-- The proof rows after a decision: an accepted one is consumed, and its tag is that of the
result. -/
theorem DecideEffect.rows {a : ConsumeProof} {now : ℤ} {draws : Draws}
    {result : VerificationResult} (h : DecideEffect a now draws db result db') {r' : ProofRow}
    (hr' : r' ∈ db'.proofs) :
    (r' ∈ db.proofs ∧ (result.verified = true → r'.tokenDigest ≠ a.tokenDigest)) ∨
      result.verified = true ∧ ∃ r ∈ db.proofs, r.tokenDigest = a.tokenDigest ∧
        r.consumedAt = none ∧
        result = acceptedResult (proofFromRow r) draws.verificationId now ∧
        r' = { r with
          consumedAt := some now, consumeVerificationId := some draws.verificationId } := by
  rw [h.proofs] at hr'
  split_ifs at hr' with hverified
  · obtain ⟨r, hr, -, hlive, hopen, -, -, -, hresult⟩ := h.accepted hverified
    obtain ⟨hmem, hdigest⟩ := Table.get?_eq_some.mp hr
    obtain ⟨r₀, hr₀, rfl⟩ := Table.mem_update.mp hr'
    by_cases hsame : r₀.tokenDigest = a.tokenDigest
    · obtain rfl := Table.eq_of_key_eq hr₀ hmem (hsame.trans hdigest.symm)
      refine Or.inr ⟨hverified, r₀, hr₀, hdigest, hlive, hresult, ?_⟩
      rw [if_pos (by simpa using ⟨hdigest, hlive, hopen⟩)]
    · rw [if_neg (by simp [hsame])]
      exact Or.inl ⟨hr₀, fun _ => hsame⟩
  · exact Or.inl ⟨hr', fun hv => absurd hv hverified⟩

/-- A decision on a ledger where the tables fit together. -/
structure Ledger.Deciding (cs : List (Trans Ledger Commit)) (db : Ledger) (a : ConsumeProof)
    (now : ℤ) (draws : Draws) (result : VerificationResult) (db' : Ledger) : Prop where
  before : db.Witnessed cs
  effect : DecideEffect a now draws db result db'
  reading : 0 ≤ now
  later : ∀ r ∈ db.proofs, r.issuedAt ≤ now

namespace Ledger.Deciding

variable {a : ConsumeProof} {now : ℤ} {draws : Draws} {result : VerificationResult}

/-! ### What a decision writes -/

theorem verificationId (h : Deciding cs db a now draws result db') :
    result.witness.verificationId = draws.verificationId := h.effect.witness.1

/-- What was decided is what is read back. -/
theorem read_back (h : Deciding cs db a now draws result db') :
    resultFromJson (.ok (resultJson result)) = .ok result := by
  rw [resultFromJson_eq_ok, resultJson]
  exact VerificationResult.fromDict_persist_toDict (h.effect.wellFormed h.reading h.before.named
    h.before.sound fun r hr _ hlive => lt_of_le_of_lt (h.later r hr) hlive)

/-- The tag of a decision is that of the proof it is about. -/
theorem tagged (h : Deciding cs db a now draws result db') {tag : Str}
    (hwitness : result.witness.proofTag = some tag) :
    ∃ r ∈ db.proofs, r.tokenDigest = a.tokenDigest ∧ r.proofTag = tag := by
  rw [h.effect.result_eq] at hwitness
  obtain ⟨record, hrecord, rfl⟩ := ConsumeProof.decision_tag hwitness
  obtain ⟨r, hr, rfl⟩ := Option.map_eq_some_iff.mp hrecord
  obtain ⟨hmem, hdigest, -⟩ := Ledger.proofOf_eq_some.mp hr
  exact ⟨r, hmem, hdigest, rfl⟩

/-- A row that is not the accepted one has another tag. -/
theorem tag_ne (h : Deciding cs db a now draws result db') {r : ProofRow} (hr : r ∈ db.proofs)
    (hne : result.verified = true → r.tokenDigest ≠ a.tokenDigest)
    (hverified : result.verified = true) : result.witness.proofTag ≠ some r.proofTag := by
  intro hwitness
  obtain ⟨r₀, hr₀, hdigest, hsame⟩ := h.tagged hwitness
  exact hne hverified (h.before.oneRow r₀ hr₀ r hr hsame ▸ hdigest)

theorem mem_verifications (h : Deciding cs db a now draws result db') {v : VerificationRow} :
    v ∈ db'.verifications ↔ v ∈ db.verifications ∨ v = a.verificationRow result now := by
  rw [Table.mem_def, h.effect.verifications, List.mem_append, List.mem_singleton, Table.mem_def]

theorem auditEvent (h : Deciding cs db a now draws result db') {e : AuditRow}
    (he : e ∈ db'.auditEvents) : e ∈ db.auditEvents ∨
      e.proofTag = result.witness.proofTag ∧ e.createdAt = now := by
  rw [Table.mem_def, h.effect.auditEvents, List.mem_append, List.mem_singleton] at he
  exact he.imp_right fun heq => by rw [heq]; exact ⟨rfl, rfl⟩

theorem auditCount (h : Deciding cs db a now draws result db') (kind : AuditKind) (tag : Str) :
    db'.auditCount kind tag = db.auditCount kind tag +
      if (if result.verified then AuditKind.proofVerified else .proofRejected) = kind ∧
        result.witness.proofTag = some tag then 1 else 0 := by
  rw [Ledger.auditCount_append h.effect.auditEvents]
  rfl

theorem auditCount_issued (h : Deciding cs db a now draws result db') (tag : Str) :
    db'.auditCount .proofIssued tag = db.auditCount .proofIssued tag := by
  rw [h.auditCount, if_neg, Nat.add_zero]
  rintro ⟨hkind, -⟩
  split_ifs at hkind

/-- A decision only writes when and by which verification a proof was consumed. -/
theorem row_before (h : Deciding cs db a now draws result db') {r' : ProofRow}
    (hr' : r' ∈ db'.proofs) : ∃ r ∈ db.proofs, ∃ consumedAt consumeVerificationId,
      r' = { r with consumedAt, consumeVerificationId } := by
  rcases h.effect.rows hr' with ⟨hr, -⟩ | ⟨-, r, hr, -, -, -, hrow⟩
  · exact ⟨r', hr, r'.consumedAt, r'.consumeVerificationId, rfl⟩
  · exact ⟨r, hr, _, _, hrow⟩

/-! ### The tables after a decision -/

/-- A consumed proof has the one decision that names it. -/
theorem consumed (h : Deciding cs db a now draws result db') {r' : ProofRow}
    (hr' : r' ∈ db'.proofs) {t : ℤ} (ht : r'.consumedAt = some t) :
    ∃ v ∈ db'.verifications, r'.consumeVerificationId = some v.verificationId ∧
      (∀ v' ∈ db'.verifications,
        r'.consumeVerificationId = some v'.verificationId → v' = v) ∧
      v.createdAt = t ∧ resultFromJson (.ok v.resultJson) =
        .ok (acceptedResult (proofFromRow r') v.verificationId t) := by
  rcases h.effect.rows hr' with ⟨hr, -⟩ | ⟨hverified, r, hr, -, -, hresult, rfl⟩
  · obtain ⟨v, hv, hvid, hone, hcreated, hvread⟩ := h.before.coherent.consumed r' hr t ht
    refine ⟨v, h.mem_verifications.mpr (Or.inl hv), hvid, fun v' hv' hvid' => ?_, hcreated,
      hvread⟩
    rcases h.mem_verifications.mp hv' with hold | rfl
    · exact hone v' hold hvid'
    · exact absurd (Option.some.inj (hvid.symm.trans hvid')) (h.effect.freshId v hv)
  · refine ⟨_, h.mem_verifications.mpr (Or.inr rfl), congrArg some h.verificationId.symm,
      fun v' hv' hvid' => ?_, Option.some.inj ht, ?_⟩
    · rcases h.mem_verifications.mp hv' with hold | rfl
      · refine absurd ?_ (h.effect.freshId v' hold)
        rw [h.verificationId]
        exact (Option.some.inj hvid').symm
      · rfl
    · rw [← Option.some.inj ht]
      refine h.read_back.trans ?_
      rw [ConsumeProof.verificationRow, h.verificationId, hresult]
      rfl

/-- No decision about a proof that is not consumed accepted it. -/
theorem live (h : Deciding cs db a now draws result db') {r' : ProofRow} (hr' : r' ∈ db'.proofs)
    (hlive : r'.consumedAt = none) {v : VerificationRow} (hv : v ∈ db'.verifications)
    (hvtag : v.proofTag = some r'.proofTag) {result' : VerificationResult}
    (hread : resultFromJson (.ok v.resultJson) = .ok result') : result'.verified = false := by
  rcases h.effect.rows hr' with ⟨hr, hne⟩ | ⟨-, r, -, -, -, -, rfl⟩
  · rcases h.mem_verifications.mp hv with hold | rfl
    · exact h.before.coherent.live r' hr hlive v hold hvtag result' hread
    · obtain rfl := Except.ok.inj (h.read_back.symm.trans hread)
      exact Bool.eq_false_iff.mpr fun hverified => h.tag_ne hr hne hverified hvtag
  · cases hlive

theorem issuedOnce (h : Deciding cs db a now draws result db') {r' : ProofRow}
    (hr' : r' ∈ db'.proofs) : db'.auditCount .proofIssued r'.proofTag = 1 := by
  rw [h.auditCount_issued]
  obtain ⟨r, hr, _, _, rfl⟩ := h.row_before hr'
  exact h.before.coherent.issuedOnce r hr

theorem verifiedOnce (h : Deciding cs db a now draws result db') {r' : ProofRow}
    (hr' : r' ∈ db'.proofs) :
    db'.auditCount .proofVerified r'.proofTag = if r'.consumedAt = none then 0 else 1 := by
  rw [h.auditCount]
  rcases h.effect.rows hr' with ⟨hr, hne⟩ | ⟨hverified, r, hr, -, hlive, hresult, rfl⟩
  · rw [if_neg, Nat.add_zero]
    · exact h.before.coherent.verifiedOnce r' hr
    · rintro ⟨hkind, hwitness⟩
      split_ifs at hkind with hverified
      exact h.tag_ne hr hne hverified hwitness
  · have hold := h.before.coherent.verifiedOnce r hr
    rw [if_pos hlive] at hold
    rw [hold, if_pos ⟨if_pos hverified, by rw [hresult]; rfl⟩, if_neg (Option.some_ne_none _)]

theorem coherent (h : Deciding cs db a now draws result db') : db'.Coherent where
  consumed _ hr' _ ht := h.consumed hr' ht
  live _ hr' hlive _ hv hvtag _ hread := h.live hr' hlive hv hvtag hread
  issuedOnce _ hr' := h.issuedOnce hr'
  verifiedOnce _ hr' := h.verifiedOnce hr'

/-- Tags still name one row each: a decision keeps the tag and the digest of every row. -/
theorem oneRow (h : Deciding cs db a now draws result db') {r₁ r₂ : ProofRow}
    (hr₁ : r₁ ∈ db'.proofs) (hr₂ : r₂ ∈ db'.proofs) (hsame : r₁.proofTag = r₂.proofTag) :
    r₁ = r₂ := by
  obtain ⟨r, hr, _, _, hrow₁⟩ := h.row_before hr₁
  obtain ⟨r', hr', _, _, hrow₂⟩ := h.row_before hr₂
  have hrow := h.before.oneRow r hr r' hr' (by rw [hrow₁, hrow₂] at hsame; exact hsame)
  exact Table.eq_of_key_eq hr₁ hr₂ (by rw [hrow₁, hrow₂, hrow])

/-- A tag of an audit event is the tag of a proof. -/
theorem auditTag (h : Deciding cs db a now draws result db') {e : AuditRow}
    (he : e ∈ db'.auditEvents) {tag : Str} (hetag : e.proofTag = some tag) :
    tag ∈ issuedTags cs := by
  rcases h.auditEvent he with hold | ⟨hrow, -⟩
  · exact h.before.auditTags e hold tag hetag
  · obtain ⟨r, hr, -, rfl⟩ := h.tagged (hrow ▸ hetag)
    exact h.before.rowTags r hr

/-- So is the tag of a decision. -/
theorem decisionTag (h : Deciding cs db a now draws result db') {v : VerificationRow}
    (hv : v ∈ db'.verifications) {tag : Str} (hvtag : v.proofTag = some tag) :
    tag ∈ issuedTags cs := by
  rcases h.mem_verifications.mp hv with hold | rfl
  · exact h.before.decisionTags v hold tag hvtag
  · obtain ⟨r, hr, -, rfl⟩ := h.tagged hvtag
    exact h.before.rowTags r hr

theorem auditLater (h : Deciding cs db a now draws result db') {r' : ProofRow}
    (hr' : r' ∈ db'.proofs) {e : AuditRow} (he : e ∈ db'.auditEvents)
    (hetag : e.proofTag = some r'.proofTag) : r'.issuedAt ≤ e.createdAt := by
  obtain ⟨r, hr, _, _, rfl⟩ := h.row_before hr'
  rcases h.auditEvent he with he | ⟨-, hcreated⟩
  · exact h.before.auditLater r hr e he hetag
  · exact hcreated ▸ h.later r hr

end Ledger.Deciding

/-- **A decision is recorded in all tables.** -/
theorem Ledger.Witnessed.decide (h : db.Witnessed cs) {a : ConsumeProof} {x : Chance}
    {result : VerificationResult} (hd : DecidesAs a x result ⟨db, l, db'⟩)
    (hordered : ReadingsOrdered (cs ++ [⟨db, l, db'⟩]))
    (hreading : ∀ t ∈ l.lockReading?, 0 ≤ t) :
    db'.Witnessed (cs ++ [⟨db, l, db'⟩]) := by
  obtain ⟨hl, effect⟩ := hd
  dsimp only at hl effect
  subst hl
  have hlater : ∀ r ∈ db.proofs, r.issuedAt ≤ x.now := by
    intro r hr
    obtain ⟨t, ht, hissued⟩ := h.issued r hr
    exact (List.pairwise_append.mp hordered).2.2 t ht _ List.mem_cons_self _ hissued _ rfl
  have hd : Deciding cs db a x.now x.draws result db' := ⟨h, effect, hreading x.now rfl, hlater⟩
  have htags : issuedTags (cs ++ [⟨db, ⟨.consumeProof a, x, result⟩, db'⟩]) = issuedTags cs := by
    rw [issuedTags_append]
    exact List.append_nil _
  refine ⟨hd.coherent, effect.clients ▸ h.named, fun r' hr' => ?_, fun r' hr' => ?_,
    fun r' hr' => ?_, fun r' hr' t ht => ?_, fun r' hr' => ?_,
    fun r₁ hr₁ r₂ hr₂ hsame => hd.oneRow hr₁ hr₂ hsame, fun v hv tag hvtag => ?_,
    fun e he tag hetag => ?_, fun r' hr' e he hetag => hd.auditLater hr' he hetag⟩
  · obtain ⟨r, hr, _, _, rfl⟩ := hd.row_before hr'
    exact { h.sound r hr with }
  · obtain ⟨r, hr, _, _, rfl⟩ := hd.row_before hr'
    obtain ⟨t, ht, hissued⟩ := h.issued r hr
    exact ⟨t, List.mem_append_left _ ht, hissued⟩
  · obtain ⟨r, hr, _, _, rfl⟩ := hd.row_before hr'
    exact h.lifetime r hr
  · rcases effect.rows hr' with ⟨hr, -⟩ | ⟨-, r, hr, -, -, -, rfl⟩
    · exact h.consumedLater r' hr t ht
    · exact Option.some.inj ht ▸ hlater r hr
  · rw [htags]
    obtain ⟨r, hr, _, _, rfl⟩ := hd.row_before hr'
    exact h.rowTags r hr
  · rw [htags]
    exact hd.decisionTag hv hvtag
  · rw [htags]
    exact hd.auditTag he hetag

/-! ### Runs -/

theorem Ledger.witnessed_empty : Ledger.empty.Witnessed [] where
  coherent :=
    { consumed := fun _ hr => absurd hr Table.not_mem_empty
      live := fun _ hr => absurd hr Table.not_mem_empty
      issuedOnce := fun _ hr => absurd hr Table.not_mem_empty
      verifiedOnce := fun _ hr => absurd hr Table.not_mem_empty }
  named := rfl
  sound _ hr := absurd hr Table.not_mem_empty
  issued _ hr := absurd hr Table.not_mem_empty
  lifetime _ hr := absurd hr Table.not_mem_empty
  consumedLater _ hr := absurd hr Table.not_mem_empty
  rowTags _ hr := absurd hr Table.not_mem_empty
  oneRow _ hr := absurd hr Table.not_mem_empty
  decisionTags _ hv := absurd hv Table.not_mem_empty
  auditTags _ he := absurd he Table.not_mem_empty
  auditLater _ hr := absurd hr Table.not_mem_empty

/-- **Every step keeps the tables together.** -/
theorem Ledger.Witnessed.step (h : db.Witnessed cs) (hs : LedgerStep db l db')
    (hproper : l.Proper) (hordered : ReadingsOrdered (cs ++ [⟨db, l, db'⟩]))
    (htags : DistinctTags (cs ++ [⟨db, l, db'⟩])) (hreading : ∀ t ∈ l.lockReading?, 0 ≤ t) :
    db'.Witnessed (cs ++ [⟨db, l, db'⟩]) := by
  rcases hs.forgets hproper.wellFormed h.lifetime with ⟨D, c, hissued⟩ | ⟨a, x, result, hd⟩ |
      ⟨hnone, hforgets⟩
  · exact h.issue hissued hproper htags hreading
  · exact h.decide hd hordered hreading
  · refine h.forget hforgets (List.subset_append_left _ _) ?_
    rw [issuedTags_append]
    simp [issuedTags, hnone]

/-- **The tables fit together in every ledger** of an instance, restored or not. -/
theorem Lineage.witnessed {H : HashLib} {s : SystemState} {runs : List (List SystemTrans)}
    (h : Lineage H runs s) (hordered : ReadingsOrdered (lineageCommits runs))
    (hreadings : NonnegativeReadings (lineageCommits runs))
    (htags : DistinctTags (lineageCommits runs)) :
    s.world.ledger.Witnessed (lineageCommits runs) := by
  refine Lineage.history (P := fun cs db => ReadingsOrdered cs → NonnegativeReadings cs →
    DistinctTags cs → db.Witnessed cs) (fun _ _ _ => Ledger.witnessed_empty) ?_ ?_ h hordered
    hreadings htags
  · intro cs db hP hordered hreadings htags
    refine (hP hordered hreadings htags).forget ?_ (List.Subset.refl _) rfl
    refine forgets_of_same [] (fun hnone => ?_) (same_proofs (by simp)) (by simp)
      (by simp) (by simp)
    rwa [Store.backup_clients]
  · intro cs db l db' hP hs hproper hordered hreadings htags
    have hprefix := (List.pairwise_append.mp hordered).1
    have hnodup : DistinctTags cs := by
      rw [DistinctTags, issuedTags_append] at htags
      exact (List.nodup_append.mp htags).1
    refine (hP hprefix (fun c hc => hreadings c (List.mem_append_left _ hc)) hnodup).step hs hproper
      hordered htags ?_
    exact hreadings ⟨db, l, db'⟩ (List.mem_append_right _ List.mem_cons_self)

end Onceproof

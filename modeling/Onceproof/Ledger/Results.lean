import Onceproof.Ledger.Lineage
import Onceproof.Ledger.Decisions

/-!
# Results that are read back

A decision is stored as JSON text and read back by a strict reader. `Ledger.Reportable` is what
the rows of a ledger have to satisfy for every decision on them to survive this: their texts can
be stored, and a proof of an active client expires after it was issued. The second part needs no
order of the readings, since only the end of a client shortens a proof.

`decided_read_back` and `Lineage.decided_read_back` follow for every decision of a run and of a
lineage whose readings are not negative.
-/

namespace Onceproof

/-! ### Results made from rows -/

theorem rejectedResult_wellFormed {reason : RejectionReason} {verificationId : Str}
    {proofTag clientId : Option Str} {now : ℤ} (hid : Storable verificationId)
    (htag : ∀ t, proofTag = some t → Storable t)
    (hclient : ∀ t, clientId = some t → Storable t) (hnow : 0 ≤ now) :
    (rejectedResult reason verificationId proofTag clientId now).WellFormed where
  verificationId := hid
  proofTag := htag
  clientId := hclient
  decidedAt := hnow
  shape := Or.inr ⟨rfl, rfl, reason, rfl, rfl, rfl⟩

/-- A proof row whose texts can be stored in a result. -/
structure ProofRow.Sound (r : ProofRow) : Prop where
  proofTag : Onceproof.Storable r.proofTag
  subject : Onceproof.Storable r.subject
  purpose : Onceproof.Storable r.purpose
  audience : Onceproof.Storable r.audience
  issuedAt : 0 ≤ r.issuedAt

theorem acceptedResult_wellFormed {r : ProofRow} {verificationId : Str} {now : ℤ}
    (hid : Storable verificationId) (hclient : Storable r.clientId) (hr : r.Sound)
    (hlife : r.issuedAt < r.expiresAt) (hnow : 0 ≤ now) :
    (acceptedResult (proofFromRow r) verificationId now).WellFormed where
  verificationId := hid
  proofTag _ ht := Option.some.inj ht ▸ hr.proofTag
  clientId _ ht := Option.some.inj ht ▸ hclient
  decidedAt := hnow
  shape := Or.inl ⟨rfl, rfl, rfl, rfl, Option.some_ne_none _, _, rfl,
    ⟨hclient, hr.subject, hr.purpose, hr.audience, hr.issuedAt, hlife⟩, rfl⟩

theorem DecideEffect.wellFormed {a : ConsumeProof} {now : ℤ} {draws : Draws} {db db' : Ledger}
    {result : VerificationResult} (h : DecideEffect a now draws db result db') (hnow : 0 ≤ now)
    (hnamed : db.clients.get? [] = none) (hrows : ∀ r ∈ db.proofs, r.Sound)
    (hlife : ∀ r ∈ db.proofs, r.clientId = a.clientId → now < r.expiresAt →
      r.issuedAt < r.expiresAt) : result.WellFormed := by
  obtain ⟨credential, client, hacc, -⟩ := h.authorized
  have hclient : Storable a.clientId := by
    have henc := h.encodable
    simp only [List.cons_append, List.all_cons, Bool.and_eq_true] at henc
    refine ⟨fun hnil => ?_, henc.1⟩
    rw [← hnil, hacc.lookup.2.2] at hnamed
    cases hnamed
  have hclient' : ∀ t, some a.clientId = some t → Storable t :=
    fun t ht => Option.some.inj ht ▸ hclient
  have hid : Storable draws.verificationId := by
    refine ⟨List.append_ne_nil_of_left_ne_nil (by decide) _, ?_⟩
    rw [Draws.verificationId, encodable_append]
    exact Bool.and_eq_true_iff.mpr ⟨by decide, encodable_hexlify _⟩
  rw [h.result_eq]
  unfold ConsumeProof.decision
  cases hr : db.proofOf a.clientId a.tokenDigest with
  | none => exact rejectedResult_wellFormed hid (fun t ht => by cases ht) hclient' hnow
  | some r =>
    obtain ⟨hmem, -, howner⟩ := Ledger.proofOf_eq_some.mp hr
    have hsound := hrows r hmem
    have htag : ∀ t, some (proofFromRow r).proofTag = some t → Storable t :=
      fun t ht => Option.some.inj ht ▸ hsound.proofTag
    dsimp only [Option.map_some]
    split_ifs with hconsumed hexpired hbinding
    · exact rejectedResult_wellFormed hid htag hclient' hnow
    · exact rejectedResult_wellFormed hid htag hclient' hnow
    · exact rejectedResult_wellFormed hid htag hclient' hnow
    · exact acceptedResult_wellFormed hid (howner ▸ hclient) hsound
        (hlife r hmem howner (not_le.mp hexpired)) hnow

/-! ### The invariant -/

/-- A ledger whose decisions can all be stored and read back. -/
structure Ledger.Reportable (db : Ledger) : Prop where
  named : db.clients.get? [] = none
  sound : ∀ r ∈ db.proofs, r.Sound
  owned : ∀ r ∈ db.proofs, (db.clients.get? r.clientId).isSome = true
  lifetime : ∀ r ∈ db.proofs, ∀ c, db.clients.get? r.clientId = some c → c.status = .active →
    r.issuedAt < r.expiresAt

variable {db db' : Ledger} {l : Commit} {cs : List (Trans Ledger Commit)}

theorem Ledger.reportable_empty : Ledger.empty.Reportable where
  named := rfl
  sound _ hr := by cases hr
  owned _ hr := by cases hr
  lifetime _ hr := by cases hr

/-- Well formed commits create no client without a name. -/
theorem LedgerStep.named (h : LedgerStep db l db') (hwf : l.call.WellFormed)
    (hnamed : db.clients.get? [] = none) : db'.clients.get? [] = none := by
  have hstep := h.client []
  rw [hnamed] at hstep
  generalize ho : db'.clients.get? [] = o at hstep
  cases hstep with
  | same => rfl
  | created label named =>
    rw [label] at hwf
    exact absurd named hwf.clientId

/-- An active client was active before the step, or is new. -/
theorem LedgerStep.active_before (h : LedgerStep db l db') {id : Str} {c' : ClientRow}
    (hc' : db'.clients.get? id = some c') (hactive : c'.status = .active) :
    db.clients.get? id = none ∨ ∃ c, db.clients.get? id = some c ∧ c.status = .active := by
  have hstep := h.client id
  rw [hc'] at hstep
  generalize ho : db.clients.get? id = o at hstep
  cases hstep with
  | same => exact Or.inr ⟨c', rfl, hactive⟩
  | created => exact Or.inl rfl
  | revoked => cases hactive

/-- The client whose proofs a step shortens is not active afterwards. -/
theorem LedgerStep.shortened_inactive (h : LedgerStep db l db') {id : Str} {now : ℤ}
    (hlabel : (∃ x, l = ⟨.revokeClient id now, x, true⟩) ∨
      ∃ x, l = ⟨.activateRestoredBackup now, x, ()⟩) {c' : ClientRow}
    (hc' : db'.clients.get? id = some c') : c'.status = .revoked := by
  rcases hlabel with ⟨x, rfl⟩ | ⟨x, rfl⟩
  · cases h.effect with
    | revoke effect =>
      cases effect with
      | revoked operational client found clients =>
        rw [Table.get?_map clients (fun c => by split_ifs <;> rfl)] at hc'
        obtain ⟨c, hc, rfl⟩ := Option.map_eq_some_iff.mp hc'
        rw [if_pos (Table.get?_eq_some.mp hc).2]
  · cases h.effect with
    | activate effect =>
      rw [Table.get?_map effect.clients (fun c => rfl)] at hc'
      obtain ⟨c, -, rfl⟩ := Option.map_eq_some_iff.mp hc'
      rfl

/-- A committed record as a row of the ledger. -/
theorem IssueEffect.sound {record committed : ProofRecord} {check : Str} {now : ℤ} {event : Bytes}
    (h : IssueEffect record check now event db committed db') (hwf : record.WellFormed)
    (hnow : 0 ≤ now) : committed.toRow.Sound := by
  have henc := h.encodable
  simp only [List.all_cons, List.all_nil, Bool.and_true, Bool.and_eq_true] at henc
  rw [h.committed_eq]
  exact ⟨⟨hwf.proofTag, henc.2.1⟩, ⟨hwf.subject, henc.2.2.2.2.2.1⟩,
    ⟨hwf.purpose, henc.2.2.2.2.2.2.1⟩, ⟨hwf.audience, henc.2.2.2.2.2.2.2⟩, hnow⟩

/-- **Step lemma.** -/
theorem Ledger.Reportable.step (h : db.Reportable) (hs : LedgerStep db l db')
    (hwf : l.call.WellFormed) (hreading : ∀ t ∈ l.lockReading?, 0 ≤ t) : db'.Reportable := by
  have hrow : ∀ r' ∈ db'.proofs, r'.Sound ∧ (db'.clients.get? r'.clientId).isSome = true ∧
      ∀ c, db'.clients.get? r'.clientId = some c → c.status = .active →
        r'.issuedAt < r'.expiresAt := by
    intro r' hr'
    have hstep := hs.proof r'.tokenDigest
    rw [Table.get?_eq_some.mpr ⟨hr', rfl⟩] at hstep
    generalize ho : db.proofs.get? r'.tokenDigest = o at hstep
    -- what an older row with the same client and lifetime says about a later one
    have hold : ∀ r ∈ db.proofs, r'.clientId = r.clientId → r'.issuedAt = r.issuedAt →
        r'.expiresAt = r.expiresAt → (db'.clients.get? r'.clientId).isSome = true ∧
          ∀ c, db'.clients.get? r'.clientId = some c → c.status = .active →
            r'.issuedAt < r'.expiresAt := by
      intro r hr hclient hissued hexpires
      have howned := h.owned r hr
      rw [hclient, hissued, hexpires]
      refine ⟨hs.client_kept howned, fun c hc hactive => ?_⟩
      rcases hs.active_before hc hactive with hnone | ⟨c₀, hc₀, hactive₀⟩
      · rw [hnone] at howned
        cases howned
      · exact h.lifetime r hr c₀ hc₀ hactive₀
    cases hstep with
    | same =>
      obtain ⟨hr, -⟩ := Table.get?_eq_some.mp ho
      exact ⟨h.sound r' hr, hold r' hr rfl rfl rfl⟩
    | issued label digest effect =>
      rename_i record check x committed
      have hrecord : record.WellFormed := by rwa [label] at hwf
      obtain ⟨credential, client, hacc, -⟩ := effect.authorized
      have hlife := hrecord.ttl
      have hnow : 0 ≤ x.now := hreading _ (by rw [label]; rfl)
      refine ⟨effect.sound hrecord hnow, ?_, fun _ _ _ => ?_⟩
      · rw [effect.committed_eq, effect.clients]
        exact Option.isSome_iff_exists.mpr ⟨client, hacc.lookup.2.2⟩
      · rw [effect.committed_eq]
        simp only [ProofRecord.toRow]
        omega
    | consumed label digest effect verified live unexpired =>
      rename_i a x result r
      obtain ⟨hr, -⟩ := Table.get?_eq_some.mp ho
      have hsound := h.sound r hr
      exact ⟨⟨hsound.proofTag, hsound.subject, hsound.purpose, hsound.audience, hsound.issuedAt⟩,
        hold r hr rfl rfl rfl⟩
    | shortened now live label =>
      rename_i r
      obtain ⟨hr, -⟩ := Table.get?_eq_some.mp ho
      have hsound := h.sound r hr
      refine ⟨⟨hsound.proofTag, hsound.subject, hsound.purpose, hsound.audience, hsound.issuedAt⟩,
        hs.client_kept (h.owned r hr), fun c hc hactive => ?_⟩
      rw [hs.shortened_inactive label hc] at hactive
      cases hactive
  exact ⟨hs.named hwf h.named, fun r hr => (hrow r hr).1, fun r hr => (hrow r hr).2.1,
    fun r hr => (hrow r hr).2.2⟩

/-! ### Runs -/

/-- **A stored result is read back as it was decided**, if the clock never was negative. -/
theorem DecidesAs.read_back (h : db.Reportable) {a : ConsumeProof} {x : Chance}
    {result : VerificationResult} (hd : DecidesAs a x result ⟨db, l, db'⟩)
    (hreading : ∀ t ∈ l.lockReading?, 0 ≤ t) :
    resultFromJson (.ok (resultJson result)) = .ok result := by
  rw [resultFromJson_eq_ok, resultJson]
  have hnow : 0 ≤ x.now := hreading _ (by rw [show l = _ from hd.1]; rfl)
  refine VerificationResult.fromDict_persist_toDict
    (hd.2.wellFormed hnow h.named h.sound fun r hr howner hlive => ?_)
  obtain ⟨credential, client, hacc, -⟩ := hd.2.authorized
  exact h.lifetime r hr client (howner ▸ hacc.lookup.2.2) hacc.active

/-- In a run from a reportable ledger, every decision is read back as it was made. -/
theorem decided_read_back {db₀ : Ledger} (h : Run LedgerStep db₀ cs db) (h₀ : db₀.Reportable)
    (hwf : ∀ t ∈ cs, t.label.call.WellFormed) (hreadings : NonnegativeReadings cs)
    {t : Trans Ledger Commit} (ht : t ∈ cs) {a : ConsumeProof} {x : Chance}
    {result : VerificationResult} (hd : DecidesAs a x result t) :
    resultFromJson (.ok (resultJson result)) = .ok result := by
  obtain ⟨cs₁, cs₂, rfl⟩ := List.append_of_mem ht
  have hreportable : t.src.Reportable := by
    refine h.of_cut.1.kept (fun u hu hI hs => ?_) h₀
    have hmem := List.mem_append_left (t :: cs₂) hu
    exact hI.step hs (hwf u hmem) (hreadings u hmem)
  exact hd.read_back hreportable (hreadings t ht)

/-- In a lineage, every decision is read back as it was made, and the ledger stays reportable. -/
theorem Lineage.decided_read_back {H : HashLib} {runs : List (List SystemTrans)} {s : SystemState}
    (h : Lineage H runs s) (hreadings : NonnegativeReadings (lineageCommits runs)) :
    s.world.ledger.Reportable ∧ ∀ t ∈ lineageCommits runs, ∀ a x result, DecidesAs a x result t →
      resultFromJson (.ok (resultJson result)) = .ok result := by
  refine Lineage.history (P := fun cs db => NonnegativeReadings cs → db.Reportable ∧
    ∀ t ∈ cs, ∀ a x result, DecidesAs a x result t →
      resultFromJson (.ok (resultJson result)) = .ok result) (fun _ => ?_) ?_ ?_ h hreadings
  · exact ⟨Ledger.reportable_empty, fun t ht => by cases ht⟩
  · intro cs db hP hreadings
    obtain ⟨hdb, hcs⟩ := hP hreadings
    refine ⟨⟨?_, ?_, ?_, ?_⟩, hcs⟩ <;> simp only [Store.backup_clients, Store.backup_proofs]
    · exact hdb.named
    · exact hdb.sound
    · exact hdb.owned
    · exact hdb.lifetime
  · intro cs db l db' hP hs hproper hreadings
    have hlast := hreadings ⟨db, l, db'⟩ (List.mem_append_right _ List.mem_cons_self)
    obtain ⟨hdb, hcs⟩ := hP fun c hc => hreadings c (List.mem_append_left _ hc)
    refine ⟨hdb.step hs hproper.wellFormed hlast, fun t ht a x result hd => ?_⟩
    rcases List.mem_append.mp ht with ht | ht
    · exact hcs t ht a x result hd
    · obtain rfl := List.mem_singleton.mp ht
      exact hd.read_back hdb hlast

end Onceproof

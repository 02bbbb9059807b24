import Onceproof.Ledger.Isolation
import Onceproof.Ledger.Verifications

/-!
# Ledgers that descend from a backup

A backup is sealed. A ledger that descends from it (`Ledger.DescendsFrom`) holds no rows but those
of the backup until it is activated, and the activation ends the authority of every client of the
backup for good. Since every proof and every stored decision belongs to a client of its ledger
(`Ledger.Housed`), the rows that a restored instance acts on were all written by its own run:
`RestoredFrom.decided` and `RestoredFrom.issued` find the commits that wrote them.
-/

namespace Onceproof

variable {H : HashLib} {b db db' : Ledger} {l : Commit} {cs : List (Trans Ledger Commit)}
variable {id : Str}

/-! ### Rows and their clients -/

/-- Every proof and every stored decision belongs to a client of the ledger. -/
structure Ledger.Housed (db : Ledger) : Prop where
  proofs : ∀ r ∈ db.proofs, (db.clients.get? r.clientId).isSome = true
  verifications : ∀ v ∈ db.verifications, (db.clients.get? v.clientId).isSome = true

theorem Ledger.housed_empty : Ledger.empty.Housed :=
  ⟨fun _ hr => absurd hr Table.not_mem_empty, fun _ hv => absurd hv Table.not_mem_empty⟩

/-- A row is one of the record that it is read as. -/
theorem ProofRow.of_proofFromRow (r : ProofRow) : r.Of (proofFromRow r) :=
  ⟨rfl, rfl, rfl, rfl, rfl, rfl, rfl, rfl, rfl, le_rfl⟩

theorem Ledger.Accepted.client {role : Role} {credentialId : Str} {now : ℤ}
    (h : db.Accepted role credentialId id now) : (db.clients.get? id).isSome = true := by
  obtain ⟨credential, client, haccepts⟩ := h
  rw [haccepts.lookup.2.2]
  rfl

theorem DecideEffect.accepts {a : ConsumeProof} {now : ℤ} {draws : Draws}
    {result : VerificationResult} (h : DecideEffect a now draws db result db') :
    db.Accepted .verification a.credentialId a.clientId now := by
  obtain ⟨credential, client, haccepts, -⟩ := h.authorized
  exact ⟨credential, client, haccepts⟩

/-- **Step lemma**: rows are written for clients of the ledger, and no client is forgotten. -/
theorem Ledger.Housed.step (h : db.Housed) (hs : LedgerStep db l db') : db'.Housed := by
  refine ⟨fun r' hr' => ?_, fun v hv => hs.client_kept ?_⟩
  · have hrow : db'.proofs.get? r'.tokenDigest = some r' := Table.get?_eq_some.mpr ⟨hr', rfl⟩
    rcases hs.proof_origin hrow with ⟨c, ⟨record, check, x, -, -, effect⟩, rfl⟩ | ⟨r, hr, hof⟩
    · obtain ⟨credential, client, haccepts, -⟩ := effect.authorized
      have howner : c.toRow.clientId = record.clientId := by
        rw [effect.committed_eq]
        rfl
      rw [howner]
      exact hs.client_kept (Ledger.Accepted.client ⟨credential, client, haccepts⟩)
    · have howner : r'.clientId = r.clientId := (hof _ r.of_proofFromRow).clientId
      rw [howner]
      exact hs.client_kept (h.proofs r (Table.get?_eq_some.mp hr).1)
  · rcases hs.verification_origin hv with hv | ⟨a, x, result, ⟨-, effect⟩, rfl⟩
    · exact h.verifications v hv
    · exact effect.accepts.client

theorem Ledger.Housed.backup (h : db.Housed) : (Store.backup db).Housed := by
  refine ⟨fun r hr => ?_, fun v hv => ?_⟩
  · rw [Store.backup_clients]
    exact h.proofs r (Store.backup_proofs db ▸ hr)
  · rw [Store.backup_clients]
    exact h.verifications v (Store.backup_verifications db ▸ hv)

/-! ### Commits of a sealed ledger -/

/-- The call that breaks the seal. -/
def StoreCall.Activates : StoreCall → Prop
  | .activateRestoredBackup _ => True
  | _ => False

instance : DecidablePred StoreCall.Activates := fun c => by
  unfold StoreCall.Activates
  split <;> infer_instance

/-- **A sealed ledger** commits cleanups and its activation, and nothing else. -/
theorem LedgerStep.of_sealed (hs : LedgerStep db l db') (hsealed : db.restoreRequired = true) :
    (∃ now, l.call = .cleanup now) ∨ l.call.Activates := by
  have hclosed : db.restoreRequired ≠ false := by simp [hsealed]
  cases hs.effect with
  | create effect => exact absurd effect.operational hclosed
  | issue effect => exact absurd effect.operational hclosed
  | consume effect =>
    cases effect with
    | refused operational => exact absurd operational hclosed
    | replayed operational => exact absurd operational hclosed
    | decided effect => exact absurd effect.operational hclosed
  | rotate effect => exact absurd effect.operational hclosed
  | revoke effect =>
    cases effect with
    | already operational => exact absurd operational hclosed
    | revoked operational => exact absurd operational hclosed
  | @cleanup now => exact Or.inl ⟨now, rfl⟩
  | activate => exact Or.inr trivial

/-- The seal is broken by an activation only. -/
theorem exists_activation (h : Run LedgerStep b cs db) (hsealed : b.restoreRequired = true)
    (hopen : db.restoreRequired = false) : ∃ t ∈ cs, t.label.call.Activates := by
  by_contra hnone
  push Not at hnone
  have hstill : db.restoreRequired = true := by
    refine h.kept (I := fun db => db.restoreRequired = true) (fun t ht hI hs => ?_) hsealed
    rcases hs.restoreRequired with hsame | ⟨⟨now, x, hl⟩, -⟩
    · exact hsame.trans hI
    · exact absurd (by rw [hl]; trivial) (hnone t ht)
  rw [hopen] at hstill
  cases hstill

/-! ### Descent -/

/-- A ledger in which no row is left that is not one of `b`, in any table but that of the
maintenance, where a cleanup notes its time. -/
structure Ledger.RemainsOf (db b : Ledger) : Prop where
  clients : db.clients = b.clients
  hashKeys : db.hashKeys = b.hashKeys
  credentials : ∀ c ∈ db.credentials, c ∈ b.credentials
  proofs : ∀ r ∈ db.proofs, r ∈ b.proofs
  verifications : ∀ v ∈ db.verifications, v ∈ b.verifications
  auditEvents : ∀ e ∈ db.auditEvents, e ∈ b.auditEvents
  rateEvents : ∀ e ∈ db.rateEvents, e ∈ b.rateEvents

theorem Ledger.RemainsOf.refl (b : Ledger) : b.RemainsOf b :=
  ⟨rfl, rfl, fun _ => id, fun _ => id, fun _ => id, fun _ => id, fun _ => id⟩

/-- A cleanup writes no row. -/
theorem Ledger.RemainsOf.cleanup {now : ℤ} (h : db.RemainsOf b)
    (effect : CleanupEffect now db db') :
    db'.RemainsOf b where
  clients := effect.clients.trans h.clients
  hashKeys := effect.hashKeys.trans h.hashKeys
  credentials := Table.forall_filter h.credentials effect.credentials
  proofs := Table.forall_filter h.proofs effect.proofs
  verifications := Table.forall_filter h.verifications effect.verifications
  auditEvents := Table.forall_filter h.auditEvents effect.auditEvents
  rateEvents e he := h.rateEvents e (List.mem_of_mem_filter (effect.rateEvents ▸ he))

/-- What is left of the sealed ledger `b`: nothing was added while the seal holds, and no client of
`b` has any authority after it was broken. -/
structure Ledger.DescendsFrom (db b : Ledger) : Prop where
  dormant : db.restoreRequired = true → db.RemainsOf b
  activated : db.restoreRequired = false → ∀ id, (b.clients.get? id).isSome = true → db.Revoked id

theorem Ledger.DescendsFrom.refl (hsealed : b.restoreRequired = true) : b.DescendsFrom b := by
  refine ⟨fun _ => .refl b, fun hopen => ?_⟩
  rw [hsealed] at hopen
  cases hopen

/-- An activation ends the authority of every client. -/
theorem ActivateEffect.revokes {now : ℤ} {event : Bytes} (h : ActivateEffect now event db db')
    (hid : (db.clients.get? id).isSome = true) : db'.Revoked id := by
  obtain ⟨client, hclient⟩ := Option.isSome_iff_exists.mp hid
  have hclient' := Table.get?_map h.clients (fun _ => rfl) id
  rw [hclient] at hclient'
  refine ⟨⟨_, hclient', rfl⟩, fun c hc _ => ?_⟩
  rw [Table.mem_def, h.credentials] at hc
  obtain ⟨r, -, rfl⟩ := List.mem_map.mp hc
  rfl

/-- **Step lemma.** -/
theorem Ledger.DescendsFrom.step (h : db.DescendsFrom b) (hs : LedgerStep db l db')
    (hwf : l.call.WellFormed) : db'.DescendsFrom b := by
  cases hseal : db.restoreRequired with
  | false =>
    have hopen : db'.restoreRequired = false := by
      rcases hs.restoreRequired with hsame | ⟨-, -, hopen⟩
      · exact hsame.trans hseal
      · exact hopen
    refine ⟨fun hclosed => ?_, fun _ id hid => (h.activated hseal id hid).step hs hwf⟩
    rw [hopen] at hclosed
    cases hclosed
  | true =>
    have hremains := h.dormant hseal
    have hcall := hs.of_sealed hseal
    cases hs.effect with
    | cleanup effect =>
      refine ⟨fun _ => hremains.cleanup effect, fun hopen => ?_⟩
      rw [effect.restoreRequired, hseal] at hopen
      cases hopen
    | activate effect =>
      refine ⟨fun hclosed => ?_, fun _ id hid => effect.revokes (hremains.clients ▸ hid)⟩
      rw [effect.restoreRequired] at hclosed
      cases hclosed
    | _ => simp [StoreCall.Activates] at hcall

/-- A client that is accepted is not one of the backup. -/
theorem Ledger.DescendsFrom.foreign (h : db.DescendsFrom b) {role : Role} {credentialId : Str}
    {now : ℤ} (hopen : db.restoreRequired = false)
    (haccepted : db.Accepted role credentialId id now) : b.clients.get? id = none := by
  rw [← Option.not_isSome_iff_eq_none]
  intro hid
  exact (h.activated hopen id hid).not_accepted role credentialId now haccepted

/-- A commit about a client that changes nothing: a verification that refuses the credential, or a
revocation that was done before. -/
inductive Commit.Powerless (id : Str) : Commit → Prop
  | refused {a : ConsumeProof} {x : Chance} {result : VerificationResult} (owner : a.clientId = id)
      (refused : result.verified = false) : Powerless id ⟨.consumeProof a, x, result⟩
  | repeated (now : ℤ) (x : Chance) : Powerless id ⟨.revokeClient id now, x, false⟩

/-- **A revoked client is powerless**. -/
theorem LedgerStep.powerless (hs : LedgerStep db l db') (h : db.Revoked id)
    (hl : l.call.client? = some id) : l.Powerless id ∧ db' = db := by
  obtain ⟨client, hclient, hrevoked⟩ := h.client
  cases hs.effect with
  | create effect =>
    obtain rfl := Option.some.inj hl
    obtain ⟨row, -, -, hfresh, -⟩ := effect.clients
    -- the id is taken
    exact absurd (Table.get?_eq_some.mp hclient).2 (hfresh client (Table.get?_eq_some.mp hclient).1)
  | issue effect =>
    obtain rfl := Option.some.inj hl
    obtain ⟨credential, client, haccepts, -⟩ := effect.authorized
    exact absurd ⟨credential, client, haccepts⟩ (h.not_accepted _ _ _)
  | consume effect =>
    obtain rfl := Option.some.inj hl
    cases effect with
    | refused => exact ⟨.refused rfl rfl, rfl⟩
    | replayed _ accepted => exact absurd accepted (h.not_accepted _ _ _)
    | decided effect => exact absurd effect.accepts (h.not_accepted _ _ _)
  | rotate effect =>
    obtain rfl := Option.some.inj hl
    obtain ⟨client', hclient', hactive⟩ := effect.active
    rw [hclient] at hclient'
    rw [← Option.some.inj hclient', hrevoked] at hactive
    cases hactive
  | @revoke _ now x _ _ effect =>
    obtain rfl := Option.some.inj hl
    have hreply := hs.outcome.symm.trans (Store.revokeClient_outcome _ _ _ _)
    cases effect with
    | already => exact ⟨.repeated now x, rfl⟩
    | revoked operational =>
      simp only [Ledger.revokeOutcome, operational, hclient, hrevoked, binding, if_true, if_false,
        Bool.false_eq_true] at hreply
      split_ifs at hreply
      cases hreply
  | cleanup => cases hl
  | activate => cases hl

/-! ### Verified results -/

/-- Where a verified result comes from: a decision of the run, or a row that was stored under the
key of the request for a client that was accepted before. -/
inductive VerifiedBy (H : HashLib) (tid : ℕ) (σ : List SystemTrans) (q : VerifyRequest)
    (result : VerificationResult) : Prop
  | decided {a : ConsumeProof} {x : Chance} {t : Trans Ledger Commit}
      (args : VerifyArgs H q (acted tid σ) a) (mem : t ∈ commits σ)
      (decides : DecidesAs a x result t) : VerifiedBy H tid σ q result
  | stored {a : ConsumeProof} {u v : SystemTrans} {credentialId key : Str} {now : ℤ}
      {row : VerificationRow} (args : VerifyArgs H q (acted tid σ) a) (before : u ∈ σ)
      (operational : u.src.world.ledger.restoreRequired = false)
      (accepted : u.src.world.ledger.Accepted .verification credentialId a.clientId now)
      (mem : v ∈ σ) (found : v.src.world.ledger.idempotent a.clientId key = some row)
      (same : row.requestFingerprint = a.requestFingerprint)
      (read : resultFromJson (.ok row.resultJson) = .ok result) : VerifiedBy H tid σ q result

variable {w : World} {σ ρ τ : List SystemTrans} {u : SystemTrans} {s s' : SystemState}
variable {tid pid : ℕ} {q : VerifyRequest} {result : VerificationResult}

/-- A thread that looks a credential up has found the ledger without a seal before. -/
theorem operational_of_joined (h : SystemRunFrom H w (σ ++ u :: ρ) s) {r : Request} {id : Str}
    {i : Choice} {x : (Op.joined id).Ans} (hl : u.label = .act tid pid r (.joined id) i x) :
    u.src.world.ledger.restoreRequired = false := by
  obtain ⟨v, hv, p, r', i', hvl⟩ := mem_acted.mp (h.act hl).2
  obtain ⟨σ₁, σ₂, rfl⟩ := List.append_of_mem hv
  have hbefore := h.cut.1
  have hopen : v.src.world.ledger.restoreRequired = false :=
    (Op.exec_restoreRequired (hbefore.exec hv hvl)).symm
  obtain ⟨-, hstep, hrest⟩ := hbefore.cut
  have hsame : v.dst.world.ledger = v.src.world.ledger := by
    refine Op.exec_ledger (hbefore.exec hv hvl) fun call hcall => ?_
    cases hcall
  exact run_unsealed (ledgerRun hrest) (hsame ▸ hopen)

/-- **Where a verified result comes from.** -/
theorem verifiedBy (h : SystemRunFrom H w (σ ++ u :: ρ) s)
    (hl : u.label = .ret tid pid (.api (.verifyProof q)) (.ok (.verification result)))
    (hverified : result.verified = true) : VerifiedBy H tid σ q result := by
  obtain ⟨y, hy, houtcome⟩ := (h.ret hl).2
  obtain rfl : y = .ok result := by
    cases y with
    | error e => cases hy
    | ok y => rw [Outcome.verification.inj (Except.ok.inj hy)]
  cases houtcome with
  | rejected => cases hverified
  | @cached a result cleans args cached =>
    cases cached with
    | @replayed key row result keyed found same read =>
      obtain ⟨v, hv, p, r, i, hvl⟩ := mem_acted.mp found
      have hrow := Op.exec_idempotent (h.exec (List.mem_append_left _ hv) hvl)
      -- the stored answer was read after the credential was joined
      obtain ⟨σ₁, σ₂, rfl⟩ := List.append_of_mem hv
      have hcut : (σ₁ ++ v :: σ₂) ++ u :: ρ = σ₁ ++ v :: (σ₂ ++ u :: ρ) := by simp
      obtain ⟨id, credential, client, now, hjoined, -, hactive, howner, haccepted⟩ :=
        ((hcut ▸ h).act hvl).2
      obtain ⟨v', hv', p', r', i', hvl'⟩ := mem_acted.mp hjoined
      have hmem' : v' ∈ σ₁ ++ v :: σ₂ := List.mem_append_left _ hv'
      have hjoin := (Op.exec_joined (h.exec (List.mem_append_left _ hmem') hvl')).symm
      obtain ⟨σ₃, σ₄, hcut'⟩ := List.append_of_mem (List.mem_append_left (u :: ρ) hmem')
      exact .stored args hmem' (operational_of_joined (hcut' ▸ h) hvl')
        ⟨credential, client, hjoin, hactive, howner, haccepted⟩ hv hrow.symm same read
  | @consumed a result args cached answer =>
    obtain ⟨v, hv, p, r, i, hvl⟩ := mem_acted.mp answer
    have hstep := h.ledgerStep (List.mem_append_left _ hv) hvl
    have hmem : (⟨v.src.world.ledger, ⟨.consumeProof a, i.chance, result⟩,
        v.dst.world.ledger⟩ : Trans Ledger Commit) ∈ commits σ :=
      mem_commits.mpr ⟨v, hv, tid, p, r, i, hvl, rfl, rfl, rfl⟩
    generalize hsrc : v.src.world.ledger = db at hstep hmem
    generalize hdst : v.dst.world.ledger = db' at hstep hmem
    cases hstep.effect with
    | consume effect =>
      cases effect with
      | refused => cases hverified
      | replayed operational accepted key row _ keyed found same read =>
        subst hsrc
        exact .stored args hv operational accepted hv found same read
      | decided effect => exact .decided args hmem ⟨rfl, effect⟩

/-! ### Restored instances -/

variable {runs : List (List SystemTrans)}

/-- The ledger of every instance is housed. -/
theorem Lineage.housed (h : Lineage H runs s) : s.world.ledger.Housed := by
  refine Lineage.history (P := fun _ db => db.Housed) Ledger.housed_empty ?_ ?_ h
  · exact fun hP => hP.backup
  · exact fun hP hs _ => hP.step hs

/-- The texts of the proofs of every instance can be stored. -/
theorem Lineage.proofs_encodable (h : Lineage H runs s) :
    ∀ r ∈ s.world.ledger.proofs, r.Encodable := by
  refine Lineage.history (P := fun _ db => ∀ r ∈ db.proofs, r.Encodable) ?_ ?_ ?_ h
  · exact fun _ hr => absurd hr Table.not_mem_empty
  · exact fun hP r hr => hP r (Store.backup_proofs _ ▸ hr)
  · exact fun hP hs _ => hs.proofs_encodable hP

/-- A run of an instance that was started over a backup, made in the state `s` of a lineage. -/
structure RestoredRun (H : HashLib) (s : SystemState) (τ : List SystemTrans) (s' : SystemState) :
    Prop where
  backedUp : ∃ runs, Lineage H runs s
  run : SystemRunFrom H (.restored s.world.ledger s.world.keyring) τ s'

namespace RestoredRun

/-- The ledger of a restored instance descends from the backup. -/
theorem descendsFrom (h : RestoredRun H s τ s') (hu : u ∈ τ) :
    u.src.world.ledger.DescendsFrom (Store.backup s.world.ledger) := by
  obtain ⟨σ, ρ, rfl⟩ := List.append_of_mem hu
  have hbefore := h.run.cut.1
  refine (ledgerRun hbefore).kept (I := fun db => db.DescendsFrom (Store.backup s.world.ledger))
    (fun t ht hI hs => hI.step hs (commit_wellFormed hbefore ht)) ?_
  exact .refl (Store.restoreRequired_backup _)

theorem commit_descendsFrom (h : RestoredRun H s τ s') {t : Trans Ledger Commit}
    (ht : t ∈ commits τ) : LedgerStep t.src t.label t.dst ∧ t.label.call.WellFormed ∧
      t.src.DescendsFrom (Store.backup s.world.ledger) := by
  obtain ⟨u, hu, -, -, -, -, -, -, hsrc, -⟩ := mem_commits.mp ht
  exact ⟨(ledgerRun h.run).step_of_mem ht, commit_wellFormed h.run ht, hsrc ▸ h.descendsFrom hu⟩

/-- A client without rows in a backup has none in the ledger that it was made of. -/
theorem foreign_verification (h : RestoredRun H s τ s') {v : VerificationRow}
    (hforeign : (Store.backup s.world.ledger).clients.get? v.clientId = none) :
    v ∉ (Store.backup s.world.ledger).verifications := by
  obtain ⟨runs, hs⟩ := h.backedUp
  intro hv
  have hclient := hs.housed.backup.verifications v hv
  rw [hforeign] at hclient
  cases hclient

/-- **A verified result of a restored instance was decided by its own run**, for a client that is
not in the backup and with the fingerprint of the request. -/
theorem decided (h : RestoredRun H s (σ ++ u :: ρ) s')
    (hl : u.label = .ret tid pid (.api (.verifyProof q)) (.ok (.verification result)))
    (hverified : result.verified = true) :
    ∃ a₀, VerifyArgs H q (acted tid σ) a₀ ∧ ∃ t ∈ commits σ, ∃ a x, DecidesAs a x result t ∧
      (Store.backup s.world.ledger).clients.get? a.clientId = none ∧
      a.requestFingerprint = a₀.requestFingerprint := by
  have hleft : ∀ {v : SystemTrans}, v ∈ σ → v ∈ σ ++ u :: ρ := fun hv => List.mem_append_left _ hv
  cases verifiedBy h.run hl hverified with
  | @decided a x t args mem decides =>
    refine ⟨a, args, t, mem, a, x, decides, ?_, rfl⟩
    have hdescends := (h.commit_descendsFrom (commits_append σ _ ▸ List.mem_append_left _ mem)).2.2
    exact hdescends.foreign decides.2.operational decides.2.accepts
  | @stored a v v' credentialId key now row args before operational accepted mem found same read =>
    have hforeign := (h.descendsFrom (hleft before)).foreign operational accepted
    obtain ⟨hrow, howner, -⟩ := Ledger.idempotent_eq_some found
    obtain ⟨σ₁, σ₂, rfl⟩ := List.append_of_mem mem
    have hbefore := h.run.cut.1.cut.1
    -- the row is not one of the backup, so the run has decided it before it was read
    rcases run_verifications (ledgerRun hbefore) hrow with hold | ⟨t, ht, a', x, result', hd, rfl⟩
    · exact absurd hold (h.foreign_verification (howner ▸ hforeign))
    · obtain ⟨runs, hs⟩ := h.backedUp
      have hcut : commits (σ₁ ++ v' :: σ₂) = commits σ₁ ++ commits (v' :: σ₂) := commits_append _ _
      obtain ⟨cs₁, cs₂, hcs⟩ := List.append_of_mem ht
      have hproofs : ∀ r ∈ t.src.proofs, r.Encodable := by
        refine run_proofs_encodable ((hcs ▸ ledgerRun hbefore).of_cut.1) fun r hr => ?_
        exact hs.proofs_encodable r (Store.backup_proofs _ ▸ hr)
      obtain rfl := eq_of_resultFromJson (hd.2.encodable_result hproofs) read
      have howner' : a'.clientId = a.clientId := howner
      exact ⟨a, args, t, hcut ▸ List.mem_append_left _ ht, a', x, hd, howner' ▸ hforeign, same⟩

/-- **The decision behind a verified result** of a restored instance. -/
theorem exists_decision (hH : H.Ideal) (h : RestoredRun H s τ s') {p : Str}
    (hreturned : VerificationReturned τ p result) (hverified : result.verified = true) :
    ∃ τ₁ d τ₂ a, τ = τ₁ ++ d :: τ₂ ∧ Decision H p τ₁ d a result := by
  obtain ⟨u, hu, tid, pid, q, hl, hp⟩ := hreturned
  obtain ⟨σ, ρ, rfl⟩ := List.append_of_mem hu
  obtain ⟨a₀, args, t, ht, a, x, hdecides, -, hsame⟩ := h.decided hl hverified
  obtain ⟨p', k, hreads, hfingerprint, -⟩ := args.request
  obtain ⟨τ₁, d, τ₂, p'', hcut, hdecision, -⟩ := exists_decision_of_decides h.run
    (commits_append σ (u :: ρ) ▸ List.mem_append_left _ ht) hdecides
  have hp' : p' = p := by
    have hproof := (Service.text_eq_ok.mp hreads.proof).1
    rw [hp] at hproof
    exact (Json.str.inj hproof).symm
  have hp'' : p'' = p := by
    obtain ⟨_, _, _, _, _, -, -, -, hfingerprint', -⟩ := hdecision
    rw [hsame] at hfingerprint'
    exact (Service.proof_of_requestFingerprint hH hfingerprint' hfingerprint).trans hp'
  exact ⟨τ₁, d, τ₂, a, hcut, hp'' ▸ hdecision⟩

/-- **A restored instance accepts only proofs that it has issued itself.** -/
theorem issued (hH : H.Ideal) {τ₁ τ₂ : List SystemTrans} {d : SystemTrans}
    (h : RestoredRun H s (τ₁ ++ d :: τ₂) s') {p : Str} {a : ConsumeProof}
    (hd : Decision H p τ₁ d a result) (hverified : result.verified = true) :
    ∃ σ₁ u σ₂ c, τ₁ = σ₁ ++ u :: σ₂ ∧ IssueCommit H p σ₁ u c ∧
      a.tokenDigest = c.tokenDigest := by
  obtain ⟨tid, pid, q, i, k, hl, heffect, -, -, -, hdigest⟩ := hd
  obtain ⟨r, hr, howner, -⟩ := heffect.accepted hverified
  have hbefore := h.run.cut.1
  have hforeign := (h.descendsFrom (List.mem_append_right _ List.mem_cons_self)).foreign
    heffect.operational heffect.accepts
  rcases run_proof_issued (ledgerRun hbefore) hr with ⟨t, ht, c, hissued, hof⟩ | ⟨r₀, hr₀, hof⟩
  · obtain ⟨σ₁, u, σ₂, p', key, rfl, hissue, -, -, hD⟩ := exists_issueCommit hbefore ht hissued
    obtain rfl := Service.lookupDigest_keyed hH hdigest hD
    refine ⟨σ₁, u, σ₂, c, rfl, hissue, ?_⟩
    rw [← hof.tokenDigest]
    exact (Table.get?_eq_some.mp hr).2.symm
  · -- a proof of the backup belongs to a client of the backup, and those have no authority
    obtain ⟨runs, hs⟩ := h.backedUp
    have hclient := hs.housed.backup.proofs r₀ (Table.get?_eq_some.mp hr₀).1
    have hsame : r.clientId = r₀.clientId := (hof _ r₀.of_proofFromRow).clientId
    rw [← hsame, howner, hforeign] at hclient
    cases hclient

end RestoredRun

/-! ### One issuance -/

/-- The commits of a part of a run. -/
theorem commits_subset (h : σ ⊆ τ) : commits σ ⊆ commits τ := by
  intro t ht
  obtain ⟨u, hu, hrest⟩ := mem_commits.mp ht
  exact mem_commits.mpr ⟨u, h hu, hrest⟩

/-- A proof that was issued carries a token of the run. -/
theorem IssueCommit.drawn {p : Str} {c : ProofRecord} (hu : IssueCommit H p σ u c) :
    ∃ kid bytes, p = Service.proofToken kid bytes ∧ (32, bytes) ∈ tokenDraws σ := by
  obtain ⟨tid, pid, q, record, check, i, -, hargs⟩ := hu
  obtain ⟨k, bytes, -, hdraw, hp, -⟩ := hargs.token
  obtain ⟨v, hv, p', r, i', hl⟩ := mem_acted.mp hdraw
  exact ⟨_, bytes, hp, List.mem_filterMap.mpr ⟨v, hv, by rw [hl]; rfl⟩⟩

/-- **A proof is not issued again** under its digest, if tokens never repeat. -/
theorem IssueCommit.not_reissued (hH : H.Ideal) (h : SystemRunFrom H w (σ ++ u :: ρ) s)
    (hfresh : FreshTokens (σ ++ u :: ρ)) {p : Str} {c c' : ProofRecord}
    (hu : IssueCommit H p σ u c) {t : Trans Ledger Commit} (ht : t ∈ commits ρ) :
    ¬ IssuedAs c.tokenDigest c' t := by
  rintro ⟨record, check, x, hlabel, hD, -⟩
  obtain ⟨v, hv, tid, pid, r, i, hl, -⟩ := mem_commits.mp ht
  obtain ⟨ρ₁, ρ₂, rfl⟩ := List.append_of_mem hv
  have hcut : σ ++ u :: (ρ₁ ++ v :: ρ₂) = (σ ++ u :: ρ₁) ++ v :: ρ₂ := by simp
  rw [hlabel] at hl
  obtain ⟨-, q, p', rfl, hargs⟩ := ((hcut ▸ h).act hl).2
  obtain ⟨k, bytes, -, -, -, -, hdigest, -⟩ := hargs.token
  obtain ⟨key, hkey⟩ := hu.digest h
  rw [hD] at hdigest
  obtain ⟨-, rfl⟩ := hH.proofDigest_inj hkey hdigest
  obtain ⟨heq, -⟩ := hu.unique h hfresh rfl hcut ⟨tid, pid, q, record, check, i, hl, hargs⟩
  have hlength := congrArg List.length heq
  simp only [List.length_append, List.length_cons] at hlength
  omega

end Onceproof

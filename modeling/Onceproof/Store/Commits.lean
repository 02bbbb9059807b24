import Onceproof.Store.Effects
import Onceproof.Lib.Transition

/-!
# The ledger as a transition system

A `StoreCall` is a call of one of the store's writing methods, a `Commit` is a call that
committed, with the clock reading and the random bytes it used and its reply. `LedgerStep`
is the step relation over commits: everything that ever changes a ledger is one of its
steps.

* `LedgerEffect` says, call by call, what a step did.
* `ProofStep`, `CredentialStep`, `ClientStep` and `DecisionStep` follow one proof, one
  credential, one client or one idempotency key through a step. These are the state machines
  of the protocol, and the invariants over runs are inductions on them.
-/

namespace Onceproof

/-! ### Calls and commits -/

/-- A call of a writing method of the store. -/
inductive StoreCall
  | createClient (a : CreateClient)
  | issueProof (record : ProofRecord) (hashKeyCheck : Str)
  | consumeProof (a : ConsumeProof)
  | rotateCredential (a : RotateCredential)
  | revokeClient (clientId : Str) (now : ℤ)
  | cleanup (now : ℤ)
  | activateRestoredBackup (now : ℤ)

/-- What a call replies with. -/
abbrev StoreCall.Reply : StoreCall → Type
  | createClient _ => Unit
  | issueProof _ _ => ProofRecord
  | consumeProof _ => VerificationResult
  | rotateCredential _ => Str × ℤ
  | revokeClient _ _ => Bool
  | cleanup _ => CleanupCounts
  | activateRestoredBackup _ => Unit

/-- What a call takes from outside while it holds the write lock: one clock reading and
random bytes. -/
structure Chance where
  now : ℤ
  draws : Draws

/-- The transaction of a call. -/
def StoreCall.tx : (c : StoreCall) → Chance → LedgerTx c.Reply
  | createClient a, x => Store.createClient a x.draws.event
  | issueProof record check, x => Store.issueProof record check x.now x.draws.event
  | consumeProof a, x => Store.consumeProof a x.now x.draws
  | rotateCredential a, x => Store.rotateCredential a x.draws.event
  | revokeClient clientId now, x => Store.revokeClient clientId now x.draws.event
  | cleanup now, _ => Store.cleanup now
  | activateRestoredBackup now, x => Store.activateRestoredBackup now x.draws.event

/-- A call that committed, with its reply. -/
structure Commit where
  call : StoreCall
  chance : Chance
  reply : call.Reply

/-- The step relation of the ledger. -/
def LedgerStep (db : Ledger) (l : Commit) (db' : Ledger) : Prop :=
  Tx.run (l.call.tx l.chance) db = .ok (l.reply, db')

/-- What a step of the ledger did, by call. -/
inductive LedgerEffect (db : Ledger) : Commit → Ledger → Prop
  | create {a : CreateClient} {x : Chance} {db' : Ledger}
      (effect : CreateEffect a x.draws.event db db') :
      LedgerEffect db ⟨.createClient a, x, ()⟩ db'
  | issue {record : ProofRecord} {check : Str} {x : Chance} {committed : ProofRecord}
      {db' : Ledger} (effect : IssueEffect record check x.now x.draws.event db committed db') :
      LedgerEffect db ⟨.issueProof record check, x, committed⟩ db'
  | consume {a : ConsumeProof} {x : Chance} {result : VerificationResult} {db' : Ledger}
      (effect : ConsumeEffect a x.now x.draws db result db') :
      LedgerEffect db ⟨.consumeProof a, x, result⟩ db'
  | rotate {a : RotateCredential} {x : Chance} {reply : Str × ℤ} {db' : Ledger}
      (effect : RotateEffect a x.draws.event db reply db') :
      LedgerEffect db ⟨.rotateCredential a, x, reply⟩ db'
  | revoke {clientId : Str} {now : ℤ} {x : Chance} {reply : Bool} {db' : Ledger}
      (effect : RevokeEffect clientId now x.draws.event db reply db') :
      LedgerEffect db ⟨.revokeClient clientId now, x, reply⟩ db'
  | cleanup {now : ℤ} {x : Chance} {counts : CleanupCounts} {db' : Ledger}
      (effect : CleanupEffect now db db') :
      LedgerEffect db ⟨.cleanup now, x, counts⟩ db'
  | activate {now : ℤ} {x : Chance} {db' : Ledger}
      (effect : ActivateEffect now x.draws.event db db') :
      LedgerEffect db ⟨.activateRestoredBackup now, x, ()⟩ db'

theorem LedgerStep.effect {db db' : Ledger} {l : Commit} (h : LedgerStep db l db') :
    LedgerEffect db l db' := by
  obtain ⟨call, x, reply⟩ := l
  cases call with
  | createClient a => exact .create (Store.createClient_ok h)
  | issueProof record check => exact .issue (Store.issueProof_ok h)
  | consumeProof a => exact .consume (Store.consumeProof_ok h)
  | rotateCredential a => exact .rotate (Store.rotateCredential_ok h)
  | revokeClient clientId now => exact .revoke (Store.revokeClient_ok h)
  | cleanup now => exact .cleanup (Store.cleanup_ok h)
  | activateRestoredBackup now => exact .activate (Store.activateRestoredBackup_ok h)

/-! ### One proof -/

/-- A commit that made a fresh decision. -/
def DecidesAs (a : ConsumeProof) (x : Chance) (result : VerificationResult)
    (t : Trans Ledger Commit) : Prop :=
  t.label = ⟨.consumeProof a, x, result⟩ ∧
    DecideEffect a x.now x.draws t.src result t.dst

/-- The life of the proof with digest `D` in one step. -/
inductive ProofStep (D : Str) (db : Ledger) (l : Commit) (db' : Ledger) :
    Option ProofRow → Option ProofRow → Prop
  | same (o : Option ProofRow) : ProofStep D db l db' o o
  | issued {record : ProofRecord} {check : Str} {x : Chance} {committed : ProofRecord}
      (label : l = ⟨.issueProof record check, x, committed⟩) (digest : record.tokenDigest = D)
      (effect : IssueEffect record check x.now x.draws.event db committed db') :
      ProofStep D db l db' none (some committed.toRow)
  | consumed {a : ConsumeProof} {x : Chance} {result : VerificationResult} {r : ProofRow}
      (label : l = ⟨.consumeProof a, x, result⟩) (digest : a.tokenDigest = D)
      (effect : DecideEffect a x.now x.draws db result db') (verified : result.verified = true)
      (live : r.consumedAt = none) (unexpired : x.now < r.expiresAt) :
      ProofStep D db l db' (some r) (some { r with
        consumedAt := some x.now, consumeVerificationId := some x.draws.verificationId })
  | shortened {r : ProofRow} (now : ℤ) (live : r.consumedAt = none)
      (label : (∃ x, l = ⟨.revokeClient r.clientId now, x, true⟩) ∨
        ∃ x, l = ⟨.activateRestoredBackup now, x, ()⟩) :
      ProofStep D db l db' (some r) (some (r.expireBy now))
  | forgotten {r : ProofRow} {now : ℤ} {x : Chance} {counts : CleanupCounts}
      (label : l = ⟨.cleanup now, x, counts⟩)
      (stale : r.expiresAt < now - proofRetentionSeconds) :
      ProofStep D db l db' (some r) none

theorem LedgerStep.proof {db db' : Ledger} {l : Commit} (h : LedgerStep db l db') (D : Str) :
    ProofStep D db l db' (db.proofs.get? D) (db'.proofs.get? D) := by
  cases h.effect with
  | create effect => rw [effect.proofs]; exact .same _
  | rotate effect => rw [effect.proofs]; exact .same _
  | @issue record check x committed _ effect =>
    have hdigest : committed.toRow.tokenDigest = record.tokenDigest := by
      rw [effect.committed_eq]; rfl
    rw [Table.get?_append effect.proofs, List.find?_singleton, hdigest]
    by_cases hD : record.tokenDigest = D
    · rw [if_pos (by simpa using hD)]
      have hnone : db.proofs.get? D = none := Table.get?_eq_none.mpr (hD ▸ effect.freshDigest)
      rw [hnone, Option.none_or]
      exact .issued rfl hD effect
    · rw [if_neg (by simpa using hD), Option.or_none]
      exact .same _
  | @consume a x result _ effect =>
    cases effect with
    | refused => exact .same _
    | replayed => exact .same _
    | decided effect =>
      rw [effect.proofs]
      -- only an accepted attempt writes to the proof
      split_ifs with hverified
      · rw [Ledger.consume, Table.get?_update]
        cases hg : db.proofs.get? D with
        | none => exact .same _
        | some r =>
          obtain ⟨-, rfl⟩ := Table.get?_eq_some.mp hg
          simp only [Option.map_some, decide_eq_true_eq]
          split_ifs with hcond
          · exact .consumed rfl hcond.1.symm effect hverified hcond.2.1 hcond.2.2
          · exact .same _
      · exact .same _
  | @revoke clientId now x reply _ effect =>
    cases effect with
    | already => exact .same _
    | revoked _ _ _ _ _ hproofs =>
      rw [Table.get?_map hproofs fun r => by split_ifs <;> rfl]
      cases hg : db.proofs.get? D with
      | none => exact .same _
      | some r =>
        simp only [Option.map_some]
        split_ifs with hcond
        · exact .shortened now hcond.2 (Or.inl ⟨x, by rw [hcond.1]⟩)
        · exact .same _
  | @cleanup now x counts _ effect =>
    rw [Table.get?_filter effect.proofs]
    cases hg : db.proofs.get? D with
    | none => exact .same _
    | some r =>
      by_cases hkeep : now - proofRetentionSeconds ≤ r.expiresAt
      · rw [Option.filter_some, if_pos (by simpa using hkeep)]
        exact .same _
      · rw [Option.filter_some, if_neg (by simpa using hkeep)]
        exact .forgotten rfl (not_le.mp hkeep)
  | @activate now x _ effect =>
    rw [Table.get?_map effect.proofs fun r => by split_ifs <;> rfl]
    cases hg : db.proofs.get? D with
    | none => exact .same _
    | some r =>
      simp only [Option.map_some]
      split_ifs with hcond
      · exact .shortened now hcond (Or.inr ⟨x, rfl⟩)
      · exact .same _

/-! ### One credential -/

/-- A commit that inserted a credential. -/
inductive Commit.Inserts : Commit → CredentialRecord → ℤ → Prop
  | issuance (a : CreateClient) (x : Chance) :
      Inserts ⟨.createClient a, x, ()⟩ a.issuanceCredential a.now
  | verification (a : CreateClient) (x : Chance) :
      Inserts ⟨.createClient a, x, ()⟩ a.verificationCredential a.now
  | replacement (a : RotateCredential) (x : Chance) (reply : Str × ℤ) :
      Inserts ⟨.rotateCredential a, x, reply⟩ a.replacement a.now

/-- The life of the credential with id `id` in one step. -/
inductive CredentialStep (id : Str) (l : Commit) :
    Option CredentialRow → Option CredentialRow → Prop
  | same (o : Option CredentialRow) : CredentialStep id l o o
  | inserted {c : CredentialRecord} {now : ℤ} (label : l.Inserts c now)
      (named : c.credentialId = id) : CredentialStep id l none (some (c.toCurrentRow now))
  | demoted {a : RotateCredential} {x : Chance} {reply : Str × ℤ} {r : CredentialRow}
      (label : l = ⟨.rotateCredential a, x, reply⟩) (current : r.status = .current)
      (owner : r.clientId = a.clientId) (role : r.role = a.role) :
      CredentialStep id l (some r) (some { r with
        status := .previous, validUntil := some (a.now + a.graceSeconds) })
  | revoked {r : CredentialRow} (now : ℤ) (validUntil revokedAt : Option ℤ)
      (label : (∃ x, l = ⟨.revokeClient r.clientId now, x, true⟩ ∧ r.status ≠ .revoked) ∨
        ∃ x, l = ⟨.activateRestoredBackup now, x, ()⟩) :
      CredentialStep id l (some r) (some { r with
        status := .revoked, validUntil := validUntil, revokedAt := revokedAt })
  | forgotten {r : CredentialRow} {now : ℤ} {x : Chance} {counts : CleanupCounts}
      (label : l = ⟨.cleanup now, x, counts⟩) (demoted : r.status ≠ .current)
      (ended : r.endedAt < now) : CredentialStep id l (some r) none

theorem Ledger.currentCredential_eq_some {db : Ledger} {clientId : Str} {role : Role}
    {c : CredentialRow} (h : db.currentCredential clientId role = some c) :
    c ∈ db.credentials ∧ c.clientId = clientId ∧ c.role = role ∧ c.status = .current := by
  have hp := List.find?_some h
  simp only [decide_eq_true_eq] at hp
  exact ⟨List.mem_of_find?_eq_some h, hp⟩

theorem LedgerStep.credential {db db' : Ledger} {l : Commit} (h : LedgerStep db l db')
    (id : Str) :
    CredentialStep id l (db.credentials.get? id) (db'.credentials.get? id) := by
  cases h.effect with
  | @create a x _ effect =>
    -- rows are appended, so an old credential is still found first
    rw [Table.get?_append effect.credentials]
    cases hg : db.credentials.get? id with
    | some r => exact .same _
    | none =>
      rw [Option.none_or]
      cases hf : List.find? _ _ with
      | none => exact .same _
      | some r =>
        have hmem := List.mem_of_find?_eq_some hf
        have hid := List.find?_some hf
        simp only [List.mem_cons, List.not_mem_nil, or_false, decide_eq_true_eq] at hmem hid
        rcases hmem with rfl | rfl
        · exact .inserted (.issuance a x) hid
        · exact .inserted (.verification a x) hid
  | issue effect => rw [effect.credentials]; exact .same _
  | consume effect =>
    cases effect with
    | refused => exact .same _
    | replayed => exact .same _
    | decided effect => rw [effect.credentials]; exact .same _
  | @rotate a x reply _ effect =>
    obtain ⟨c, hc, rfl⟩ := effect.current
    obtain ⟨hmem, howner, hrole, hstatus⟩ := Ledger.currentCredential_eq_some hc
    rw [Table.get?_map_append effect.credentials fun r => by
      unfold CredentialRow.demote; split_ifs <;> rfl]
    cases hg : db.credentials.get? id with
    | some r =>
      simp only [Option.map_some, Option.some_or, CredentialRow.demote]
      split_ifs with hid
      · obtain rfl := Table.eq_of_key_eq (Table.get?_eq_some.mp hg).1 hmem hid
        exact .demoted rfl hstatus howner hrole
      · exact .same _
    | none =>
      rw [Option.map_none, Option.none_or, List.find?_singleton]
      split_ifs with hid
      · exact .inserted (.replacement a x _) (of_decide_eq_true hid)
      · exact .same _
  | @revoke clientId now x reply _ effect =>
    cases effect with
    | already => exact .same _
    | revoked _ _ _ _ hcredentials =>
      rw [Table.get?_map hcredentials fun r => by split_ifs <;> rfl]
      cases hg : db.credentials.get? id with
      | none => exact .same _
      | some r =>
        simp only [Option.map_some]
        split_ifs with hcond
        · exact .revoked now _ _ (Or.inl ⟨x, by rw [hcond.1], hcond.2⟩)
        · exact .same _
  | @cleanup now x counts _ effect =>
    rw [Table.get?_filter effect.credentials]
    cases hg : db.credentials.get? id with
    | none => exact .same _
    | some r =>
      rw [Option.filter_some]
      split_ifs with hkeep
      · exact .same _
      -- a dropped credential has ended, and no proof that is left was issued with it
      · simp only [decide_eq_true_eq, not_or, not_le] at hkeep
        exact .forgotten rfl hkeep.1 hkeep.2.1
  | @activate now x _ effect =>
    rw [Table.get?_map effect.credentials fun _ => rfl]
    cases hg : db.credentials.get? id with
    | none => exact .same _
    | some r => exact .revoked now _ _ (Or.inr ⟨x, rfl⟩)

/-! ### One client -/

/-- The life of the client with id `id` in one step. -/
inductive ClientStep (id : Str) (l : Commit) : Option ClientRow → Option ClientRow → Prop
  | same (o : Option ClientRow) : ClientStep id l o o
  | created {a : CreateClient} {x : Chance} {c : ClientRow}
      (label : l = ⟨.createClient a, x, ()⟩) (named : a.clientId = id)
      (active : c.status = .active) : ClientStep id l none (some c)
  | revoked {c : ClientRow} (now : ℤ) (revokedAt : Option ℤ)
      (label : (∃ x, l = ⟨.revokeClient id now, x, true⟩) ∨
        ∃ x, l = ⟨.activateRestoredBackup now, x, ()⟩) :
      ClientStep id l (some c) (some { c with status := .revoked, revokedAt := revokedAt })

theorem LedgerStep.client {db db' : Ledger} {l : Commit} (h : LedgerStep db l db')
    (id : Str) : ClientStep id l (db.clients.get? id) (db'.clients.get? id) := by
  cases h.effect with
  | @create a x _ effect =>
    obtain ⟨row, hid, hactive, hfresh, hrows⟩ := effect.clients
    rw [Table.get?_append hrows, List.find?_singleton]
    by_cases hk : row.clientId = id
    · rw [Table.get?_eq_none.mpr fun r hr => hk ▸ hid ▸ hfresh r hr, Option.none_or,
        if_pos (by simpa using hk)]
      exact .created rfl (hid ▸ hk) hactive
    · rw [if_neg (by simpa using hk), Option.or_none]
      exact .same _
  | issue effect => rw [effect.clients]; exact .same _
  | consume effect =>
    cases effect with
    | refused => exact .same _
    | replayed => exact .same _
    | decided effect => rw [effect.clients]; exact .same _
  | rotate effect => rw [effect.clients]; exact .same _
  | @revoke clientId now x reply _ effect =>
    cases effect with
    | already => exact .same _
    | revoked _ _ _ hclients =>
      rw [Table.get?_map hclients fun r => by split_ifs <;> rfl]
      cases hg : db.clients.get? id with
      | none => exact .same _
      | some c =>
        simp only [Option.map_some]
        split_ifs with hcond
        · have hid : clientId = id := hcond ▸ (Table.get?_eq_some.mp hg).2
          exact .revoked now _ (Or.inl ⟨x, by rw [hid]⟩)
        · exact .same _
  | cleanup effect => rw [effect.clients]; exact .same _
  | @activate now x _ effect =>
    rw [Table.get?_map effect.clients fun _ => rfl]
    cases hg : db.clients.get? id with
    | none => exact .same _
    | some c => exact .revoked now _ (Or.inr ⟨x, rfl⟩)

/-! ### Stored decisions -/

/-- A stored decision was stored before the step or is the one the step made. -/
theorem LedgerStep.verification_origin {db db' : Ledger} {l : Commit}
    (h : LedgerStep db l db') {v : VerificationRow} (hv : v ∈ db'.verifications) :
    v ∈ db.verifications ∨ ∃ a x result, DecidesAs a x result ⟨db, l, db'⟩ ∧
      v = a.verificationRow result x.now := by
  cases h.effect with
  | create effect => exact Or.inl (effect.verifications ▸ hv)
  | issue effect => exact Or.inl (effect.verifications ▸ hv)
  | @consume a x result _ effect =>
    cases effect with
    | refused => exact Or.inl hv
    | replayed => exact Or.inl hv
    | decided effect =>
      rw [Table.mem_def, effect.verifications, List.mem_append, List.mem_singleton] at hv
      exact hv.imp_right fun hrow => ⟨a, x, result, ⟨rfl, effect⟩, hrow⟩
  | rotate effect => exact Or.inl (effect.verifications ▸ hv)
  | revoke effect =>
    cases effect with
    | already => exact Or.inl hv
    | revoked _ _ _ _ _ _ _ _ _ hverifications => exact Or.inl (hverifications ▸ hv)
  | cleanup effect =>
    rw [Table.mem_def, effect.verifications, List.mem_filter] at hv
    exact Or.inl hv.1
  | activate effect => exact Or.inl (effect.verifications ▸ hv)

/-- Only a cleanup past the retention forgets a stored decision. -/
theorem LedgerStep.verification_kept {db db' : Ledger} {l : Commit}
    (h : LedgerStep db l db') {v : VerificationRow} (hv : v ∈ db.verifications) :
    v ∈ db'.verifications ∨ ∃ now x counts, l = ⟨.cleanup now, x, counts⟩ ∧
      v.createdAt < now - idempotencyRetentionSeconds := by
  cases h.effect with
  | create effect => exact Or.inl (effect.verifications ▸ hv)
  | issue effect => exact Or.inl (effect.verifications ▸ hv)
  | consume effect =>
    cases effect with
    | refused => exact Or.inl hv
    | replayed => exact Or.inl hv
    | decided effect =>
      rw [Table.mem_def, effect.verifications]
      exact Or.inl (List.mem_append_left _ hv)
  | rotate effect => exact Or.inl (effect.verifications ▸ hv)
  | revoke effect =>
    cases effect with
    | already => exact Or.inl hv
    | revoked _ _ _ _ _ _ _ _ _ hverifications => exact Or.inl (hverifications ▸ hv)
  | @cleanup now x counts _ effect =>
    rw [Table.mem_def, effect.verifications, List.mem_filter, decide_eq_true_eq]
    by_cases hkeep : now - idempotencyRetentionSeconds ≤ v.createdAt
    · exact Or.inl ⟨hv, hkeep⟩
    · exact Or.inr ⟨now, x, counts, rfl, not_le.mp hkeep⟩
  | activate effect => exact Or.inl (effect.verifications ▸ hv)

/-! ### Rate events and the seal -/

/-- A commit that took a rate slot. -/
inductive TakesSlot (clientId : Str) (operation : Operation) (now : ℤ)
    (t : Trans Ledger Commit) : Prop
  | issue (record : ProofRecord) (check : Str) (x : Chance) (committed : ProofRecord)
      (label : t.label = ⟨.issueProof record check, x, committed⟩)
      (owner : record.clientId = clientId) (kind : operation = .issue) (reading : x.now = now)
  | verify (a : ConsumeProof) (x : Chance) (result : VerificationResult)
      (decided : DecidesAs a x result t) (owner : a.clientId = clientId)
      (kind : operation = .verify) (reading : x.now = now)

/-- The rate events of a step: a slot is taken, stale ones are dropped, all of them are
dropped by an activation, or nothing changes. -/
theorem LedgerStep.rateEvents {db db' : Ledger} {l : Commit} (h : LedgerStep db l db') :
    db'.rateEvents = db.rateEvents ∨
      (∃ clientId operation now, TakesSlot clientId operation now ⟨db, l, db'⟩ ∧
        db'.rateEvents = db.slotTaken clientId operation now) ∨
      (∃ now x counts, l = ⟨.cleanup now, x, counts⟩ ∧
        db'.rateEvents = db.rateEvents.filter fun e => now - 60 < e.occurredAt) ∨
      db'.rateEvents = [] := by
  cases h.effect with
  | create effect => exact Or.inl effect.rateEvents
  | @issue record check x committed _ effect =>
    exact Or.inr (Or.inl ⟨_, _, _, .issue record check x committed rfl rfl rfl rfl,
      effect.rateEvents⟩)
  | @consume a x result _ effect =>
    cases effect with
    | refused => exact Or.inl rfl
    | replayed => exact Or.inl rfl
    | decided effect =>
      exact Or.inr (Or.inl ⟨_, _, _, .verify a x result ⟨rfl, effect⟩ rfl rfl rfl,
        effect.rateEvents⟩)
  | rotate effect => exact Or.inl effect.rateEvents
  | revoke effect =>
    cases effect with
    | already => exact Or.inl rfl
    | revoked _ _ _ _ _ _ _ _ hrate => exact Or.inl hrate
  | @cleanup now x counts _ effect =>
    exact Or.inr (Or.inr (Or.inl ⟨now, x, counts, rfl, effect.rateEvents⟩))
  | activate effect => exact Or.inr (Or.inr (Or.inr effect.rateEvents))

/-- Only an activation changes the seal, and it breaks it. -/
theorem LedgerStep.restoreRequired {db db' : Ledger} {l : Commit} (h : LedgerStep db l db') :
    db'.restoreRequired = db.restoreRequired ∨
      (∃ now x, l = ⟨.activateRestoredBackup now, x, ()⟩) ∧ db.restoreRequired = true ∧
        db'.restoreRequired = false := by
  have hsame : ∀ {d : Ledger}, d.maintenance = db.maintenance →
      d.restoreRequired = db.restoreRequired := by
    intro d hd
    simp only [Ledger.restoreRequired, Ledger.maintenanceValue, hd]
  cases h.effect with
  | create effect => exact Or.inl (hsame effect.maintenance)
  | issue effect => exact Or.inl (hsame effect.maintenance)
  | consume effect =>
    cases effect with
    | refused => exact Or.inl rfl
    | replayed => exact Or.inl rfl
    | decided effect => exact Or.inl (hsame effect.maintenance)
  | rotate effect => exact Or.inl (hsame effect.maintenance)
  | revoke effect =>
    cases effect with
    | already => exact Or.inl rfl
    | revoked _ _ _ _ _ _ _ _ _ _ hmaintenance => exact Or.inl (hsame hmaintenance)
  | cleanup effect => exact Or.inl effect.restoreRequired
  | @activate now x _ effect =>
    exact Or.inr ⟨⟨now, x, rfl⟩, effect.sealed, effect.restoreRequired⟩

end Onceproof

import Onceproof.Service.Requests

/-!
# Runs of the ledger and their clock

The ledger of a system run starts empty and is never sealed, and the readings of its commits
may be ordered: `ClockOrdered` says that the readings taken under the write lock do not
decrease in commit order, and that a cleanup runs at a time that no later reading precedes.
-/

namespace Onceproof

/-! ### Readings -/

/-- The reading that a commit took under the write lock. -/
def Commit.lockReading? : Commit → Option ℤ
  | ⟨.issueProof _ _, x, _⟩ => some x.now
  | ⟨.consumeProof _, x, _⟩ => some x.now
  | _ => none

/-- The reading that a later one must not precede: taken under the write lock, or the time
of a cleanup. -/
def Commit.reading? : Commit → Option ℤ
  | ⟨.cleanup now, _, _⟩ => some now
  | l => l.lockReading?

theorem Commit.reading?_of_lockReading? {l : Commit} {t : ℤ} (h : l.lockReading? = some t) :
    l.reading? = some t := by
  obtain ⟨call, x, reply⟩ := l
  cases call <;> first | exact h | cases h

/-- Two commits in order. -/
def Commit.Before (l l' : Commit) : Prop :=
  ∀ t t', l.reading? = some t → l'.lockReading? = some t' → t ≤ t'

instance (l l' : Commit) : Decidable (l.Before l') :=
  decidable_of_iff (∀ t ∈ l.reading?, ∀ t' ∈ l'.lockReading?, t ≤ t')
    ⟨fun h t t' ht ht' => h t ht t' ht', fun h t ht t' ht' => h t t' ht ht'⟩

/-- Readings do not decrease in commit order. -/
def ClockOrdered (cs : List (Trans Ledger Commit)) : Prop :=
  cs.Pairwise fun t t' => t.label.Before t'.label

instance (cs : List (Trans Ledger Commit)) : Decidable (ClockOrdered cs) :=
  inferInstanceAs (Decidable (cs.Pairwise fun t t' => t.label.Before t'.label))

/-- Readings taken under the write lock do not decrease in commit order. Cleanups may run at
any time. -/
def ReadingsOrdered (cs : List (Trans Ledger Commit)) : Prop :=
  cs.Pairwise fun t t' =>
    ∀ a ∈ t.label.lockReading?, ∀ b ∈ t'.label.lockReading?, a ≤ b

instance (cs : List (Trans Ledger Commit)) : Decidable (ReadingsOrdered cs) :=
  inferInstanceAs (Decidable (cs.Pairwise fun t t' =>
    ∀ a ∈ t.label.lockReading?, ∀ b ∈ t'.label.lockReading?, a ≤ b))

/-- The readings taken under the write lock are not negative. -/
def NonnegativeReadings (cs : List (Trans Ledger Commit)) : Prop :=
  ∀ c ∈ cs, ∀ t ∈ c.label.lockReading?, 0 ≤ t

instance (cs : List (Trans Ledger Commit)) : Decidable (NonnegativeReadings cs) :=
  inferInstanceAs (Decidable (∀ c ∈ cs, ∀ t ∈ c.label.lockReading?, 0 ≤ t))

theorem ClockOrdered.of_append_left {cs cs' : List (Trans Ledger Commit)}
    (h : ClockOrdered (cs ++ cs')) : ClockOrdered cs := (List.pairwise_append.mp h).1

theorem ClockOrdered.of_append_right {cs cs' : List (Trans Ledger Commit)}
    (h : ClockOrdered (cs ++ cs')) : ClockOrdered cs' := (List.pairwise_append.mp h).2.1

theorem ClockOrdered.before {cs cs' : List (Trans Ledger Commit)}
    (h : ClockOrdered (cs ++ cs')) {t t' : Trans Ledger Commit} (ht : t ∈ cs) (ht' : t' ∈ cs') :
    t.label.Before t'.label := (List.pairwise_append.mp h).2.2 t ht t' ht'

/-! ### The ledger of a new instance -/

/-- The commits of a run of a new instance, from the empty ledger. -/
theorem SystemRun.ledger {H : HashLib} {τ : List SystemTrans} {s : SystemState}
    (h : SystemRun H τ s) : Run LedgerStep .empty (commits τ) s.world.ledger := by
  obtain ⟨kidBytes, key, h⟩ := h
  exact ledgerRun h

/-- A ledger without a seal stays without one. -/
theorem run_unsealed {db db' : Ledger} {cs : List (Trans Ledger Commit)}
    (h : Run LedgerStep db cs db') (h0 : db.restoreRequired = false) :
    db'.restoreRequired = false :=
  h.invariant (I := fun db => db.restoreRequired = false)
    (fun hI hs => hs.restoreRequired.elim (fun h => h.trans hI) fun h => h.2.2) h0

theorem restoreRequired_empty : Ledger.empty.restoreRequired = false := rfl

/-! ### Authority -/

/-- The client that a join authorizes. -/
theorem Ledger.Accepts.lookup {db : Ledger} {role : Role} {credentialId clientId : Str}
    {now : ℤ} {credential : CredentialRow} {client : ClientRow}
    (h : db.Accepts role credentialId clientId now credential client) :
    db.credentials.get? credentialId = some credential ∧ credential.role = role ∧
      db.clients.get? clientId = some client := by
  have hj := h.joined
  unfold Ledger.joined at hj
  cases hc : db.credentials.get? credentialId with
  | none => simp [hc] at hj
  | some c =>
    simp only [hc] at hj
    split_ifs at hj with hrole
    obtain ⟨client', hclient, heq⟩ := Option.map_eq_some_iff.mp hj
    obtain ⟨rfl, rfl⟩ := Prod.mk.inj heq
    exact ⟨rfl, hrole, h.owner ▸ hclient⟩

/-- Authority as three lookups. -/
theorem Ledger.accepted_iff {db : Ledger} {role : Role} {credentialId clientId : Str} {now : ℤ} :
    db.Accepted role credentialId clientId now ↔
      ∃ credential client, db.credentials.get? credentialId = some credential ∧
        credential.role = role ∧ credential.clientId = clientId ∧
        credentialIsAccepted credential now = true ∧
        db.clients.get? clientId = some client ∧ client.status = .active := by
  constructor
  · rintro ⟨credential, client, h⟩
    exact ⟨credential, client, h.lookup.1, h.lookup.2.1, h.owner, h.accepted, h.lookup.2.2,
      h.active⟩
  · rintro ⟨credential, client, hc, hrole, howner, hacc, hclient, hactive⟩
    refine ⟨credential, client, ⟨?_, hactive, howner, hacc⟩⟩
    simp [Ledger.joined, hc, hrole, howner, hclient]

/-- The limit of a client for an operation. -/
def ClientRow.limit (c : ClientRow) : Operation → ℤ
  | .issue => c.issueLimitPerMinute
  | .verify => c.verifyLimitPerMinute

/-- A client is never forgotten. -/
theorem LedgerStep.client_kept {db db' : Ledger} {l : Commit} (h : LedgerStep db l db')
    {id : Str} (hc : (db.clients.get? id).isSome = true) :
    (db'.clients.get? id).isSome = true := by
  have hstep := h.client id
  cases hg : db.clients.get? id with
  | none => simp [hg] at hc
  | some c =>
    rw [hg] at hstep
    generalize db'.clients.get? id = o' at hstep
    cases hstep <;> rfl

/-- A client's limits never change. -/
theorem LedgerStep.client_limit {db db' : Ledger} {l : Commit} (h : LedgerStep db l db')
    {id : Str} {c' : ClientRow} (hc : db'.clients.get? id = some c') :
    db.clients.get? id = none ∨
      ∃ c, db.clients.get? id = some c ∧ ∀ operation, c'.limit operation = c.limit operation := by
  have hstep := h.client id
  rw [hc] at hstep
  generalize hg : db.clients.get? id = o at hstep
  cases hstep with
  | same => exact Or.inr ⟨c', rfl, fun _ => rfl⟩
  | created => exact Or.inl rfl
  | @revoked c => exact Or.inr ⟨c, rfl, fun operation => by cases operation <;> rfl⟩

end Onceproof

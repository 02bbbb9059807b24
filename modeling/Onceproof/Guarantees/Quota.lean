import Onceproof.Ledger.Clock
import Onceproof.Scenario
import Onceproof.Lib.Window

/-!
# Sliding-window quotas

The rate slots taken by the commits of a run, against the limits of their clients. The events
kept in the ledger are what the sweeps so far left of all slots (`SlotsKept`), so the check of
`_consume_rate_slot` at one instant bounds every window (`window_append_le`).
-/

namespace Onceproof

/-! ### Slots -/

/-- The rate event of an operation. -/
def Commit.rateEvent? : Commit → Option RateEvent
  | ⟨.issueProof record _, x, _⟩ => some ⟨record.clientId, .issue, x.now⟩
  | ⟨.consumeProof a, x, _⟩ => some ⟨a.clientId, .verify, x.now⟩
  | _ => none

/-- The slot that a commit took: its rate event was inserted. -/
def slot? (t : Trans Ledger Commit) : Option RateEvent :=
  t.label.rateEvent?.filter fun e => t.src.rateEvents.count e < t.dst.rateEvents.count e

/-- The slots that were taken, in commit order. -/
def slots (cs : List (Trans Ledger Commit)) : List RateEvent := cs.filterMap slot?

/-- The slots of a client and an operation. -/
def slotsOf (clientId : Str) (operation : Operation) (l : List RateEvent) : List RateEvent :=
  l.filter fun e => e.clientId = clientId ∧ e.operation = operation

/-- The times at which stale events were deleted: by a cleanup or when a slot was taken. -/
def sweep? (t : Trans Ledger Commit) : Option ℤ :=
  match t.label.call with
  | .cleanup now => some now
  | _ => (slot? t).map RateEvent.occurredAt

/-- The sweeps of a run. -/
def sweeps (cs : List (Trans Ledger Commit)) : List ℤ := cs.filterMap sweep?

@[simp]
theorem slots_append (cs cs' : List (Trans Ledger Commit)) :
    slots (cs ++ cs') = slots cs ++ slots cs' := List.filterMap_append

@[simp]
theorem sweeps_append (cs cs' : List (Trans Ledger Commit)) :
    sweeps (cs ++ cs') = sweeps cs ++ sweeps cs' := List.filterMap_append

theorem slots_singleton (t : Trans Ledger Commit) : slots [t] = (slot? t).toList := by
  cases h : slot? t <;> simp [slots, h]

theorem sweeps_singleton (t : Trans Ledger Commit) : sweeps [t] = (sweep? t).toList := by
  cases h : sweep? t <;> simp [sweeps, h]

/-- Sweeps happen at readings. -/
theorem reading?_of_sweep? {t : Trans Ledger Commit} {x : ℤ} (h : sweep? t = some x) :
    t.label.reading? = some x := by
  obtain ⟨db, ⟨call, x', reply⟩, db'⟩ := t
  cases call with
  | cleanup => exact h
  | issueProof | consumeProof =>
    obtain ⟨e, he, rfl⟩ := Option.map_eq_some_iff.mp h
    obtain rfl := Option.some.inj (Option.filter_eq_some_iff.mp he).1
    rfl
  | createClient | rotateCredential | revokeClient | activateRestoredBackup =>
    simp [sweep?, slot?, Commit.rateEvent?] at h

/-- A slot is taken at the reading of its commit. -/
theorem lockReading?_of_slot? {t : Trans Ledger Commit} {e : RateEvent}
    (h : slot? t = some e) : t.label.lockReading? = some e.occurredAt := by
  obtain ⟨db, ⟨call, x, reply⟩, db'⟩ := t
  have he := (Option.filter_eq_some_iff.mp h).1
  cases call with
  | issueProof | consumeProof =>
    obtain rfl := Option.some.inj he
    rfl
  | createClient | rotateCredential | revokeClient | activateRestoredBackup | cleanup =>
    simp [Commit.rateEvent?] at he

/-! ### One step -/

/-- Taking a slot inserts its event. -/
theorem count_slotTaken (db : Ledger) (e : RateEvent) :
    (db.slotTaken e.clientId e.operation e.occurredAt).count e = db.rateEvents.count e + 1 := by
  have hkept : (db.rateEvents.filter fun e' => e.occurredAt - 60 < e'.occurredAt).count e =
      db.rateEvents.count e := List.count_filter (by simp)
  rw [Ledger.slotTaken, List.count_append, hkept]
  simp

/-- What a commit does to the rate events: it takes a slot of a client it found below its
limit, it sweeps, it empties a sealed ledger's table, or it changes nothing. -/
theorem LedgerStep.slot {db db' : Ledger} {l : Commit} (h : LedgerStep db l db') :
    (∃ e client, slot? ⟨db, l, db'⟩ = some e ∧
        db'.rateEvents = db.slotTaken e.clientId e.operation e.occurredAt ∧
        db.clients.get? e.clientId = some client ∧
        (db.rateWindow e.clientId e.operation (e.occurredAt - 60)).length <
          client.limit e.operation) ∨
      (slot? ⟨db, l, db'⟩ = none ∧
        db'.rateEvents = (match sweep? ⟨db, l, db'⟩ with
          | some x => recent RateEvent.occurredAt 60 x db.rateEvents
          | none => db.rateEvents)) ∨
      (db.restoreRequired = true ∧ db'.rateEvents = []) := by
  have hslot : ∀ e, l.rateEvent? = some e →
      db'.rateEvents = db.slotTaken e.clientId e.operation e.occurredAt →
      slot? ⟨db, l, db'⟩ = some e := by
    intro e he hdb'
    refine Option.filter_eq_some_iff.mpr ⟨he, ?_⟩
    simp only [hdb', count_slotTaken, decide_eq_true_eq]
    omega
  -- a commit that leaves the table as it is takes no slot and sweeps none
  have hsame : (∀ now, l.call ≠ .cleanup now) → db'.rateEvents = db.rateEvents →
      slot? ⟨db, l, db'⟩ = none ∧ sweep? ⟨db, l, db'⟩ = none := by
    intro hl hdb'
    have hnone : slot? ⟨db, l, db'⟩ = none := by
      unfold slot?
      simp only [hdb', lt_irrefl, decide_false]
      cases l.rateEvent? <;> rfl
    refine ⟨hnone, ?_⟩
    unfold sweep?
    dsimp only
    split
    · rename_i now hcall
      exact absurd hcall (hl now)
    · rw [hnone]
      rfl
  have hquiet : (∀ now, l.call ≠ .cleanup now) → db'.rateEvents = db.rateEvents →
      slot? ⟨db, l, db'⟩ = none ∧
        db'.rateEvents = (match sweep? ⟨db, l, db'⟩ with
          | some x => recent RateEvent.occurredAt 60 x db.rateEvents
          | none => db.rateEvents) := by
    intro hl hdb'
    obtain ⟨hnone, hsweep⟩ := hsame hl hdb'
    rw [hsweep]
    exact ⟨hnone, hdb'⟩
  cases h.effect with
  | create effect => exact Or.inr (Or.inl (hquiet (fun _ => by simp) effect.rateEvents))
  | rotate effect => exact Or.inr (Or.inl (hquiet (fun _ => by simp) effect.rateEvents))
  | revoke effect =>
    cases effect with
    | already => exact Or.inr (Or.inl (hquiet (fun _ => by simp) rfl))
    | revoked _ _ _ _ _ _ _ _ hrate =>
      exact Or.inr (Or.inl (hquiet (fun _ => by simp) hrate))
  -- a restored ledger is activated with an empty table
  | activate effect => exact Or.inr (Or.inr ⟨effect.sealed, effect.rateEvents⟩)
  | cleanup effect =>
    refine Or.inr (Or.inl ⟨rfl, ?_⟩)
    exact effect.rateEvents
  | @issue record check x committed _ effect =>
    obtain ⟨credential, client, hacc, hlimit⟩ := effect.authorized
    exact Or.inl ⟨⟨record.clientId, .issue, x.now⟩, client, hslot _ rfl effect.rateEvents,
      effect.rateEvents, hacc.lookup.2.2, hlimit⟩
  | @consume a x result _ effect =>
    cases effect with
    | refused => exact Or.inr (Or.inl (hquiet (fun _ => by simp) rfl))
    | replayed => exact Or.inr (Or.inl (hquiet (fun _ => by simp) rfl))
    | decided effect =>
      obtain ⟨credential, client, hacc, hlimit⟩ := effect.authorized
      exact Or.inl ⟨⟨a.clientId, .verify, x.now⟩, client, hslot _ rfl effect.rateEvents,
        effect.rateEvents, hacc.lookup.2.2, hlimit⟩

/-! ### Runs -/

/-- The ledger keeps what the sweeps left of all slots, and no window is over its limit. -/
structure SlotsKept (cs : List (Trans Ledger Commit)) (db : Ledger) : Prop where
  unsealed : db.restoreRequired = false
  kept : db.rateEvents = retained RateEvent.occurredAt 60 (sweeps cs) (slots cs)
  known : ∀ e ∈ slots cs, (db.clients.get? e.clientId).isSome = true
  bounded : ∀ clientId operation client, db.clients.get? clientId = some client → ∀ t,
    ((window RateEvent.occurredAt 60 t (slotsOf clientId operation (slots cs))).length : ℤ) ≤
      client.limit operation

theorem ClientRow.limit_pos (c : ClientRow) (operation : Operation) : 1 ≤ c.limit operation := by
  cases operation with
  | issue => exact c.issueLimit_check.1
  | verify => exact c.verifyLimit_check.1

theorem slotsOf_append (clientId : Str) (operation : Operation) (l l' : List RateEvent) :
    slotsOf clientId operation (l ++ l') =
      slotsOf clientId operation l ++ slotsOf clientId operation l' := List.filter_append ..

/-- The window that the source counts is the recent part of all slots of the client. -/
theorem SlotsKept.rateWindow {cs : List (Trans Ledger Commit)} {db : Ledger}
    (h : SlotsKept cs db) {now : ℤ} (hnow : ∀ x ∈ sweeps cs, x ≤ now) (clientId : Str)
    (operation : Operation) :
    (db.rateWindow clientId operation (now - 60)).length =
      (recent RateEvent.occurredAt 60 now (slotsOf clientId operation (slots cs))).length := by
  have hrecent : recent RateEvent.occurredAt 60 now db.rateEvents =
      recent RateEvent.occurredAt 60 now (slots cs) := by
    rw [h.kept, recent_retained_eq hnow]
  have hwindow : db.rateWindow clientId operation (now - 60) =
      slotsOf clientId operation (recent RateEvent.occurredAt 60 now db.rateEvents) := by
    simp only [Ledger.rateWindow, slotsOf, recent, List.filter_filter]
    refine List.filter_congr fun e _ => ?_
    simp [Bool.and_assoc]
  rw [hwindow, hrecent]
  simp only [slotsOf, recent, List.filter_filter]
  congr 2
  funext e
  rw [Bool.and_comm]

/-- A client that is not in the ledger took no slot. -/
theorem SlotsKept.slotsOf_eq_nil {cs : List (Trans Ledger Commit)} {db : Ledger}
    (h : SlotsKept cs db) {clientId : Str} (hnone : db.clients.get? clientId = none)
    (operation : Operation) : slotsOf clientId operation (slots cs) = [] := by
  refine List.filter_eq_nil_iff.mpr fun e he hmine => ?_
  have hknown := h.known e he
  simp only [decide_eq_true_eq] at hmine
  rw [hmine.1, hnone] at hknown
  cases hknown

/-- The old slots keep to the limits after a commit: limits do not change, and a new client has
no slots yet. -/
theorem SlotsKept.bounded_kept {cs : List (Trans Ledger Commit)} {db db' : Ledger} {l : Commit}
    (h : SlotsKept cs db) (hs : LedgerStep db l db') {clientId : Str} {c' : ClientRow}
    (hc' : db'.clients.get? clientId = some c') (operation : Operation) (t : ℤ) :
    ((window RateEvent.occurredAt 60 t (slotsOf clientId operation (slots cs))).length : ℤ) ≤
      c'.limit operation := by
  rcases hs.client_limit hc' with hnone | ⟨c, hc, hsame⟩
  · rw [h.slotsOf_eq_nil hnone]
    have := c'.limit_pos operation
    simp only [window, List.filter_nil, List.length_nil]
    omega
  · rw [hsame]
    exact h.bounded _ _ _ hc t

/-- The step lemma of the bound. -/
theorem SlotsKept.step {cs : List (Trans Ledger Commit)} {db db' : Ledger} {l : Commit}
    (h : SlotsKept cs db) (hs : LedgerStep db l db')
    (hclock : ∀ t ∈ cs, t.label.Before l) : SlotsKept (cs ++ [⟨db, l, db'⟩]) db' := by
  have hunsealed : db'.restoreRequired = false := run_unsealed (.single hs) h.unsealed
  rcases hs.slot with ⟨e, client, hslot, hdb', hclient, hlimit⟩ | ⟨hslot, hdb'⟩ | ⟨hsealed, -⟩
  -- earlier sweeps read an earlier clock, so they would not have removed the new slot
  · have hbefore : ∀ x ∈ sweeps cs, x ≤ e.occurredAt := by
      intro x hx
      obtain ⟨t, ht, hsweep⟩ := List.mem_filterMap.mp hx
      exact hclock t ht x _ (reading?_of_sweep? hsweep) (lockReading?_of_slot? hslot)
    have hsweep : sweep? ⟨db, l, db'⟩ = some e.occurredAt := by
      unfold sweep?
      dsimp only
      split
      · rename_i now hcall
        obtain ⟨call, x, reply⟩ := l
        dsimp only at hcall
        subst hcall
        simp [slot?, Commit.rateEvent?] at hslot
      · rw [hslot]
        rfl
    refine ⟨hunsealed, ?_, fun e' he' => ?_, fun clientId operation c' hc' t => ?_⟩
    · rw [slots_append, sweeps_append, slots_singleton, sweeps_singleton, hslot, hsweep]
      dsimp only [Option.toList]
      rw [retained_append_singleton (by decide) (fun x hx => ?_), ← recent_retained, ← h.kept]
      · exact hdb'
      · rcases List.mem_append.mp hx with hx | hx
        · exact hbefore x hx
        · exact (List.mem_singleton.mp hx).le
    · rw [slots_append, slots_singleton, hslot] at he'
      rcases List.mem_append.mp he' with he' | he'
      · exact hs.client_kept (h.known e' he')
      · obtain rfl := List.mem_singleton.mp he'
        exact hs.client_kept (by rw [hclient]; rfl)
    · rw [slots_append, slots_singleton, hslot, slotsOf_append]
      -- only the window of the client and operation that were charged grows
      by_cases hmine : e.clientId = clientId ∧ e.operation = operation
      · obtain ⟨rfl, rfl⟩ := hmine
        have hself : slotsOf e.clientId e.operation (some e).toList = [e] := by
          simp [slotsOf]
        have heq : c'.limit e.operation = client.limit e.operation := by
          rcases hs.client_limit hc' with hnone | ⟨c, hc, hsame⟩
          · rw [hclient] at hnone
            cases hnone
          · rw [hclient] at hc
            rw [hsame, Option.some.inj hc]
        rw [hself, heq]
        refine window_append_le ?_ (h.bounded _ _ _ hclient) t
        rw [← h.rateWindow hbefore]
        exact hlimit
      · have hother : slotsOf clientId operation (some e).toList = [] := by
          simpa [slotsOf] using hmine
        rw [hother, List.append_nil]
        exact h.bounded_kept hs hc' operation t
  · refine ⟨hunsealed, ?_, fun e' he' => ?_, fun clientId operation c' hc' t => ?_⟩
    · rw [slots_append, sweeps_append, slots_singleton, sweeps_singleton, hslot]
      dsimp only [Option.toList]
      rw [List.append_nil, hdb']
      cases hx : sweep? ⟨db, l, db'⟩ with
      | none => simpa using h.kept
      | some x => rw [← recent_retained, ← h.kept]
    · rw [slots_append, slots_singleton, hslot] at he'
      exact hs.client_kept (h.known e' (by simpa using he'))
    · rw [slots_append, slots_singleton, hslot]
      dsimp only [Option.toList]
      rw [List.append_nil]
      exact h.bounded_kept hs hc' operation t
  · rw [h.unsealed] at hsealed
    cases hsealed

theorem slotsKept {cs : List (Trans Ledger Commit)} {db : Ledger}
    (h : Run LedgerStep .empty cs db) (hclock : ClockOrdered cs) : SlotsKept cs db := by
  refine h.history (P := fun cs db => ClockOrdered cs → SlotsKept cs db) (fun _ => ?_)
    (fun _ ih hs hclock => ?_) hclock
  · exact ⟨rfl, rfl, by simp [slots], fun _ _ _ hc => by cases hc⟩
  · exact (ih hclock.of_append_left).step hs
      fun t ht => hclock.before ht (List.mem_singleton_self _)

variable {H : HashLib}

/-- **Sliding-window quota**: in a run with ordered readings, no window of 60 seconds holds
more slots of a client and an operation than the client's limit. -/
theorem quota {τ : List SystemTrans} {s : SystemState} (h : SystemRun H τ s)
    (hclock : ClockOrdered (commits τ)) (clientId : Str) (operation : Operation)
    (client : ClientRow) (hclient : s.world.ledger.clients.get? clientId = some client)
    (t : ℤ) :
    (((slots (commits τ)).filter fun e => e.clientId = clientId ∧ e.operation = operation ∧
      t - 60 < e.occurredAt ∧ e.occurredAt ≤ t).length : ℤ) ≤ client.limit operation := by
  have hbound := (slotsKept h.ledger hclock).bounded clientId operation client hclient t
  refine le_of_eq_of_le ?_ hbound
  simp only [window, slotsOf, List.filter_filter]
  congr 2
  refine List.filter_congr fun e _ => ?_
  simp only [← Bool.decide_and, decide_eq_decide]
  tauto

/-- Two proofs issued in one second: the window is full. -/
theorem quota_served : ∃ τ s client, SystemRun plainHash τ s ∧
    s.world.ledger.clients.get? (Scenario.clientId 24) = some client ∧
    ((slots (commits τ)).filter fun e => e.clientId = Scenario.clientId 24 ∧
      e.operation = .issue ∧ 1060 - 60 < e.occurredAt ∧ e.occurredAt ≤ 1060).length = 2 ∧
    2 ≤ client.limit .issue := by
  obtain ⟨τ, s, hrun, hclock, hclient, hcount⟩ := exists_systemRun
    (Scenario.served ++
      Scenario.thread 0 2 10 (.api (.issueProof (Scenario.issueRequest 25))) 1001 40 ++
      Scenario.thread 0 3 10 (.api (.issueProof (Scenario.issueRequest 25))) 1001 60)
    (fun τ s => ClockOrdered (commits τ) ∧
      (s.world.ledger.clients.get? (Scenario.clientId 24)).isSome = true ∧
      ((slots (commits τ)).filter fun e => e.clientId = Scenario.clientId 24 ∧
        e.operation = .issue ∧ 1060 - 60 < e.occurredAt ∧ e.occurredAt ≤ 1060).length = 2)
    (by decide +kernel)
  obtain ⟨client, hclient⟩ := Option.isSome_iff_exists.mp hclient
  refine ⟨τ, s, client, hrun, hclient, hcount, ?_⟩
  have hbound := quota hrun hclock _ .issue client hclient 1060
  rw [hcount] at hbound
  exact_mod_cast hbound

end Onceproof

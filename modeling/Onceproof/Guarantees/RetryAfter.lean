import Onceproof.Guarantees.Quota
import Onceproof.Ledger.Lineage
import Onceproof.Ledger.Metering

/-!
# The time to wait after a refusal

A refusal for quota names the seconds after which the oldest counted event leaves the window. Since
no window is ever over its limit (`Ledger.Metered`), exactly this event makes the window full, so
the answer is exact (`retry_after_exact`): until then the quota refuses, and from then on it does
not. The checks before the quota may answer an operation in another way meanwhile
(`retry_after_counterexample`).
-/

namespace Onceproof

/-! ### Metered ledgers -/

/-- The events of the ledger after the commits `cs`: they were inserted at readings of commits, for
clients that are known, and no window is over its limit. -/
structure Ledger.Metered (cs : List (Trans Ledger Commit)) (db : Ledger) : Prop where
  timed : ∀ e ∈ db.rateEvents, ∃ c ∈ cs, c.label.lockReading? = some e.occurredAt
  known : ∀ e ∈ db.rateEvents, (db.clients.get? e.clientId).isSome = true
  bounded : ∀ clientId operation client, db.clients.get? clientId = some client → ∀ t,
    ((window RateEvent.occurredAt 60 t (slotsOf clientId operation db.rateEvents)).length : ℤ) ≤
      client.limit operation

variable {H : HashLib} {cs : List (Trans Ledger Commit)} {db db' : Ledger} {l : Commit}
variable {clientId : Str} {operation : Operation} {now t : ℤ}

/-- The window that the source counts, as a recent part of the client's events. -/
theorem rateWindow_eq (db : Ledger) (clientId : Str) (operation : Operation) (now : ℤ) :
    db.rateWindow clientId operation (now - 60) =
      recent RateEvent.occurredAt 60 now (slotsOf clientId operation db.rateEvents) := by
  simp only [Ledger.rateWindow, slotsOf, recent, List.filter_filter]
  refine List.filter_congr fun e _ => ?_
  by_cases h : now - 60 < e.occurredAt <;> simp [h]

/-- The events of a client that are left by a sweep. -/
theorem slotsOf_recent (x : ℤ) (l : List RateEvent) :
    slotsOf clientId operation (recent RateEvent.occurredAt 60 x l) =
      recent RateEvent.occurredAt 60 x (slotsOf clientId operation l) := by
  simp only [slotsOf, recent, List.filter_filter]
  refine List.filter_congr fun e _ => ?_
  rw [Bool.and_comm]

/-- A client that is not in the ledger has no events. -/
theorem Ledger.Metered.slotsOf_eq_nil (h : db.Metered cs)
    (hnone : db.clients.get? clientId = none) (operation : Operation) :
    slotsOf clientId operation db.rateEvents = [] := by
  refine List.filter_eq_nil_iff.mpr fun e he hmine => ?_
  have hknown := h.known e he
  rw [(of_decide_eq_true hmine).1, hnone] at hknown
  cases hknown

/-- A ledger with fewer events is metered as well. -/
theorem Ledger.Metered.sublist {cs' : List (Trans Ledger Commit)} (h : db.Metered cs)
    (hs : LedgerStep db l db') (hcs : cs ⊆ cs') (hevents : db'.rateEvents.Sublist db.rateEvents) :
    db'.Metered cs' := by
  refine ⟨fun e he => ?_, fun e he => hs.client_kept (h.known e (hevents.subset he)),
    fun clientId operation c' hc' t => ?_⟩
  · obtain ⟨c, hc, hreading⟩ := h.timed e (hevents.subset he)
    exact ⟨c, hcs hc, hreading⟩
  · have hle :
        (window RateEvent.occurredAt 60 t (slotsOf clientId operation db'.rateEvents)).length ≤
        (window RateEvent.occurredAt 60 t (slotsOf clientId operation db.rateEvents)).length :=
      ((hevents.filter _).filter _).length_le
    rcases hs.client_limit hc' with hnone | ⟨c, hc, hsame⟩
    · have hnil := h.slotsOf_eq_nil hnone operation
      have hpos := c'.limit_pos operation
      rw [hnil] at hle
      simp only [window, List.filter_nil, List.length_nil] at hle
      simp only [window]
      omega
    · have hbound := h.bounded clientId operation c hc t
      rw [hsame]
      omega

/-- **The step lemma of the meter.** -/
theorem Ledger.Metered.step (h : db.Metered cs) (hs : LedgerStep db l db') :
    db'.Metered (cs ++ [⟨db, l, db'⟩]) := by
  rcases hs.slot with ⟨e, client, hslot, hdb', hclient, hlimit⟩ | ⟨-, hdb'⟩ | ⟨-, hdb'⟩
  · have hreading := lockReading?_of_slot? hslot
    -- a slot is taken after the events that are swept
    have hswept : db'.rateEvents =
        recent RateEvent.occurredAt 60 e.occurredAt db.rateEvents ++ [e] := hdb'
    rw [rateWindow_eq] at hlimit
    refine ⟨fun e' he' => ?_, fun e' he' => ?_, fun clientId operation c' hc' t => ?_⟩
    · rw [hswept] at he'
      rcases List.mem_append.mp he' with he' | he'
      · obtain ⟨c, hc, hreading'⟩ := h.timed e' (List.mem_filter.mp he').1
        exact ⟨c, List.mem_append_left _ hc, hreading'⟩
      · obtain rfl := List.mem_singleton.mp he'
        exact ⟨_, List.mem_append_right _ List.mem_cons_self, hreading⟩
    · rw [hswept] at he'
      rcases List.mem_append.mp he' with he' | he'
      · exact hs.client_kept (h.known e' (List.mem_filter.mp he').1)
      · obtain rfl := List.mem_singleton.mp he'
        exact hs.client_kept (by rw [hclient]; rfl)
    · have hsweeps : ∀ t, (window RateEvent.occurredAt 60 t (recent RateEvent.occurredAt 60
          e.occurredAt (slotsOf clientId operation db.rateEvents))).length ≤
          (window RateEvent.occurredAt 60 t (slotsOf clientId operation db.rateEvents)).length :=
        fun t => (List.filter_sublist.filter _).length_le
      rw [hswept, slotsOf_append, slotsOf_recent]
      by_cases hmine : e.clientId = clientId ∧ e.operation = operation
      · obtain ⟨rfl, rfl⟩ := hmine
        have hself : slotsOf e.clientId e.operation [e] = [e] := by simp [slotsOf]
        have hsame : c'.limit e.operation = client.limit e.operation := by
          rcases hs.client_limit hc' with hnone | ⟨c, hc, hsame⟩
          · rw [hclient] at hnone
            cases hnone
          · rw [hclient] at hc
            rw [hsame, Option.some.inj hc]
        rw [hself, hsame]
        refine window_append_le ?_ (fun t => ?_) t
        · rw [recent_recent le_rfl]
          exact hlimit
        · have hle := hsweeps t
          have hbound := h.bounded _ e.operation _ hclient t
          omega
      · have hother : slotsOf clientId operation [e] = [] := by simpa [slotsOf] using hmine
        rw [hother, List.append_nil]
        have := hsweeps t
        rcases hs.client_limit hc' with hnone | ⟨c, hc, hsame⟩
        · have hnil := h.slotsOf_eq_nil hnone operation
          have hpos := c'.limit_pos operation
          rw [hnil] at this ⊢
          simp only [window, recent, List.filter_nil, List.length_nil, Nat.cast_zero]
          omega
        · have hbound := h.bounded clientId operation c hc t
          have := hsame operation
          omega
  · refine h.sublist hs (List.subset_append_left ..) ?_
    rw [hdb']
    split
    · exact List.filter_sublist
    · exact List.Sublist.refl _
  · refine h.sublist hs (List.subset_append_left ..) ?_
    rw [hdb']
    exact List.nil_sublist _

/-- **Every ledger of an instance is metered**, restored or not. -/
theorem Lineage.metered {runs : List (List SystemTrans)} {s : SystemState} (h : Lineage H runs s) :
    s.world.ledger.Metered (lineageCommits runs) := by
  refine h.history (P := fun cs db => db.Metered cs) ?_ (fun {cs db} hmetered => ?_)
    fun hmetered hs _ => hmetered.step hs
  · exact ⟨fun e he => (by cases he), fun e he => (by cases he), fun _ _ _ hc => (by cases hc)⟩
  · refine ⟨?_, ?_, ?_⟩
    · rw [Store.backup_rateEvents]
      exact hmetered.timed
    · rw [Store.backup_rateEvents, Store.backup_clients]
      exact hmetered.known
    · rw [Store.backup_rateEvents, Store.backup_clients]
      exact hmetered.bounded

/-! ### Meanwhile -/

/-- No slot of the client and the operation was taken. -/
def Unadmitted (clientId : Str) (operation : Operation) (cs : List (Trans Ledger Commit)) : Prop :=
  ∀ e ∈ slots cs, ¬ (e.clientId = clientId ∧ e.operation = operation)

/-- The readings of the commits are not later than `t`. -/
def ReadBy (t : ℤ) (cs : List (Trans Ledger Commit)) : Prop :=
  ∀ c ∈ cs, ∀ x, c.label.reading? = some x → x ≤ t

/-- A commit that takes no slot of the client leaves its window as it is. -/
theorem LedgerStep.rateWindow_kept (hs : LedgerStep db l db')
    (hunsealed : db.restoreRequired = false)
    (hmine : Unadmitted clientId operation [⟨db, l, db'⟩]) (hread : ReadBy t [⟨db, l, db'⟩]) :
    db'.rateWindow clientId operation (t - 60) = db.rateWindow clientId operation (t - 60) := by
  have hreading : ∀ x, l.reading? = some x → x ≤ t := hread _ List.mem_cons_self
  rw [rateWindow_eq, rateWindow_eq]
  rcases hs.slot with ⟨e, client, hslot, hdb', -, -⟩ | ⟨hslot, hdb'⟩ | ⟨hsealed, -⟩
  · have hlate : e.occurredAt ≤ t :=
      hreading _ (Commit.reading?_of_lockReading? (lockReading?_of_slot? hslot))
    have hother : slotsOf clientId operation [e] = [] := by
      have := hmine e (by rw [slots_singleton, hslot]; exact List.mem_singleton_self e)
      simpa [slotsOf] using this
    have hswept : db'.rateEvents =
        recent RateEvent.occurredAt 60 e.occurredAt db.rateEvents ++ [e] := hdb'
    rw [hswept, slotsOf_append, hother, List.append_nil, slotsOf_recent, recent_recent hlate]
  · rw [hdb']
    cases hsweep : sweep? ⟨db, l, db'⟩ with
    | none => rfl
    | some x =>
      rw [slotsOf_recent, recent_recent (hreading x (reading?_of_sweep? hsweep))]
  · rw [hunsealed] at hsealed
    cases hsealed

/-- **Meanwhile** the window of the client only fades. -/
theorem run_rateWindow (h : Run LedgerStep db cs db') (hunsealed : db.restoreRequired = false)
    (hmine : Unadmitted clientId operation cs) (hread : ReadBy t cs) :
    db'.rateWindow clientId operation (t - 60) = db.rateWindow clientId operation (t - 60) := by
  induction h with
  | nil => rfl
  | @snoc db₁ db₂ cs l hrun hs ih =>
    have hbefore : Unadmitted clientId operation cs := fun e he =>
      hmine e (by rw [slots_append]; exact List.mem_append_left _ he)
    have hlast : Unadmitted clientId operation [⟨db₁, l, db₂⟩] := fun e he =>
      hmine e (by rw [slots_append]; exact List.mem_append_right _ he)
    rw [hs.rateWindow_kept (run_unsealed hrun hunsealed) hlast fun c hc =>
      hread c (List.mem_append_right _ hc)]
    exact ih hbefore fun c hc => hread c (List.mem_append_left _ hc)

/-- A client keeps its limits. -/
theorem run_limit_kept (h : Run LedgerStep db cs db') {client client' : ClientRow}
    (hclient : db.clients.get? clientId = some client)
    (hclient' : db'.clients.get? clientId = some client') (operation : Operation) :
    client'.limit operation = client.limit operation := by
  induction h generalizing client' with
  | nil =>
    rw [hclient] at hclient'
    rw [Option.some.inj hclient']
  | @snoc db₁ db₂ cs l hrun hs ih =>
    have hknown : (db₁.clients.get? clientId).isSome = true :=
      hrun.invariant (I := fun db => (db.clients.get? clientId).isSome = true)
        (fun hi hs => hs.client_kept hi) (by rw [hclient]; rfl)
    rcases hs.client_limit hclient' with hnone | ⟨c, hc, hsame⟩
    · rw [hnone] at hknown
      cases hknown
    · rw [hsame, ih hc]

/-! ### The answer of a refusal -/

/-- When the window of a client is full at `now`, how long it stays so. -/
theorem Ledger.Metered.full_iff (h : db.Metered cs) (hread : ReadBy now cs) {client : ClientRow}
    (hclient : db.clients.get? clientId = some client)
    (hfull : client.limit operation ≤ (db.rateWindow clientId operation (now - 60)).length)
    {oldest : ℤ} (holdest : ((db.rateWindow clientId operation (now - 60)).map
      RateEvent.occurredAt).min? = some oldest) (ht : now ≤ t) :
    (now < oldest + 60 ∧ oldest ≤ now) ∧
      (client.limit operation ≤ (db.rateWindow clientId operation (t - 60)).length ↔
        t < oldest + 60) := by
  rw [rateWindow_eq] at hfull holdest ⊢
  obtain ⟨hmem, hfirst⟩ := List.min?_eq_some_iff.mp holdest
  obtain ⟨e, he, rfl⟩ := List.mem_map.mp hmem
  have htimed : ∀ e ∈ slotsOf clientId operation db.rateEvents, e.occurredAt ≤ now := by
    intro e he
    obtain ⟨c, hc, hreading⟩ := h.timed e (List.mem_filter.mp he).1
    exact hread c hc _ (Commit.reading?_of_lockReading? hreading)
  -- nothing is later than `now`, so the recent events are those of the window that ends at it
  have hwindow : recent RateEvent.occurredAt 60 now (slotsOf clientId operation db.rateEvents) =
      window RateEvent.occurredAt 60 now (slotsOf clientId operation db.rateEvents) := by
    refine List.filter_congr fun e he => ?_
    simp [htimed e he]
  have hbound := h.bounded clientId operation client hclient now
  rw [← hwindow] at hbound
  have hrecent := (List.mem_filter.mp he).2
  simp only [decide_eq_true_eq] at hrecent
  refine ⟨⟨by omega, htimed e (List.mem_filter.mp he).1⟩, ?_⟩
  exact le_length_recent_iff ht hfull hbound he fun e' he' => hfirst _ (List.mem_map_of_mem he')

/-- The slot of a call is one of its meter, at its reading. -/
theorem meter_of_slot? {call : StoreCall} {x : Chance} {reply : call.Reply} {e : RateEvent}
    (h : slot? ⟨db, ⟨call, x, reply⟩, db'⟩ = some e) :
    call.meter = some (e.clientId, e.operation) ∧ e.occurredAt = x.now := by
  obtain ⟨h, -⟩ := Option.filter_eq_some_iff.mp h
  cases call with
  | issueProof | consumeProof =>
    obtain rfl := Option.some.inj h
    exact ⟨rfl, rfl⟩
  | _ => cases h

/-- What an operation comes to on a later ledger, after a refusal at `now` that named `r`
seconds. -/
structure RetriedAs (now r : ℤ) (call : StoreCall) (x : Chance) (db : Ledger) : Prop where
  /-- Before the time is over, the quota refuses it if the other checks do not. -/
  refused : x.now < now + r → ∀ client, call.ReachesQuota x db client →
    ∃ r', Tx.run (call.tx x) db = .error (.rateLimitError r')
  /-- Before the time is over, it takes no slot. -/
  unadmitted : x.now < now + r → ∀ reply db', Tx.run (call.tx x) db = .ok (reply, db') →
    slot? ⟨db, ⟨call, x, reply⟩, db'⟩ = none
  /-- When the time is over, the quota does not refuse it. -/
  admitted : now + r ≤ x.now → ∀ r', Tx.run (call.tx x) db ≠ .error (.rateLimitError r')

variable {s s₁ : SystemState} {runs : List (List SystemTrans)}

/-- **The time to wait is exact**, for every operation of the kind that was refused. -/
theorem retry_after_exact (h : Lineage H runs s) {tid p : ℕ} {q : Request} {call : StoreCall}
    {i : Choice} {r : ℤ}
    (hrefused : (system H).Step s (.act tid p q (.store call) i (.error (.rateLimitError r))) s₁)
    (hnow : ReadBy i.now (lineageCommits runs))
    (hmeter : call.meter = some (clientId, operation)) :
    1 ≤ r ∧ r ≤ 60 ∧ ∀ τ s', Run (system H).Step s₁ τ s' →
      Unadmitted clientId operation (commits τ) → ∀ (call' : StoreCall) (x : Chance),
        call'.meter = some (clientId, operation) → i.now ≤ x.now → ReadBy x.now (commits τ) →
          RetriedAs i.now r call' x s'.world.ledger := by
  obtain ⟨hrun, hworld⟩ : Tx.run (call.tx i.chance) s.world.ledger = .error (.rateLimitError r) ∧
      s₁.world = s.world := by
    cases hrefused with
    | act running executed =>
      have hexec : (Op.store call).exec p tid i s.world = some (_, _) := executed
      refine ⟨?_, ?_⟩
      · rcases Op.exec_error hexec with he | ⟨he, -⟩ | ⟨k, hc⟩ | ⟨call', hc, hrun⟩
        · cases he
        · cases he
        · cases hc
        · obtain rfl := Op.store.inj hc
          exact hrun
      · rcases Op.exec_store hexec with ⟨reply, hreply, -⟩ | ⟨e, -, hsame⟩
        · cases hreply
        · exact hsame
  -- the refusal names the oldest event of a full window
  obtain ⟨client, hreaches, hencodable, hfull, oldest, holdest, hr⟩ :=
    (StoreCall.refused_iff hmeter).mp hrun
  obtain ⟨hunsealed, hclient⟩ := hreaches.found hmeter
  have hmetered := h.metered
  obtain ⟨⟨hrecent, hlate⟩, -⟩ := hmetered.full_iff hnow hclient hfull holdest le_rfl
  have hnow' : i.chance.now = i.now := rfl
  rw [hnow'] at hr
  have hr' : i.now + r = oldest + 60 := by omega
  refine ⟨by omega, by omega, fun τ s' hτ hmine call' x hmeter' hx hread => ?_⟩
  have hledger := ledgerRun hτ
  rw [hworld] at hledger
  -- nothing was admitted in between, so the window only slides
  have hwindow := run_rateWindow hledger hunsealed hmine hread
  obtain ⟨-, hiff⟩ := hmetered.full_iff hnow hclient hfull holdest hx
  refine ⟨fun hearly client' hreaches' => ?_, fun hearly reply db' hrun' => ?_,
    fun hover r' hrun' => ?_⟩
  · have hclient' := (hreaches'.found hmeter').2
    have hlimit : client'.limit operation = client.limit operation :=
      run_limit_kept hledger hclient hclient' operation
    have hfull' : client'.limit operation ≤
        (s'.world.ledger.rateWindow clientId operation (x.now - 60)).length := by
      rw [hwindow, hlimit]
      exact hiff.mpr (by omega)
    cases holdest' : ((s'.world.ledger.rateWindow clientId operation (x.now - 60)).map
        RateEvent.occurredAt).min? with
    | none =>
      rw [List.map_eq_nil_iff.mp (List.min?_eq_none_iff.mp holdest'), hlimit] at hfull'
      have hpos := client.limit_pos operation
      simp only [List.length_nil, Nat.cast_zero] at hfull'
      omega
    | some oldest' =>
      exact ⟨_, (StoreCall.refused_iff hmeter').mpr
        ⟨client', hreaches', hencodable, hfull', oldest', holdest', rfl⟩⟩
  · cases hslot : slot? ⟨s'.world.ledger, ⟨call', x, reply⟩, db'⟩ with
    | none => rfl
    | some e =>
      obtain ⟨hmeter'', htime⟩ := meter_of_slot? hslot
      obtain ⟨rfl, rfl⟩ := Prod.mk.inj (Option.some.inj (hmeter'.symm.trans hmeter''))
      have hs : LedgerStep s'.world.ledger ⟨call', x, reply⟩ db' := hrun'
      rcases hs.slot with ⟨e', client', hslot', -, hclient', hbelow⟩ | ⟨hnone, -⟩ | ⟨hsealed, -⟩
      · rw [hslot] at hslot'
        obtain rfl := Option.some.inj hslot'
        rw [htime, hwindow, run_limit_kept hledger hclient hclient' e.operation] at hbelow
        have := hiff.mpr (by omega)
        omega
      · rw [hslot] at hnone
        cases hnone
      · rw [run_unsealed hledger hunsealed] at hsealed
        cases hsealed
  · obtain ⟨client', hreaches', -, hfull', -⟩ := (StoreCall.refused_iff hmeter').mp hrun'
    have hclient' := (hreaches'.found hmeter').2
    rw [hwindow, run_limit_kept hledger hclient hclient' operation] at hfull'
    have := hiff.mp hfull'
    omega

/-! ### A refused client -/

instance (t : ℤ) (cs : List (Trans Ledger Commit)) : Decidable (ReadBy t cs) :=
  decidable_of_iff (∀ c ∈ cs, ∀ x ∈ c.label.reading?, x ≤ t)
    ⟨fun h c hc x hx => h c hc x hx, fun h c hc x hx => h c hc x hx⟩

namespace Scenario

/-- A client with a limit of two issues its third proof within a minute, and is revoked. -/
def refusedAndRevoked : List SystemMove :=
  served ++ thread 0 2 10 (.api (.issueProof (issueRequest 25))) 1001 40 ++
    thread 0 3 10 (.api (.issueProof (issueRequest 25))) 1001 60 ++
    thread 0 4 10 (.api (.issueProof (issueRequest 25))) 1002 80 ++
    thread 0 5 2 (.api (.revokeClient (.str (Scenario.clientId 24)))) 1003 100

/-- The call that an event refused for quota, with its choice and its answer. -/
def refusal? : SystemEvent → Option (StoreCall × Choice × ℤ)
  | .act _ _ _ (.store call) i (.error (.rateLimitError r)) => some (call, i, r)
  | _ => none

/-- The credential of a call is rejected. -/
def rejects (call : StoreCall) (x : Chance) (db : Ledger) : Bool :=
  match Tx.run (call.tx x) db with
  | .error (.permissionError _) => true
  | _ => false

end Scenario

theorem refusal?_eq_some {l : SystemEvent} {call : StoreCall} {i : Choice} {r : ℤ}
    (h : Scenario.refusal? l = some (call, i, r)) :
    ∃ tid p q, l = .act tid p q (.store call) i (.error (.rateLimitError r)) := by
  unfold Scenario.refusal? at h
  split at h
  · next tid p q call' i' r' =>
    obtain ⟨rfl, hrest⟩ := Prod.mk.inj (Option.some.inj h)
    obtain ⟨rfl, rfl⟩ := Prod.mk.inj hrest
    exact ⟨tid, p, q, rfl⟩
  · cases h

/-- A refusal of a run, and a revocation after it. -/
theorem exists_refusal : ∃ τ s s₁ tid p q call i τ' s', SystemRun plainHash τ s ∧
    (system plainHash).Step s (.act tid p q (.store call) i (.error (.rateLimitError 59))) s₁ ∧
    ReadBy i.now (commits τ) ∧ i.now = 1002 ∧
    call.meter = some (Scenario.clientId 24, .issue) ∧
    Run (system plainHash).Step s₁ τ' s' ∧ ReadBy 1003 (commits τ') ∧ slots (commits τ') = [] ∧
    Scenario.rejects call ⟨1004, i.draws⟩ s'.world.ledger = true := by
  obtain ⟨τ, u, τ', s', ⟨kidBytes, key, hrun⟩, hu, hP⟩ := exists_systemRun_cut
    Scenario.refusedAndRevoked (fun l => (Scenario.refusal? l).isSome)
    (fun τ u τ' s' => (Scenario.refusal? u.label).any (fun y => y.2.2 = 59 ∧
      (ReadBy y.2.1.now (commits τ) ∧ y.2.1.now = 1002) ∧
      (y.1.meter = some (Scenario.clientId 24, .issue) ∧ ReadBy 1003 (commits τ')) ∧
      (slots (commits τ')).isEmpty ∧
      Scenario.rejects y.1 ⟨1004, y.2.1.draws⟩ s'.world.ledger) = true) (by decide +kernel)
  obtain ⟨⟨call, i, r⟩, hrefusal, hP⟩ := (Option.any_eq_true _ _).mp hP
  obtain ⟨hr, ⟨hread, hnow⟩, ⟨hmeter, hread'⟩, hslots, hrejects⟩ := of_decide_eq_true hP
  obtain ⟨hτ, hstep, hτ'⟩ := hrun.of_cut
  obtain ⟨tid, p, q, hlabel⟩ := refusal?_eq_some hrefusal
  dsimp only at hr hread hnow hmeter hrejects
  rw [hr] at hlabel
  rw [hlabel] at hstep
  exact ⟨τ, u.src, u.dst, tid, p, q, call, i, τ', s', ⟨kidBytes, key, hτ⟩, hstep, hread, hnow,
    hmeter, hτ', hread', List.isEmpty_iff.mp hslots, hrejects⟩

/-- A third proof within a minute has to wait until the first one is a minute old. -/
theorem retry_after_exact_refused : ∃ τ s s₁ tid p q call i, SystemRun plainHash τ s ∧
    (system plainHash).Step s (.act tid p q (.store call) i (.error (.rateLimitError 59))) s₁ ∧
    ∀ τ' s', Run (system plainHash).Step s₁ τ' s' →
      Unadmitted (Scenario.clientId 24) .issue (commits τ') → ∀ (call' : StoreCall) (x : Chance),
        call'.meter = some (Scenario.clientId 24, .issue) → 1002 ≤ x.now →
          ReadBy x.now (commits τ') → RetriedAs 1002 59 call' x s'.world.ledger := by
  obtain ⟨τ, s, s₁, tid, p, q, call, i, -, -, hrun, hstep, hread, hnow, hmeter, -⟩ := exists_refusal
  refine ⟨τ, s, s₁, tid, p, q, call, i, hrun, hstep, ?_⟩
  rw [← hnow]
  refine (retry_after_exact (.created hrun) hstep ?_ hmeter).2.2
  simpa [lineageCommits] using hread

/-- **A revocation in the meantime** answers the retry in another way: not every refused operation
is refused for quota until the time is over. -/
theorem retry_after_counterexample : ¬ ∀ runs s s₁ tid p q call i r clientId operation,
    Lineage plainHash runs s →
    (system plainHash).Step s (.act tid p q (.store call) i (.error (.rateLimitError r))) s₁ →
    ReadBy i.now (lineageCommits runs) → call.meter = some (clientId, operation) →
    ∀ τ s', Run (system plainHash).Step s₁ τ s' → Unadmitted clientId operation (commits τ) →
      ∀ x : Chance, i.now ≤ x.now → ReadBy x.now (commits τ) → x.now < i.now + r →
        ∃ r', Tx.run (call.tx x) s'.world.ledger = .error (.rateLimitError r') := by
  intro hclaim
  obtain ⟨τ, s, s₁, tid, p, q, call, i, τ', s', hrun, hstep, hread, hnow, hmeter, hτ', hread',
    hslots, hrejects⟩ := exists_refusal
  have hlater : ReadBy 1004 (commits τ') := by
    intro c hc x hx
    have := hread' c hc x hx
    omega
  obtain ⟨r', hr'⟩ := hclaim [τ] s s₁ tid p q call i 59 _ _ (.created hrun) hstep
    (by simpa [lineageCommits] using hread) hmeter τ' s' hτ'
    (fun e he => by rw [hslots] at he; cases he) ⟨1004, i.draws⟩
    (hnow.le.trans (by decide : (1002 : ℤ) ≤ 1004)) hlater
    (by rw [hnow]; exact (by decide : (1004 : ℤ) < 1002 + 59))
  rw [Scenario.rejects, hr'] at hrejects
  cases hrejects

end Onceproof

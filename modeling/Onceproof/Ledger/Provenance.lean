import Onceproof.Ledger.Clock

/-!
# Where the transitions of a run come from

`SystemRun.act` and `SystemRun.ret` read the specification of the requests off a run: a
command is executed in the world before it and supplied by what its thread did, and a thread
returns what its history says. `StoreCall.WellFormed` is what this says about the arguments of
the store's writing methods, for use in inductions over the ledger alone.
-/

namespace Onceproof

variable {H : HashLib} {τ τ₁ τ₂ : List SystemTrans} {s : SystemState} {u : SystemTrans}

/-- A command in a run. -/
theorem SystemRunFrom.act {w : World} (h : SystemRunFrom H w (τ₁ ++ u :: τ₂) s)
    {tid p : ℕ} {r : Request} {c : Op} {i : Choice} {a : c.Ans}
    (hl : u.label = .act tid p r c i a) :
    c.exec p tid i u.src.world = some (a, u.dst.world) ∧ Supplied H r (acted tid τ₁) c :=
  Machine.act_spec (Φ := Supplied H) (Ψ := Returned H) program_spec h hl

/-- A command of a run is executed in the world before it. -/
theorem SystemRunFrom.exec {w : World} (h : SystemRunFrom H w τ s) (hu : u ∈ τ)
    {tid p : ℕ} {r : Request} {c : Op} {i : Choice} {a : c.Ans}
    (hl : u.label = .act tid p r c i a) :
    c.exec p tid i u.src.world = some (a, u.dst.world) := by
  obtain ⟨τ₁, τ₂, rfl⟩ := List.append_of_mem hu
  exact (h.act hl).1

/-- A commit of a run is a step of the ledger. -/
theorem SystemRunFrom.ledgerStep {w : World} (h : SystemRunFrom H w τ s) (hu : u ∈ τ)
    {tid p : ℕ} {r : Request} {call : StoreCall} {i : Choice} {reply : call.Reply}
    (hl : u.label = .act tid p r (.store call) i (.ok reply)) :
    LedgerStep u.src.world.ledger ⟨call, i.chance, reply⟩ u.dst.world.ledger := by
  rcases Op.exec_store (h.exec hu hl) with ⟨reply', hreply, hstep, -⟩ | ⟨e, he, -⟩
  · obtain rfl := Except.ok.inj hreply
    exact hstep
  · cases he

/-- A return in a run. -/
theorem SystemRunFrom.ret {w : World} (h : SystemRunFrom H w (τ₁ ++ u :: τ₂) s)
    {tid p : ℕ} {r : Request} {x : Except Error Outcome} (hl : u.label = .ret tid p r x) :
    u.dst.world = u.src.world ∧ Returned H r (acted tid τ₁) x :=
  Machine.ret_spec (Φ := Supplied H) (Ψ := Returned H) program_spec h hl

/-- The part of a run up to a transition. -/
theorem SystemRunFrom.cut {w : World} (h : SystemRunFrom H w (τ₁ ++ u :: τ₂) s) :
    SystemRunFrom H w τ₁ u.src ∧ (system H).Step u.src u.label u.dst ∧
      Run (system H).Step u.dst τ₂ s :=
  Run.of_cut h

theorem SystemRun.of_append (h : SystemRun H (τ₁ ++ τ₂) s) :
    ∃ s', SystemRun H τ₁ s' ∧ Run (system H).Step s' τ₂ s := by
  obtain ⟨kidBytes, key, h⟩ := h
  obtain ⟨s', h₁, h₂⟩ := Run.of_append h
  exact ⟨s', ⟨kidBytes, key, h₁⟩, h₂⟩

theorem SystemRun.of_cut (h : SystemRun H (τ₁ ++ u :: τ₂) s) :
    SystemRun H τ₁ u.src ∧ (system H).Step u.src u.label u.dst ∧
      Run (system H).Step u.dst τ₂ s := by
  obtain ⟨kidBytes, key, h⟩ := h
  obtain ⟨h₁, hs, h₂⟩ := h.cut
  exact ⟨⟨kidBytes, key, h₁⟩, hs, h₂⟩

/-- A commit is a command of a thread that was supplied with its arguments. -/
theorem commit_supplied {w : World} (h : SystemRunFrom H w τ s) {t : Trans Ledger Commit}
    (ht : t ∈ commits τ) : ∃ τ₁ u τ₂ tid p r i, τ = τ₁ ++ u :: τ₂ ∧
      u.label = .act tid p r (.store t.label.call) i (.ok t.label.reply) ∧
      t.label.chance = i.chance ∧ t.src = u.src.world.ledger ∧ t.dst = u.dst.world.ledger ∧
      Supplied H r (acted tid τ₁) (.store t.label.call) := by
  obtain ⟨u, hu, tid, p, r, i, hl, hx, hsrc, hdst⟩ := mem_commits.mp ht
  obtain ⟨τ₁, τ₂, rfl⟩ := List.append_of_mem hu
  exact ⟨τ₁, u, τ₂, tid, p, r, i, rfl, hl, hx, hsrc, hdst, (h.act hl).2⟩

/-! ### Arguments -/

/-- What the service guarantees about a new client. -/
structure CreateClient.WellFormed (a : CreateClient) : Prop where
  clientId : a.clientId ≠ []
  issuance : a.issuanceCredential.clientId = a.clientId ∧ a.issuanceCredential.role = .issuance
  verification : a.verificationCredential.clientId = a.clientId ∧
    a.verificationCredential.role = .verification

/-- What the service guarantees about a rotation. -/
structure RotateCredential.WellFormed (a : RotateCredential) : Prop where
  clientId : a.replacement.clientId = a.clientId
  role : a.replacement.role = a.role
  grace : 0 ≤ a.graceSeconds

/-- What the service guarantees about a new proof. -/
structure ProofRecord.WellFormed (record : ProofRecord) : Prop where
  ttl : 1 ≤ record.expiresAt - record.issuedAt
  proofTag : record.proofTag ≠ []
  subject : record.subject ≠ []
  purpose : record.purpose ≠ []
  audience : record.audience ≠ []

/-- What the service guarantees about the arguments of a call. -/
def StoreCall.WellFormed : StoreCall → Prop
  | .createClient a => a.WellFormed
  | .rotateCredential a => a.WellFormed
  | .issueProof record _ => record.WellFormed
  | _ => True

theorem Service.integer_bounds {v : Json} {field : String} {low high n : ℤ}
    (h : Service.integer v field low high = .ok n) : low ≤ n ∧ n ≤ high := by
  unfold Service.integer at h
  split at h
  · split_ifs at h with hn
    exact Except.ok.inj h ▸ hn
  · cases h

theorem Service.text_ne_nil {v : Json} {field : String} {n : ℕ} {s : Str}
    (h : Service.text v field n = .ok s) : s ≠ [] := (Service.text_eq_ok.mp h).2.1

theorem Service.purpose_ne_nil {v : Json} {s : Str} (h : Service.purpose v = .ok s) :
    s ≠ [] := by
  obtain ⟨c, t, rfl, -⟩ := purposePattern_iff.mp (Service.purpose_eq_ok.mp h).2
  exact List.cons_ne_nil c t

theorem Service.audience_ne_nil {v : Json} {s : Str} (h : Service.audience v = .ok s) :
    s ≠ [] := Service.text_ne_nil (Service.audience_eq_ok.mp h).1

theorem Supplied.wellFormed {r : Request} {hist : Hist} {c : StoreCall}
    (h : Supplied H r hist (.store c)) : c.WellFormed := by
  cases c with
  | createClient a =>
    obtain ⟨⟨bytes, -, hid⟩, hrest⟩ := h
    exact ⟨hid ▸ List.append_ne_nil_of_left_ne_nil (by decide) _, ⟨hrest.1, hrest.2.1⟩, hrest.2.2⟩
  | rotateCredential a =>
    obtain ⟨q, -, hargs⟩ := h
    exact ⟨hargs.replacement.1, hargs.replacement.2, (Service.integer_bounds hargs.grace).1⟩
  | issueProof record check =>
    obtain ⟨-, q, proof, -, hargs⟩ := h
    refine ⟨hargs.ttl, ?_, Service.text_ne_nil hargs.subject, Service.purpose_ne_nil hargs.purpose,
      Service.audience_ne_nil hargs.audience⟩
    exact hargs.tag ▸ List.append_ne_nil_of_left_ne_nil (by decide) _
  | consumeProof | revokeClient | cleanup | activateRestoredBackup => trivial

theorem commit_wellFormed {w : World} (h : SystemRunFrom H w τ s) {t : Trans Ledger Commit}
    (ht : t ∈ commits τ) : t.label.call.WellFormed := by
  obtain ⟨_, _, _, _, _, _, _, -, -, -, -, -, hsupplied⟩ := commit_supplied h ht
  exact hsupplied.wellFormed

/-! ### Lifetimes -/

/-- `_MAX_TTL_SECONDS`. -/
def maxTtlSeconds : ℤ := 3600

/-- A command that issues no proof for longer than the cap. -/
def Op.Timely : Op → Prop
  | .store (.issueProof record _) => record.expiresAt - record.issuedAt ≤ maxTtlSeconds
  | _ => True

theorem Service.ttl_le {v : Json} {row : ClientRow} {client : ClientRecord} {n : ℤ}
    (hclient : clientFromRow row = .ok client) (h : Service.ttl v client = .ok n) :
    n ≤ maxTtlSeconds := by
  have hcap : client.proofTtlSeconds ≤ maxTtlSeconds := by
    unfold clientFromRow at hclient
    split at hclient
    · exact Except.ok.inj hclient ▸ row.proofTtl_check.2
    · cases hclient
  have hle : n ≤ client.proofTtlSeconds := by
    unfold Service.ttl at h
    split at h <;> exact (Service.integer_bounds h).2
  exact hle.trans hcap

theorem RequestCommand.timely {r : Request} {h : Hist} {c : Op} (hc : RequestCommand H r h c) :
    c.Timely := by
  have hcommanded := hc.commanded
  cases c with
  | store call =>
    cases call with
    | issueProof record check =>
      obtain ⟨q, proof, -, -, row, client, -, hclient, -, -, httl⟩ := hcommanded
      exact Service.ttl_le hclient httl
    | _ => trivial
  | _ => trivial

/-- **No request issues a proof for longer than the cap.** -/
theorem program_timely (r : Request) :
    (r.program H).Spec (fun _ c => c.Timely) (fun _ _ => True) [] :=
  (program_commands r).mono (fun _ _ => RequestCommand.timely) fun _ _ _ => trivial

/-- A committed issuance keeps to the cap. -/
theorem commit_timely {w : World} (h : SystemRunFrom H w τ s) {t : Trans Ledger Commit}
    (ht : t ∈ commits τ) {record : ProofRecord} {check : Str}
    (hcall : t.label.call = .issueProof record check) :
    record.expiresAt - record.issuedAt ≤ maxTtlSeconds := by
  obtain ⟨τ₁, u, τ₂, tid, p, r, i, rfl, hl, -⟩ := commit_supplied h ht
  have htimely := (Machine.act_spec (M := system H) (Φ := fun _ _ c => c.Timely)
    (Ψ := fun _ _ _ => True) program_timely h hl).2
  rw [hcall] at htimely
  exact htimely

/-! ### Later states -/

/-- What well formed commits keep holds from a transition of a run on. -/
theorem SystemRunFrom.after {w : World} {t : SystemTrans} {I : Ledger → Prop}
    (hI : ∀ {db l db'}, I db → LedgerStep db l db' → l.call.WellFormed → I db')
    (h : SystemRunFrom H w (τ₁ ++ t :: τ₂) s) (h₀ : I t.dst.world.ledger) :
    I s.world.ledger ∧ ∀ u ∈ τ₂, I u.src.world.ledger ∧ I u.dst.world.ledger := by
  have hkept : ∀ {a : List SystemTrans} {s' : SystemState}, a ⊆ τ₂ →
      Run (system H).Step t.dst a s' → I s'.world.ledger := by
    intro a s' hsub hrun
    refine (ledgerRun hrun).kept (fun c hc hi hs => hI hi hs ?_) h₀
    obtain ⟨u, hu, hrest⟩ := mem_commits.mp hc
    exact commit_wellFormed h (mem_commits.mpr
      ⟨u, List.mem_append_right _ (List.mem_cons_of_mem _ (hsub hu)), hrest⟩)
  have hafter := h.cut.2.2
  refine ⟨hkept (List.Subset.refl _) hafter, fun u hu => ?_⟩
  obtain ⟨a, b, rfl⟩ := List.append_of_mem hu
  obtain ⟨ha, hs, -⟩ := hafter.of_cut
  have hsrc := hkept (List.subset_append_left _ _) ha
  have hdst := hkept (a := a ++ [u]) (fun x hx => ?_) (ha.snoc hs)
  · exact ⟨hsrc, hdst⟩
  · rcases List.mem_append.mp hx with hx | hx
    · exact List.mem_append_left _ hx
    · rw [List.mem_singleton.mp hx]
      exact hu

end Onceproof

import Onceproof.Ledger.Decisions
import Onceproof.Scenario

/-!
# What a rotation bounds

A rotation ends the current credential of a role at `now + grace_seconds`. It does not touch
the credentials that earlier rotations left behind, so an older one with a later deadline
outlives it (`rotation_counterexample`). `rotation_bounds_iff` is the exact condition: every
previous credential of the role ends by the new deadline.
-/

namespace Onceproof

/-- A credential passes the status check that all four authorization checks share. -/
def Ledger.Honours (db : Ledger) (role : Role) (credentialId clientId : Str) (now : ℤ) : Prop :=
  ∃ row, db.credentials.get? credentialId = some row ∧ row.role = role ∧
    row.clientId = clientId ∧ credentialIsAccepted row now = true

instance (db : Ledger) (role : Role) (credentialId clientId : Str) (now : ℤ) :
    Decidable (db.Honours role credentialId clientId now) :=
  decidable_of_iff (∃ row ∈ db.credentials.get? credentialId, row.role = role ∧
    row.clientId = clientId ∧ credentialIsAccepted row now = true) Iff.rfl

/-- The credentials that rotations inserted. -/
def replacements (cs : List (Trans Ledger Commit)) : List Str :=
  cs.filterMap fun t => match t.label.call with
    | .rotateCredential a => some a.replacement.credentialId
    | _ => none

@[simp]
theorem replacements_append (cs cs' : List (Trans Ledger Commit)) :
    replacements (cs ++ cs') = replacements cs ++ replacements cs' := List.filterMap_append

/-- From the deadline of the rotation on, no credential of its client and role is honoured
but the replacements of this rotation and of later ones; `cs` are the commits from the
rotation on. -/
def RotationBounds (a : RotateCredential) (cs : List (Trans Ledger Commit)) (db : Ledger) :
    Prop :=
  ∀ id, id ∉ replacements cs → ∀ now, a.now + a.graceSeconds ≤ now →
    ¬ db.Honours a.role id a.clientId now

/-- Every previous credential of the role ends by the deadline of the rotation. -/
def PreviousEnd (a : RotateCredential) (db : Ledger) : Prop :=
  ∀ c ∈ db.credentials, c.clientId = a.clientId → c.role = a.role → c.status = .previous →
    ∀ validUntil, c.validUntil = some validUntil → validUntil ≤ a.now + a.graceSeconds

/-! ### The rotation -/

theorem credentialIsAccepted_previous {c : CredentialRow} (hc : c.status = .previous) {now : ℤ} :
    credentialIsAccepted c now = true ↔ ∃ v, c.validUntil = some v ∧ now < v := by
  unfold credentialIsAccepted
  rw [hc]
  cases c.validUntil <;> simp

/-- The rotation itself bounds what it finds if all of it ends in time. -/
theorem RotateEffect.bounds {a : RotateCredential} {event : Bytes} {db db' : Ledger}
    {reply : Str × ℤ} (h : RotateEffect a event db reply db')
    (hwf : (StoreCall.rotateCredential a).WellFormed) (hprevious : PreviousEnd a db)
    {id : Str} (hid : id ≠ a.replacement.credentialId) {now : ℤ}
    (hnow : a.now + a.graceSeconds ≤ now) : ¬ db'.Honours a.role id a.clientId now := by
  rintro ⟨row, hrow, hrole, howner, hacc⟩
  obtain ⟨hmem, rfl⟩ := Table.get?_eq_some.mp hrow
  rw [Table.mem_def, h.credentials] at hmem
  obtain ⟨c₀, -, hreply⟩ := h.current
  rcases List.mem_append.mp hmem with hmem | hmem
  · obtain ⟨c, hc, rfl⟩ := List.mem_map.mp hmem
    unfold CredentialRow.demote at hrole howner hacc
    split_ifs at hrole howner hacc with hcurrent
    · have hlt := (credentialIsAccepted_previous rfl).mp hacc
      obtain ⟨v, hv, hlt⟩ := hlt
      rw [← Option.some.inj hv, hreply] at hlt
      exact absurd hlt (not_lt.mpr hnow)
    · cases hstatus : c.status with
      | current =>
        exact h.noCurrent c hc hcurrent (howner.trans hwf.clientId.symm) (hrole.trans hwf.role.symm)
          hstatus
      | previous =>
        obtain ⟨v, hv, hlt⟩ := (credentialIsAccepted_previous hstatus).mp hacc
        have := hprevious c hc howner hrole hstatus v hv
        omega
      | revoked => simp [credentialIsAccepted, hstatus] at hacc
  · rw [List.mem_singleton.mp hmem] at hid
    exact hid rfl

/-- A previous credential with a later deadline is still honoured after the rotation. -/
theorem RotateEffect.honours_previous {a : RotateCredential} {event : Bytes} {db db' : Ledger}
    {reply : Str × ℤ} (h : RotateEffect a event db reply db') {c : CredentialRow}
    (hc : c ∈ db.credentials) (howner : c.clientId = a.clientId) (hrole : c.role = a.role)
    (hstatus : c.status = .previous) {v : ℤ} (hv : c.validUntil = some v)
    (hlate : a.now + a.graceSeconds < v) :
    db'.Honours a.role c.credentialId a.clientId (a.now + a.graceSeconds) := by
  obtain ⟨c₀, hc₀, hreply⟩ := h.current
  have hkeep : c.demote reply.1 reply.2 = c := by
    unfold CredentialRow.demote
    split_ifs with hid
    · obtain ⟨hmem₀, -, -, hcurrent⟩ := Ledger.currentCredential_eq_some hc₀
      rw [hreply] at hid
      rw [Table.eq_of_key_eq hc hmem₀ hid, hcurrent] at hstatus
      cases hstatus
    · rfl
  have hmem : c ∈ db'.credentials := by
    rw [Table.mem_def, h.credentials]
    exact List.mem_append_left _ (List.mem_map.mpr ⟨c, hc, hkeep⟩)
  exact ⟨c, Table.get?_eq_some.mpr ⟨hmem, rfl⟩, hrole, howner,
    (credentialIsAccepted_previous hstatus).mpr ⟨v, hv, hlate⟩⟩

/-! ### After the rotation -/

/-- The client exists, and none of its credentials outside a list is honoured from a time on. -/
structure Ledger.Bounded (db : Ledger) (a : RotateCredential) (ids : List Str) : Prop where
  known : (db.clients.get? a.clientId).isSome = true
  bounded : ∀ id, id ∉ ids → ∀ now, a.now + a.graceSeconds ≤ now →
    ¬ db.Honours a.role id a.clientId now

/-- **Step lemma**: only a rotation brings a credential of an existing client. -/
theorem Ledger.Bounded.step {db db' : Ledger} {l : Commit} {a : RotateCredential}
    {ids : List Str} (h : db.Bounded a ids) (hs : LedgerStep db l db')
    (hwf : l.call.WellFormed) : db'.Bounded a (ids ++ replacements [⟨db, l, db'⟩]) := by
  refine ⟨hs.client_kept h.known, fun id hid now hnow => ?_⟩
  obtain ⟨hid, hnew⟩ := not_or.mp (mt List.mem_append.mpr hid)
  rintro ⟨row, hrow, hrole, howner, hacc⟩
  have hold : ∀ {r : CredentialRow}, db.credentials.get? id = some r → r.role = a.role →
      r.clientId = a.clientId → credentialIsAccepted r now = false := by
    intro r hr hrole howner
    by_contra hne
    exact h.bounded id hid now hnow ⟨r, hr, hrole, howner, by simpa using hne⟩
  have hstep := hs.credential id
  rw [hrow] at hstep
  generalize hg : db.credentials.get? id = o at hstep
  -- no new client has the id of the rotated one
  have hfresh : ∀ {b : CreateClient} {x : Chance}, l = ⟨.createClient b, x, ()⟩ →
      b.clientId ≠ a.clientId := by
    rintro b x rfl heq
    cases hs.effect with
    | create effect =>
      obtain ⟨-, -, -, hfresh, -⟩ := effect.clients
      obtain ⟨client, hclient⟩ := Option.isSome_iff_exists.mp h.known
      obtain ⟨hmem, hid⟩ := Table.get?_eq_some.mp hclient
      exact hfresh client hmem (hid.trans heq.symm)
  cases hstep with
  | same =>
    rw [hold hg hrole howner] at hacc
    cases hacc
  | @inserted c t hins hnamed =>
    cases hins with
    | issuance b x => exact hfresh rfl (hwf.issuance.1.symm.trans howner)
    | verification b x => exact hfresh rfl (hwf.verification.1.symm.trans howner)
    | replacement b x reply =>
      refine hnew ?_
      simp [replacements, ← hnamed]
  | @demoted b x reply r label current owner role =>
    have haccr := hold hg hrole howner
    simp [credentialIsAccepted, current] at haccr
  | revoked => cases hacc

variable {H : HashLib} {τ₁ τ₂ : List SystemTrans} {t : SystemTrans} {s : SystemState}

theorem run_bounded {db db' : Ledger} {cs : List (Trans Ledger Commit)} {a : RotateCredential}
    {ids : List Str} (h : Run LedgerStep db cs db')
    (hwf : ∀ t ∈ cs, t.label.call.WellFormed) (h₀ : db.Bounded a ids) :
    db'.Bounded a (ids ++ replacements cs) := by
  induction h with
  | nil => simpa [replacements] using h₀
  | snoc _ hs ih =>
    rw [replacements_append, ← List.append_assoc]
    exact (ih fun t ht => hwf t (List.mem_append_left _ ht)).step hs
      (hwf _ (List.mem_append_right _ (List.mem_singleton_self _)))

/-- **The exact condition**: a rotation bounds every older credential in every later state if
and only if every previous credential of the role ends by the rotation's deadline. -/
theorem rotation_bounds_iff (h : SystemRun H (τ₁ ++ [t]) t.dst) {tid p : ℕ} {r : Request}
    {a : RotateCredential} {i : Choice} {reply : Str × ℤ}
    (hl : t.label = .act tid p r (.store (.rotateCredential a)) i (.ok reply)) :
    (∀ τ₂ s, SystemRun H (τ₁ ++ t :: τ₂) s →
      RotationBounds a (commits (t :: τ₂)) s.world.ledger) ↔
        PreviousEnd a t.src.world.ledger := by
  have heffect : RotateEffect a i.draws.event t.src.world.ledger reply t.dst.world.ledger ∧
      (StoreCall.rotateCredential a).WellFormed := by
    obtain ⟨kidBytes, key, hrun⟩ := h
    obtain ⟨hexec, hsupplied⟩ := SystemRunFrom.act hrun hl
    refine ⟨?_, hsupplied.wellFormed⟩
    rcases Op.exec_store hexec with ⟨reply', hreply, hs, -⟩ | ⟨e, he, -⟩
    · obtain rfl := Except.ok.inj hreply
      exact Store.rotateCredential_ok hs
    · cases he
  obtain ⟨heffect, hwf⟩ := heffect
  have hcommit : commits [t] = [⟨t.src.world.ledger,
      ⟨.rotateCredential a, i.chance, reply⟩, t.dst.world.ledger⟩] := by
    simp [commits, projectTrans, hl, SystemEvent.commit?]
  have hreplaced : replacements (commits [t]) = [a.replacement.credentialId] := by
    simp [hcommit, replacements]
  constructor
  · intro hbounds c hc howner hrole hstatus v hv
    -- otherwise the previous credential outlives the bound right after the rotation
    by_contra hlate
    refine hbounds [] t.dst h c.credentialId ?_ _ le_rfl
      (heffect.honours_previous hc howner hrole hstatus hv (not_le.mp hlate))
    rw [hreplaced, List.mem_singleton]
    exact heffect.freshId c hc
  · intro hprevious τ₂ s hrun id hid now hnow
    have hfirst : t.dst.world.ledger.Bounded a (replacements (commits [t])) := by
      refine ⟨?_, fun id hid now hnow => ?_⟩
      · rw [heffect.clients, ← hwf.clientId]
        exact heffect.owner
      · rw [hreplaced, List.mem_singleton] at hid
        exact heffect.bounds hwf hprevious hid hnow
    have hsplit : commits (t :: τ₂) = commits [t] ++ commits τ₂ := by
      rw [← commits_append]
      rfl
    rw [hsplit, replacements_append] at hid
    refine (run_bounded (ledgerRun hrun.of_cut.2.2) (fun u hu => ?_) hfirst).bounded id hid now
      hnow
    obtain ⟨kidBytes, key, hrun⟩ := hrun
    refine commit_wellFormed hrun ?_
    rw [commits_append, hsplit]
    exact List.mem_append_right _ (List.mem_append_right _ hu)

/-- The rotation that an event commits. -/
def SystemEvent.rotates? : SystemEvent → Option RotateCredential
  | .act _ _ _ (.store (.rotateCredential a)) _ (.ok _) => some a
  | _ => none

theorem rotates?_eq_some {l : SystemEvent} {a : RotateCredential}
    (h : SystemEvent.rotates? l = some a) :
    ∃ tid p r i reply, l = .act tid p r (.store (.rotateCredential a)) i (.ok reply) := by
  unfold SystemEvent.rotates? at h
  split at h
  · obtain rfl := Option.some.inj h
    exact ⟨_, _, _, _, _, rfl⟩
  · cases h

/-- A first rotation: it bounds the credential that the client was created with. -/
theorem rotation_bounds_first : ∃ τ₁ t a, t.label.rotates? = some a ∧ a.graceSeconds = 0 ∧
    ∀ τ₂ s, SystemRun plainHash (τ₁ ++ t :: τ₂) s →
      RotationBounds a (commits (t :: τ₂)) s.world.ledger := by
  obtain ⟨τ₁, t, τ₂, s, hrun, ht, hlast, hprevious⟩ := exists_systemRun_cut
    (Scenario.served ++
      .call 0 (.api (.rotateCredential (Scenario.rotateRequest 0))) ::
        Scenario.acts 2 10 1002 40)
    (fun l => (SystemEvent.rotates? l).any fun a => a.graceSeconds = 0)
    (fun _ t τ₂ _ => τ₂.length = 0 ∧
      ∀ c ∈ t.src.world.ledger.credentials.rows, c.status ≠ .previous) (by decide +kernel)
  obtain rfl := List.eq_nil_of_length_eq_zero hlast
  obtain ⟨a, ha, hgrace⟩ := (Option.any_eq_true _ _).mp ht
  obtain ⟨tid, p, r, i, reply, hl⟩ := rotates?_eq_some ha
  obtain ⟨h₁, hs, -⟩ := hrun.of_cut
  have hdst : SystemRun plainHash (τ₁ ++ [t]) t.dst := by
    obtain ⟨kidBytes, key, h₁⟩ := h₁
    exact ⟨kidBytes, key, h₁.snoc hs⟩
  exact ⟨τ₁, t, a, ha, of_decide_eq_true hgrace, (rotation_bounds_iff hdst hl).mpr
    fun c hc _ _ hstatus => absurd hstatus (hprevious c hc)⟩

/-- **The defect**: a rotation with a day of grace, then one with none: the first credential
is still honoured after the second rotation. -/
theorem rotation_counterexample : ¬ ∀ τ₁ t τ₂ s tid p r a i reply,
    SystemRun plainHash (τ₁ ++ t :: τ₂) s →
      t.label = .act tid p r (.store (.rotateCredential a)) i (.ok reply) →
        RotationBounds a (commits (t :: τ₂)) s.world.ledger := by
  intro hclaim
  obtain ⟨τ₁, t, τ₂, s, hrun, ht, hnew, hhonoured⟩ := exists_systemRun_cut
    (Scenario.served ++
      Scenario.thread 0 2 12 (.api (.rotateCredential (Scenario.rotateRequest 86400))) 1002 40 ++
      Scenario.thread 0 3 12 (.api (.rotateCredential (Scenario.rotateRequest 0))) 1003 60)
    (fun l => (SystemEvent.rotates? l).any fun a => a.graceSeconds = 0 ∧ a.now = 1003 ∧
      a.role = .verification ∧ a.clientId = Scenario.clientId 24)
    (fun _ t τ₂ s => lit "vc_" ++ hexlify [28] ∉ replacements (commits (t :: τ₂)) ∧
      s.world.ledger.Honours .verification (lit "vc_" ++ hexlify [28]) (Scenario.clientId 24)
        1003) (by decide +kernel)
  obtain ⟨a, ha, hargs⟩ := (Option.any_eq_true _ _).mp ht
  obtain ⟨hgrace, hnow, hrole, hclient⟩ := of_decide_eq_true hargs
  obtain ⟨tid, p, r, i, reply, hl⟩ := rotates?_eq_some ha
  refine hclaim τ₁ t τ₂ s tid p r a i reply hrun hl _ hnew 1003 (by omega) ?_
  rw [hrole, hclient]
  exact hhonoured

end Onceproof

import Onceproof.Keys.Exclusion
import Onceproof.Scenario

/-!
# No lost keyring update

Any number of `KeyRing` instances on one file, in every interleaving of their calls. The file
holds the result of the successful rotations and retirements, in the order of the lock, applied
to the generation it held at first; an instance whose memory differs from the file fails.
-/

namespace Onceproof

/-- A change of the keyring. -/
inductive RingMutation
  | rotated (kid : Str) (key : RootKey)
  | retired (kid : Str)

namespace RingMutation

/-- Apply a change to a generation. -/
def apply (k : KeyRing) : RingMutation → KeyRing
  | rotated kid key => k.rotated kid key
  | retired kid => if h : kid ≠ k.currentKid then k.retired kid h else k

/-- The id that becomes the current one. -/
def current? : RingMutation → Option Str
  | rotated kid _ => some kid
  | retired _ => none

end RingMutation

/-- Changes that the keyring allows, from one generation to another. -/
inductive KeyRing.Mutated (k₀ : KeyRing) : List RingMutation → KeyRing → Prop
  | nil : Mutated k₀ [] k₀
  | rotated {μ : List RingMutation} {k : KeyRing} {kid : Str} (before : Mutated k₀ μ k)
      (key : RootKey) (fresh : kid ∉ k.keys) :
      Mutated k₀ (μ ++ [.rotated kid key]) (k.rotated kid key)
  | retired {μ : List RingMutation} {k : KeyRing} {kid : Str} (before : Mutated k₀ μ k)
      (old : kid ≠ k.currentKid) (there : kid ∈ k.keys) :
      Mutated k₀ (μ ++ [.retired kid]) (k.retired kid old)

/-- A key that was there at first or was rotated in, and was not retired since. -/
def KeyRing.Survives (k₀ : KeyRing) (μ : List RingMutation) (kid : Str) (key : RootKey) : Prop :=
  (k₀.keyFor kid = some key ∧ .retired kid ∉ μ) ∨
    ∃ a b, μ = a ++ .rotated kid key :: b ∧ .retired kid ∉ b

namespace KeyRing.Mutated

variable {k₀ k : KeyRing} {μ : List RingMutation}

/-- The last change comes last, or after the one that is looked at. -/
private theorem snoc_eq {x y : RingMutation} {a b : List RingMutation}
    (h : μ ++ [x] = a ++ y :: b) : (μ = a ∧ x = y ∧ b = []) ∨
      ∃ b', b = b' ++ [x] ∧ μ = a ++ y :: b' := by
  rcases List.eq_nil_or_concat b with rfl | ⟨b', z, rfl⟩
  · obtain ⟨hμ, hx⟩ := List.append_inj' h rfl
    exact Or.inl ⟨hμ, List.singleton_inj.mp hx, rfl⟩
  · rw [List.concat_eq_append] at h ⊢
    have h' : μ ++ [x] = (a ++ y :: b') ++ [z] := by simpa using h
    obtain ⟨hμ, hx⟩ := List.append_inj' h' rfl
    exact Or.inr ⟨b', by rw [List.singleton_inj.mp hx], hμ⟩

/-- The changes determine the generation. -/
theorem eq_foldl (h : Mutated k₀ μ k) : k = μ.foldl RingMutation.apply k₀ := by
  induction h with
  | nil => rfl
  | rotated before key fresh ih =>
    rw [List.foldl_append, ← ih]
    rfl
  | retired before old there ih =>
    rw [List.foldl_append, ← ih, List.foldl_cons, List.foldl_nil, RingMutation.apply,
      dif_pos old]

/-- The current id is the one that was rotated in last. -/
theorem currentKid_eq (h : Mutated k₀ μ k) :
    k.currentKid = (μ.filterMap RingMutation.current?).getLast?.getD k₀.currentKid := by
  induction h with
  | nil => rfl
  | rotated before key fresh ih => simp [RingMutation.current?, KeyRing.rotated]
  | retired before old there ih => simpa [RingMutation.current?, KeyRing.retired] using ih

/-- The keys are those that were not retired. -/
theorem keyFor_iff (h : Mutated k₀ μ k) {kid : Str} {key : RootKey} :
    k.keyFor kid = some key ↔ k₀.Survives μ kid key := by
  induction h with
  | nil => simp [Survives]
  | @rotated μ k kid' before key' fresh ih =>
    have hnone : k.keyFor kid' = none := Finmap.lookup_eq_none.mpr fresh
    rw [keyFor_rotated]
    split_ifs with hkid
    · subst hkid
      constructor
      · intro hkey
        obtain rfl := Option.some.inj hkey
        exact Or.inr ⟨μ, [], rfl, by simp⟩
      · -- another key under the new id would be in the generation before
        have hbefore : ¬ k₀.Survives μ kid key := fun hsurvives => by
          rw [ih.mpr hsurvives] at hnone
          cases hnone
        rintro (⟨hkey, hnot⟩ | ⟨a, b, hμ, hnot⟩)
        · exact absurd (Or.inl ⟨hkey, fun hmem => hnot (List.mem_append_left _ hmem)⟩) hbefore
        · rcases snoc_eq hμ with ⟨-, heq, -⟩ | ⟨b', rfl, rfl⟩
          · rw [(RingMutation.rotated.inj heq).2]
          · exact absurd (Or.inr ⟨a, b', rfl, fun hmem => hnot (List.mem_append_left _ hmem)⟩)
              hbefore
    · rw [ih]
      constructor
      · rintro (⟨hkey, hnot⟩ | ⟨a, b, rfl, hnot⟩)
        · exact Or.inl ⟨hkey, by simpa using hnot⟩
        · exact Or.inr ⟨a, b ++ [.rotated kid' key'], by simp, by simpa using hnot⟩
      · rintro (⟨hkey, hnot⟩ | ⟨a, b, hμ, hnot⟩)
        · exact Or.inl ⟨hkey, by simpa using hnot⟩
        · rcases snoc_eq hμ with ⟨-, heq, -⟩ | ⟨b', rfl, rfl⟩
          · exact absurd (RingMutation.rotated.inj heq).1.symm hkid
          · exact Or.inr ⟨a, b', rfl, by simpa using hnot⟩
  | @retired μ k kid' before old there ih =>
    rw [keyFor_retired]
    split_ifs with hkid
    · subst hkid
      refine ⟨fun hkey => absurd hkey (by simp), ?_⟩
      rintro (⟨-, hnot⟩ | ⟨a, b, hμ, hnot⟩)
      · exact absurd (List.mem_append_right _ List.mem_cons_self) hnot
      · rcases snoc_eq hμ with ⟨-, heq, -⟩ | ⟨b', rfl, -⟩
        · cases heq
        · exact absurd (List.mem_append_right _ List.mem_cons_self) hnot
    · rw [ih]
      constructor
      · rintro (⟨hkey, hnot⟩ | ⟨a, b, rfl, hnot⟩)
        · exact Or.inl ⟨hkey, by simpa [hkid] using hnot⟩
        · exact Or.inr ⟨a, b ++ [.retired kid'], by simp, by simpa [hkid] using hnot⟩
      · rintro (⟨hkey, hnot⟩ | ⟨a, b, hμ, hnot⟩)
        · exact Or.inl ⟨hkey, fun hmem => hnot (List.mem_append_left _ hmem)⟩
        · rcases snoc_eq hμ with ⟨-, heq, -⟩ | ⟨b', rfl, rfl⟩
          · cases heq
          · exact Or.inr ⟨a, b', rfl, fun hmem => hnot (List.mem_append_left _ hmem)⟩

/-- The current key is never retired. -/
theorem not_current (h : Mutated k₀ μ k) {a b : List RingMutation} {kid : Str}
    (hμ : μ = a ++ .retired kid :: b) : kid ≠ (a.foldl RingMutation.apply k₀).currentKid := by
  induction h generalizing b with
  | nil => simp at hμ
  | rotated before key fresh ih =>
    rcases snoc_eq hμ with ⟨-, heq, -⟩ | ⟨b', -, hμ'⟩
    · cases heq
    · exact ih hμ'
  | retired before old there ih =>
    rcases snoc_eq hμ with ⟨rfl, heq, -⟩ | ⟨b', -, hμ'⟩
    · rw [← before.eq_foldl, ← RingMutation.retired.inj heq]
      exact old
    · exact ih hμ'

end KeyRing.Mutated

/-! ### The changes of a run -/

/-- The change that a call makes when it replaces the file by `k`. -/
def RingRequest.mutation? : RingRequest → KeyRing → Option RingMutation
  | rotate, k => some (.rotated k.currentKid k.currentKey.2)
  | retire kid _ _, _ => some (.retired kid)
  | _, _ => none

/-- The generation that a command has written. -/
def replaced? : Answered Op Op.Ans → Option KeyRing
  | ⟨.replaceKeyring k, .ok _⟩ => some k
  | _ => none

/-- The change that an event is. -/
def RingEvent.mutation? : RingEvent → Option RingMutation
  | .act _ _ r c _ a => (replaced? ⟨c, a⟩).bind r.mutation?
  | _ => none

/-- The changes of a run, in order. -/
def mutations (τ : List RingTrans) : List RingMutation :=
  τ.filterMap fun t => RingEvent.mutation? t.label

/-- The changes of a run that one call made. -/
def mutationsOf (tid : ℕ) (τ : List RingTrans) : List RingMutation :=
  mutations (τ.filter fun t => (t.label.acted? tid).isSome)

/-- What a call has changed when it returns: a rotation and a retirement that succeeded changed
the keyring once, and nothing else changed it. -/
def RingRequest.Changes : RingRequest → Except Error (Option Str) → List RingMutation → Prop
  | rotate, .ok v, μ => ∃ kid key, μ = [.rotated kid key] ∧ ∀ kid', v = some kid' → kid' = kid
  | retire kid _ _, .ok _, μ => μ = [.retired kid]
  | _, _, μ => μ = []

/-- The generations that a call has written. -/
def replacementsOf (tid : ℕ) (τ : List RingTrans) : List KeyRing :=
  (acted tid τ).filterMap replaced?

variable {k₀ : KeyRing} {τ : List RingTrans} {s : RingState}

theorem eq_of_replaced? {x : Answered Op Op.Ans} {k : KeyRing} (h : replaced? x = some k) :
    x = ⟨.replaceKeyring k, .ok ()⟩ := by
  obtain ⟨c, a⟩ := x
  cases c with
  | replaceKeyring k' =>
    cases a with
    | ok u =>
      obtain rfl := Option.some.inj h
      rfl
    | error e => cases h
  | _ => cases h

theorem mem_replacementsOf {tid : ℕ} {k : KeyRing} :
    k ∈ replacementsOf tid τ ↔ ReplacedBy (acted tid τ) k := by
  rw [replacementsOf, ReplacedBy, List.mem_filterMap]
  constructor
  · rintro ⟨x, hmem, hx⟩
    rwa [eq_of_replaced? hx] at hmem
  · intro hmem
    exact ⟨_, hmem, rfl⟩

/-- A replacement is a change that the keyring allows. -/
theorem RingInvariant.replaces {tid p : ℕ} {r : RingRequest} {hist : Hist} {k : KeyRing}
    (hs : RingSound s.world tid p r (known hist)) (hagreed : (known hist).Agreed)
    (hreplaces : r.Replaces (known hist) k) {μ : List RingMutation}
    (hbefore : k₀.Mutated μ s.world.keyring) {i : Choice} :
    ∃ x, RingEvent.mutation? (.act tid p r (.replaceKeyring k) i (.ok ())) = some x ∧
      k₀.Mutated (μ ++ [x]) k := by
  obtain ⟨hlock, d, hread, hd⟩ := hagreed
  -- every generation that was seen in memory is the one on disk
  have hdisk : ∀ m ∈ (known hist).memories, m = s.world.keyring := by
    intro m hm
    have hmemory := (hs.memory hlock m hm).symm.trans (hs.memory hlock d hd)
    rw [hs.read hlock d hread]
    exact Option.some.inj hmemory
  cases hreplaces with
  | @rotated _ m kid key hm fresh =>
    obtain rfl := hdisk _ hm
    have hnew : kid ∉ s.world.keyring.keys := fun hmem =>
      hs.drawn _ _ fresh (Finmap.mem_keys.mpr hmem)
    refine ⟨_, rfl, ?_⟩
    have hkey : (s.world.keyring.rotated kid key).currentKey.2 = key := by
      have hcurrent : (s.world.keyring.rotated kid key).keyFor kid =
        some (s.world.keyring.rotated kid key).currentKey.2 := KeyRing.keyFor_currentKey _
      rw [KeyRing.keyFor_rotated, if_pos rfl] at hcurrent
      exact (Option.some.inj hcurrent).symm
    rw [hkey]
    exact hbefore.rotated key hnew
  | retired old hm there =>
    obtain rfl := hdisk _ hm
    exact ⟨_, rfl, hbefore.retired old there⟩

/-- **The file is changed only as the keyring allows.** -/
theorem RingRun.mutated (h : RingRun k₀ τ s) : k₀.Mutated (mutations τ) s.world.keyring := by
  obtain ⟨ledger, hrun⟩ := h
  refine hrun.history (P := fun τ s => k₀.Mutated (mutations τ) s.world.keyring) .nil ?_
  intro τ s l s' hrun hbefore hstep
  have hs : RingInvariant s := RingRun.invariant ⟨ledger, hrun⟩
  have hsnoc : mutations (τ ++ [⟨s, l, s'⟩]) =
      mutations τ ++ (RingEvent.mutation? l).toList := by
    rw [mutations, List.filterMap_append, ← mutations]
    cases hl : RingEvent.mutation? l <;> simp [hl]
  rw [hsnoc]
  -- a step that replaces nothing
  have hnone : RingEvent.mutation? l = none → s'.world.keyring = s.world.keyring →
      k₀.Mutated (mutations τ ++ (RingEvent.mutation? l).toList) s'.world.keyring := by
    intro hl hkeyring
    rw [hl, hkeyring]
    simpa using hbefore
  cases hstep with
  | call admitted =>
    refine hnone rfl ?_
    cases RingRequest.accept_eq_some admitted <;> rfl
  | @act tid p r hist c kont i a w' running executed =>
    have hallowed : RingRules r hist c := (Machine.spec_running ring_allowed hrun _ _ running).1
    by_cases hc : ∃ k, c = .replaceKeyring k
    · obtain ⟨k, rfl⟩ := hc
      have hexec : (Op.replaceKeyring k).exec p tid i.faultless s.world = some (a, w') := executed
      obtain ⟨rfl, rfl⟩ := Op.exec_replaceKeyring hexec
      obtain ⟨x, hx, hmutated⟩ :=
        RingInvariant.replaces (i := i) (hs.sound tid _ running) hallowed.1
        hallowed.2.2.2.2 hbefore
      rw [hx]
      exact hmutated
    · refine hnone ?_ (Op.exec_keyring executed fun k hk => hc ⟨k, hk⟩)
      have hnone : replaced? ⟨c, a⟩ = none := by
        cases hreplaced : replaced? ⟨c, a⟩ with
        | none => rfl
        | some k => exact absurd ⟨k, congrArg Sigma.fst (eq_of_replaced? hreplaced)⟩ hc
      rw [RingEvent.mutation?, hnone]
      rfl
  | ret => exact hnone rfl rfl
  | stop p => exact hnone rfl rfl

/-! ### What a call returns -/

/-- Without filesystem faults, no command on the keyring fails. -/
theorem RingRun.clean (h : RingRun k₀ τ s) (tid : ℕ) : Clean (acted tid τ) := by
  obtain ⟨ledger, hrun⟩ := h
  intro c e hmem hc
  obtain ⟨t, ht, p, r, i, hl⟩ := mem_acted.mp hmem
  obtain ⟨τ₁, τ₂, rfl⟩ := List.append_of_mem ht
  have hexec : c.exec p tid i.faultless t.src.world = some (.error e, t.dst.world) :=
    (Machine.act_spec ring_allowed hrun hl).1
  cases c with
  | acquire l => cases (Op.exec_acquire hexec).1
  | release l => cases (Op.exec_release hexec).1
  | readKeyring => cases (Op.exec_readKeyring hexec).1
  | replaceKeyring k => cases (Op.exec_replaceKeyring hexec).1
  | memory =>
    obtain ⟨m, -, ha, -⟩ := Op.exec_memory hexec
    cases ha
  | setMemory m => cases (Op.exec_setMemory hexec).1
  | newKid existing =>
    obtain ⟨kid, -, ha, -⟩ := Op.exec_newKid hexec
    cases ha
  | newRootKey => cases (Prod.mk.inj (Option.some.inj hexec)).1
  | _ => exact hc

/-- A call replaces the file at most once. -/
theorem RingRun.replacementsOf_length_le (h : RingRun k₀ τ s) (tid : ℕ) :
    (replacementsOf tid τ).length ≤ 1 := by
  obtain ⟨ledger, hrun⟩ := h
  refine hrun.history (P := fun τ _ => (replacementsOf tid τ).length ≤ 1)
    (by simp [replacementsOf, acted])
    ?_
  intro τ s l s' hrun hle hstep
  have hsnoc : replacementsOf tid (τ ++ [⟨s, l, s'⟩]) =
      replacementsOf tid τ ++ replacementsOf tid [⟨s, l, s'⟩] := by
    simp [replacementsOf]
  rw [hsnoc]
  by_cases hl : ∃ p r k i, l = .act tid p r (.replaceKeyring k) i (.ok ())
  · obtain ⟨p, r, k, i, rfl⟩ := hl
    have hrun' := hrun.append (Run.single hstep)
    have hallowed := (Machine.act_spec ring_allowed hrun' (t := ⟨s, _, s'⟩) rfl).2
    have hnil : replacementsOf tid τ = [] := by
      refine List.eq_nil_iff_forall_not_mem.mpr fun k' hk' => ?_
      exact hallowed.2.2.2.1.not_replacedBy k' (mem_replacementsOf.mp hk')
    rw [hnil, List.nil_append, replacementsOf, acted_singleton]
    refine (List.length_filterMap_le _ _).trans ?_
    simp [Event.acted?]
  · have hnil : replacementsOf tid [⟨s, l, s'⟩] = [] := by
      refine List.eq_nil_iff_forall_not_mem.mpr fun k hk => hl ?_
      obtain ⟨t, ht, p, r, i, htl⟩ := mem_acted.mp (mem_replacementsOf.mp hk)
      rw [List.mem_singleton.mp ht] at htl
      exact ⟨p, r, k, i, htl⟩
    rw [hnil]
    simpa using hle

/-- The changes of a call are the generations it has written. -/
theorem mutationsOf_eq {tid : ℕ} {r : RingRequest}
    (hreq : ∀ t ∈ τ, ∀ p' r', t.label.thread? = some (tid, p', r') → r' = r) :
    mutationsOf tid τ = (replacementsOf tid τ).filterMap r.mutation? := by
  induction τ with
  | nil => rfl
  | cons t τ ih =>
    have hrest := ih fun u hu => hreq u (List.mem_cons_of_mem _ hu)
    have hcons : mutationsOf tid (t :: τ) = mutationsOf tid [t] ++ mutationsOf tid τ := by
      rw [mutationsOf, mutationsOf, mutationsOf, mutations, mutations, mutations,
        ← List.filterMap_append, ← List.filter_append]
      rfl
    have hcons' : replacementsOf tid (t :: τ) = replacementsOf tid [t] ++ replacementsOf tid τ := by
      rw [replacementsOf, replacementsOf, replacementsOf, ← List.filterMap_append, ← acted_append]
      rfl
    rw [hcons, hcons', List.filterMap_append, hrest]
    congr 1
    have hthis := hreq _ List.mem_cons_self
    obtain ⟨src, l, dst⟩ := t
    cases l with
    | act tid' p' r' c i a =>
      by_cases htid : tid' = tid
      · subst htid
        obtain rfl := hthis p' r' rfl
        have hself : Event.acted? tid' (.act tid' p' r' c i a : RingEvent) = some ⟨c, a⟩ := by
          simp [Event.acted?]
        rw [replacementsOf, acted_singleton, hself, Option.toList_some, mutationsOf, mutations,
          List.filter_cons_of_pos (by rw [hself]; rfl), List.filter_nil]
        cases hx : replaced? ⟨c, a⟩ with
        | none => simp [RingEvent.mutation?, hx]
        | some k => simp [RingEvent.mutation?, hx, List.filterMap_cons]
      · simp [mutationsOf, mutations, replacementsOf, acted_singleton, Event.acted?, htid]
    | call => simp [mutationsOf, mutations, replacementsOf, acted_singleton, Event.acted?]
    | ret => simp [mutationsOf, mutations, replacementsOf, acted_singleton, Event.acted?]
    | stop => simp [mutationsOf, mutations, replacementsOf, acted_singleton, Event.acted?]

/-- **A mutation that returned has changed the keyring once, one that raised has not.** -/
theorem RingRun.returned {τ₁ τ₂ : List RingTrans} {t : RingTrans} {tid p : ℕ} {r : RingRequest}
    {x : Except Error (Option Str)} (h : RingRun k₀ (τ₁ ++ t :: τ₂) s)
    (hl : t.label = .ret tid p r x) : r.Changes x (mutationsOf tid τ₁) := by
  obtain ⟨s₁, h₁⟩ : ∃ s₁, RingRun k₀ τ₁ s₁ := by
    obtain ⟨ledger, hrun⟩ := h
    exact ⟨_, ledger, hrun.of_cut.1⟩
  obtain ⟨ledger, hrun⟩ := h
  obtain ⟨-, hok, hrep, hkid⟩ := (Machine.ret_spec ring_allowed hrun hl).2 (h₁.clean tid)
  have hle := h₁.replacementsOf_length_le tid
  -- all that the thread did belongs to this call
  have hreq : ∀ u ∈ τ₁, ∀ p' r', u.label.thread? = some (tid, p', r') → r' = r :=
    fun u hu p' r' hu' => ((Machine.coherent hrun).unique u (by simp [hu]) t (by simp) tid p' r' p r
      hu' (by rw [hl]; rfl)).2
  rw [mutationsOf_eq hreq]
  have hmutation : r.IsMutation → ∀ v, x = .ok v → ∃ k, replacementsOf tid τ₁ = [k] := by
    intro hmut v hx
    obtain ⟨k, hk⟩ := hok hmut ⟨v, hx⟩
    exact List.length_eq_one_iff.mp
      (le_antisymm hle (List.length_pos_of_mem (mem_replacementsOf.mpr hk)))
  cases x with
  | error e =>
    have hnil : replacementsOf tid τ₁ = [] := by
      refine List.eq_nil_iff_forall_not_mem.mpr fun k hk => ?_
      obtain ⟨v, hv⟩ := hrep k (mem_replacementsOf.mp hk)
      cases hv
    rw [hnil]
    cases r <;> rfl
  | ok v =>
    cases r with
    | rotate =>
      obtain ⟨k, hk⟩ := hmutation trivial v rfl
      refine ⟨k.currentKid, k.currentKey.2, by rw [hk]; rfl, fun kid' hv => ?_⟩
      obtain ⟨k', hk', rfl⟩ := hkid kid' (by rw [hv])
      have hmem := mem_replacementsOf.mpr hk'
      rw [hk] at hmem
      rw [List.mem_singleton.mp hmem]
    | retire kid inUse passive =>
      obtain ⟨k, hk⟩ := hmutation trivial v rfl
      rw [hk]
      rfl
    | load | stable | backupWith => exact List.filterMap_eq_nil_iff.mpr fun _ _ => rfl

/-! ### Stale instances -/

/-- A call took the lock when the file held `F` and its instance remembered `M`. -/
structure LockedSince (F M : KeyRing) (tid : ℕ) (τ : List RingTrans) (s : RingState) : Prop where
  reads : ∀ d, ⟨.readKeyring, .ok d⟩ ∈ acted tid τ → d = F
  memories : ∀ m, ⟨.memory, .ok m⟩ ∈ acted tid τ → m = M
  called : acted tid τ ≠ []
  kept : ∀ th, s.threads tid = some th → ¬ th.req.IsLoad ∧
    (.keyringFile ∈ (known th.hist).held →
      s.world.keyring = F ∧ s.world.memoryOf th.owner = some M)

/-- What it saw cannot be the same generation. -/
theorem LockedSince.not_matched {F M : KeyRing} {tid : ℕ} (h : LockedSince F M tid τ s)
    (hne : F ≠ M) : ¬ Matched (acted tid τ) := by
  rintro ⟨d, hread, hmemory⟩
  exact hne ((h.reads d hread).symm.trans (h.memories d hmemory))

/-- What other threads do does not change it: the lock keeps the file and the memory. -/
theorem LockedSince.of_other {F M : KeyRing} {tid : ℕ} {w : World} {l : RingEvent}
    {s' : RingState} (h : LockedSince F M tid τ s) (hrun : Run ringMachine.Step (.start w) τ s)
    (hs : RingInvariant s) (hstep : ringMachine.Step s l s')
    (hother : ∀ p r c i a, l ≠ .act tid p r c i a) :
    LockedSince F M tid (τ ++ [⟨s, l, s'⟩]) s' := by
  have hcoherent := Machine.coherent hrun
  have hnone : l.acted? tid = none := Event.acted?_eq_none hother
  have hacted : acted tid (τ ++ [⟨s, l, s'⟩]) = acted tid τ := by
    rw [acted_append, acted_singleton, hnone]
    simp
  refine ⟨hacted ▸ h.reads, hacted ▸ h.memories, hacted ▸ h.called, fun th hth => ?_⟩
  rcases hstep.thread_origin hth with ⟨rfl, rfl, -, -⟩ | ⟨th₀, hth₀, howner, hreq, hhist, -⟩
  · exact absurd (hcoherent.acted_of_le le_rfl) h.called
  · obtain ⟨hr, hkept⟩ := h.kept th₀ hth₀
    rw [hnone, Option.toList_none, List.append_nil] at hhist
    refine ⟨hreq ▸ hr, fun hlock => ?_⟩
    rw [hhist] at hlock
    obtain ⟨hkeyring, hmemory⟩ := hkept hlock
    obtain ⟨hkeyring', hmemory'⟩ := hs.frame hrun hstep hth₀ hlock hother fun hstop => by
      subst hstop
      cases hstep
      have hgone := (Option.filter_eq_some_iff.mp hth).2
      exact absurd howner.symm (by simpa using hgone)
    rw [← howner]
    exact ⟨hkeyring'.trans hkeyring, hmemory'.trans hmemory⟩

/-- A stale call stays stale. -/
theorem LockedSince.step {F M : KeyRing} {tid : ℕ} {w : World} {l : RingEvent} {s' : RingState}
    (h : LockedSince F M tid τ s) (hne : F ≠ M) (hrun : Run ringMachine.Step (.start w) τ s)
    (hs : RingInvariant s) (hstep : ringMachine.Step s l s') :
    LockedSince F M tid (τ ++ [⟨s, l, s'⟩]) s' := by
  have hcoherent := Machine.coherent hrun
  by_cases hact : ∃ p r c i a, l = .act tid p r c i a
  · obtain ⟨p, r, c, i, a, rfl⟩ := hact
    have hacted : acted tid (τ ++ [⟨s, .act tid p r c i a, s'⟩]) = acted tid τ ++ [⟨c, a⟩] := by
      rw [acted_append, acted_singleton]
      simp [Event.acted?]
    cases hstep with
    | @act _ _ _ hist _ kont _ _ w' running executed =>
    have hexec : c.exec p tid i.faultless s.world = some (a, w') := executed
    have hallowed : RingRules r hist c := (Machine.spec_running ring_allowed hrun _ _ running).1
    obtain ⟨-, hhist, -⟩ := hcoherent.running _ _ running
    obtain ⟨hr, hkept⟩ := h.kept _ running
    dsimp only at hhist hr hkept
    have hmatched : ¬ Matched hist := by
      rw [hhist]
      exact h.not_matched hne
    -- nothing is left to it but to look at the two generations and to free the lock
    have hcases : (c = .readKeyring ∧ (known hist).held = [.keyringFile]) ∨
        (c = .memory ∧ (known hist).held = [.keyringFile]) ∨ c = .release .keyringFile := by
      cases c with
      | acquire => exact absurd (hhist ▸ hallowed.2.2) h.called
      | tryAcquire | startServing => exact hallowed.elim
      | release l =>
        obtain ⟨rfl, -⟩ := hallowed
        exact Or.inr (Or.inr rfl)
      | readKeyring => exact Or.inl ⟨rfl, hallowed.resolve_left hr⟩
      | memory => exact Or.inr (Or.inl ⟨rfl, hallowed.2⟩)
      | setMemory =>
        rcases hallowed.2 with ⟨hload, -⟩ | ⟨-, -, hm⟩
        · exact absurd hload hr
        · exact absurd hm hmatched
      | replaceKeyring => exact absurd hallowed.2.2.1 hmatched
      | _ => exact absurd hallowed.2 hmatched
    have hthread : ∀ th, Function.update s.threads tid
        (some ⟨p, r, hist ++ [⟨c, a⟩], kont a⟩) tid = some th →
          th = ⟨p, r, hist ++ [⟨c, a⟩], kont a⟩ := by
      intro th hth
      rw [Function.update_self] at hth
      exact (Option.some.inj hth).symm
    rcases hcases with ⟨rfl, hheld⟩ | ⟨rfl, hheld⟩ | rfl
    · obtain ⟨rfl, rfl⟩ := Op.exec_readKeyring hexec
      have hlock := hkept (by rw [hheld]; simp)
      refine ⟨?_, ?_, ?_, fun th hth => ?_⟩
      · rw [hacted]
        intro d hd
        rcases List.mem_append.mp hd with hd | hd
        · exact h.reads d hd
        · cases List.mem_singleton.mp hd
          exact hlock.1
      · rw [hacted]
        intro m hm
        rcases List.mem_append.mp hm with hm | hm
        · exact h.memories m hm
        · exact absurd (congrArg Sigma.fst (List.mem_singleton.mp hm)) Op.noConfusion
      · simp [hacted]
      · obtain rfl := hthread th hth
        exact ⟨hr, fun _ => hlock⟩
    · obtain ⟨m, hm, rfl, rfl⟩ := Op.exec_memory hexec
      have hlock := hkept (by rw [hheld]; simp)
      refine ⟨?_, ?_, ?_, fun th hth => ?_⟩
      · rw [hacted]
        intro d hd
        rcases List.mem_append.mp hd with hd | hd
        · exact h.reads d hd
        · exact absurd (congrArg Sigma.fst (List.mem_singleton.mp hd)) Op.noConfusion
      · rw [hacted]
        intro m' hm'
        rcases List.mem_append.mp hm' with hm' | hm'
        · exact h.memories m' hm'
        · cases List.mem_singleton.mp hm'
          exact Option.some.inj (hm.symm.trans hlock.2)
      · simp [hacted]
      · obtain rfl := hthread th hth
        exact ⟨hr, fun _ => hlock⟩
    -- freeing the lock reads nothing
    · have hfreed : ∀ c' : Op, c' = .readKeyring ∨ c' = .memory →
          ∀ a' : c'.Ans, (⟨c', a'⟩ : Answered Op Op.Ans) ∈
            acted tid τ ++ [⟨.release .keyringFile, a⟩] → ⟨c', a'⟩ ∈ acted tid τ := by
        intro c' hc' a' hmem
        rcases List.mem_append.mp hmem with hmem | hmem
        · exact hmem
        · have hfst := congrArg Sigma.fst (List.mem_singleton.mp hmem)
          rcases hc' with rfl | rfl <;> exact absurd hfst Op.noConfusion
      refine ⟨?_, ?_, ?_, fun th hth => ?_⟩
      · rw [hacted]
        exact fun d hd => h.reads d (hfreed _ (Or.inl rfl) _ hd)
      · rw [hacted]
        exact fun m hm => h.memories m (hfreed _ (Or.inr rfl) _ hm)
      · simp [hacted]
      · obtain rfl := hthread th hth
        refine ⟨hr, fun hlock => ?_⟩
        rw [known_snoc] at hlock
        simp [Knowledge.forget, hallowed.2.2] at hlock
  · exact h.of_other hrun hs hstep fun p r c i a hl => hact ⟨p, r, c, i, a, hl⟩

/-- **A stale instance fails without changing the file.** -/
theorem RingRun.stale {τ₁ τ₂ : List RingTrans} {t : RingTrans} {tid p : ℕ} {r : RingRequest}
    {i : Choice} (h : RingRun k₀ (τ₁ ++ t :: τ₂) s)
    (hl : t.label = .act tid p r (.acquire .keyringFile) i (.ok ()))
    (hstale : t.src.world.memoryOf p ≠ some t.src.world.keyring) :
    replacementsOf tid (τ₁ ++ t :: τ₂) = [] ∧ ∀ t' ∈ τ₂, ∀ p' r' x,
      t'.label = .ret tid p' r' x → x = .error (.valueError "keyring_changed_on_disk") := by
  obtain ⟨ledger, hrun⟩ := h
  obtain ⟨hbefore, hstep, hafter⟩ := hrun.of_cut
  obtain ⟨hexec, hallowed⟩ := Machine.act_spec ring_allowed hrun hl
  obtain ⟨-, hr, hfirst⟩ := hallowed
  -- the instance is loaded, with another generation than the file has
  obtain ⟨M, hM, hne⟩ : ∃ M, t.src.world.memoryOf p = some M ∧ t.src.world.keyring ≠ M := by
    rcases hstep.of_thread? (by rw [hl]; rfl) with ⟨hcall, -⟩ | ⟨th, hth, rfl, rfl⟩
    · rw [hl] at hcall
      cases hcall
    · have hs : RingInvariant t.src := RingRun.invariant ⟨ledger, hbefore⟩
      obtain ⟨M, hM⟩ := Option.isSome_iff_exists.mp ((hs.sound tid th hth).loaded hr)
      exact ⟨M, hM, fun heq => hstale (heq ▸ hM)⟩
  have hstart : LockedSince t.src.world.keyring M tid (τ₁ ++ [t]) t.dst := by
    have hacted : acted tid (τ₁ ++ [t]) = [⟨.acquire .keyringFile, .ok ()⟩] := by
      rw [acted_append, hfirst, acted_singleton, hl]
      simp [Event.acted?]
    refine ⟨?_, ?_, ?_, fun th hth => ?_⟩
    · rw [hacted]
      exact fun d hd => absurd (congrArg Sigma.fst (List.mem_singleton.mp hd)) Op.noConfusion
    · rw [hacted]
      exact fun m hm => absurd (congrArg Sigma.fst (List.mem_singleton.mp hm)) Op.noConfusion
    · simp [hacted]
    · obtain ⟨-, -, hnamed⟩ := (Machine.coherent (hbefore.append (Run.single hstep))).running tid th
        hth
      obtain ⟨rfl, rfl⟩ := hnamed t (by simp) p r (by rw [hl]; rfl)
      obtain ⟨-, -, hw⟩ := Op.exec_acquire hexec
      rw [hw]
      exact ⟨hr, fun _ => ⟨rfl, hM⟩⟩
  have hlocked : ∀ ρ s', Run ringMachine.Step t.dst ρ s' →
      LockedSince t.src.world.keyring M tid (τ₁ ++ t :: ρ) s' := by
    intro ρ s' hρ
    have hprefix : Run ringMachine.Step (.start ⟨ledger, k₀, fun _ => none, fun _ => none⟩)
        (τ₁ ++ [t]) t.dst := hbefore.append (Run.single hstep)
    have hall := hρ.history (P := fun ρ s' => LockedSince t.src.world.keyring M tid
      (τ₁ ++ [t] ++ ρ) s') (by simpa using hstart) fun {ρ s₁ l s₂} hρ hlocked hstep' => by
        have hrun₁ := hprefix.append hρ
        have hs₁ : RingInvariant s₁ := RingRun.invariant ⟨ledger, hrun₁⟩
        rw [← List.append_assoc]
        exact hlocked.step hne hrun₁ hs₁ hstep'
    simpa using hall
  have hunmatched : ∀ ρ s', Run ringMachine.Step t.dst ρ s' →
      ¬ Matched (acted tid (τ₁ ++ t :: ρ)) := fun ρ s' hρ => (hlocked ρ s' hρ).not_matched hne
  constructor
  · refine List.eq_nil_iff_forall_not_mem.mpr fun k hk => ?_
    obtain ⟨u, hu, p', r', j, hul⟩ := mem_acted.mp (mem_replacementsOf.mp hk)
    obtain ⟨σ₁, σ₂, hcut⟩ := List.append_of_mem hu
    have hrule := (Machine.act_spec ring_allowed (hcut ▸ hrun) hul).2
    -- the replacement would come after the lock was taken
    rcases cut_cases hcut with ⟨rfl, rfl, -⟩ | ⟨ρ, hρ, hτ₂⟩ | ⟨ρ, hρ, -⟩
    · rw [hl] at hul
      exact absurd (Event.act.inj hul).2.2.2.1 Op.noConfusion
    · have hafter' := (hτ₂ ▸ hafter).of_cut.1
      exact hunmatched ρ _ hafter' (hρ ▸ hrule.2.2.1)
    · have hmem : (⟨.replaceKeyring k, .ok ()⟩ : Answered Op Op.Ans) ∈ acted tid τ₁ :=
        mem_acted.mpr ⟨u, by rw [hρ]; simp, p', r', j, hul⟩
      rw [hfirst] at hmem
      cases hmem
  · intro t' ht' p' r' x hl'
    obtain ⟨ρ, ρ', rfl⟩ := List.append_of_mem ht'
    have hassoc : τ₁ ++ t :: (ρ ++ t' :: ρ') = (τ₁ ++ t :: ρ) ++ t' :: ρ' := by simp
    have hrun' := hassoc ▸ hrun
    have hρ := hrun'.of_cut.1
    -- the call that returns is the one that took the lock
    obtain ⟨-, hreq⟩ := (Machine.coherent hrun).unique t' (by simp) t (by simp) tid p' r' p r
      (by rw [hl']; rfl) (by rw [hl]; rfl)
    have hclean : Clean (acted tid (τ₁ ++ t :: ρ)) := RingRun.clean ⟨ledger, hρ⟩ tid
    have hreturned := ((Machine.ret_spec ring_allowed hrun' hl').2 hclean).1
    rcases hreturned with hmatched | hload | hx
    · exact absurd hmatched (hunmatched ρ _ hafter.of_cut.1)
    · rw [hreq] at hload
      exact absurd hload hr
    · exact hx

/-! ### The history of the file -/

/-- What a run of the instances has made of the file: the result of its changes, in the order in
which they were made under the lock, whatever the instances remembered. -/
structure RingHistory (k₀ : KeyRing) (τ : List RingTrans) (s : RingState) : Prop where
  file : s.world.keyring = (mutations τ).foldl RingMutation.apply k₀
  current : s.world.keyring.currentKid =
    ((mutations τ).filterMap RingMutation.current?).getLast?.getD k₀.currentKid
  keys : ∀ kid key, s.world.keyring.keyFor kid = some key ↔ k₀.Survives (mutations τ) kid key
  kept : ∀ a b kid, mutations τ = a ++ .retired kid :: b →
    kid ≠ (a.foldl RingMutation.apply k₀).currentKid
  returned : ∀ τ₁ t τ₂ tid p r x, τ = τ₁ ++ t :: τ₂ → t.label = .ret tid p r x →
    r.Changes x (mutationsOf tid τ₁)
  stale : ∀ τ₁ t τ₂ tid p r i, τ = τ₁ ++ t :: τ₂ →
    t.label = .act tid p r (.acquire .keyringFile) i (.ok ()) →
    t.src.world.memoryOf p ≠ some t.src.world.keyring →
      replacementsOf tid τ = [] ∧ ∀ t' ∈ τ₂, ∀ p' r' x, t'.label = .ret tid p' r' x →
        x = .error (.valueError "keyring_changed_on_disk")

/-- **No keyring update is lost**, in any interleaving of any number of instances. -/
theorem keyring_updates_never_lost {k₀ : KeyRing} {τ : List RingTrans} {s : RingState}
    (h : RingRun k₀ τ s) : RingHistory k₀ τ s := by
  have hmutated := h.mutated
  constructor
  · exact hmutated.eq_foldl
  · exact hmutated.currentKid_eq
  · exact fun _ _ => hmutated.keyFor_iff
  · exact fun _ _ _ => hmutated.not_current
  · intro τ₁ t τ₂ tid p r x hcut hl
    exact RingRun.returned (hcut ▸ h) hl
  · intro τ₁ t τ₂ tid p r i hcut hl hstale
    rw [hcut]
    exact RingRun.stale (hcut ▸ h) hl hstale

/-- Two instances load the file, one rotates, and the other then wants to rotate as well. -/
def staleRotation : List (Move ℕ RingRequest Choice) :=
  let act (tid n : ℕ) : List (Move ℕ RingRequest Choice) :=
    (List.range n).map fun k => .act tid (Scenario.choice 1000 (UInt8.ofNat (20 * tid + k)))
  .call 0 .load :: act 0 2 ++ [.ret 0] ++ .call 1 .load :: act 1 2 ++ [.ret 1] ++
    .call 0 .rotate :: act 2 10 ++ [.ret 2] ++ .call 1 .rotate :: act 3 4 ++ [.ret 3]

/-- The first rotation is in the file, and nothing of the second. -/
theorem keyring_updates_never_lost_staleRotation : ∃ τ s,
    (s.world.keyring.keys.keys.card = 2 ∧ s.world.keyring.currentKid ≠ Scenario.kid) ∧
      RingHistory (.created Scenario.kid Scenario.zeroKey) τ s := by
  have hsimulate : (ringMachine.simulate (.start (.created Scenario.kid Scenario.zeroKey))
      staleRotation).any (fun x => decide (x.2.world.keyring.keys.keys.card = 2 ∧
        x.2.world.keyring.currentKid ≠ Scenario.kid)) = true := by
    decide +kernel
  obtain ⟨⟨τ, s⟩, hrun, hs⟩ := (Option.any_eq_true _ _).mp hsimulate
  exact ⟨τ, s, of_decide_eq_true hs,
    keyring_updates_never_lost ⟨.empty, Machine.run_of_simulate hrun⟩⟩

end Onceproof

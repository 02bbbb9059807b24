import Onceproof.Keys.Instances
import Onceproof.Keys.Custody

/-!
# What a call of a KeyRing instance has seen is still so

`RingInvariant` ties what the calls know to the keyring file, the lock and the memories of the
instances: under the lock, the generation that a call has read is the one on disk, and the
generations that it has seen in memory are those in memory. `RingRun.invariant` shows that it
holds in every state of a run.
-/

namespace Onceproof

/-- What a call of the instance `p` knows is true. -/
structure RingSound (w : World) (tid p : ℕ) (r : RingRequest) (k : Knowledge) : Prop where
  running : (w.procs p).isSome = true
  held : ∀ l ∈ k.held, w.locks (l.of p) = some (p, tid)
  read : .keyringFile ∈ k.held → ∀ d, k.read = some d → w.keyring = d
  memory : .keyringFile ∈ k.held → ∀ m ∈ k.memories, w.memoryOf p = some m
  drawn : ∀ existing kid, k.drawn = some (existing, kid) → kid ∉ existing
  loaded : ¬ r.IsLoad → (w.memoryOf p).isSome = true
  loading : r.IsLoad → k.memories = [] → w.memoryOf p = none

/-- The invariant of the instances. -/
structure RingInvariant (s : RingState) : Prop where
  sound : ∀ tid th, s.threads tid = some th →
    RingSound s.world tid th.owner th.req (known th.hist)
  alone : ∀ tid th tid' th', s.threads tid = some th → s.threads tid' = some th' →
    th.req.IsLoad → th'.req.IsLoad → th.owner = th'.owner → tid = tid'

variable {s : RingState} {w w' : World} {tid tid' p p' : ℕ} {r : RingRequest}
variable {k k' : Knowledge} {hist : Hist} {i : Choice} {c : Op}

/-! ### Commands on the keyring, without faults -/

namespace Op

theorem exec_acquire {l : LockName} {a : (acquire l).Ans}
    (h : (acquire l).exec p tid i.faultless w = some (a, w')) :
    a = .ok () ∧ w.locks (l.of p) = none ∧ w' = w.setLock (l.of p) (some (p, tid)) := by
  simp only [exec] at h
  split_ifs at h with hl
  obtain ⟨rfl, rfl⟩ := Prod.mk.inj (Option.some.inj h)
  exact ⟨rfl, by simpa using hl, rfl⟩

theorem exec_release {l : LockName} {a : (release l).Ans}
    (h : (release l).exec p tid i.faultless w = some (a, w')) :
    a = .ok () ∧ w' = w.setLock (l.of p) none := by
  obtain ⟨rfl, rfl⟩ := Prod.mk.inj (Option.some.inj h)
  exact ⟨rfl, rfl⟩

theorem exec_readKeyring {a : readKeyring.Ans}
    (h : readKeyring.exec p tid i.faultless w = some (a, w')) : a = .ok w.keyring ∧ w' = w := by
  obtain ⟨rfl, rfl⟩ := Prod.mk.inj (Option.some.inj h)
  exact ⟨rfl, rfl⟩

theorem exec_replaceKeyring {m : KeyRing} {a : (replaceKeyring m).Ans}
    (h : (replaceKeyring m).exec p tid i.faultless w = some (a, w')) :
    a = .ok () ∧ w' = { w with keyring := m } := by
  obtain ⟨rfl, rfl⟩ := Prod.mk.inj (Option.some.inj h)
  exact ⟨rfl, rfl⟩

theorem exec_memory {a : memory.Ans} (h : memory.exec p tid i.faultless w = some (a, w')) :
    ∃ m, w.memoryOf p = some m ∧ a = .ok m ∧ w' = w := by
  simp only [exec, Option.map_eq_some_iff, Prod.mk.injEq] at h
  obtain ⟨m, hm, rfl, rfl⟩ := h
  exact ⟨m, hm, rfl, rfl⟩

theorem exec_setMemory {m : KeyRing} {a : (setMemory m).Ans}
    (h : (setMemory m).exec p tid i.faultless w = some (a, w')) :
    a = .ok () ∧ w' = w.setProc p fun q => { q with memory := some m } := by
  obtain ⟨rfl, rfl⟩ := Prod.mk.inj (Option.some.inj h)
  exact ⟨rfl, rfl⟩

theorem exec_newKid {existing : Finset Str} {a : (newKid existing).Ans}
    (h : (newKid existing).exec p tid i.faultless w = some (a, w')) :
    ∃ kid, kid ∉ existing ∧ a = .ok kid ∧ w' = w := by
  simp only [exec] at h
  split_ifs at h with hfresh
  obtain ⟨rfl, rfl⟩ := Prod.mk.inj (Option.some.inj h)
  exact ⟨_, hfresh, rfl, rfl⟩

/-- The commands that have nothing to do with the keyring. -/
def Beside (c : Op) : Prop :=
  ¬ c.OnRing ∧ c ≠ startServing ∧ ∀ l, c ≠ tryAcquire l

/-- The file, the locks and the memories are as before. -/
theorem exec_beside (hc : c.Beside) {a : c.Ans} (h : c.exec p tid i w = some (a, w')) :
    w'.keyring = w.keyring ∧ w'.locks = w.locks ∧
      ∀ p', w'.memoryOf p' = w.memoryOf p' ∧ (w'.procs p').isSome = (w.procs p').isSome := by
  cases Op.exec_frame h with
  | none => exact ⟨rfl, rfl, fun _ => ⟨rfl, rfl⟩⟩
  | locked l c hacq free =>
    rcases hacq with rfl | rfl
    · exact absurd trivial hc.1
    · exact absurd rfl (hc.2.2 l)
  | released l => exact absurd trivial hc.1
  | replaced k => exact absurd trivial hc.1
  | remembered k => exact absurd trivial hc.1
  | scheduled t =>
    refine ⟨rfl, rfl, fun p' => ?_⟩
    by_cases hp : p' = p
    · subst hp
      cases hproc : w.procs p' <;> simp [World.memoryOf, World.setProc, hproc]
    · simp [World.memoryOf, World.setProc, Function.update_of_ne hp]
  | served loaded => exact absurd rfl hc.2.1
  | committed call ledger => exact ⟨rfl, rfl, fun _ => ⟨rfl, rfl⟩⟩

end Op

/-- The commands beside the keyring teach nothing about it. -/
theorem Knowledge.next_beside (hc : c.Beside) (k : Knowledge) (a : c.Ans) :
    (k.next ⟨c, a⟩).held = k.held ∧ (k.next ⟨c, a⟩).read = k.read ∧
      (k.next ⟨c, a⟩).memories = k.memories ∧ (k.next ⟨c, a⟩).drawn = k.drawn := by
  cases c with
  | acquire | release | readKeyring | replaceKeyring | memory | setMemory | newKid | newRootKey =>
    exact absurd trivial hc.1
  | tryAcquire l => exact absurd rfl (hc.2.2 l)
  | startServing => exact absurd rfl hc.2.1
  | tokenBytes | backup => cases a <;> exact ⟨rfl, rfl, rfl, rfl⟩
  | credentialUses | proofUses => rcases a with e | (_ | _) <;> exact ⟨rfl, rfl, rfl, rfl⟩
  | _ => exact ⟨rfl, rfl, rfl, rfl⟩

/-! ### The invariant is kept -/

namespace RingSound

/-- What is known stays true while its part of the world does not change. -/
theorem congr (h : RingSound w tid p r k) (hk : k'.held = k.held ∧ k'.read = k.read ∧
      k'.memories = k.memories ∧ k'.drawn = k.drawn)
    (hrunning : (w'.procs p).isSome = true)
    (hlocks : ∀ l ∈ k.held, w'.locks (l.of p) = w.locks (l.of p))
    (hkeyring : .keyringFile ∈ k.held → w'.keyring = w.keyring)
    (hmemory : w'.memoryOf p = w.memoryOf p) : RingSound w' tid p r k' where
  running := hrunning
  held l hl := (hlocks l (hk.1 ▸ hl)).trans (h.held l (hk.1 ▸ hl))
  read hl d hd := (hkeyring (hk.1 ▸ hl)).trans (h.read (hk.1 ▸ hl) d (hk.2.1 ▸ hd))
  memory hl m hm := hmemory.trans (h.memory (hk.1 ▸ hl) m (hk.2.2.1 ▸ hm))
  drawn := hk.2.2.2 ▸ h.drawn
  loaded hr := hmemory ▸ h.loaded hr
  loading hr hm := hmemory.trans (h.loading hr (hk.2.2.1 ▸ hm))

/-- Two calls do not hold one lock. -/
theorem not_held (h : RingSound w tid p r k) {r' : RingRequest} (h' : RingSound w tid' p' r' k')
    (hne : tid' ≠ tid) (hl : .keyringFile ∈ k.held) : .keyringFile ∉ k'.held := by
  intro hl'
  have heq := (h.held _ hl).symm.trans (h'.held _ hl')
  exact hne (Prod.mk.inj (Option.some.inj heq)).2.symm

end RingSound

namespace RingInvariant

variable {prog prog' : HostProg (Option Str)}

/-- A command is kept track of if it is true what its thread knows then, and still true what the
other threads know. -/
theorem of_act {a : c.Ans} (hs : RingInvariant s)
    (running : s.threads tid = some ⟨p, r, hist, prog⟩)
    (hself : RingSound w' tid p r ((known hist).next ⟨c, a⟩))
    (hother : ∀ tid' th, tid' ≠ tid → s.threads tid' = some th →
      RingSound w' tid' th.owner th.req (known th.hist)) :
    RingInvariant ⟨w', Function.update s.threads tid (some ⟨p, r, hist ++ [⟨c, a⟩], prog'⟩),
      s.next⟩ := by
  have hback : ∀ {tid' th}, Function.update s.threads tid
      (some ⟨p, r, hist ++ [⟨c, a⟩], prog'⟩) tid' = some th → ∃ th₀, s.threads tid' = some th₀ ∧
        th₀.owner = th.owner ∧ th₀.req = th.req := by
    intro tid' th hth
    rcases update_eq_some hth with ⟨rfl, rfl⟩ | ⟨-, hth⟩
    · exact ⟨_, running, rfl, rfl⟩
    · exact ⟨th, hth, rfl, rfl⟩
  refine ⟨fun tid' th hth => ?_, fun tid₁ th₁ tid₂ th₂ hth₁ hth₂ hr₁ hr₂ howner => ?_⟩
  · rcases update_eq_some hth with ⟨rfl, rfl⟩ | ⟨hne, hth⟩
    · dsimp only
      rw [known_snoc]
      exact hself
    · exact hother tid' th hne hth
  · obtain ⟨th₁', hth₁', howner₁, hreq₁⟩ := hback hth₁
    obtain ⟨th₂', hth₂', howner₂, hreq₂⟩ := hback hth₂
    exact hs.alone _ _ _ _ hth₁' hth₂' (hreq₁ ▸ hr₁) (hreq₂ ▸ hr₂)
      (howner₁.trans (howner.trans howner₂.symm))

/-- A command of a call keeps the invariant, whatever it answers. -/
def Keeps (s : RingState) (tid p : ℕ) (r : RingRequest) (hist : Hist) (c : Op) : Prop :=
  ∀ (i : Choice) (a : c.Ans) (w' : World) (prog' : HostProg (Option Str)),
    c.exec p tid i.faultless s.world = some (a, w') →
      RingInvariant ⟨w', Function.update s.threads tid (some ⟨p, r, hist ++ [⟨c, a⟩], prog'⟩),
        s.next⟩

/-- The file lock was free, so no other thread holds it. -/
theorem keeps_acquire {l : LockName} (hs : RingInvariant s)
    (running : s.threads tid = some ⟨p, r, hist, prog⟩) (hallowed : RingRules r hist (.acquire l)) :
    Keeps s tid p r hist (.acquire l) := by
  intro i a w' prog' hexec
  have hself := hs.sound tid _ running
  dsimp only at hself
  obtain ⟨rfl, hl, rfl⟩ := Op.exec_acquire hexec
  obtain ⟨rfl, hr, rfl⟩ := hallowed
  refine hs.of_act running ⟨hself.running, fun l hl => ?_, ?_, ?_, ?_, hself.loaded,
    fun hload => absurd hload hr⟩ fun tid' th hne hth => ?_
  · have hl : l ∈ [LockName.keyringFile] := hl
    rw [List.mem_singleton.mp hl]
    simp [World.setLock]
  · intro _ d hd
    cases hd
  · intro _ m hm
    cases hm
  · intro _ _ hd
    cases hd
  · have hsound := hs.sound tid' th hth
    refine hsound.congr ⟨rfl, rfl, rfl, rfl⟩ hsound.running (fun l' hl' => ?_) (fun _ => rfl) rfl
    refine Function.update_of_ne (fun heq => ?_) _ _
    have hheld := hsound.held l' hl'
    rw [heq, hl] at hheld
    cases hheld

/-- The file lock is freed, and with it what the thread knew under it. -/
theorem keeps_release {l : LockName} (hs : RingInvariant s)
    (running : s.threads tid = some ⟨p, r, hist, prog⟩) (hallowed : RingRules r hist (.release l)) :
    Keeps s tid p r hist (.release l) := by
  intro i a w' prog' hexec
  have hself := hs.sound tid _ running
  dsimp only at hself
  obtain ⟨rfl, rfl⟩ := Op.exec_release hexec
  obtain ⟨rfl, hr, hheld⟩ := hallowed
  have hnone : ((known hist).next ⟨.release .keyringFile, .ok ()⟩).held = [] := by
    simp [Knowledge.forget, hheld]
  refine hs.of_act running ⟨hself.running, ?_, ?_, ?_, hself.drawn, hself.loaded, ?_⟩
    fun tid' th hne hth => ?_
  · rw [hnone]
    simp
  · rw [hnone]
    simp
  · rw [hnone]
    simp
  · exact fun hload => absurd hload hr
  · have hsound := hs.sound tid' th hth
    refine hsound.congr ⟨rfl, rfl, rfl, rfl⟩ hsound.running (fun l' hl' => ?_) (fun _ => rfl) rfl
    refine Function.update_of_ne (fun heq => ?_) _ _
    have hother := hsound.held l' hl'
    rw [heq, hself.held .keyringFile (by rw [hheld]; simp)] at hother
    exact hne (Prod.mk.inj (Option.some.inj hother)).2.symm

/-- No other thread holds the lock, so none relies on what it read of the file. -/
theorem keeps_replaceKeyring {m : KeyRing} (hs : RingInvariant s)
    (running : s.threads tid = some ⟨p, r, hist, prog⟩)
    (hallowed : RingRules r hist (.replaceKeyring m)) :
    Keeps s tid p r hist (.replaceKeyring m) := by
  intro i a w' prog' hexec
  have hself := hs.sound tid _ running
  dsimp only at hself
  obtain ⟨rfl, rfl⟩ := Op.exec_replaceKeyring hexec
  have hlock : LockName.keyringFile ∈ (known hist).held := hallowed.1.1
  refine hs.of_act running ⟨hself.running, hself.held, ?_, ?_, hself.drawn, hself.loaded, ?_⟩
    fun tid' th hne hth => ?_
  · intro _ d hd
    cases hd
  · intro _ m hm
    cases hm
  · intro hload
    cases hallowed.2.2.2.2 <;> exact hload.elim
  · have hsound := hs.sound tid' th hth
    exact hsound.congr ⟨rfl, rfl, rfl, rfl⟩ hsound.running (fun _ _ => rfl)
      (fun hl => absurd hl (hself.not_held hsound hne hlock)) rfl

/-- The only threads that a new memory could surprise are those of the same process. -/
theorem keeps_setMemory {m : KeyRing} (hs : RingInvariant s)
    (running : s.threads tid = some ⟨p, r, hist, prog⟩)
    (hallowed : RingRules r hist (.setMemory m)) :
    Keeps s tid p r hist (.setMemory m) := by
  intro i a w' prog' hexec
  have hself := hs.sound tid _ running
  dsimp only at hself
  obtain ⟨rfl, rfl⟩ := Op.exec_setMemory hexec
  obtain ⟨q, hq⟩ := Option.isSome_iff_exists.mp hself.running
  have hproc : (s.world.setProc p fun q => { q with memory := some m }).procs p =
      some { q with memory := some m } := by
    simp [World.setProc, hq]
  have hmemory : (s.world.setProc p fun q => { q with memory := some m }).memoryOf p =
      some m := by
    rw [World.memoryOf, hproc]
    rfl
  have hapart : ∀ {p'}, p' ≠ p →
      (s.world.setProc p fun q => { q with memory := some m }).procs p' = s.world.procs p' :=
    fun hne => Function.update_of_ne hne _ _
  refine hs.of_act running ⟨?_, hself.held, hself.read, ?_, hself.drawn, ?_, ?_⟩
    fun tid' th hne hth => ?_
  · rw [hproc]
    rfl
  · intro _ m' hm'
    obtain rfl := List.mem_singleton.mp hm'
    exact hmemory
  · intro _
    rw [hmemory]
    rfl
  · intro _ hnil
    cases hnil
  · have hsound := hs.sound tid' th hth
    by_cases hp : th.owner = p
    · rcases hallowed.2 with ⟨hr, hnil⟩ | ⟨hr, hheld, -⟩
      · -- a loading instance has no other call
        have hempty := hself.loading hr hnil
        by_cases hr' : th.req.IsLoad
        · exact absurd (hs.alone _ _ _ _ hth running hr' hr hp) hne
        · have hloaded := hsound.loaded hr'
          rw [hp, hempty] at hloaded
          cases hloaded
      · have hlock := hself.not_held hsound hne (by rw [hheld]; simp)
        refine ⟨?_, hsound.held, hsound.read, fun hl => absurd hl hlock, hsound.drawn, ?_, ?_⟩
        · rw [hp, hproc]
          rfl
        · intro _
          rw [hp, hmemory]
          rfl
        · intro hr' hnil
          have hempty := hsound.loading hr' hnil
          have hloaded := hself.loaded hr
          rw [← hp, hempty] at hloaded
          cases hloaded
    · refine hsound.congr ⟨rfl, rfl, rfl, rfl⟩ ?_ (fun _ _ => rfl) (fun _ => rfl) ?_
      · rw [hapart hp]
        exact hsound.running
      · rw [World.memoryOf, World.memoryOf, hapart hp]

/-- **One command** of a call. -/
theorem act (hs : RingInvariant s) {kont : c.Ans → HostProg (Option Str)} {a : c.Ans}
    (running : s.threads tid = some ⟨p, r, hist, .act c kont⟩) (hallowed : RingRules r hist c)
    (hexec : c.exec p tid i.faultless s.world = some (a, w')) :
    RingInvariant ⟨w', Function.update s.threads tid (some ⟨p, r, hist ++ [⟨c, a⟩], kont a⟩),
      s.next⟩ := by
  have hself := hs.sound tid _ running
  dsimp only at hself
  -- commands that touch neither the keyrings nor the locks
  by_cases hbeside : c.Beside
  · obtain ⟨hkeyring, hlocks, hmemory⟩ := Op.exec_beside hbeside hexec
    refine hs.of_act running ?_ fun tid' th hne hth => ?_
    · exact hself.congr ((known hist).next_beside hbeside a)
        ((hmemory p).2.trans hself.running) (fun l _ => by rw [hlocks]) (fun _ => hkeyring)
        (hmemory p).1
    · have hsound := hs.sound tid' th hth
      exact hsound.congr ⟨rfl, rfl, rfl, rfl⟩ ((hmemory _).2.trans hsound.running)
        (fun l _ => by rw [hlocks]) (fun _ => hkeyring) (hmemory _).1
  have hsame : ∀ tid' th, tid' ≠ tid → s.threads tid' = some th →
      RingSound s.world tid' th.owner th.req (known th.hist) := fun tid' th _ hth =>
    hs.sound tid' th hth
  cases c with
  | tryAcquire | startServing => exact hallowed.elim
  | acquire l => exact hs.keeps_acquire running hallowed i a w' _ hexec
  | release l => exact hs.keeps_release running hallowed i a w' _ hexec
  | readKeyring =>
    obtain ⟨rfl, rfl⟩ := Op.exec_readKeyring hexec
    refine hs.of_act running { hself with read := fun _ d hd => Option.some.inj hd } hsame
  | memory =>
    obtain ⟨m, hm, rfl, rfl⟩ := Op.exec_memory hexec
    refine hs.of_act running { hself with memory := ?_, loading := ?_ } hsame
    · exact fun hl => List.forall_mem_cons.mpr ⟨hm, hself.memory hl⟩
    · exact fun hload => absurd hload hallowed.1
  | newKid existing =>
    obtain ⟨kid, hfresh, rfl, rfl⟩ := Op.exec_newKid hexec
    refine hs.of_act running { hself with drawn := fun e kid' hdrawn => ?_ } hsame
    obtain ⟨rfl, rfl⟩ := Prod.mk.inj (Option.some.inj hdrawn)
    exact hfresh
  | newRootKey =>
    obtain ⟨rfl, rfl⟩ := Prod.mk.inj (Option.some.inj hexec)
    exact hs.of_act running { hself with } hsame
  | replaceKeyring m => exact hs.keeps_replaceKeyring running hallowed i a w' _ hexec
  | setMemory m => exact hs.keeps_setMemory running hallowed i a w' _ hexec
  | clock | tokenBytes | nextCleanupAt | setNextCleanupAt | deliver | credential | client
  | restoreRequired | joined | idempotent | credentialUses | proofUses | referencedKids
  | keyChecks | store | backup => exact absurd ⟨id, Op.noConfusion, fun _ => Op.noConfusion⟩ hbeside

/-- A call of an instance. -/
theorem call (hs : RingInvariant s) (haccept : r.accept p s.world = some w') :
    RingInvariant ⟨w', Function.update s.threads s.next (some ⟨p, r, [], r.program⟩),
      s.next + 1⟩ := by
  -- the memory and the lock are as before, and a new instance runs nothing yet
  obtain ⟨hothers, hself, hidle⟩ : (∀ tid th, s.threads tid = some th →
      RingSound w' tid th.owner th.req (known th.hist)) ∧ RingSound w' s.next p r (known []) ∧
        (r.IsLoad → ∀ tid th, s.threads tid = some th → th.owner ≠ p) := by
    cases RingRequest.accept_eq_some haccept with
    | load hnew =>
      have hidle : ∀ tid th, s.threads tid = some th → th.owner ≠ p := by
        rintro tid th hth rfl
        have hrunning := (hs.sound tid th hth).running
        rw [hnew] at hrunning
        cases hrunning
      have hproc : ∀ {p'}, p' ≠ p →
          Function.update s.world.procs p (some .fresh) p' = s.world.procs p' := fun hne =>
        Function.update_of_ne hne _ _
      refine ⟨fun tid th hth => ?_, ⟨by simp, ?_, ?_, ?_, ?_, ?_, ?_⟩, fun _ => hidle⟩
      · have hsound := hs.sound tid th hth
        refine hsound.congr ⟨rfl, rfl, rfl, rfl⟩ ?_ (fun _ _ => rfl) (fun _ => rfl) ?_
        · exact (congrArg Option.isSome (hproc (hidle tid th hth))).trans hsound.running
        · exact congrArg (Option.bind · Proc.memory) (hproc (hidle tid th hth))
      · intro l hl
        cases hl
      · intro hl
        cases hl
      · intro hl
        cases hl
      · intro _ _ hd
        cases hd
      · exact fun hr => absurd trivial hr
      · intro _ _
        simp [World.memoryOf, Proc.fresh]
    | call hr hloaded =>
      refine ⟨hs.sound, ⟨?_, ?_, ?_, ?_, ?_, fun _ => hloaded, fun hload => absurd hload hr⟩,
        fun hload => absurd hload hr⟩
      · cases hp : s.world.procs p with
        | none =>
          rw [hp] at hloaded
          cases hloaded
        | some q => rfl
      · intro l hl
        cases hl
      · intro hl
        cases hl
      · intro hl
        cases hl
      · intro _ _ hd
        cases hd
  refine ⟨fun tid th hth => ?_, fun tid₁ th₁ tid₂ th₂ hth₁ hth₂ hr₁ hr₂ howner => ?_⟩
  · rcases update_eq_some hth with ⟨rfl, rfl⟩ | ⟨-, hth⟩
    · exact hself
    · exact hothers tid th hth
  · rcases update_eq_some hth₁ with ⟨rfl, rfl⟩ | ⟨-, hth₁⟩
    · rcases update_eq_some hth₂ with ⟨rfl, rfl⟩ | ⟨-, hth₂⟩
      · rfl
      · exact absurd howner.symm (hidle hr₁ _ _ hth₂)
    · rcases update_eq_some hth₂ with ⟨rfl, rfl⟩ | ⟨-, hth₂⟩
      · exact absurd howner (hidle hr₂ _ _ hth₁)
      · exact hs.alone _ _ _ _ hth₁ hth₂ hr₁ hr₂ howner

/-- A call returns. -/
theorem ret (hs : RingInvariant s) :
    RingInvariant ⟨s.world, Function.update s.threads tid none, s.next⟩ := by
  have hback : ∀ {tid' th}, Function.update s.threads tid none tid' = some th →
      s.threads tid' = some th := eq_some_of_update_none
  exact ⟨fun tid' th hth => hs.sound tid' th (hback hth),
    fun _ _ _ _ hth hth' => hs.alone _ _ _ _ (hback hth) (hback hth')⟩

/-- An instance disappears. -/
theorem stop (hs : RingInvariant s) :
    RingInvariant ⟨s.world.stop p, fun tid => (s.threads tid).filter fun th => th.owner ≠ p,
      s.next⟩ := by
  have hback : ∀ {tid th}, ((s.threads tid).filter fun th => th.owner ≠ p) = some th →
      s.threads tid = some th ∧ th.owner ≠ p := by
    intro tid th hth
    obtain ⟨hth, howner⟩ := Option.filter_eq_some_iff.mp hth
    exact ⟨hth, by simpa using howner⟩
  refine ⟨fun tid th hth => ?_, fun _ _ _ _ hth hth' =>
    hs.alone _ _ _ _ (hback hth).1 (hback hth').1⟩
  obtain ⟨hth, hne⟩ := hback hth
  have hsound := hs.sound tid th hth
  have hproc : (s.world.stop p).procs th.owner = s.world.procs th.owner :=
    Function.update_of_ne hne _ _
  refine hsound.congr ⟨rfl, rfl, rfl, rfl⟩ (by rw [hproc]; exact hsound.running)
    (fun l hl => ?_) (fun _ => rfl) (by rw [World.memoryOf, World.memoryOf, hproc])
  simp only [World.stop, hsound.held l hl]
  exact Option.filter_eq_some_iff.mpr ⟨rfl, by simpa using hne⟩

end RingInvariant

/-- A run of instances from a file that nobody has loaded. -/
def RingRun (k : KeyRing) (τ : List RingTrans) (s : RingState) : Prop :=
  ∃ ledger, Run ringMachine.Step (.start ⟨ledger, k, fun _ => none, fun _ => none⟩) τ s

/-- **The invariant holds in every state of a run.** -/
theorem RingRun.invariant {k : KeyRing} {τ : List RingTrans} (h : RingRun k τ s) :
    RingInvariant s := by
  obtain ⟨ledger, hrun⟩ := h
  refine Machine.invariant (M := ringMachine) (Φ := RingRules) (Ψ := RingReturns) ring_allowed
    (fun hs haccept => hs.call haccept)
    (fun hs running _ hallowed hexec => hs.act running hallowed hexec)
    (fun hs => hs.ret) (fun hs => hs.stop) hrun ⟨?_, ?_⟩
  · intro tid th hth
    cases hth
  · intro tid th _ _ hth
    cases hth

/-- **The lock protects what its holder sees**: nobody else changes the file, or the memory of
the holder's instance. -/
theorem RingInvariant.frame {τ : List RingTrans} {l : RingEvent} {s' : RingState}
    {th : Thread ℕ RingRequest Op Op.Ans Error (Option Str)} (hs : RingInvariant s)
    (hrun : Run ringMachine.Step (.start w) τ s) (hstep : ringMachine.Step s l s')
    (hth : s.threads tid = some th) (hlock : .keyringFile ∈ (known th.hist).held)
    (hother : ∀ p r c i a, l ≠ .act tid p r c i a) (hstop : l ≠ .stop th.owner) :
    s'.world.keyring = s.world.keyring ∧
      s'.world.memoryOf th.owner = s.world.memoryOf th.owner := by
  have hsound := hs.sound tid th hth
  cases hstep with
  | call admitted =>
    cases RingRequest.accept_eq_some admitted with
    | load hnew =>
      refine ⟨rfl, congrArg (Option.bind · Proc.memory) (Function.update_of_ne ?_ _ _)⟩
      intro heq
      have hrunning := hsound.running
      rw [heq, hnew] at hrunning
      cases hrunning
    | call => exact ⟨rfl, rfl⟩
  | @act tid' p r hist c kont i a w' running executed =>
    have hne : tid' ≠ tid := by
      rintro rfl
      exact hother _ _ _ _ _ rfl
    have hexec : c.exec p tid' i.faultless s.world = some (a, w') := executed
    have hallowed : RingRules r hist c := (Machine.spec_running ring_allowed hrun _ _ running).1
    have hactor := hs.sound tid' _ running
    dsimp only at hactor ⊢
    by_cases hbeside : c.Beside
    · obtain ⟨hkeyring, -, hmemory⟩ := Op.exec_beside hbeside hexec
      exact ⟨hkeyring, (hmemory _).1⟩
    cases c with
    | tryAcquire | startServing => exact hallowed.elim
    | acquire l =>
      obtain ⟨-, -, rfl⟩ := Op.exec_acquire hexec
      exact ⟨rfl, rfl⟩
    | release l =>
      obtain ⟨-, rfl⟩ := Op.exec_release hexec
      exact ⟨rfl, rfl⟩
    | readKeyring =>
      obtain ⟨-, rfl⟩ := Op.exec_readKeyring hexec
      exact ⟨rfl, rfl⟩
    | memory =>
      obtain ⟨m, -, -, rfl⟩ := Op.exec_memory hexec
      exact ⟨rfl, rfl⟩
    | newKid existing =>
      obtain ⟨kid, -, -, rfl⟩ := Op.exec_newKid hexec
      exact ⟨rfl, rfl⟩
    | newRootKey =>
      obtain ⟨-, rfl⟩ := Prod.mk.inj (Option.some.inj hexec)
      exact ⟨rfl, rfl⟩
    -- the file is replaced under the lock only, and `tid` has it
    | replaceKeyring m => exact absurd hallowed.1.1 (hsound.not_held hactor hne hlock)
    -- so is the memory, unless the instance is still loading
    | setMemory m =>
      obtain ⟨-, rfl⟩ := Op.exec_setMemory hexec
      refine ⟨rfl, congrArg (Option.bind · Proc.memory) (Function.update_of_ne ?_ _ _)⟩
      intro howner
      rcases hallowed.2 with ⟨hr, hnil⟩ | ⟨-, hheld, -⟩
      · by_cases hr' : th.req.IsLoad
        · exact hne (hs.alone _ _ _ _ running hth hr hr' howner.symm)
        · have hloaded := hsound.loaded hr'
          rw [howner, hactor.loading hr hnil] at hloaded
          cases hloaded
      · exact hsound.not_held hactor hne hlock (by rw [hheld]; simp)
    | clock | tokenBytes | nextCleanupAt | setNextCleanupAt | deliver | credential | client
    | restoreRequired | joined | idempotent | credentialUses | proofUses | referencedKids
    | keyChecks | store | backup =>
      exact absurd ⟨id, Op.noConfusion, fun _ => Op.noConfusion⟩ hbeside
  | ret => exact ⟨rfl, rfl⟩
  | stop p =>
    refine ⟨rfl, congrArg (Option.bind · Proc.memory) (Function.update_of_ne ?_ _ _)⟩
    rintro rfl
    exact hstop rfl

end Onceproof

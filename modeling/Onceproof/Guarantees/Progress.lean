import Onceproof.Guarantees.Retirement
import Onceproof.Keys.Ordering
import Onceproof.Ledger.Published
import Onceproof.Lib.Progress

/-!
# Progress

An instance never deadlocks. Whatever was called, however the threads were interleaved and
whichever processes were stopped, some running thread can go on, and the requests that are running
all return if the threads go on long enough, with no new request and without an exception from
outside (`requests_drain`).

* `Anchored` is the invariant: a lock that is waited for is held by a running thread, and what a
  thread reads of its process was set.
* `Anchored.enabled` shows that a thread can go on unless it waits for a lock, and `Anchored.live`
  follows the holders of the locks to a thread that does not wait.
-/

namespace Onceproof

variable {H : HashLib} {s s' : SystemState} {w w' : World} {tid p : ℕ} {r : Request} {hist : Hist}
variable {i : Choice}

/-- The time of the next cleanup of a process. -/
def World.cleanupOf (w : World) (p : ℕ) : Option ℤ := (w.procs p).bind Proc.nextCleanupAt

/-- **What keeps the threads going.** -/
structure Anchored (s : SystemState) : Prop where
  /-- A lock that threads wait for is held by a running thread, which knows that it does. -/
  held : ∀ l : LockName, l.IsWaited → ∀ q p tid, s.world.locks (l.of q) = some (p, tid) →
    ∃ th, s.threads tid = some th ∧ l.of th.owner = l.of q ∧ l ∈ (known th.hist).held
  /-- A process that serves has its schedule. -/
  serving : ∀ p, s.world.Serving p → (s.world.cleanupOf p).isSome = true
  /-- So has a thread what it set itself. -/
  loaded : ∀ tid th, s.threads tid = some th → Hist.Loaded th.hist →
    (s.world.memoryOf th.owner).isSome = true
  scheduled : ∀ tid th, s.threads tid = some th → Hist.Scheduled th.hist →
    (s.world.cleanupOf th.owner).isSome = true

/-! ### Commands -/

/-- A process keeps what was set. -/
structure World.KeepsSet (w w' : World) : Prop where
  memory : ∀ p, (w.memoryOf p).isSome = true → (w'.memoryOf p).isSome = true
  cleanup : ∀ p, (w.cleanupOf p).isSome = true → (w'.cleanupOf p).isSome = true

theorem World.KeepsSet.of_procs (h : w'.procs = w.procs) : w.KeepsSet w' := by
  constructor
  · intro p hp
    rwa [World.memoryOf, h]
  · intro p hp
    rwa [World.cleanupOf, h]

/-- An attribute of a process is set, and none is cleared. -/
theorem World.KeepsSet.setProc {f : Proc → Proc}
    (hmemory : ∀ q : Proc, q.memory.isSome = true → (f q).memory.isSome = true)
    (hcleanup : ∀ q : Proc, q.nextCleanupAt.isSome = true → (f q).nextCleanupAt.isSome = true) :
    w.KeepsSet (w.setProc p f) := by
  have hprocs : ∀ p', (w.setProc p f).procs p' =
      if p' = p then (w.procs p).map f else w.procs p' := by
    intro p'
    simp [World.setProc, Function.update_apply]
  constructor
  all_goals
    intro p' hp'
    simp only [World.memoryOf, World.cleanupOf, hprocs] at hp' ⊢
    split_ifs with heq
    · subst heq
      cases hproc : w.procs p' with
      | none => simp [hproc] at hp'
      | some q =>
        rw [hproc] at hp'
        first
          | exact hmemory q hp'
          | exact hcleanup q hp'
    · exact hp'

theorem Op.exec_keepsSet {c : Op} {a : c.Ans} (h : c.exec p tid i w = some (a, w')) :
    w.KeepsSet w' := by
  cases Op.exec_frame h with
  | none | locked | released | replaced | committed => exact .of_procs rfl
  | remembered | scheduled | served => exact .setProc (by simp) (by simp)

theorem Op.exec_locks {c : Op} {a : c.Ans} (hc : c.keepsLocks = true)
    (h : c.exec p tid i w = some (a, w')) : w'.locks = w.locks := by
  cases Op.exec_frame h with
  | none | replaced | remembered | scheduled | served | committed => rfl
  | locked l c hl => rcases hl with rfl | rfl <;> cases hc
  | released => cases hc

/-- Only a server makes its process serve, once it is loaded. -/
theorem Op.exec_serving {c : Op} {a : c.Ans} (h : c.exec p tid i w = some (a, w')) {p' : ℕ}
    (hp' : w'.Serving p') : w.Serving p' ∨ p' = p ∧ c = .startServing := by
  have hset : ∀ {f : Proc → Proc}, (w.setProc p f).Serving p' →
      (∀ q : Proc, (f q).serving = q.serving) → w.Serving p' := by
    intro f hserving hf
    simp only [World.Serving, World.setProc, Function.update_apply] at hserving ⊢
    split_ifs at hserving with heq
    · subst heq
      cases hproc : w.procs p' with
      | none => simp [hproc] at hserving
      | some q => simpa [hproc, hf] using hserving
    · exact hserving
  cases Op.exec_frame h with
  | none | locked | released | replaced | committed => exact Or.inl hp'
  | remembered | scheduled => exact Or.inl (hset hp' fun _ => rfl)
  | served =>
    by_cases heq : p' = p
    · exact Or.inr ⟨heq, rfl⟩
    · simp only [World.Serving, World.setProc, Function.update_of_ne heq] at hp'
      exact Or.inl hp'

theorem LockName.eq_of_of {l l' : LockName} {q : ℕ} (h : l.of q = l'.of p) : l = l' := by
  cases l <;> cases l' <;> first | rfl | cases h

/-- A lock that is taken after a command was taken by it, or before it. -/
theorem Op.exec_held {c : Op} {a : c.Ans} (hist : Hist) (h : c.exec p tid i w = some (a, w'))
    {l : LockName} {q : ℕ} {x : ℕ × ℕ} (hl : w'.locks (l.of q) = some x) :
    (x = (p, tid) ∧ l.of p = l.of q ∧ l ∈ (known (hist ++ [⟨c, a⟩])).held) ∨
      w.locks (l.of q) = some x ∧
        (l.of p = l.of q → l ∈ (known hist).held → l ∈ (known (hist ++ [⟨c, a⟩])).held) := by
  -- what follows if the lock `l'` was taken, or nothing was done
  have htaken : ∀ {l' : LockName}, w'.locks = (w.setLock (l'.of p) (some (p, tid))).locks →
      (known (hist ++ [⟨c, a⟩])).held = l' :: (known hist).held →
        (x = (p, tid) ∧ l.of p = l.of q ∧ l ∈ (known (hist ++ [⟨c, a⟩])).held) ∨
          w.locks (l.of q) = some x ∧
            (l.of p = l.of q → l ∈ (known hist).held → l ∈ (known (hist ++ [⟨c, a⟩])).held) := by
    intro l' hlocks hheld
    rw [hlocks] at hl
    rw [hheld]
    by_cases hsame : l.of q = l'.of p
    · obtain rfl := LockName.eq_of_of hsame
      have hx : (w.setLock (l.of p) (some (p, tid))).locks (l.of q) = some (p, tid) := by
        rw [hsame]
        exact Function.update_self ..
      exact Or.inl ⟨Option.some.inj (hl.symm.trans hx), hsame.symm, List.mem_cons_self⟩
    · refine Or.inr ⟨?_, fun _ hmem => List.mem_cons_of_mem _ hmem⟩
      exact (Function.update_of_ne hsame _ _).symm.trans hl
  -- what follows if the locks stayed as they are
  have hsame : w'.locks = w.locks → (known (hist ++ [⟨c, a⟩])).held = (known hist).held →
      w.locks (l.of q) = some x ∧
        (l.of p = l.of q → l ∈ (known hist).held → l ∈ (known (hist ++ [⟨c, a⟩])).held) := by
    intro hlocks hheld
    rw [hheld]
    exact ⟨hlocks ▸ hl, fun _ => id⟩
  by_cases hc : c.keepsLocks = true
  · refine Or.inr (hsame (Op.exec_locks hc h) ?_)
    rw [known_snoc, Knowledge.held_next _ hc]
  cases c with
  | acquire l' =>
    simp only [Op.exec] at h
    split_ifs at h
    rcases orFault_eq_some.mp h with ⟨-, hx⟩ | ⟨-, hx⟩
    · obtain ⟨rfl, rfl⟩ := Prod.mk.inj hx
      exact Or.inr (hsame rfl (by simp))
    · obtain ⟨rfl, rfl⟩ := Prod.mk.inj hx
      exact htaken rfl (by simp [Knowledge.forget])
  | tryAcquire l' =>
    simp only [Op.exec] at h
    split_ifs at h
    · rcases orFault_eq_some.mp h with ⟨-, hx⟩ | ⟨-, hx⟩ <;>
      · obtain ⟨rfl, rfl⟩ := Prod.mk.inj hx
        exact Or.inr (hsame rfl (by simp))
    · rcases orFault_eq_some.mp h with ⟨-, hx⟩ | ⟨-, hx⟩
      · obtain ⟨rfl, rfl⟩ := Prod.mk.inj hx
        exact Or.inr (hsame rfl (by simp))
      · obtain ⟨rfl, rfl⟩ := Prod.mk.inj hx
        exact htaken rfl (by simp [Knowledge.forget])
  | release l' =>
    obtain ⟨rfl, rfl⟩ := Prod.mk.inj (Option.some.inj h)
    have hother : l.of q ≠ l'.of p := by
      intro heq
      have hnone : (w.setLock (l'.of p) none).locks (l.of q) = none := by
        rw [heq]
        exact Function.update_self ..
      rw [hnone] at hl
      cases hl
    refine Or.inr ⟨(Function.update_of_ne hother _ _).symm.trans hl, fun hof hmem => ?_⟩
    have hne : l ≠ l' := fun heq => hother (heq ▸ hof.symm)
    simpa [Knowledge.forget] using (List.mem_erase_of_ne hne).mpr hmem
  | _ => exact absurd rfl hc

/-! ### Steps -/

namespace Anchored

variable {prog prog' : HostProg Outcome}

/-- **One command.** -/
theorem act {c : Op} {k : c.Ans → HostProg Outcome} {a : c.Ans} (hs : Anchored s)
    (hcustody : Custody H s) (running : s.threads tid = some ⟨p, r, hist, .act c k⟩)
    (hin : c.InOrder r hist) (hexec : c.exec p tid i s.world = some (a, w')) :
    Anchored ⟨w', Function.update s.threads tid (some ⟨p, r, hist ++ [⟨c, a⟩], k a⟩), s.next⟩ := by
  have hkeeps := Op.exec_keepsSet hexec
  have hrunning : (s.world.procs p).isSome = true := (hcustody.sound tid _ running).running
  refine ⟨fun l hl q p' tid' hlock => ?_, fun p' hp' => ?_, fun tid' th hth hloaded => ?_,
    fun tid' th hth hscheduled => ?_⟩
  · rcases Op.exec_held hist hexec hlock with ⟨hx, hof, hmem⟩ | ⟨hbefore, hkept⟩
    · obtain ⟨rfl, rfl⟩ := Prod.mk.inj hx
      exact ⟨_, Function.update_self .., hof, hmem⟩
    · obtain ⟨th, hth, hof, hmem⟩ := hs.held l hl q p' tid' hbefore
      by_cases htid : tid' = tid
      · subst htid
        obtain rfl := Option.some.inj (hth.symm.trans running)
        exact ⟨_, Function.update_self .., hof, hkept hof hmem⟩
      · exact ⟨th, (Function.update_of_ne htid _ _).trans hth, hof, hmem⟩
  · rcases Op.exec_serving hexec hp' with hbefore | ⟨rfl, rfl⟩
    · exact hkeeps.cleanup p' (hs.serving p' hbefore)
    · exact hkeeps.cleanup p' (hs.scheduled tid _ running hin.2)
  · rcases update_eq_some hth with ⟨rfl, rfl⟩ | ⟨-, hth⟩
    · obtain ⟨m, hm⟩ := hloaded
      rcases List.mem_append.mp hm with hm | hm
      · exact hkeeps.memory p (hs.loaded tid' _ running ⟨m, hm⟩)
      · -- the thread has just set it
        obtain ⟨rfl, -⟩ := Sigma.mk.inj (List.mem_singleton.mp hm)
        obtain ⟨-, rfl⟩ := Prod.mk.inj (Option.some.inj hexec)
        obtain ⟨q, hq⟩ := Option.isSome_iff_exists.mp hrunning
        simp [World.memoryOf, World.setProc, hq]
    · exact hkeeps.memory _ (hs.loaded tid' th hth hloaded)
  · rcases update_eq_some hth with ⟨rfl, rfl⟩ | ⟨-, hth⟩
    · obtain ⟨t, ht⟩ := hscheduled
      rcases List.mem_append.mp ht with ht | ht
      · exact hkeeps.cleanup p (hs.scheduled tid' _ running ⟨t, ht⟩)
      · obtain ⟨rfl, -⟩ := Sigma.mk.inj (List.mem_singleton.mp ht)
        obtain ⟨-, rfl⟩ := Prod.mk.inj (Option.some.inj hexec)
        obtain ⟨q, hq⟩ := Option.isSome_iff_exists.mp hrunning
        simp [World.cleanupOf, World.setProc, hq]
    · exact hkeeps.cleanup _ (hs.scheduled tid' th hth hscheduled)

/-- **A call**: the process of a command is a new one, and no thread runs in it. -/
theorem call (hs : Anchored s) (hcustody : Custody H s) (hfresh : s.threads s.next = none)
    (haccept : r.accept p s.world = some w') :
    Anchored ⟨w', Function.update s.threads s.next (some ⟨p, r, [], r.program H⟩), s.next + 1⟩ := by
  -- the other processes and the locks are as before
  have hworld : w'.locks = s.world.locks ∧ (∀ p', w'.Serving p' → s.world.Serving p') ∧
      ∀ p', (s.world.procs p').isSome = true → w'.procs p' = s.world.procs p' := by
    cases r with
    | api c =>
      simp only [Request.accept] at haccept
      split_ifs at haccept
      obtain rfl := Option.some.inj haccept
      exact ⟨rfl, fun _ => id, fun _ _ => rfl⟩
    | command c =>
      simp only [Request.accept] at haccept
      split_ifs at haccept with hnone
      obtain rfl := Option.some.inj haccept
      refine ⟨rfl, fun p' hp' => ?_, fun p' hp' => Function.update_of_ne ?_ _ _⟩
      · by_cases hp : p' = p
        · subst hp
          simp [World.Serving, Proc.fresh] at hp'
        · simpa only [World.Serving, Function.update_of_ne hp] using hp'
      · rintro rfl
        simp [Option.isNone_iff_eq_none.mp hnone] at hp'
  obtain ⟨hlocks, hserving, hprocs⟩ := hworld
  refine ⟨fun l hl q p' tid' hlock => ?_, fun p' hp' => ?_, fun tid' th hth hloaded => ?_,
    fun tid' th hth hscheduled => ?_⟩
  · obtain ⟨th, hth, hof, hmem⟩ := hs.held l hl q p' tid' (hlocks ▸ hlock)
    refine ⟨th, (Function.update_of_ne ?_ _ _).trans hth, hof, hmem⟩
    rintro rfl
    rw [hfresh] at hth
    cases hth
  · have hbefore := hserving p' hp'
    have hsome : (s.world.procs p').isSome = true := by
      cases hproc : s.world.procs p' with
      | none => simp [World.Serving, hproc] at hbefore
      | some q => rfl
    rw [World.cleanupOf, hprocs p' hsome]
    exact hs.serving p' hbefore
  · rcases update_eq_some hth with ⟨-, rfl⟩ | ⟨-, hth⟩
    · obtain ⟨m, hm⟩ := hloaded
      cases hm
    · rw [World.memoryOf, hprocs _ (hcustody.sound tid' th hth).running]
      exact hs.loaded tid' th hth hloaded
  · rcases update_eq_some hth with ⟨-, rfl⟩ | ⟨-, hth⟩
    · obtain ⟨t, ht⟩ := hscheduled
      cases ht
    · rw [World.cleanupOf, hprocs _ (hcustody.sound tid' th hth).running]
      exact hs.scheduled tid' th hth hscheduled

/-- **A return**: the thread holds no lock that others wait for. -/
theorem ret {th : Thread ℕ Request Op Op.Ans Error Outcome} (hs : Anchored s)
    (hth : s.threads tid = some th) (hfree : ∀ l ∈ (known th.hist).held, ¬ l.IsWaited) :
    Anchored ⟨s.world, Function.update s.threads tid none, s.next⟩ := by
  refine ⟨fun l hl q p' tid' hlock => ?_, hs.serving,
    fun tid' th' hth' => hs.loaded _ _ (eq_some_of_update_none hth'),
    fun tid' th' hth' => hs.scheduled _ _ (eq_some_of_update_none hth')⟩
  obtain ⟨th', hth', hof, hmem⟩ := hs.held l hl q p' tid' hlock
  refine ⟨th', (Function.update_of_ne ?_ _ _).trans hth', hof, hmem⟩
  rintro rfl
  obtain rfl := Option.some.inj (hth.symm.trans hth')
  exact hfree l hmem hl

/-- **A stop**: the locks of the process are freed with its threads. -/
theorem stop (hs : Anchored s) (hcustody : Custody H s) :
    Anchored ⟨s.world.stop p, fun tid => (s.threads tid).filter fun th => th.owner ≠ p,
      s.next⟩ := by
  have hback : ∀ {tid th}, ((s.threads tid).filter fun th => th.owner ≠ p) = some th →
      s.threads tid = some th ∧ th.owner ≠ p := by
    intro tid th hth
    obtain ⟨hth, howner⟩ := Option.filter_eq_some_iff.mp hth
    exact ⟨hth, by simpa using howner⟩
  have hprocs : ∀ {p'}, p' ≠ p → (s.world.stop p).procs p' = s.world.procs p' := fun hne =>
    Function.update_of_ne hne _ _
  refine ⟨fun l hl q p' tid hlock => ?_, fun p' hp' => ?_, fun tid th hth hloaded => ?_,
    fun tid th hth hscheduled => ?_⟩
  · obtain ⟨hlock, hne⟩ := Option.filter_eq_some_iff.mp hlock
    obtain ⟨th, hth, hof, hmem⟩ := hs.held l hl q p' tid hlock
    have howner : th.owner = p' := by
      have hheld := (hcustody.sound tid th hth).held l hmem
      rw [hof, hlock] at hheld
      exact (Prod.mk.inj (Option.some.inj hheld)).1.symm
    refine ⟨th, Option.filter_eq_some_iff.mpr ⟨hth, ?_⟩, hof, hmem⟩
    rw [howner]
    exact hne
  · have hne : p' ≠ p := by
      rintro rfl
      simp [World.Serving, World.stop] at hp'
    rw [World.Serving, hprocs hne] at hp'
    rw [World.cleanupOf, hprocs hne]
    exact hs.serving p' hp'
  · obtain ⟨hth, hne⟩ := hback hth
    rw [World.memoryOf, hprocs hne]
    exact hs.loaded tid th hth hloaded
  · obtain ⟨hth, hne⟩ := hback hth
    rw [World.cleanupOf, hprocs hne]
    exact hs.scheduled tid th hth hscheduled

/-- An instance in which nothing runs. -/
theorem idle (hlocks : ∀ l, w.locks l = none) (hprocs : ∀ p, w.procs p = none) :
    Anchored (.start w) := by
  refine ⟨fun l _ q p tid hlock => ?_, fun p hp => ?_, fun _ _ hth => (by cases hth),
    fun _ _ hth => (by cases hth)⟩
  · have hnone : (MachineState.start w : SystemState).world.locks (l.of q) = none := hlocks _
    rw [hnone] at hlock
    cases hlock
  · have hnone : (MachineState.start w : SystemState).world.procs p = none := hprocs p
    simp [World.Serving, hnone] at hp

end Anchored

/-- The choices of a run that nothing from outside disturbs. -/
def Choice.IsCalm (i : Choice) : Prop := i.fault = false ∧ i.late = false ∧ i.cut = none

/-- A step of a thread that nothing from outside disturbs. -/
def SystemEvent.IsCalm : SystemEvent → Prop
  | .act _ _ _ _ i _ => i.IsCalm
  | _ => True

/-- A calm choice with the given bytes. -/
def Choice.calm (bytes : Bytes) : Choice where
  fault := false
  late := false
  now := 0
  timely := by decide
  bytes := bytes
  rootKey := Scenario.zeroKey
  draws := ⟨[], []⟩
  cut := none

/-- There is always an id that is not taken. -/
theorem exists_new_kid (existing : Finset Str) :
    ∃ bytes, lit "hk_" ++ hexlify bytes ∉ existing := by
  refine ⟨List.replicate (existing.sup List.length) 0, fun hmem => ?_⟩
  have hle := Finset.le_sup (f := List.length) hmem
  rw [List.length_append, length_hexlify, List.length_replicate] at hle
  have hprefix : (lit "hk_").length = 3 := by decide
  omega

namespace Anchored

/-- **A thread can go on** unless it waits for a lock. -/
theorem enabled {c : Op} {k : c.Ans → HostProg Outcome} (hs : Anchored s)
    (hcustody : Custody H s) (running : s.threads tid = some ⟨p, r, hist, .act c k⟩)
    (hin : c.InOrder r hist) (hfree : ∀ l, c = .acquire l → s.world.locks (l.of p) = none) :
    ∃ i a w', i.IsCalm ∧ c.exec p tid i s.world = some (a, w') := by
  have hsound := hcustody.sound tid _ running
  have hserving : r.IsApi → s.world.Serving p := hsound.api
  have hmemory : r.IsApi ∨ Hist.Loaded hist → (s.world.memoryOf p).isSome = true := by
    rintro (hr | hloaded)
    · obtain ⟨m, hm, -⟩ := hcustody.memory p (hserving hr)
      rw [hm]
      rfl
    · exact hs.loaded tid _ running hloaded
  cases c with
  -- a draw among the ids that are not taken
  | newKid existing =>
    obtain ⟨bytes, hnew⟩ := exists_new_kid existing
    refine ⟨.calm bytes, .ok (lit "hk_" ++ hexlify bytes), s.world, ⟨rfl, rfl, rfl⟩, ?_⟩
    exact (if_neg hnew).trans rfl
  | acquire l =>
    refine ⟨.calm [], .ok (), s.world.setLock (l.of p) (some (p, tid)), ⟨rfl, rfl, rfl⟩, ?_⟩
    simp only [Op.exec]
    rw [hfree l rfl]
    rfl
  -- never blocked: it says whether the lock was free
  | tryAcquire l =>
    cases hl : s.world.locks (l.of p) with
    | none =>
      refine ⟨.calm [], .ok true, s.world.setLock (l.of p) (some (p, tid)), ⟨rfl, rfl, rfl⟩, ?_⟩
      simp only [Op.exec, hl]
      rfl
    | some x =>
      refine ⟨.calm [], .ok false, s.world, ⟨rfl, rfl, rfl⟩, ?_⟩
      simp only [Op.exec, hl]
      rfl
  -- read only by requests of a loaded instance
  | memory =>
    obtain ⟨m, hm⟩ := Option.isSome_iff_exists.mp (hmemory hin)
    refine ⟨.calm [], .ok m, s.world, ⟨rfl, rfl, rfl⟩, ?_⟩
    simp only [Op.exec]
    exact congrArg (Option.map _) hm
  | nextCleanupAt =>
    obtain ⟨t, ht⟩ := Option.isSome_iff_exists.mp (hs.serving p (hserving hin))
    refine ⟨.calm [], .ok t, s.world, ⟨rfl, rfl, rfl⟩, ?_⟩
    simp only [Op.exec]
    exact congrArg (Option.map _) ht
  | startServing =>
    have hset : ((s.world.procs p).bind Proc.memory).isSome ∧
        ((s.world.procs p).bind Proc.nextCleanupAt).isSome :=
      ⟨hmemory (Or.inr hin.1), hs.scheduled tid _ running hin.2⟩
    refine ⟨.calm [], .ok (), s.world.setProc p fun q => { q with serving := true },
      ⟨rfl, rfl, rfl⟩, ?_⟩
    simp only [Op.exec]
    rw [if_pos hset]
  | _ => exact ⟨.calm [], _, _, ⟨rfl, rfl, rfl⟩, rfl⟩

end Anchored

/-- The lock that a program acquires next. -/
def nextLock : HostProg Outcome → Option LockName
  | .act (.acquire l) _ => some l
  | _ => none

theorem nextLock_eq_some {prog : HostProg Outcome} {l : LockName} (h : nextLock prog = some l) :
    ∃ k, prog = .act (.acquire l) k := by
  unfold nextLock at h
  split at h
  · obtain rfl := Option.some.inj h
    exact ⟨_, rfl⟩
  · cases h

/-- The rest of every running thread takes its locks in order. -/
def SystemState.Ordered (s : SystemState) : Prop :=
  ∀ tid th, s.threads tid = some th →
    th.prog.Spec (Op.InOrder th.req) (fun h _ => ∀ l ∈ (known h).held, ¬ l.IsWaited) th.hist

namespace Anchored

variable {th : Thread ℕ Request Op Op.Ans Error Outcome}

/-- A thread goes on if the lock that it acquires next is free. -/
theorem goes_on (hs : Anchored s) (hcustody : Custody H s) (hordered : SystemState.Ordered s)
    (hth : s.threads tid = some th)
    (hfree : ∀ l, nextLock th.prog = some l → s.world.locks (l.of th.owner) = none) :
    ∃ l s', Event.IsWork l ∧ SystemEvent.IsCalm l ∧ (system H).Step s l s' := by
  obtain ⟨owner, req, hist, prog⟩ := th
  cases prog with
  | ret o => exact ⟨.ret tid owner req (.ok o), _, trivial, trivial, .ret hth rfl⟩
  | raise e => exact ⟨.ret tid owner req (.error e), _, trivial, trivial, .ret hth rfl⟩
  | act c k =>
    have hin : c.InOrder req hist := (hordered tid _ hth).1
    obtain ⟨i, a, w', hcalm, hexec⟩ := hs.enabled hcustody hth hin (by
      rintro l rfl
      exact hfree l rfl)
    exact ⟨.act tid owner req c i a, _, trivial, hcalm, .act hth hexec⟩

/-- **Some thread can go on** while any thread runs: the ranks of the locks that the holders of
locks wait for increase, so the last of them does not wait. -/
theorem live (hs : Anchored s) (hcustody : Custody H s) (hordered : SystemState.Ordered s)
    (hth : s.threads tid = some th) :
    ∃ l s', Event.IsWork l ∧ SystemEvent.IsCalm l ∧ (system H).Step s l s' := by
  refine exists_top
    (fun x : ℕ × Thread ℕ Request Op Op.Ans Error Outcome => s.threads x.1 = some x.2)
    (fun x => (nextLock x.2.prog).elim 0 LockName.rank) 2 ?_ ?_ (a := (tid, th)) hth
  · rintro ⟨tid, th⟩ -
    cases nextLock th.prog with
    | none => exact Nat.zero_le 2
    | some l => cases l <;> decide
  · rintro ⟨tid, th⟩ hth
    cases hnext : nextLock th.prog with
    | none =>
      refine Or.inl (hs.goes_on hcustody hordered hth fun l hl => ?_)
      rw [hnext] at hl
      cases hl
    | some l =>
      cases hlock : s.world.locks (l.of th.owner) with
      | none =>
        refine Or.inl (hs.goes_on hcustody hordered hth fun l' hl' => ?_)
        obtain rfl := Option.some.inj (hnext.symm.trans hl')
        exact hlock
      | some x =>
        obtain ⟨k, hprog⟩ := nextLock_eq_some hnext
        have hwaited : l.IsWaited := by
          have hspec := hordered tid th hth
          rw [hprog] at hspec
          exact hspec.1.1
        -- the holder of the lock waits for a lock of a higher rank, or does not wait
        obtain ⟨th', hth', -, hheld⟩ := hs.held l hwaited th.owner x.1 x.2 hlock
        cases hnext' : nextLock th'.prog with
        | none =>
          refine Or.inl (hs.goes_on hcustody hordered hth' fun l' hl' => ?_)
          rw [hnext'] at hl'
          cases hl'
        | some l' =>
          obtain ⟨k', hprog'⟩ := nextLock_eq_some hnext'
          have hspec := hordered x.2 th' hth'
          rw [hprog'] at hspec
          refine Or.inr ⟨(x.2, th'), hth', ?_⟩
          simpa [hnext, hnext'] using hspec.1.2 l hheld

end Anchored

/-! ### Runs -/

/-- The invariant holds in every state of a run that starts with it. -/
theorem SystemRunFrom.anchored {τ : List SystemTrans} (h : SystemRunFrom H w τ s)
    (hcustody : Custody H (.start w)) (h₀ : Anchored (.start w)) : Anchored s := by
  refine h.history (P := fun _ s => Anchored s) h₀ fun {τ s' l s''} hrun hs hstep => ?_
  have hcustody' : Custody H s' := SystemRunFrom.custody hrun hcustody
  have hordered := Machine.spec_running (M := system H) program_ordered hrun
  have hbelow := (Machine.coherent hrun).running
  cases hstep with
  | call admitted =>
    refine hs.call hcustody' ?_ admitted
    by_contra hsome
    obtain ⟨th, hth⟩ := Option.ne_none_iff_exists'.mp hsome
    exact absurd (hbelow _ th hth).1 (lt_irrefl _)
  | act running executed =>
    exact hs.act hcustody' running (hordered _ _ running).1 executed
  | @ret tid th x running finished =>
    refine hs.ret running ?_
    have hspec := hordered tid th running
    cases hprog : th.prog with
    | ret o =>
      rw [hprog] at hspec
      exact hspec
    | raise e =>
      rw [hprog] at hspec
      exact hspec
    | act c k =>
      rw [hprog] at finished
      cases finished
  | stop p => exact hs.stop hcustody'

/-- An instance keeps going, and its threads take their locks in order. -/
theorem Lineage.anchored {runs : List (List SystemTrans)} (h : Lineage H runs s) :
    Anchored s ∧ SystemState.Ordered s ∧ ∀ tid ≥ s.next, s.threads tid = none := by
  have hall : ∀ {w τ s}, SystemRunFrom H w τ s → Custody H (.start w) → Anchored (.start w) →
      Anchored s ∧ SystemState.Ordered s ∧ ∀ tid ≥ s.next, s.threads tid = none := by
    intro w τ s hrun hcustody hanchored
    refine ⟨hrun.anchored hcustody hanchored,
      Machine.spec_running (M := system H) program_ordered hrun, fun tid htid => ?_⟩
    by_contra hsome
    obtain ⟨th, hth⟩ := Option.ne_none_iff_exists'.mp hsome
    exact absurd ((Machine.coherent hrun).running tid th hth).1 (not_lt.mpr htid)
  cases h with
  | created run =>
    obtain ⟨kidBytes, key, hrun⟩ := run
    exact hall hrun (.idle (Ledger.covered_empty _) (Ledger.keyed_empty _) fun _ => rfl)
      (.idle (fun _ => rfl) fun _ => rfl)
  | restored backedUp run =>
    exact hall run (.restored backedUp.custody.covered backedUp.custody.keyed)
      (.idle (fun _ => rfl) fun _ => rfl)

/-- **The requests of an instance drain.** From every state that an instance can reach, however its
threads are scheduled, they only act and return finitely often; and if nothing disturbs them from
outside, they can always go on until every running request has returned, after which nobody holds a
lock that others wait for. What keeps them going: the rest of every thread takes its locks in
order, what it reads of its process has been set, and a running thread holds what others wait
for. -/
theorem requests_drain {runs : List (List SystemTrans)} (h : Lineage H runs s) :
    Anchored s ∧ s.Ordered ∧ Acc (system H).Works s ∧
      ∃ τ s', Run (system H).Step s τ s' ∧
        (∀ t ∈ τ, t.label.IsWork ∧ SystemEvent.IsCalm t.label) ∧
        (∀ tid th, s.threads tid = some th → ∃ t ∈ τ, ∃ x, t.label = .ret tid th.owner th.req x) ∧
        (∀ tid, s'.threads tid = none) ∧
        ∀ l : LockName, l.IsWaited → ∀ p, s'.world.locks (l.of p) = none := by
  obtain ⟨hanchored, hordered, hnext⟩ := h.anchored
  have hacc : Acc (system H).Works s := Machine.works_acc hnext
  refine ⟨hanchored, hordered, hacc, ?_⟩
  have hkeep : ∀ {s l s'}, (∃ runs, Lineage H runs s) → Event.IsWork l →
      (system H).Step s l s' → ∃ runs, Lineage H runs s' := by
    rintro s l s' ⟨runs, hlineage⟩ - hstep
    exact hlineage.extend (Run.single hstep)
  have hlive : ∀ {s tid th}, (∃ runs, Lineage H runs s) → s.threads tid = some th →
      ∃ l s', Event.IsWork l ∧ SystemEvent.IsCalm l ∧ (system H).Step s l s' := by
    rintro s tid th ⟨runs, hlineage⟩ hth
    obtain ⟨hanchored, hordered, -⟩ := hlineage.anchored
    exact hanchored.live hlineage.custody hordered hth
  obtain ⟨τ, s', hrun, hτ, ⟨runs', hlineage'⟩, hdone⟩ :=
    Machine.drains hkeep hlive ⟨runs, h⟩ hacc
  refine ⟨τ, s', hrun, hτ, fun tid th hth => ?_, hdone, fun l hl p => ?_⟩
  · exact hrun.returned_of_work (fun t ht => (hτ t ht).1) hth (hdone tid)
  · by_contra htaken
    obtain ⟨x, hx⟩ := Option.ne_none_iff_exists'.mp htaken
    obtain ⟨th, hth, -⟩ := hlineage'.anchored.1.held l hl p x.1 x.2 hx
    rw [hdone] at hth
    cases hth

/-- A thread that rotates the hash key holds the lock of the keyring file, and a thread that creates
a client holds the key lock and waits for the file. -/
def Scenario.contended : List SystemMove :=
  Scenario.served ++ [.call 0 (.api .rotateKey), .act 2 (Scenario.choice 1001 40),
    .call 0 (.api (.createClient Scenario.clientRequest)), .act 3 (Scenario.choice 1001 50)]

/-- Two threads that hold a lock each both return. -/
theorem requests_drain_contended : ∃ τ s, SystemRun plainHash τ s ∧
    s.world.locks .keyringFile = some (0, 2) ∧ s.world.locks (.keyLock 0) = some (0, 3) ∧
      ∃ τ' s', Run (system plainHash).Step s τ' s' ∧ (∃ t ∈ τ', ∃ p r x, t.label = .ret 2 p r x) ∧
        ∃ t ∈ τ', ∃ p r x, t.label = .ret 3 p r x := by
  obtain ⟨τ, s, hrun, hfile, hkey, h₂, h₃⟩ := exists_systemRun Scenario.contended
    (fun _ s => s.world.locks .keyringFile = some (0, 2) ∧
      s.world.locks (.keyLock 0) = some (0, 3) ∧ (s.threads 2).isSome = true ∧
      (s.threads 3).isSome = true) (by decide +kernel)
  obtain ⟨-, -, -, τ', s', hrun', -, hreturns, -⟩ := requests_drain (.created hrun)
  obtain ⟨th₂, hth₂⟩ := Option.isSome_iff_exists.mp h₂
  obtain ⟨th₃, hth₃⟩ := Option.isSome_iff_exists.mp h₃
  obtain ⟨t₂, ht₂, x₂, hl₂⟩ := hreturns 2 th₂ hth₂
  obtain ⟨t₃, ht₃, x₃, hl₃⟩ := hreturns 3 th₃ hth₃
  exact ⟨τ, s, hrun, hfile, hkey, τ', s', hrun', ⟨t₂, ht₂, _, _, x₂, hl₂⟩,
    t₃, ht₃, _, _, x₃, hl₃⟩

end Onceproof

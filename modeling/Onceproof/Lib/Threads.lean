import Onceproof.Lib.Execution
import Onceproof.Lib.Transition
import Mathlib.Logic.Function.Basic
import Mathlib.Order.Basic
import Mathlib.Order.Nat

/-!
# Threads over a shared world

A `Machine` runs programs (`Prog`) as threads of processes that share a world. A thread takes
one command at a time, and between two of its commands every other thread may run; a process
may stop at any moment, and its threads with it. A run of the machine is a list of
transitions labelled with events: a thread is called, acts, or returns, or a process stops.

* `acted tid τ` is what the thread `tid` did in the run `τ`, and is the history kept in the
  thread (`Run.hist_eq_acted`).
* `Run.act_spec` and `Run.ret_spec` transfer the specification of a program (`Prog.Spec`) to
  the runs of the machine: an action is allowed by what its thread did before, and what a
  thread returns is described by what it did.
* `Machine.invariant` is the rule for invariants that speak about what the threads did.
* `Machine.act_once`: a command that is allowed only before any of its kind is issued once.
* `Machine.run_of_completes`: the execution of a program by itself is a run of the machine in which
  one thread is called, acts and returns. `returned` are the outcomes of a run.
-/

namespace Onceproof

/-- A machine: its programs, the effect of a command on the world (or that it is blocked),
the condition for a call, and what remains of the world when a process stops. -/
structure Machine (W P R C I : Type) (A : C → Type) (ε O : Type) where
  program : R → Prog C A ε O
  exec : P → ℕ → (c : C) → I → W → Option (A c × W)
  accept : P → R → W → Option W
  stop : P → W → W

/-- A running thread: its process, its request, what it did and what it still has to do. -/
structure Thread (P R C : Type) (A : C → Type) (ε O : Type) where
  owner : P
  req : R
  hist : List (Answered C A)
  prog : Prog C A ε O

/-- A thread that is left when another one ends was there before. -/
theorem eq_some_of_update_none {T : Type} {threads : ℕ → Option T} {tid tid' : ℕ} {th : T}
    (h : Function.update threads tid none tid' = some th) : threads tid' = some th := by
  by_cases htid : tid' = tid
  · rw [htid, Function.update_self] at h
    cases h
  · rwa [Function.update_of_ne htid] at h

/-- The state of a machine. Thread ids are never used twice. -/
structure MachineState (W P R C : Type) (A : C → Type) (ε O : Type) where
  world : W
  threads : ℕ → Option (Thread P R C A ε O)
  next : ℕ

/-- What happens in a step. -/
inductive Event (P R C I : Type) (A : C → Type) (ε O : Type)
  | call (tid : ℕ) (owner : P) (req : R)
  | act (tid : ℕ) (owner : P) (req : R) (c : C) (i : I) (a : A c)
  | ret (tid : ℕ) (owner : P) (req : R) (x : Except ε O)
  | stop (owner : P)

section Events

variable {P R C I : Type} {A : C → Type} {ε O : Type}

/-- The thread of an event, with its process and its request. -/
def Event.thread? : Event P R C I A ε O → Option (ℕ × P × R)
  | .call tid p r => some (tid, p, r)
  | .act tid p r _ _ _ => some (tid, p, r)
  | .ret tid p r _ => some (tid, p, r)
  | .stop _ => none

/-- What a thread did in one transition. -/
def Event.acted? (tid : ℕ) : Event P R C I A ε O → Option (Answered C A)
  | .act tid' _ _ c _ a => if tid' = tid then some ⟨c, a⟩ else none
  | _ => none

/-- What is no action of the thread adds nothing to it. -/
theorem Event.acted?_eq_none {tid : ℕ} {l : Event P R C I A ε O}
    (h : ∀ p r c i a, l ≠ .act tid p r c i a) : l.acted? tid = none := by
  cases l with
  | act tid' p r c i a =>
    refine if_neg fun htid => ?_
    subst htid
    exact h p r c i a rfl
  | call | ret | stop => rfl

/-- What a thread did in a run. -/
def acted {σ : Type} (tid : ℕ) (τ : List (Trans σ (Event P R C I A ε O))) :
    List (Answered C A) :=
  τ.filterMap fun t => t.label.acted? tid

@[simp]
theorem acted_append {σ : Type} (tid : ℕ)
    (τ τ' : List (Trans σ (Event P R C I A ε O))) :
    acted tid (τ ++ τ') = acted tid τ ++ acted tid τ' := by
  simp [acted]

theorem acted_singleton {σ : Type} (tid : ℕ) (t : Trans σ (Event P R C I A ε O)) :
    acted tid [t] = (t.label.acted? tid).toList := by
  simp only [acted, List.filterMap_cons, List.filterMap_nil]
  cases t.label.acted? tid <;> rfl

/-- An action of a thread is a transition of the run. -/
theorem mem_acted {σ : Type} {tid : ℕ} {τ : List (Trans σ (Event P R C I A ε O))} {c : C}
    {a : A c} : (⟨c, a⟩ : Answered C A) ∈ acted tid τ ↔
      ∃ t ∈ τ, ∃ p r i, t.label = .act tid p r c i a := by
  simp only [acted, List.mem_filterMap]
  constructor
  · rintro ⟨t, ht, h⟩
    refine ⟨t, ht, ?_⟩
    cases hl : t.label with
    | act tid' p r c' i a' =>
      rw [hl] at h
      simp only [Event.acted?] at h
      split_ifs at h with htid
      obtain ⟨rfl, ha⟩ := Sigma.mk.inj (Option.some.inj h)
      obtain rfl := eq_of_heq ha
      exact ⟨p, r, i, by rw [htid]⟩
    | call => rw [hl] at h; simp [Event.acted?] at h
    | ret => rw [hl] at h; simp [Event.acted?] at h
    | stop => rw [hl] at h; simp [Event.acted?] at h
  · rintro ⟨t, ht, p, r, i, hl⟩
    exact ⟨t, ht, by simp [hl, Event.acted?]⟩

/-- The outcome that an event returns. -/
def Event.returned? : Event P R C I A ε O → Option (Except ε O)
  | .ret _ _ _ x => some x
  | _ => none

/-- The outcomes that the threads of a run return. -/
def returned {σ : Type} (τ : List (Trans σ (Event P R C I A ε O))) : List (Except ε O) :=
  τ.filterMap fun t => t.label.returned?

theorem returned_append {σ : Type} (τ τ' : List (Trans σ (Event P R C I A ε O))) :
    returned (τ ++ τ') = returned τ ++ returned τ' :=
  List.filterMap_append

theorem Event.thread?_of_acted? {tid : ℕ} {l : Event P R C I A ε O} {x : Answered C A}
    (h : l.acted? tid = some x) : ∃ p r, l.thread? = some (tid, p, r) := by
  cases l with
  | act tid' p r c i a =>
    simp only [Event.acted?] at h
    split_ifs at h with htid
    exact ⟨p, r, by rw [Event.thread?, htid]⟩
  | call => simp [Event.acted?] at h
  | ret => simp [Event.acted?] at h
  | stop => simp [Event.acted?] at h

end Events

/-- The entries after an update. -/
theorem update_eq_some {α : Type} {f : ℕ → Option α} {n n' : ℕ} {x y : α}
    (h : Function.update f n (some x) n' = some y) : (n' = n ∧ y = x) ∨ n' ≠ n ∧ f n' = some y := by
  by_cases hn : n' = n
  · subst hn
    rw [Function.update_self] at h
    exact Or.inl ⟨rfl, (Option.some.inj h).symm⟩
  · rw [Function.update_of_ne hn] at h
    exact Or.inr ⟨hn, h⟩

section Steps

variable {W P R C I : Type} {A : C → Type} {ε O : Type} [DecidableEq P]

/-- The step relation of a machine. -/
inductive Machine.Step (M : Machine W P R C I A ε O) :
    MachineState W P R C A ε O → Event P R C I A ε O → MachineState W P R C A ε O → Prop
  | call {s : MachineState W P R C A ε O} {p : P} {r : R} {w : W}
      (admitted : M.accept p r s.world = some w) :
      Step M s (.call s.next p r)
        ⟨w, Function.update s.threads s.next (some ⟨p, r, [], M.program r⟩), s.next + 1⟩
  | act {s : MachineState W P R C A ε O} {tid : ℕ} {p : P} {r : R}
      {h : List (Answered C A)} {c : C} {k : A c → Prog C A ε O} {i : I} {a : A c} {w : W}
      (running : s.threads tid = some ⟨p, r, h, .act c k⟩)
      (executed : M.exec p tid c i s.world = some (a, w)) :
      Step M s (.act tid p r c i a)
        ⟨w, Function.update s.threads tid (some ⟨p, r, h ++ [⟨c, a⟩], k a⟩), s.next⟩
  | ret {s : MachineState W P R C A ε O} {tid : ℕ} {th : Thread P R C A ε O}
      {x : Except ε O} (running : s.threads tid = some th)
      (finished : th.prog.outcome? = some x) :
      Step M s (.ret tid th.owner th.req x)
        ⟨s.world, Function.update s.threads tid none, s.next⟩
  | stop {s : MachineState W P R C A ε O} (p : P) :
      Step M s (.stop p)
        ⟨M.stop p s.world, fun tid => (s.threads tid).filter fun th => th.owner ≠ p, s.next⟩

/-- The state without threads. -/
def MachineState.start (w : W) : MachineState W P R C A ε O := ⟨w, fun _ => none, 0⟩

variable {M : Machine W P R C I A ε O} {w : W} {s : MachineState W P R C A ε O}
variable {τ τ₁ τ₂ : List (Trans (MachineState W P R C A ε O) (Event P R C I A ε O))}
variable {t : Trans (MachineState W P R C A ε O) (Event P R C I A ε O)}

namespace Machine

/-- A thread that runs after a step ran before it with the same request, or was called. -/
theorem Step.thread_origin {l : Event P R C I A ε O} {s' : MachineState W P R C A ε O}
    (h : M.Step s l s') {tid : ℕ} {th : Thread P R C A ε O} (hth : s'.threads tid = some th) :
    (l = .call tid th.owner th.req ∧ tid = s.next ∧ th.hist = [] ∧
        th.prog = M.program th.req) ∨
      ∃ th₀, s.threads tid = some th₀ ∧ th₀.owner = th.owner ∧ th₀.req = th.req ∧
        th.hist = th₀.hist ++ (l.acted? tid).toList ∧
        (th.prog = th₀.prog ∧ l.acted? tid = none ∨ ∃ c k a, th₀.prog = .act c k ∧
          l.acted? tid = some ⟨c, a⟩ ∧ th.prog = k a) := by
  cases h with
  | @call p r w admitted =>
    dsimp only at hth
    by_cases htid : tid = s.next
    · subst htid
      rw [Function.update_self] at hth
      obtain rfl := Option.some.inj hth
      exact Or.inl ⟨rfl, rfl, rfl, rfl⟩
    · rw [Function.update_of_ne htid] at hth
      exact Or.inr ⟨th, hth, rfl, rfl, by simp [Event.acted?], Or.inl ⟨rfl, rfl⟩⟩
  | @act tid' p r h c k i a w running executed =>
    dsimp only at hth
    by_cases htid : tid = tid'
    · subst htid
      rw [Function.update_self] at hth
      obtain rfl := Option.some.inj hth
      exact Or.inr ⟨_, running, rfl, rfl, by simp [Event.acted?],
        Or.inr ⟨c, k, a, rfl, by simp [Event.acted?], rfl⟩⟩
    · rw [Function.update_of_ne htid] at hth
      have hne : tid' ≠ tid := fun heq => htid heq.symm
      exact Or.inr ⟨th, hth, rfl, rfl, by simp [Event.acted?, hne],
        Or.inl ⟨rfl, by simp [Event.acted?, hne]⟩⟩
  | @ret tid' th' x running finished =>
    dsimp only at hth
    by_cases htid : tid = tid'
    · subst htid
      simp at hth
    · rw [Function.update_of_ne htid] at hth
      exact Or.inr ⟨th, hth, rfl, rfl, by simp [Event.acted?], Or.inl ⟨rfl, rfl⟩⟩
  | stop p =>
    dsimp only at hth
    exact Or.inr ⟨th, (Option.filter_eq_some_iff.mp hth).1, rfl, rfl, by simp [Event.acted?],
      Or.inl ⟨rfl, rfl⟩⟩

theorem Step.next_le {l : Event P R C I A ε O} {s' : MachineState W P R C A ε O}
    (h : M.Step s l s') : s.next ≤ s'.next := by
  cases h <;> simp

/-- What a run says about its threads: their events name them rightly, and what is kept of
them is what they did. -/
structure Coherent (τ : List (Trans (MachineState W P R C A ε O) (Event P R C I A ε O)))
    (s : MachineState W P R C A ε O) : Prop where
  below : ∀ t ∈ τ, ∀ tid p r, t.label.thread? = some (tid, p, r) → tid < s.next
  running : ∀ tid th, s.threads tid = some th →
    tid < s.next ∧ th.hist = acted tid τ ∧
      ∀ t ∈ τ, ∀ p r, t.label.thread? = some (tid, p, r) → th.owner = p ∧ th.req = r
  unique : ∀ t ∈ τ, ∀ t' ∈ τ, ∀ tid p r p' r', t.label.thread? = some (tid, p, r) →
    t'.label.thread? = some (tid, p', r') → p = p' ∧ r = r'

/-- The event of a step names a running thread or calls a new one. -/
theorem Step.of_thread? {l : Event P R C I A ε O} {s' : MachineState W P R C A ε O}
    (h : M.Step s l s') {tid : ℕ} {p : P} {r : R} (hl : l.thread? = some (tid, p, r)) :
    (l = .call tid p r ∧ tid = s.next ∧ s'.next = s.next + 1) ∨
      ∃ th, s.threads tid = some th ∧ th.owner = p ∧ th.req = r := by
  cases h with
  | call admitted =>
    simp only [Event.thread?, Option.some.injEq, Prod.mk.injEq] at hl
    obtain ⟨rfl, rfl, rfl⟩ := hl
    exact Or.inl ⟨rfl, rfl, rfl⟩
  | act running executed =>
    simp only [Event.thread?, Option.some.injEq, Prod.mk.injEq] at hl
    obtain ⟨rfl, rfl, rfl⟩ := hl
    exact Or.inr ⟨_, running, rfl, rfl⟩
  | ret running finished =>
    simp only [Event.thread?, Option.some.injEq, Prod.mk.injEq] at hl
    obtain ⟨rfl, rfl, rfl⟩ := hl
    exact Or.inr ⟨_, running, rfl, rfl⟩
  | stop p => simp [Event.thread?] at hl

omit [DecidableEq P] in
theorem Coherent.acted_of_le (h : Coherent τ s) {tid : ℕ} (hle : s.next ≤ tid) :
    acted tid τ = [] := by
  rw [acted, List.filterMap_eq_nil_iff]
  intro t ht
  cases hx : t.label.acted? tid with
  | none => rfl
  | some x =>
    obtain ⟨p, r, hl⟩ := Event.thread?_of_acted? hx
    exact absurd (h.below t ht tid p r hl) (not_lt.mpr hle)

theorem Coherent.step {l : Event P R C I A ε O} {s' : MachineState W P R C A ε O}
    (h : Coherent τ s) (hs : M.Step s l s') : Coherent (τ ++ [⟨s, l, s'⟩]) s' := by
  refine ⟨fun t ht tid p r hl => ?_, fun tid th hth => ?_,
    fun t ht t' ht' tid p r p' r' hl hl' => ?_⟩
  · rcases List.mem_append.mp ht with ht | ht
    · exact lt_of_lt_of_le (h.below t ht tid p r hl) hs.next_le
    · obtain rfl := List.mem_singleton.mp ht
      rcases hs.of_thread? hl with ⟨-, rfl, hnext⟩ | ⟨th, hth, -⟩
      · simp [hnext]
      · exact lt_of_lt_of_le (h.running tid th hth).1 hs.next_le
  · rw [acted_append, acted_singleton]
    -- the thread was just called, or is an older one that has perhaps acted
    rcases hs.thread_origin hth with ⟨rfl, rfl, hhist, -⟩ | ⟨th₀, hth₀, howner, hreq, hhist, -⟩
    · refine ⟨?_, ?_, fun t ht p r hl => ?_⟩
      · cases hs
        simp
      · rw [hhist, h.acted_of_le le_rfl]
        rfl
      · rcases List.mem_append.mp ht with ht | ht
        · exact absurd (h.below t ht _ p r hl) (lt_irrefl _)
        · obtain rfl := List.mem_singleton.mp ht
          simp only [Event.thread?, Option.some.injEq, Prod.mk.injEq] at hl
          exact hl.2
    · obtain ⟨hlt, hhist₀, hnamed⟩ := h.running tid th₀ hth₀
      refine ⟨lt_of_lt_of_le hlt hs.next_le, by rw [hhist, hhist₀], fun t ht p r hl => ?_⟩
      rw [← howner, ← hreq]
      rcases List.mem_append.mp ht with ht | ht
      · exact hnamed t ht p r hl
      · obtain rfl := List.mem_singleton.mp ht
        rcases hs.of_thread? hl with ⟨-, rfl, -⟩ | ⟨th', hth', howner', hreq'⟩
        · exact absurd hlt (lt_irrefl _)
        · rw [hth₀] at hth'
          obtain rfl := Option.some.inj hth'
          exact ⟨howner', hreq'⟩
  -- an earlier event of the thread carries what the thread itself carries
  · have hmixed : ∀ t ∈ τ, ∀ p r p' r', t.label.thread? = some (tid, p, r) →
        l.thread? = some (tid, p', r') → p = p' ∧ r = r' := by
      intro t ht p r p' r' hl hl'
      rcases hs.of_thread? hl' with ⟨-, rfl, -⟩ | ⟨th, hth, rfl, rfl⟩
      · exact absurd (h.below t ht _ p r hl) (lt_irrefl _)
      · obtain ⟨howner, hreq⟩ := (h.running tid th hth).2.2 t ht p r hl
        exact ⟨howner.symm, hreq.symm⟩
    rcases List.mem_append.mp ht with ht | ht <;> rcases List.mem_append.mp ht' with ht' | ht'
    · exact h.unique t ht t' ht' tid p r p' r' hl hl'
    · obtain rfl := List.mem_singleton.mp ht'
      exact hmixed t ht p r p' r' hl hl'
    · obtain rfl := List.mem_singleton.mp ht
      obtain ⟨hp, hr⟩ := hmixed t' ht' p' r' p r hl' hl
      exact ⟨hp.symm, hr.symm⟩
    · obtain rfl := List.mem_singleton.mp ht
      obtain rfl := List.mem_singleton.mp ht'
      rw [hl] at hl'
      simp only [Option.some.injEq, Prod.mk.injEq, true_and] at hl'
      exact hl'

/-- Every run is coherent. -/
theorem coherent (h : Run M.Step (.start w) τ s) : Coherent τ s := by
  refine h.history (P := Coherent) ⟨by simp, ?_, by simp⟩ fun _ hc hs => hc.step hs
  intro tid th hth
  simp [MachineState.start] at hth

/-- **A running thread** was called in the run, or ran before it with the same request. -/
theorem running_before {s₀ : MachineState W P R C A ε O} (h : Run M.Step s₀ τ s) {tid : ℕ}
    {th : Thread P R C A ε O} (hth : s.threads tid = some th) :
    s₀.next ≤ tid ∨ ∃ th₀, s₀.threads tid = some th₀ ∧ th₀.req = th.req := by
  have hrun : s₀.next ≤ s.next ∧ ∀ tid th, s.threads tid = some th →
      s₀.next ≤ tid ∨ ∃ th₀, s₀.threads tid = some th₀ ∧ th₀.req = th.req := by
    refine h.invariant (I := fun s => s₀.next ≤ s.next ∧ ∀ tid th, s.threads tid = some th →
      s₀.next ≤ tid ∨ ∃ th₀, s₀.threads tid = some th₀ ∧ th₀.req = th.req) ?_
      ⟨le_rfl, fun tid th hth => Or.inr ⟨th, hth, rfl⟩⟩
    rintro s l s' ⟨hle, hold⟩ hs
    refine ⟨hle.trans hs.next_le, fun tid th hth => ?_⟩
    rcases hs.thread_origin hth with ⟨-, rfl, -⟩ | ⟨th₁, hth₁, -, hreq, -⟩
    · exact Or.inl hle
    · exact (hold tid th₁ hth₁).imp_right fun ⟨th₀, hth₀, h₀⟩ => ⟨th₀, hth₀, h₀.trans hreq⟩
  exact hrun.2 tid th hth

/-- A running thread was called. -/
theorem called_of_running (h : Run M.Step (.start w) τ s) : ∀ tid th, s.threads tid = some th →
    ∃ t ∈ τ, t.label = .call tid th.owner th.req := by
  refine h.history (P := fun τ s => ∀ tid th, s.threads tid = some th →
    ∃ t ∈ τ, t.label = .call tid th.owner th.req) (fun _ _ hth => ?_) ?_
  · simp [MachineState.start] at hth
  · intro τ s l s' _ ih hs tid th hth
    rcases hs.thread_origin hth with ⟨rfl, -⟩ | ⟨th₀, hth₀, howner, hreq, -⟩
    · exact ⟨_, List.mem_append_right _ (List.mem_singleton_self _), rfl⟩
    · obtain ⟨t, ht, hl⟩ := ih tid th₀ hth₀
      exact ⟨t, List.mem_append_left _ ht, by rw [hl, howner, hreq]⟩

/-! ### Specifications of runs -/

section Specified

variable {Φ : R → List (Answered C A) → C → Prop}
variable {Ψ : R → List (Answered C A) → Except ε O → Prop}

/-- The rest of every running thread meets the specification of its program. -/
theorem spec_running (hspec : ∀ r, (M.program r).Spec (Φ r) (Ψ r) [])
    (h : Run M.Step (.start w) τ s) :
    ∀ tid th, s.threads tid = some th → th.prog.Spec (Φ th.req) (Ψ th.req) th.hist := by
  refine h.invariant (I := fun s => ∀ tid th, s.threads tid = some th →
    th.prog.Spec (Φ th.req) (Ψ th.req) th.hist) (fun hI hs tid th hth => ?_) ?_
  · rcases hs.thread_origin hth with ⟨-, -, hhist, hprog⟩ |
        ⟨th₀, hth₀, -, hreq, hhist, hprog⟩
    · rw [hhist, hprog]
      exact hspec th.req
    · have hth₀ := hI tid th₀ hth₀
      rw [← hreq, hhist]
      rcases hprog with ⟨hprog, hact⟩ | ⟨c, k, a, hprog₀, hact, hprog⟩
      · rw [hact, hprog]
        simpa using hth₀
      · rw [hact, hprog]
        rw [hprog₀] at hth₀
        exact hth₀.2 a
  · intro tid th hth
    simp [MachineState.start] at hth

/-- **An action** is executed in the world before it, and is allowed by what its thread did
before. -/
theorem act_spec (hspec : ∀ r, (M.program r).Spec (Φ r) (Ψ r) [])
    (h : Run M.Step (.start w) (τ₁ ++ t :: τ₂) s) {tid : ℕ} {p : P} {r : R} {c : C} {i : I}
    {a : A c} (hl : t.label = .act tid p r c i a) :
    M.exec p tid c i t.src.world = some (a, t.dst.world) ∧ Φ r (acted tid τ₁) c := by
  obtain ⟨h₁, hs, -⟩ := h.of_cut
  obtain ⟨src, l, dst⟩ := t
  dsimp only at hl hs h₁
  subst hl
  cases hs with
  | act running executed =>
    have hth := spec_running hspec h₁ tid _ running
    have hhist := (coherent h₁).running tid _ running
    refine ⟨executed, ?_⟩
    rw [← hhist.2.1]
    exact hth.1

/-- **A return** leaves the world alone and is described by what the thread did. -/
theorem ret_spec (hspec : ∀ r, (M.program r).Spec (Φ r) (Ψ r) [])
    (h : Run M.Step (.start w) (τ₁ ++ t :: τ₂) s) {tid : ℕ} {p : P} {r : R}
    {x : Except ε O} (hl : t.label = .ret tid p r x) :
    t.dst.world = t.src.world ∧ Ψ r (acted tid τ₁) x := by
  obtain ⟨h₁, hs, -⟩ := h.of_cut
  obtain ⟨src, l, dst⟩ := t
  dsimp only at hl hs h₁
  subst hl
  generalize hl : (Event.ret tid p r x : Event P R C I A ε O) = l at hs
  cases hs with
  | @ret tid' th x' running finished =>
    simp only [Event.ret.injEq] at hl
    obtain ⟨rfl, rfl, rfl, rfl⟩ := hl
    have hth := spec_running hspec h₁ tid _ running
    have hhist := (coherent h₁).running tid _ running
    refine ⟨rfl, ?_⟩
    rw [← hhist.2.1]
    cases hprog : th.prog with
    | ret a =>
      rw [hprog] at hth finished
      obtain rfl := Option.some.inj finished
      exact hth
    | raise e =>
      rw [hprog] at hth finished
      obtain rfl := Option.some.inj finished
      exact hth
    | act c k => simp [hprog] at finished
  | call => simp at hl
  | act => simp at hl
  | stop => simp at hl

/-- **Commands that are issued once**: if a command of the kind `K` is allowed only after a
history without that kind, a thread issues at most one. -/
theorem act_once {K : C → Prop} (hspec : ∀ r, (M.program r).Spec (Φ r) (Ψ r) [])
    (hfirst : ∀ r h c, Φ r h c → K c → ∀ x ∈ h, ¬ K x.1) (h : Run M.Step (.start w) τ s)
    {τ₁' τ₂' : List (Trans (MachineState W P R C A ε O) (Event P R C I A ε O))}
    {t' : Trans (MachineState W P R C A ε O) (Event P R C I A ε O)}
    (hcut : τ = τ₁ ++ t :: τ₂) (hcut' : τ = τ₁' ++ t' :: τ₂') {tid : ℕ} {p p' : P} {r r' : R}
    {c c' : C} {i i' : I} {a : A c} {a' : A c'} (hl : t.label = .act tid p r c i a)
    (hl' : t'.label = .act tid p' r' c' i' a') (hc : K c) (hc' : K c') :
    τ₁ = τ₁' ∧ t = t' ∧ τ₂ = τ₂' := by
  have hlater : ∀ {σ σ' ρ k : List (Trans (MachineState W P R C A ε O) (Event P R C I A ε O))}
      {u v : Trans (MachineState W P R C A ε O) (Event P R C I A ε O)} {p p' : P} {r r' : R}
      {c c' : C} {i i' : I} {a : A c} {a' : A c'}, u.label = .act tid p r c i a →
      v.label = .act tid p' r' c' i' a' → K c → K c' → τ = σ' ++ v :: ρ → σ' = σ ++ u :: k →
        False := by
    intro σ σ' ρ k u v p p' r r' c c' i i' a a' hu hv hcu hcv hcutv hk
    have hmem : (⟨c, a⟩ : Answered C A) ∈ acted tid σ' :=
      mem_acted.mpr ⟨u, hk ▸ List.mem_append_right _ List.mem_cons_self, p, r, i, hu⟩
    exact hfirst _ _ _ (act_spec hspec (hcutv ▸ h) hv).2 hcv _ hmem hcu
  rcases cut_cases (hcut.symm.trans hcut') with hsame | ⟨k, hk, -⟩ | ⟨k, hk, -⟩
  · exact hsame
  · exact (hlater hl hl' hc hc' hcut' hk).elim
  · exact (hlater hl' hl hc' hc hcut hk).elim

end Specified

/-- The world changes by the effect of a command, by a call or by a stop. -/
theorem Step.world {l : Event P R C I A ε O} {s' : MachineState W P R C A ε O}
    (h : M.Step s l s') :
    (∃ tid p r, l = .call tid p r ∧ M.accept p r s.world = some s'.world) ∨
      (∃ tid p r c i a, l = .act tid p r c i a ∧
        M.exec p tid c i s.world = some (a, s'.world)) ∨
      (∃ tid p r x, l = .ret tid p r x ∧ s'.world = s.world) ∨
      ∃ p, l = .stop p ∧ s'.world = M.stop p s.world := by
  cases h with
  | call admitted => exact Or.inl ⟨_, _, _, rfl, admitted⟩
  | act running executed => exact Or.inr (Or.inl ⟨_, _, _, _, _, _, rfl, executed⟩)
  | ret running finished => exact Or.inr (Or.inr (Or.inl ⟨_, _, _, _, rfl, rfl⟩))
  | stop p => exact Or.inr (Or.inr (Or.inr ⟨p, rfl, rfl⟩))

/-- **Invariants of a machine**: what holds at the start and is kept by calls, by the commands
that the specifications allow, by returns and by stops holds in every state of a run. -/
theorem invariant {Φ : R → List (Answered C A) → C → Prop}
    {Ψ : R → List (Answered C A) → Except ε O → Prop} {J : MachineState W P R C A ε O → Prop}
    (hspec : ∀ r, (M.program r).Spec (Φ r) (Ψ r) [])
    (hcall : ∀ {s p r w'}, J s → M.accept p r s.world = some w' →
      J ⟨w', Function.update s.threads s.next (some ⟨p, r, [], M.program r⟩), s.next + 1⟩)
    (hact : ∀ {s tid p r hist c k i a w'}, J s → s.threads tid = some ⟨p, r, hist, .act c k⟩ →
      tid < s.next → Φ r hist c → M.exec p tid c i s.world = some (a, w') →
        J ⟨w', Function.update s.threads tid (some ⟨p, r, hist ++ [⟨c, a⟩], k a⟩), s.next⟩)
    (hret : ∀ {s tid}, J s → J ⟨s.world, Function.update s.threads tid none, s.next⟩)
    (hstop : ∀ {s p}, J s → J ⟨M.stop p s.world,
      fun tid => (s.threads tid).filter fun th => th.owner ≠ p, s.next⟩)
    (h : Run M.Step (.start w) τ s) (h0 : J (.start w)) : J s := by
  refine h.history (P := fun _ s => J s) h0 fun hrun hJ hs => ?_
  have hbelow := (coherent hrun).running
  cases hs with
  | call admitted => exact hcall hJ admitted
  | act running executed =>
    exact hact hJ running (hbelow _ _ running).1 (spec_running hspec hrun _ _ running).1 executed
  | ret => exact hret hJ
  | stop p => exact hstop hJ

/-- The execution of a program by itself is what its thread does while no other thread runs. -/
theorem run_of_steps {tid : ℕ} {p : P} {r : R} {prog prog' : Prog C A ε O} {w' : W}
    {h hist : List (Answered C A)} (hsteps : Prog.Steps (M.exec p tid) prog s.world h prog' w')
    (hth : s.threads tid = some ⟨p, r, hist, prog⟩) :
    ∃ τ, Run M.Step s τ
        ⟨w', Function.update s.threads tid (some ⟨p, r, hist ++ h, prog'⟩), s.next⟩ ∧
      returned τ = [] := by
  generalize hw : s.world = w at hsteps
  induction hsteps generalizing s hist with
  | refl prog w =>
    have hsame : s = ⟨w, Function.update s.threads tid (some ⟨p, r, hist ++ [], prog⟩),
        s.next⟩ := by
      rw [List.append_nil, ← hth, Function.update_eq_self, ← hw]
    refine ⟨[], ?_, rfl⟩
    rw [← hsame]
    exact .nil s
  | @act c k i a w w₁ w' h prog' executed rest ih =>
    have hstep := Step.act hth (hw ▸ executed)
    obtain ⟨τ, hrun, hτ⟩ := ih (s := ⟨w₁, Function.update s.threads tid
      (some ⟨p, r, hist ++ [⟨c, a⟩], k a⟩), s.next⟩) (Function.update_self ..) rfl
    rw [List.append_assoc, List.singleton_append, Function.update_idem] at hrun
    refine ⟨_, (Run.single hstep).append hrun, ?_⟩
    rw [returned_append, hτ]
    rfl

/-- **The execution of a program** is a run of the machine: a thread is called, acts and
returns. -/
theorem run_of_completes {n : ℕ} {p : P} {r : R} {w₁ w' : W} {x : Except ε O}
    {h : List (Answered C A)} (haccept : M.accept p r w = some w₁)
    (hcompletes : Prog.Completes (M.exec p n) (M.program r) w₁ h x w') :
    ∃ τ, Run M.Step ⟨w, fun _ => none, n⟩ τ ⟨w', fun _ => none, n + 1⟩ ∧ returned τ = [x] := by
  obtain ⟨prog', hsteps, hx⟩ := hcompletes
  have hcall := Step.call (M := M) (s := ⟨w, fun _ => none, n⟩) haccept
  have hthread : (Function.update (fun _ => none) n (some ⟨p, r, [], M.program r⟩) :
      ℕ → Option (Thread P R C A ε O)) n = some ⟨p, r, [], M.program r⟩ := Function.update_self ..
  obtain ⟨τ, hrun, hτ⟩ := run_of_steps (s := ⟨w₁, Function.update (fun _ => none) n
    (some ⟨p, r, [], M.program r⟩), n + 1⟩) hsteps hthread
  have hret := Step.ret (M := M) (s := ⟨w', Function.update (Function.update (fun _ => none) n
    (some ⟨p, r, [], M.program r⟩)) n (some ⟨p, r, [] ++ h, prog'⟩), n + 1⟩)
    (Function.update_self ..) hx
  have hidle : Function.update (Function.update (Function.update (fun _ => none) n
      (some ⟨p, r, [], M.program r⟩)) n (some ⟨p, r, [] ++ h, prog'⟩)) n none =
        (fun _ => none : ℕ → Option (Thread P R C A ε O)) := by
    funext tid
    by_cases htid : tid = n
    · rw [htid, Function.update_self]
    · simp [Function.update_of_ne htid]
  rw [hidle] at hret
  refine ⟨_, ((Run.single hcall).append hrun).append (Run.single hret), ?_⟩
  rw [returned_append, returned_append, hτ]
  rfl

end Machine

end Steps

end Onceproof

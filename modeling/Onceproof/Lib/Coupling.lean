import Onceproof.Lib.Threads
import Mathlib.Data.Option.Basic

/-!
# Coupled programs and alike runs

Two programs are coupled over a relation of worlds if they issue their commands in step: whenever
the first one can execute its command, so can the second one its own in the related world, the
worlds are related afterwards, and the rests of the programs are coupled. The commands and their
answers may differ. A condition on the worlds of the first program (`J`) and one on the choices of
the outside (`G`) may be assumed at every command.

* `Prog.Coupled` is the relation, with the rules `Coupled.bind`, `Coupled.ensure`,
  `Coupled.raiseAs` and `Coupled.perform_bind`. A `Neutral` command answers the same in related
  worlds and keeps them related (`Coupled.act_neutral`).
* `MachineState.Coupled` relates two states of a machine thread by thread, and
  `Machine.Step.coupled` and `Machine.run_coupled` carry it along: every run has an alike run from a
  coupled state, in which the same threads are called, act and return, with related outcomes.
-/

namespace Onceproof

universe u v w

namespace Prog

variable {C : Type u} {A : C → Type} {ε α β : Type} {I : Type v} {W : Type w}

/-- Two programs that issue their commands in step in related worlds. -/
inductive Coupled (exec : (c : C) → I → W → Option (A c × W)) (J : W → Prop) (G : C → I → Prop)
    (R : W → W → Prop) (Q : Except ε α → Except ε α → Prop) :
    Prog C A ε α → Prog C A ε α → Prop
  | ret {a a' : α} (outcome : Q (.ok a) (.ok a')) : Coupled exec J G R Q (ret a) (ret a')
  | raise {e e' : ε} (outcome : Q (.error e) (.error e')) :
      Coupled exec J G R Q (raise e) (raise e')
  | act {c c' : C} {k : A c → Prog C A ε α} {k' : A c' → Prog C A ε α}
      (next : ∀ {i w w' a v}, J w → G c i → R w w' → exec c i w = some (a, v) →
        ∃ a' v', exec c' i w' = some (a', v') ∧ R v v')
      (rest : ∀ {i w w' a v a' v'}, J w → G c i → R w w' → exec c i w = some (a, v) →
        exec c' i w' = some (a', v') → Coupled exec J G R Q (k a) (k' a')) :
      Coupled exec J G R Q (act c k) (act c' k')

variable {exec : (c : C) → I → W → Option (A c × W)} {J : W → Prop} {G : C → I → Prop}
variable {R : W → W → Prop} {p p' : Prog C A ε α} {Q Q' : Except ε α → Except ε α → Prop}

/-- **Consequence.** -/
theorem Coupled.mono (h : Coupled exec J G R Q p p') (hQ : ∀ x x', Q x x' → Q' x x') :
    Coupled exec J G R Q' p p' := by
  induction h with
  | ret outcome => exact .ret (hQ _ _ outcome)
  | raise outcome => exact .raise (hQ _ _ outcome)
  | act next _ ih => exact .act next fun hJ hG hR hexec hexec' => ih hJ hG hR hexec hexec'

/-- The outcomes after which the rests of two sequences are coupled. -/
inductive Continues (S : α → β → Prop) (E : ε → ε → Prop) : Except ε α → Except ε β → Prop
  | ok {a : α} {b : β} (rest : S a b) : Continues S E (.ok a) (.ok b)
  | error {e e' : ε} (outcome : E e e') : Continues S E (.error e) (.error e')

/-- **Sequencing.** -/
theorem Coupled.bind {f f' : α → Prog C A ε β} {Q : Except ε β → Except ε β → Prop}
    (h : Coupled exec J G R (Continues (fun a a' => Coupled exec J G R Q (f a) (f' a'))
      fun e e' => Q (.error e) (.error e')) p p') :
    Coupled exec J G R Q (p >>= f) (p' >>= f') := by
  induction h with
  | ret outcome =>
    cases outcome with
    | ok rest => exact rest
  | raise outcome =>
    cases outcome with
    | error outcome => exact .raise outcome
  | act next _ ih => exact .act next fun hJ hG hR hexec hexec' => ih hJ hG hR hexec hexec'

/-- **Clean-up**: an exception of the clean-up replaces the outcome. -/
theorem Coupled.ensure {q q' : Prog C A ε Unit} (h : Coupled exec J G R Q p p')
    (hq : Coupled exec J G R (Continues (fun _ _ => True) fun e e' => Q (.error e) (.error e'))
      q q') : Coupled exec J G R Q (p.ensure q) (p'.ensure q') := by
  induction h with
  | ret outcome =>
    refine Coupled.bind (hq.mono fun _ _ hx => ?_)
    cases hx with
    | ok => exact .ok (.ret outcome)
    | error he => exact .error he
  | raise outcome =>
    refine Coupled.bind (hq.mono fun _ _ hx => ?_)
    cases hx with
    | ok => exact .ok (.raise outcome)
    | error he => exact .error he
  | act next _ ih => exact .act next fun hJ hG hR hexec hexec' => ih hJ hG hR hexec hexec'

/-- **Replaced exceptions.** -/
theorem Coupled.raiseAs {e : ε} {Q : Except ε α → Except ε α → Prop}
    (h : Coupled exec J G R (Continues (fun a a' => Q (.ok a) (.ok a'))
      fun _ _ => Q (.error e) (.error e)) p p') :
    Coupled exec J G R Q (p.raiseAs e) (p'.raiseAs e) := by
  induction h with
  | ret outcome =>
    cases outcome with
    | ok rest => exact .ret rest
  | raise outcome =>
    cases outcome with
    | error outcome => exact .raise outcome
  | act next _ ih => exact .act next fun hJ hG hR hexec hexec' => ih hJ hG hR hexec hexec'

/-- A value computed without commands, and what follows it. -/
theorem Coupled.lift_bind {x : Except ε α} {f f' : α → Prog C A ε β}
    {Q : Except ε β → Except ε β → Prop} (herror : ∀ e, x = .error e → Q (.error e) (.error e))
    (hok : ∀ a, x = .ok a → Coupled exec J G R Q (f a) (f' a)) :
    Coupled exec J G R Q (lift x >>= f) (lift x >>= f') := by
  cases x with
  | ok a => exact hok a rfl
  | error e => exact .raise (herror e rfl)

/-- A command that answers the same in related worlds, and keeps them related. -/
def Neutral (exec : (c : C) → I → W → Option (A c × W)) (J : W → Prop) (G : C → I → Prop)
    (R : W → W → Prop) (c : C) : Prop :=
  ∀ {i w w' a v}, J w → G c i → R w w' → exec c i w = some (a, v) →
    ∃ v', exec c i w' = some (a, v') ∧ R v v'

/-- **A neutral command**, and what follows it. -/
theorem Coupled.act_neutral {c : C} {k k' : A c → Prog C A ε α} (hc : Neutral exec J G R c)
    (hrest : ∀ {i w w' a v}, J w → R w w' → exec c i w = some (a, v) →
      Coupled exec J G R Q (k a) (k' a)) :
    Coupled exec J G R Q (.act c k) (.act c k') := by
  refine .act (fun hJ hG hR hexec => ?_) fun hJ hG hR hexec hexec' => ?_
  · obtain ⟨v', hexec', hv⟩ := hc hJ hG hR hexec
    exact ⟨_, v', hexec', hv⟩
  · obtain ⟨v'', hsame, -⟩ := hc hJ hG hR hexec
    obtain ⟨rfl, -⟩ := Prod.mk.inj (Option.some.inj (hexec'.symm.trans hsame))
    exact hrest hJ hR hexec

section Perform

variable {V : C → Type} {exec : (c : C) → I → W → Option (Except ε (V c) × W)}
variable {Q : Except ε β → Except ε β → Prop}

/-- Two commands that may raise, and what follows them. -/
theorem Coupled.perform_bind {c c' : C} {f : V c → Prog C (fun c => Except ε (V c)) ε β}
    {f' : V c' → Prog C (fun c => Except ε (V c)) ε β}
    (hnext : ∀ {i w w' a v}, J w → G c i → R w w' → exec c i w = some (a, v) →
      ∃ a' v', exec c' i w' = some (a', v') ∧ R v v' ∧
        Continues (fun b b' => Coupled exec J G R Q (f b) (f' b'))
          (fun e e' => Q (.error e) (.error e')) a a') :
    Coupled exec J G R Q (perform c >>= f) (perform c' >>= f') := by
  refine .act (fun hJ hG hR hexec => ?_) fun hJ hG hR hexec hexec' => ?_
  · obtain ⟨a', v', hexec', hv, -⟩ := hnext hJ hG hR hexec
    exact ⟨a', v', hexec', hv⟩
  · obtain ⟨a', v', hsame, -, hrest⟩ := hnext hJ hG hR hexec
    obtain ⟨rfl, -⟩ := Prod.mk.inj (Option.some.inj (hexec'.symm.trans hsame))
    cases hrest with
    | ok rest => exact rest
    | error outcome => exact .raise outcome

/-- A neutral command that may raise, and what follows it. -/
theorem Coupled.neutral_bind {c : C} {f f' : V c → Prog C (fun c => Except ε (V c)) ε β}
    (hc : Neutral exec J G R c) (herror : ∀ e, Q (.error e) (.error e))
    (hok : ∀ {i w w' b v}, J w → R w w' → exec c i w = some (.ok b, v) →
      Coupled exec J G R Q (f b) (f' b)) :
    Coupled exec J G R Q (perform c >>= f) (perform c >>= f') := by
  refine Coupled.perform_bind fun {i w w' a v} hJ hG hR hexec => ?_
  obtain ⟨v', hexec', hv⟩ := hc hJ hG hR hexec
  refine ⟨a, v', hexec', hv, ?_⟩
  cases a with
  | ok b => exact .ok (hok hJ hR hexec)
  | error e => exact .error (herror e)

end Perform

end Prog

/-! ### Machines -/

section Machines

variable {W P R C I : Type} {A : C → Type} {ε O : Type} [DecidableEq P]

/-- Events of the same kind: the same thread is called, acts with the same choice, or returns with
related outcomes, or the same process stops. -/
inductive Event.Alike (Q : R → Except ε O → Except ε O → Prop) :
    Event P R C I A ε O → Event P R C I A ε O → Prop
  | call (tid : ℕ) (p : P) (r : R) : Alike Q (.call tid p r) (.call tid p r)
  | act (tid : ℕ) (p : P) (r : R) (c c' : C) (i : I) (a : A c) (a' : A c') :
      Alike Q (.act tid p r c i a) (.act tid p r c' i a')
  | ret {tid : ℕ} {p : P} {r : R} {x x' : Except ε O} (outcome : Q r x x') :
      Alike Q (.ret tid p r x) (.ret tid p r x')
  | stop (p : P) : Alike Q (.stop p) (.stop p)

/-- Two threads of the same process and request whose programs are coupled. -/
structure Thread.Coupled (M : Machine W P R C I A ε O) (J : W → Prop) (G : C → I → Prop)
    (S : W → W → Prop) (Q : R → Except ε O → Except ε O → Prop) (tid : ℕ)
    (th th' : Thread P R C A ε O) : Prop where
  owner : th'.owner = th.owner
  req : th'.req = th.req
  prog : Prog.Coupled (M.exec th.owner tid) J G S (Q th.req) th.prog th'.prog

/-- Two states with related worlds and coupled threads. -/
structure MachineState.Coupled (M : Machine W P R C I A ε O) (J : W → Prop) (G : C → I → Prop)
    (S : W → W → Prop) (Q : R → Except ε O → Except ε O → Prop)
    (s s' : MachineState W P R C A ε O) : Prop where
  world : S s.world s'.world
  next : s'.next = s.next
  threads : ∀ tid, Option.Rel (Thread.Coupled M J G S Q tid) (s.threads tid) (s'.threads tid)

/-- A machine whose calls and stops keep the worlds related, and whose programs, for the requests
`L`, are coupled with themselves. -/
structure Machine.Couples (M : Machine W P R C I A ε O) (J : W → Prop) (G : C → I → Prop)
    (S : W → W → Prop) (Q : R → Except ε O → Except ε O → Prop) (L : R → Prop) : Prop where
  accept : ∀ {p r w w' v}, S w w' → M.accept p r w = some v →
    ∃ v', M.accept p r w' = some v' ∧ S v v'
  stop : ∀ {p w w'}, S w w' → S (M.stop p w) (M.stop p w')
  program : ∀ {p tid r}, L r → Prog.Coupled (M.exec p tid) J G S (Q r) (M.program r) (M.program r)

variable {M : Machine W P R C I A ε O} {J : W → Prop} {G : C → I → Prop} {S : W → W → Prop}
variable {Q : R → Except ε O → Except ε O → Prop} {L : R → Prop}
variable {s s' t : MachineState W P R C A ε O}

/-- A call of `L`, a choice of `G`, or an event that is neither. -/
inductive Event.Within (L : R → Prop) (G : C → I → Prop) : Event P R C I A ε O → Prop
  | call {tid : ℕ} {p : P} {r : R} (requested : L r) : Within L G (.call tid p r)
  | act {tid : ℕ} {p : P} {r : R} {c : C} {i : I} (a : A c) (chosen : G c i) :
      Within L G (.act tid p r c i a)
  | ret (tid : ℕ) (p : P) (r : R) (x : Except ε O) : Within L G (.ret tid p r x)
  | stop (p : P) : Within L G (.stop p)

theorem optionRel_update {α : Type} {T : ℕ → α → α → Prop} {f f' : ℕ → Option α}
    (h : ∀ n, Option.Rel (T n) (f n) (f' n)) {m : ℕ} {x x' : Option α}
    (hx : Option.Rel (T m) x x') (n : ℕ) :
    Option.Rel (T n) (Function.update f m x n) (Function.update f' m x' n) := by
  by_cases hn : n = m
  · subst hn
    rw [Function.update_self, Function.update_self]
    exact hx
  · rw [Function.update_of_ne hn, Function.update_of_ne hn]
    exact h n

theorem Prog.Coupled.outcome {exec : (c : C) → I → W → Option (A c × W)}
    {Q : Except ε O → Except ε O → Prop} {p p' : Prog C A ε O}
    (h : Prog.Coupled exec J G S Q p p') {x : Except ε O} (hx : p.outcome? = some x) :
    ∃ x', p'.outcome? = some x' ∧ Q x x' := by
  cases h with
  | ret outcome =>
    obtain rfl := Option.some.inj hx
    exact ⟨_, rfl, outcome⟩
  | raise outcome =>
    obtain rfl := Option.some.inj hx
    exact ⟨_, rfl, outcome⟩
  | act => cases hx

/-- **The step lemma of couplings**: a step has an alike step from a coupled state. -/
theorem Machine.Step.coupled (hM : M.Couples J G S Q L) (hs : s.Coupled M J G S Q s')
    (hJ : J s.world) {l : Event P R C I A ε O} (hstep : M.Step s l t) (hl : l.Within L G) :
    ∃ l' t', M.Step s' l' t' ∧ l.Alike Q l' ∧ t.Coupled M J G S Q t' := by
  cases hstep with
  | @call p r v admitted =>
    obtain ⟨v', hadmitted, hv⟩ := hM.accept hs.world admitted
    cases hl with
    | call requested =>
      refine ⟨.call s'.next p r, _, .call hadmitted, ?_, hv, congrArg (· + 1) hs.next, ?_⟩
      · rw [hs.next]
        exact .call _ _ _
      · rw [hs.next]
        exact optionRel_update hs.threads (.some ⟨rfl, rfl, hM.program requested⟩)
  | @act tid p r h c k i a v running executed =>
    have hthread := hs.threads tid
    rw [running] at hthread
    -- the coupled state has a thread under the same id
    generalize hrunning : s'.threads tid = o at hthread
    cases hthread with
    | @some th th' hcoupled =>
      obtain ⟨p', r', h', prog'⟩ := th'
      obtain ⟨rfl, rfl, hprog⟩ := hcoupled
      cases hl with
      | act _ chosen =>
        cases hprog with
        | @act _ c' _ k' next rest =>
          obtain ⟨a', v', hexec', hv⟩ := next hJ chosen hs.world executed
          refine ⟨.act tid _ _ c' i a', _, .act hrunning hexec', .act _ _ _ _ _ _ _ _, hv, hs.next,
            optionRel_update hs.threads (.some ⟨rfl, rfl, ?_⟩)⟩
          exact rest hJ chosen hs.world executed hexec'
  | @ret tid th x running finished =>
    have hthread := hs.threads tid
    rw [running] at hthread
    generalize hrunning : s'.threads tid = o at hthread
    cases hthread with
    | @some _ th' hcoupled =>
      obtain ⟨x', hx', hQ⟩ := hcoupled.prog.outcome finished
      refine ⟨.ret tid th'.owner th'.req x', _, .ret hrunning hx', ?_, hs.world, hs.next,
        optionRel_update hs.threads .none⟩
      rw [hcoupled.owner, hcoupled.req]
      exact .ret hQ
  -- the threads of the process are gone on both sides
  | stop p =>
    refine ⟨.stop p, _, .stop p, .stop p, hM.stop hs.world, hs.next, fun tid => ?_⟩
    have hthread := hs.threads tid
    dsimp only
    generalize s.threads tid = o at hthread
    generalize s'.threads tid = o' at hthread
    cases hthread with
    | none => exact .none
    | @some th th' hcoupled =>
      by_cases howner : th.owner = p
      · have howner' : th'.owner = p := hcoupled.owner.trans howner
        simp only [Option.filter_some, howner, howner', ne_eq, not_true_eq_false, decide_false,
          Bool.false_eq_true, if_false]
        exact .none
      · have howner' : th'.owner ≠ p := fun hp => howner (hcoupled.owner.symm.trans hp)
        simp only [Option.filter_some, howner, howner', ne_eq, not_false_eq_true, decide_true,
          if_true]
        exact .some hcoupled

/-- **The run lemma of couplings**: a run has an alike run from a coupled state. -/
theorem Machine.run_coupled (hM : M.Couples J G S Q L) (hs : s.Coupled M J G S Q s')
    {τ : List (Trans (MachineState W P R C A ε O) (Event P R C I A ε O))}
    (hrun : Run M.Step s τ t) (hJ : ∀ u ∈ τ, J u.src.world)
    (hτ : ∀ u ∈ τ, u.label.Within L G) :
    ∃ τ' t', Run M.Step s' τ' t' ∧ List.Forall₂ (fun u u' => u.label.Alike Q u'.label) τ τ' ∧
      t.Coupled M J G S Q t' := by
  induction hrun with
  | nil => exact ⟨[], s', .nil s', .nil, hs⟩
  | @snoc t₁ t₂ τ l _ hstep ih =>
    obtain ⟨τ', t', hrun', halike, ht⟩ := ih (fun u hu => hJ u (List.mem_append_left _ hu))
      fun u hu => hτ u (List.mem_append_left _ hu)
    have hlast : (⟨t₁, l, t₂⟩ : Trans _ _) ∈ τ ++ [⟨t₁, l, t₂⟩] :=
      List.mem_append_right _ (List.mem_singleton_self _)
    obtain ⟨l', t'', hstep', hl, ht'⟩ := hstep.coupled hM ht (hJ _ hlast) (hτ _ hlast)
    refine ⟨τ' ++ [⟨t', l', t''⟩], t'', hrun'.snoc hstep', ?_, ht'⟩
    exact List.rel_append halike (.cons hl .nil)

omit [DecidableEq P] in
/-- Alike runs return the same outcomes, if related outcomes are the same. -/
theorem returned_eq_of_alike (hQ : ∀ r x x', Q r x x' → x = x')
    {τ τ' : List (Trans (MachineState W P R C A ε O) (Event P R C I A ε O))}
    (h : List.Forall₂ (fun u u' => u.label.Alike Q u'.label) τ τ') : returned τ' = returned τ := by
  induction h with
  | nil => rfl
  | @cons u u' τ τ' hl _ ih =>
    have hhead : u'.label.returned? = u.label.returned? := by
      generalize u.label = l at hl
      generalize u'.label = l' at hl
      cases hl with
      | ret outcome => exact congrArg some (hQ _ _ _ outcome).symm
      | _ => rfl
    rw [returned, returned, List.filterMap_cons, List.filterMap_cons, hhead]
    rw [returned, returned] at ih
    rw [ih]

end Machines

end Onceproof

import Onceproof.Lib.Threads

/-!
# Work and its end

A machine works while its threads act and return; calls and stops come from outside. A program is
a finite tree of commands, so work comes to an end however the threads are scheduled
(`Machine.works_acc`). It can only end too early if every running thread is blocked. Where that
never happens, a machine drains: it works until every thread has returned (`Machine.drains`).

* `acc_pointwise` is the order argument: finitely many entries that each come to an end do so
  together.
* `exists_top` follows a chain of waiting threads, each for a lock of a higher rank than the one
  before, to a thread that does not wait.
-/

namespace Onceproof

universe u

/-! ### Orders -/

section Orders

variable {α : Type u} {r : α → α → Prop}

/-- One entry of a sequence decreases, and the others stay. -/
def Pointwise (r : α → α → Prop) (g f : ℕ → α) : Prop :=
  ∃ m, r (g m) (f m) ∧ ∀ m' ≠ m, g m' = f m'

theorem Pointwise.update {f : ℕ → α} {m : ℕ} {y : α} (h : r y (f m)) :
    Pointwise r (Function.update f m y) f :=
  ⟨m, by rwa [Function.update_self], fun _ hm' => Function.update_of_ne hm' _ _⟩

/-- **Sequences**: if every entry comes to an end, and all but finitely many have ended, then the
sequence comes to an end. -/
theorem acc_pointwise {x₀ : α} (hacc : ∀ x, Acc r x) (hend : ∀ y, ¬ r y x₀) (n : ℕ) :
    ∀ f : ℕ → α, (∀ m ≥ n, f m = x₀) → Acc (Pointwise r) f := by
  induction n with
  | zero =>
    intro f hf
    refine Acc.intro f fun g ⟨m, hm, _⟩ => ?_
    rw [hf m (Nat.zero_le m)] at hm
    exact absurd hm (hend _)
  | succ n ih =>
    -- the entry `n` and the entries below it come to an end together
    have hentry : ∀ x, ∀ f : ℕ → α, (∀ m ≥ n + 1, f m = x₀) → f n = x → Acc (Pointwise r) f := by
      intro x
      induction hacc x with
      | intro x _ ihx =>
        intro f hf hfn
        have hbase : Acc (Pointwise r) (Function.update f n x₀) := by
          refine ih _ fun m hm => ?_
          by_cases hmn : m = n
          · rw [hmn, Function.update_self]
          · rw [Function.update_of_ne hmn]
            exact hf m (by omega)
        generalize hg : Function.update f n x₀ = g at hbase
        induction hbase generalizing f with
        | intro g _ ihg =>
          refine Acc.intro f fun f' ⟨m, hm, hsame⟩ => ?_
          have hlt : m < n + 1 := by
            by_contra hle
            rw [hf m (by omega)] at hm
            exact hend _ hm
          have hf' : ∀ m' ≥ n + 1, f' m' = x₀ := fun m' hm' => by
            rw [hsame m' (by omega)]
            exact hf m' hm'
          by_cases hmn : m = n
          · subst hmn
            exact ihx (f' m) (hfn ▸ hm) f' hf' rfl
          · refine ihg (Function.update f' n x₀) ⟨m, ?_, fun m' hm' => ?_⟩ f' hf' ?_ rfl
            · rw [← hg, Function.update_of_ne hmn, Function.update_of_ne hmn]
              exact hm
            · rw [← hg]
              by_cases hm'n : m' = n
              · rw [hm'n, Function.update_self, Function.update_self]
              · rw [Function.update_of_ne hm'n, Function.update_of_ne hm'n]
                exact hsame m' hm'
            · rw [hsame n (Ne.symm hmn)]
              exact hfn
    exact fun f hf => hentry (f n) f hf rfl

/-- **Chains of waiting**: if whatever is not done leads to something done, or to something of a
higher rank, and ranks are bounded, then something is done. -/
theorem exists_top (P : α → Prop) (rank : α → ℕ) (bound : ℕ) {Q : Prop}
    (hbound : ∀ a, P a → rank a ≤ bound) (hclimb : ∀ a, P a → Q ∨ ∃ b, P b ∧ rank a < rank b)
    {a : α} (ha : P a) : Q := by
  have hchain : ∀ n a, P a → bound < rank a + n → Q := by
    intro n
    induction n with
    | zero =>
      intro a ha hlt
      have hle := hbound a ha
      omega
    | succ n ih =>
      intro a ha hlt
      rcases hclimb a ha with hQ | ⟨b, hb, hrank⟩
      · exact hQ
      · exact ih b hb (by omega)
  exact hchain (bound + 1) a ha (by omega)

end Orders

/-! ### Work -/

section Work

variable {W P R C I : Type} {A : C → Type} {ε O : Type}

/-- What a step of its thread leaves of a program. -/
inductive Prog.Shrinks : Option (Prog C A ε O) → Option (Prog C A ε O) → Prop
  | act (c : C) (k : A c → Prog C A ε O) (a : A c) : Shrinks (some (k a)) (some (.act c k))
  | ret (p : Prog C A ε O) : Shrinks none (some p)

theorem Prog.not_shrinks_none (x : Option (Prog C A ε O)) : ¬ Prog.Shrinks x none := by
  intro h
  cases h

/-- A program comes to an end. -/
theorem Prog.shrinks_acc (x : Option (Prog C A ε O)) : Acc Prog.Shrinks x := by
  have hnone : Acc Prog.Shrinks (none : Option (Prog C A ε O)) :=
    Acc.intro _ fun y hy => absurd hy (Prog.not_shrinks_none y)
  cases x with
  | none => exact hnone
  | some p =>
    induction p with
    | ret a =>
      refine Acc.intro _ fun y hy => ?_
      cases hy
      exact hnone
    | raise e =>
      refine Acc.intro _ fun y hy => ?_
      cases hy
      exact hnone
    | act c k ih =>
      refine Acc.intro _ fun y hy => ?_
      cases hy with
      | act _ _ a => exact ih a
      | ret => exact hnone

/-- A thread acts or returns. -/
def Event.IsWork : Event P R C I A ε O → Prop
  | .act .. | .ret .. => True
  | .call .. | .stop _ => False

/-- What the threads still have to do. -/
def MachineState.rest (s : MachineState W P R C A ε O) (tid : ℕ) : Option (Prog C A ε O) :=
  (s.threads tid).map Thread.prog

theorem MachineState.rest_update {s : MachineState W P R C A ε O} (w : W) (n tid : ℕ)
    (x : Option (Thread P R C A ε O)) :
    MachineState.rest ⟨w, Function.update s.threads tid x, n⟩ =
      Function.update s.rest tid (x.map Thread.prog) := by
  funext tid'
  by_cases htid : tid' = tid
  · subst htid
    simp [MachineState.rest]
  · simp [MachineState.rest, Function.update_of_ne htid]

variable [DecidableEq P] (M : Machine W P R C I A ε O)

/-- One step of work, from the second state to the first. -/
def Machine.Works (s' s : MachineState W P R C A ε O) : Prop := ∃ l, l.IsWork ∧ M.Step s l s'

variable {M} {s s' : MachineState W P R C A ε O}
variable {τ : List (Trans (MachineState W P R C A ε O) (Event P R C I A ε O))}

/-- Work leaves less to do in one thread. -/
theorem Machine.Works.shrinks (h : M.Works s' s) : Pointwise Prog.Shrinks s'.rest s.rest := by
  obtain ⟨l, hl, hstep⟩ := h
  cases hstep with
  | call => exact hl.elim
  | @act tid p r hist c k i a w running executed =>
    have hbefore : s.rest tid = some (.act c k) := by rw [MachineState.rest, running]; rfl
    rw [MachineState.rest_update]
    exact .update (hbefore ▸ .act c k a)
  | @ret tid th x running finished =>
    have hbefore : s.rest tid = some th.prog := by rw [MachineState.rest, running]; rfl
    rw [MachineState.rest_update]
    exact .update (hbefore ▸ .ret th.prog)
  | stop => exact hl.elim

/-- **Work comes to an end** in every state with finitely many threads. -/
theorem Machine.works_acc (hs : ∀ tid ≥ s.next, s.threads tid = none) : Acc M.Works s := by
  have hrest : Acc (InvImage (Pointwise Prog.Shrinks) MachineState.rest) s := by
    refine InvImage.accessible _ (acc_pointwise Prog.shrinks_acc Prog.not_shrinks_none s.next _ ?_)
    intro tid htid
    rw [MachineState.rest, hs tid htid]
    rfl
  exact Subrelation.accessible Machine.Works.shrinks hrest

/-- A thread that is gone after some work has returned. -/
theorem Run.returned_of_work (h : Run M.Step s τ s') (hwork : ∀ t ∈ τ, t.label.IsWork) {tid : ℕ}
    {th : Thread P R C A ε O} (hth : s.threads tid = some th) (hgone : s'.threads tid = none) :
    ∃ t ∈ τ, ∃ x, t.label = .ret tid th.owner th.req x := by
  -- the thread is there until it returns: nothing else in a work run removes it
  have hstays : (∃ t ∈ τ, ∃ x, t.label = .ret tid th.owner th.req x) ∨
      ∃ th', s'.threads tid = some th' ∧ th'.owner = th.owner ∧ th'.req = th.req := by
    clear hgone
    induction h with
    | nil => exact Or.inr ⟨th, hth, rfl, rfl⟩
    | @snoc s₁ s₂ τ l _ hstep ih =>
      have hlast : l.IsWork := hwork ⟨s₁, l, s₂⟩ (List.mem_append_right _ List.mem_cons_self)
      have hold := ih fun t ht => hwork t (List.mem_append_left _ ht)
      rcases hold with ⟨t, ht, hret⟩ | ⟨th₁, hth₁, howner, hreq⟩
      · exact Or.inl ⟨t, List.mem_append_left _ ht, hret⟩
      cases hstep with
      | call => exact hlast.elim
      | @act tid' p r hist c k i a w running executed =>
        refine Or.inr ?_
        by_cases htid : tid = tid'
        · subst htid
          obtain rfl := Option.some.inj (hth₁.symm.trans running)
          exact ⟨_, Function.update_self .., howner, hreq⟩
        · exact ⟨th₁, (Function.update_of_ne htid _ _).trans hth₁, howner, hreq⟩
      | @ret tid' th' x running finished =>
        by_cases htid : tid = tid'
        · subst htid
          obtain rfl := Option.some.inj (hth₁.symm.trans running)
          refine Or.inl ⟨_, List.mem_append_right _ List.mem_cons_self, x, ?_⟩
          rw [howner, hreq]
        · exact Or.inr ⟨th₁, (Function.update_of_ne htid _ _).trans hth₁, howner, hreq⟩
      | stop => exact hlast.elim
  rcases hstays with hret | ⟨th', hth', -⟩
  · exact hret
  · rw [hgone] at hth'
    cases hth'

/-- **Draining**: a machine in which some running thread can always go on works until every thread
has returned. -/
theorem Machine.drains {J : MachineState W P R C A ε O → Prop} {K : Event P R C I A ε O → Prop}
    (hkeep : ∀ {s l s'}, J s → Event.IsWork l → M.Step s l s' → J s')
    (hlive : ∀ {s tid th}, J s → s.threads tid = some th →
      ∃ l s', Event.IsWork l ∧ K l ∧ M.Step s l s')
    (hs : J s) (hacc : Acc M.Works s) :
    ∃ τ s', Run M.Step s τ s' ∧ (∀ t ∈ τ, t.label.IsWork ∧ K t.label) ∧ J s' ∧
      ∀ tid, s'.threads tid = none := by
  induction hacc with
  | intro s _ ih =>
    by_cases hidle : ∀ tid, s.threads tid = none
    · exact ⟨[], s, .nil s, by simp, hs, hidle⟩
    · obtain ⟨tid, hth⟩ := not_forall.mp hidle
      obtain ⟨th, hth⟩ := Option.ne_none_iff_exists'.mp hth
      obtain ⟨l, s₁, hwork, hK, hstep⟩ := hlive hs hth
      obtain ⟨τ, s', hrun, hτ, hs', hdone⟩ := ih s₁ ⟨l, hwork, hstep⟩ (hkeep hs hwork hstep)
      refine ⟨⟨s, l, s₁⟩ :: τ, s', (Run.single hstep).append hrun, fun t ht => ?_, hs', hdone⟩
      rcases List.mem_cons.mp ht with rfl | ht
      · exact ⟨hwork, hK⟩
      · exact hτ t ht

end Work

end Onceproof

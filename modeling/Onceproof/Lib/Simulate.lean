import Onceproof.Lib.Threads

/-!
# Executing a machine

A schedule says which thread acts next and what the outside contributes. `simulate` executes
a schedule, and what it returns is a run of the machine (`run_of_simulate`).
-/

namespace Onceproof

/-- One entry of a schedule. -/
inductive Move (P R I : Type)
  | call (owner : P) (req : R)
  | act (tid : ℕ) (i : I)
  | ret (tid : ℕ)
  | stop (owner : P)

section Simulation

variable {W P R C I : Type} {A : C → Type} {ε O : Type} [DecidableEq P]
variable (M : Machine W P R C I A ε O)

/-- Execute one entry, if it is enabled. -/
def Machine.next? (s : MachineState W P R C A ε O) :
    Move P R I → Option (Event P R C I A ε O × MachineState W P R C A ε O)
  | .call p r => (M.accept p r s.world).map fun w =>
    (.call s.next p r,
      ⟨w, Function.update s.threads s.next (some ⟨p, r, [], M.program r⟩), s.next + 1⟩)
  | .act tid i => match s.threads tid with
    | some ⟨p, r, h, .act c k⟩ => (M.exec p tid c i s.world).map fun x =>
      (.act tid p r c i x.1,
        ⟨x.2, Function.update s.threads tid (some ⟨p, r, h ++ [⟨c, x.1⟩], k x.1⟩), s.next⟩)
    | _ => none
  | .ret tid => match s.threads tid with
    | some th => th.prog.outcome?.map fun x =>
      (.ret tid th.owner th.req x,
        ⟨s.world, Function.update s.threads tid none, s.next⟩)
    | none => none
  | .stop p => some (.stop p,
    ⟨M.stop p s.world, fun tid => (s.threads tid).filter fun th => th.owner ≠ p, s.next⟩)

/-- Execute a schedule, as long as its entries are enabled. -/
def Machine.simulate (s : MachineState W P R C A ε O) : List (Move P R I) →
    Option (List (Trans (MachineState W P R C A ε O) (Event P R C I A ε O)) ×
      MachineState W P R C A ε O)
  | [] => some ([], s)
  | j :: js => match M.next? s j with
    | some (l, s') => (Machine.simulate s' js).map fun x => (⟨s, l, s'⟩ :: x.1, x.2)
    | none => none

variable {M}

theorem Machine.step_of_next? {s s' : MachineState W P R C A ε O} {j : Move P R I}
    {l : Event P R C I A ε O} (h : M.next? s j = some (l, s')) : M.Step s l s' := by
  cases j with
  | call p r =>
    obtain ⟨w, hw, heq⟩ := Option.map_eq_some_iff.mp h
    obtain ⟨rfl, rfl⟩ := Prod.mk.inj heq
    exact .call hw
  | act tid i =>
    simp only [Machine.next?] at h
    split at h
    · rename_i p r hist c k hth
      obtain ⟨⟨a, w⟩, hw, heq⟩ := Option.map_eq_some_iff.mp h
      obtain ⟨rfl, rfl⟩ := Prod.mk.inj heq
      exact .act hth hw
    · cases h
  | ret tid =>
    simp only [Machine.next?] at h
    split at h
    · rename_i th hth
      obtain ⟨x, hx, heq⟩ := Option.map_eq_some_iff.mp h
      obtain ⟨rfl, rfl⟩ := Prod.mk.inj heq
      exact .ret hth hx
    · cases h
  | stop p =>
    obtain ⟨rfl, rfl⟩ := Prod.mk.inj (Option.some.inj h)
    exact .stop p

/-- **A simulation is a run.** -/
theorem Machine.run_of_simulate {js : List (Move P R I)} {s s' : MachineState W P R C A ε O}
    {τ : List (Trans (MachineState W P R C A ε O) (Event P R C I A ε O))}
    (h : M.simulate s js = some (τ, s')) : Run M.Step s τ s' := by
  induction js generalizing s τ with
  | nil =>
    obtain ⟨rfl, rfl⟩ := Prod.mk.inj (Option.some.inj h)
    exact .nil _
  | cons j js ih =>
    simp only [Machine.simulate] at h
    split at h
    · rename_i l s₁ hnext
      obtain ⟨⟨τ', s₂⟩, hrest, heq⟩ := Option.map_eq_some_iff.mp h
      obtain ⟨rfl, rfl⟩ := Prod.mk.inj heq
      exact (Run.single (Machine.step_of_next? hnext)).append (ih hrest)
    · cases h

end Simulation

end Onceproof

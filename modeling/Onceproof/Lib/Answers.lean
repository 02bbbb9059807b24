import Onceproof.Lib.Handle

/-!
# Programs under answers

What a program can end with, given what its commands may be answered. Nothing is said about the
order of the answers or where they come from, so the result holds however the commands of other
programs are interleaved.

* `Prog.Under ok Q p`: if every answer is one that `ok` allows, the outcome of `p` is in `Q`. Its
  rules are `Under.bind`, `Under.ensure` and `Under.attempt`, and `Under.yields` is its soundness.
* `yields_bind` and `yields_attempt` take the answers to a sequence and to an attempt apart, and
  `Yields.unique` says that a program reads no more answers than it does.
-/

namespace Onceproof

universe u

namespace Prog

variable {C : Type u} {A : C → Type} {ε ε' α β : Type}

/-- Answered as `ok` allows, the program ends in `Q`. -/
def Under (ok : (c : C) → A c → Prop) (Q : Except ε α → Prop) : Prog C A ε α → Prop
  | ret a => Q (.ok a)
  | raise e => Q (.error e)
  | act c k => ∀ r, ok c r → (k r).Under ok Q

section Rules

variable {ok : (c : C) → A c → Prop} {Q Q' : Except ε α → Prop} {p : Prog C A ε α}

@[simp] theorem under_ret {a : α} : (ret a : Prog C A ε α).Under ok Q ↔ Q (.ok a) := Iff.rfl

@[simp] theorem under_raise {e : ε} : (raise e : Prog C A ε α).Under ok Q ↔ Q (.error e) := Iff.rfl

theorem under_act {c : C} {k : A c → Prog C A ε α} :
    (act c k).Under ok Q ↔ ∀ r, ok c r → (k r).Under ok Q := Iff.rfl

@[simp] theorem under_lift {x : Except ε α} : (lift x : Prog C A ε α).Under ok Q ↔ Q x := by
  cases x <;> rfl

/-- **Soundness**: an outcome that the program yields from allowed answers is as described. -/
theorem Under.yields (hp : p.Under ok Q) {h : List (Answered C A)} {x : Except ε α}
    (hy : p.Yields h x) (hh : ∀ a ∈ h, ok a.1 a.2) : Q x := by
  induction hy with
  | ret a => exact hp
  | raise e => exact hp
  | act rest ih =>
    obtain ⟨hhead, htail⟩ := List.forall_mem_cons.mp hh
    exact ih (hp _ hhead) htail

/-- **Consequence.** -/
theorem Under.mono (hp : p.Under ok Q) (hQ : ∀ x, Q x → Q' x) : p.Under ok Q' := by
  induction p with
  | ret a => exact hQ _ hp
  | raise e => exact hQ _ hp
  | act c k ih => exact fun r hr => ih r (hp r hr)

/-- **Sequencing.** -/
theorem Under.bind {f : α → Prog C A ε β} {Q : Except ε β → Prop}
    (hp : p.Under ok fun x => match x with
      | .ok a => (f a).Under ok Q
      | .error e => Q (.error e)) : (p >>= f).Under ok Q := by
  induction p with
  | ret a => exact hp
  | raise e => exact hp
  | act c k ih => exact fun r hr => ih r (hp r hr)

/-- **Clean-up** by a program that never raises. -/
theorem Under.ensure {q : Prog C A ε Unit} (hp : p.Under ok Q)
    (hq : q.Under ok fun x => x = .ok ()) : (p.ensure q).Under ok Q := by
  induction p with
  | ret a =>
    refine Under.bind (hq.mono fun x hx => ?_)
    rw [hx]
    exact hp
  | raise e =>
    refine Under.bind (hq.mono fun x hx => ?_)
    rw [hx]
    exact hp
  | act c k ih => exact fun r hr => ih r (hp r hr)

/-- **Attempts** answer with the outcome. -/
theorem Under.attempt {Q : Except ε' (Except ε α) → Prop}
    (hp : p.Under ok fun x => Q (.ok x)) : (p.attempt : Prog C A ε' _).Under ok Q := by
  induction p with
  | ret a => exact hp
  | raise e => exact hp
  | act c k ih => exact fun r hr => ih r (hp r hr)

/-- A command that may raise, at the end of a program. -/
theorem under_perform {V : C → Type} {c : C} {ok : (c : C) → Except ε (V c) → Prop}
    {Q : Except ε (V c) → Prop} :
    (perform c : Prog C (fun c => Except ε (V c)) ε (V c)).Under ok Q ↔ ∀ a, ok c a → Q a := by
  rw [perform, under_act]
  simp only [under_lift]

end Rules

/-! ### Answers to the parts of a program -/

/-- The answers to a sequence are those to its parts. -/
theorem yields_bind {p : Prog C A ε α} {f : α → Prog C A ε β} {h : List (Answered C A)}
    {y : Except ε β} : (p >>= f).Yields h y ↔
      (∃ a h₁ h₂, h = h₁ ++ h₂ ∧ p.Yields h₁ (.ok a) ∧ (f a).Yields h₂ y) ∨
        ∃ e, p.Yields h (.error e) ∧ y = .error e := by
  induction p generalizing h with
  | ret a =>
    constructor
    · intro hy
      exact Or.inl ⟨a, [], h, rfl, .ret a, hy⟩
    · rintro (⟨b, h₁, h₂, rfl, hret, hy⟩ | ⟨e, hret, -⟩)
      · cases hret
        exact hy
      · cases hret
  | raise e =>
    constructor
    · intro hy
      cases hy
      exact Or.inr ⟨e, .raise e, rfl⟩
    · rintro (⟨b, h₁, h₂, rfl, hraise, -⟩ | ⟨e', hraise, rfl⟩)
      · cases hraise
      · cases hraise
        exact .raise e
  -- the first command is one of `p` in both readings
  | act c k ih =>
    constructor
    · intro hy
      rcases hy with _ | _ | @⟨_, _, r, h', _, hrest⟩
      rcases (ih r).mp hrest with ⟨a, h₁, h₂, rfl, hp, hf⟩ | ⟨e, hp, rfl⟩
      · exact Or.inl ⟨a, _, h₂, rfl, .act hp, hf⟩
      · exact Or.inr ⟨e, .act hp, rfl⟩
    · rintro (⟨a, h₁, h₂, rfl, hp, hf⟩ | ⟨e, hp, rfl⟩)
      · rcases hp with _ | _ | @⟨_, _, r, h', _, hrest⟩
        exact .act ((ih r).mpr (Or.inl ⟨a, h', h₂, rfl, hrest, hf⟩))
      · rcases hp with _ | _ | @⟨_, _, r, h', _, hrest⟩
        exact .act ((ih r).mpr (Or.inr ⟨e, hrest, rfl⟩))

/-- An attempt reads what its program reads, and returns its outcome. -/
theorem yields_attempt {p : Prog C A ε α} {h : List (Answered C A)}
    {y : Except ε' (Except ε α)} :
    (p.attempt : Prog C A ε' _).Yields h y ↔ ∃ x, p.Yields h x ∧ y = .ok x := by
  induction p generalizing h with
  | ret a =>
    constructor
    · intro hy
      cases hy
      exact ⟨_, .ret a, rfl⟩
    · rintro ⟨x, hret, rfl⟩
      cases hret
      exact .ret _
  | raise e =>
    constructor
    · intro hy
      cases hy
      exact ⟨_, .raise e, rfl⟩
    · rintro ⟨x, hraise, rfl⟩
      cases hraise
      exact .ret _
  | act c k ih =>
    constructor
    · intro hy
      rcases hy with _ | _ | @⟨_, _, r, h', _, hrest⟩
      obtain ⟨x, hx, rfl⟩ := (ih r).mp hrest
      exact ⟨x, .act hx, rfl⟩
    · rintro ⟨x, hx, rfl⟩
      rcases hx with _ | _ | @⟨_, _, r, h', _, hrest⟩
      exact .act ((ih r).mpr ⟨x, hrest, rfl⟩)

theorem yields_lift {x y : Except ε α} {h : List (Answered C A)} :
    (lift x : Prog C A ε α).Yields h y ↔ h = [] ∧ y = x := by
  cases x with
  | ok a =>
    constructor
    · intro hy
      cases hy
      exact ⟨rfl, rfl⟩
    · rintro ⟨rfl, rfl⟩
      exact .ret a
  | error e =>
    constructor
    · intro hy
      cases hy
      exact ⟨rfl, rfl⟩
    · rintro ⟨rfl, rfl⟩
      exact .raise e

/-- **A program reads a determined part of the answers** and ends in a determined way. -/
theorem Yields.unique {p : Prog C A ε α} {h h' r r' : List (Answered C A)} {x x' : Except ε α}
    (hy : p.Yields h x) (hy' : p.Yields h' x') (heq : h ++ r = h' ++ r') :
    h = h' ∧ x = x' := by
  induction hy generalizing h' with
  | ret a =>
    cases hy'
    exact ⟨rfl, rfl⟩
  | raise e =>
    cases hy'
    exact ⟨rfl, rfl⟩
  | act rest ih =>
    rcases hy' with _ | _ | @⟨_, _, b, h₁, _, hrest⟩
    obtain ⟨hhead, htail⟩ := List.cons.inj heq
    obtain rfl := eq_of_heq (Sigma.mk.inj hhead).2
    obtain ⟨rfl, rfl⟩ := ih hrest htail
    exact ⟨rfl, rfl⟩

/-! ### Evaluations -/

section Evaluations

variable {I W : Type} {exec : (c : C) → I → W → Option (A c × W)} {i : I} {w w' : W}
variable {p : Prog C A ε α}

/-- Evaluation of an attempt. -/
theorem runWith_attempt : (p.attempt : Prog C A ε' (Except ε α)).runWith exec i w =
    (p.runWith exec i w).map fun y => (.ok y.1, y.2) := by
  induction p generalizing w with
  | ret a => rfl
  | raise e => rfl
  | act c k ih =>
    rw [attempt, runWith, runWith]
    cases exec c i w with
    | none => rfl
    | some x => exact ih x.1

/-- An evaluation yields its outcome from answers that were given. -/
theorem yields_of_runWith {x : Except ε α} (h : p.runWith exec i w = some (x, w')) :
    ∃ τ, p.Yields τ x ∧ ∀ a ∈ τ, ∃ w₁ w₂, exec a.1 i w₁ = some (a.2, w₂) := by
  induction p generalizing w with
  | ret a =>
    obtain ⟨rfl, -⟩ := Prod.mk.inj (Option.some.inj h)
    exact ⟨[], .ret a, by simp⟩
  | raise e =>
    obtain ⟨rfl, -⟩ := Prod.mk.inj (Option.some.inj h)
    exact ⟨[], .raise e, by simp⟩
  | act c k ih =>
    rw [runWith] at h
    split at h
    · next a w₁ hexec =>
      obtain ⟨τ, hyields, hgiven⟩ := ih a h
      exact ⟨⟨c, a⟩ :: τ, .act hyields, List.forall_mem_cons.mpr ⟨⟨w, w₁, hexec⟩, hgiven⟩⟩
    · cases h

end Evaluations

end Prog

end Onceproof

import Mathlib.Data.List.Basic
import Mathlib.Tactic.Common

/-!
# Programs over atomic commands

`Prog C A ε α` is a program that issues commands `c : C`, receives an answer in `A c` for
each, and ends by returning a value of type `α` or raising an exception of type `ε`. The
answers come from outside: a transaction runs its statements against one database, a thread
shares its commands with every other thread.

* `Prog.bind` makes programs a monad, so that source code is written in `do` notation.
* `Prog.ensure` runs a clean-up program after another one, whether it returned or raised.
* `Prog.Spec` is the program logic over **local histories**: every command is issued only in
  a history that allows it, and the outcome is described by the history of the whole run.
  Its rules are `Spec.bind`, `Spec.mono` and `Spec.ensure`.
* `perform` issues a command whose answer may itself be an exception.
-/

namespace Onceproof

universe u

/-- Programs over commands `C` with answers `A`. -/
inductive Prog (C : Type u) (A : C → Type) (ε α : Type) : Type u
  /-- Return a value. -/
  | ret (a : α)
  /-- Raise an exception. -/
  | raise (e : ε)
  /-- Issue a command and go on with its answer. -/
  | act (c : C) (k : A c → Prog C A ε α)

/-- A command with its answer. -/
abbrev Answered (C : Type u) (A : C → Type) : Type u := Σ c : C, A c

namespace Prog

variable {C : Type u} {A : C → Type} {ε α β γ : Type}

/-- Sequencing: an exception skips the continuation. -/
def bind : Prog C A ε α → (α → Prog C A ε β) → Prog C A ε β
  | ret a, f => f a
  | raise e, _ => raise e
  | act c k, f => act c fun r => (k r).bind f

instance : Monad (Prog C A ε) where
  pure := ret
  bind := bind

@[simp] theorem pure_def (a : α) : (pure a : Prog C A ε α) = ret a := rfl

@[simp] theorem ret_bind (a : α) (f : α → Prog C A ε β) : (ret a >>= f) = f a := rfl

@[simp] theorem raise_bind (e : ε) (f : α → Prog C A ε β) : (raise e >>= f) = raise e := rfl

@[simp] theorem act_bind (c : C) (k : A c → Prog C A ε α) (f : α → Prog C A ε β) :
    (act c k >>= f) = act c fun r => k r >>= f := rfl

/-- A value or exception computed without commands. -/
def lift : Except ε α → Prog C A ε α
  | .ok a => ret a
  | .error e => raise e

@[simp] theorem lift_ok (a : α) : (lift (.ok a) : Prog C A ε α) = ret a := rfl

@[simp] theorem lift_error (e : ε) : (lift (.error e) : Prog C A ε α) = raise e := rfl

/-- Run `p`, then `q`, and end as `p` did. -/
def ensure (p : Prog C A ε α) (q : Prog C A ε Unit) : Prog C A ε α :=
  match p with
  | ret a => q >>= fun _ => ret a
  | raise e => q >>= fun _ => raise e
  | act c k => act c fun r => (k r).ensure q

/-- Raise `e` in place of every exception of `p`. -/
def raiseAs (e : ε) : Prog C A ε α → Prog C A ε α
  | ret a => ret a
  | raise _ => raise e
  | act c k => act c fun r => (k r).raiseAs e

/-- The outcome of a program that has none of its commands left. -/
def outcome? : Prog C A ε α → Option (Except ε α)
  | ret a => some (.ok a)
  | raise e => some (.error e)
  | act _ _ => none

@[simp] theorem outcome?_ret (a : α) : (ret a : Prog C A ε α).outcome? = some (.ok a) := rfl

@[simp] theorem outcome?_raise (e : ε) :
    (raise e : Prog C A ε α).outcome? = some (.error e) := rfl

@[simp] theorem outcome?_act (c : C) (k : A c → Prog C A ε α) :
    (act c k).outcome? = none := rfl

theorem bind_assoc (p : Prog C A ε α) (f : α → Prog C A ε β) (g : β → Prog C A ε γ) :
    (p >>= f) >>= g = p >>= fun a => f a >>= g := by
  induction p with
  | ret a => rfl
  | raise e => rfl
  | act c k ih => simp only [act_bind, ih]

/-- Issue a command whose answer may be an exception, and raise it if it is. -/
def perform {V : C → Type} (c : C) : Prog C (fun c => Except ε (V c)) ε (V c) :=
  act c lift

theorem perform_bind {V : C → Type} (c : C)
    (f : V c → Prog C (fun c => Except ε (V c)) ε β) :
    perform c >>= f = act c fun r => lift r >>= f := rfl

/-! ### Specifications over local histories -/

/-- `p.Spec Φ Ψ h`: run after the local history `h`, the program issues a command only in
a history where `Φ` allows it, and `Ψ` describes its outcome by its whole history. -/
def Spec (Φ : List (Answered C A) → C → Prop)
    (Ψ : List (Answered C A) → Except ε α → Prop) :
    Prog C A ε α → List (Answered C A) → Prop
  | ret a, h => Ψ h (.ok a)
  | raise e, h => Ψ h (.error e)
  | act c k, h => Φ h c ∧ ∀ r, (k r).Spec Φ Ψ (h ++ [⟨c, r⟩])

variable {Φ Φ' : List (Answered C A) → C → Prop}
variable {Ψ Ψ' : List (Answered C A) → Except ε α → Prop}

@[simp] theorem spec_ret {a : α} {h : List (Answered C A)} :
    (ret a).Spec Φ Ψ h ↔ Ψ h (.ok a) := Iff.rfl

@[simp] theorem spec_raise {e : ε} {h : List (Answered C A)} :
    (raise e).Spec Φ Ψ h ↔ Ψ h (.error e) := Iff.rfl

@[simp] theorem spec_act {c : C} {k : A c → Prog C A ε α} {h : List (Answered C A)} :
    (act c k).Spec Φ Ψ h ↔ Φ h c ∧ ∀ r, (k r).Spec Φ Ψ (h ++ [⟨c, r⟩]) := Iff.rfl

@[simp] theorem spec_lift {x : Except ε α} {h : List (Answered C A)} :
    (lift x).Spec Φ Ψ h ↔ Ψ h x := by
  cases x <;> rfl

/-- **Consequence**: allow more commands, describe the outcome more loosely. -/
theorem Spec.mono {p : Prog C A ε α} {h : List (Answered C A)} (hp : p.Spec Φ Ψ h)
    (hΦ : ∀ h c, Φ h c → Φ' h c) (hΨ : ∀ h x, Ψ h x → Ψ' h x) : p.Spec Φ' Ψ' h := by
  induction p generalizing h with
  | ret a => exact hΨ _ _ hp
  | raise e => exact hΨ _ _ hp
  | act c k ih => exact ⟨hΦ _ _ hp.1, fun r => ih r (hp.2 r)⟩

/-- Nothing is asked of a program. -/
theorem spec_true (p : Prog C A ε α) (h : List (Answered C A)) :
    p.Spec (fun _ _ => True) (fun _ _ => True) h := by
  induction p generalizing h with
  | ret a => trivial
  | raise e => trivial
  | act c k ih => exact ⟨trivial, fun r => ih r _⟩

/-- **Sequencing**: the continuation starts in the history the first program ended in. -/
theorem Spec.bind {p : Prog C A ε α} {f : α → Prog C A ε β} {h : List (Answered C A)}
    {Ψ : List (Answered C A) → Except ε β → Prop}
    (hp : p.Spec Φ (fun h x => match x with
      | .ok a => (f a).Spec Φ Ψ h
      | .error e => Ψ h (.error e)) h) : (p >>= f).Spec Φ Ψ h := by
  induction p generalizing h with
  | ret a => exact hp
  | raise e => exact hp
  | act c k ih => exact ⟨hp.1, fun r => ih r (hp.2 r)⟩

/-- **Clean-up**: the second program starts where the first one ended, however it ended. -/
theorem Spec.ensure {p : Prog C A ε α} {q : Prog C A ε Unit} {h : List (Answered C A)}
    (hp : p.Spec Φ (fun h x => q.Spec Φ (fun h y => match y with
      | .ok _ => Ψ h x
      | .error e => Ψ h (.error e)) h) h) : (p.ensure q).Spec Φ Ψ h := by
  induction p generalizing h with
  | ret a =>
    have hq : q.Spec Φ _ h := hp
    exact Spec.bind (hq.mono (fun _ _ => id) fun h x => by cases x <;> exact id)
  | raise e =>
    have hq : q.Spec Φ _ h := hp
    exact Spec.bind (hq.mono (fun _ _ => id) fun h x => by cases x <;> exact id)
  | act c k ih => exact ⟨hp.1, fun r => ih r (hp.2 r)⟩

/-- **Replaced exceptions**: the commands are the same. -/
theorem Spec.raiseAs {p : Prog C A ε α} {e : ε} {h : List (Answered C A)}
    (hp : p.Spec Φ (fun h x => match x with
      | .ok a => Ψ h (.ok a)
      | .error _ => Ψ h (.error e)) h) : (p.raiseAs e).Spec Φ Ψ h := by
  induction p generalizing h with
  | ret a => exact hp
  | raise e' => exact hp
  | act c k ih => exact ⟨hp.1, fun r => ih r (hp.2 r)⟩

@[simp] theorem map_def (f : α → β) (p : Prog C A ε α) : f <$> p = p >>= fun a => ret (f a) :=
  rfl

/-- A value computed without commands, and what follows it. -/
theorem spec_lift_bind {x : Except ε α} {f : α → Prog C A ε β} {h : List (Answered C A)}
    {Ψ : List (Answered C A) → Except ε β → Prop} :
    (lift x >>= f).Spec Φ Ψ h ↔
      (∀ a, x = .ok a → (f a).Spec Φ Ψ h) ∧ ∀ e, x = .error e → Ψ h (.error e) := by
  cases x with
  | ok a => simp
  | error e => simp

/-- A command that may raise, and what follows it. -/
theorem spec_perform_bind {V : C → Type} {c : C}
    {Φ : List (Answered C fun c => Except ε (V c)) → C → Prop}
    {f : V c → Prog C (fun c => Except ε (V c)) ε β}
    {h : List (Answered C fun c => Except ε (V c))}
    {Ψ : List (Answered C fun c => Except ε (V c)) → Except ε β → Prop} :
    (perform c >>= f).Spec Φ Ψ h ↔ Φ h c ∧
      (∀ v, (f v).Spec Φ Ψ (h ++ [⟨c, .ok v⟩])) ∧ ∀ e, Ψ (h ++ [⟨c, .error e⟩]) (.error e) := by
  rw [perform_bind, spec_act]
  refine and_congr_right fun _ => ⟨fun hr => ⟨fun v => hr (.ok v), fun e => hr (.error e)⟩, ?_⟩
  rintro ⟨hok, herr⟩ (e | v)
  · exact herr e
  · exact hok v

/-- A command that may raise, at the end of a program. -/
theorem spec_perform {V : C → Type} {c : C}
    {Φ : List (Answered C fun c => Except ε (V c)) → C → Prop}
    {h : List (Answered C fun c => Except ε (V c))}
    {Ψ : List (Answered C fun c => Except ε (V c)) → Except ε (V c) → Prop} :
    (perform c).Spec Φ Ψ h ↔ Φ h c ∧
      (∀ v, Ψ (h ++ [⟨c, .ok v⟩]) (.ok v)) ∧ ∀ e, Ψ (h ++ [⟨c, .error e⟩]) (.error e) := by
  rw [perform, spec_act]
  refine and_congr_right fun _ => ⟨fun hr => ⟨fun v => hr (.ok v), fun e => hr (.error e)⟩, ?_⟩
  rintro ⟨hok, herr⟩ (e | v)
  · exact herr e
  · exact hok v

theorem spec_ite {c : Prop} [Decidable c] {p q : Prog C A ε α} {h : List (Answered C A)} :
    (if c then p else q).Spec Φ Ψ h ↔ (c → p.Spec Φ Ψ h) ∧ (¬c → q.Spec Φ Ψ h) := by
  split_ifs with hc <;> simp [hc]

/-- **Invariants of histories**: what every allowed command keeps holds at every command and
at the end. -/
theorem Spec.keep {p : Prog C A ε α} {h : List (Answered C A)} (hp : p.Spec Φ Ψ h)
    {J : List (Answered C A) → Prop} (hkeep : ∀ h c a, J h → Φ h c → J (h ++ [⟨c, a⟩]))
    (h0 : J h) : p.Spec (fun h c => J h ∧ Φ h c) (fun h x => J h ∧ Ψ h x) h := by
  induction p generalizing h with
  | ret a => exact ⟨h0, hp⟩
  | raise e => exact ⟨h0, hp⟩
  | act c k ih => exact ⟨⟨h0, hp.1⟩, fun r => ih r (hp.2 r) (hkeep h c r h0 hp.1)⟩

/-- A history only grows. -/
theorem Spec.grows {p : Prog C A ε α} {h : List (Answered C A)} (hp : p.Spec Φ Ψ h) :
    p.Spec Φ (fun h' x => h <+: h' ∧ Ψ h' x) h :=
  (hp.keep (fun _ _ _ hpre _ => hpre.trans (List.prefix_append _ _))
    (List.prefix_refl h)).mono (fun _ _ => And.right) fun _ _ => id

/-- Two specifications of one program hold together. -/
theorem Spec.and {p : Prog C A ε α} {h : List (Answered C A)} (hp : p.Spec Φ Ψ h)
    (hp' : p.Spec Φ' Ψ' h) :
    p.Spec (fun h c => Φ h c ∧ Φ' h c) (fun h x => Ψ h x ∧ Ψ' h x) h := by
  induction p generalizing h with
  | ret a => exact ⟨hp, hp'⟩
  | raise e => exact ⟨hp, hp'⟩
  | act c k ih => exact ⟨⟨hp.1, hp'.1⟩, fun r => ih r (hp.2 r) (hp'.2 r)⟩

/-! ### What a program made of its answers -/

/-- `p.Yields h x`: answered as in `h`, the program ends as `x`. -/
inductive Yields : Prog C A ε α → List (Answered C A) → Except ε α → Prop
  | ret (a : α) : Yields (ret a) [] (.ok a)
  | raise (e : ε) : Yields (raise e) [] (.error e)
  | act {c : C} {k : A c → Prog C A ε α} {a : A c} {h : List (Answered C A)} {x : Except ε α}
      (rest : Yields (k a) h x) : Yields (act c k) (⟨c, a⟩ :: h) x

/-- A value computed without commands, and what follows it. -/
theorem yields_lift_bind {x : Except ε α} {f : α → Prog C A ε β} {h : List (Answered C A)}
    {y : Except ε β} : (lift x >>= f).Yields h y ↔
      (∃ a, x = .ok a ∧ (f a).Yields h y) ∨ ∃ e, x = .error e ∧ h = [] ∧ y = .error e := by
  cases x with
  | ok a => simp
  | error e =>
    simp only [lift_error, raise_bind, reduceCtorEq, false_and, exists_false, Except.error.injEq,
      exists_eq_left', false_or]
    constructor
    · intro hy
      cases hy
      exact ⟨rfl, rfl⟩
    · rintro ⟨rfl, rfl⟩
      exact .raise e

/-- A command that may raise, and what follows it. -/
theorem yields_perform_bind {V : C → Type} {c : C}
    {f : V c → Prog C (fun c => Except ε (V c)) ε β}
    {h : List (Answered C fun c => Except ε (V c))} {y : Except ε β} :
    (perform c >>= f).Yields h y ↔ (∃ v h', h = ⟨c, .ok v⟩ :: h' ∧ (f v).Yields h' y) ∨
      ∃ e, h = [⟨c, .error e⟩] ∧ y = .error e := by
  rw [perform_bind]
  constructor
  · intro hy
    rcases hy with _ | _ | @⟨_, _, a, h', _, hrest⟩
    rcases yields_lift_bind.mp hrest with ⟨v, rfl, hv⟩ | ⟨e, rfl, rfl, rfl⟩
    · exact Or.inl ⟨v, h', rfl, hv⟩
    · exact Or.inr ⟨e, rfl, rfl⟩
  · rintro (⟨v, h', rfl, hv⟩ | ⟨e, rfl, rfl⟩)
    · exact .act (yields_lift_bind.mpr (Or.inl ⟨v, rfl, hv⟩))
    · exact .act (yields_lift_bind.mpr (Or.inr ⟨e, rfl, rfl, rfl⟩))

/-- What a program made of its answers is the last part of the history. -/
theorem Spec.yields {p : Prog C A ε α} {h : List (Answered C A)} (hp : p.Spec Φ Ψ h) :
    p.Spec Φ (fun h' x => (∃ τ, h' = h ++ τ ∧ p.Yields τ x) ∧ Ψ h' x) h := by
  induction p generalizing h with
  | ret a => exact ⟨⟨[], (List.append_nil h).symm, .ret a⟩, hp⟩
  | raise e => exact ⟨⟨[], (List.append_nil h).symm, .raise e⟩, hp⟩
  | act c k ih =>
    refine ⟨hp.1, fun a => (ih a (hp.2 a)).mono (fun _ _ => id) ?_⟩
    rintro h' x ⟨⟨τ, rfl, hτ⟩, hx⟩
    exact ⟨⟨⟨c, a⟩ :: τ, by simp, .act hτ⟩, hx⟩

end Prog

end Onceproof

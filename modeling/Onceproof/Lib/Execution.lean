import Onceproof.Lib.Program

/-!
# Executing one program

The execution of a program by itself, command by command, in a world that nobody else changes.
An execution may be cut off after any command, which is what a crash leaves behind.

* `Prog.Steps` relates a program and a world to the rest of the program and the world after
  some commands.
* `Prog.Safe` is the program logic over executions: an invariant of the history and the world
  after every command, and a description of the outcome. Its rules are `Safe.bind`,
  `Safe.ensure` and `Safe.onRaise`, and `Safe.steps` is its soundness.
* `Prog.runWith` evaluates a program with one choice for all its commands, and `Prog.cutOff`
  the first of its commands. `Prog.supplied` gives each command a choice of its own: the n-th draw
  the n-th of a tape, and any other command one that depends on what it asks.
-/

namespace Onceproof

universe u v w

namespace Prog

variable {C : Type u} {A : C → Type} {ε α β : Type} {I : Type v} {W : Type w}

/-- Run `q` if `p` raises, and raise again. -/
def onRaise (p : Prog C A ε α) (q : Prog C A ε Unit) : Prog C A ε α :=
  match p with
  | ret a => ret a
  | raise e => q >>= fun _ => raise e
  | act c k => act c fun r => (k r).onRaise q

section Execution

variable (exec : (c : C) → I → W → Option (A c × W))

/-- `p.Steps exec w τ p' w'`: the commands `τ`, in order, lead from the program `p` in the world
`w` to the program `p'` in the world `w'`. -/
inductive Steps : Prog C A ε α → W → List (Answered C A) → Prog C A ε α → W → Prop
  | refl (p : Prog C A ε α) (w : W) : Steps p w [] p w
  | act {c : C} {k : A c → Prog C A ε α} {i : I} {a : A c} {w w₁ w' : W}
      {τ : List (Answered C A)} {p' : Prog C A ε α} (executed : exec c i w = some (a, w₁))
      (rest : Steps (k a) w₁ τ p' w') : Steps (.act c k) w (⟨c, a⟩ :: τ) p' w'

/-- A program runs to its end. -/
def Completes (p : Prog C A ε α) (w : W) (τ : List (Answered C A)) (x : Except ε α) (w' : W) :
    Prop :=
  ∃ p', Steps exec p w τ p' w' ∧ p'.outcome? = some x

/-- `p.Safe exec J Q h w`: run in the world `w` after the history `h`, the program keeps `J`
after each of its commands, and `Q` describes its outcome. -/
def Safe (J : List (Answered C A) → W → Prop)
    (Q : List (Answered C A) → Except ε α → W → Prop) :
    Prog C A ε α → List (Answered C A) → W → Prop
  | ret a, h, w => Q h (.ok a) w
  | raise e, h, w => Q h (.error e) w
  | act c k, h, w => ∀ i a w', exec c i w = some (a, w') →
      J (h ++ [⟨c, a⟩]) w' ∧ Safe J Q (k a) (h ++ [⟨c, a⟩]) w'

/-- Evaluate a program with one choice for all its commands. -/
def runWith (i : I) : Prog C A ε α → W → Option (Except ε α × W)
  | ret a, w => some (.ok a, w)
  | raise e, w => some (.error e, w)
  | act c k, w => match exec c i w with
    | some (a, w') => runWith i (k a) w'
    | none => none

/-- Evaluate the first `n` commands of a program with one choice for all of them. -/
def cutOff (i : I) : ℕ → Prog C A ε α → W → Option (List (Answered C A) × Prog C A ε α × W)
  | 0, p, w => some ([], p, w)
  | _ + 1, ret a, w => some ([], ret a, w)
  | _ + 1, raise e, w => some ([], raise e, w)
  | n + 1, act c k, w => match exec c i w with
    | some (a, w') => (cutOff i n (k a) w').map fun x => (⟨c, a⟩ :: x.1, x.2)
    | none => none

/-- What the outside contributes to the commands of one program: to its drawing commands one after
the other, to every other command by what it asks. -/
structure Outside (C : Type u) (I : Type v) where
  drawn : ℕ → I
  issued : C → I

/-- Commands with what the outside contributes. The number of draws so far is a part of the
world. -/
def supplied (draws : C → Bool) (c : C) (o : Outside C I) (x : W × ℕ) : Option (A c × W × ℕ) :=
  if draws c then (exec c (o.drawn x.2) x.1).map fun y => (y.1, y.2, x.2 + 1)
  else (exec c (o.issued c) x.1).map fun y => (y.1, y.2, x.2)

variable {exec}
variable {J J' : List (Answered C A) → W → Prop}
variable {Q Q' : List (Answered C A) → Except ε α → W → Prop}
variable {h : List (Answered C A)} {w w' : W} {p p' : Prog C A ε α} {τ : List (Answered C A)}

@[simp] theorem safe_ret {a : α} : (ret a).Safe exec J Q h w ↔ Q h (.ok a) w := Iff.rfl

@[simp] theorem safe_raise {e : ε} :
    (raise e : Prog C A ε α).Safe exec J Q h w ↔ Q h (.error e) w := Iff.rfl

theorem safe_act {c : C} {k : A c → Prog C A ε α} :
    (act c k).Safe exec J Q h w ↔ ∀ i a w', exec c i w = some (a, w') →
      J (h ++ [⟨c, a⟩]) w' ∧ (k a).Safe exec J Q (h ++ [⟨c, a⟩]) w' := Iff.rfl

@[simp] theorem safe_lift {x : Except ε α} : (lift x).Safe exec J Q h w ↔ Q h x w := by
  cases x <;> rfl

/-- **Soundness**: wherever an execution is cut off, the invariant holds; at its end, the
outcome is as described. -/
theorem Safe.steps (hp : p.Safe exec J Q h w) (hJ : J h w) (hs : Steps exec p w τ p' w') :
    J (h ++ τ) w' ∧ ∀ x, p'.outcome? = some x → Q (h ++ τ) x w' := by
  induction hs generalizing h with
  | refl p w =>
    refine ⟨by simpa using hJ, fun x hx => ?_⟩
    rw [List.append_nil]
    cases p with
    | ret a => exact Option.some.inj hx ▸ hp
    | raise e => exact Option.some.inj hx ▸ hp
    | act c k => cases hx
  | act executed rest ih =>
    obtain ⟨hJ', hk⟩ := hp _ _ _ executed
    simpa using ih hk hJ'

/-- **Consequence.** -/
theorem Safe.mono (hp : p.Safe exec J Q h w) (hJ : ∀ h w, J h w → J' h w)
    (hQ : ∀ h x w, Q h x w → Q' h x w) : p.Safe exec J' Q' h w := by
  induction p generalizing h w with
  | ret a => exact hQ _ _ _ hp
  | raise e => exact hQ _ _ _ hp
  | act c k ih =>
    intro i a w' hexec
    obtain ⟨hJ', hk⟩ := hp i a w' hexec
    exact ⟨hJ _ _ hJ', ih a hk⟩

/-- A history only grows. -/
theorem Safe.grows (hp : p.Safe exec J Q h w) :
    p.Safe exec J (fun h' x w => h <+: h' ∧ Q h' x w) h w := by
  induction p generalizing h w with
  | ret a => exact ⟨List.prefix_refl h, hp⟩
  | raise e => exact ⟨List.prefix_refl h, hp⟩
  | act c k ih =>
    intro i a w' hexec
    obtain ⟨hJ, hk⟩ := hp i a w' hexec
    exact ⟨hJ, (ih a hk).mono (fun _ _ => id) fun _ _ _ ⟨hpre, hQ⟩ =>
      ⟨(List.prefix_append h _).trans hpre, hQ⟩⟩

/-- **Sequencing.** -/
theorem Safe.bind {f : α → Prog C A ε β} {Q : List (Answered C A) → Except ε β → W → Prop}
    (hp : p.Safe exec J (fun h x w => match x with
      | .ok a => (f a).Safe exec J Q h w
      | .error e => Q h (.error e) w) h w) : (p >>= f).Safe exec J Q h w := by
  induction p generalizing h w with
  | ret a => exact hp
  | raise e => exact hp
  | act c k ih =>
    intro i a w' hexec
    obtain ⟨hJ, hk⟩ := hp i a w' hexec
    exact ⟨hJ, ih a hk⟩

/-- The outcome of a clean-up after the outcome `x`: an exception of its own replaces `x`. -/
def Replaces (Q : List (Answered C A) → Except ε α → W → Prop) (x : Except ε α)
    (h : List (Answered C A)) (y : Except ε Unit) (w : W) : Prop :=
  match y with
  | .ok _ => Q h x w
  | .error e => Q h (.error e) w

/-- **Clean-up.** -/
theorem Safe.ensure {q : Prog C A ε Unit}
    (hp : p.Safe exec J (fun h x w => q.Safe exec J (Replaces Q x) h w) h w) :
    (p.ensure q).Safe exec J Q h w := by
  induction p generalizing h w with
  | ret a =>
    have hq : q.Safe exec J _ h w := hp
    exact Safe.bind (hq.mono (fun _ _ => id) fun h x w => by cases x <;> exact id)
  | raise e =>
    have hq : q.Safe exec J _ h w := hp
    exact Safe.bind (hq.mono (fun _ _ => id) fun h x w => by cases x <;> exact id)
  | act c k ih =>
    intro i a w' hexec
    obtain ⟨hJ, hk⟩ := hp i a w' hexec
    exact ⟨hJ, ih a hk⟩

/-- **Clean-up after an exception.** -/
theorem Safe.onRaise {q : Prog C A ε Unit}
    (hp : p.Safe exec J (fun h x w => match x with
      | .ok a => Q h (.ok a) w
      | .error e => q.Safe exec J (Replaces Q (.error e)) h w) h w) :
    (p.onRaise q).Safe exec J Q h w := by
  induction p generalizing h w with
  | ret a => exact hp
  | raise e =>
    have hq : q.Safe exec J _ h w := hp
    exact Safe.bind (hq.mono (fun _ _ => id) fun h x w => by cases x <;> exact id)
  | act c k ih =>
    intro i a w' hexec
    obtain ⟨hJ, hk⟩ := hp i a w' hexec
    exact ⟨hJ, ih a hk⟩

/-- **Replaced exceptions.** -/
theorem Safe.raiseAs {e : ε}
    (hp : p.Safe exec J (fun h x w => match x with
      | .ok a => Q h (.ok a) w
      | .error _ => Q h (.error e) w) h w) : (p.raiseAs e).Safe exec J Q h w := by
  induction p generalizing h w with
  | ret a => exact hp
  | raise e' => exact hp
  | act c k ih =>
    intro i a w' hexec
    obtain ⟨hJ, hk⟩ := hp i a w' hexec
    exact ⟨hJ, ih a hk⟩

/-- A command that may raise, and what follows it. -/
theorem safe_perform_bind {V : C → Type} {c : C}
    {exec : (c : C) → I → W → Option (Except ε (V c) × W)}
    {J : List (Answered C fun c => Except ε (V c)) → W → Prop}
    {f : V c → Prog C (fun c => Except ε (V c)) ε β}
    {Q : List (Answered C fun c => Except ε (V c)) → Except ε β → W → Prop}
    {h : List (Answered C fun c => Except ε (V c))} :
    (perform c >>= f).Safe exec J Q h w ↔ ∀ i a w', exec c i w = some (a, w') →
      J (h ++ [⟨c, a⟩]) w' ∧ (match a with
        | .ok v => (f v).Safe exec J Q (h ++ [⟨c, a⟩]) w'
        | .error e => Q (h ++ [⟨c, a⟩]) (.error e) w') := by
  rw [perform_bind, safe_act]
  refine forall_congr' fun i => forall_congr' fun a => forall_congr' fun w' => ?_
  refine forall_congr' fun _ => and_congr_right fun _ => ?_
  cases a with
  | ok v => rfl
  | error e => rfl

/-- A command that may raise, at the end of a program. -/
theorem safe_perform {V : C → Type} {c : C}
    {exec : (c : C) → I → W → Option (Except ε (V c) × W)}
    {J : List (Answered C fun c => Except ε (V c)) → W → Prop}
    {Q : List (Answered C fun c => Except ε (V c)) → Except ε (V c) → W → Prop}
    {h : List (Answered C fun c => Except ε (V c))} :
    (perform c).Safe exec J Q h w ↔ ∀ i a w', exec c i w = some (a, w') →
      J (h ++ [⟨c, a⟩]) w' ∧ Q (h ++ [⟨c, a⟩]) a w' := by
  rw [perform, safe_act]
  refine forall_congr' fun i => forall_congr' fun a => forall_congr' fun w' => ?_
  rw [safe_lift]

/-- An evaluation is an execution. -/
theorem completes_of_runWith {i : I} {x : Except ε α} (hrun : p.runWith exec i w = some (x, w')) :
    ∃ τ, Completes exec p w τ x w' := by
  induction p generalizing w with
  | ret a =>
    obtain ⟨rfl, rfl⟩ := Prod.mk.inj (Option.some.inj hrun)
    exact ⟨[], _, .refl _ _, rfl⟩
  | raise e =>
    obtain ⟨rfl, rfl⟩ := Prod.mk.inj (Option.some.inj hrun)
    exact ⟨[], _, .refl _ _, rfl⟩
  | act c k ih =>
    rw [runWith] at hrun
    split at hrun
    · next a w₁ hexec =>
      obtain ⟨τ, p', hsteps, hx⟩ := ih a hrun
      exact ⟨_, p', .act hexec hsteps, hx⟩
    · cases hrun

/-- The evaluation of some commands is an execution. -/
theorem steps_of_cutOff {i : I} : ∀ {n : ℕ} {p : Prog C A ε α} {w : W} {τ},
    p.cutOff exec i n w = some (τ, p', w') → Steps exec p w τ p' w'
  | 0, p, w, τ, h => by
    obtain ⟨rfl, rfl, rfl⟩ : [] = τ ∧ p = p' ∧ w = w' := by simpa [cutOff] using h
    exact .refl _ _
  | n + 1, ret a, w, τ, h => by
    obtain ⟨rfl, rfl, rfl⟩ : [] = τ ∧ ret a = p' ∧ w = w' := by simpa [cutOff] using h
    exact .refl _ _
  | n + 1, raise e, w, τ, h => by
    obtain ⟨rfl, rfl, rfl⟩ : [] = τ ∧ raise e = p' ∧ w = w' := by simpa [cutOff] using h
    exact .refl _ _
  | n + 1, act c k, w, τ, h => by
    rw [cutOff] at h
    split at h
    · next a w₁ hexec =>
      obtain ⟨⟨τ', q⟩, hrest, hx⟩ := Option.map_eq_some_iff.mp h
      obtain ⟨rfl, rfl⟩ := Prod.mk.inj hx
      exact .act hexec (steps_of_cutOff hrest)
    · cases h

/-- Evaluation of a sequence. -/
theorem runWith_bind {i : I} {f : α → Prog C A ε β} :
    (p >>= f).runWith exec i w = match p.runWith exec i w with
      | some (.ok a, w') => (f a).runWith exec i w'
      | some (.error e, w') => some (.error e, w')
      | none => none := by
  induction p generalizing w with
  | ret a => rfl
  | raise e => rfl
  | act c k ih =>
    rw [act_bind, runWith, runWith]
    cases exec c i w with
    | none => rfl
    | some x => exact ih x.1

/-- Evaluation of a command that may raise, and of what follows it. -/
theorem runWith_perform_bind {V : C → Type} {c : C}
    {exec : (c : C) → I → W → Option (Except ε (V c) × W)} {i : I}
    {f : V c → Prog C (fun c => Except ε (V c)) ε β} :
    (perform c >>= f).runWith exec i w = match exec c i w with
      | some (.ok v, w') => (f v).runWith exec i w'
      | some (.error e, w') => some (.error e, w')
      | none => none := by
  rw [perform_bind, runWith]
  cases exec c i w with
  | none => rfl
  | some x =>
    obtain ⟨a, w'⟩ := x
    cases a with
    | ok v => rfl
    | error e => rfl

/-- Evaluation of a clean-up. -/
theorem runWith_ensure {i : I} {q : Prog C A ε Unit} :
    (p.ensure q).runWith exec i w = match p.runWith exec i w with
      | some (x, w') => match q.runWith exec i w' with
        | some (.ok _, w'') => some (x, w'')
        | some (.error e, w'') => some (.error e, w'')
        | none => none
      | none => none := by
  induction p generalizing w with
  | ret a =>
    rw [ensure, runWith_bind]
    simp only [runWith]
    rcases runWith exec i q w with _ | ⟨_ | _, _⟩ <;> rfl
  | raise e =>
    rw [ensure, runWith_bind]
    simp only [runWith]
    rcases runWith exec i q w with _ | ⟨_ | _, _⟩ <;> rfl
  | act c k ih =>
    rw [ensure, runWith, runWith]
    cases exec c i w with
    | none => rfl
    | some x => exact ih x.1

theorem supplied_eq_some {draws : C → Bool} {c : C} {o : Outside C I} {n n' : ℕ} {a : A c}
    (h : supplied exec draws c o (w, n) = some (a, w', n')) : ∃ i, exec c i w = some (a, w') := by
  unfold supplied at h
  split_ifs at h
  all_goals
    obtain ⟨⟨b, v⟩, hexec, hy⟩ := Option.map_eq_some_iff.mp h
    obtain ⟨rfl, hv⟩ := Prod.mk.inj hy
    obtain ⟨rfl, -⟩ := Prod.mk.inj hv
    exact ⟨_, hexec⟩

/-- An evaluation with what the outside contributes is an execution. -/
theorem completes_of_supplied {draws : C → Bool} {o : Outside C I} {n n' : ℕ} {x : Except ε α}
    (hrun : p.runWith (supplied exec draws) o (w, n) = some (x, w', n')) :
    ∃ τ, Completes exec p w τ x w' := by
  induction p generalizing w n with
  | ret a =>
    obtain ⟨rfl, hw⟩ := Prod.mk.inj (Option.some.inj hrun)
    obtain ⟨rfl, -⟩ := Prod.mk.inj hw
    exact ⟨[], _, .refl _ _, rfl⟩
  | raise e =>
    obtain ⟨rfl, hw⟩ := Prod.mk.inj (Option.some.inj hrun)
    obtain ⟨rfl, -⟩ := Prod.mk.inj hw
    exact ⟨[], _, .refl _ _, rfl⟩
  | act c k ih =>
    rw [runWith] at hrun
    split at hrun
    · next a v hexec =>
      obtain ⟨i, hi⟩ := supplied_eq_some hexec
      obtain ⟨τ, p', hsteps, hx⟩ := ih a hrun
      exact ⟨_, p', .act hi hsteps, hx⟩
    · cases hrun

/-- Executions one after the other. -/
theorem Steps.trans {τ' : List (Answered C A)} {p'' : Prog C A ε α} {w'' : W}
    (h : Steps exec p w τ p' w') (h' : Steps exec p' w' τ' p'' w'') :
    Steps exec p w (τ ++ τ') p'' w'' := by
  induction h with
  | refl p w => exact h'
  | act executed rest ih => exact .act executed (ih h')

/-- An execution of the first part of a sequence. -/
theorem Steps.bind {f : α → Prog C A ε β} (h : Steps exec p w τ p' w') :
    Steps exec (p >>= f) w τ (p' >>= f) w' := by
  induction h with
  | refl p w => exact .refl _ _
  | act executed rest ih => exact .act executed ih

/-- **A sequence** runs its parts one after the other. -/
theorem Completes.bind {f : α → Prog C A ε β} {a : α} {x : Except ε β} {w'' : W}
    {τ' : List (Answered C A)} (h : Completes exec p w τ (.ok a) w')
    (h' : Completes exec (f a) w' τ' x w'') : Completes exec (p >>= f) w (τ ++ τ') x w'' := by
  obtain ⟨q, hsteps, hq⟩ := h
  obtain ⟨q', hsteps', hq'⟩ := h'
  cases q with
  | ret b =>
    obtain rfl := Except.ok.inj (Option.some.inj hq)
    exact ⟨q', hsteps.bind.trans hsteps', hq'⟩
  | raise e => cases hq
  | act c k => cases hq

end Execution

end Prog

end Onceproof

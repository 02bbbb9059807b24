import Onceproof.Lib.Execution
import Onceproof.System

/-!
# Evaluating the service's programs

A program, evaluated by one thread with what the outside contributes to its commands. A quiet
outside interrupts nothing: every reading, draw and transaction takes place. The rules below
evaluate a program command by command (`eval_query`, `eval_clock`, `eval_store`), through its locks
(`eval_withLock`), and relate the result to the executions of the program (`eval_completes`).
-/

namespace Onceproof

/-- The commands that read the clock or draw random bytes. -/
def Op.draws : Op → Bool
  | .clock | .tokenBytes _ | .newRootKey | .newKid _ => true
  | _ => false

/-- What the outside contributes to the commands of one program. -/
abbrev Outside : Type := Prog.Outside Op Choice

/-- Nothing is interrupted. -/
structure Outside.Quiet (o : Outside) : Prop where
  drawn : ∀ n, (o.drawn n).fault = false
  issued : ∀ c, (o.issued c).fault = false
  cut : ∀ c, (o.issued c).cut = none

/-- Evaluate a program by a thread of a process, after some draws. -/
abbrev HostProg.eval {α : Type} (prog : HostProg α) (p tid : ℕ) (o : Outside) (x : World × ℕ) :
    Option (Except Error α × World × ℕ) :=
  prog.runWith (Prog.supplied (Op.exec p tid) Op.draws) o x

variable {α β : Type} {p tid n : ℕ} {o : Outside} {w w' : World}

/-- An evaluation is an execution of the program. -/
theorem eval_completes {prog : HostProg α} {x : Except Error α} {n' : ℕ}
    (h : prog.eval p tid o (w, n) = some (x, w', n')) :
    ∃ τ, Prog.Completes (Op.exec p tid) prog w τ x w' :=
  Prog.completes_of_supplied h

theorem eval_bind {prog : HostProg α} {f : α → HostProg β} {x : World × ℕ} :
    HostProg.eval (prog >>= f) p tid o x = match prog.eval p tid o x with
      | some (.ok a, x') => (f a).eval p tid o x'
      | some (.error e, x') => some (.error e, x')
      | none => none := by
  rw [HostProg.eval, Prog.runWith_bind, HostProg.eval]
  rcases prog.runWith (Prog.supplied (Op.exec p tid) Op.draws) o x with _ | ⟨_ | _, _⟩ <;> rfl

@[simp] theorem eval_ret {a : α} {x : World × ℕ} :
    HostProg.eval (Prog.ret a) p tid o x = some (.ok a, x) := rfl

@[simp] theorem eval_pure {a : α} {x : World × ℕ} :
    HostProg.eval (pure a) p tid o x = some (.ok a, x) := rfl

@[simp] theorem eval_raise {e : Error} {x : World × ℕ} :
    HostProg.eval (Prog.raise e : HostProg α) p tid o x = some (.error e, x) := rfl

theorem eval_lift {y : Except Error α} {x : World × ℕ} :
    HostProg.eval (Prog.lift y) p tid o x = some (y, x) := by
  cases y <;> rfl

/-- A command that draws nothing, and what follows it. -/
theorem eval_command {c : Op} {f : c.Val → HostProg β} {v : c.Val} (hdraws : c.draws = false)
    (h : c.exec p tid (o.issued c) w = some (.ok v, w')) :
    HostProg.eval (c.run >>= f) p tid o (w, n) = (f v).eval p tid o (w', n) := by
  have hexec : Prog.supplied (Op.exec p tid) Op.draws c o (w, n) = some (.ok v, w', n) := by
    rw [Prog.supplied, hdraws, h]
    rfl
  rw [HostProg.eval, Prog.runWith_perform_bind, hexec]

/-- A command that draws, and what follows it. -/
theorem eval_draw {c : Op} {f : c.Val → HostProg β} {v : c.Val} (hdraws : c.draws = true)
    (h : c.exec p tid (o.drawn n) w = some (.ok v, w')) :
    HostProg.eval (c.run >>= f) p tid o (w, n) = (f v).eval p tid o (w', n + 1) := by
  have hexec : Prog.supplied (Op.exec p tid) Op.draws c o (w, n) = some (.ok v, w', n + 1) := by
    rw [Prog.supplied, hdraws, h]
    rfl
  rw [HostProg.eval, Prog.runWith_perform_bind, hexec]

/-- A query, and what follows it. -/
theorem eval_query {c : Op} (params : List Str) (query : Ledger → c.Val) {f : c.Val → HostProg β}
    (hc : ∀ i w, c.exec p tid i w = queried i w params query) (hdraws : c.draws = false)
    (ho : o.Quiet) : HostProg.eval (c.run >>= f) p tid o (w, n) =
      if params.all Str.encodable = true then (f (query w.ledger)).eval p tid o (w, n)
      else some (.error .unicodeEncodeError, w, n) := by
  have hexec : Prog.supplied (Op.exec p tid) Op.draws c o (w, n) =
      some (if params.all Str.encodable = true then .ok (query w.ledger)
        else .error .unicodeEncodeError, w, n) := by
    simp [Prog.supplied, hdraws, hc, queried, orFault, ho.issued c]
  rw [HostProg.eval, Prog.runWith_perform_bind, hexec]
  by_cases hparams : params.all Str.encodable = true
  · rw [if_pos hparams, if_pos hparams]
  · rw [if_neg hparams, if_neg hparams]

/-- A reading of the clock, and what follows it. -/
theorem eval_clock {f : ℤ → HostProg β} (ho : o.Quiet) :
    HostProg.eval (Op.clock.run >>= f) p tid o (w, n) =
      (f (o.drawn n).now).eval p tid o (w, n + 1) :=
  eval_draw rfl (by rw [Op.exec, orFault, ho.drawn n]; rfl)

/-- The memory of the process, and what follows it. -/
theorem eval_memory {k : KeyRing} (hk : (w.procs p).bind Proc.memory = some k)
    {f : KeyRing → HostProg β} :
    HostProg.eval (Op.memory.run >>= f) p tid o (w, n) = (f k).eval p tid o (w, n) :=
  eval_command rfl (by rw [Op.exec, hk]; rfl)

/-- The keyring file, and what follows it. -/
theorem eval_readKeyring {f : KeyRing → HostProg β} (ho : o.Quiet) :
    HostProg.eval (Op.readKeyring.run >>= f) p tid o (w, n) =
      (f w.keyring).eval p tid o (w, n) :=
  eval_command rfl (by rw [Op.exec, orFault, ho.issued]; rfl)

/-- A transaction at the end of a program. -/
theorem eval_store {call : StoreCall} (ho : o.Quiet) {x : Except Error call.Reply} {db : Ledger}
    (hx : Tx.write Error.interrupted none (call.tx (o.issued (.store call)).chance) w.ledger =
      (x, db)) :
    HostProg.eval (Op.store call).run p tid o (w, n) = some (x, { w with ledger := db }, n) := by
  have hexec : (Op.store call).exec p tid (o.issued (.store call)) w =
      some (x, { w with ledger := db }) := by
    rw [Op.exec, ho.cut, hx]
  have hsupplied : Prog.supplied (Op.exec p tid) Op.draws (.store call) o (w, n) =
      some (x, { w with ledger := db }, n) := by
    have hdraws : (Op.store call).draws = false := rfl
    rw [Prog.supplied, hdraws, hexec]
    rfl
  rw [HostProg.eval, Op.run, Prog.perform, Prog.runWith, hsupplied]
  exact eval_lift

/-! ### Locks -/

/-- A lock that is freed in the end, whatever happens. -/
theorem eval_ensure_release {l : LockName} {prog : HostProg α} {x : World × ℕ} :
    HostProg.eval (prog.ensure (Op.release l).run) p tid o x =
      (prog.eval p tid o x).map fun y => (y.1, y.2.1.setLock (l.of p) none, y.2.2) := by
  rw [HostProg.eval, Prog.runWith_ensure, HostProg.eval]
  cases prog.runWith (Prog.supplied (Op.exec p tid) Op.draws) o x <;> rfl

/-- **A free lock** around a program. -/
theorem eval_withLock {l : LockName} {prog : HostProg α} (ho : o.Quiet)
    (hfree : w.locks (l.of p) = none) :
    HostProg.eval (withLock l prog) p tid o (w, n) =
      (prog.eval p tid o (w.setLock (l.of p) (some (p, tid)), n)).map fun y =>
        (y.1, y.2.1.setLock (l.of p) none, y.2.2) := by
  have hexec : (Op.acquire l).exec p tid (o.issued (.acquire l)) w =
      some (.ok (), w.setLock (l.of p) (some (p, tid))) := by
    simp [Op.exec, orFault, hfree, ho.issued]
  exact (eval_command rfl hexec).trans eval_ensure_release

end Onceproof

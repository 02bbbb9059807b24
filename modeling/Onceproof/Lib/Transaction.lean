import Onceproof.Lib.Program

/-!
# Transactions with rollback and faults

A transaction is a program whose commands are statements: functions on a database that
answer and change it, or fail and leave it alone. `Tx.run` executes a transaction on a
working copy; `Tx.runUntil` executes it with a fault planted at one of its statements, the
closing commit included. `write` is what the outside sees: the working copy replaces the
database exactly when the transaction ends without an exception and commits.

* `write_ok` / `write_error`: a write that returns made the changes of the undisturbed run;
  one that raises changed nothing. `write_raised` says what it raises.
* `Tx.run_bind_ok` is the inversion of sequencing that every effect lemma is assembled from,
  and `Tx.Raises` bounds the exceptions of a transaction by those of its statements.
* `Tx.Alike`: two transactions that no fault tells apart on a database (`Alike.write`).
-/

namespace Onceproof

/-- A statement over databases `σ`: it fails with an exception or answers. -/
structure Stmt (σ ε : Type) : Type 1 where
  Res : Type
  run : σ → Except ε (Res × σ)

/-- Transactions: programs over statements. -/
abbrev Tx (σ ε α : Type) : Type 1 := Prog (Stmt σ ε) Stmt.Res ε α

namespace Tx

variable {σ ε α β : Type}

/-- The transaction of a single statement. -/
def exec (f : σ → Except ε (α × σ)) : Tx σ ε α := .act ⟨α, f⟩ .ret

/-- Run a transaction on a working copy of the database. -/
def run : Tx σ ε α → σ → Except ε (α × σ)
  | .ret a, db => .ok (a, db)
  | .raise e, _ => .error e
  | .act s k, db =>
    match s.run db with
    | .ok (r, db') => run (k r) db'
    | .error e => .error e

/-- Run a transaction that is cut off by the exception `fault` after `n` statements. The
commit counts as a statement. -/
def runUntil (fault : ε) : ℕ → Tx σ ε α → σ → Except ε (α × σ)
  | 0, .ret _, _ => .error fault
  | _ + 1, .ret a, db => .ok (a, db)
  | _, .raise e, _ => .error e
  | 0, .act _ _, _ => .error fault
  | n + 1, .act s k, db =>
    match s.run db with
    | .ok (r, db') => runUntil fault n (k r) db'
    | .error e => .error e

/-- A write lock around a transaction: commit on a normal end, roll back on an exception. -/
def write (fault : ε) (cut : Option ℕ) (t : Tx σ ε α) (db : σ) : Except ε α × σ :=
  match (match cut with
    | none => run t db
    | some n => runUntil fault n t db) with
  | .ok (a, db') => (.ok a, db')
  | .error e => (.error e, db)

@[simp] theorem run_ret (a : α) (db : σ) : run (Prog.ret a : Tx σ ε α) db = .ok (a, db) := rfl

@[simp] theorem run_raise (e : ε) (db : σ) :
    run (Prog.raise e : Tx σ ε α) db = .error e := rfl

@[simp] theorem run_pure (a : α) (db : σ) : run (pure a : Tx σ ε α) db = .ok (a, db) := rfl

@[simp] theorem run_exec (f : σ → Except ε (α × σ)) (db : σ) : run (exec f) db = f db := by
  simp only [exec, run]
  cases f db with
  | ok x => rfl
  | error e => rfl

/-- Running a sequence runs the parts one after the other. -/
theorem run_bind (t : Tx σ ε α) (f : α → Tx σ ε β) (db : σ) :
    run (t >>= f) db = match run t db with
      | .ok (a, db') => run (f a) db'
      | .error e => .error e := by
  induction t generalizing db with
  | ret a => rfl
  | raise e => rfl
  | act s k ih =>
    simp only [Prog.act_bind, run]
    cases s.run db with
    | ok x => exact ih x.1 x.2
    | error e => rfl

/-- **Inversion of sequencing**: a sequence that ends well has an intermediate state. -/
theorem run_bind_ok {t : Tx σ ε α} {f : α → Tx σ ε β} {db db'' : σ} {b : β} :
    run (t >>= f) db = .ok (b, db'') ↔
      ∃ a db', run t db = .ok (a, db') ∧ run (f a) db' = .ok (b, db'') := by
  rw [run_bind]
  constructor
  · intro h
    cases ht : run t db with
    | ok x => exact ⟨x.1, x.2, rfl, by simpa [ht] using h⟩
    | error e => simp [ht] at h
  · rintro ⟨a, db', ht, hf⟩
    simpa [ht] using hf

/-- **Inversion of sequencing**: a sequence that raises does so in its first part or after it. -/
theorem run_bind_error {t : Tx σ ε α} {f : α → Tx σ ε β} {db : σ} {e : ε} :
    run (t >>= f) db = .error e ↔
      run t db = .error e ∨ ∃ a db', run t db = .ok (a, db') ∧ run (f a) db' = .error e := by
  rw [run_bind]
  constructor
  · intro h
    cases ht : run t db with
    | ok x => exact Or.inr ⟨x.1, x.2, rfl, by simpa [ht] using h⟩
    | error e' => exact Or.inl (by simpa [ht] using h)
  · rintro (ht | ⟨a, db', ht, hf⟩)
    · simp [ht]
    · simpa [ht] using hf

/-- Running the continuation of a sequence whose first part ends well. -/
theorem run_bind_of_ok {t : Tx σ ε α} {f : α → Tx σ ε β} {db db' : σ} {a : α}
    (h : run t db = .ok (a, db')) : run (t >>= f) db = run (f a) db' := by
  rw [run_bind, h]

/-- A sequence whose first part raises. -/
theorem run_bind_of_error {t : Tx σ ε α} {f : α → Tx σ ε β} {db : σ} {e : ε}
    (h : run t db = .error e) : run (t >>= f) db = .error e := by
  rw [run_bind, h]

/-- Every exception that the transaction raises is one of `E`. -/
def Raises (E : ε → Prop) (t : Tx σ ε α) : Prop := ∀ db e, run t db = .error e → E e

/-- **The exceptions of a sequence** are those of its parts. -/
theorem Raises.bind {E : ε → Prop} {t : Tx σ ε α} {f : α → Tx σ ε β} (ht : t.Raises E)
    (hf : ∀ a, Raises E (f a)) : Raises E (t >>= f) := by
  intro db e h
  rw [run_bind] at h
  cases hrun : run t db with
  | ok x => exact hf x.1 x.2 e (by simpa [hrun] using h)
  | error e' => exact ht db e (by simpa [hrun] using h)

theorem Raises.pure {E : ε → Prop} (a : α) : Raises E (Pure.pure a : Tx σ ε α) := by
  intro db e h
  cases h

theorem Raises.raise {E : ε → Prop} {e : ε} (he : E e) :
    Raises E (Prog.raise e : Tx σ ε α) := by
  intro db e' h
  rwa [← Except.error.inj h]

/-- A transaction that survives a planted fault ran as if there were none. -/
theorem run_of_runUntil {fault : ε} {n : ℕ} {t : Tx σ ε α} {db db' : σ} {a : α}
    (h : runUntil fault n t db = .ok (a, db')) : run t db = .ok (a, db') := by
  induction t generalizing n db with
  | ret b =>
    cases n with
    | zero => simp [runUntil] at h
    | succ n => exact h
  | raise e => cases n <;> simp [runUntil] at h
  | act s k ih =>
    cases n with
    | zero => simp [runUntil] at h
    | succ n =>
      simp only [runUntil, run] at h ⊢
      cases hs : s.run db with
      | ok x => exact ih _ (by simpa [hs] using h)
      | error e => simp [hs] at h

/-- **A write that returns** made the changes of the undisturbed run. -/
theorem write_ok {fault : ε} {cut : Option ℕ} {t : Tx σ ε α} {db db' : σ} {a : α}
    (h : write fault cut t db = (.ok a, db')) : run t db = .ok (a, db') := by
  cases cut with
  | none =>
    simp only [write] at h
    cases ht : run t db with
    | ok x => simp only [ht, Prod.mk.injEq, Except.ok.injEq] at h; rw [← h.1, ← h.2]
    | error e => simp [ht] at h
  | some n =>
    simp only [write] at h
    cases ht : runUntil fault n t db with
    | ok x =>
      simp only [ht, Prod.mk.injEq, Except.ok.injEq] at h
      rw [run_of_runUntil ht, ← h.1, ← h.2]
    | error e => simp [ht] at h

/-- **A write that raises** changed nothing. -/
theorem write_error {fault : ε} {cut : Option ℕ} {t : Tx σ ε α} {db db' : σ} {e : ε}
    (h : write fault cut t db = (.error e, db')) : db' = db := by
  unfold write at h
  split at h
  · simp at h
  · exact (Prod.mk.inj h).2.symm

/-- An undisturbed write of a transaction that ends well. -/
theorem write_of_run {fault : ε} {t : Tx σ ε α} {db db' : σ} {a : α}
    (h : run t db = .ok (a, db')) : write fault none t db = (.ok a, db') := by
  simp [write, h]

/-- An undisturbed write of a transaction that raises. -/
theorem write_of_run_error {fault e : ε} {t : Tx σ ε α} {db : σ}
    (h : run t db = .error e) : write fault none t db = (.error e, db) := by
  simp [write, h]

/-- A transaction that was cut off raised the fault or what it raises undisturbed. -/
theorem run_of_runUntil_error {fault e : ε} {n : ℕ} {t : Tx σ ε α} {db : σ}
    (h : runUntil fault n t db = .error e) : e = fault ∨ run t db = .error e := by
  induction t generalizing n db with
  | ret b =>
    cases n with
    | zero => exact Or.inl (Except.error.inj h).symm
    | succ n => cases h
  | raise e' =>
    have h' : (Except.error e' : Except ε (α × σ)) = .error e := by cases n <;> exact h
    exact Or.inr h'
  | act s k ih =>
    cases n with
    | zero => exact Or.inl (Except.error.inj h).symm
    | succ n =>
      simp only [runUntil, run] at h ⊢
      cases hs : s.run db with
      | ok x => exact ih _ (by simpa [hs] using h)
      | error e' => exact Or.inr (by simpa [hs] using h)

/-- A write raises the fault or what its transaction raises. -/
theorem write_raised {fault e : ε} {cut : Option ℕ} {t : Tx σ ε α} {db db' : σ}
    (h : write fault cut t db = (.error e, db')) : e = fault ∨ run t db = .error e := by
  unfold write at h
  split at h
  · cases (Prod.mk.inj h).1
  · rename_i e' hrun
    obtain rfl := Except.error.inj (Prod.mk.inj h).1
    cases cut with
    | none => exact Or.inr hrun
    | some n => exact run_of_runUntil_error hrun

/-! ### Transactions that run alike -/

/-- Two transactions that run alike on a database, undisturbed and cut off anywhere. -/
structure Alike (t t' : Tx σ ε α) (db : σ) : Prop where
  run : t.run db = t'.run db
  runUntil : ∀ fault n, t.runUntil fault n db = t'.runUntil fault n db

theorem Alike.refl (t : Tx σ ε α) (db : σ) : Alike t t db := ⟨rfl, fun _ _ => rfl⟩

/-- **The outside** cannot tell them apart. -/
theorem Alike.write {t t' : Tx σ ε α} {db : σ} (h : Alike t t' db) (fault : ε) (cut : Option ℕ) :
    t.write fault cut db = t'.write fault cut db := by
  unfold Tx.write
  cases cut with
  | none =>
    dsimp only
    rw [h.run]
  | some n =>
    dsimp only
    rw [h.runUntil]

/-- Two statements that do the same, and what follows them. -/
theorem Alike.exec_bind {g g' : σ → Except ε (α × σ)} {f f' : α → Tx σ ε β} {db : σ}
    (hg : g db = g' db) (hf : ∀ a db', g db = .ok (a, db') → Alike (f a) (f' a) db') :
    Alike (Tx.exec g >>= f) (Tx.exec g' >>= f') db := by
  have hrun : ∀ {g : σ → Except ε (α × σ)} {f : α → Tx σ ε β},
      Tx.run (Tx.exec g >>= f) db = match g db with
        | .ok (a, db') => Tx.run (f a) db'
        | .error e => .error e := by
    intro g f
    rw [run_bind, run_exec]
  have huntil : ∀ {g : σ → Except ε (α × σ)} {f : α → Tx σ ε β} (fault : ε) (n : ℕ),
      Tx.runUntil fault (n + 1) (Tx.exec g >>= f) db = match g db with
        | .ok (a, db') => Tx.runUntil fault n (f a) db'
        | .error e => .error e := by
    intro g f fault n
    simp only [exec, Prog.act_bind, Prog.ret_bind, Tx.runUntil]
    cases g db <;> rfl
  refine ⟨?_, fun fault n => ?_⟩
  · rw [hrun, hrun, ← hg]
    cases hdb : g db with
    | ok x => exact (hf x.1 x.2 hdb).run
    | error e => rfl
  · cases n with
    | zero => rfl
    | succ n =>
      rw [huntil, huntil, ← hg]
      cases hdb : g db with
      | ok x => exact (hf x.1 x.2 hdb).runUntil fault n
      | error e => rfl

/-- **Sequencing**: the rests run alike after the same first part. -/
theorem Alike.bind {t : Tx σ ε α} {f f' : α → Tx σ ε β} {db : σ}
    (hf : ∀ a db', t.run db = .ok (a, db') → Alike (f a) (f' a) db') :
    Alike (t >>= f) (t >>= f') db := by
  induction t generalizing db with
  | ret a => exact hf a db rfl
  | raise e => exact .refl _ db
  | act s k ih =>
    refine exec_bind rfl fun r db₁ hr => ?_
    refine ih r fun a db' ha => hf a db' ?_
    rw [Tx.run, hr]
    exact ha

end Tx

end Onceproof

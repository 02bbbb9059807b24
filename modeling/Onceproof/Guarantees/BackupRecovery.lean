import Onceproof.Backup.Recovery
import Onceproof.Scenario

/-!
# Recovery of interrupted backups

Runs of `onceproof db backup` to one output directory, each cut off after any of its system
calls. `interrupted_backup_recoverable` says that the directory is published or is reconciled by
the next run, unless a run was cut off while SQLite kept its journal beside the copy, or in a
reconciliation that had deleted the marker before the database or the keyring.
-/

namespace Onceproof

/-- What lies at the output path after some runs of the command, each of which was cut off after
commands of which `P` holds. -/
inductive BackupRuns (P : FsHist → Prop) : Output → Prop
  | start : BackupRuns P .absent
  | run {out out' : Output} {ledger : Ledger} {k : KeyRing} {τ : FsHist} {p : FsProg Unit}
      (before : BackupRuns P out) (cut : Prog.Steps FsOp.exec (dbBackup ledger k) out τ p out')
      (hP : P τ) : BackupRuns P out'

/-- A cut that leaves no journal, and no member without the marker. -/
def CutClean (τ : FsHist) : Prop := ¬ InTransaction τ ∧ ¬ MidReconciliation τ

/-- The next run of the command reconciles the directory, in whatever order the entries are
listed, and never answers that it cannot be reconciled. -/
structure Output.Reconciled (out : Output) : Prop where
  prepared : ∀ i : FsChoice, (∀ d, out = .directory d → d.Listed i.listing) →
    ∃ out', prepareBackupDirectory.runWith FsOp.exec i out = some (.ok (), out')
  answered : ∀ ledger k τ x out', Prog.Completes FsOp.exec (dbBackup ledger k) out τ x out' →
    x ≠ .error notReconcilable

/-- A directory is published or reconciled. -/
theorem Output.Good.recoverable {out : Output} (h : out.Good) :
    out.Published ∨ out.Reconciled := by
  have hanswered : ∀ ledger k τ x out',
      Prog.Completes FsOp.exec (dbBackup ledger k) out τ x out' → x ≠ .error notReconcilable := by
    rintro ledger k τ x out' ⟨p, hsteps, hx⟩
    have hend := ((dbBackup_safe ledger k h).steps (Or.inr (Or.inr h)) hsteps).2 x hx
    exact hend.2
  cases out with
  | absent =>
    refine Or.inr ⟨fun i _ => ?_, hanswered⟩
    obtain ⟨out', hrun⟩ := runWith_recreate (i := i)
    exact ⟨out', hrun⟩
  | other => exact h.elim
  | directory d =>
    rcases h with hun | hpub
    · refine Or.inr ⟨fun i hl => ?_, hanswered⟩
      have hregular : ∀ name ∈ d, d.Regular name := fun name hname => (hun.1 name hname).2
      exact prepare_of_regular (hl d rfl) hun.namesPass hregular
    · exact Or.inl hpub

/-- **An interrupted backup is recoverable** if every run was cut off cleanly. -/
theorem interrupted_backup_recoverable {out : Output} (h : BackupRuns CutClean out) :
    out.Published ∨ out.Reconciled := by
  refine Output.Good.recoverable ?_
  induction h with
  | start => exact trivial
  | run before cut hP ih =>
    have hres := ((dbBackup_safe _ _ ih).steps (Or.inr (Or.inr ih)) cut).1
    exact (hres.resolve_left hP.1).resolve_left hP.2

namespace Scenario

/-- The entries are listed in the order of `l`, and SQLite keeps a journal or not. -/
def listing (l : List Str) (journal : Bool) : FsChoice := ⟨l, [], journal⟩

/-- A run of the command that was cut off after its first system calls. -/
def cutBackup (i : FsChoice) (n : ℕ) (out : Output) : Option (FsHist × FsProg Unit × Output) :=
  (dbBackup start.world.ledger start.world.keyring).cutOff FsOp.exec i n out

end Scenario

theorem BackupRuns.cut {P : FsHist → Prop} {i : FsChoice} {n : ℕ} {out out' : Output}
    {τ : FsHist} {p : FsProg Unit} (before : BackupRuns P out)
    (hcut : Scenario.cutBackup i n out = some (τ, p, out')) (hP : P τ) : BackupRuns P out' :=
  before.run (Prog.steps_of_cutOff hcut) hP

/-- Neither SQLite's transactions nor a reconciliation is reached. -/
def beforeTransactions (τ : FsHist) : Bool :=
  τ.all fun x => match x.1 with
    | .beginWrite | .iterdir => false
    | _ => true

theorem cutClean_of_beforeTransactions {τ : FsHist} (h : beforeTransactions τ = true) :
    CutClean τ := by
  have hall := List.all_eq_true.mp h
  constructor
  · rintro ⟨a, b, rfl, -⟩
    exact absurd (hall ⟨.beginWrite, .ok true⟩ (by simp)) (by decide)
  · rintro ⟨l, hl, -⟩
    exact absurd (hall ⟨.iterdir, .ok l⟩ hl) (by simp)

/-- A run was cut off when it had created the copy and written nothing into it. -/
theorem interrupted_backup_recoverable_created :
    ∃ d : Entries, databaseName ∈ d ∧ BackupRuns CutClean (.directory d) ∧
      ((Output.directory d).Published ∨ (Output.directory d).Reconciled) := by
  have hruns := BackupRuns.start.cut (P := CutClean) (i := Scenario.listing [] false) (n := 14) rfl
    (cutClean_of_beforeTransactions rfl)
  exact ⟨_, by decide, hruns, interrupted_backup_recoverable hruns⟩

/-- A directory that the next run refuses. -/
theorem not_recoverable {d : Entries} {i : FsChoice} (hl : d.Listed i.listing)
    (hmanifest : manifestName ∉ d) {out : Output}
    (hrun : prepareBackupDirectory.runWith FsOp.exec i (.directory d) =
      some (.error notReconcilable, out)) :
    ¬ ((Output.directory d).Published ∨ (Output.directory d).Reconciled) := by
  rintro (⟨ledger, k, -, -, hpub⟩ | hrec)
  · exact hmanifest (Finmap.lookup_isSome.mp (by rw [hpub]; rfl))
  · obtain ⟨out', hok⟩ := hrec.prepared i fun d' hd => by
      obtain rfl := Output.directory.inj hd
      exact hl
    rw [hrun] at hok
    cases hok

/-- A run that is cut off while SQLite keeps its journal is not recoverable, and neither is a
directory whose reconciliation was cut off when it had deleted the marker first. -/
theorem interrupted_backup_counterexample :
    (∃ d : Entries, journalName ∈ d ∧ BackupRuns (fun _ => True) (.directory d) ∧
      ¬ ((Output.directory d).Published ∨ (Output.directory d).Reconciled)) ∧
    ∃ d : Entries, databaseName ∈ d ∧ incompleteName ∉ d ∧
      BackupRuns (fun _ => True) (.directory d) ∧
      ¬ ((Output.directory d).Published ∨ (Output.directory d).Reconciled) := by
  constructor
  · have hruns := BackupRuns.start.cut (P := fun _ => True) (i := Scenario.listing [] true)
      (n := 15) rfl trivial
    exact ⟨_, by decide, hruns, not_recoverable
      (i := Scenario.listing [journalName, databaseName, incompleteName] false)
      (by decide) (by decide) rfl⟩
  · have hfirst := BackupRuns.start.cut (P := fun _ => True) (i := Scenario.listing [] false)
      (n := 14) rfl trivial
    have hruns := hfirst.cut (n := 8)
      (i := Scenario.listing [incompleteName, databaseName] false) rfl trivial
    exact ⟨_, by decide, by decide, hruns, not_recoverable
      (i := Scenario.listing [databaseName] false) (by decide) (by decide) rfl⟩

end Onceproof

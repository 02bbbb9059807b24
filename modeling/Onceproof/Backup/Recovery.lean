import Onceproof.Backup.Reconcile

/-!
# Directories that an interrupted backup leaves

`Output.Good` describes what lies at the output path between two system calls of the command,
apart from two windows: while SQLite keeps a journal beside the database, and while the
reconciliation of an earlier directory has deleted the marker before the database or the
keyring. `dbBackup_safe` says so of the whole command.
-/

namespace Onceproof

/-- What a thread did to the output directory. -/
abbrev FsHist : Type := List (Answered FsOp FsOp.Ans)

/-- SQLite keeps a journal beside the database. -/
def InTransaction (h : FsHist) : Prop :=
  ∃ a b, h = a ++ ⟨.beginWrite, .ok true⟩ :: b ∧ ∀ x ∈ b, x.1 ≠ .commitWrite

/-- The marker was deleted while the database or the keyring was still listed. -/
def MidReconciliation (h : FsHist) : Prop :=
  ∃ l, (⟨.iterdir, .ok l⟩ : Answered FsOp FsOp.Ans) ∈ h ∧
    (⟨.unlink incompleteName, .ok ()⟩ : Answered FsOp FsOp.Ans) ∈ h ∧
    ∃ name ∈ l, (name = databaseName ∨ name = keyringName) ∧
      (⟨.unlink name, .ok ()⟩ : Answered FsOp FsOp.Ans) ∉ h

namespace Entries

/-- Regular files with names that reconciliation deletes. -/
def Members (d : Entries) : Prop := ∀ name ∈ d, isReconcilable name = true ∧ d.Regular name

/-- A backup that was not published and can be reconciled. -/
def Unpublished (d : Entries) : Prop :=
  d.Members ∧ (incompleteName ∈ d ∨ ∀ name ∈ d, isPending name = true)

/-- A published manifest for a complete database and keyring. -/
def Published (d : Entries) : Prop :=
  ∃ ledger k, d.lookup databaseName = some (.file (.database (Store.backup ledger))) ∧
    d.lookup keyringName = some (.file (.keyring k)) ∧
    d.lookup manifestName =
      some (.file (.manifest (.database (Store.backup ledger)) (.keyring k)))

theorem Unpublished.namesPass {d : Entries} (h : d.Unpublished) : d.NamesPass := by
  refine ⟨?_, ?_, fun name hname => (h.1 name hname).1⟩
  · have hmanifest : manifestName ∉ d := fun hmem => absurd (h.1 _ hmem).1 (by decide)
    rw [Finmap.lookup_eq_none.mpr hmanifest]
    rfl
  · rcases h.2 with hmarker | hpending
    · obtain ⟨c, hc⟩ := (h.1 _ hmarker).2
      exact Or.inr (Or.inl (by rw [hc]; rfl))
    · exact Or.inr (Or.inr hpending)

end Entries

/-- What lies at the output path. -/
def Output.Good : Output → Prop
  | .absent => True
  | .other => False
  | .directory d => d.Unpublished ∨ d.Published

/-- A published backup at the output path. -/
def Output.Published : Output → Prop
  | .directory d => d.Published
  | _ => False

/-- The invariant of the command. -/
def Resumable (h : FsHist) (out : Output) : Prop :=
  InTransaction h ∨ MidReconciliation h ∨ out.Good

/-! ### The marked directory -/

/-- A marked directory of known files, with some contents. -/
def MarkedWith (facts : List (Str × Content)) (out : Output) : Prop :=
  ∃ d : Entries, out = .directory d ∧ d.Members ∧ incompleteName ∈ d ∧
    ∀ f ∈ facts, d.lookup f.1 = some (.file f.2)

/-- The system calls that leave the marker and some contents alone. -/
def FsOp.Spares (facts : List (Str × Content)) : FsOp → Prop
  | sync | tokenHex | entryExists _ | read _ => True
  | create name | write name _ => isReconcilable name = true ∧ ∀ f ∈ facts, f.1 ≠ name
  | unlinkMissing name => name ≠ incompleteName ∧ ∀ f ∈ facts, f.1 ≠ name
  | _ => False

section Calls

variable {facts : List (Str × Content)} {out out' : Output} {h : FsHist} {i : FsChoice}
variable {d : Entries}

theorem MarkedWith.good (hold : MarkedWith facts out) : out.Good := by
  obtain ⟨d, rfl, hmembers, hmarker, -⟩ := hold
  exact Or.inl ⟨hmembers, Or.inl hmarker⟩

theorem MarkedWith.resumable (hold : MarkedWith facts out) : Resumable h out :=
  Or.inr (Or.inr hold.good)

theorem MarkedWith.weaken {facts' : List (Str × Content)} (hold : MarkedWith facts out)
    (hsub : ∀ f ∈ facts', f ∈ facts) : MarkedWith facts' out := by
  obtain ⟨d, hd, hmembers, hmarker, hfacts⟩ := hold
  exact ⟨d, hd, hmembers, hmarker, fun f hf => hfacts f (hsub f hf)⟩

theorem Entries.Members.insert (hmembers : d.Members) {name : Str} {c : Content}
    (hname : isReconcilable name = true) : Entries.Members (Finmap.insert name (.file c) d) := by
  intro n hn
  by_cases heq : n = name
  · subst heq
    exact ⟨hname, c, Finmap.lookup_insert _⟩
  · have hmem : n ∈ d := (Finmap.mem_insert.mp hn).resolve_left heq
    obtain ⟨hrec, c', hc'⟩ := hmembers n hmem
    exact ⟨hrec, c', (Finmap.lookup_insert_of_ne _ heq).trans hc'⟩

theorem Entries.Members.erase (hmembers : d.Members) (name : Str) :
    Entries.Members (Finmap.erase name d) := by
  intro n hn
  obtain ⟨hne, hmem⟩ := Finmap.mem_erase.mp hn
  obtain ⟨hrec, c, hc⟩ := hmembers n hmem
  exact ⟨hrec, c, (Finmap.lookup_erase_ne hne).trans hc⟩

/-- Writing a known file. -/
theorem MarkedWith.insert (hold : MarkedWith facts (.directory d)) {name : Str} {c : Content}
    (hname : isReconcilable name = true) (hfacts : ∀ f ∈ facts, f.1 ≠ name) :
    MarkedWith ((name, c) :: facts) (.directory (Finmap.insert name (.file c) d)) := by
  obtain ⟨d₀, hd, hmembers, hmarker, hknown⟩ := hold
  obtain rfl := Output.directory.inj hd
  refine ⟨_, rfl, hmembers.insert hname, Finmap.mem_insert.mpr (Or.inr hmarker), fun f hf => ?_⟩
  rcases List.mem_cons.mp hf with rfl | hf
  · exact Finmap.lookup_insert _
  · exact (Finmap.lookup_insert_of_ne _ (hfacts f hf)).trans (hknown f hf)

/-- Deleting a file. -/
theorem MarkedWith.erase (hold : MarkedWith facts (.directory d)) {name : Str}
    (hname : name ≠ incompleteName) (hfacts : ∀ f ∈ facts, f.1 ≠ name) :
    MarkedWith facts (.directory (Finmap.erase name d)) := by
  obtain ⟨d₀, hd, hmembers, hmarker, hknown⟩ := hold
  obtain rfl := Output.directory.inj hd
  exact ⟨_, rfl, hmembers.erase name, Finmap.mem_erase.mpr ⟨hname.symm, hmarker⟩,
    fun f hf => (Finmap.lookup_erase_ne (hfacts f hf)).trans (hknown f hf)⟩

/-- No system call answers that a directory cannot be reconciled. -/
theorem FsOp.exec_ne {c : FsOp} {a : c.Ans} (hexec : c.exec i out = some (a, out')) :
    a ≠ .error notReconcilable := by
  rintro rfl
  cases out with
  | absent => cases c <;> simp [FsOp.exec, onEntries, notReconcilable] at hexec
  | other => cases c <;> simp [FsOp.exec, onEntries, notReconcilable] at hexec
  | directory d =>
    cases c <;> simp only [FsOp.exec, onEntries, notReconcilable] at hexec <;>
      first
        | (split at hexec <;> (try split at hexec) <;> simp at hexec)
        | simp at hexec

/-- **Sparing system calls** keep a marked directory marked. -/
theorem MarkedWith.step (hold : MarkedWith facts out) {c : FsOp} {a : c.Ans} (hc : c.Spares facts)
    (hexec : c.exec i out = some (a, out')) : MarkedWith facts out' := by
  obtain ⟨d, rfl, -⟩ := id hold
  have hsame : ∀ {α : Type} {x : Except Error α} {a : Except Error α},
      some (x, Output.directory d) = some (a, out') → MarkedWith facts out' := by
    intro α x a heq
    rw [← (Prod.mk.inj (Option.some.inj heq)).2]
    exact hold
  cases c with
  | sync => exact hsame hexec
  | tokenHex => exact hsame hexec
  | entryExists name => exact hsame hexec
  | read name =>
    simp only [FsOp.exec, onEntries] at hexec
    split at hexec <;> exact hsame hexec
  | create name =>
    simp only [FsOp.exec, onEntries] at hexec
    split_ifs at hexec
    · exact hsame hexec
    · rw [← (Prod.mk.inj (Option.some.inj hexec)).2]
      exact (hold.insert hc.1 hc.2).weaken fun f hf => List.mem_cons_of_mem _ hf
  | write name content =>
    simp only [FsOp.exec, onEntries] at hexec
    split at hexec
    · rw [← (Prod.mk.inj (Option.some.inj hexec)).2]
      exact (hold.insert hc.1 hc.2).weaken fun f hf => List.mem_cons_of_mem _ hf
    · exact hsame hexec
  | unlinkMissing name =>
    simp only [FsOp.exec, onEntries] at hexec
    split at hexec
    · exact hsame hexec
    · rw [← (Prod.mk.inj (Option.some.inj hexec)).2]
      exact hold.erase hc.1 hc.2
  | pathExists | isDir | isFile | isSymlink | iterdir | unlink | rmdir | mkdir | link | beginWrite
  | commitWrite => exact hc.elim

/-- A sparing system call, and what follows it. -/
theorem MarkedWith.safe_bind {β : Type} (hold : MarkedWith facts out) {c : FsOp}
    (hc : c.Spares facts) {f : c.Val → FsProg β} {Q : FsHist → Except Error β → Output → Prop}
    (hok : ∀ i v out', c.exec i out = some (.ok v, out') → MarkedWith facts out' →
      (f v).Safe FsOp.exec Resumable Q (h ++ [⟨c, .ok v⟩]) out')
    (herr : ∀ h e out', MarkedWith facts out' → e ≠ notReconcilable → Q h (.error e) out') :
    (c.run >>= f).Safe FsOp.exec Resumable Q h out := by
  refine Prog.safe_perform_bind.mpr fun i a out' hexec => ?_
  have hold' := hold.step hc hexec
  refine ⟨hold'.resumable, ?_⟩
  cases a with
  | ok v => exact hok i v out' hexec hold'
  | error e => exact herr _ e out' hold' fun heq => FsOp.exec_ne hexec (heq ▸ rfl)

/-- A sparing system call at the end of a program. -/
theorem MarkedWith.safe_run (hold : MarkedWith facts out) {c : FsOp} (hc : c.Spares facts)
    {Q : FsHist → Except Error c.Val → Output → Prop}
    (hQ : ∀ h x out', MarkedWith facts out' → x ≠ .error notReconcilable → Q h x out') :
    c.run.Safe FsOp.exec Resumable Q h out := by
  refine Prog.safe_perform.mpr fun i a out' hexec => ?_
  have hold' := hold.step hc hexec
  exact ⟨hold'.resumable, hQ _ a out' hold' (FsOp.exec_ne hexec)⟩

/-- What was written is known. -/
theorem MarkedWith.written (hold : MarkedWith facts out) {name : Str} {c : Content}
    (hname : isReconcilable name = true) (hfacts : ∀ f ∈ facts, f.1 ≠ name)
    (hexec : (FsOp.write name c).exec i out = some (.ok (), out')) :
    MarkedWith ((name, c) :: facts) out' := by
  obtain ⟨d, rfl, -⟩ := id hold
  simp only [FsOp.exec, onEntries] at hexec
  split at hexec
  · rw [← (Prod.mk.inj (Option.some.inj hexec)).2]
    exact hold.insert hname hfacts
  · cases hexec

/-- What was created is empty. -/
theorem MarkedWith.created (hold : MarkedWith facts out) {name : Str}
    (hname : isReconcilable name = true) (hfacts : ∀ f ∈ facts, f.1 ≠ name)
    (hexec : (FsOp.create name).exec i out = some (.ok (), out')) :
    MarkedWith ((name, .unfinished) :: facts) out' := by
  obtain ⟨d, rfl, -⟩ := id hold
  simp only [FsOp.exec, onEntries] at hexec
  split_ifs at hexec
  · cases hexec
  · rw [← (Prod.mk.inj (Option.some.inj hexec)).2]
    exact hold.insert hname hfacts

/-- What is known is read. -/
theorem MarkedWith.read_eq (hold : MarkedWith facts out) {name : Str} {c c' : Content}
    (hc : (name, c) ∈ facts) (hexec : (FsOp.read name).exec i out = some (.ok c', out')) :
    c' = c := by
  obtain ⟨d, rfl, -, -, hfacts⟩ := id hold
  simp only [FsOp.exec, onEntries, hfacts _ hc] at hexec
  exact (Except.ok.inj (Prod.mk.inj (Option.some.inj hexec)).1).symm

/-! ### Transactions of SQLite -/

/-- A marked directory, beside which SQLite may keep a journal. -/
def Journaled (facts : List (Str × Content)) (out : Output) : Prop :=
  ∃ d d₀ : Entries, out = .directory d ∧ MarkedWith facts (.directory d₀) ∧
    ∀ name, name ≠ journalName → d.lookup name = d₀.lookup name

theorem MarkedWith.lookup_journal (hold : MarkedWith facts (.directory d)) :
    d.lookup journalName = none := by
  obtain ⟨d₀, hd, hmembers, -⟩ := hold
  obtain rfl := Output.directory.inj hd
  exact Finmap.lookup_eq_none.mpr fun hmem => absurd (hmembers _ hmem).1 (by decide)

/-- A transaction replaces the content of the database. -/
theorem MarkedWith.safe_transaction {β : Type} {c₀ c : Content} {rest : FsProg β}
    {Q : FsHist → Except Error β → Output → Prop}
    (hold : MarkedWith ((databaseName, c₀) :: facts) out)
    (hfacts : ∀ f ∈ facts, f.1 ≠ databaseName)
    (hrest : ∀ h out', MarkedWith ((databaseName, c) :: facts) out' →
      rest.Safe FsOp.exec Resumable Q h out') :
    (FsOp.beginWrite.run >>= fun _ => (FsOp.write databaseName c).run >>= fun _ =>
      FsOp.commitWrite.run >>= fun _ => rest).Safe FsOp.exec Resumable Q h out := by
  obtain ⟨d, rfl, -⟩ := id hold
  refine Prog.safe_perform_bind.mpr fun i a out₁ hbegin => ?_
  -- either a journal lies beside the database from here on, or nothing has changed
  obtain ⟨b, d₁, rfl, rfl, hrel, hb⟩ : ∃ b d₁, a = .ok b ∧ out₁ = .directory d₁ ∧
      (∀ name, name ≠ journalName → Finmap.lookup name d₁ = d.lookup name) ∧
      (b = true ∨ d₁ = d) := by
    simp only [FsOp.exec, onEntries] at hbegin
    split_ifs at hbegin
    · obtain ⟨rfl, rfl⟩ := Prod.mk.inj (Option.some.inj hbegin)
      exact ⟨true, _, rfl, rfl, fun name hne => Finmap.lookup_insert_of_ne _ hne, Or.inl rfl⟩
    · obtain ⟨rfl, rfl⟩ := Prod.mk.inj (Option.some.inj hbegin)
      exact ⟨false, _, rfl, rfl, fun _ _ => rfl, Or.inr rfl⟩
  refine ⟨?_, ?_⟩
  · rcases hb with rfl | rfl
    · exact Or.inl ⟨h, [], rfl, by simp⟩
    · exact hold.resumable
  refine Prog.safe_perform_bind.mpr fun i a out₂ hwrite => ?_
  obtain ⟨hknown, hne⟩ : d.lookup databaseName = some (.file c₀) ∧ databaseName ≠ journalName := by
    obtain ⟨d', hd', -, -, hknown⟩ := hold
    obtain rfl := Output.directory.inj hd'
    exact ⟨hknown _ List.mem_cons_self, by decide⟩
  simp only [FsOp.exec, onEntries, hrel _ hne, hknown] at hwrite
  obtain ⟨rfl, rfl⟩ := Prod.mk.inj (Option.some.inj hwrite)
  have hhold : MarkedWith ((databaseName, c) :: facts)
      (.directory (Finmap.insert databaseName (.file c) d)) :=
    (hold.weaken fun f hf => List.mem_cons_of_mem _ hf).insert (by decide) hfacts
  refine ⟨?_, ?_⟩
  · rcases hb with rfl | rfl
    · refine Or.inl ⟨h, [⟨.write databaseName c, .ok ()⟩], by simp, fun x hx => ?_⟩
      rw [List.mem_singleton.mp hx]
      exact FsOp.noConfusion
    · exact hhold.resumable
  refine Prog.safe_perform_bind.mpr fun i a out₃ hcommit => ?_
  simp only [FsOp.exec, onEntries] at hcommit
  obtain ⟨rfl, rfl⟩ := Prod.mk.inj (Option.some.inj hcommit)
  have hclosed : Finmap.erase journalName (Finmap.insert databaseName (.file c) d₁) =
      Finmap.insert databaseName (.file c) d := by
    refine Finmap.ext_lookup fun name => ?_
    by_cases hjournal : name = journalName
    · subst hjournal
      rw [Finmap.lookup_erase, hhold.lookup_journal]
    · rw [Finmap.lookup_erase_ne hjournal]
      by_cases hdatabase : name = databaseName
      · subst hdatabase
        rw [Finmap.lookup_insert, Finmap.lookup_insert]
      · rw [Finmap.lookup_insert_of_ne _ hdatabase, Finmap.lookup_insert_of_ne _ hdatabase,
          hrel _ hjournal]
  rw [hclosed]
  exact ⟨hhold.resumable, hrest _ _ hhold⟩

/-! ### The members of the backup -/

/-- The outcome of a part of the command: some contents are complete, or an exception was
raised in a marked directory. -/
def Leaves (facts : List (Str × Content)) (_ : FsHist) (x : Except Error Unit) (out : Output) :
    Prop :=
  match x with
  | .ok _ => MarkedWith facts out
  | .error e => MarkedWith [] out ∧ e ≠ notReconcilable

theorem MarkedWith.leaves_error {facts' : List (Str × Content)} {e : Error}
    (hold : MarkedWith facts out) (he : e ≠ notReconcilable) : Leaves facts' h (.error e) out :=
  ⟨hold.weaken fun _ hf => absurd hf List.not_mem_nil, he⟩

/-- **Deleting a member after an exception** leaves a marked directory as well. -/
theorem discard_safe {p : FsProg Unit} {name : Str}
    (hp : p.Safe FsOp.exec Resumable (Leaves facts) h out) (hname : name ≠ incompleteName) :
    (p.onRaise (FsOp.unlinkMissing name).run).Safe FsOp.exec Resumable (Leaves facts) h out := by
  refine Prog.Safe.onRaise (hp.mono (fun _ _ => id) fun h x out' hx => ?_)
  cases x with
  | ok _ => exact hx
  | error e =>
    have hmarked : MarkedWith [] out' := hx.1
    refine hmarked.safe_run (by exact ⟨hname, by simp⟩) fun h y out'' hold hy => ?_
    cases y with
    | ok _ => exact ⟨hold, hx.2⟩
    | error e' => exact ⟨hold, fun heq => hy (heq ▸ rfl)⟩

/-- The sealed copy is complete, or there is none. -/
theorem storeBackup_safe {ledger : Ledger} (hold : MarkedWith [] out) :
    (storeBackup ledger).Safe FsOp.exec Resumable
      (Leaves [(databaseName, .database (Store.backup ledger))]) h out := by
  rw [storeBackup]
  refine hold.safe_bind (by trivial) (fun i there out' hexec hold => ?_)
    fun _ _ _ h => h.leaves_error
  split_ifs
  · exact hold.leaves_error (by decide)
  · refine hold.safe_bind (by exact ⟨by decide, by simp⟩) (fun i v out' hexec' _ => ?_)
      fun _ _ _ h => h.leaves_error
    have hcreated := hold.created (by decide) (by simp) hexec'
    refine discard_safe (hcreated.safe_transaction (by simp) fun h out' hcopied => ?_) (by decide)
    refine hcopied.safe_transaction (by simp) fun h out' hsealed => ?_
    refine hsealed.safe_bind (by trivial) (fun _ _ _ _ hold => ?_) fun _ _ _ h => h.leaves_error
    refine hold.safe_bind (by trivial) (fun _ _ _ _ hold => ?_) fun _ _ _ h => h.leaves_error
    refine hold.safe_run (by trivial) fun h x out' hold hx => ?_
    cases x with
    | ok _ => exact hold
    | error e => exact hold.leaves_error fun heq => hx (heq ▸ rfl)

/-- A file that is written exclusively is complete, or is not kept. -/
theorem writeExclusive_safe {name : Str} {c : Content} (hold : MarkedWith facts out)
    (hname : isReconcilable name = true ∧ name ≠ incompleteName)
    (hfacts : ∀ f ∈ facts, f.1 ≠ name) :
    (writeExclusive name c).Safe FsOp.exec Resumable (Leaves ((name, c) :: facts)) h out := by
  rw [writeExclusive]
  refine hold.safe_bind (by exact ⟨hname.1, hfacts⟩) (fun i v out' hexec hold => ?_)
    fun _ _ _ h => h.leaves_error
  refine discard_safe ?_ hname.2
  refine hold.safe_bind (by exact ⟨hname.1, hfacts⟩) (fun i v out' hexec' _ => ?_)
    fun _ _ _ h => h.leaves_error
  have hwritten := hold.written hname.1 hfacts hexec'
  refine hwritten.safe_bind (by trivial) (fun _ _ _ _ hold => ?_) fun _ _ _ h => h.leaves_error
  refine hold.safe_bind (by trivial) (fun _ _ _ _ hold => ?_) fun _ _ _ h => h.leaves_error
  refine hold.safe_run (by trivial) fun h x out' hold hx => ?_
  cases x with
  | ok _ => exact hold
  | error e => exact hold.leaves_error fun heq => hx (heq ▸ rfl)

/-- Both members are complete, or an exception was raised. -/
theorem backupMembers_safe {ledger : Ledger} {k : KeyRing} (hold : MarkedWith [] out) :
    (backupMembers ledger k).Safe FsOp.exec Resumable
      (Leaves [(keyringName, .keyring k), (databaseName, .database (Store.backup ledger))])
      h out := by
  rw [backupMembers]
  refine hold.safe_bind (by trivial) (fun i there out' hexec hold => ?_)
    fun _ _ _ h => h.leaves_error
  split_ifs
  · exact hold.leaves_error (by decide)
  · refine Prog.Safe.bind ((storeBackup_safe hold).mono (fun _ _ => id) fun h x out' hx => ?_)
    cases x with
    | error e => exact hx
    | ok _ =>
      have hsealed : MarkedWith [(databaseName, .database (Store.backup ledger))] out' := hx
      have hother : ∀ f ∈ [(databaseName, Content.database (Store.backup ledger))],
          f.1 ≠ keyringName := by
        intro f hf
        rw [List.mem_singleton.mp hf]
        exact (by decide : databaseName ≠ keyringName)
      exact discard_safe (writeExclusive_safe hsealed (by decide) hother) (by decide)

/-! ### Atomic publication -/

/-- A directory of which something is known. -/
def Output.Has (P : Entries → Prop) (out : Output) : Prop := ∃ d, out = .directory d ∧ P d

/-- A temporary file can be written into and deleted from the directories of `P`. -/
def Entries.Ignores (P : Entries → Prop) (temporary : Str) : Prop :=
  (∀ d c, P d → P (Finmap.insert temporary (.file c) d)) ∧
    ∀ d, P d → P (Finmap.erase temporary d)

/-- The outcome of a publication: it succeeded, or it was interrupted before or after the link. -/
def Publishes (B D : Entries → Prop) (_ : FsHist) (x : Except Error Unit) (out : Output) : Prop :=
  match x with
  | .ok _ => out.Has D
  | .error e => (out.Has fun d => B d ∨ D d) ∧ e ≠ notReconcilable

/-- **Atomic publication**: before the link `B` holds of the directory, and from then on `D`. -/
theorem writeSecretJson_safe {name : Str} {c : Content} {B D : Entries → Prop}
    (hgood : ∀ d, B d ∨ D d → (Output.directory d).Good)
    (hB : ∀ token, Entries.Ignores B (temporaryName name token))
    (hD : ∀ token, Entries.Ignores D (temporaryName name token))
    (hlink : ∀ d, B d → D (Finmap.insert name (.file c) d)) (hd : B d) :
    (writeSecretJson name c).Safe FsOp.exec Resumable (Publishes B D) h (.directory d) := by
  have hresume : ∀ {h d}, B d ∨ D d → Resumable h (.directory d) := fun hd =>
    Or.inr (Or.inr (hgood _ hd))
  rw [writeSecretJson]
  refine Prog.safe_perform_bind.mpr fun i a out₁ hexec => ?_
  obtain ⟨rfl, rfl⟩ := Prod.mk.inj (Option.some.inj hexec)
  refine ⟨hresume (Or.inl hd), ?_⟩
  generalize i.token = token
  have hB := hB token
  have hD := hD token
  refine Prog.safe_perform_bind.mpr fun i a out₁ hexec => ?_
  simp only [FsOp.exec, onEntries] at hexec
  split_ifs at hexec
  · obtain ⟨rfl, rfl⟩ := Prod.mk.inj (Option.some.inj hexec)
    exact ⟨hresume (Or.inl hd), ⟨d, rfl, Or.inl hd⟩, by decide⟩
  obtain ⟨rfl, rfl⟩ := Prod.mk.inj (Option.some.inj hexec)
  have hcreated := hB.1 d .unfinished hd
  refine ⟨hresume (Or.inl hcreated), Prog.Safe.ensure ?_⟩
  -- whatever the block left is kept when the temporary file is deleted
  have hdiscard : ∀ (h : FsHist) (x : Except Error Unit) (d : Entries),
      (B d ∧ x ≠ .ok () ∨ D d) → x ≠ .error notReconcilable →
      (FsOp.unlinkMissing (temporaryName name token)).run.Safe FsOp.exec Resumable
        (Prog.Replaces (Publishes B D) x) h (.directory d) := by
    intro h x d hx hne
    have hbefore : B d ∨ D d := hx.imp_left And.left
    refine Prog.safe_perform.mpr fun i a out' hexec => ?_
    simp only [FsOp.exec, onEntries] at hexec
    split at hexec
    · obtain ⟨rfl, rfl⟩ := Prod.mk.inj (Option.some.inj hexec)
      exact ⟨hresume hbefore, ⟨d, rfl, hbefore⟩, by decide⟩
    · obtain ⟨rfl, rfl⟩ := Prod.mk.inj (Option.some.inj hexec)
      refine ⟨hresume (hbefore.imp (hB.2 d) (hD.2 d)), ?_⟩
      cases x with
      | ok _ => exact ⟨_, rfl, hD.2 d (hx.resolve_left fun hb => hb.2 rfl)⟩
      | error e =>
        exact ⟨⟨_, rfl, hbefore.imp (hB.2 d) (hD.2 d)⟩, fun heq => hne (heq ▸ rfl)⟩
  refine Prog.safe_perform_bind.mpr fun i a out₁ hexec => ?_
  simp only [FsOp.exec, onEntries, Finmap.lookup_insert, Finmap.insert_insert] at hexec
  obtain ⟨rfl, rfl⟩ := Prod.mk.inj (Option.some.inj hexec)
  have hwritten := hB.1 d c hd
  refine ⟨hresume (Or.inl hwritten), ?_⟩
  refine Prog.safe_perform_bind.mpr fun i a out₁ hexec => ?_
  obtain ⟨rfl, rfl⟩ := Prod.mk.inj (Option.some.inj hexec)
  refine ⟨hresume (Or.inl hwritten), ?_⟩
  refine Prog.safe_perform_bind.mpr fun i a out₁ hexec => ?_
  obtain ⟨rfl, rfl⟩ := Prod.mk.inj (Option.some.inj hexec)
  refine ⟨hresume (Or.inl hwritten), ?_⟩
  refine Prog.safe_perform_bind.mpr fun i a out₁ hexec => ?_
  simp only [FsOp.exec, onEntries, Finmap.lookup_insert] at hexec
  split_ifs at hexec
  · obtain ⟨rfl, rfl⟩ := Prod.mk.inj (Option.some.inj hexec)
    exact ⟨hresume (Or.inl hwritten), hdiscard _ (.error .fileExistsError) _
      (Or.inl ⟨hwritten, by simp⟩) (by decide)⟩
  obtain ⟨rfl, rfl⟩ := Prod.mk.inj (Option.some.inj hexec)
  have hlinked := hlink _ hwritten
  refine ⟨hresume (Or.inr hlinked), ?_⟩
  refine Prog.safe_perform.mpr fun i a out₁ hexec => ?_
  obtain ⟨rfl, rfl⟩ := Prod.mk.inj (Option.some.inj hexec)
  exact ⟨hresume (Or.inr hlinked), hdiscard _ (.ok ()) _ (Or.inr hlinked) (by simp)⟩

/-! ### Reconciliation of an unpublished directory -/

/-- The loop of the reconciliation has deleted the entries `a` of `d` and not yet `s`. -/
structure Reconciling (d : Entries) (a s : List Str) (h : FsHist) : Prop where
  listed : (⟨.iterdir, .ok (a ++ s)⟩ : Answered FsOp FsOp.Ans) ∈ h
  nodup : (a ++ s).Nodup
  mem_iff : ∀ name, name ∈ a ++ s ↔ name ∈ d
  deleted : ∀ name ∈ a, (⟨.unlink name, .ok ()⟩ : Answered FsOp FsOp.Ans) ∈ h
  remaining : ∀ name ∈ s, (⟨.unlink name, .ok ()⟩ : Answered FsOp FsOp.Ans) ∉ h

variable {a s : List Str}

theorem Reconciling.append (hrec : Reconciling d a s h) {c : FsOp} {x : c.Ans}
    (hc : ∀ name, c ≠ .unlink name) : Reconciling d a s (h ++ [⟨c, x⟩]) where
  listed := List.mem_append_left _ hrec.listed
  nodup := hrec.nodup
  mem_iff := hrec.mem_iff
  deleted name hname := List.mem_append_left _ (hrec.deleted name hname)
  remaining name hname hmem := by
    rcases List.mem_append.mp hmem with hmem | hmem
    · exact hrec.remaining name hname hmem
    · exact hc name (congrArg Sigma.fst (List.mem_singleton.mp hmem)).symm

theorem Reconciling.unlink {name : Str} (hrec : Reconciling d a (name :: s) h) :
    Reconciling d (a ++ [name]) s (h ++ [⟨.unlink name, .ok ()⟩]) := by
  have hlist : a ++ [name] ++ s = a ++ name :: s := by simp
  refine ⟨?_, hlist ▸ hrec.nodup, hlist ▸ hrec.mem_iff, fun n hn => ?_, fun n hn hmem => ?_⟩
  · rw [hlist]
    exact List.mem_append_left _ hrec.listed
  · rcases List.mem_append.mp hn with hn | hn
    · exact List.mem_append_left _ (hrec.deleted n hn)
    · rw [List.mem_singleton.mp hn]
      exact List.mem_append_right _ List.mem_cons_self
  · rcases List.mem_append.mp hmem with hmem | hmem
    · exact hrec.remaining n (List.mem_cons_of_mem _ hn) hmem
    · have hname : n = name := FsOp.unlink.inj (congrArg Sigma.fst (List.mem_singleton.mp hmem))
      have hnot : name ∉ s := (List.nodup_cons.mp (List.nodup_append.mp hrec.nodup).2.1).1
      exact hnot (hname ▸ hn)

theorem Entries.lookup_without {name : Str} {n : Node}
    (hlook : (d.without a).lookup name = some n) : name ∉ a ∧ d.lookup name = some n := by
  have hnot : name ∉ a := by
    intro hmem
    rw [Entries.lookup_without_of_mem hmem] at hlook
    cases hlook
  exact ⟨hnot, (Entries.lookup_without_of_notMem hnot).symm.trans hlook⟩

theorem Entries.Members.without (hmembers : d.Members) : (d.without a).Members := by
  induction a generalizing d with
  | nil => exact hmembers
  | cons name a ih => exact ih (hmembers.erase name)

/-- **Unless the marker went before a member**, what the loop has left can be reconciled. -/
theorem Reconciling.resumable (hrec : Reconciling d a s h) (hd : d.Unpublished) :
    Resumable h (.directory (d.without a)) := by
  have hleft : ∀ name ∈ d.without a, name ∈ s := by
    intro name hname
    obtain ⟨n, hn⟩ := Option.isSome_iff_exists.mp (Finmap.lookup_isSome.mpr hname)
    obtain ⟨hnot, hlook⟩ := Entries.lookup_without hn
    have hmem : name ∈ d := Finmap.lookup_isSome.mp (by rw [hlook]; rfl)
    exact (List.mem_append.mp ((hrec.mem_iff name).mpr hmem)).resolve_left hnot
  by_cases hmarker : incompleteName ∈ d.without a
  · exact Or.inr (Or.inr (Or.inl ⟨hd.1.without, Or.inl hmarker⟩))
  by_cases hmember : ∃ name ∈ s, name = databaseName ∨ name = keyringName
  · obtain ⟨name, hname, hkind⟩ := hmember
    rcases hd.2 with hthere | hpending
    · have hdeleted : incompleteName ∈ a := by
        by_contra hnot
        refine hmarker (Finmap.lookup_isSome.mp ?_)
        rw [Entries.lookup_without_of_notMem hnot]
        exact Finmap.lookup_isSome.mpr hthere
      exact Or.inr (Or.inl ⟨_, hrec.listed, hrec.deleted _ hdeleted, name,
        List.mem_append_right a hname, hkind, hrec.remaining name hname⟩)
    · have hmem : name ∈ d := (hrec.mem_iff name).mp (List.mem_append_right a hname)
      have hno := hpending name hmem
      rcases hkind with rfl | rfl
      · exact absurd hno (by decide)
      · exact absurd hno (by decide)
  · refine Or.inr (Or.inr (Or.inl ⟨hd.1.without, Or.inr fun name hname => ?_⟩))
    have hkinds := (hd.1.without (a := a) name hname).1
    have hmem := hleft name hname
    have hnot : name ≠ databaseName ∧ name ≠ keyringName := by
      constructor
      · exact fun heq => hmember ⟨name, hmem, Or.inl heq⟩
      · exact fun heq => hmember ⟨name, hmem, Or.inr heq⟩
    have hmark : name ≠ incompleteName := fun heq => hmarker (heq ▸ hname)
    simpa [isReconcilable, hnot.1, hnot.2, hmark] using hkinds

/-- The loop deletes every entry. -/
theorem removeEntries_safe (hd : d.Unpublished) : ∀ {s a : List Str} {h : FsHist},
    Reconciling d a s h →
    (removeEntries s).Safe FsOp.exec Resumable (fun h x out =>
      x = .ok () ∧ ∃ a, Reconciling d a [] h ∧ out = .directory (d.without a)) h
      (.directory (d.without a))
  | [], a, h, hrec => ⟨rfl, a, hrec, rfl⟩
  | name :: s, a, h, hrec => by
    have hname : name ∈ d := (hrec.mem_iff name).mp (by simp)
    obtain ⟨c, hc⟩ := (hd.1 name hname).2
    -- a listing names every entry once
    have hnot : name ∉ a := fun hmem =>
      (List.nodup_append.mp hrec.nodup).2.2 name hmem name List.mem_cons_self rfl
    have hlook : (d.without a).lookup name = some (.file c) :=
      (Entries.lookup_without_of_notMem hnot).trans hc
    rw [removeEntries]
    refine Prog.safe_perform_bind.mpr fun i x out' hexec => ?_
    simp only [FsOp.exec, onEntries, hlook] at hexec
    obtain ⟨rfl, rfl⟩ := Prod.mk.inj (Option.some.inj hexec)
    have hfile := hrec.append (c := .isFile name) (x := .ok true) (by simp)
    refine ⟨hfile.resumable hd, ?_⟩
    refine Prog.safe_perform_bind.mpr fun i x out' hexec => ?_
    simp only [FsOp.exec, onEntries, hlook] at hexec
    obtain ⟨rfl, rfl⟩ := Prod.mk.inj (Option.some.inj hexec)
    have hlink := hfile.append (c := .isSymlink name) (x := .ok false) (by simp)
    refine ⟨hlink.resumable hd, ?_⟩
    refine Prog.safe_perform_bind.mpr fun i x out' hexec => ?_
    simp only [FsOp.exec, onEntries, hlook] at hexec
    obtain ⟨rfl, rfl⟩ := Prod.mk.inj (Option.some.inj hexec)
    have hnext := hlink.unlink
    have hwithout : Finmap.erase name (d.without a) = d.without (a ++ [name]) := by
      rw [Entries.without, Entries.without, List.foldl_append]
      rfl
    rw [hwithout]
    exact ⟨hnext.resumable hd, removeEntries_safe hd hnext⟩

/-- Nothing was deleted. -/
def Untouched (h : FsHist) : Prop :=
  ∀ name, (⟨.unlink name, .ok ()⟩ : Answered FsOp FsOp.Ans) ∉ h

theorem Untouched.append {h : FsHist} (hh : Untouched h) {c : FsOp} {x : c.Ans}
    (hc : ∀ name, c ≠ .unlink name) : Untouched (h ++ [⟨c, x⟩]) := by
  intro name hmem
  rcases List.mem_append.mp hmem with hmem | hmem
  · exact hh name hmem
  · exact hc name (congrArg Sigma.fst (List.mem_singleton.mp hmem)).symm

/-- The outcome of a reconciliation. -/
def Reconciles (h : FsHist) (x : Except Error Unit) (out : Output) : Prop :=
  Resumable h out ∧ (x = .ok () → out = .absent) ∧ x ≠ .error notReconcilable

/-- **An existing directory** is refused or emptied. -/
theorem reconcile_safe (hd : (Output.directory d).Good) (hh : Untouched h) :
    reconcile.Safe FsOp.exec Resumable Reconciles h (.directory d) := by
  have hgood : ∀ {h : FsHist}, Resumable h (.directory d) := Or.inr (Or.inr hd)
  rw [reconcile]
  refine Prog.safe_perform_bind.mpr fun i x out' hexec => ⟨?_, ?_⟩
  · obtain ⟨-, rfl⟩ := Prod.mk.inj (Option.some.inj hexec)
    exact hgood
  obtain ⟨rfl, rfl⟩ := Prod.mk.inj (Option.some.inj hexec)
  have hh := hh.append (c := .isDir) (x := .ok true) (by simp)
  refine Prog.safe_perform_bind.mpr fun i x out' hexec => ?_
  obtain ⟨rfl, rfl⟩ := Prod.mk.inj (Option.some.inj hexec)
  refine ⟨hgood, ?_⟩
  have hh := hh.append (c := .isFile manifestName)
    (x := .ok ((d.lookup manifestName).any Node.isFile)) (by simp)
  dsimp only
  split_ifs with hmanifest
  · exact ⟨hgood, by simp, by decide⟩
  -- a published backup has its manifest
  have hun : d.Unpublished := by
    rcases hd with hun | ⟨ledger, k, -, -, hpub⟩
    · exact hun
    · rw [hpub] at hmanifest
      exact absurd rfl hmanifest
  refine Prog.safe_perform_bind.mpr fun i x out' hexec => ?_
  simp only [FsOp.exec] at hexec
  split_ifs at hexec with hlisted
  obtain ⟨rfl, rfl⟩ := Prod.mk.inj (Option.some.inj hexec)
  refine ⟨hgood, ?_⟩
  have hh := hh.append (c := .iterdir) (x := .ok i.listing) (by simp)
  refine Prog.safe_perform_bind.mpr fun j x out' hexec => ?_
  obtain ⟨rfl, rfl⟩ := Prod.mk.inj (Option.some.inj hexec)
  refine ⟨hgood, ?_⟩
  have hh := hh.append (c := .isFile incompleteName)
    (x := .ok ((d.lookup incompleteName).any Node.isFile)) (by simp)
  dsimp only
  split_ifs with hunmarked hunknown
  · obtain ⟨hnonempty, hmarker, hpending⟩ := hunmarked
    exfalso
    rcases hun.2 with hthere | hall
    · obtain ⟨c, hc⟩ := (hun.1 _ hthere).2
      simp [hc, Node.isFile] at hmarker
    · simp [hlisted.mem_iff] at hpending
      obtain ⟨name, hname, hno⟩ := hpending
      simp [hall name hname] at hno
  · obtain ⟨name, hname, hno⟩ := List.any_eq_true.mp hunknown
    simp [(hun.1 name (hlisted.mem_iff.mp hname)).1] at hno
  -- every entry is one of ours; they are removed one by one
  have hstart : Reconciling d [] i.listing _ := {
    listed := by simp
    nodup := hlisted.1
    mem_iff := fun name => hlisted.mem_iff
    deleted := by simp
    remaining := fun name _ => hh name }
  refine Prog.Safe.bind ((removeEntries_safe hun hstart).mono (fun _ _ => id) ?_)
  rintro h x out' ⟨rfl, a, hrec, rfl⟩
  refine Prog.safe_perform.mpr fun i x out' hexec => ?_
  have hrec := hrec.append (c := .rmdir) (x := x) (by simp)
  simp only [FsOp.exec, onEntries] at hexec
  split_ifs at hexec
  · obtain ⟨rfl, rfl⟩ := Prod.mk.inj (Option.some.inj hexec)
    exact ⟨Or.inr (Or.inr trivial), Or.inr (Or.inr trivial), fun _ => rfl, by simp⟩
  · obtain ⟨rfl, rfl⟩ := Prod.mk.inj (Option.some.inj hexec)
    exact ⟨hrec.resumable hun, hrec.resumable hun, by simp, by decide⟩

/-! ### The whole command -/

/-- The outcome of the preparation: a marked directory, or an exception. -/
def Prepares (h : FsHist) (x : Except Error Unit) (out : Output) : Prop :=
  Resumable h out ∧ (x = .ok () → MarkedWith [] out) ∧ x ≠ .error notReconcilable

/-- Regular files with temporary names. -/
def Entries.Temporary (d : Entries) : Prop := ∀ name ∈ d, isPending name = true ∧ d.Regular name

theorem isPending_temporaryName {name : Str} (hname : name = incompleteName ∨ name = manifestName)
    (token : Bytes) : isPending (temporaryName name token) = true := by
  have hprefix : (lit "." ++ name ++ lit ".") <+: temporaryName name token :=
    ⟨hexlify token ++ lit ".pending", by simp [temporaryName]⟩
  have hsuffix : lit ".pending" <:+ temporaryName name token :=
    ⟨lit "." ++ (name ++ (lit "." ++ hexlify token)), by simp [temporaryName]⟩
  rcases hname with rfl | rfl
  · simp only [isPending, List.isPrefixOf_iff_prefix.mpr hprefix,
      List.isSuffixOf_iff_suffix.mpr hsuffix, Bool.true_or, Bool.and_self]
  · simp only [isPending, List.isPrefixOf_iff_prefix.mpr hprefix,
      List.isSuffixOf_iff_suffix.mpr hsuffix, Bool.or_true, Bool.and_self]

theorem isReconcilable_of_isPending {name : Str} (h : isPending name = true) :
    isReconcilable name = true := by
  simp [isReconcilable, h]

theorem Entries.Temporary.members (hd : d.Temporary) : d.Members := fun name hname =>
  ⟨isReconcilable_of_isPending (hd name hname).1, (hd name hname).2⟩

theorem Entries.Temporary.ignores {temporary : Str} (htemp : isPending temporary = true) :
    Entries.Ignores Entries.Temporary temporary := by
  constructor
  · intro d c hd name hname
    have hmem := hd.members.insert (c := c) (isReconcilable_of_isPending htemp) name hname
    rcases Finmap.mem_insert.mp hname with rfl | hthere
    · exact ⟨htemp, hmem.2⟩
    · exact ⟨(hd name hthere).1, hmem.2⟩
  · intro d hd name hname
    have hmem := hd.members.erase temporary name hname
    exact ⟨(hd name (Finmap.mem_erase.mp hname).2).1, hmem.2⟩

/-- A marked directory of known files, of which some contents are known. -/
def Entries.Marked (facts : List (Str × Content)) (d : Entries) : Prop :=
  MarkedWith facts (.directory d)

theorem Entries.Marked.ignores {temporary : Str} (htemp : isPending temporary = true)
    (hfacts : ∀ f ∈ facts, isPending f.1 = false) :
    Entries.Ignores (Entries.Marked facts) temporary := by
  have hne : ∀ f ∈ facts, f.1 ≠ temporary := by
    intro f hf heq
    have hno := hfacts f hf
    rw [heq, htemp] at hno
    cases hno
  have hmark : temporary ≠ incompleteName := by
    rintro rfl
    exact absurd htemp (by decide)
  constructor
  · intro d c hd
    exact (MarkedWith.insert hd (isReconcilable_of_isPending htemp) hne).weaken
      fun f hf => List.mem_cons_of_mem _ hf
  · intro d hd
    exact MarkedWith.erase hd hmark hne

/-- The directory is created and marked. -/
theorem recreate_safe :
    (do
      FsOp.mkdir.run
      FsOp.sync.run
      Prog.onRaise (writeSecretJson incompleteName .marker) FsOp.rmdir.run).Safe
        FsOp.exec Resumable Prepares h .absent := by
  have hempty : Entries.Temporary ∅ := fun name hname => absurd hname (Finmap.notMem_empty)
  have htemp : ∀ {d : Entries}, d.Temporary → (Output.directory d).Good := fun hd =>
    Or.inl ⟨hd.members, Or.inr fun name hname => (hd name hname).1⟩
  refine Prog.safe_perform_bind.mpr fun i x out' hexec => ?_
  obtain ⟨rfl, rfl⟩ := Prod.mk.inj (Option.some.inj hexec)
  refine ⟨Or.inr (Or.inr (htemp hempty)), ?_⟩
  refine Prog.safe_perform_bind.mpr fun i x out' hexec => ?_
  obtain ⟨rfl, rfl⟩ := Prod.mk.inj (Option.some.inj hexec)
  refine ⟨Or.inr (Or.inr (htemp hempty)), ?_⟩
  have hgood : ∀ d, Entries.Temporary d ∨ Entries.Marked [] d → (Output.directory d).Good :=
    fun d hd => hd.elim htemp MarkedWith.good
  have hmark : ∀ d, Entries.Temporary d →
      Entries.Marked [] (Finmap.insert incompleteName (.file .marker) d) := fun d hd =>
    ⟨_, rfl, hd.members.insert (by decide), Finmap.mem_insert.mpr (Or.inl rfl), by simp⟩
  -- until the marker is linked there are only temporary files
  have hpublish := writeSecretJson_safe (h := h ++ [⟨.mkdir, .ok ()⟩] ++ [⟨.sync, .ok ()⟩]) hgood
    (fun token => Entries.Temporary.ignores (isPending_temporaryName (Or.inl rfl) token))
    (fun token => Entries.Marked.ignores (isPending_temporaryName (Or.inl rfl) token) (by simp))
    hmark hempty
  refine Prog.Safe.onRaise (hpublish.mono (fun _ _ => id) fun h x out hx => ?_)
  cases x with
  | ok _ =>
    obtain ⟨d, rfl, hd⟩ := hx
    exact ⟨MarkedWith.resumable hd, fun _ => hd, by simp⟩
  | error e =>
    obtain ⟨⟨d, rfl, hd⟩, he⟩ := hx
    have hraised : (Except.error e : Except Error Unit) ≠ .error notReconcilable := fun heq =>
      he (Except.error.inj heq)
    have hres : ∀ {h : FsHist}, Resumable h (.directory d) := Or.inr (Or.inr (hgood d hd))
    refine Prog.safe_perform.mpr fun i x out' hexec => ?_
    simp only [FsOp.exec, onEntries] at hexec
    split_ifs at hexec
    · obtain ⟨rfl, rfl⟩ := Prod.mk.inj (Option.some.inj hexec)
      exact ⟨Or.inr (Or.inr trivial), Or.inr (Or.inr trivial), by simp, hraised⟩
    · obtain ⟨rfl, rfl⟩ := Prod.mk.inj (Option.some.inj hexec)
      exact ⟨hres, hres, by simp, by decide⟩

/-- **The preparation** leaves a marked directory of known files. -/
theorem prepareBackupDirectory_safe (hout : out.Good) :
    prepareBackupDirectory.Safe FsOp.exec Resumable Prepares [] out := by
  rw [prepareBackupDirectory]
  refine Prog.safe_perform_bind.mpr fun i x out' hexec => ?_
  obtain ⟨rfl, rfl⟩ := Prod.mk.inj (Option.some.inj hexec)
  refine ⟨Or.inr (Or.inr hout), ?_⟩
  cases out with
  | absent => exact recreate_safe
  | other => exact hout.elim
  | directory d =>
    have hh : Untouched ([] ++ [⟨.pathExists, .ok true⟩]) := by
      intro name hmem
      exact absurd (congrArg Sigma.fst (List.mem_singleton.mp hmem)) (by simp)
    refine Prog.Safe.bind ((reconcile_safe hout hh).mono (fun _ _ => id) ?_)
    rintro h x out' ⟨hres, hok, hraised⟩
    cases x with
    | error e => exact ⟨hres, by simp, fun heq => hraised (congrArg _ (Except.error.inj heq))⟩
    | ok _ =>
      obtain rfl := hok rfl
      exact recreate_safe

/-- A published backup stays published while other files are written and deleted. -/
theorem Entries.Published.ignores {temporary : Str} (htemp : temporary ≠ databaseName ∧
    temporary ≠ keyringName ∧ temporary ≠ manifestName) :
    Entries.Ignores Entries.Published temporary := by
  constructor
  · rintro d c ⟨ledger, k, hdatabase, hkeyring, hmanifest⟩
    exact ⟨ledger, k, (Finmap.lookup_insert_of_ne _ htemp.1.symm).trans hdatabase,
      (Finmap.lookup_insert_of_ne _ htemp.2.1.symm).trans hkeyring,
      (Finmap.lookup_insert_of_ne _ htemp.2.2.symm).trans hmanifest⟩
  · rintro d ⟨ledger, k, hdatabase, hkeyring, hmanifest⟩
    exact ⟨ledger, k, (Finmap.lookup_erase_ne htemp.1.symm).trans hdatabase,
      (Finmap.lookup_erase_ne htemp.2.1.symm).trans hkeyring,
      (Finmap.lookup_erase_ne htemp.2.2.symm).trans hmanifest⟩

theorem Entries.Marked.publish {ledger : Ledger} {k : KeyRing}
    (hd : d.Marked [(keyringName, .keyring k), (databaseName, .database (Store.backup ledger))]) :
    Entries.Published (Finmap.insert manifestName
      (.file (.manifest (.database (Store.backup ledger)) (.keyring k))) d) := by
  obtain ⟨d₀, heq, -, -, hfacts⟩ := hd
  obtain rfl := Output.directory.inj heq
  have hdatabase : databaseName ≠ manifestName := by decide
  have hkeyring : keyringName ≠ manifestName := by decide
  have hsealed := hfacts (databaseName, .database (Store.backup ledger)) (by simp)
  have hkeys := hfacts (keyringName, .keyring k) (by simp)
  exact ⟨ledger, k, (Finmap.lookup_insert_of_ne _ hdatabase).trans hsealed,
    (Finmap.lookup_insert_of_ne _ hkeyring).trans hkeys, Finmap.lookup_insert _⟩

/-- The outcome of the command. -/
def Ends (h : FsHist) (x : Except Error Unit) (out : Output) : Prop :=
  Resumable h out ∧ x ≠ .error notReconcilable

theorem Ends.error {e : Error} (hres : Resumable h out) (he : e ≠ notReconcilable) :
    Ends h (.error e) out :=
  ⟨hres, fun heq => he (Except.error.inj heq)⟩

/-- **The command**: wherever it is cut off, the output directory is as `Resumable` says, and at
its end it has not answered that the directory cannot be reconciled. -/
theorem dbBackup_safe (ledger : Ledger) (k : KeyRing) (hout : out.Good) :
    (dbBackup ledger k).Safe FsOp.exec Resumable Ends [] out := by
  rw [dbBackup]
  refine Prog.Safe.bind ((prepareBackupDirectory_safe hout).mono (fun _ _ => id) ?_)
  rintro h x out ⟨hres, hok, hraised⟩
  cases x with
  | error e => exact ⟨hres, hraised⟩
  | ok _ =>
  refine Prog.Safe.bind ((backupMembers_safe (hok rfl)).mono (fun _ _ => id) fun h x out hx => ?_)
  cases x with
  | error e => exact Ends.error hx.1.resumable hx.2
  | ok _ =>
  -- the members are there, and the marker still is: a crash leaves the directory to be cleared
  have hold : MarkedWith [(keyringName, .keyring k),
    (databaseName, .database (Store.backup ledger))] out := hx
  refine hold.safe_bind (by trivial) (fun i v out' hexec hold => ?_)
    fun _ _ _ hold he => Ends.error hold.resumable he
  obtain rfl := MarkedWith.read_eq hx (c := .database (Store.backup ledger)) (by simp) hexec
  have hbefore := hold
  refine hold.safe_bind (by trivial) (fun i v out' hexec hold => ?_)
    fun _ _ _ hold he => Ends.error hold.resumable he
  obtain rfl := hbefore.read_eq (c := .keyring k) (by simp) hexec
  obtain ⟨d, rfl, -⟩ := id hold
  have hgood : ∀ d, Entries.Marked [(keyringName, .keyring k),
      (databaseName, .database (Store.backup ledger))] d ∨ Entries.Published d →
        (Output.directory d).Good :=
    fun d hd => hd.elim MarkedWith.good Or.inr
  have hother : ∀ token, temporaryName manifestName token ≠ databaseName ∧
      temporaryName manifestName token ≠ keyringName ∧
      temporaryName manifestName token ≠ manifestName := by
    intro token
    have htemp := isPending_temporaryName (Or.inr rfl) token
    refine ⟨?_, ?_, temporaryName_ne _ _⟩
    · exact fun heq => absurd (heq ▸ htemp) (by decide)
    · exact fun heq => absurd (heq ▸ htemp) (by decide)
  have hnames : ∀ f ∈ [(keyringName, Content.keyring k),
      (databaseName, .database (Store.backup ledger))], isPending f.1 = false := by
    intro f hf
    rcases List.mem_cons.mp hf with rfl | hf
    · exact (by decide : isPending keyringName = false)
    · rw [List.mem_singleton.mp hf]
      exact (by decide : isPending databaseName = false)
  -- the manifest publishes the backup: before it the directory is marked, after it complete
  refine Prog.Safe.bind ((writeSecretJson_safe hgood
    (fun token => Entries.Marked.ignores (isPending_temporaryName (Or.inr rfl) token) hnames)
    (fun token => Entries.Published.ignores (hother token)) (fun _ => Entries.Marked.publish)
    hold).mono (fun _ _ => id) fun h x out hx => ?_)
  cases x with
  | error e =>
    obtain ⟨⟨d, rfl, hd⟩, he⟩ := hx
    exact Ends.error (Or.inr (Or.inr (hgood d hd))) he
  | ok _ =>
  obtain ⟨d, rfl, hd⟩ := hx
  have hpub : ∀ {h : FsHist} {d : Entries}, d.Published → Resumable h (.directory d) :=
    fun hd => Or.inr (Or.inr (Or.inr hd))
  refine Prog.safe_perform_bind.mpr fun i x out' hexec => ?_
  obtain ⟨d', rfl, hd'⟩ : out'.Has Entries.Published := by
    simp only [FsOp.exec, onEntries] at hexec
    split at hexec
    · exact ⟨d, (Prod.mk.inj (Option.some.inj hexec)).2.symm, hd⟩
    · exact ⟨d, (Prod.mk.inj (Option.some.inj hexec)).2.symm, hd⟩
    · exact ⟨_, (Prod.mk.inj (Option.some.inj hexec)).2.symm,
        (Entries.Published.ignores (by decide)).2 d hd⟩
  refine ⟨hpub hd', ?_⟩
  cases x with
  | error e => exact Ends.error (hpub hd') fun heq => FsOp.exec_ne hexec (heq ▸ rfl)
  | ok _ =>
    refine Prog.safe_perform.mpr fun i x out' hexec => ?_
    obtain ⟨rfl, rfl⟩ := Prod.mk.inj (Option.some.inj hexec)
    exact ⟨hpub hd', hpub hd', by simp⟩

end Calls

end Onceproof

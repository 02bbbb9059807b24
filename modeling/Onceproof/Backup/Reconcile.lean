import Onceproof.Backup.Files

/-!
# Reconciliation of an output directory

What `_prepare_backup_directory` does with an existing directory, by the names and the types of
its entries and the order in which they are listed.
-/

namespace Onceproof

/-- The error of a refused reconciliation. -/
def notReconcilable : Error := .valueError "incomplete_backup_not_reconcilable"

/-- The error for an output that is no interrupted backup. -/
def outputExists : Error := .valueError "backup_output_exists"

namespace Entries

/-- An entry that is a regular file. -/
def Regular (d : Entries) (name : Str) : Prop := ∃ c, d.lookup name = some (.file c)

/-- The entries without some of them. -/
def without (d : Entries) (names : List Str) : Entries := names.foldl (fun d n => d.erase n) d

/-- The checks on names let a directory through: it holds no manifest, it is empty or marked or
holds only temporary files, and every name is known. -/
def NamesPass (d : Entries) : Prop :=
  ((d.lookup manifestName).any Node.isFile = false) ∧
    (d.keys = ∅ ∨ (d.lookup incompleteName).any Node.isFile = true ∨
      ∀ name ∈ d, isPending name = true) ∧
    ∀ name ∈ d, isReconcilable name = true

/-- The loop over the entries, in the order of the list, does not begin with a regular file
unless all entries are regular files. -/
def TypesFirst (d : Entries) (l : List Str) : Prop :=
  (∀ name ∈ d, d.Regular name) ∨ ∀ name, l.head? = some name → ¬ d.Regular name

theorem lookup_without_of_notMem {d : Entries} {names : List Str} {name : Str}
    (h : name ∉ names) : (d.without names).lookup name = d.lookup name := by
  induction names generalizing d with
  | nil => rfl
  | cons n names ih =>
    have hne : name ≠ n := fun heq => h (heq ▸ List.mem_cons_self)
    have hrest : name ∉ names := fun hmem => h (List.mem_cons_of_mem n hmem)
    exact (ih (d := d.erase n) hrest).trans (Finmap.lookup_erase_ne hne)

theorem lookup_without_of_mem {d : Entries} {names : List Str} {name : Str}
    (h : name ∈ names) : (d.without names).lookup name = none := by
  induction names generalizing d with
  | nil => simp at h
  | cons n names ih =>
    by_cases hmem : name ∈ names
    · exact ih (d := d.erase n) hmem
    · rcases List.mem_cons.mp h with rfl | h
      · exact (lookup_without_of_notMem (d := d.erase name) hmem).trans (Finmap.lookup_erase _ _)
      · exact absurd h hmem

theorem Listed.mem_iff {d : Entries} {l : List Str} (h : d.Listed l) {name : Str} :
    name ∈ l ↔ name ∈ d := by
  rw [← Finmap.mem_keys, ← h.2, List.mem_toFinset]

end Entries

variable {d : Entries} {i : FsChoice}

/-- The result of a step on a regular file and on anything else. -/
private theorem runWith_removeEntries_cons {name : Str} {names : List Str} (hname : name ∈ d) :
    (removeEntries (name :: names)).runWith FsOp.exec i (.directory d) =
        (removeEntries names).runWith FsOp.exec i (.directory (d.erase name)) ∧
      d.Regular name ∨
    (removeEntries (name :: names)).runWith FsOp.exec i (.directory d) =
        some (.error notReconcilable, .directory d) ∧ ¬ d.Regular name := by
  obtain ⟨node, hnode⟩ := Option.isSome_iff_exists.mp (Finmap.lookup_isSome.mpr hname)
  rw [removeEntries]
  cases node with
  | file c =>
    refine Or.inl ⟨?_, c, hnode⟩
    simp [Prog.runWith_perform_bind, FsOp.exec, onEntries, hnode, Node.isFile, Node.isSymlink]
  | directory =>
    refine Or.inr ⟨?_, ?_⟩
    · simp [Prog.runWith_perform_bind, FsOp.exec, onEntries, hnode, Node.isFile, Prog.runWith,
        notReconcilable]
    · rintro ⟨c, hc⟩
      rw [hnode] at hc
      cases hc
  | symlink toFile =>
    refine Or.inr ⟨?_, ?_⟩
    · cases toFile <;>
        simp [Prog.runWith_perform_bind, FsOp.exec, onEntries, hnode, Node.isFile,
          Node.isSymlink, Prog.runWith, notReconcilable]
    · rintro ⟨c, hc⟩
      rw [hnode] at hc
      cases hc

/-- **The loop** deletes regular files up to the first entry that is none. -/
theorem runWith_removeEntries : ∀ {l : List Str} {d : Entries}, l.Nodup → (∀ n ∈ l, n ∈ d) →
    ((∀ n ∈ l, d.Regular n) ∧ (removeEntries l).runWith FsOp.exec i (.directory d) =
        some (.ok (), .directory (d.without l))) ∨
      ∃ a x b, l = a ++ x :: b ∧ (∀ n ∈ a, d.Regular n) ∧ ¬ d.Regular x ∧
        (removeEntries l).runWith FsOp.exec i (.directory d) =
          some (.error notReconcilable, .directory (d.without a))
  | [], d, _, _ => Or.inl ⟨by simp, rfl⟩
  | name :: names, d, hnodup, hmem => by
    obtain ⟨hnot, hnodup⟩ := List.nodup_cons.mp hnodup
    have hsame : ∀ n ∈ names, (d.erase name).lookup n = d.lookup n := fun n hn =>
      Finmap.lookup_erase_ne fun heq => hnot (heq ▸ hn)
    have hrest : ∀ n ∈ names, n ∈ d.erase name := fun n hn =>
      Finmap.mem_erase.mpr ⟨fun heq => hnot (heq ▸ hn), hmem n (List.mem_cons_of_mem name hn)⟩
    have hregular : ∀ n ∈ names, Entries.Regular (d.erase name) n ↔ d.Regular n := fun n hn => by
      rw [Entries.Regular, Entries.Regular, hsame n hn]
    rcases @runWith_removeEntries_cons d i name names (hmem name List.mem_cons_self)
      with ⟨hrun, hname⟩ | ⟨hrun, hname⟩
    · rw [hrun]
      rcases runWith_removeEntries hnodup hrest with ⟨hall, hloop⟩ | ⟨a, x, b, rfl, ha, hx, hloop⟩
      · refine Or.inl ⟨List.forall_mem_cons.mpr ⟨hname, fun n hn => ?_⟩, hloop⟩
        exact (hregular n hn).mp (hall n hn)
      · refine Or.inr ⟨name :: a, x, b, rfl, List.forall_mem_cons.mpr ⟨hname, fun n hn => ?_⟩,
          fun hx' => hx ((hregular x (by simp)).mpr hx'), hloop⟩
        exact (hregular n (by simp [hn])).mp (ha n hn)
    · exact Or.inr ⟨[], name, names, rfl, by simp, hname, hrun⟩

/-- What the names let through is emptied; anything else is refused at once. -/
theorem runWith_reconcile (hl : d.Listed i.listing) :
    (d.NamesPass ∧ reconcile.runWith FsOp.exec i (.directory d) =
        (removeEntries i.listing >>= fun _ => FsOp.rmdir.run).runWith FsOp.exec i
          (.directory d)) ∨
      ¬ d.NamesPass ∧ ∃ e, (e = outputExists ∨ e = notReconcilable) ∧
        reconcile.runWith FsOp.exec i (.directory d) = some (.error e, .directory d) := by
  have hempty : i.listing = [] ↔ d.keys = ∅ := by
    rw [← hl.2, List.toFinset_eq_empty_iff]
  have hpending : i.listing.all isPending = true ↔ ∀ name ∈ d, isPending name = true := by
    simp only [List.all_eq_true, hl.mem_iff]
  have hnames : (i.listing.any fun name => !isReconcilable name) = false ↔
      ∀ name ∈ d, isReconcilable name = true := by
    simp [List.any_eq_false, hl.mem_iff]
  simp only [reconcile, Prog.runWith_perform_bind, FsOp.exec, onEntries, Bool.not_true,
    Bool.false_eq_true, if_false]
  by_cases hmanifest : (d.lookup manifestName).any Node.isFile = true
  · refine Or.inr ⟨fun h => ?_, outputExists, Or.inl rfl, ?_⟩
    · rw [h.1] at hmanifest
      cases hmanifest
    · rw [if_pos hmanifest]
      rfl
  · have hno : (d.lookup manifestName).any Node.isFile = false := by simpa using hmanifest
    by_cases hmarked : i.listing ≠ [] ∧ !(d.lookup incompleteName).any Node.isFile ∧
        !i.listing.all isPending
    · refine Or.inr ⟨fun h => ?_, notReconcilable, Or.inr rfl, ?_⟩
      · obtain ⟨hne, hmarker, hall⟩ := hmarked
        rcases h.2.1 with hnil | hfile | hpend
        · exact hne (hempty.mpr hnil)
        · rw [hfile] at hmarker
          cases hmarker
        · rw [hpending.mpr hpend] at hall
          cases hall
      · simp only [hno, Prog.runWith_perform_bind, FsOp.exec, onEntries, if_pos hl,
          Bool.false_eq_true, if_false, if_pos hmarked]
        rfl
    · have hsecond : d.keys = ∅ ∨ (d.lookup incompleteName).any Node.isFile = true ∨
          ∀ name ∈ d, isPending name = true := by
        rw [← hempty, ← hpending]
        by_contra hcon
        simp only [not_or, Bool.not_eq_true] at hcon
        exact hmarked ⟨hcon.1, by simp [hcon.2.1], by simp [hcon.2.2]⟩
      by_cases hunknown : (i.listing.any fun name => !isReconcilable name) = true
      · refine Or.inr ⟨fun h => ?_, notReconcilable, Or.inr rfl, ?_⟩
        · rw [hnames.mpr h.2.2] at hunknown
          cases hunknown
        · simp only [hno, Prog.runWith_perform_bind, FsOp.exec, onEntries, if_pos hl,
            Bool.false_eq_true, if_false, if_neg hmarked, if_pos hunknown]
          rfl
      · refine Or.inl ⟨⟨hno, hsecond, hnames.mp (by simpa using hunknown)⟩, ?_⟩
        simp only [hno, Prog.runWith_perform_bind, FsOp.exec, onEntries, if_pos hl,
          Bool.false_eq_true, if_false, if_neg hmarked, if_neg hunknown]

/-- The directory is created again, with a marker. -/
theorem runWith_recreate : ∃ out,
    (do
      FsOp.mkdir.run
      FsOp.sync.run
      Prog.onRaise (writeSecretJson incompleteName .marker) FsOp.rmdir.run).runWith
        FsOp.exec i .absent = some (.ok (), out) := by
  have hne := temporaryName_ne incompleteName i.token
  simp [FsOp.exec, writeSecretJson, Prog.onRaise, onEntries, Prog.runWith, Prog.ensure,
    Prog.perform, hne.symm, Finmap.notMem_empty, Finmap.mem_insert,
    Finmap.lookup_insert_of_ne _ hne]

/-- The call reconciles what is there and creates the directory again. -/
theorem runWith_prepareBackupDirectory :
    prepareBackupDirectory.runWith FsOp.exec i (.directory d) =
      (reconcile >>= fun _ => do
        FsOp.mkdir.run
        FsOp.sync.run
        Prog.onRaise (writeSecretJson incompleteName .marker) FsOp.rmdir.run).runWith
          FsOp.exec i (.directory d) := by
  simp [prepareBackupDirectory, Prog.runWith_perform_bind, FsOp.exec]

/-- Regular files with the right names are reconciled. -/
theorem prepare_of_regular (hl : d.Listed i.listing) (hpass : d.NamesPass)
    (hregular : ∀ name ∈ d, d.Regular name) : ∃ out,
      prepareBackupDirectory.runWith FsOp.exec i (.directory d) = some (.ok (), out) := by
  have hempty : Finmap.keys (d.without i.listing) = ∅ := by
    refine Finset.eq_empty_of_forall_notMem fun name hname => ?_
    rw [Finmap.mem_keys, ← Finmap.lookup_isSome] at hname
    by_cases hmem : name ∈ i.listing
    · rw [Entries.lookup_without_of_mem hmem] at hname
      cases hname
    · rw [Entries.lookup_without_of_notMem hmem] at hname
      exact hmem (hl.mem_iff.mpr (Finmap.lookup_isSome.mp hname))
  obtain ⟨out, hrecreate⟩ := runWith_recreate (i := i)
  have hrmdir : FsOp.rmdir.run.runWith FsOp.exec i (.directory (d.without i.listing)) =
      some (.ok (), .absent) := by
    simp [Prog.perform, Prog.runWith, FsOp.exec, onEntries, hempty]
  refine ⟨out, ?_⟩
  rw [runWith_prepareBackupDirectory, Prog.runWith_bind]
  rcases runWith_reconcile hl with ⟨-, hreconcile⟩ | ⟨hno, -⟩
  · rw [hreconcile, Prog.runWith_bind]
    rcases runWith_removeEntries (i := i) hl.1 (fun n hn => hl.mem_iff.mp hn) with
      ⟨-, hloop⟩ | ⟨a, x, b, hlist, -, hx, -⟩
    · rw [hloop]
      simp only [hrmdir, hrecreate]
    · exact absurd (hregular x (hl.mem_iff.mp (by rw [hlist]; simp))) hx
  · exact absurd hpass hno

end Onceproof

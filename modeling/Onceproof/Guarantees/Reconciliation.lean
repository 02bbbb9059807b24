import Onceproof.Backup.Reconcile

/-!
# What a refused reconciliation leaves

`onceproof db backup` reconciles an output directory that an interrupted backup left. The names
of the entries are checked before anything is deleted, their types only as they are deleted.
`refused_reconciliation_iff` says for which directories and which orders a refusal deletes
nothing.
-/

namespace Onceproof

variable {d : Entries} {i : FsChoice}

/-- What a call of `_prepare_backup_directory` deletes from an existing directory is harmless:
a refusal deletes nothing, and where the directory is created again, it held nothing but regular
files with known names and no manifest. -/
structure Harmless (d : Entries) (x : Except Error Unit) (out : Output) : Prop where
  refused : x = .error outputExists ∨ x = .error notReconcilable →
    ∃ d' : Entries, out = .directory d' ∧ ∀ name ∈ d, d'.lookup name = d.lookup name
  recreated : x = .ok () → manifestName ∉ d ∧
    ∀ name ∈ d, isReconcilable name = true ∧ d.Regular name

/-- **Refused reconciliation.** The call is harmless if and only if the names are refused, or
the first listed entry is no regular file, or all entries are regular files. -/
theorem refused_reconciliation_iff (hl : d.Listed i.listing) :
    ∃ x out, prepareBackupDirectory.runWith FsOp.exec i (.directory d) = some (x, out) ∧
      (Harmless d x out ↔ (d.NamesPass → d.TypesFirst i.listing)) := by
  rcases runWith_reconcile hl with ⟨hpass, hreconcile⟩ | ⟨hpass, e, he, hreconcile⟩
  · rcases runWith_removeEntries (i := i) hl.1 (fun n hn => hl.mem_iff.mp hn) with
      ⟨hall, -⟩ | ⟨a, x, b, hlist, ha, hx, hloop⟩
    · -- everything is deleted
      have hregular : ∀ name ∈ d, d.Regular name := fun name hname =>
        hall name (hl.mem_iff.mpr hname)
      obtain ⟨out, hrun⟩ := prepare_of_regular hl hpass hregular
      refine ⟨.ok (), out, hrun, fun _ _ => Or.inl hregular, fun _ => ⟨by simp, fun _ => ⟨?_, ?_⟩⟩⟩
      · exact fun hmanifest => absurd (hpass.2.2 _ hmanifest) (by decide)
      · exact fun name hname => ⟨hpass.2.2 name hname, hregular name hname⟩
    · refine ⟨.error notReconcilable, .directory (d.without a), ?_, ?_⟩
      · rw [runWith_prepareBackupDirectory, Prog.runWith_bind, hreconcile, Prog.runWith_bind, hloop]
      · cases a with
        | nil =>
          refine ⟨fun _ _ => Or.inr fun name hname => ?_,
            fun _ => ⟨fun _ => ⟨d, rfl, fun _ _ => rfl⟩, by simp⟩⟩
          rw [hlist] at hname
          exact Option.some.inj hname ▸ hx
        | cons n a =>
          have hn : n ∈ d := hl.mem_iff.mp (by rw [hlist]; simp)
          have hmem : x ∈ d := hl.mem_iff.mp (by rw [hlist]; simp)
          have hregular : d.Regular n := ha n List.mem_cons_self
          constructor
          · intro hharmless
            obtain ⟨d', hd', hsame⟩ := hharmless.refused (Or.inr rfl)
            obtain rfl := Output.directory.inj hd'
            obtain ⟨c, hc⟩ := hregular
            have hgone := hsame n hn
            rw [Entries.lookup_without_of_mem List.mem_cons_self, hc] at hgone
            cases hgone
          · intro hordered
            rcases hordered hpass with hall | hhead
            · exact absurd (hall x hmem) hx
            · exact absurd hregular (hhead n (by rw [hlist]; rfl))
  · refine ⟨.error e, .directory d, ?_, fun _ h => absurd h hpass, fun _ => ?_⟩
    · rw [runWith_prepareBackupDirectory, Prog.runWith_bind, hreconcile]
    · exact ⟨fun _ => ⟨d, rfl, fun _ _ => rfl⟩, by simp⟩

namespace Scenario

/-- A marked directory whose database is a directory. -/
def mixedEntries : Entries :=
  Finmap.insert incompleteName (.file .marker) (Finmap.singleton databaseName .directory)

/-- The marker is listed first. -/
def markerFirst : FsChoice := ⟨[incompleteName, databaseName], [], false⟩

/-- The database is listed first. -/
def databaseFirst : FsChoice := ⟨[databaseName, incompleteName], [], false⟩

end Scenario

/-- Nothing is deleted if the directory among the entries is listed first. -/
theorem refused_reconciliation_databaseFirst :
    ∃ x out, prepareBackupDirectory.runWith FsOp.exec Scenario.databaseFirst
      (.directory Scenario.mixedEntries) = some (x, out) ∧
        Harmless Scenario.mixedEntries x out := by
  obtain ⟨x, out, hrun, hiff⟩ := refused_reconciliation_iff (d := Scenario.mixedEntries)
    (i := Scenario.databaseFirst) (by decide)
  refine ⟨x, out, hrun, hiff.mpr fun _ => Or.inr fun name hname => ?_⟩
  obtain rfl := Option.some.inj hname
  rintro ⟨c, hc⟩
  have hlookup : Scenario.mixedEntries.lookup databaseName = some .directory := by
    unfold Scenario.mixedEntries
    rw [Finmap.lookup_insert_of_ne _ (by decide)]
    exact Finmap.lookup_singleton_eq
  rw [hlookup] at hc
  cases hc

/-- The marker is deleted before the directory among the entries is refused. -/
theorem reconciliation_counterexample :
    ∃ x out, prepareBackupDirectory.runWith FsOp.exec Scenario.markerFirst
      (.directory Scenario.mixedEntries) = some (x, out) ∧
        x = .error notReconcilable ∧ ∃ d', out = .directory d' ∧
          incompleteName ∈ Scenario.mixedEntries ∧ incompleteName ∉ d' :=
  ⟨_, _, rfl, rfl, _, rfl, by decide, by decide⟩

end Onceproof

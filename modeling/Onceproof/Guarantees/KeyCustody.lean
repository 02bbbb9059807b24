import Onceproof.Ledger.Lineage
import Onceproof.Scenario

/-!
# No orphaned hash key

Every key id stored with a credential or a proof names a key of the keyring on disk, and it is
the key that the ledger recorded for the id, in every state of every run of an instance,
restored or not: while a server issues and verifies, and while commands create and rotate
credentials, clean up, and rotate and retire keys. The database and the keyring that a completed
backup writes fit each other in the same way.
-/

namespace Onceproof

variable {H : HashLib} {w : World} {τ : List SystemTrans} {s : SystemState}
variable {runs : List (List SystemTrans)}

/-- A backup was completed in a run. -/
def BackupCompleted (τ : List SystemTrans) (database : Ledger) (keyring : KeyRing) : Prop :=
  ∃ t ∈ τ, ∃ tid p r, t.label = .ret tid p r (.ok (.backup database keyring))

/-- What a completed backup has written fits together. -/
theorem SystemRunFrom.backup_covered (h : SystemRunFrom H w τ s) (h₀ : Custody H (.start w))
    {database : Ledger} {keyring : KeyRing} (hbackup : BackupCompleted τ database keyring) :
    database.Covered H keyring := by
  obtain ⟨t, ht, tid, p, r, hl⟩ := hbackup
  obtain ⟨τ₁, τ₂, rfl⟩ := List.append_of_mem ht
  obtain ⟨-, hreturns⟩ := Machine.ret_spec (M := system H) (Φ := Rules H)
    (Ψ := fun _ => ReturnsBackup) program_allowed h hl
  have hmem : (database, keyring) ∈ (known (acted tid τ₁)).backups := hreturns _ _ rfl
  obtain ⟨h₁, hstep, -⟩ := h.cut
  -- the thread that returns is still there, with what it did as its history
  rcases hstep.of_thread? (by rw [hl]; rfl) with ⟨hcall, -⟩ | ⟨th, hth, -, -⟩
  · rw [hl] at hcall
    cases hcall
  · have hcustody : Custody H t.src := h₁.custody h₀
    have hhist : th.hist = acted tid τ₁ := ((Machine.coherent h₁).running tid th hth).2.1
    exact (hcustody.sound tid th hth).backups (database, keyring) (hhist ▸ hmem)

/-- Every completed backup of a lineage fits together. -/
theorem Lineage.backup_covered (h : Lineage H runs s) (hτ : τ ∈ runs) {database : Ledger}
    {keyring : KeyRing} (hbackup : BackupCompleted τ database keyring) :
    database.Covered H keyring := by
  induction h with
  | created run =>
    obtain rfl := List.mem_singleton.mp hτ
    obtain ⟨kidBytes, key, hrun⟩ := run
    exact hrun.backup_covered
      (.idle (Ledger.covered_empty _) (Ledger.keyed_empty _) fun _ => rfl) hbackup
  | restored backedUp run ih =>
    rcases List.mem_append.mp hτ with hτ | hτ
    · exact ih hτ
    · obtain rfl := List.mem_singleton.mp hτ
      have hcustody := backedUp.custody
      exact run.backup_covered (.restored hcustody.covered hcustody.keyed) hbackup

/-- **No orphaned hash key.** -/
theorem no_orphaned_hash_key (h : Lineage H runs s) :
    s.world.ledger.Covered H s.world.keyring ∧
      ∀ τ ∈ runs, ∀ database keyring, BackupCompleted τ database keyring →
        database.Covered H keyring :=
  ⟨h.custody.covered, fun _ hτ _ _ hbackup => h.backup_covered hτ hbackup⟩

/-- The key is rotated after a proof was issued and the old key cannot be retired while the
proof lives; then a backup is taken. -/
theorem no_orphaned_hash_key_served : ∃ τ s, SystemRun plainHash τ s ∧
    s.world.keyring.keys.keys.card = 2 ∧ s.world.ledger.proofs.rows.length = 1 ∧
    s.world.ledger.Covered plainHash s.world.keyring ∧
      ∀ database keyring, BackupCompleted τ database keyring →
        database.Covered plainHash keyring := by
  obtain ⟨τ, s, hrun, hkeys, hproofs⟩ := exists_systemRun
    (Scenario.served ++
      Scenario.thread 0 2 10 (.api (.issueProof (Scenario.issueRequest 25))) 1001 40 ++
      Scenario.thread 0 3 10 (.api .rotateKey) 1002 60 ++
      Scenario.thread 0 4 9 (.api (.retireHashKey Scenario.kid)) 1003 80 ++
      Scenario.thread 1 5 10 (.command .dbBackup) 1004 100)
    (fun _ s => s.world.keyring.keys.keys.card = 2 ∧ s.world.ledger.proofs.rows.length = 1)
    (by decide +kernel)
  obtain ⟨hcovered, hbackups⟩ := no_orphaned_hash_key (.created hrun)
  exact ⟨τ, s, hrun, hkeys, hproofs, hcovered, hbackups τ (List.mem_singleton_self τ)⟩

end Onceproof

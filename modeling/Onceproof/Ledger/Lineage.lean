import Onceproof.Ledger.Provenance
import Onceproof.Keys.Custody

/-!
# Instances and their restored copies

The ledger of an instance may descend from that of another one: a backup is a sealed copy of a
ledger, and an instance may be started over it. A `Lineage` is a run of an instance together
with the runs of the instances that it was restored from, each up to the backup.
`Lineage.history` is the induction rule over what happens to such a ledger: it is sealed by a
backup, or a commit changes it. `Lineage.ledger_kept` adds what the committing request did
before. The custody of the hash keys passes from a ledger to its copies (`Lineage.custody`).
-/

namespace Onceproof

/-- An instance over the files of a backup, in which nothing runs yet. -/
def World.restored (ledger : Ledger) (keyring : KeyRing) : World where
  ledger := Store.backup ledger
  keyring := keyring
  locks := fun _ => none
  procs := fun _ => none

/-- The runs that led to a state: one of a new instance, or those up to a backup and one of the
instance that was restored from it. -/
inductive Lineage (H : HashLib) : List (List SystemTrans) → SystemState → Prop
  | created {τ : List SystemTrans} {s : SystemState} (run : SystemRun H τ s) : Lineage H [τ] s
  | restored {runs : List (List SystemTrans)} {τ : List SystemTrans} {s s' : SystemState}
      (backedUp : Lineage H runs s)
      (run : SystemRunFrom H (.restored s.world.ledger s.world.keyring) τ s') :
      Lineage H (runs ++ [τ]) s'

/-- The commits of a lineage. -/
def lineageCommits (runs : List (List SystemTrans)) : List (Trans Ledger Commit) :=
  runs.flatMap commits

/-- What the service guarantees about a commit. -/
structure Commit.Proper (l : Commit) : Prop where
  wellFormed : l.call.WellFormed
  timely : ∀ record check, l.call = .issueProof record check →
    record.expiresAt - record.issuedAt ≤ maxTtlSeconds

variable {H : HashLib} {cs : List (Trans Ledger Commit)} {s : SystemState}
variable {runs : List (List SystemTrans)}

theorem commit_proper {w : World} {τ : List SystemTrans} (h : SystemRunFrom H w τ s)
    {t : Trans Ledger Commit} (ht : t ∈ commits τ) : t.label.Proper :=
  ⟨commit_wellFormed h ht, fun _ _ => commit_timely h ht⟩

/-- A property of the commits so far and the ledger, over one run of the ledger. -/
private theorem history_of_run {P : List (Trans Ledger Commit) → Ledger → Prop}
    (hstep : ∀ {cs db l db'}, P cs db → LedgerStep db l db' → l.Proper →
      P (cs ++ [⟨db, l, db'⟩]) db')
    {db db' : Ledger} {ds : List (Trans Ledger Commit)} (h : Run LedgerStep db ds db')
    (hproper : ∀ t ∈ ds, t.label.Proper) (h0 : P cs db) : P (cs ++ ds) db' := by
  induction h with
  | nil => rwa [List.append_nil]
  | snoc _ hs ih =>
    rw [← List.append_assoc]
    refine hstep (ih fun t ht => hproper t (List.mem_append_left _ ht)) hs ?_
    exact hproper _ (List.mem_append_right _ List.mem_cons_self)

/-- **The history of a ledger**: what holds of the empty ledger and is kept by backups and by
the commits of the service holds of the ledger of an instance, restored or not. -/
theorem Lineage.history {P : List (Trans Ledger Commit) → Ledger → Prop} (h0 : P [] .empty)
    (hseal : ∀ {cs db}, P cs db → P cs (Store.backup db))
    (hstep : ∀ {cs db l db'}, P cs db → LedgerStep db l db' → l.Proper →
      P (cs ++ [⟨db, l, db'⟩]) db')
    (h : Lineage H runs s) : P (lineageCommits runs) s.world.ledger := by
  induction h with
  | @created τ s run =>
    obtain ⟨kidBytes, key, hrun⟩ := run
    have hP : P ([] ++ commits τ) s.world.ledger := history_of_run hstep
      (SystemRun.ledger ⟨kidBytes, key, hrun⟩) (fun _ => commit_proper hrun) h0
    simpa [lineageCommits] using hP
  | @restored runs τ s s' _ run ih =>
    have hP := history_of_run hstep (ledgerRun run) (fun _ => commit_proper run) (hseal ih)
    simpa [lineageCommits] using hP

/-- What every commit of one run keeps, given what the request that committed it did before. -/
theorem SystemRunFrom.ledger_kept {w : World} {τ : List SystemTrans} {I : Ledger → Prop}
    (h : SystemRunFrom H w τ s)
    (hstep : ∀ {τ₁ u τ₂ tid p r call i reply}, τ = τ₁ ++ u :: τ₂ →
      u.label = .act tid p r (.store call) i (.ok reply) →
      RequestCommand H r (acted tid τ₁) (.store call) →
      LedgerStep u.src.world.ledger ⟨call, i.chance, reply⟩ u.dst.world.ledger →
      I u.src.world.ledger → I u.dst.world.ledger)
    (h0 : I w.ledger) : I s.world.ledger := by
  refine Run.kept (I := fun s => I s.world.ledger) h (fun u hu hI hs => ?_) h0
  obtain ⟨τ₁, τ₂, hcut⟩ := List.append_of_mem hu
  rcases system_ledger hs with ⟨⟨call, x, reply⟩, hcm, hcommit⟩ | ⟨-, hsame⟩
  · obtain ⟨tid, p, r, i, hl, rfl⟩ := commit?_eq_some hcm
    have hcommand := (Machine.act_spec (M := system H) (Φ := RequestCommand H)
      (Ψ := fun r h x => Returned H r h x ∧ ReturnsCredentials H r h x) program_commands
      (hcut ▸ h) hl).2
    exact hstep hcut hl hcommand hcommit hI
  · exact hsame ▸ hI

/-- **The commands of a lineage**: what holds of the empty ledger and is kept by backups and by
every commit, given what the request that committed it did before, holds of the ledger. -/
theorem Lineage.ledger_kept {I : Ledger → Prop} (h : Lineage H runs s) (h0 : I .empty)
    (hseal : ∀ {db}, I db → I (Store.backup db))
    (hstep : ∀ {τ₁ u τ₂ tid p r call i reply}, τ₁ ++ u :: τ₂ ∈ runs →
      u.label = .act tid p r (.store call) i (.ok reply) →
      RequestCommand H r (acted tid τ₁) (.store call) →
      LedgerStep u.src.world.ledger ⟨call, i.chance, reply⟩ u.dst.world.ledger →
      I u.src.world.ledger → I u.dst.world.ledger) : I s.world.ledger := by
  induction h with
  | created run =>
    obtain ⟨kidBytes, key, hrun⟩ := run
    refine hrun.ledger_kept (fun hcut => ?_) h0
    exact hstep (List.mem_singleton.mpr hcut.symm)
  | restored _ run ih =>
    have hbackedUp := ih fun hmem => hstep (List.mem_append_left _ hmem)
    refine run.ledger_kept (fun hcut => ?_) (hseal hbackedUp)
    exact hstep (List.mem_append_right _ (List.mem_singleton.mpr hcut.symm))

/-! ### Sealed copies -/

/-- A backup seals the copy. -/
theorem Store.restoreRequired_backup (db : Ledger) : (Store.backup db).restoreRequired = true := by
  simp [Store.backup, Ledger.restoreRequired, Ledger.maintenanceValue_upsert]

theorem Store.backup_eq (db : Ledger) :
    Store.backup db = { db with maintenance := (Store.backup db).maintenance } :=
  db.upsertMaintenance_eq _ _

@[simp] theorem Store.backup_proofs (db : Ledger) : (Store.backup db).proofs = db.proofs := by
  rw [Store.backup_eq]

@[simp] theorem Store.backup_verifications (db : Ledger) :
    (Store.backup db).verifications = db.verifications := by
  rw [Store.backup_eq]

@[simp] theorem Store.backup_auditEvents (db : Ledger) :
    (Store.backup db).auditEvents = db.auditEvents := by
  rw [Store.backup_eq]

@[simp] theorem Store.backup_clients (db : Ledger) : (Store.backup db).clients = db.clients := by
  rw [Store.backup_eq]

@[simp] theorem Store.backup_credentials (db : Ledger) :
    (Store.backup db).credentials = db.credentials := by
  rw [Store.backup_eq]

@[simp] theorem Store.backup_rateEvents (db : Ledger) :
    (Store.backup db).rateEvents = db.rateEvents := by
  rw [Store.backup_eq]

@[simp] theorem Store.backup_hashKeys (db : Ledger) :
    (Store.backup db).hashKeys = db.hashKeys := by
  rw [Store.backup_eq]

/-! ### Custody -/

/-- A restored instance starts with the custody of its keys. -/
theorem Custody.restored {db : Ledger} {k : KeyRing} (hcovered : db.Covered H k)
    (hkeyed : db.Keyed H k) : Custody H (.start (.restored db k)) := by
  have hcovers : ∀ kid, db.Covers H k kid → (Store.backup db).Covers H k kid := by
    rintro kid ⟨key, check, hkey, hcheck, hrow⟩
    exact ⟨key, check, hkey, hcheck, by rwa [Store.backup_hashKeys]⟩
  refine .idle ⟨fun c hc => ?_, fun r hr => ?_⟩ ⟨fun c hc => ?_, fun r hr => ?_⟩ fun _ => rfl
  · exact hcovers _ (hcovered.credentials c (Store.backup_credentials db ▸ hc))
  · exact hcovers _ (hcovered.proofs r (Store.backup_proofs db ▸ hr))
  · exact hkeyed.credentials c (Store.backup_credentials db ▸ hc)
  · exact hkeyed.proofs r (Store.backup_proofs db ▸ hr)

/-- **Custody holds in every state of a lineage.** -/
theorem Lineage.custody (h : Lineage H runs s) : Custody H s := by
  induction h with
  | created run => exact run.custody
  | restored _ run ih => exact run.custody (.restored ih.covered ih.keyed)

end Onceproof

import Onceproof.Ledger.Cleaning
import Onceproof.Scenario
import Onceproof.Keys.Indifference
import Onceproof.Service.Evaluation
import Mathlib.Data.Finset.Order

/-!
# Retiring a hash key

A key can be retired exactly if no row names it, and the rows that name it are left to the
cleanups. A cleanup drops a proof an hour after its expiry, and a credential that has ended once
none of its proofs is left, whatever key those proofs are under. So a key that is not current is
never stuck: as soon as the current credentials are under other keys, there is a time from which
a cleanup makes it retirable (`retirement_exact`).

Nobody notices a retirement. Whatever is requested afterwards, in any order of steps, has the
outcome that it would have had with the key still there (`retired_unnoticed`).
-/

namespace Onceproof

variable {H : HashLib} {runs : List (List SystemTrans)} {s : SystemState} {w : World} {k : KeyRing}
variable {p tid n : ℕ} {o : Outside} {db : Ledger} {kid : Str} {now : ℤ}

/-- Nothing is interrupted, and no replacement of the keyring file is reported as uncertain. -/
structure Outside.Steady (o : Outside) : Prop extends Outside.Quiet o where
  replaced : ∀ k, (o.issued (.replaceKeyring k)).late = false

/-- A process at rest: its keyring is the one on disk, and no thread is about to change either. -/
structure World.AtRest (w : World) (p : ℕ) (k : KeyRing) : Prop where
  disk : w.keyring = k
  memory : w.memoryOf p = some k
  keyLock : w.locks (LockName.keyLock.of p) = none
  keyringFile : w.locks .keyringFile = none

/-- The world after a process has replaced the keyring and taken the new generation over. -/
def World.rekeyed (w : World) (p : ℕ) (k : KeyRing) : World :=
  { w with keyring := k }.setProc p fun q => { q with memory := some k }

/-- What becomes of the keyring when a key is retired. -/
def KeyRing.retirement (k : KeyRing) (db : Ledger) (kid : Str) : Except Error KeyRing :=
  if h : kid = k.currentKid then .error (.valueError "cannot_retire_current_key")
  else if (k.keyFor kid).isNone then .error (.keyError kid)
  else if kid ∈ db.referenced then .error (.valueError "key_still_in_use")
  else .ok (k.retired kid h)

/-! ### The programs -/

/-- A file lock around a program, with the file as it is in memory. -/
theorem eval_stable {α : Type} {prog : HostProg α} (ho : o.Quiet) (hdisk : w.keyring = k)
    (hmemory : (w.procs p).bind Proc.memory = some k) (hfree : w.locks .keyringFile = none) :
    HostProg.eval (KeyRing.stable prog) p tid o (w, n) =
      (prog.eval p tid o (w.setLock .keyringFile (some (p, tid)), n)).map fun y =>
        (y.1, y.2.1.setLock .keyringFile none, y.2.2) := by
  have hmemory' : ((w.setLock .keyringFile (some (p, tid))).procs p).bind Proc.memory = some k :=
    hmemory
  have hdisk' : (w.setLock .keyringFile (some (p, tid))).keyring = k := hdisk
  rw [KeyRing.stable, eval_withLock ho hfree, LockName.of, eval_readKeyring ho,
    eval_memory hmemory', hdisk', if_neg (not_not.mpr rfl)]

/-- The replacement of the keyring file. -/
theorem eval_replaceAndReload (ho : o.Steady) :
    HostProg.eval (KeyRing.replaceAndReload k) p tid o (w, n) =
      some (.ok (), w.rekeyed p k, n) := by
  have hreplaced : (Op.replaceKeyring k).exec p tid (o.issued (.replaceKeyring k)) w =
      some (.ok (), { w with keyring := k }) := by
    simp [Op.exec, orFault, ho.replaced, ho.issued]
  have hexec : Prog.supplied (Op.exec p tid) Op.draws (.replaceKeyring k) o (w, n) =
      some (.ok (), { w with keyring := k }, n) := by
    have hdraws : (Op.replaceKeyring k).draws = false := rfl
    rw [Prog.supplied, hdraws, hreplaced]
    rfl
  have hread : Prog.supplied (Op.exec p tid) Op.draws .readKeyring o
      ({ w with keyring := k }, n) = some (.ok k, { w with keyring := k }, n) := by
    simp [Prog.supplied, Op.draws, Op.exec, orFault, ho.issued]
  rw [KeyRing.replaceAndReload, HostProg.eval, Prog.runWith, hexec]
  simp only [KeyRing.reload, Op.run, Prog.perform, Prog.act_bind, Prog.raiseAs, Prog.runWith, hread,
    Prog.lift_ok, Prog.ret_bind]
  rfl

/-- The ids in use are those that a row names. -/
theorem eval_hashKeyIsInUse (ho : o.Quiet) (hkid : kid.encodable = true) :
    HostProg.eval (Service.hashKeyIsInUse kid) p tid o (w, n) =
      some (.ok (decide (kid ∈ w.ledger.referenced)), w, n) := by
  have hparams : [kid].all Str.encodable = true := by simp [hkid]
  have hcredentials : ∀ i w, (Op.credentialUses kid).exec p tid i w =
      queried i w [kid] fun db => db.credentials.rows.any fun c => c.hashKid = kid :=
    fun _ _ => rfl
  have hproofs : ∀ i w, (Op.proofUses kid).exec p tid i w =
      queried i w [kid] fun db => db.proofs.rows.any fun r => r.hashKid = kid := fun _ _ => rfl
  rw [Service.hashKeyIsInUse, eval_query _ _ hcredentials rfl ho, if_pos hparams,
    eval_query _ _ hproofs rfl ho, if_pos hparams, eval_pure]
  refine congrArg (fun b => some (Except.ok b, w, n)) ?_
  rw [Bool.eq_iff_iff]
  simp [Ledger.mem_referenced, Table.mem_def]

theorem World.setLock_setLock {l : Lock} (x : Option (ℕ × ℕ)) (hfree : w.locks l = none) :
    (w.setLock l x).setLock l none = w := by
  simp [World.setLock, ← hfree]

/-- **Retiring a key** in a process that has the keyring open. -/
theorem eval_retireHashKey (ho : o.Steady) (hrest : w.AtRest p k)
    (hkids : ∀ kid ∈ k.keys, kid.encodable = true) :
    HostProg.eval (Service.retireHashKey kid) p tid o (w, n) =
      some (match k.retirement w.ledger kid with
        | .ok k' => (.ok (), w.rekeyed p k', n)
        | .error e => (.error e, w, n)) := by
  have hquiet : o.Quiet := ho.toQuiet
  have hfile : (w.setLock (LockName.keyLock.of p) (some (p, tid))).locks .keyringFile = none := by
    have hother : Lock.keyringFile ≠ LockName.keyLock.of p := fun hsame => by cases hsame
    exact (Function.update_of_ne hother (some (p, tid)) w.locks).trans hrest.keyringFile
  generalize hw₁ : w.setLock (LockName.keyLock.of p) (some (p, tid)) = w₁ at hfile
  have hdisk₁ : w₁.keyring = k := hw₁ ▸ hrest.disk
  have hmemory₁ : (w₁.procs p).bind Proc.memory = some k := hw₁ ▸ hrest.memory
  rw [Service.retireHashKey, eval_withLock hquiet hrest.keyLock, hw₁, KeyRing.retire,
    eval_stable hquiet hdisk₁ hmemory₁ hfile]
  generalize hw₂ : w₁.setLock .keyringFile (some (p, tid)) = w₂
  have hmemory₂ : (w₂.procs p).bind Proc.memory = some k := hw₂ ▸ hmemory₁
  have hledger : w₂.ledger = w.ledger := by
    rw [← hw₂, ← hw₁]
    rfl
  -- both locks are free again in the end
  have hfreed : (w₂.setLock .keyringFile none).setLock (LockName.keyLock.of p) none = w := by
    rw [← hw₂, World.setLock_setLock _ hfile, ← hw₁, World.setLock_setLock _ (hrest.keyLock)]
  have hrekeyed : ∀ k', ((w₂.rekeyed p k').setLock .keyringFile none).setLock
      (LockName.keyLock.of p) none = w.rekeyed p k' := by
    intro k'
    rw [← hfreed]
    rfl
  rw [eval_memory hmemory₂, KeyRing.retirement]
  by_cases hcurrent : kid = k.currentKid
  · rw [dif_pos hcurrent, dif_pos hcurrent, eval_raise]
    simp only [Option.map_some, hfreed]
  rw [dif_neg hcurrent, dif_neg hcurrent]
  by_cases hunknown : (k.keyFor kid).isNone = true
  · rw [if_pos hunknown, if_pos hunknown, eval_raise]
    simp only [Option.map_some, hfreed]
  have hkid : kid ∈ k.keys := by
    rw [Option.isNone_iff_eq_none, KeyRing.keyFor, Finmap.lookup_eq_none, not_not] at hunknown
    exact hunknown
  rw [if_neg hunknown, if_neg hunknown, eval_bind, eval_hashKeyIsInUse hquiet (hkids kid hkid),
    hledger]
  by_cases hused : kid ∈ w.ledger.referenced
  · rw [if_pos hused]
    simp only [hused, decide_true, if_true, eval_raise, Option.map_some, hfreed]
  · rw [if_neg hused]
    simp only [hused, decide_false, Bool.false_eq_true, if_false, eval_replaceAndReload ho,
      Option.map_some, hrekeyed]

/-! ### The rows that name a key -/

namespace Ledger

/-- A credential has ended before `now`, and its proofs are past their retention. -/
def Lapsed (db : Ledger) (now : ℤ) (c : CredentialRow) : Prop :=
  c.status ≠ .current ∧ c.endedAt < now ∧
    ∀ r ∈ db.proofs, r.issueCredentialId = c.credentialId → r.expiresAt < now - 3600

/-- The rows that name a key id are past their retention. -/
structure Abandoned (db : Ledger) (now : ℤ) (kid : Str) : Prop where
  credentials : ∀ c ∈ db.credentials, c.hashKid = kid → db.Lapsed now c
  proofs : ∀ r ∈ db.proofs, r.hashKid = kid → r.expiresAt < now - 3600

theorem mem_cleaned_proofs {r : ProofRow} :
    r ∈ (db.cleaned now).proofs ↔ r ∈ db.proofs ∧ now - 3600 ≤ r.expiresAt := by
  rw [Table.mem_def, (db.cleaned_effect now).proofs, List.mem_filter, decide_eq_true_eq]
  rfl

theorem mem_cleaned_credentials {c : CredentialRow} :
    c ∈ (db.cleaned now).credentials ↔ c ∈ db.credentials ∧ ¬ db.Lapsed now c := by
  rw [Table.mem_def, cleaned_credentials_rows, List.mem_filter]
  refine and_congr_right fun _ => ?_
  have hkept : db.keepsCredential now c = true ↔ c.status = .current ∨ now ≤ c.endedAt ∨
      ∃ r ∈ (db.cleaned now).proofs, r.issueCredentialId = c.credentialId := by
    simp [keepsCredential, Table.mem_def]
  rw [hkept, Lapsed, not_and_or, not_and_or, not_not, not_lt]
  refine or_congr_right (or_congr_right ?_)
  constructor
  · rintro ⟨r, hr, hissued⟩ hall
    obtain ⟨hmem, hrecent⟩ := mem_cleaned_proofs.mp hr
    have hold := hall r hmem hissued
    omega
  · intro hsome
    push Not at hsome
    obtain ⟨r, hr, hissued, hrecent⟩ := hsome
    exact ⟨r, mem_cleaned_proofs.mpr ⟨hr, hrecent⟩, hissued⟩

/-- **What a cleanup leaves of a key id**: nothing exactly if its rows are past their retention. -/
theorem notMem_referenced_cleaned :
    kid ∉ (db.cleaned now).referenced ↔ db.Abandoned now kid := by
  constructor
  · intro hfree
    refine ⟨fun c hc hkid => ?_, fun r hr hkid => ?_⟩
    · by_contra hkept
      exact hfree (mem_referenced.mpr (Or.inl ⟨c, mem_cleaned_credentials.mpr ⟨hc, hkept⟩, hkid⟩))
    · by_contra hkept
      have hrecent : now - 3600 ≤ r.expiresAt := by omega
      exact hfree (mem_referenced.mpr (Or.inr ⟨r, mem_cleaned_proofs.mpr ⟨hr, hrecent⟩, hkid⟩))
  · intro habandoned hused
    rcases mem_referenced.mp hused with ⟨c, hc, hkid⟩ | ⟨r, hr, hkid⟩
    · obtain ⟨hmem, hkept⟩ := mem_cleaned_credentials.mp hc
      exact hkept (habandoned.credentials c hmem hkid)
    · obtain ⟨hmem, hrecent⟩ := mem_cleaned_proofs.mp hr
      have hold := habandoned.proofs r hmem hkid
      omega

/-- **Never stuck**: from some time on, the rows that name a key id are past their retention,
if none of them is a current credential. -/
theorem exists_abandoned (hcurrent : ∀ c ∈ db.credentials, c.hashKid = kid → c.status ≠ .current) :
    ∃ T, ∀ now, T ≤ now → db.Abandoned now kid := by
  obtain ⟨T₁, hT₁⟩ := (db.credentials.rows.map CredentialRow.endedAt).toFinset.exists_le
  obtain ⟨T₂, hT₂⟩ := (db.proofs.rows.map ProofRow.expiresAt).toFinset.exists_le
  have hproofs : ∀ now, max (T₁ + 1) (T₂ + 3601) ≤ now → ∀ r ∈ db.proofs,
      r.expiresAt < now - 3600 := by
    intro now hnow r hr
    have hr' := hT₂ _ (List.mem_toFinset.mpr (List.mem_map_of_mem hr))
    omega
  refine ⟨max (T₁ + 1) (T₂ + 3601), fun now hnow => ⟨fun c hc hkid => ?_, fun r hr _ => ?_⟩⟩
  · have hended := hT₁ _ (List.mem_toFinset.mpr (List.mem_map_of_mem hc))
    have hlate : c.endedAt < now := by omega
    exact ⟨hcurrent c hc hkid, hlate, fun r hr _ => hproofs now hnow r hr⟩
  · exact hproofs now hnow r hr

end Ledger

/-! ### Retirement -/

/-- The cleanup of an operator, who says what time it is. -/
theorem eval_cleanup (ho : o.Quiet) (hnow : CleanupTime now) :
    ∃ counts, HostProg.eval (Service.cleanup (.int now)) p tid o (w, n) =
      some (.ok counts, { w with ledger := w.ledger.cleaned now }, n) := by
  obtain ⟨counts, hrun⟩ := Store.cleanup_run hnow w.ledger
  exact ⟨counts, eval_store ho (Tx.write_of_run hrun)⟩

/-- Every id of a keyring can be bound to a query. -/
theorem Lineage.kids_encodable (h : Lineage H runs s) :
    ∀ kid ∈ s.world.keyring.keys, kid.encodable = true := by
  intro kid hkid
  obtain ⟨bytes, rfl⟩ := h.drawnKids kid hkid
  rw [encodable_append, encodable_hexlify]
  decide

/-- **Retirement is exact and never stuck.** On every ledger of an instance, a process whose
keyring is the one on disk retires a key exactly if it is an old key of the keyring that no row
names, and otherwise changes nothing. A cleanup before it, at a time that can be bound, makes a
key retirable exactly if the rows that name it are past their retention, which they are from some
time on unless a current credential is among them. The keyring that is left has the keys of all
rows. -/
theorem retirement_exact (h : Lineage H runs s) (hrest : s.world.AtRest p k) (ho : o.Steady) :
    (∀ kid n, HostProg.eval (Service.retireHashKey kid) p tid o (s.world, n) =
      some (match k.retirement s.world.ledger kid with
        | .ok k' => (.ok (), s.world.rekeyed p k', n)
        | .error e => (.error e, s.world, n))) ∧
    ∀ kid ∈ k.keys, ∀ hold : kid ≠ k.currentKid,
      (∀ now n, CleanupTime now → (s.world.ledger.Abandoned now kid ↔
        HostProg.eval (Service.cleanup (.int now) >>= fun _ => Service.retireHashKey kid) p tid o
          (s.world, n) = some (.ok (), World.rekeyed { s.world with
            ledger := s.world.ledger.cleaned now } p (k.retired kid hold), n))) ∧
      ((∀ c ∈ s.world.ledger.credentials, c.hashKid = kid → c.status ≠ .current) →
        ∃ T, ∀ now, T ≤ now → s.world.ledger.Abandoned now kid) ∧
      ∀ k', k.retirement s.world.ledger kid = .ok k' → s.world.ledger.Covered H k' := by
  have hkids : ∀ kid ∈ k.keys, kid.encodable = true := hrest.disk ▸ h.kids_encodable
  refine ⟨fun kid n => eval_retireHashKey ho hrest hkids, fun kid hkid hold => ⟨?_, ?_, ?_⟩⟩
  · intro now n hnow
    have hknown : (k.keyFor kid).isNone = false := by
      rw [Option.isNone_eq_false_iff, KeyRing.keyFor]
      exact Finmap.lookup_isSome.mpr hkid
    obtain ⟨counts, hcleanup⟩ : ∃ counts, HostProg.eval (Service.cleanup (.int now)) p tid o
        (s.world, n) =
          some (.ok counts, { s.world with ledger := s.world.ledger.cleaned now }, n) :=
      eval_cleanup ho.toQuiet hnow
    have hrest' : ({ s.world with ledger := s.world.ledger.cleaned now } : World).AtRest p k :=
      ⟨hrest.disk, hrest.memory, hrest.keyLock, hrest.keyringFile⟩
    rw [eval_bind, hcleanup]
    dsimp only
    rw [eval_retireHashKey ho hrest' hkids, KeyRing.retirement, dif_neg hold, hknown,
      if_neg Bool.false_ne_true, ← Ledger.notMem_referenced_cleaned]
    by_cases hused : kid ∈ (s.world.ledger.cleaned now).referenced
    · rw [if_pos hused]
      exact ⟨fun hfree => absurd hused hfree, fun heq => (by cases heq)⟩
    · rw [if_neg hused]
      exact iff_of_true hused rfl
  · exact Ledger.exists_abandoned
  · intro k' hk'
    have hcovered : s.world.ledger.Covered H k := hrest.disk ▸ h.custody.covered
    rw [KeyRing.retirement, dif_neg hold] at hk'
    split_ifs at hk' with hknown hused
    obtain rfl := Except.ok.inj hk'
    -- no row names the key that is gone
    have hkept : ∀ {kid'}, kid' ∈ s.world.ledger.referenced →
        (k.retired kid hold).keyFor kid' = k.keyFor kid' := by
      intro kid' hkid'
      rw [KeyRing.keyFor_retired, if_neg]
      rintro rfl
      exact hused hkid'
    refine hcovered.keyring (fun c hc => hkept ?_) fun r hr => hkept ?_
    · exact Ledger.mem_referenced.mpr (Or.inl ⟨c, hc, rfl⟩)
    · exact Ledger.mem_referenced.mpr (Or.inr ⟨r, hr, rfl⟩)

/-! ### An old key -/

/-- A key is rotated, and the only client, whose credentials are under the old key, revoked. -/
def Scenario.outdated : List SystemMove :=
  Scenario.served ++ Scenario.thread 0 2 10 (.api .rotateKey) 1001 40 ++
    Scenario.thread 0 3 2 (.api (.revokeClient (.str (Scenario.clientId 24)))) 1001 60

/-- Commands that are not interrupted. -/
def Scenario.steady : Outside where
  drawn _ := Scenario.choice 1002 70
  issued _ := Scenario.choice 1002 70

theorem Scenario.steady_steady : Scenario.steady.Steady where
  drawn _ := rfl
  issued _ := rfl
  cut _ := rfl
  replaced _ := rfl

/-- The first key is retired after the next cleanup. -/
theorem retirement_exact_outdated : ∃ τ s, SystemRun plainHash τ s ∧ ∃ k',
    HostProg.eval (Service.cleanup (.int 5000) >>= fun _ => Service.retireHashKey Scenario.kid) 0 9
      Scenario.steady (s.world, 0) = some (.ok (), World.rekeyed { s.world with
        ledger := s.world.ledger.cleaned 5000 } 0 k', 0) := by
  obtain ⟨τ, s, hrun, hmemory, hlock, hfile, hkid, hold, hfree⟩ := exists_systemRun
    Scenario.outdated (fun _ s => s.world.memoryOf 0 = some s.world.keyring ∧
      s.world.locks (.keyLock 0) = none ∧ s.world.locks .keyringFile = none ∧
      Scenario.kid ∈ s.world.keyring.keys ∧ Scenario.kid ≠ s.world.keyring.currentKid ∧
      Scenario.kid ∉ (s.world.ledger.cleaned 5000).referenced) (by decide +kernel)
  have hrest : s.world.AtRest 0 s.world.keyring := ⟨rfl, hmemory, hlock, hfile⟩
  have hrows := Ledger.notMem_referenced_cleaned.mp hfree
  refine ⟨τ, s, hrun, s.world.keyring.retired Scenario.kid hold, ?_⟩
  exact (((retirement_exact (.created hrun) hrest Scenario.steady_steady).2 Scenario.kid hkid
    hold).1 5000 0 (by decide)).mp hrows

/-! ### What a retirement changes -/

/-- A retirement is undone by the key that was retired. -/
theorem World.withKey_rekeyed {key : RootKey} (hrest : w.AtRest p k)
    (halone : ∀ p' m, w.memoryOf p' = some m → p' = p) (hkey : k.keyFor kid = some key)
    (hold : kid ≠ k.currentKid) :
    (w.rekeyed p (k.retired kid hold)).Lacks kid ∧
      (w.rekeyed p (k.retired kid hold)).withKey kid key = w := by
  have hprocs : (w.rekeyed p (k.retired kid hold)).procs = Function.update w.procs p
      ((w.procs p).map fun q => { q with memory := some (k.retired kid hold) }) := rfl
  refine ⟨⟨KeyRing.notMem_retired hold, fun p' m hm => ?_⟩, ?_⟩
  · rw [memoryOf, hprocs] at hm
    by_cases hp : p' = p
    · subst hp
      rw [Function.update_self] at hm
      cases hproc : w.procs p' with
      | none =>
        rw [hproc] at hm
        cases hm
      | some q =>
        rw [hproc] at hm
        exact Option.some.inj hm ▸ KeyRing.notMem_retired hold
    · rw [Function.update_of_ne hp] at hm
      exact absurd (halone p' m hm) hp
  · have hback : (fun p' => ((w.rekeyed p (k.retired kid hold)).procs p').map
        fun q => q.withKey kid key) = w.procs := by
      funext p'
      rw [hprocs]
      by_cases hp : p' = p
      · subst hp
        rw [Function.update_self]
        have hmemory : (w.procs p').bind Proc.memory = some k := hrest.memory
        cases hproc : w.procs p' with
        | none => rfl
        | some q =>
          rw [hproc] at hmemory
          have hq : q.memory = some k := hmemory
          have hkept : q = { q with memory := some k } := by rw [← hq]
          rw [hkept]
          exact congrArg (fun k' => some { q with memory := some k' })
            (KeyRing.retired_withKey hkey hold)
      · rw [Function.update_of_ne hp]
        cases hproc : w.procs p' with
        | none => rfl
        | some q =>
          -- no other process has a keyring
          have hq : q.memory = none := by
            by_contra hsome
            obtain ⟨m, hm⟩ := Option.ne_none_iff_exists'.mp hsome
            refine hp (halone p' m ?_)
            rw [memoryOf, hproc]
            exact hm
          have hkept : q = { q with memory := none } := by rw [← hq]
          rw [hkept]
          rfl
    have hdisk : (k.retired kid hold).withKey kid key = w.keyring :=
      (KeyRing.retired_withKey hkey hold).trans hrest.disk.symm
    have hworld : (w.rekeyed p (k.retired kid hold)).withKey kid key =
        ⟨w.ledger, (k.retired kid hold).withKey kid key, w.locks,
          fun p' => ((w.rekeyed p (k.retired kid hold)).procs p').map
            fun q => q.withKey kid key⟩ := rfl
    rw [hworld, hdisk, hback]

/-- A lineage goes on. -/
theorem Lineage.extend (h : Lineage H runs s) {τ : List SystemTrans} {t : SystemState}
    (hrun : Run (system H).Step s τ t) : ∃ runs', Lineage H runs' t := by
  cases h with
  | created run =>
    obtain ⟨kidBytes, key, hrun₀⟩ := run
    exact ⟨_, .created ⟨kidBytes, key, hrun₀.append hrun⟩⟩
  | restored backedUp run => exact ⟨_, .restored backedUp (run.append hrun)⟩

/-- **Nobody notices a retirement.** From a state in which no thread runs, and in which neither the
keyring file nor any process has a key of the id, every run has an alike run from the state with
that key: the same threads are called, act on the same readings and draws and return the same, and
the ledgers are the same in the end. Only the id itself is left out: it is not drawn again, nobody
asks to retire it, and the keyring is not backed up. -/
theorem retired_unnoticed (hH : H.Ideal) (h : Lineage H runs s)
    (hidle : ∀ tid, s.threads tid = none) (hlacks : s.world.Lacks kid) (key : RootKey)
    {τ : List SystemTrans} {t : SystemState} (hrun : Run (system H).Step s τ t)
    (hrequests : ∀ u ∈ τ, ∀ tid p r, u.label = .call tid p r → r.Ignores kid)
    (hdraws : ∀ u ∈ τ, ∀ tid p r existing i a, u.label = .act tid p r (.newKid existing) i a →
      lit "hk_" ++ hexlify i.bytes ≠ kid) :
    ∃ τ' t', Run (system H).Step ⟨s.world.withKey kid key, s.threads, s.next⟩ τ' t' ∧
      List.Forall₂ (fun u u' => u.label.Alike (fun _ => Eq) u'.label) τ τ' ∧
      returned τ' = returned τ ∧ t'.world = t.world.withKey kid key := by
  have hcoupled : s.Coupled (system H) (World.Kept H) (NotRedrawn kid) (World.Spares kid key)
      (fun _ => Eq) ⟨s.world.withKey kid key, s.threads, s.next⟩ :=
    ⟨⟨hlacks, rfl⟩, rfl, fun tid => by rw [hidle tid]; exact .none⟩
  -- the rows of every state on the way name keys that the file has
  have hkept : ∀ u ∈ τ, u.src.world.Kept H := by
    intro u hu
    obtain ⟨τ₁, τ₂, rfl⟩ := List.append_of_mem hu
    obtain ⟨runs', hlineage⟩ := h.extend hrun.of_cut.1
    exact ⟨hlineage.custody.covered, hlineage.custody.keyed, hlineage.drawnKids⟩
  have hwithin : ∀ u ∈ τ, u.label.Within (Request.Ignores kid) (NotRedrawn kid) := by
    intro u hu
    cases hl : u.label with
    | call tid p r => exact .call (hrequests u hu tid p r hl)
    | act tid p r c i a =>
      refine .act a fun existing hc => ?_
      subst hc
      exact hdraws u hu tid p r existing i a hl
    | ret tid p r x => exact .ret tid p r x
    | stop p => exact .stop p
  obtain ⟨τ', t', hrun', halike, ht⟩ :=
    Machine.run_coupled (spare_couples hH) hcoupled hrun hkept hwithin
  exact ⟨τ', t', hrun', halike, returned_eq_of_alike (fun _ _ _ => id) halike, ht.world.2⟩

/-- The id of a key that an instance does not have. -/
def Scenario.spareKid : Str := lit "hk_" ++ hexlify [7]

/-- A verification of a proof that names the key, after a client was created. -/
def Scenario.spareNamed : List SystemMove :=
  Scenario.served ++ Scenario.thread 0 2 6 (.api (.verifyProof (Scenario.verifyRequest 28
    (Service.proofToken Scenario.spareKid [1]) (lit "login") none))) 1002 60

/-- Requests that are not about the keyring. -/
def Scenario.isKeyless : SystemEvent → Bool
  | .call _ _ (.command .serve) | .call _ _ (.api (.createClient _))
  | .call _ _ (.api (.verifyProof _)) => true
  | .call _ _ _ => false
  | .act _ _ _ (.newKid _) _ _ => false
  | _ => true

theorem Scenario.ignores_of_isKeyless {tid : ℕ} {r : Request}
    (h : Scenario.isKeyless (.call tid p r) = true) : r.Ignores kid := by
  cases r with
  | command c =>
    cases c with
    | serve => exact trivial
    | _ => cases h
  | api c =>
    cases c with
    | createClient | verifyProof => exact trivial
    | _ => cases h

/-- A new instance does not notice a second key. -/
theorem retired_unnoticed_served : ∃ τ t τ' t', Run (system plainHash).Step Scenario.start τ t ∧
    Run (system plainHash).Step
      ⟨Scenario.start.world.withKey Scenario.spareKid Scenario.zeroKey, Scenario.start.threads, 0⟩
      τ' t' ∧ returned τ' = returned τ ∧ (verificationResults τ).length = 1 := by
  obtain ⟨⟨τ, t⟩, hsim, hchecks⟩ := (Option.any_eq_true _ _).mp
    (show (Scenario.run Scenario.spareNamed).any (fun x =>
      (x.1.all fun u => Scenario.isKeyless u.label) &&
        decide ((verificationResults x.1).length = 1)) = true by decide +kernel)
  obtain ⟨hkeyless, hverified⟩ := Bool.and_eq_true_iff.mp hchecks
  have hall := List.all_eq_true.mp hkeyless
  have hrun : Run (system plainHash).Step Scenario.start τ t := Machine.run_of_simulate hsim
  have hlacks : Scenario.start.world.Lacks Scenario.spareKid := by
    refine ⟨by decide +kernel, fun p m hm => ?_⟩
    cases hm
  obtain ⟨τ', t', hrun', -, hreturned, -⟩ := retired_unnoticed plainHash_ideal
    (.created ⟨[0], Scenario.zeroKey, .nil _⟩) (fun _ => rfl) hlacks Scenario.zeroKey hrun
    (fun u hu tid p r hl => Scenario.ignores_of_isKeyless (hl ▸ hall u hu))
    fun u hu tid p r existing i a hl => by
      have hact := hall u hu
      rw [hl] at hact
      cases hact
  exact ⟨τ, t, τ', t', hrun, hrun', hreturned, of_decide_eq_true hverified⟩

end Onceproof

import Onceproof.Service.Executions
import Onceproof.Ledger.Formats
import Onceproof.Store.Checks
import Onceproof.Scenario

/-!
# What readiness says about the current key

`ready` compares the loaded keys with the recorded checks, but only for the key ids that a
credential or a proof still carries. The checks outlive those rows, and registering the current key
compares it with its own check. So after the last row under the current key id is gone, a keyring
with another key under the same id is ready and cannot be used: `Ledger.Stranded` is exactly that
state (`ready_usable_iff`).
-/

namespace Onceproof

variable {H : HashLib} {runs : List (List SystemTrans)} {s : SystemState} {w : World} {k : KeyRing}
variable {p : ℕ} {db : Ledger} (tid : ℕ)

/-- A service in the process `p` has opened an instance: its keyring is the one on disk, and
nobody holds a lock. -/
structure World.Opened (w : World) (p : ℕ) (k : KeyRing) : Prop where
  disk : w.keyring = k
  memory : (w.procs p).bind Proc.memory = some k
  unlocked : ∀ l, w.locks l = none

/-- `ready()` returns true in some execution. -/
def Ready (H : HashLib) (p tid : ℕ) (w : World) : Prop :=
  ∃ τ w', (Service.ready H).Completes (Op.exec p tid) w τ (.ok true) w'

/-- No operation that stores a digest reports corruption of the store, in any execution. -/
structure Usable (H : HashLib) (p tid : ℕ) (w : World) : Prop where
  create : ∀ q τ x w', (Service.createClient H q).Completes (Op.exec p tid) w τ x w' →
    x ≠ .error .storeCorruptionError
  rotate : ∀ q τ x w', (Service.rotateCredential H q).Completes (Op.exec p tid) w τ x w' →
    x ≠ .error .storeCorruptionError
  issue : ∀ q τ x w', (Service.issueProof H q).Completes (Op.exec p tid) w τ x w' →
    x ≠ .error .storeCorruptionError

/-- Every key id of a row agrees with its check, no row carries the current key id, and the check
that is recorded for the current key id is that of another key. -/
structure Ledger.Stranded (H : HashLib) (db : Ledger) (k : KeyRing) : Prop where
  operational : db.restoreRequired = false
  covered : db.Covered H k
  credentials : ∀ c ∈ db.credentials, c.hashKid ≠ k.currentKid
  proofs : ∀ r ∈ db.proofs, r.hashKid ≠ k.currentKid
  recorded : ∃ row, db.hashKeys.get? k.currentKid = some row ∧
    keyCheck H k.currentKey.2.val ≠ .ok row.keyCheck

/-- A key id that the keyring covers is not the current one, if the check that is recorded for that
is of another key. -/
theorem Ledger.Covers.ne_currentKid {db : Ledger} {row : HashKeyRow}
    (hrow : db.hashKeys.get? k.currentKid = some row)
    (hcheck : keyCheck H k.currentKey.2.val ≠ .ok row.keyCheck) {kid : Str}
    (h : db.Covers H k kid) : kid ≠ k.currentKid := by
  obtain ⟨key, check, hkey, hsame, hrow'⟩ := h
  rintro rfl
  have hcurrent : key = k.currentKey.2 := Option.some.inj (hkey.symm.trans k.keyFor_currentKey)
  rw [hrow] at hrow'
  obtain rfl := Option.some.inj hrow'
  exact hcheck (hcurrent ▸ hsame)

/-- That no row carries the current key id follows from the rest: a row under it would vouch for the
key. -/
theorem Ledger.stranded_iff {db : Ledger} : db.Stranded H k ↔
    db.restoreRequired = false ∧ db.Covered H k ∧
      ∃ row, db.hashKeys.get? k.currentKid = some row ∧
        keyCheck H k.currentKey.2.val ≠ .ok row.keyCheck := by
  constructor
  · exact fun h => ⟨h.operational, h.covered, h.recorded⟩
  · rintro ⟨hop, hcovered, row, hrow, hcheck⟩
    exact ⟨hop, hcovered, fun c hc => (hcovered.credentials c hc).ne_currentKid hrow hcheck,
      fun r hr => (hcovered.proofs r hr).ne_currentKid hrow hcheck, row, hrow, hcheck⟩

/-! ### What `ready` looks at -/

theorem hostErrors_true : HostErrors fun _ => True := ⟨trivial, trivial, fun _ => trivial,
  fun _ => trivial⟩

theorem keysMatch_ends {L : Ledger → Prop} (hw : w.Loaded p k L) :
    ∀ {checks : List (Str × Str)} {h : Hist}, (Service.keysMatch H checks).Ends p tid
      (fun x _ => x = .ok true → ∀ c ∈ checks, k.Matches H c) h w
  | [], _ => fun _ _ hc => (by cases hc)
  | (kid, expected) :: checks, h => by
    refine ends_memory hw fun h' => ?_
    cases hkey : k.keyFor kid with
    | none => exact fun hx => (by cases hx)
    | some key =>
      refine ends_lift (fun e _ hx => (by cases hx)) fun check hcheck => ?_
      refine ends_ite (fun _ hx => (by cases hx)) fun hsame => ?_
      refine (keysMatch_ends hw).mono (fun _ _ => id) fun _ x _ hrest hx c hc => ?_
      rcases List.mem_cons.mp hc with rfl | hc
      · exact ⟨key, hkey, hcheck.trans (congrArg Except.ok (not_not.mp hsame))⟩
      · exact hrest hx c hc

theorem referencedHashKeyChecks_ends {h : Hist} :
    Service.referencedHashKeyChecks.Ends p tid (fun x w' => w' = w ∧
      ∀ checks, x = .ok (some checks) →
      checks = w.ledger.checks w.ledger.referenced ∧
        ∀ kid ∈ w.ledger.referenced, ∃ c ∈ checks, c.1 = kid) h w := by
  have hkids : ∀ i w, Op.referencedKids.exec p tid i w = queried i w [] Ledger.referenced :=
    fun _ _ => rfl
  refine ends_query hkids hostErrors_true (fun e _ => ⟨rfl, fun _ hx => (by cases hx)⟩) fun h' => ?_
  refine ends_ite (fun hnil => ⟨rfl, fun checks hx => ?_⟩) fun _ => ?_
  · obtain rfl := Option.some.inj (Except.ok.inj hx)
    rw [hnil, Ledger.checks_nil]
    exact ⟨rfl, fun _ hkid => (by cases hkid)⟩
  have hchecks : ∀ i u, (Op.keyChecks w.ledger.referenced).exec p tid i u =
      queried i u w.ledger.referenced fun db => db.checks w.ledger.referenced := fun _ _ => rfl
  refine ends_query hchecks hostErrors_true (fun e _ => ⟨rfl, fun _ hx => (by cases hx)⟩)
    fun h' => ?_
  refine ends_ite (fun hall => ⟨rfl, fun checks hx => ?_⟩) fun _ =>
    ⟨rfl, fun _ hx => (by cases hx)⟩
  obtain rfl := Option.some.inj (Except.ok.inj hx)
  exact ⟨rfl, by simpa using hall⟩

/-- A service that is ready is not sealed, and has the keys of all rows. -/
theorem ready_ends {L : Ledger → Prop} (hw : w.Loaded p k L) {h : Hist} :
    (Service.ready H).Ends p tid
      (fun x _ => x = .ok true → w.ledger.restoreRequired = false ∧ w.ledger.Covered H k) h w := by
  have hsealed : ∀ i w, Op.restoreRequired.exec p tid i w =
      queried i w [] Ledger.restoreRequired := fun _ _ => rfl
  refine ends_query hsealed hostErrors_true (fun e _ hx => (by cases hx)) fun h' => ?_
  refine ends_ite (fun _ hx => (by cases hx)) fun hop => ?_
  have hop' : w.ledger.restoreRequired = false := by simpa using hop
  refine Prog.Safe.bind ((referencedHashKeyChecks_ends tid).mono (fun _ _ => id) ?_)
  rintro h₁ (e | _ | checks) w₁ ⟨rfl, hchecks⟩
  · exact fun hx => (by cases hx)
  · exact fun hx => (by cases hx)
  · obtain ⟨rfl, hall⟩ := hchecks _ rfl
    refine (keysMatch_ends tid hw).mono (fun _ _ => id) fun _ x _ hmatch hx => ?_
    exact ⟨hop', Ledger.covered_iff.mpr ⟨hall, hmatch hx⟩⟩

/-! ### How `ready` runs undisturbed -/

section Undisturbed

variable {i : Choice}

theorem runWith_memory_bind {α : Type} (hmemory : (w.procs p).bind Proc.memory = some k)
    {f : KeyRing → HostProg α} : (Op.memory.run >>= f).runWith (Op.exec p tid) i w =
      (f k).runWith (Op.exec p tid) i w := by
  rw [Prog.runWith_perform_bind]
  simp [Op.exec, hmemory]

theorem runWith_keysMatch (hmemory : (w.procs p).bind Proc.memory = some k) :
    ∀ {checks : List (Str × Str)}, (∀ c ∈ checks, k.Matches H c) →
      (Service.keysMatch H checks).runWith (Op.exec p tid) i w = some (.ok true, w)
  | [], _ => rfl
  | (kid, expected) :: checks, hmatch => by
    obtain ⟨key, hkey, hcheck⟩ := hmatch _ List.mem_cons_self
    have hrest := runWith_keysMatch hmemory fun c hc => hmatch c (List.mem_cons_of_mem _ hc)
    rw [Service.keysMatch, runWith_memory_bind tid hmemory]
    dsimp only at hkey hcheck ⊢
    rw [hkey]
    dsimp only
    rw [hcheck, Prog.lift_ok, Prog.ret_bind, if_neg (not_not.mpr rfl)]
    exact hrest

theorem runWith_ready (hmemory : (w.procs p).bind Proc.memory = some k) (hfault : i.fault = false)
    (hop : w.ledger.restoreRequired = false) (hcovered : w.ledger.Covered H k)
    (hbound : w.ledger.Bound) :
    (Service.ready H).runWith (Op.exec p tid) i w = some (.ok true, w) := by
  obtain ⟨hall, hmatch⟩ := Ledger.covered_iff.mp hcovered
  have hencodable : w.ledger.referenced.all Str.encodable = true := by
    rw [List.all_eq_true]
    intro kid hkid
    obtain ⟨c, hc, rfl⟩ := hall kid hkid
    obtain ⟨-, hrow⟩ := Ledger.mem_checks.mp hc
    exact hbound _ (Table.get?_eq_some.mp hrow).1
  have hsealed : Op.restoreRequired.exec p tid i w = some (.ok false, w) := by
    simp [Op.exec, queried, orFault, hfault, hop]
  have hkids : Op.referencedKids.exec p tid i w = some (.ok w.ledger.referenced, w) := by
    simp [Op.exec, queried, orFault, hfault, Ledger.referenced]
  have hchecks : (Op.keyChecks w.ledger.referenced).exec p tid i w =
      some (.ok (w.ledger.checks w.ledger.referenced), w) := by
    simp [Op.exec, queried, orFault, hfault, Ledger.checks, hencodable]
  have hread : Service.referencedHashKeyChecks.runWith (Op.exec p tid) i w =
      some (.ok (some (w.ledger.checks w.ledger.referenced)), w) := by
    rw [Service.referencedHashKeyChecks, Prog.runWith_perform_bind, hkids]
    dsimp only
    split_ifs with hnil
    · rw [hnil, Ledger.checks_nil]
      rfl
    · rw [Prog.runWith_perform_bind, hchecks]
      dsimp only
      rw [if_pos (by simpa using hall)]
      rfl
  rw [Service.ready, Prog.runWith_perform_bind, hsealed]
  dsimp only
  rw [if_neg (by simp), Prog.runWith_bind, hread]
  exact runWith_keysMatch tid hmemory hmatch

/-- **What `ready` looks at.** -/
theorem ready_iff (hmemory : (w.procs p).bind Proc.memory = some k) (hbound : w.ledger.Bound) :
    Ready H p tid w ↔ w.ledger.restoreRequired = false ∧ w.ledger.Covered H k := by
  constructor
  · rintro ⟨τ, w', hcompletes⟩
    have hloaded : w.Loaded p k fun _ => True := ⟨hmemory, trivial⟩
    exact (ready_ends tid (h := []) hloaded).completes hcompletes rfl
  · rintro ⟨hop, hcovered⟩
    have hrun : (Service.ready H).runWith (Op.exec p tid) (Scenario.choice 0 0) w =
        some (.ok true, w) := runWith_ready tid hmemory rfl hop hcovered hbound
    obtain ⟨τ, hcompletes⟩ := Prog.completes_of_runWith hrun
    exact ⟨τ, w, hcompletes⟩

/-! ### A key that cannot be registered -/

theorem run_registerHashKey_mismatch {kid check : Str} {row : HashKeyRow}
    (hkid : kid.encodable = true) (hrow : db.hashKeys.get? kid = some row)
    (hcheck : row.keyCheck ≠ check) :
    Tx.run (registerHashKey kid check) db = .error .storeCorruptionError := by
  rw [registerHashKey, Tx.run_bind_error]
  refine Or.inr ⟨some row, db, run_select_ok.mpr ⟨by simpa using hkid, hrow.symm, rfl⟩, ?_⟩
  dsimp only
  rw [if_pos hcheck]
  rfl

theorem run_createClient_stranded {a : CreateClient} {event : Bytes}
    (hop : db.restoreRequired = false) (hbound : db.Bound) {row : HashKeyRow}
    (hkids : a.issuanceCredential.hashKid = a.verificationCredential.hashKid)
    (hrow : db.hashKeys.get? a.issuanceCredential.hashKid = some row)
    (hcheck : row.keyCheck ≠ a.hashKeyCheck) :
    Tx.run (Store.createClient a event) db = .error .storeCorruptionError := by
  obtain ⟨hmem, hkid⟩ := Table.get?_eq_some.mp hrow
  have hencodable : a.issuanceCredential.hashKid.encodable = true := hkid ▸ hbound row hmem
  rw [Store.createClient, Tx.run_bind_error]
  refine Or.inr ⟨(), db, run_requireOperational_ok.mpr ⟨hop, rfl⟩, ?_⟩
  rw [if_neg (not_not.mpr hkids), Tx.run_bind_error]
  exact Or.inl (run_registerHashKey_mismatch hencodable hrow hcheck)

theorem runWith_newCredential (hmemory : (w.procs p).bind Proc.memory = some k) (role : Role)
    (clientId : Str) : ∃ record secret, record.hashKid = k.currentKid ∧
      (Service.newCredential H role clientId).runWith (Op.exec p tid) (Scenario.choice 0 0) w =
        some (.ok (record, secret), w) := by
  have hencodable :
      (Service.newSecret role (role.idPrefix ++ hexlify [0]) [0]).encodable = true := by
    cases role <;> decide
  obtain ⟨d, hd⟩ := exists_credentialDigest (H := H) k.currentKey.2 hencodable
  have hdraw : ∀ n, (Op.tokenBytes n).exec p tid (Scenario.choice 0 0) w = some (.ok [0], w) :=
    fun _ => rfl
  refine ⟨{ credentialId := role.idPrefix ++ hexlify [0], clientId, role
            hashKid := k.currentKid, secretDigest := d, status := .current, validUntil := none },
    Service.newSecret role (role.idPrefix ++ hexlify [0]) [0], rfl, ?_⟩
  rw [Service.newCredential, Prog.runWith_perform_bind, hdraw]
  dsimp only
  rw [Prog.runWith_perform_bind, hdraw]
  dsimp only
  rw [runWith_memory_bind tid hmemory, hd]
  rfl

theorem runWith_withLock {α : Type} {l : LockName} {prog : HostProg α} (hfault : i.fault = false)
    (hfree : w.locks (l.of p) = none) {x : Except Error α}
    (hprog : ∃ w', prog.runWith (Op.exec p tid) i (w.setLock (l.of p) (some (p, tid))) =
      some (x, w')) : ∃ w', (withLock l prog).runWith (Op.exec p tid) i w = some (x, w') := by
  obtain ⟨w', hprog⟩ := hprog
  have hacquire : (Op.acquire l).exec p tid i w =
      some (.ok (), w.setLock (l.of p) (some (p, tid))) := by
    simp [Op.exec, orFault, hfree, hfault]
  refine ⟨w'.setLock (l.of p) none, ?_⟩
  rw [withLock, Prog.runWith_perform_bind, hacquire]
  dsimp only
  rw [Prog.runWith_ensure, hprog]
  rfl

theorem runWith_stable {α : Type} {prog : HostProg α} (hfault : i.fault = false)
    (hdisk : w.keyring = k) (hmemory : (w.procs p).bind Proc.memory = some k)
    (hfree : w.locks .keyringFile = none) {x : Except Error α}
    (hprog : ∃ w', prog.runWith (Op.exec p tid) i (w.setLock .keyringFile (some (p, tid))) =
      some (x, w')) : ∃ w', (KeyRing.stable prog).runWith (Op.exec p tid) i w = some (x, w') := by
  obtain ⟨w', hprog⟩ := hprog
  refine runWith_withLock tid hfault hfree ⟨w', ?_⟩
  have hread : Op.readKeyring.exec p tid i (w.setLock .keyringFile (some (p, tid))) =
      some (.ok k, w.setLock .keyringFile (some (p, tid))) := by
    simp [Op.exec, orFault, hfault, World.setLock, hdisk]
  rw [Prog.runWith_perform_bind]
  dsimp only [LockName.of]
  rw [hread]
  dsimp only
  have hkept : ((w.setLock .keyringFile (some (p, tid))).procs p).bind Proc.memory = some k :=
    hmemory
  rw [runWith_memory_bind tid hkept, if_neg (not_not.mpr rfl)]
  exact hprog

theorem exec_store_error {call : StoreCall} {e : Error} (hcut : i.cut = none)
    (hrun : Tx.run (call.tx i.chance) w.ledger = .error e) :
    (Op.store call).exec p tid i w = some (.error e, w) := by
  simp only [Op.exec, hcut, Tx.write_of_run_error hrun]

/-- A creation fails if the ledger has another check for the current key id. -/
theorem runWith_createClient_stranded (hopened : w.Opened p k)
    (hop : w.ledger.restoreRequired = false) (hbound : w.ledger.Bound) {row : HashKeyRow}
    (hrow : w.ledger.hashKeys.get? k.currentKid = some row)
    (hcheck : keyCheck H k.currentKey.2.val ≠ .ok row.keyCheck) :
    ∃ w', (Service.createClient H Scenario.clientRequest).runWith (Op.exec p tid)
      (Scenario.choice 0 0) w = some (.error .storeCorruptionError, w') := by
  have hname :
      Service.text Scenario.clientRequest.name "name" maxNameLength = .ok (lit "acme") := by
    decide
  have haudiences : Scenario.clientRequest.allowedAudiences.mapM Service.audience =
      .ok [lit "urn:a"] := by decide +kernel
  have httl : Service.integer Scenario.clientRequest.proofTtlSeconds "proof_ttl_seconds" 1 3600 =
      .ok 60 := by decide
  have hissue : Service.integer Scenario.clientRequest.issueLimitPerMinute
      "issue_limit_per_minute" 1 100000 = .ok 2 := by decide
  have hverify : Service.integer Scenario.clientRequest.verifyLimitPerMinute
      "verify_limit_per_minute" 1 100000 = .ok 2 := by decide
  obtain ⟨check, hcurrent⟩ := exists_keyCheck (H := H) k.currentKey.2
  rw [Service.createClient, hname, Prog.lift_ok, Prog.ret_bind, if_neg (by decide), haudiences,
    Prog.lift_ok, Prog.ret_bind, httl, Prog.lift_ok, Prog.ret_bind, hissue, Prog.lift_ok,
    Prog.ret_bind, hverify, Prog.lift_ok, Prog.ret_bind]
  refine runWith_withLock tid rfl (hopened.unlocked _) ?_
  generalize hw₁ : w.setLock (LockName.keyLock.of p) (some (p, tid)) = w₁
  have hmemory₁ : (w₁.procs p).bind Proc.memory = some k := hw₁ ▸ hopened.memory
  have hdisk₁ : w₁.keyring = k := hw₁ ▸ hopened.disk
  have hfile : w₁.locks .keyringFile = none := by
    simp [← hw₁, World.setLock, LockName.of, hopened.unlocked]
  -- the file and the memory agree, so nothing is said to have changed on disk
  refine runWith_stable tid rfl hdisk₁ hmemory₁ hfile ?_
  generalize hw₂ : w₁.setLock .keyringFile (some (p, tid)) = w₂
  have hmemory : (w₂.procs p).bind Proc.memory = some k := hw₂ ▸ hmemory₁
  have hledger : w₂.ledger = w.ledger := by
    rw [← hw₂, ← hw₁]
    rfl
  have hdraw : (Op.tokenBytes 12).exec p tid (Scenario.choice 0 0) w₂ = some (.ok [0], w₂) := rfl
  have hclock : Op.clock.exec p tid (Scenario.choice 0 0) w₂ = some (.ok 0, w₂) := rfl
  obtain ⟨issuance, secret₁, hkid₁, hissuance⟩ :=
    runWith_newCredential tid (H := H) hmemory .issuance (lit "opc_" ++ hexlify [0])
  obtain ⟨verification, secret₂, hkid₂, hverification⟩ :=
    runWith_newCredential tid (H := H) hmemory .verification (lit "opc_" ++ hexlify [0])
  refine ⟨w₂, ?_⟩
  rw [Prog.runWith_perform_bind, hdraw]
  dsimp only
  rw [Prog.runWith_bind, hissuance]
  dsimp only
  rw [Prog.runWith_bind, hverification]
  dsimp only
  rw [if_neg (by decide), runWith_memory_bind tid hmemory, hcurrent, Prog.lift_ok, Prog.ret_bind,
    Prog.runWith_perform_bind, hclock]
  dsimp only
  rw [Prog.runWith_perform_bind, exec_store_error tid rfl]
  rw [hledger]
  -- the check of the key is compared with the stored one, and differs
  refine run_createClient_stranded hop hbound (hkid₁.trans hkid₂.symm) (hkid₁ ▸ hrow) fun heq => ?_
  exact hcheck (hcurrent.trans (congrArg Except.ok heq.symm))

end Undisturbed

/-! ### Ready and usable -/

/-- The check of the current key id, where there is one, is that of the loaded key. -/
def Ledger.Agrees (H : HashLib) (db : Ledger) (k : KeyRing) : Prop :=
  ∀ row, db.hashKeys.get? k.currentKid = some row →
    keyCheck H k.currentKey.2.val = .ok row.keyCheck

/-- **Nothing else is reported as corruption.** -/
theorem usable_of_agrees (hmemory : (w.procs p).bind Proc.memory = some k)
    (hreadable : w.ledger.Readable) (hagrees : w.ledger.Agrees H k) : Usable H p tid w := by
  have hother : HostErrors fun e => e ≠ .storeCorruptionError :=
    ⟨nofun, nofun, fun _ => nofun, fun _ => nofun⟩
  have hloaded : w.Loaded p k fun db => db.Readable ∧ db.hashKeys = w.ledger.hashKeys :=
    ⟨hmemory, hreadable, rfl⟩
  -- a corruption error needs a stored check that differs
  have hrefused : ∀ {db : Ledger} {check : Str}, db.hashKeys = w.ledger.hashKeys →
      keyCheck H k.currentKey.2.val = .ok check →
      ∀ {row}, db.hashKeys.get? k.currentKid = some row →
        row.keyCheck = check := by
    intro db check hkeys hcheck row hrow
    have hsame := hagrees row (hkeys ▸ hrow)
    exact (Except.ok.inj (hcheck.symm.trans hsame)).symm
  refine ⟨fun q τ x w' hx => ?_, fun q τ x w' hx => ?_, fun q τ x w' hx => ?_⟩
  · have hends : (Service.createClient H q).Ends p tid (Raises (· ≠ .storeCorruptionError)) []
        w := by
      refine createClient_raises q hloaded hother ?_
      rintro a x db e ⟨-, hkeys⟩ hkeyed he rfl
      obtain ⟨row, hrow, hne⟩ := Store.createClient_corruption he
      exact hne (hrefused hkeys hkeyed.check (hkeyed.issuance ▸ hrow))
    exact fun he => hends.completes hx _ he rfl
  · have hends : (Service.rotateCredential H q).Ends p tid (Raises (· ≠ .storeCorruptionError)) []
        w := by
      refine rotateCredential_raises q hloaded hother ?_
      rintro a x db e ⟨-, hkeys⟩ hkeyed he rfl
      obtain ⟨row, hrow, hne⟩ := Store.rotateCredential_corruption he
      exact hne (hrefused hkeys hkeyed.check (hkeyed.replacement ▸ hrow))
    exact fun he => hends.completes hx _ he rfl
  · have hends : (Service.issueProof H q).Ends p tid (Raises (· ≠ .storeCorruptionError)) [] w := by
      refine issueProof_raises q hloaded hother ?_ (fun db hdb => hdb.1) ?_
      · rintro now x counts db db' ⟨hread, hkeys⟩ hrun
        -- the cleanup before an issue does not touch the keys
        have heffect := Store.cleanup_ok hrun
        refine ⟨fun row hrow => hread row (heffect.clients ▸ hrow), ?_⟩
        rw [heffect.hashKeys, hkeys]
      · rintro record check x db e ⟨-, hkeys⟩ hkeyed he rfl
        obtain ⟨row, hrow, hne⟩ := Store.issueProof_corruption he
        exact hne (hrefused hkeys hkeyed.check (hkeyed.record ▸ hrow))
    exact fun he => hends.completes hx _ he rfl

/-- A stranded ledger is ready, and the creation of a client reports corruption. -/
theorem Ledger.Stranded.ready_unusable (hstranded : w.ledger.Stranded H k)
    (hopened : w.Opened p k) (hbound : w.ledger.Bound) :
    Ready H p tid w ∧ ¬ Usable H p tid w := by
  obtain ⟨hop, hcovered, -, -, row, hrow, hcheck⟩ := hstranded
  refine ⟨(ready_iff tid hopened.memory hbound).mpr ⟨hop, hcovered⟩, fun husable => ?_⟩
  obtain ⟨w', hrun⟩ := runWith_createClient_stranded tid hopened hop hbound hrow hcheck
  obtain ⟨τ, hcompletes⟩ := Prog.completes_of_runWith hrun
  exact husable.create _ τ _ w' hcompletes rfl

/-- **Readiness implies usability exactly if the current key is not stranded.** -/
theorem ready_usable_iff (h : Lineage H runs s) (hledger : w.ledger = s.world.ledger)
    (hopened : w.Opened p k) :
    (Ready H p tid w → Usable H p tid w) ↔ ¬ w.ledger.Stranded H k := by
  have hbound : w.ledger.Bound := hledger ▸ h.bound
  have hready := ready_iff tid (H := H) hopened.memory hbound
  constructor
  · intro husable hstranded
    obtain ⟨hisReady, hunusable⟩ := hstranded.ready_unusable tid hopened hbound
    exact hunusable (husable hisReady)
  · intro hstranded hisReady
    obtain ⟨hop, hcovered⟩ := hready.mp hisReady
    refine usable_of_agrees tid hopened.memory (hledger ▸ h.readable) fun row hrow => ?_
    by_contra hcheck
    exact hstranded (Ledger.stranded_iff.mpr ⟨hop, hcovered, row, hrow, hcheck⟩)

/-- A service in process 0 that has opened a ledger with a keyring. -/
def World.opening (db : Ledger) (k : KeyRing) : World where
  ledger := db
  keyring := k
  locks := fun _ => none
  procs := fun p => if p = 0 then some ⟨some k, some 0, true⟩ else none

theorem World.opened_opening (db : Ledger) (k : KeyRing) : (World.opening db k).Opened 0 k :=
  ⟨rfl, rfl, fun _ => rfl⟩

/-- A client is created, revoked and forgotten: the check of the key stays. -/
def Scenario.revokedAndCleaned : List SystemMove :=
  Scenario.served ++
    Scenario.thread 0 2 2 (.api (.revokeClient (.str (Scenario.clientId 24)))) 1001 40 ++
    Scenario.thread 0 3 1 (.api (.cleanup (.int 1003))) 1003 60

/-- The ledger of a client in use, opened with its own keyring. -/
theorem ready_usable_iff_served : ∃ τ s, SystemRun plainHash τ s ∧
    ((Ready plainHash 0 9 (World.opening s.world.ledger s.world.keyring) →
        Usable plainHash 0 9 (World.opening s.world.ledger s.world.keyring)) ↔
      ¬ s.world.ledger.Stranded plainHash s.world.keyring) := by
  obtain ⟨τ, s, hrun, -⟩ := exists_systemRun Scenario.served (fun _ _ => True) (by decide +kernel)
  have hopened := World.opened_opening s.world.ledger s.world.keyring
  exact ⟨τ, s, hrun, ready_usable_iff 9 (.created hrun) (w := World.opening _ _) rfl hopened⟩

/-- **The defect**: after the only client is forgotten, a keyring with another key under the same
id is ready, and `create_client` reports corruption. -/
theorem readiness_counterexample : ¬ ∀ runs s w p tid k, Lineage plainHash runs s →
    w.ledger = s.world.ledger → w.Opened p k →
      Ready plainHash p tid w → Usable plainHash p tid w := by
  intro hclaim
  obtain ⟨τ, s, hrun, hop, hcredentials, hproofs, hchecks⟩ :=
    exists_systemRun Scenario.revokedAndCleaned
    (fun _ s => s.world.ledger.restoreRequired = false ∧ s.world.ledger.credentials.rows = [] ∧
      s.world.ledger.proofs.rows = [] ∧
      (s.world.ledger.hashKeys.get? Scenario.kid).any fun row =>
        keyCheck plainHash (List.replicate 32 1) ≠ .ok row.keyCheck) (by decide +kernel)
  let k : KeyRing := .created Scenario.kid ⟨List.replicate 32 1, by simp⟩
  have hlineage : Lineage plainHash [τ] s := .created hrun
  have hopened := World.opened_opening s.world.ledger k
  have husable := hclaim [τ] s (World.opening s.world.ledger k) 0 9 k hlineage rfl hopened
  have hnone : ∀ c, c ∉ s.world.ledger.credentials := by
    intro c hc
    rw [Table.mem_def, hcredentials] at hc
    cases hc
  have hnone' : ∀ r, r ∉ s.world.ledger.proofs := by
    intro r hr
    rw [Table.mem_def, hproofs] at hr
    cases hr
  obtain ⟨row, hrow, hcheck⟩ := (Option.any_eq_true _ _).mp hchecks
  have hstranded : (World.opening s.world.ledger k).ledger.Stranded plainHash k :=
    Ledger.stranded_iff.mpr ⟨hop,
      ⟨fun c hc => absurd hc (hnone c), fun r hr => absurd hr (hnone' r)⟩, row, hrow,
      of_decide_eq_true hcheck⟩
  obtain ⟨hready, hunusable⟩ := hstranded.ready_unusable 9 hopened hlineage.bound
  exact hunusable (husable hready)

end Onceproof

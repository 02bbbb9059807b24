import Onceproof.Store.Commits
import Onceproof.Keyring
import Onceproof.Lib.Threads

/-!
# The host

What the processes of one instance share, and the commands they issue: a SQLite ledger, a
keyring file, the locks, the clock and the random generator. Each `Op` is one atomic step:
a `SELECT` outside a transaction, a whole write transaction, one system call on the keyring
file, one access to an attribute of the process's service object.

What a command takes from outside is a `Choice`: the clock reading, the random bytes, and
whether the command is hit by an exception. A write transaction can be cut off at any of its
statements.

`KeyRing._lock` is not among the locks: every method that holds it also holds the file lock,
and the two attributes it protects for readers are read in one command here.
-/

namespace Onceproof

/-- The locks by the names a process knows them under. -/
inductive LockName
  /-- `instance_lock(database_path)`. -/
  | instanceLock
  /-- `_exclusive_file_lock(keyring_path)`. -/
  | keyringFile
  /-- `OnceproofService._key_lock`. -/
  | keyLock
  /-- `OnceproofService._maintenance_lock`. -/
  | maintenanceLock
  deriving DecidableEq

/-- The locks of the host: two lock files, and two locks in each process. -/
inductive Lock
  | instanceLock
  | keyringFile
  | keyLock (p : ℕ)
  | maintenanceLock (p : ℕ)
  deriving DecidableEq

/-- The lock that a process means. -/
def LockName.of (p : ℕ) : LockName → Lock
  | instanceLock => .instanceLock
  | keyringFile => .keyringFile
  | keyLock => .keyLock p
  | maintenanceLock => .maintenanceLock p

/-- The plaintext credentials handed to a `credential_sink`. -/
inductive Delivery
  | client (credentials : ClientCredentials)
  | rotated (clientId credentialId : Str) (role : Role) (secret : Str)

/-! ### Commands -/

/-- The atomic commands of a process. -/
inductive Op
  /-- `self.clock()`. -/
  | clock
  /-- `secrets.token_hex(n)`, `secrets.token_urlsafe(n)`: the drawn bytes. -/
  | tokenBytes (n : ℕ)
  /-- `secrets.token_bytes(32)`. -/
  | newRootKey
  /-- `_new_kid(existing)`. -/
  | newKid (existing : Finset Str)
  | acquire (l : LockName)
  | tryAcquire (l : LockName)
  | release (l : LockName)
  /-- `_read_payload(self.path)`. -/
  | readKeyring
  /-- `_replace_atomically(self.path, payload)`. -/
  | replaceKeyring (k : KeyRing)
  /-- `self._current_kid, self._keys`. -/
  | memory
  | setMemory (k : KeyRing)
  /-- `self._next_cleanup_at`. -/
  | nextCleanupAt
  | setNextCleanupAt (t : ℤ)
  /-- The HTTP server of the process accepts requests from here on. -/
  | startServing
  /-- `credential_sink(credentials)`. -/
  | deliver (d : Delivery)
  /-- `Store.credential`. -/
  | credential (id : Str)
  /-- `Store.client`. -/
  | client (id : Str)
  /-- `Store._restore_required` outside a transaction. -/
  | restoreRequired
  /-- The join of `Store.cached_verification`. -/
  | joined (id : Str)
  /-- The lookup of `Store._idempotent_result` outside a transaction. -/
  | idempotent (clientId idempotencyKey : Str)
  /-- `SELECT 1 FROM credentials WHERE hash_kid = ?`. -/
  | credentialUses (kid : Str)
  /-- `SELECT 1 FROM proofs WHERE hash_kid = ?`. -/
  | proofUses (kid : Str)
  /-- `Store.referenced_hash_kids`. -/
  | referencedKids
  /-- `SELECT hash_kid, key_check FROM hash_keys WHERE hash_kid IN (...)`. -/
  | keyChecks (kids : List Str)
  /-- A writing method of the store. -/
  | store (c : StoreCall)
  /-- `Store.backup`: the ledger that was written. -/
  | backup

/-- The value a command returns. -/
abbrev Op.Val : Op → Type
  | clock => ℤ
  | tokenBytes _ => Bytes
  | newRootKey => RootKey
  | newKid _ => Str
  | acquire _ => Unit
  | tryAcquire _ => Bool
  | release _ => Unit
  | readKeyring => KeyRing
  | replaceKeyring _ => Unit
  | memory => KeyRing
  | setMemory _ => Unit
  | nextCleanupAt => ℤ
  | setNextCleanupAt _ => Unit
  | startServing => Unit
  | deliver _ => Unit
  | credential _ => Option CredentialRow
  | client _ => Option ClientRow
  | restoreRequired => Bool
  | joined _ => Option (CredentialRow × ClientRow)
  | idempotent _ _ => Option VerificationRow
  | credentialUses _ => Bool
  | proofUses _ => Bool
  | referencedKids => List Str
  | keyChecks _ => List (Str × Str)
  | store c => c.Reply
  | backup => Ledger

/-- The answer to a command: a value or an exception. -/
abbrev Op.Ans (c : Op) : Type := Except Error c.Val

/-- The texts that a query binds. -/
def Op.params : Op → List Str
  | credential id | client id | joined id => [id]
  | idempotent clientId key => [clientId, key]
  | credentialUses kid | proofUses kid => [kid]
  | keyChecks kids => kids
  | _ => []

/-- A time that `int(time.time())` reads: the interpreter counts nanoseconds in 64 bits. -/
abbrev Timely (t : ℤ) : Prop := -9223372036 ≤ t ∧ t ≤ 9223372036

/-- A cleanup can be made at any clock reading. -/
theorem Timely.cleanupTime {t : ℤ} (h : Timely t) : CleanupTime t := by
  simp only [Timely, CleanupTime, Bindable, auditRetentionSeconds] at h ⊢
  omega

/-- What the outside contributes to a command. -/
structure Choice where
  /-- An exception before the command has an effect. -/
  fault : Bool
  /-- An exception after `os.replace` took effect. -/
  late : Bool
  /-- The clock reading. -/
  now : ℤ
  timely : Timely now
  /-- The bytes drawn by the command. -/
  bytes : Bytes
  /-- The root key drawn by the command. -/
  rootKey : RootKey
  /-- The bytes drawn inside the transaction. -/
  draws : Draws
  /-- The statement at which the transaction is cut off. -/
  cut : Option ℕ

/-- The reading and the bytes of a transaction. -/
def Choice.chance (i : Choice) : Chance := ⟨i.now, i.draws⟩

/-! ### The world -/

/-- A process: the attributes of its `KeyRing` and its service object. -/
structure Proc where
  memory : Option KeyRing
  nextCleanupAt : Option ℤ
  serving : Bool

/-- A process that has not loaded anything. -/
def Proc.fresh : Proc := ⟨none, none, false⟩

/-- The world of an instance. A held lock records the process and the thread. -/
structure World where
  ledger : Ledger
  keyring : KeyRing
  locks : Lock → Option (ℕ × ℕ)
  procs : ℕ → Option Proc

namespace World

/-- A new instance: an empty ledger and a keyring with one key. -/
def created (kid : Str) (key : RootKey) : World where
  ledger := .empty
  keyring := .created kid key
  locks := fun _ => none
  procs := fun _ => none

/-- Change a process. -/
def setProc (w : World) (p : ℕ) (f : Proc → Proc) : World :=
  { w with procs := Function.update w.procs p ((w.procs p).map f) }

/-- Take or free a lock. -/
def setLock (w : World) (l : Lock) (h : Option (ℕ × ℕ)) : World :=
  { w with locks := Function.update w.locks l h }

/-- A process stops: its attributes are gone and the kernel frees its locks. -/
def stop (p : ℕ) (w : World) : World where
  ledger := w.ledger
  keyring := w.keyring
  locks := fun l => (w.locks l).filter fun h => h.1 ≠ p
  procs := Function.update w.procs p none

end World

/-- A command that an exception may keep from its effect. -/
def orFault {α : Type} (i : Choice) (w : World) (x : Except Error α × World) :
    Option (Except Error α × World) :=
  some (if i.fault then (.error .interrupted, w) else x)

/-- A `SELECT` outside a transaction, with the texts bound to it. -/
def queried {α : Type} (i : Choice) (w : World) (params : List Str) (query : Ledger → α) :
    Option (Except Error α × World) :=
  orFault i w (if params.all Str.encodable then .ok (query w.ledger)
    else .error .unicodeEncodeError, w)

/-- The execution of a command by the thread `tid` of the process `p`; `none` if it is
blocked. -/
def Op.exec (p tid : ℕ) (c : Op) (i : Choice) (w : World) : Option (c.Ans × World) :=
  match c with
  | clock => orFault i w (.ok i.now, w)
  | tokenBytes _ => orFault i w (.ok i.bytes, w)
  | newRootKey => orFault i w (.ok i.rootKey, w)
  | newKid existing =>
    -- the loop goes on until the drawn id is new
    if lit "hk_" ++ hexlify i.bytes ∈ existing then none
    else orFault i w (.ok (lit "hk_" ++ hexlify i.bytes), w)
  | acquire l =>
    if (w.locks (l.of p)).isSome then none
    else orFault i w (.ok (), w.setLock (l.of p) (some (p, tid)))
  | tryAcquire l =>
    if (w.locks (l.of p)).isSome then orFault i w (.ok false, w)
    else orFault i w (.ok true, w.setLock (l.of p) (some (p, tid)))
  | release l => some (.ok (), w.setLock (l.of p) none)
  | readKeyring => orFault i w (.ok w.keyring, w)
  | replaceKeyring k =>
    if i.late then some (.error .keyringCommitUncertain, { w with keyring := k })
    else orFault i w (.ok (), { w with keyring := k })
  | memory => ((w.procs p).bind Proc.memory).map fun k => (.ok k, w)
  | setMemory k => some (.ok (), w.setProc p fun q => { q with memory := some k })
  | nextCleanupAt => ((w.procs p).bind Proc.nextCleanupAt).map fun t => (.ok t, w)
  | setNextCleanupAt t =>
    some (.ok (), w.setProc p fun q => { q with nextCleanupAt := some t })
  | startServing =>
    if ((w.procs p).bind Proc.memory).isSome ∧ ((w.procs p).bind Proc.nextCleanupAt).isSome
    then some (.ok (), w.setProc p fun q => { q with serving := true })
    else none
  | deliver _ => orFault i w (.ok (), w)
  | credential id => queried i w [id] fun db => db.credentials.get? id
  | client id => queried i w [id] fun db => db.clients.get? id
  | restoreRequired => queried i w [] Ledger.restoreRequired
  | joined id => queried i w [id] fun db => db.joined id .verification
  | idempotent clientId key => queried i w [clientId, key] fun db => db.idempotent clientId key
  | credentialUses kid =>
    queried i w [kid] fun db => db.credentials.rows.any fun c => c.hashKid = kid
  | proofUses kid => queried i w [kid] fun db => db.proofs.rows.any fun r => r.hashKid = kid
  | referencedKids => queried i w [] Ledger.referenced
  | keyChecks kids => queried i w kids fun db => db.checks kids
  | store c =>
    let (x, ledger) := Tx.write .interrupted i.cut (c.tx i.chance) w.ledger
    some (x, { w with ledger := ledger })
  | backup => orFault i w (.ok (Store.backup w.ledger), w)

/-! ### What a command does -/

section Exec

variable {p tid : ℕ} {i : Choice} {w w' : World}

theorem orFault_eq_some {α : Type} {x y : Except Error α × World} :
    orFault i w x = some y ↔
      (i.fault = true ∧ y = (.error .interrupted, w)) ∨ (i.fault = false ∧ y = x) := by
  unfold orFault
  cases i.fault <;> simp [eq_comm]

/-- A command that may be interrupted leaves the world alone or does its work. -/
theorem orFault_world {α : Type} {x : Except Error α × World} {a : Except Error α}
    (h : orFault i w x = some (a, w')) : w' = w ∨ w' = x.2 := by
  rcases orFault_eq_some.mp h with ⟨-, h⟩ | ⟨-, h⟩
  · exact Or.inl (Prod.mk.inj h).2
  · exact Or.inr (congrArg Prod.snd h)

/-- A command that answers unless it is interrupted. -/
theorem orFault_ok {α : Type} {v : α} {a : Except Error α} {w₁ : World}
    (h : orFault i w (.ok v, w₁) = some (a, w')) :
    (a = .error .interrupted ∧ w' = w) ∨ (a = .ok v ∧ w' = w₁) := by
  rcases orFault_eq_some.mp h with ⟨-, h⟩ | ⟨-, h⟩
  · exact Or.inl ⟨(Prod.mk.inj h).1, (Prod.mk.inj h).2⟩
  · exact Or.inr ⟨(Prod.mk.inj h).1, (Prod.mk.inj h).2⟩

/-- A query answers from the ledger or raises, and changes nothing. -/
theorem queried_eq_some {α : Type} {params : List Str} {query : Ledger → α}
    {a : Except Error α} (h : queried i w params query = some (a, w')) :
    w' = w ∧ ((∃ e, a = .error e) ∨
      a = .ok (query w.ledger) ∧ params.all Str.encodable = true) := by
  rcases orFault_eq_some.mp h with ⟨-, h⟩ | ⟨-, h⟩
  · obtain ⟨rfl, rfl⟩ := Prod.mk.inj h
    exact ⟨rfl, Or.inl ⟨_, rfl⟩⟩
  · obtain ⟨rfl, rfl⟩ := Prod.mk.inj h
    split_ifs with hp
    · exact ⟨rfl, Or.inr ⟨rfl, hp⟩⟩
    · exact ⟨rfl, Or.inl ⟨_, rfl⟩⟩

/-- The value of a query is read from the ledger. -/
theorem queried_ok {α : Type} {params : List Str} {query : Ledger → α} {v : α}
    (h : queried i w params query = some (.ok v, w')) : v = query w.ledger := by
  rcases (queried_eq_some h).2 with ⟨e, he⟩ | ⟨hv, -⟩
  · cases he
  · exact Except.ok.inj hv

/-- What the clock answers is a reading. -/
theorem Op.exec_clock {t : ℤ} (h : Op.clock.exec p tid i w = some (.ok t, w')) : Timely t := by
  rcases orFault_eq_some.mp h with ⟨-, h⟩ | ⟨-, h⟩
  · cases (Prod.mk.inj h).1
  · exact Except.ok.inj (Prod.mk.inj h).1 ▸ i.timely

theorem Op.exec_credential {id : Str} {row : Option CredentialRow}
    (h : (Op.credential id).exec p tid i w = some (.ok row, w')) :
    row = w.ledger.credentials.get? id := by
  simp only [Op.exec] at h
  exact queried_ok h

theorem Op.exec_joined {id : Str} {row : Option (CredentialRow × ClientRow)}
    (h : (Op.joined id).exec p tid i w = some (.ok row, w')) :
    row = w.ledger.joined id .verification := by
  simp only [Op.exec] at h
  exact queried_ok h

theorem Op.exec_idempotent {clientId key : Str} {row : Option VerificationRow}
    (h : (Op.idempotent clientId key).exec p tid i w = some (.ok row, w')) :
    row = w.ledger.idempotent clientId key := by
  simp only [Op.exec] at h
  exact queried_ok h

theorem Op.exec_restoreRequired {required : Bool}
    (h : Op.restoreRequired.exec p tid i w = some (.ok required, w')) :
    required = w.ledger.restoreRequired := by
  simp only [Op.exec] at h
  exact queried_ok h

/-- A write transaction commits, or raises and leaves the ledger alone. -/
theorem Op.exec_store {c : StoreCall} {a : (Op.store c).Ans}
    (h : (Op.store c).exec p tid i w = some (a, w')) :
    (∃ reply, a = .ok reply ∧
        Tx.run (c.tx i.chance) w.ledger = .ok (reply, w'.ledger) ∧
        w' = { w with ledger := w'.ledger }) ∨
      ∃ e, a = .error e ∧ w' = w := by
  simp only [Op.exec, Option.some.injEq, Prod.mk.injEq] at h
  obtain ⟨rfl, rfl⟩ := h
  cases hx : Tx.write Error.interrupted i.cut (c.tx i.chance) w.ledger with
  | mk x ledger =>
    cases x with
    | ok reply => exact Or.inl ⟨reply, rfl, Tx.write_ok hx, rfl⟩
    | error e => exact Or.inr ⟨e, rfl, by rw [Tx.write_error hx]⟩

theorem queried_error {α : Type} {params : List Str} {query : Ledger → α} {e : Error}
    (h : queried i w params query = some (.error e, w')) :
    e = .interrupted ∨ e = .unicodeEncodeError ∧ params.all Str.encodable = false := by
  rcases orFault_eq_some.mp h with ⟨-, h⟩ | ⟨-, h⟩
  · exact Or.inl (Except.error.inj (Prod.mk.inj h).1)
  · have h' := (Prod.mk.inj h).1
    split_ifs at h' with hp
    exact Or.inr ⟨Except.error.inj h', by simpa using hp⟩

/-- **Why a command raises**: it was interrupted, a text cannot be bound, the file was
replaced without certainty, or its transaction raises. -/
theorem Op.exec_error {c : Op} {e : Error} (h : c.exec p tid i w = some (.error e, w')) :
    e = .interrupted ∨ (e = .unicodeEncodeError ∧ c.params.all Str.encodable = false) ∨
      (∃ k, c = .replaceKeyring k) ∨
      ∃ call, c = .store call ∧ Tx.run (call.tx i.chance) w.ledger = .error e := by
  have hfault : ∀ {α : Type} {a : α} {w₁ : World}, orFault i w (.ok a, w₁) = some (.error e, w') →
      e = .interrupted := by
    intro α a w₁ hx
    rcases orFault_ok hx with ⟨he, -⟩ | ⟨he, -⟩
    · exact Except.error.inj he
    · cases he
  have hquery : ∀ {α : Type} {params : List Str} {query : Ledger → α},
      queried i w params query = some (.error e, w') → c.params = params →
        e = .interrupted ∨ (e = .unicodeEncodeError ∧ c.params.all Str.encodable = false) ∨
          (∃ k, c = .replaceKeyring k) ∨
          ∃ call, c = .store call ∧ Tx.run (call.tx i.chance) w.ledger = .error e :=
    fun hx hp => (queried_error hx).imp_right fun hx => Or.inl (hp ▸ hx)
  cases c with
  | clock | tokenBytes | newRootKey | readKeyring | deliver | backup => exact Or.inl (hfault h)
  | newKid | acquire =>
    simp only [Op.exec] at h
    split_ifs at h
    exact Or.inl (hfault h)
  | tryAcquire =>
    simp only [Op.exec] at h
    split_ifs at h <;> exact Or.inl (hfault h)
  | release | setMemory | setNextCleanupAt => cases h
  | replaceKeyring k => exact Or.inr (Or.inr (Or.inl ⟨k, rfl⟩))
  | memory | nextCleanupAt =>
    simp only [Op.exec, Option.map_eq_some_iff, Prod.mk.injEq] at h
    obtain ⟨_, -, h, -⟩ := h
    cases h
  | startServing =>
    simp only [Op.exec] at h
    split_ifs at h
    cases h
  | credential | client | joined | idempotent | credentialUses | proofUses | keyChecks =>
    simp only [Op.exec] at h
    exact hquery h rfl
  | restoreRequired | referencedKids =>
    simp only [Op.exec] at h
    exact hquery h rfl
  | store call =>
    simp only [Op.exec, Option.some.injEq] at h
    rcases Tx.write_raised (Prod.ext (Prod.mk.inj h).1 rfl) with he | he
    · exact Or.inl he
    · exact Or.inr (Or.inr (Or.inr ⟨call, rfl, he⟩))

/-! ### What a command leaves alone -/

/-- The part of the world that a command does not write. -/
inductive Op.Frame (p tid : ℕ) (w : World) : (c : Op) → World → Prop
  | none (c : Op) : Frame p tid w c w
  | locked (l : LockName) (c : Op) (hc : c = .acquire l ∨ c = .tryAcquire l)
      (free : w.locks (l.of p) = .none) :
      Frame p tid w c (w.setLock (l.of p) (some (p, tid)))
  | released (l : LockName) : Frame p tid w (.release l) (w.setLock (l.of p) .none)
  | replaced (k : KeyRing) : Frame p tid w (.replaceKeyring k) { w with keyring := k }
  | remembered (k : KeyRing) :
      Frame p tid w (.setMemory k) (w.setProc p fun q => { q with memory := some k })
  | scheduled (t : ℤ) :
      Frame p tid w (.setNextCleanupAt t)
        (w.setProc p fun q => { q with nextCleanupAt := some t })
  | served (loaded : ((w.procs p).bind Proc.memory).isSome = true) :
      Frame p tid w .startServing (w.setProc p fun q => { q with serving := true })
  | committed (c : StoreCall) (ledger : Ledger) :
      Frame p tid w (.store c) { w with ledger := ledger }

/-- A command that may be interrupted. -/
theorem Op.Frame.of_fault {α : Type} {c : Op} {x : Except Error α × World} {a : Except Error α}
    (hx : c.Frame p tid w x.2) (h : orFault i w x = some (a, w')) : c.Frame p tid w w' := by
  obtain rfl | rfl := orFault_world h
  · exact .none c
  · exact hx

/-- A query. -/
theorem Op.Frame.of_query {α : Type} {c : Op} {params : List Str} {query : Ledger → α}
    {a : Except Error α} (h : queried i w params query = some (a, w')) : c.Frame p tid w w' := by
  obtain rfl := (queried_eq_some h).1
  exact .none c

/-- A lock is taken only if it was free. -/
theorem Op.frame_acquire {l : LockName} {a : (Op.acquire l).Ans}
    (h : (Op.acquire l).exec p tid i w = some (a, w')) : (Op.acquire l).Frame p tid w w' := by
  simp only [Op.exec] at h
  split_ifs at h with hl
  exact .of_fault (.locked l _ (Or.inl rfl) (by simpa using hl)) h

theorem Op.frame_tryAcquire {l : LockName} {a : (Op.tryAcquire l).Ans}
    (h : (Op.tryAcquire l).exec p tid i w = some (a, w')) :
    (Op.tryAcquire l).Frame p tid w w' := by
  simp only [Op.exec] at h
  split_ifs at h with hl
  · exact .of_fault (.none _) h
  · exact .of_fault (.locked l _ (Or.inr rfl) (by simpa using hl)) h

/-- A late fault comes after the replacement. -/
theorem Op.frame_replaceKeyring {k : KeyRing} {a : (Op.replaceKeyring k).Ans}
    (h : (Op.replaceKeyring k).exec p tid i w = some (a, w')) :
    (Op.replaceKeyring k).Frame p tid w w' := by
  simp only [Op.exec] at h
  split_ifs at h
  · simp only [Option.some.injEq, Prod.mk.injEq] at h
    rw [← h.2]
    exact .replaced k
  · exact .of_fault (.replaced k) h

/-- A process serves once it has loaded its keyring. -/
theorem Op.frame_startServing {a : Op.startServing.Ans}
    (h : Op.startServing.exec p tid i w = some (a, w')) :
    Op.startServing.Frame p tid w w' := by
  simp only [Op.exec] at h
  split_ifs at h with hloaded
  simp only [Option.some.injEq, Prod.mk.injEq] at h
  rw [← h.2]
  exact .served hloaded.1

/-- A call of the store commits or leaves the ledger alone. -/
theorem Op.frame_store {call : StoreCall} {a : (Op.store call).Ans}
    (h : (Op.store call).exec p tid i w = some (a, w')) : (Op.store call).Frame p tid w w' := by
  rcases Op.exec_store h with ⟨_, -, -, hw⟩ | ⟨_, -, rfl⟩
  · rw [hw]
    exact .committed call _
  · exact .none _

/-- **The frame of a command**: what it does not write is as before. -/
theorem Op.exec_frame {c : Op} {a : c.Ans} (h : c.exec p tid i w = some (a, w')) :
    c.Frame p tid w w' := by
  cases c with
  | clock | tokenBytes | newRootKey | readKeyring | deliver | backup =>
    simp only [Op.exec] at h
    exact .of_fault (.none _) h
  | newKid existing =>
    simp only [Op.exec] at h
    split_ifs at h
    exact .of_fault (.none _) h
  | acquire l => exact Op.frame_acquire h
  | tryAcquire l => exact Op.frame_tryAcquire h
  | release l =>
    simp only [Op.exec, Option.some.injEq, Prod.mk.injEq] at h
    rw [← h.2]
    exact .released l
  | replaceKeyring k => exact Op.frame_replaceKeyring h
  | memory | nextCleanupAt =>
    simp only [Op.exec, Option.map_eq_some_iff, Prod.mk.injEq] at h
    obtain ⟨_, -, -, rfl⟩ := h
    exact .none _
  | setMemory k =>
    simp only [Op.exec, Option.some.injEq, Prod.mk.injEq] at h
    rw [← h.2]
    exact .remembered k
  | setNextCleanupAt t =>
    simp only [Op.exec, Option.some.injEq, Prod.mk.injEq] at h
    rw [← h.2]
    exact .scheduled t
  | startServing => exact Op.frame_startServing h
  | credential | client | restoreRequired | joined | idempotent | credentialUses | proofUses
  | referencedKids | keyChecks =>
    simp only [Op.exec] at h
    exact .of_query h
  | store call => exact Op.frame_store h

/-- Only a write transaction changes the ledger. -/
theorem Op.exec_ledger {c : Op} {a : c.Ans} (h : c.exec p tid i w = some (a, w'))
    (hc : ∀ call, c ≠ .store call) : w'.ledger = w.ledger := by
  cases Op.exec_frame h with
  | committed call => exact absurd rfl (hc call)
  | _ => rfl

/-- Only a replacement changes the keyring file. -/
theorem Op.exec_keyring {c : Op} {a : c.Ans} (h : c.exec p tid i w = some (a, w'))
    (hc : ∀ k, c ≠ .replaceKeyring k) : w'.keyring = w.keyring := by
  cases Op.exec_frame h with
  | replaced k => exact absurd rfl (hc k)
  | _ => rfl

end Exec

/-- Programs of a process. -/
abbrev HostProg (α : Type) : Type := Prog Op Op.Ans Error α

/-- Issue a command, raising the exception it answers with. -/
abbrev Op.run (c : Op) : HostProg c.Val := Prog.perform c

end Onceproof

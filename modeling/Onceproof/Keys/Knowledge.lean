import Onceproof.Service.Requests

/-!
# What a thread knows of the keyring

A thread learns about the keyring file, the memory of its process and the rows of the ledger
by commands, and what it learned stays true only while it holds the right locks. `Knowledge`
is the record of what it learned since it last took or freed a lock, as a fold over its
history. `Allowed` says what a thread must know, and which locks it must hold, when it issues
a command that touches the keyring or stores a key id; `program_allowed` shows that every
program of the system follows it.
-/

namespace Onceproof

/-- What a thread learned from its commands. -/
structure Knowledge where
  /-- The locks it holds. -/
  held : List LockName
  /-- The last generation that it read from the file. -/
  read : Option KeyRing
  /-- The generations that it read from or gave to the memory of its process. -/
  memories : List KeyRing
  /-- A key id that it did not find among the credentials. -/
  unusedCredential : Option Str
  /-- A key id that it did not find among the proofs. -/
  unusedProof : Option Str
  /-- The last key id that it drew, and those that it is not among. -/
  drawn : Option (Finset Str × Str)
  /-- The random tokens that it drew, with their lengths. -/
  tokens : List (ℕ × Bytes)
  /-- The copies of the ledger that it made, with the generations it knew then. -/
  backups : List (Ledger × KeyRing)
  /-- Whether it made its process serve. -/
  started : Bool

namespace Knowledge

/-- A thread that did nothing. -/
def nothing : Knowledge := ⟨[], none, [], none, none, none, [], [], false⟩

/-- What remains when the held locks, the file or the role of the process changes. -/
def forget (k : Knowledge) (held : List LockName) : Knowledge :=
  { k with held, read := none, memories := [], unusedCredential := none, unusedProof := none }

/-- What a thread knows after a command was answered. -/
def next (k : Knowledge) : Answered Op Op.Ans → Knowledge
  | ⟨.acquire l, .ok _⟩ => k.forget (l :: k.held)
  | ⟨.tryAcquire l, .ok true⟩ => k.forget (l :: k.held)
  | ⟨.release l, _⟩ => k.forget (k.held.erase l)
  | ⟨.readKeyring, .ok d⟩ => { k with read := some d }
  | ⟨.memory, .ok m⟩ => { k with memories := m :: k.memories }
  | ⟨.setMemory m, .ok _⟩ => { k with memories := [m] }
  | ⟨.replaceKeyring _, _⟩ => k.forget k.held
  | ⟨.tokenBytes n, .ok bytes⟩ => { k with tokens := (n, bytes) :: k.tokens }
  | ⟨.newKid existing, .ok kid⟩ => { k with drawn := some (existing, kid) }
  | ⟨.credentialUses kid, .ok false⟩ => { k with unusedCredential := some kid }
  | ⟨.proofUses kid, .ok false⟩ => { k with unusedProof := some kid }
  | ⟨.store _, _⟩ => { k with unusedCredential := none, unusedProof := none }
  | ⟨.backup, .ok db⟩ => { k with backups := k.memories.map (fun m => (db, m)) ++ k.backups }
  | ⟨.startServing, .ok _⟩ => { k.forget k.held with started := true }
  | _ => k

section Next

-- one lemma for each command, so that no proof unfolds the match of `next`
variable (k : Knowledge)

/-- A lock that is taken is held, and what was known of the file and the memory may be old. -/
@[simp]
theorem next_acquire (l : LockName) (a : (Op.acquire l).Ans) :
    k.next ⟨.acquire l, a⟩ =
      match a with
      | .ok _ => k.forget (l :: k.held)
      | _ => k := by
  cases a <;> rfl

/-- A lock is taken only if the answer says so. -/
@[simp]
theorem next_tryAcquire (l : LockName) (a : (Op.tryAcquire l).Ans) :
    k.next ⟨.tryAcquire l, a⟩ =
      match a with
      | .ok true => k.forget (l :: k.held)
      | _ => k := by
  rcases a with _ | (_ | _) <;> rfl

/-- A lock that is freed protects nothing any more. -/
@[simp]
theorem next_release (l : LockName) (a : (Op.release l).Ans) :
    k.next ⟨.release l, a⟩ = k.forget (k.held.erase l) := rfl

/-- The generation on disk. -/
@[simp]
theorem next_readKeyring (a : Op.readKeyring.Ans) :
    k.next ⟨.readKeyring, a⟩ =
      match a with
      | .ok d => { k with read := some d }
      | _ => k := by
  cases a <;> rfl

/-- A generation in memory. -/
@[simp]
theorem next_memory (a : Op.memory.Ans) :
    k.next ⟨.memory, a⟩ =
      match a with
      | .ok m => { k with memories := m :: k.memories }
      | _ => k := by
  cases a <;> rfl

/-- After a reload the memory is the one that was set. -/
@[simp]
theorem next_setMemory (m : KeyRing) (a : (Op.setMemory m).Ans) :
    k.next ⟨.setMemory m, a⟩ =
      match a with
      | .ok _ => { k with memories := [m] }
      | _ => k := by
  cases a <;> rfl

/-- A replaced file has to be read again, however the replacement ended. -/
@[simp]
theorem next_replaceKeyring (m : KeyRing) (a : (Op.replaceKeyring m).Ans) :
    k.next ⟨.replaceKeyring m, a⟩ = k.forget k.held := rfl

/-- The bytes that were drawn, with how many were asked for. -/
@[simp]
theorem next_tokenBytes (n : ℕ) (a : (Op.tokenBytes n).Ans) :
    k.next ⟨.tokenBytes n, a⟩ =
      match a with
      | .ok bytes => { k with tokens := (n, bytes) :: k.tokens }
      | _ => k := by
  cases a <;> rfl

/-- A new key id, with those that it was to differ from. -/
@[simp]
theorem next_newKid (existing : Finset Str) (a : (Op.newKid existing).Ans) :
    k.next ⟨.newKid existing, a⟩ =
      match a with
      | .ok kid => { k with drawn := some (existing, kid) }
      | _ => k := by
  cases a <;> rfl

/-- That no credential is under a key holds until the next commit. -/
@[simp]
theorem next_credentialUses (kid : Str) (a : (Op.credentialUses kid).Ans) :
    k.next ⟨.credentialUses kid, a⟩ =
      match a with
      | .ok false => { k with unusedCredential := some kid }
      | _ => k := by
  rcases a with _ | (_ | _) <;> rfl

/-- Likewise that no proof is. -/
@[simp]
theorem next_proofUses (kid : Str) (a : (Op.proofUses kid).Ans) :
    k.next ⟨.proofUses kid, a⟩ =
      match a with
      | .ok false => { k with unusedProof := some kid }
      | _ => k := by
  rcases a with _ | (_ | _) <;> rfl

/-- A commit may put any key to use. -/
@[simp]
theorem next_store (call : StoreCall) (a : (Op.store call).Ans) :
    k.next ⟨.store call, a⟩ = { k with unusedCredential := none, unusedProof := none } := rfl

/-- A copy of the ledger is kept with the memories known at that time. -/
@[simp]
theorem next_backup (a : Op.backup.Ans) :
    k.next ⟨.backup, a⟩ =
      match a with
      | .ok db => { k with backups := k.memories.map (fun m => (db, m)) ++ k.backups }
      | _ => k := by
  cases a <;> rfl

/-- A server has started, and other threads of its process may act from now on. -/
@[simp]
theorem next_startServing (a : Op.startServing.Ans) :
    k.next ⟨.startServing, a⟩ =
      match a with
      | .ok _ => { k.forget k.held with started := true }
      | _ => k := by
  cases a <;> rfl

/-- All other commands teach nothing about the keys. -/
@[simp]
theorem next_clock (a : Op.clock.Ans) : k.next ⟨.clock, a⟩ = k := rfl

@[simp]
theorem next_newRootKey (a : Op.newRootKey.Ans) : k.next ⟨.newRootKey, a⟩ = k := rfl

@[simp]
theorem next_nextCleanupAt (a : Op.nextCleanupAt.Ans) : k.next ⟨.nextCleanupAt, a⟩ = k := rfl

@[simp]
theorem next_setNextCleanupAt (t : ℤ) (a : (Op.setNextCleanupAt t).Ans) :
    k.next ⟨.setNextCleanupAt t, a⟩ = k := rfl

@[simp]
theorem next_deliver (d : Delivery) (a : (Op.deliver d).Ans) : k.next ⟨.deliver d, a⟩ = k := rfl

@[simp]
theorem next_credential (id : Str) (a : (Op.credential id).Ans) :
    k.next ⟨.credential id, a⟩ = k := rfl

@[simp]
theorem next_client (id : Str) (a : (Op.client id).Ans) : k.next ⟨.client id, a⟩ = k := rfl

@[simp]
theorem next_restoreRequired (a : Op.restoreRequired.Ans) : k.next ⟨.restoreRequired, a⟩ = k := rfl

@[simp]
theorem next_joined (id : Str) (a : (Op.joined id).Ans) : k.next ⟨.joined id, a⟩ = k := rfl

@[simp]
theorem next_idempotent (clientId key : Str) (a : (Op.idempotent clientId key).Ans) :
    k.next ⟨.idempotent clientId key, a⟩ = k := rfl

@[simp]
theorem next_referencedKids (a : Op.referencedKids.Ans) : k.next ⟨.referencedKids, a⟩ = k := rfl

@[simp]
theorem next_keyChecks (kids : List Str) (a : (Op.keyChecks kids).Ans) :
    k.next ⟨.keyChecks kids, a⟩ = k := rfl

end Next

/-- The file and the memory of the process were seen to agree on a generation. -/
def Agreed (k : Knowledge) : Prop :=
  .keyringFile ∈ k.held ∧ ∃ d, k.read = some d ∧ d ∈ k.memories

/-- Nothing was lost from `k` to `k'`. -/
structure Keeps (k k' : Knowledge) : Prop where
  held : k'.held = k.held
  read : k'.read = k.read
  memories : k.memories ⊆ k'.memories
  tokens : k.tokens ⊆ k'.tokens
  started : k'.started = k.started

theorem Keeps.refl (k : Knowledge) : k.Keeps k :=
  ⟨rfl, rfl, List.Subset.refl _, List.Subset.refl _, rfl⟩

/-- Knowledge is kept along a history. -/
theorem Keeps.trans {k k' k'' : Knowledge} (h : k.Keeps k') (h' : k'.Keeps k'') : k.Keeps k'' :=
  ⟨h'.held.trans h.held, h'.read.trans h.read, List.Subset.trans h.memories h'.memories,
    List.Subset.trans h.tokens h'.tokens, h'.started.trans h.started⟩

/-- What agreed still agrees. -/
theorem Keeps.agreed {k k' : Knowledge} (h : k.Keeps k') (ha : k.Agreed) : k'.Agreed := by
  obtain ⟨hheld, d, hread, hd⟩ := ha
  exact ⟨h.held ▸ hheld, d, h.read ▸ hread, h.memories hd⟩

end Knowledge

/-- What a thread knows after a history. -/
def known (h : Hist) : Knowledge := h.foldl Knowledge.next .nothing

@[simp]
theorem known_append (h h' : Hist) : known (h ++ h') = h'.foldl Knowledge.next (known h) :=
  List.foldl_append

/-- What one more answer adds. -/
theorem known_snoc (h : Hist) (x : Answered Op Op.Ans) :
    known (h ++ [x]) = (known h).next x := by
  simp [known]

/-- The commands that take nothing from what is known. -/
def Op.Keeps : Op → Prop
  | .acquire _ | .tryAcquire _ | .release _ | .readKeyring | .setMemory _ | .replaceKeyring _
  | .startServing => False
  | _ => True

/-- A command that is none of the keyring's keeps what is known. -/
theorem Knowledge.keeps_next (k : Knowledge) {c : Op} (hc : c.Keeps) (a : c.Ans) :
    k.Keeps (k.next ⟨c, a⟩) := by
  cases c with
  | acquire | tryAcquire | release | readKeyring | setMemory | replaceKeyring | startServing =>
    exact hc.elim
  | memory =>
    cases a with
    | error e => exact .refl k
    | ok m => exact ⟨rfl, rfl, List.subset_cons_self _ _, List.Subset.refl _, rfl⟩
  | tokenBytes =>
    cases a with
    | error e => exact .refl k
    | ok bytes => exact ⟨rfl, rfl, List.Subset.refl _, List.subset_cons_self _ _, rfl⟩
  | newKid | backup =>
    cases a <;> exact ⟨rfl, rfl, List.Subset.refl _, List.Subset.refl _, rfl⟩
  | credentialUses | proofUses =>
    rcases a with e | (_ | _) <;> exact ⟨rfl, rfl, List.Subset.refl _, List.Subset.refl _, rfl⟩
  | _ => exact ⟨rfl, rfl, List.Subset.refl _, List.Subset.refl _, rfl⟩

/-! ### Conditions of commands -/

/-- A request to the service object of a serving process. -/
def Request.IsApi : Request → Prop
  | .api _ => True
  | .command _ => False

/-- A thread that keeps every other thread from rotating keys or issuing proofs. -/
def Request.Excludes (r : Request) (k : Knowledge) : Prop :=
  r.IsApi ∧ .keyLock ∈ k.held ∨ .instanceLock ∈ k.held ∧ r ≠ .command .serve

/-- The generations that may replace the one on disk: one more key, or one key less that
nothing uses. -/
inductive Request.Replaces (r : Request) (k : Knowledge) : KeyRing → Prop
  | rotated {m : KeyRing} {kid : Str} (key : RootKey) (known : m ∈ k.memories)
      (fresh : k.drawn = some (m.keys.keys, kid))
      (exclusive : r.IsApi ∨ .instanceLock ∈ k.held ∧ r ≠ .command .serve) :
      Replaces r k (m.rotated kid key)
  | retired {m : KeyRing} {kid : Str} (old : kid ≠ m.currentKid) (known : m ∈ k.memories)
      (credential : k.unusedCredential = some kid) (proof : k.unusedProof = some kid)
      (exclusive : r.Excludes k) : Replaces r k (m.retired kid old)

/-- A new credential: its id and its secret were drawn, and its digest is that of the secret
under the key. -/
def CredentialRecord.Minted (H : HashLib) (c : CredentialRecord) (key : Str × RootKey)
    (tokens : List (ℕ × Bytes)) : Prop :=
  c.hashKid = key.1 ∧ ∃ idBytes bytes, (12, idBytes) ∈ tokens ∧ (32, bytes) ∈ tokens ∧
    c.credentialId = c.role.idPrefix ++ hexlify idBytes ∧
    credentialDigest H key.2.val (Service.newSecret c.role c.credentialId bytes) =
      .ok c.secretDigest

/-- A secret that was drawn stays drawn. -/
theorem CredentialRecord.Minted.mono {H : HashLib} {c : CredentialRecord} {key : Str × RootKey}
    {tokens tokens' : List (ℕ × Bytes)} (h : c.Minted H key tokens) (hsub : tokens ⊆ tokens') :
    c.Minted H key tokens' := by
  obtain ⟨hkid, idBytes, bytes, hid, hbytes, hrest⟩ := h
  exact ⟨hkid, idBytes, bytes, hsub hid, hsub hbytes, hrest⟩

/-- The condition under which a request issues a command, for what it knows. -/
def Allowed (H : HashLib) (r : Request) (k : Knowledge) : Op → Prop
  | .acquire l => l ≠ .instanceLock
  | .tryAcquire l => l = .instanceLock → ¬ r.IsApi
  | .release l => l ∈ k.held ∧ (l = .instanceLock → r ≠ .command .serve)
  | .setMemory m => k.read = some m ∧
      (.keyringFile ∈ k.held ∨ ¬ r.IsApi ∧ k.started = false)
  | .replaceKeyring m => k.Agreed ∧ r.Replaces k m
  | .startServing => r = .command .serve ∧ k.started = false ∧ .instanceLock ∈ k.held ∧
      ∃ m, k.read = some m ∧ m ∈ k.memories
  | .store (.createClient a) => k.Agreed ∧
      (∃ m ∈ k.memories, a.issuanceCredential.Minted H m.currentKey k.tokens) ∧
      (∃ m ∈ k.memories, a.verificationCredential.Minted H m.currentKey k.tokens) ∧
      ∃ m ∈ k.memories, keyCheck H m.currentKey.2.val = .ok a.hashKeyCheck
  | .store (.rotateCredential a) => k.Agreed ∧
      (∃ m ∈ k.memories, a.replacement.Minted H m.currentKey k.tokens) ∧
      ∃ m ∈ k.memories, keyCheck H m.currentKey.2.val = .ok a.hashKeyCheck
  | .store (.issueProof record check) => r.IsApi ∧ .keyLock ∈ k.held ∧
      ∃ m ∈ k.memories, ∃ bytes, record.hashKid = m.currentKey.1 ∧
        keyCheck H m.currentKey.2.val = .ok check ∧
        proofDigest H m.currentKey.2.val (Service.proofToken m.currentKey.1 bytes) =
          .ok record.tokenDigest
  | .backup => k.Agreed
  | _ => True

end Onceproof

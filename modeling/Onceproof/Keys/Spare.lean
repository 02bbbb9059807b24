import Onceproof.Keys.Naming
import Onceproof.Lib.Coupling

/-!
# A spare key

A keyring may have a key that no row names. With that key or without it, the service issues the
same commands in the same order (`spare_couples`): a row that is looked up names another key, and
a proof that names the spare key is looked up under a digest that no row has, whichever it is. Only
what is about the key itself tells the difference: retiring it, and a backup of the keyring.
-/

namespace Onceproof

variable {H : HashLib} {w w' : World} {k m : KeyRing} {kid : Str} {key : RootKey} {p tid : ℕ}
variable {i : Choice} {db : Ledger}

/-! ### Keyrings -/

namespace KeyRing

/-- The keyring with another key. -/
def withKey (k : KeyRing) (kid : Str) (key : RootKey) : KeyRing where
  currentKid := k.currentKid
  keys := k.keys.insert kid key
  current_mem := Finmap.mem_insert.mpr (Or.inr k.current_mem)

theorem keyFor_withKey (kid' : Str) :
    (k.withKey kid key).keyFor kid' = if kid' = kid then some key else k.keyFor kid' := by
  rw [keyFor, keyFor, withKey]
  by_cases h : kid' = kid
  · rw [if_pos h, h]
    exact Finmap.lookup_insert _
  · rw [if_neg h]
    exact Finmap.lookup_insert_of_ne _ h

theorem keyFor_withKey_of_ne {kid' : Str} (h : kid' ≠ kid) :
    (k.withKey kid key).keyFor kid' = k.keyFor kid' := by
  rw [keyFor_withKey, if_neg h]

theorem keyFor_of_notMem (h : kid ∉ k.keys) : k.keyFor kid = none := Finmap.lookup_eq_none.mpr h

theorem currentKid_ne (h : kid ∉ k.keys) : k.currentKid ≠ kid :=
  fun hsame => h (hsame ▸ k.current_mem)

theorem currentKey_withKey (h : kid ∉ k.keys) : (k.withKey kid key).currentKey = k.currentKey := by
  have hfound := (k.withKey kid key).keyFor_currentKey
  have hkid : (k.withKey kid key).currentKey.1 = k.currentKid := rfl
  rw [hkid, keyFor_withKey_of_ne (currentKid_ne h)] at hfound
  exact Prod.ext rfl (Option.some.inj (hfound.symm.trans k.keyFor_currentKey))

/-- Keyrings are the same if they have the same keys and the same one is current. -/
theorem ext_keyFor (hcurrent : k.currentKid = m.currentKid)
    (hkeys : ∀ kid, k.keyFor kid = m.keyFor kid) : k = m :=
  KeyRing.ext hcurrent (Finmap.ext_lookup hkeys)

/-- The spare key can be told apart from the others. -/
theorem withKey_inj (hk : kid ∉ k.keys) (hm : kid ∉ m.keys) :
    k.withKey kid key = m.withKey kid key ↔ k = m := by
  refine ⟨fun h => ?_, fun h => h ▸ rfl⟩
  have hcurrent : (k.withKey kid key).currentKid = (m.withKey kid key).currentKid := by rw [h]
  refine ext_keyFor hcurrent fun kid' => ?_
  by_cases hkid : kid' = kid
  · rw [hkid, keyFor_of_notMem hk, keyFor_of_notMem hm]
  · have hkey : (k.withKey kid key).keyFor kid' = (m.withKey kid key).keyFor kid' := by rw [h]
    rwa [keyFor_withKey_of_ne hkid, keyFor_withKey_of_ne hkid] at hkey

theorem withKey_rotated {kid' : Str} {key' : RootKey} (h : kid' ≠ kid) :
    (k.withKey kid key).rotated kid' key' = (k.rotated kid' key').withKey kid key := by
  refine ext_keyFor rfl fun kid'' => ?_
  rw [keyFor_rotated, keyFor_withKey, keyFor_withKey, keyFor_rotated]
  by_cases hnew : kid'' = kid'
  · rw [if_pos hnew, if_neg (hnew ▸ h), if_pos hnew]
  · rw [if_neg hnew, if_neg hnew]

theorem withKey_retired {kid' : Str} (hold : kid' ≠ k.currentKid) (h : kid' ≠ kid) :
    (k.withKey kid key).retired kid' hold = (k.retired kid' hold).withKey kid key := by
  refine ext_keyFor rfl fun kid'' => ?_
  have hcurrent : kid' ≠ (k.withKey kid key).currentKid := hold
  refine (keyFor_retired _ kid' kid'' hcurrent).trans ?_
  rw [keyFor_withKey, keyFor_withKey, keyFor_retired]
  by_cases hgone : kid'' = kid'
  · rw [if_pos hgone, if_neg (hgone ▸ h), if_pos hgone]
  · rw [if_neg hgone, if_neg hgone]

/-- A key that is retired is the spare one from then on. -/
theorem retired_withKey (hkey : k.keyFor kid = some key) (hold : kid ≠ k.currentKid) :
    (k.retired kid hold).withKey kid key = k := by
  refine ext_keyFor rfl fun kid' => ?_
  rw [keyFor_withKey, keyFor_retired]
  by_cases hkid : kid' = kid
  · rw [if_pos hkid, hkid, hkey]
  · rw [if_neg hkid, if_neg hkid]

theorem notMem_retired (hold : kid ≠ k.currentKid) : kid ∉ (k.retired kid hold).keys :=
  fun h => (Finmap.mem_erase.mp h).1 rfl

end KeyRing

/-! ### Worlds -/

/-- A process that has a key more in memory. -/
def Proc.withKey (q : Proc) (kid : Str) (key : RootKey) : Proc :=
  { q with memory := q.memory.map fun k => k.withKey kid key }

namespace World

/-- The world in which the keyring, on disk and in memory, has another key. -/
def withKey (w : World) (kid : Str) (key : RootKey) : World where
  ledger := w.ledger
  keyring := w.keyring.withKey kid key
  locks := w.locks
  procs := fun p => (w.procs p).map fun q => q.withKey kid key

/-- Neither the file nor any process has a key of the id. -/
structure Lacks (w : World) (kid : Str) : Prop where
  keyring : kid ∉ w.keyring.keys
  memory : ∀ p m, w.memoryOf p = some m → kid ∉ m.keys

/-- The second world has a key more. -/
def Spares (kid : Str) (key : RootKey) (w w' : World) : Prop :=
  w.Lacks kid ∧ w' = w.withKey kid key

/-- What the rows of an instance say about its keyring. -/
structure Kept (H : HashLib) (w : World) : Prop where
  covered : w.ledger.Covered H w.keyring
  keyed : w.ledger.Keyed H w.keyring
  named : w.keyring.Named DrawnKid

theorem memoryOf_withKey :
    (w.withKey kid key).memoryOf p = (w.memoryOf p).map fun k => k.withKey kid key := by
  have hproc : (w.withKey kid key).procs p = (w.procs p).map fun q => q.withKey kid key := rfl
  rw [memoryOf, memoryOf, hproc]
  cases w.procs p <;> rfl

theorem nextCleanupAt_withKey : ((w.withKey kid key).procs p).bind Proc.nextCleanupAt =
    (w.procs p).bind Proc.nextCleanupAt := by
  have hproc : (w.withKey kid key).procs p = (w.procs p).map fun q => q.withKey kid key := rfl
  rw [hproc]
  cases w.procs p <;> rfl

theorem isSome_memory_withKey : (((w.withKey kid key).procs p).bind Proc.memory).isSome =
    ((w.procs p).bind Proc.memory).isSome := by
  have hmemory : ((w.withKey kid key).procs p).bind Proc.memory =
      ((w.procs p).bind Proc.memory).map fun k => k.withKey kid key := memoryOf_withKey
  rw [hmemory, Option.isSome_map]

/-- A process is put in the place of another with the spare key as without it. -/
theorem update_withKey (o : Option Proc) :
    Function.update (w.withKey kid key).procs p (o.map fun q => q.withKey kid key) =
      fun p' => (Function.update w.procs p o p').map fun q => q.withKey kid key := by
  funext p'
  by_cases hp : p' = p
  · subst hp
    rw [Function.update_self, Function.update_self]
  · rw [Function.update_of_ne hp, Function.update_of_ne hp]
    rfl

/-- Two changes of a process that agree up to the spare key. -/
theorem setProc_withKey_of {f g : Proc → Proc}
    (hfg : ∀ q, g (q.withKey kid key) = (f q).withKey kid key) :
    (w.withKey kid key).setProc p g = (w.setProc p f).withKey kid key := by
  have hproc : ((w.withKey kid key).procs p).map g =
      ((w.procs p).map f).map fun q => q.withKey kid key := by
    have hspare : (w.withKey kid key).procs p = (w.procs p).map fun q => q.withKey kid key := rfl
    rw [hspare, Option.map_map, Option.map_map]
    exact congrArg (fun g => (w.procs p).map g) (funext hfg)
  rw [setProc, hproc, update_withKey]
  rfl

theorem setProc_withKey {f : Proc → Proc}
    (hf : ∀ q, f (q.withKey kid key) = (f q).withKey kid key) :
    (w.withKey kid key).setProc p f = (w.setProc p f).withKey kid key :=
  setProc_withKey_of hf

end World

/-- Commands that touch no keyring. -/
def Op.isKeyless : Op → Bool
  | .newKid _ | .readKeyring | .replaceKeyring _ | .memory | .setMemory _ => false
  | _ => true

theorem orFault_map {α : Type} {f : World → World} {x : Except Error α × World} :
    orFault i (f w) (x.1, f x.2) = (orFault i w x).map fun y => (y.1, f y.2) := by
  rw [orFault, orFault]
  cases i.fault <;> rfl

/-- **A command that touches no keyring** does the same with a spare key. -/
theorem exec_withKey {c : Op} (hc : c.isKeyless = true) :
    c.exec p tid i (w.withKey kid key) =
      (c.exec p tid i w).map fun x => (x.1, x.2.withKey kid key) := by
  have hlocks : (w.withKey kid key).locks = w.locks := rfl
  have hledger : (w.withKey kid key).ledger = w.ledger := rfl
  have hsetLock : ∀ l h, (w.withKey kid key).setLock l h = (w.setLock l h).withKey kid key :=
    fun _ _ => rfl
  -- a fault strikes with the spare key as without it
  have hfault : ∀ {α : Type} (x : Except Error α × World),
      orFault i (w.withKey kid key) (x.1, x.2.withKey kid key) =
        (orFault i w x).map fun y => (y.1, y.2.withKey kid key) :=
    fun x => orFault_map (f := fun w => w.withKey kid key)
  have hquery : ∀ {α : Type} (params : List Str) (query : Ledger → α),
      queried i (w.withKey kid key) params query =
        (queried i w params query).map fun y => (y.1, y.2.withKey kid key) := by
    intro α params query
    exact hfault (if params.all Str.encodable then .ok (query w.ledger)
      else .error .unicodeEncodeError, w)
  cases c with
  | newKid | readKeyring | replaceKeyring | memory | setMemory => cases hc
  | clock => exact hfault (.ok i.now, w)
  | tokenBytes => exact hfault (.ok i.bytes, w)
  | newRootKey => exact hfault (.ok i.rootKey, w)
  | deliver => exact hfault (.ok (), w)
  | backup => exact hfault (.ok (Store.backup w.ledger), w)
  | acquire l =>
    rw [Op.exec, Op.exec, hlocks, hsetLock]
    by_cases htaken : (w.locks (l.of p)).isSome = true
    · rw [if_pos htaken, if_pos htaken]
      rfl
    · rw [if_neg htaken, if_neg htaken]
      exact hfault (.ok (), _)
  | tryAcquire l =>
    rw [Op.exec, Op.exec, hlocks, hsetLock]
    by_cases htaken : (w.locks (l.of p)).isSome = true
    · rw [if_pos htaken, if_pos htaken]
      exact hfault (.ok false, w)
    · rw [if_neg htaken, if_neg htaken]
      exact hfault (.ok true, _)
  | release l => rfl
  | nextCleanupAt =>
    rw [Op.exec, Op.exec, World.nextCleanupAt_withKey]
    cases (w.procs p).bind Proc.nextCleanupAt <;> rfl
  | setNextCleanupAt t =>
    rw [Op.exec, Op.exec, World.setProc_withKey fun _ => rfl]
    rfl
  | startServing =>
    rw [Op.exec, Op.exec, World.isSome_memory_withKey, World.nextCleanupAt_withKey,
      World.setProc_withKey fun _ => rfl]
    by_cases hloaded : ((w.procs p).bind Proc.memory).isSome = true ∧
        ((w.procs p).bind Proc.nextCleanupAt).isSome = true
    · rw [if_pos hloaded, if_pos hloaded]
      rfl
    · rw [if_neg hloaded, if_neg hloaded]
      rfl
  -- the reads see the ledger only
  | credential | client | joined | idempotent | restoreRequired | referencedKids | credentialUses
  | proofUses | keyChecks =>
    rw [Op.exec, Op.exec]
    exact hquery _ _
  | store call =>
    rw [Op.exec, Op.exec, hledger]
    rfl

theorem World.memoryOf_setProc {f : Proc → Proc} (hf : ∀ q, (f q).memory = q.memory) (p' : ℕ) :
    (w.setProc p f).memoryOf p' = w.memoryOf p' := by
  have hprocs : (w.setProc p f).procs = Function.update w.procs p ((w.procs p).map f) := rfl
  rw [World.memoryOf, World.memoryOf, hprocs]
  by_cases hp : p' = p
  · subst hp
    rw [Function.update_self]
    cases w.procs p' with
    | none => rfl
    | some q => exact hf q
  · rw [Function.update_of_ne hp]

/-- A command that touches no keyring leaves the key ids as they are. -/
theorem World.Lacks.exec (hw : w.Lacks kid) {c : Op} (hc : c.isKeyless = true) {a : c.Ans}
    (hexec : c.exec p tid i w = some (a, w')) : w'.Lacks kid := by
  have hproc : ∀ {f : Proc → Proc}, (∀ q, (f q).memory = q.memory) →
      (w.setProc p f).Lacks kid :=
    fun hf => ⟨hw.keyring, fun p' m hm => hw.memory p' m (World.memoryOf_setProc hf p' ▸ hm)⟩
  cases Op.exec_frame hexec with
  | none | locked | released | committed => exact ⟨hw.keyring, hw.memory⟩
  | replaced | remembered => cases hc
  | scheduled | served => exact hproc fun _ => rfl

end Onceproof

import Onceproof.Keys.Replacement
import Onceproof.Scenario

/-!
# Keyring mutations under filesystem faults

`rotate` and `retire` of a `KeyRing` whose memory agrees with the file, with an `OSError` at any
of their system calls. The file then holds the old or the new generation, and what was returned
or raised says which one is in memory and on disk, except for `KeyringCommitUncertain`: after
that the memory agrees with the file, or the instance is unusable until the file changes.
-/

namespace Onceproof

/-- The methods that replace the keyring file. -/
inductive KeyringMutation
  | rotate
  | retire (kid : Str) (asked : Bool)

namespace KeyringMutation

/-- The value that the method returns. -/
abbrev Val : KeyringMutation → Type
  | rotate => Str
  | retire _ _ => Unit

/-- The method. -/
def prog : (m : KeyringMutation) → DiskProg m.Val
  | rotate => Disk.rotate
  | retire kid asked => Disk.retire kid asked

/-- The new generation of the method, given what it drew. -/
def New (m : KeyringMutation) (k : KeyRing) (τ : DiskHist) (k' : KeyRing) : Prop :=
  match m with
  | rotate => ∃ existing kid key, ⟨.newKid existing, .ok kid⟩ ∈ τ ∧ ⟨.newRootKey, .ok key⟩ ∈ τ ∧
      kid ∉ k.keys ∧ k' = k.rotated kid key
  | retire kid _ => ∃ h : kid ≠ k.currentKid, kid ∈ k.keys ∧ k' = k.retired kid h

theorem New.append {m : KeyringMutation} {k k' : KeyRing} {τ : DiskHist} (h : m.New k τ k')
    (τ' : DiskHist) : m.New k (τ ++ τ') k' := by
  cases m with
  | rotate =>
    obtain ⟨existing, kid, key, hkid, hkey, hnew, hk'⟩ := h
    exact ⟨existing, kid, key, List.mem_append_left _ hkid, List.mem_append_left _ hkey, hnew, hk'⟩
  | retire kid asked => exact h

end KeyringMutation

/-- The calls of a `KeyRing`. -/
inductive KeyringCall
  | mutation (m : KeyringMutation)
  | stable (body : DiskProg Unit)
  | backupWith

namespace KeyringCall

/-- The value that a call returns. -/
abbrev Val : KeyringCall → Type
  | mutation m => m.Val
  | stable _ | backupWith => Unit

/-- The program of a call. -/
def prog : (c : KeyringCall) → DiskProg c.Val
  | mutation m => m.prog
  | stable body => Disk.stable body
  | backupWith => Disk.backupWith

end KeyringCall

/-- The file system some calls later. In between, the file may be rewritten with the generation
it holds. -/
inductive Disk.Later (w : Disk) : Disk → Prop
  | refl : Later w w
  | call {w₁ w₂ : Disk} {c : KeyringCall} {τ : DiskHist} {x : Except Error c.Val}
      (before : Later w w₁) (called : Prog.Completes DiskOp.exec c.prog w₁ τ x w₂) : Later w w₂
  | elsewhere {w₁ w₂ : Disk} (before : Later w w₁) (kept : w₂.generation = w₁.generation)
      (memory : w₂.memory = w₁.memory) : Later w w₂

/-- Every later call raises, and touches neither the file nor the memory. -/
def Disk.Unusable (w : Disk) : Prop :=
  ∀ w₁, w.Later w₁ → ∀ (c : KeyringCall) τ p w₂, Prog.Steps DiskOp.exec c.prog w₁ τ p w₂ →
    w₁.Same w₂ ∧ ∀ x, p.outcome? = some x → ∃ e, x = .error e

/-- The outcome of a mutation of the generation `k`. -/
structure FaultAtomic (m : KeyringMutation) (k : KeyRing) (τ : DiskHist) (x : Except Error m.Val)
    (w : Disk) : Prop where
  file : w.generation = some k ∨ ∃ k', m.New k τ k' ∧ w.generation = some k'
  returned : ∀ v, x = .ok v → ∃ k', m.New k τ k' ∧ w.generation = some k' ∧ w.memory = k'
  raised : ∀ e, x = .error e → e ≠ .keyringCommitUncertain →
    w.generation = some k ∧ w.memory = k

section

variable {m : KeyringMutation} {k k' : KeyRing} {w w' : Disk} {h τ : DiskHist}

theorem FaultAtomic.append {x : Except Error m.Val} (hm : FaultAtomic m k h x w)
    (h' : DiskHist) : FaultAtomic m k (h ++ h') x w where
  file := hm.file.imp_right fun ⟨k', hnew, hk'⟩ => ⟨k', hnew.append h', hk'⟩
  returned v hx := by
    obtain ⟨k', hnew, hk'⟩ := hm.returned v hx
    exact ⟨k', hnew.append h', hk'⟩
  raised := hm.raised

/-- A method that raised before it replaced anything. -/
theorem FaultAtomic.refused (hk : w.generation = some k) (hmemory : w.memory = k)
    (hsame : w.Same w') (e : Error) : FaultAtomic m k h (.error e) w' where
  file := Or.inl (hsame.generation.trans hk)
  returned _ hx := by cases hx
  raised _ _ _ := ⟨hsame.generation.trans hk, hsame.2.trans hmemory⟩

/-- `replaceAndReload` at the end of a method. -/
theorem FaultAtomic.mutated {x : Except Error Unit} {y : Except Error m.Val}
    (hnew : m.New k h k') (hx : Disk.Mutates k k' h x w) (hok : ∀ v, y = .ok v → x = .ok ())
    (herr : ∀ e, y = .error e → x = .error e) : FaultAtomic m k h y w where
  file := hx.1.imp_right fun hk' => ⟨k', hnew, hk'⟩
  returned v hy := ⟨k', hnew, hx.2.1 (hok v hy)⟩
  raised e hy := hx.2.2 e (herr e hy)

/-- `rotate` is fault-atomic. -/
theorem Disk.rotate_safe (hk : w.generation = some k) (hmemory : w.memory = k) :
    Disk.rotate.Safe DiskOp.exec (fun _ _ => True) (FaultAtomic .rotate k) h w := by
  have hrefused : ∀ (h : DiskHist) (e : Error) (w' : Disk), w.Same w' →
      FaultAtomic .rotate k h (.error e) w' := fun h e w' hs =>
    FaultAtomic.refused (m := .rotate) hk hmemory hs e
  have htrue : ∀ (h : DiskHist) (w' : Disk), w.Same w' → True := fun _ _ _ => trivial
  rw [Disk.rotate]
  refine Disk.stable_safe (hmemory ▸ hk) hrefused (fun h h' x w' hx => hx.append h')
    fun h w₁ hsame => ?_
  refine hsame.safe_bind (by trivial) htrue (fun i memory w₂ hread hsame => ?_) hrefused
  obtain rfl : memory = k := by
    obtain ⟨hm, rfl⟩ := Prod.mk.inj (Option.some.inj hread)
    rw [← Except.ok.inj hm, hsame.2, hmemory]
  refine hsame.safe_bind (by trivial) htrue (fun i kid w₃ hkid hsame => ?_) hrefused
  refine hsame.safe_bind (by trivial) htrue (fun j key w₄ hkey hsame => ?_) hrefused
  obtain ⟨hfresh, hnamed⟩ : kid ∉ memory.keys ∧ KeyRing.isKid kid = true ∧ ¬ kid.HasPair := by
    simp only [DiskOp.exec] at hkid
    split_ifs at hkid with hnot
    obtain ⟨hbytes, -⟩ := Prod.mk.inj (Option.some.inj hkid)
    rw [← Except.ok.inj hbytes]
    exact ⟨fun hmem => hnot (Finmap.mem_keys.mpr hmem), KeyRing.isKid_hexlify i.bytes⟩
  have hgen := hsame.generation.trans hk
  refine Prog.Safe.bind ((Disk.replaceAndReload_safe hgen
    ((Disk.wellNamed hk).rotated hnamed)).grows.mono (fun _ _ _ => trivial) ?_)
  rintro h' x w₅ ⟨⟨τ, rfl⟩, hx⟩
  have hnew : KeyringMutation.New .rotate memory (h ++ [⟨.memory, .ok memory⟩] ++
      [⟨.newKid memory.keys.keys, .ok kid⟩] ++ [⟨.newRootKey, .ok key⟩] ++ τ)
      (memory.rotated kid key) :=
    ⟨memory.keys.keys, kid, key, by simp, by simp, hfresh, rfl⟩
  cases x with
  | ok _ => exact FaultAtomic.mutated hnew hx (by simp) (by simp)
  | error e => exact FaultAtomic.mutated hnew hx (by simp) (by simp)

/-- `retire` is fault-atomic. -/
theorem Disk.retire_safe {kid : Str} {asked : Bool} (hk : w.generation = some k)
    (hmemory : w.memory = k) :
    (Disk.retire kid asked).Safe DiskOp.exec (fun _ _ => True) (FaultAtomic (.retire kid asked) k)
      h w := by
  have hrefused : ∀ (h : DiskHist) (e : Error) (w' : Disk), w.Same w' →
      FaultAtomic (.retire kid asked) k h (.error e) w' := fun h e w' hs =>
    FaultAtomic.refused (m := .retire kid asked) hk hmemory hs e
  have htrue : ∀ (h : DiskHist) (w' : Disk), w.Same w' → True := fun _ _ _ => trivial
  rw [Disk.retire]
  refine Disk.stable_safe (hmemory ▸ hk) hrefused (fun h h' x w' hx => hx.append h')
    fun h w₁ hsame => ?_
  refine hsame.safe_bind (by trivial) htrue (fun i memory w₂ hread hsame => ?_) hrefused
  obtain rfl : memory = k := by
    obtain ⟨hm, rfl⟩ := Prod.mk.inj (Option.some.inj hread)
    rw [← Except.ok.inj hm, hsame.2, hmemory]
  split_ifs with hcurrent hnone
  · exact hrefused _ _ _ hsame
  · exact hrefused _ _ _ hsame
  · -- the callback may raise, and may answer that the key is in use
    have hask : (Disk.askInUse kid asked).Safe DiskOp.exec (fun _ _ => True)
        (fun _ _ => w.Same) (h ++ [⟨.memory, .ok memory⟩]) w₂ := by
      rw [Disk.askInUse]
      split_ifs
      · exact hsame.safe_run (by trivial) htrue fun _ _ _ _ _ hs => hs
      · exact hsame
    refine Prog.Safe.bind (hask.mono (fun _ _ => id) fun h x w₃ hsame => ?_)
    cases x with
    | error e => exact hrefused _ _ _ hsame
    | ok used =>
      dsimp only
      split_ifs
      · exact hrefused _ _ _ hsame
      · refine (Disk.replaceAndReload_safe (hsame.generation.trans hk)
          ((Disk.wellNamed hk).retired hcurrent)).mono (fun _ _ _ => trivial) fun h x w₄ hx => ?_
        have hmem : kid ∈ memory.keys := by
          rw [← Finmap.lookup_isSome, Option.isSome_iff_ne_none]
          simpa [KeyRing.keyFor] using hnone
        exact FaultAtomic.mutated (m := .retire kid asked) ⟨hcurrent, hmem, rfl⟩ hx
          (fun _ hy => hy) (fun _ hy => hy)

/-- A call on an instance whose memory does not agree with the file. -/
theorem KeyringCall.stale (c : KeyringCall) (hstale : w.generation ≠ some w.memory) :
    c.prog.Safe DiskOp.exec (fun _ => w.Same)
      (fun _ x w' => w.Same w' ∧ ∃ e, x = .error e) h w := by
  cases c with
  | mutation m =>
    cases m with
    | rotate => exact Disk.stable_stale hstale
    | retire kid asked => exact Disk.stable_stale hstale
  | stable body => exact Disk.stable_stale hstale
  | backupWith =>
    refine Disk.Same.safe_bind ⟨rfl, rfl⟩ (by trivial) (fun _ _ => id) (fun i v w₁ _ hsame => ?_)
      fun _ e _ hsame => ⟨hsame, e, rfl⟩
    have hstale₁ : w₁.generation ≠ some w₁.memory := by rwa [hsame.generation, hsame.2]
    exact (Disk.stable_stale hstale₁).mono (fun _ _ => hsame.trans) fun _ _ _ hx =>
      ⟨hsame.trans hx.1, hx.2⟩

/-- An instance whose memory does not agree with the file is unusable. -/
theorem Disk.unusable_of_stale (hstale : w.generation ≠ some w.memory) : w.Unusable := by
  have hlater : ∀ w₁, w.Later w₁ → w₁.generation ≠ some w₁.memory := by
    intro w₁ hlater
    induction hlater with
    | refl => exact hstale
    | call before called ih =>
      obtain ⟨p, hsteps, hx⟩ := called
      have hsame := ((KeyringCall.stale (h := []) _ ih).steps ⟨rfl, rfl⟩ hsteps).1
      rwa [hsame.generation, hsame.2]
    | elsewhere before kept memory ih => rwa [kept, memory]
  intro w₁ hl c τ p w₂ hsteps
  obtain ⟨hsame, hx⟩ := (c.stale (h := []) (hlater w₁ hl)).steps ⟨rfl, rfl⟩ hsteps
  exact ⟨hsame, fun x hout => (hx x hout).2⟩

/-- **A keyring mutation is fault-atomic.** -/
theorem keyring_mutation_fault_atomic {x : Except Error m.Val} (hk : w.generation = some k)
    (hmemory : w.memory = k) (hrun : Prog.Completes DiskOp.exec m.prog w τ x w') :
    FaultAtomic m k τ x w' ∧
      (x = .error .keyringCommitUncertain →
        w'.generation = some w'.memory ∨ w'.Unusable) := by
  obtain ⟨p, hsteps, hx⟩ := hrun
  have hsafe : m.prog.Safe DiskOp.exec (fun _ _ => True) (FaultAtomic m k) [] w := by
    cases m with
    | rotate => exact Disk.rotate_safe hk hmemory
    | retire kid asked => exact Disk.retire_safe hk hmemory
  refine ⟨(hsafe.steps trivial hsteps).2 x hx, fun _ => ?_⟩
  by_cases hagree : w'.generation = some w'.memory
  · exact Or.inl hagree
  · exact Or.inr (Disk.unusable_of_stale hagree)

end

namespace Scenario

/-- A new keyring file, loaded. -/
def disk : Disk where
  file := some (.written (KeyRing.created kid zeroKey).serializedPayload)
  others := fun _ => none
  memory := .created kid zeroKey

/-- A choice without faults. -/
def faultless : DiskChoice where
  fault := false
  bytes := [1]
  rootKey := zeroKey
  used := .ok false
  checked := .ok ()

/-- The key id that a rotation draws. -/
def newKid : Str := lit "hk_" ++ hexlify [1]

/-- The generation that a rotation makes. -/
def rotatedKeyring : KeyRing := (KeyRing.created kid zeroKey).rotated newKid zeroKey

/-- Calls without faults, except that the sync of the replaced file may fail. -/
def syncing (fails : Bool) : Prog.Outside DiskOp DiskChoice where
  drawn _ := faultless
  issued
    | .sync .keyring => { faultless with fault := fails }
    | _ => faultless

theorem wellNamed_created : (KeyRing.created kid zeroKey).WellNamed :=
  KeyRing.wellNamed_created zeroKey (KeyRing.isKid_hexlify [0])

/-- The new generation is in memory, whether the sync of the file fails or not. -/
theorem runWith_rotate (fails : Bool) :
    ∃ w, Disk.rotate.runWith (Prog.supplied DiskOp.exec fun _ => false) (syncing fails) (disk, 0) =
      some (if fails then .error .keyringCommitUncertain else .ok newKid, w, 0) ∧
        w.memory = rotatedKeyring := by
  have hold := KeyRing.readPayload_persist_serializedPayload wellNamed_created
  have hnew := KeyRing.readPayload_persist_serializedPayload
    (@KeyRing.WellNamed.rotated _ wellNamed_created _ zeroKey (KeyRing.isKid_hexlify [1]))
  have hfresh : lit "hk_" ++ hexlify [1] ∉ (KeyRing.created kid zeroKey).keys.keys := by decide
  cases fails with
  | false | true =>
    simp [Disk.rotate, Disk.stable, Disk.readPayload, Disk.replaceAndReload,
      Disk.replaceAtomically, Disk.reload, Disk.writeExclusive, Disk.syncReplaced, Prog.perform,
      Prog.runWith, Prog.supplied, DiskOp.exec, orOSError, Prog.ensure, Prog.onRaise,
      Prog.raiseAs, Prog.lift, disk, syncing, faultless, Disk.set, Json.Document.written, hold,
      hnew, hfresh, rotatedKeyring, newKid]

end Scenario

/-- A rotation without faults, and one whose sync after `os.replace` fails: it raises, with the new
generation on disk and in memory. -/
theorem keyring_mutation_fault_atomic_unsynced :
    (∃ τ w, Prog.Completes DiskOp.exec Disk.rotate Scenario.disk τ (.ok Scenario.newKid) w ∧
      FaultAtomic .rotate (.created Scenario.kid Scenario.zeroKey) τ (.ok Scenario.newKid) w) ∧
    ∃ τ w, Prog.Completes DiskOp.exec Disk.rotate Scenario.disk τ
        (.error .keyringCommitUncertain) w ∧ w.memory = Scenario.rotatedKeyring ∧
      FaultAtomic .rotate (.created Scenario.kid Scenario.zeroKey) τ
        (.error .keyringCommitUncertain) w ∧
      (w.generation = some w.memory ∨ w.Unusable) := by
  have hk : Scenario.disk.generation = some (.created Scenario.kid Scenario.zeroKey) :=
    Disk.generation_written Scenario.wellNamed_created rfl
  constructor
  · obtain ⟨w, hrun, -⟩ := Scenario.runWith_rotate false
    obtain ⟨τ, hcompletes⟩ := Prog.completes_of_supplied hrun
    exact ⟨τ, w, hcompletes, (keyring_mutation_fault_atomic (m := .rotate) hk rfl hcompletes).1⟩
  · obtain ⟨w, hrun, hmemory⟩ := Scenario.runWith_rotate true
    obtain ⟨τ, hcompletes⟩ := Prog.completes_of_supplied hrun
    obtain ⟨hatomic, hagree⟩ := keyring_mutation_fault_atomic (m := .rotate) hk rfl hcompletes
    exact ⟨τ, w, hcompletes, hmemory, hatomic, hagree rfl⟩

end Onceproof

import Onceproof.Keys.Knowledge

/-!
# KeyRing instances over one file

Any number of `KeyRing` instances, each with its own memory, on one keyring file and one lock
file: their calls are threads of a `Machine` over the commands of `Host`, without filesystem
faults. The callbacks of `stable` and `retire` are arbitrary programs that leave the keyring
alone.

`ring_allowed` says of every call in which histories it issues the commands on the keyring: it
replaces the file once, under the lock, after it has read the same generation from the file and
from memory.
-/

namespace Onceproof

variable {α : Type}

/-- A program that issues no command on the keyring file and the locks, and does not change the
memory. -/
def HostProg.Passive (p : HostProg α) : Prop :=
  ∀ h, p.Spec (fun _ c => c.Keeps) (fun _ _ => True) h

/-- The calls of a `KeyRing`. -/
inductive RingRequest
  | load
  | rotate
  | retire (kid : Str) (inUse : Str → HostProg Bool) (passive : ∀ kid, (inUse kid).Passive)
  | stable (body : HostProg Unit) (passive : body.Passive)
  | backupWith

namespace RingRequest

/-- `KeyRing.load`, which makes an instance. -/
def IsLoad : RingRequest → Prop
  | load => True
  | _ => False

/-- The calls that replace the file. -/
def IsMutation : RingRequest → Prop
  | rotate | retire _ _ _ => True
  | _ => False

/-- The program of a call, with the id that `rotate` returns. -/
def program : RingRequest → HostProg (Option Str)
  | load => (fun _ => none) <$> KeyRing.reload
  | rotate => some <$> KeyRing.rotate
  | retire kid inUse _ => (fun _ => none) <$> KeyRing.retire kid inUse
  | stable body _ => (fun _ => none) <$> KeyRing.stable body
  | backupWith => (fun _ => none) <$> KeyRing.backupWith

/-- Loading makes a new instance; the other calls need one that is loaded. -/
inductive Accept (p : ℕ) (w : World) : RingRequest → World → Prop
  | load (new : w.procs p = none) :
      Accept p w load { w with procs := Function.update w.procs p (some .fresh) }
  | call {r : RingRequest} (hr : ¬ r.IsLoad) (loaded : ((w.procs p).bind Proc.memory).isSome) :
      Accept p w r w

/-- `Accept` as a function. -/
def accept (p : ℕ) (r : RingRequest) (w : World) : Option World :=
  match r with
  | load =>
    if (w.procs p).isNone then
      some { w with procs := Function.update w.procs p (some .fresh) }
    else none
  | rotate | retire _ _ _ | stable _ _ | backupWith =>
    if ((w.procs p).bind Proc.memory).isSome then some w else none

theorem accept_eq_some {p : ℕ} {r : RingRequest} {w w' : World} (h : r.accept p w = some w') :
    Accept p w r w' := by
  cases r with
  | load =>
    simp only [accept] at h
    split_ifs at h with hnone
    obtain rfl := Option.some.inj h
    exact .load (by simpa using hnone)
  | rotate =>
    simp only [accept] at h
    split_ifs at h with hloaded
    obtain rfl := Option.some.inj h
    exact .call id hloaded
  | retire kid inUse passive =>
    simp only [accept] at h
    split_ifs at h with hloaded
    obtain rfl := Option.some.inj h
    exact .call id hloaded
  | stable body passive =>
    simp only [accept] at h
    split_ifs at h with hloaded
    obtain rfl := Option.some.inj h
    exact .call id hloaded
  | backupWith =>
    simp only [accept] at h
    split_ifs at h with hloaded
    obtain rfl := Option.some.inj h
    exact .call id hloaded

end RingRequest

/-- A choice without filesystem faults. -/
def Choice.faultless (i : Choice) : Choice := { i with fault := false, late := false }

/-- The instances of `KeyRing`, each under a number of its own. An instance may disappear at
any moment, with its calls. -/
def ringMachine : Machine World ℕ RingRequest Op Choice Op.Ans Error (Option Str) where
  program := RingRequest.program
  exec p tid c i w := c.exec p tid i.faultless w
  accept := RingRequest.accept
  stop := World.stop

/-- States of the instances. -/
abbrev RingState : Type := MachineState World ℕ RingRequest Op Op.Ans Error (Option Str)

/-- Events of the instances. -/
abbrev RingEvent : Type := Event ℕ RingRequest Op Choice Op.Ans Error (Option Str)

/-- Transitions of the instances. -/
abbrev RingTrans : Type := Trans RingState RingEvent

/-! ### The discipline of the calls -/

/-- The same generation was read from the file and from memory. -/
def Matched (h : Hist) : Prop :=
  ∃ d, ⟨.readKeyring, .ok d⟩ ∈ h ∧ ⟨.memory, .ok d⟩ ∈ h

/-- The file was replaced. -/
def ReplacedBy (h : Hist) (k : KeyRing) : Prop := ⟨.replaceKeyring k, .ok ()⟩ ∈ h

/-- The file was not replaced. -/
def Unreplaced (h : Hist) : Prop := ∀ x ∈ h, ∀ k, x.1 ≠ .replaceKeyring k

/-- The commands on the keyring, which do not fail without filesystem faults. -/
def Op.OnRing : Op → Prop
  | acquire _ | release _ | readKeyring | replaceKeyring _ | memory | setMemory _ | newKid _
  | newRootKey => True
  | _ => False

/-- No command on the keyring failed. -/
def Clean (h : Hist) : Prop := ∀ c e, (⟨c, .error e⟩ : Answered Op Op.Ans) ∈ h → ¬ c.OnRing

/-- The generations by which a call replaces the file. -/
inductive RingRequest.Replaces : RingRequest → Knowledge → KeyRing → Prop
  | rotated {k : Knowledge} {m : KeyRing} {kid : Str} (key : RootKey) (known : m ∈ k.memories)
      (fresh : k.drawn = some (m.keys.keys, kid)) : Replaces .rotate k (m.rotated kid key)
  | retired {k : Knowledge} {m : KeyRing} {kid : Str} {inUse : Str → HostProg Bool}
      {passive : ∀ kid, (inUse kid).Passive} (old : kid ≠ m.currentKid) (known : m ∈ k.memories)
      (there : kid ∈ m.keys) : Replaces (.retire kid inUse passive) k (m.retired kid old)

/-- The condition under which a call issues a command. -/
def RingRules (r : RingRequest) (h : Hist) : Op → Prop
  | .acquire l => l = .keyringFile ∧ ¬ r.IsLoad ∧ h = []
  | .tryAcquire _ | .startServing => False
  | .release l => l = .keyringFile ∧ ¬ r.IsLoad ∧ (known h).held = [.keyringFile]
  | .readKeyring => r.IsLoad ∨ (known h).held = [.keyringFile]
  | .setMemory m => (known h).read = some m ∧
      (r.IsLoad ∧ (known h).memories = [] ∨
        ¬ r.IsLoad ∧ (known h).held = [.keyringFile] ∧ Matched h)
  | .replaceKeyring m => (known h).Agreed ∧ (known h).held = [.keyringFile] ∧ Matched h ∧
      Unreplaced h ∧ r.Replaces (known h) m
  | .memory => ¬ r.IsLoad ∧ (known h).held = [.keyringFile]
  | _ => ¬ r.IsLoad ∧ Matched h

/-- What a call returns, for what it did. -/
def RingReturns (r : RingRequest) (h : Hist) (x : Except Error (Option Str)) : Prop :=
  Clean h → (Matched h ∨ r.IsLoad ∨ x = .error (.valueError "keyring_changed_on_disk")) ∧
    (r.IsMutation → (∃ v, x = .ok v) → ∃ k, ReplacedBy h k) ∧
    (∀ k, ReplacedBy h k → ∃ v, x = .ok v) ∧
    ∀ kid, x = .ok (some kid) → ∃ k, ReplacedBy h k ∧ k.currentKid = kid

/-! ### The programs keep the discipline -/

variable {r : RingRequest} {h h' : Hist}

theorem Matched.append (hm : Matched h) (h' : Hist) : Matched (h ++ h') := by
  obtain ⟨d, hread, hmemory⟩ := hm
  exact ⟨d, List.mem_append_left _ hread, List.mem_append_left _ hmemory⟩

theorem Clean.of_append (hc : Clean (h ++ h')) : Clean h := fun c e hmem =>
  hc c e (List.mem_append_left _ hmem)

theorem not_clean {c : Op} {e : Error} (hc : c.OnRing) : ¬ Clean (h ++ [⟨c, .error e⟩]) :=
  fun hclean => hclean c e (by simp) hc

theorem Unreplaced.snoc (hu : Unreplaced h) {c : Op} (hc : ∀ k, c ≠ .replaceKeyring k)
    (a : c.Ans) : Unreplaced (h ++ [⟨c, a⟩]) := by
  intro x hx k
  rcases List.mem_append.mp hx with hx | hx
  · exact hu x hx k
  · rw [List.mem_singleton.mp hx]
    exact hc k

theorem Unreplaced.not_replacedBy (hu : Unreplaced h) (k : KeyRing) : ¬ ReplacedBy h k :=
  fun hmem => hu _ hmem k rfl

/-- A call that raised without replacing the file, having seen the same generation twice. -/
theorem RingReturns.raised (hm : Matched h) (hu : Unreplaced h) (e : Error) :
    RingReturns r h (.error e) := fun _ =>
  ⟨Or.inl hm, fun _ ⟨_, hx⟩ => (by cases hx), fun k hk => absurd hk (hu.not_replacedBy k),
    fun _ hx => by cases hx⟩

/-- A call that raised because a command on the keyring failed. -/
theorem RingReturns.failed {x : Except Error (Option Str)} (hc : ¬ Clean h) :
    RingReturns r h x := fun hclean => absurd hclean hc

/-- The generations in the file and in memory were seen to be the same, and the file was not
replaced yet. -/
structure InSection (h : Hist) : Prop where
  held : (known h).held = [.keyringFile]
  agreed : (known h).Agreed
  matched : Matched h
  unreplaced : Unreplaced h

theorem Op.Keeps.ringRules {c : Op} (hc : c.Keeps) (hr : ¬ r.IsLoad) (hs : InSection h) :
    RingRules r h c := by
  cases c with
  | acquire | tryAcquire | release | readKeyring | setMemory | replaceKeyring | startServing =>
    exact hc.elim
  | memory => exact ⟨hr, hs.held⟩
  | _ => exact ⟨hr, hs.matched⟩

theorem InSection.snoc (hs : InSection h) {c : Op} (hc : c.Keeps) (a : c.Ans) :
    InSection (h ++ [⟨c, a⟩]) := by
  have hkeeps := (known h).keeps_next hc a
  refine ⟨?_, ?_, hs.matched.append _, hs.unreplaced.snoc ?_ a⟩
  · rw [known_snoc, hkeeps.held, hs.held]
  · rw [known_snoc]
    exact hkeeps.agreed hs.agreed
  · rintro k rfl
    exact hc

/-- A passive program stays in the section. -/
theorem InSection.passive {p : HostProg α} (hr : ¬ r.IsLoad) (hp : p.Passive)
    (hs : InSection h) : p.Spec (RingRules r) (fun h' _ => InSection h') h :=
  ((hp h).keep (J := InSection) (fun _ _ a hs hc => hs.snoc hc a) hs).mono
    (fun _ _ hc => Op.Keeps.ringRules hc.2 hr hc.1) fun _ _ => And.left

/-- The outcome of a section. -/
def Leaving (r : RingRequest) (f : α → Option Str) (h : Hist) (x : Except Error α) : Prop :=
  (known h).held = [.keyringFile] ∧ RingReturns r h (x.map f)

/-- The result does not change when the lock is freed. -/
theorem RingReturns.released {x : Except Error (Option Str)} (hx : RingReturns r h x)
    (l : LockName) : RingReturns r (h ++ [⟨.release l, .ok ()⟩]) x := by
  intro hclean
  obtain ⟨hm, hmut, hrep, hkid⟩ := hx hclean.of_append
  have hsame : ∀ k, ReplacedBy (h ++ [⟨.release l, .ok ()⟩]) k ↔ ReplacedBy h k := by
    intro k
    rw [ReplacedBy, ReplacedBy, List.mem_append, List.mem_singleton]
    refine or_iff_left fun heq => ?_
    exact Op.noConfusion (congrArg Sigma.fst heq)
  refine ⟨hm.imp_left fun hm => hm.append _, ?_⟩
  simpa only [hsame] using ⟨hmut, hrep, hkid⟩

/-- **`KeyRing.stable`** reaches its body in a section, or the generations differ. -/
theorem stable_ring {p : HostProg α} {f : α → Option Str} (hr : ¬ r.IsLoad)
    (hp : ∀ h, InSection h → p.Spec (RingRules r) (Leaving r f) h) :
    (f <$> KeyRing.stable p).Spec (RingRules r) (RingReturns r) [] := by
  have hstable :
      (KeyRing.stable p).Spec (RingRules r) (fun h x => RingReturns r h (x.map f)) [] := by
    refine Prog.spec_perform_bind.mpr ⟨⟨rfl, hr, rfl⟩, fun _ => ?_, fun e =>
      RingReturns.failed (not_clean trivial)⟩
    refine Prog.Spec.ensure (Prog.Spec.mono (Ψ := Leaving r f) ?_ (fun _ _ => id) ?_)
    · refine Prog.spec_perform_bind.mpr ⟨Or.inr rfl, fun disk => ?_, fun e =>
        ⟨rfl, RingReturns.failed (not_clean trivial)⟩⟩
      refine Prog.spec_perform_bind.mpr ⟨⟨hr, rfl⟩, fun memory => ?_, fun e =>
        ⟨rfl, RingReturns.failed (not_clean trivial)⟩⟩
      -- so far the section has read only
      have hunreplaced : Unreplaced ([] ++ [⟨.acquire .keyringFile, .ok ()⟩] ++
          [⟨.readKeyring, .ok disk⟩] ++ [⟨.memory, .ok memory⟩]) := by
        intro x hx k
        simp only [List.nil_append, List.cons_append, List.mem_cons, List.not_mem_nil,
          or_false] at hx
        rcases hx with rfl | rfl | rfl <;> exact Op.noConfusion
      refine Prog.spec_ite.mpr ⟨fun _ => ⟨rfl, fun _ => ⟨Or.inr (Or.inr rfl), ?_, ?_, ?_⟩⟩,
        fun hsame => hp _ ⟨rfl, ?_, ?_, hunreplaced⟩⟩
      · rintro - ⟨v, hv⟩
        cases hv
      · exact fun k hk => absurd hk (hunreplaced.not_replacedBy k)
      · intro kid hkid
        cases hkid
      · have hsame : disk = memory := not_not.mp hsame
        refine ⟨by simp [known, Knowledge.forget], disk, ?_⟩
        simp [known, Knowledge.forget, hsame]
      · have hsame : disk = memory := not_not.mp hsame
        exact ⟨disk, by simp, by simp [hsame]⟩
    · rintro h x ⟨hheld, hx⟩
      refine (Prog.spec_perform (c := Op.release .keyringFile)).mpr ⟨⟨rfl, hr, hheld⟩, fun _ => ?_,
        fun e => RingReturns.failed (not_clean trivial)⟩
      exact hx.released _
  refine Prog.Spec.bind (hstable.mono (fun _ _ => id) fun h x hx => ?_)
  cases x with
  | ok a => exact hx
  | error e => exact hx

/-- The file was replaced by `k`, once, and then read again, unless a command failed. -/
structure Replaced (k : KeyRing) (h : Hist) (x : Except Error Unit) : Prop where
  held : (known h).held = [.keyringFile]
  matched : Matched h
  clean : Clean h → x = .ok () ∧ ∀ k', ReplacedBy h k' ↔ k' = k

/-- **`_replace_and_reload`** replaces the file once. -/
theorem replaceAndReload_ring {k : KeyRing} (hr : ¬ r.IsLoad) (hs : InSection h)
    (hk : r.Replaces (known h) k) :
    (KeyRing.replaceAndReload k).Spec (RingRules r) (Replaced k) h := by
  -- after the replacement, whatever it answered, the file is read again
  have hreload : ∀ a : (Op.replaceKeyring k).Ans,
      (Prog.raiseAs .keyringCommitUncertain KeyRing.reload).Spec (RingRules r)
        (fun h' x => (known h').held = [.keyringFile] ∧ Matched h' ∧
          (Clean h' → x = .ok () ∧ a = .ok () ∧ ∀ k', ReplacedBy h' k' ↔ k' = k))
        (h ++ [⟨.replaceKeyring k, a⟩]) := by
    intro a
    have hheld : (known (h ++ [⟨.replaceKeyring k, a⟩])).held = [.keyringFile] := by
      rw [known_snoc]
      exact hs.held
    have hmatched := hs.matched.append [⟨.replaceKeyring k, a⟩]
    refine Prog.Spec.raiseAs (Prog.spec_perform_bind.mpr
      ⟨Or.inr hheld, fun disk => ?_, fun e => ?_⟩)
    · refine (Prog.spec_perform (c := Op.setMemory disk)).mpr ⟨⟨?_, Or.inr ⟨hr, ?_, ?_⟩⟩,
        fun _ => ⟨?_, ?_, fun hclean => ⟨rfl, ?_⟩⟩, fun e => ⟨?_, ?_, fun hclean => ?_⟩⟩
      · rw [known_snoc]
        rfl
      · rw [known_snoc]
        exact hheld
      · exact hmatched.append _
      · rw [known_snoc, known_snoc]
        exact hheld
      · exact (hmatched.append _).append _
      · cases a with
        | error e =>
          exact absurd hclean.of_append.of_append (not_clean (c := .replaceKeyring k) trivial)
        | ok _ =>
          refine ⟨rfl, fun k' => ?_⟩
          constructor
          · intro hk'
            simp only [ReplacedBy, List.append_assoc, List.mem_append, List.cons_append,
              List.nil_append, List.mem_cons, List.not_mem_nil, or_false] at hk'
            rcases hk' with hk' | hk' | hk' | hk'
            · exact absurd hk' (hs.unreplaced.not_replacedBy k')
            · exact Op.replaceKeyring.inj (congrArg Sigma.fst hk')
            · exact absurd (congrArg Sigma.fst hk') Op.noConfusion
            · exact absurd (congrArg Sigma.fst hk') Op.noConfusion
          · rintro rfl
            simp [ReplacedBy]
      · rw [known_snoc, known_snoc]
        exact hheld
      · exact (hmatched.append _).append _
      · exact absurd hclean (not_clean (c := .setMemory disk) trivial)
    · refine ⟨?_, hmatched.append _, fun hclean => ?_⟩
      · rw [known_snoc]
        exact hheld
      · exact absurd hclean (not_clean (c := .readKeyring) trivial)
  refine ⟨⟨hs.agreed, hs.held, hs.matched, hs.unreplaced, hk⟩, fun a => ?_⟩
  cases a with
  | ok _ =>
    refine (hreload (.ok ())).mono (fun _ _ => id) ?_
    rintro h' x ⟨hheld, hmatched, hclean⟩
    exact ⟨hheld, hmatched, fun hc => ⟨(hclean hc).1, (hclean hc).2.2⟩⟩
  -- a failed replacement is raised again once the file has been read
  | error e =>
    refine Prog.Spec.bind ((hreload (.error e)).mono (fun _ _ => id) ?_)
    rintro h' x ⟨hheld, hmatched, hclean⟩
    have hfailed : ¬ Clean h' := fun hc => by cases (hclean hc).2.1
    cases x with
    | ok _ => exact ⟨hheld, hmatched, fun hc => absurd hc hfailed⟩
    | error e' => exact ⟨hheld, hmatched, fun hc => absurd hc hfailed⟩

theorem Replaced.leaving {k : KeyRing} {f : α → Option Str} {v : α} (hx : Replaced k h (.ok ()))
    (hv : ∀ kid, f v = some kid → k.currentKid = kid) : Leaving r f h (.ok v) := by
  refine ⟨hx.held, fun hclean => ⟨Or.inl hx.matched, fun _ _ => ⟨k, ?_⟩, fun _ _ => ⟨_, rfl⟩, ?_⟩⟩
  · exact ((hx.clean hclean).2 k).mpr rfl
  · intro kid hkid
    exact ⟨k, ((hx.clean hclean).2 k).mpr rfl, hv kid (Except.ok.inj hkid)⟩

theorem Replaced.leaving_error {k : KeyRing} {f : α → Option Str} {e : Error}
    (hx : Replaced k h (.error e)) : Leaving r f h (.error e) :=
  ⟨hx.held, RingReturns.failed fun hclean => by cases (hx.clean hclean).1⟩

/-- A call that raises in the section. -/
theorem InSection.leaving_error {f : α → Option Str} (hs : InSection h) (e : Error) :
    Leaving r f h (.error e) :=
  ⟨hs.held, RingReturns.raised hs.matched hs.unreplaced e⟩

/-- A call that returns in the section without replacing the file. -/
theorem InSection.leaving_ok {f : α → Option Str} (hs : InSection h) (hr : ¬ r.IsMutation)
    {v : α} (hv : f v = none) : Leaving r f h (.ok v) := by
  refine ⟨hs.held, fun _ => ⟨Or.inl hs.matched, fun hmut => absurd hmut hr,
    fun k hk => absurd hk (hs.unreplaced.not_replacedBy k), fun kid hkid => ?_⟩⟩
  have hsome : f v = some kid := Except.ok.inj hkid
  rw [hv] at hsome
  cases hsome

/-- A command in the section, and what follows it. -/
theorem InSection.run_bind {β : Type} {f : β → Option Str} (hs : InSection h) (hr : ¬ r.IsLoad)
    {c : Op} (hc : c.Keeps) {g : c.Val → HostProg β}
    (hg : ∀ v, InSection (h ++ [⟨c, .ok v⟩]) →
      (g v).Spec (RingRules r) (Leaving r f) (h ++ [⟨c, .ok v⟩])) :
    (c.run >>= g).Spec (RingRules r) (Leaving r f) h :=
  Prog.spec_perform_bind.mpr ⟨hc.ringRules hr hs, fun v => hg v (hs.snoc hc _), fun e =>
    (hs.snoc hc (.error e)).leaving_error e⟩

theorem rotate_ring : (some <$> KeyRing.rotate).Spec (RingRules .rotate) (RingReturns .rotate)
    [] := by
  refine stable_ring id fun h hs => ?_
  refine hs.run_bind id (by trivial) fun memory hs => ?_
  refine hs.run_bind id (by trivial) fun kid hs => ?_
  refine hs.run_bind id (by trivial) fun key hs => ?_
  have hreplaces : RingRequest.Replaces .rotate (known (h ++ [⟨.memory, .ok memory⟩] ++
      [⟨.newKid memory.keys.keys, .ok kid⟩] ++ [⟨.newRootKey, .ok key⟩]))
      (memory.rotated kid key) := by
    refine .rotated key ?_ ?_
    · simp
    · simp
  refine Prog.Spec.bind ((replaceAndReload_ring id hs hreplaces).mono (fun _ _ => id) ?_)
  intro h' x hx
  cases x with
  | error e => exact hx.leaving_error
  | ok _ => exact hx.leaving fun kid' hkid' => Option.some.inj hkid'

theorem retire_ring {kid : Str} {inUse : Str → HostProg Bool}
    (passive : ∀ kid, (inUse kid).Passive) :
    ((fun _ => none) <$> KeyRing.retire kid inUse).Spec (RingRules (.retire kid inUse passive))
      (RingReturns (.retire kid inUse passive)) [] := by
  refine stable_ring id fun h hs => ?_
  refine hs.run_bind id (by trivial) fun memory hs₁ => ?_
  split_ifs with hcurrent hnone
  · exact hs₁.leaving_error _
  · exact hs₁.leaving_error _
  · have hmem : memory ∈ (known (h ++ [⟨.memory, .ok memory⟩])).memories := by
      simp
    have hthere : kid ∈ memory.keys := by
      rw [← Finmap.lookup_isSome, Option.isSome_iff_ne_none]
      simpa [KeyRing.keyFor] using hnone
    -- the generation stays known while the callback runs
    have hask := ((passive kid (h ++ [⟨.memory, .ok memory⟩])).keep
      (J := fun h' => InSection h' ∧ memory ∈ (known h').memories)
      (fun h' c a hs hc => ⟨hs.1.snoc hc a, by
        rw [known_snoc]
        exact ((known h').keeps_next hc a).memories hs.2⟩) ⟨hs₁, hmem⟩).mono
      (fun _ _ hc => Op.Keeps.ringRules (r := .retire kid inUse passive) hc.2 id hc.1.1)
      fun _ _ => And.left
    refine Prog.Spec.bind (hask.mono (fun _ _ => id) fun h' x hx => ?_)
    cases x with
    | error e => exact hx.1.leaving_error e
    | ok used =>
      dsimp only
      split_ifs
      · exact hx.1.leaving_error _
      · refine (replaceAndReload_ring id hx.1 (.retired hcurrent hx.2 hthere)).mono
          (fun _ _ => id) fun h' x hx => ?_
        cases x with
        | error e => exact hx.leaving_error
        | ok _ => exact hx.leaving fun kid' hkid' => by cases hkid'

/-- **Every call keeps the discipline.** -/
theorem ring_allowed (r : RingRequest) :
    (ringMachine.program r).Spec (RingRules r) (RingReturns r) [] := by
  cases r with
  | load =>
    refine Prog.Spec.bind (Prog.spec_perform_bind.mpr ⟨Or.inl trivial, fun disk => ?_, fun e => ?_⟩)
    · refine (Prog.spec_perform (c := Op.setMemory disk)).mpr ⟨⟨rfl, Or.inl ⟨trivial, rfl⟩⟩,
        fun _ _ => ⟨Or.inr (Or.inl trivial), fun hmut => hmut.elim, fun k hk => ?_, ?_⟩,
        fun e => RingReturns.failed (not_clean trivial)⟩
      · simp [ReplacedBy] at hk
      · intro kid hkid
        cases hkid
    · exact RingReturns.failed (not_clean trivial)
  | rotate => exact rotate_ring
  | retire kid inUse passive => exact retire_ring passive
  | stable body passive =>
    refine stable_ring id fun h hs => ((hs.passive id passive).mono (fun _ _ => id) ?_)
    intro h' x hs'
    cases x with
    | ok _ => exact hs'.leaving_ok id rfl
    | error e => exact hs'.leaving_error e
  | backupWith =>
    refine stable_ring id fun h hs => ?_
    refine hs.run_bind id (by trivial) fun memory hs => ?_
    refine hs.run_bind id (by trivial) fun database hs => ?_
    exact hs.leaving_ok id rfl

end Onceproof

import Onceproof.Keys.Disk
import Onceproof.Host

/-!
# Replacing the keyring file

What the methods of a `KeyRing` leave on disk and in memory, whichever of their system calls
fail. `Disk.replaceAndReload_safe` is the case analysis that `rotate` and `retire` share.
-/

namespace Onceproof

/-- What a `KeyRing` did on its file. -/
abbrev DiskHist : Type := List (Answered DiskOp DiskOp.Ans)

/-- The keyring file and the memory are as before. -/
def Disk.Same (w w' : Disk) : Prop := w'.file = w.file ∧ w'.memory = w.memory

/-- The system calls that touch neither the keyring file nor the memory. -/
def DiskOp.Quiet : DiskOp → Prop
  | replace | setMemory _ => False
  | _ => True

section

variable {w w' w₁ : Disk} {i : DiskChoice} {c : DiskOp} {k k' : KeyRing} {h : DiskHist}
variable {f : DiskFile} {payload : Json}

theorem Disk.Same.generation (h : w.Same w') : w'.generation = w.generation := by
  rw [Disk.generation, h.1, Disk.generation]

theorem Disk.Same.trans (h : w.Same w₁) (h' : w₁.Same w') : w.Same w' :=
  ⟨h'.1.trans h.1, h'.2.trans h.2⟩

/-- A written generation is the generation in the file. -/
theorem Disk.generation_written (hk : k.WellNamed)
    (hfile : w.file = some (.written k.serializedPayload)) : w.generation = some k := by
  rw [Disk.generation, hfile, Option.bind_some, Json.Document.written,
    KeyRing.readPayload_persist_serializedPayload hk]
  rfl

theorem Disk.generation_eq_some :
    w.generation = some k ↔ ∃ document, w.file = some document ∧
      KeyRing.readPayload document.value = .ok k := by
  rw [Disk.generation, Option.bind_eq_some_iff]
  refine exists_congr fun document => and_congr_right fun _ => ?_
  cases KeyRing.readPayload document.value <;> simp [Except.toOption]

/-- The ids in the file are well named. -/
theorem Disk.wellNamed (h : w.generation = some k) : k.WellNamed := by
  obtain ⟨document, -, hread⟩ := Disk.generation_eq_some.mp h
  exact KeyRing.wellNamed_of_readPayload hread

/-! ### System calls -/

theorem orOSError_eq_some {α : Type} {x y : Except Error α × Disk}
    (h : orOSError i w x = some y) : y = (.error .interrupted, w) ∨ y = x := by
  have heq := Option.some.inj h
  split_ifs at heq
  · exact Or.inl heq.symm
  · exact Or.inr heq.symm

/-- **Quiet system calls** leave the file and the memory alone. -/
theorem DiskOp.exec_same {a : c.Ans} (hc : c.Quiet) (h : c.exec i w = some (a, w')) :
    w.Same w' := by
  have hplain : ∀ {α : Type} {a x : Except Error α},
      orOSError i w (x, w) = some (a, w') → w.Same w' := by
    intro α a x hx
    rcases orOSError_eq_some hx with hx | hx
    · rw [(Prod.mk.inj hx).2]
      exact ⟨rfl, rfl⟩
    · rw [(Prod.mk.inj hx).2]
      exact ⟨rfl, rfl⟩
  have hpure : ∀ {α : Type} {a x : Except Error α} {w₁ : Disk}, w.Same w₁ →
      some (x, w₁) = some (a, w') → w.Same w' := by
    intro α a x w₁ hsame hx
    rw [← (Prod.mk.inj (Option.some.inj hx)).2]
    exact hsame
  cases c with
  | lock | sync | chmod | syncParent | databaseBackup | readText => exact hplain h
  | unlock | memory | newRootKey | tokenHex | inUse | checkDestination | unlinkDatabase =>
    exact hpure ⟨rfl, rfl⟩ h
  | unlink f =>
    have hsame : w.Same (w.set f none) := ⟨rfl, rfl⟩
    exact hpure hsame h
  | newKid existing =>
    simp only [DiskOp.exec] at h
    split_ifs at h
    exact hpure ⟨rfl, rfl⟩ h
  | create f =>
    rcases orOSError_eq_some h with hx | hx
    · rw [(Prod.mk.inj hx).2]
      exact ⟨rfl, rfl⟩
    · split_ifs at hx
      · rw [(Prod.mk.inj hx).2]
        exact ⟨rfl, rfl⟩
      · rw [(Prod.mk.inj hx).2]
        exact ⟨rfl, rfl⟩
  | write f payload =>
    rcases orOSError_eq_some h with hx | hx
    · rw [(Prod.mk.inj hx).2]
      exact ⟨rfl, rfl⟩
    · rw [(Prod.mk.inj hx).2]
      exact ⟨rfl, rfl⟩
  | replace | setMemory => exact hc.elim

/-! ### Programs of quiet system calls -/

/-- A quiet system call, and what follows it. -/
theorem Disk.Same.safe_bind {β : Type} {J : DiskHist → Disk → Prop}
    {Q : DiskHist → Except Error β → Disk → Prop} (hsame : w.Same w₁) (hc : c.Quiet)
    (hJ : ∀ h w', w.Same w' → J h w') {g : c.Val → DiskProg β}
    (hok : ∀ i v w', c.exec i w₁ = some (.ok v, w') → w.Same w' →
      (g v).Safe DiskOp.exec J Q (h ++ [⟨c, .ok v⟩]) w')
    (herr : ∀ h e w', w.Same w' → Q h (.error e) w') :
    (c.run >>= g).Safe DiskOp.exec J Q h w₁ := by
  refine Prog.safe_perform_bind.mpr fun i a w' hexec => ?_
  have hsame' := hsame.trans (DiskOp.exec_same hc hexec)
  refine ⟨hJ _ _ hsame', ?_⟩
  cases a with
  | ok v => exact hok i v w' hexec hsame'
  | error e => exact herr _ e w' hsame'

/-- A quiet system call at the end of a program. -/
theorem Disk.Same.safe_run {J : DiskHist → Disk → Prop}
    {Q : DiskHist → Except Error c.Val → Disk → Prop} (hsame : w.Same w₁) (hc : c.Quiet)
    (hJ : ∀ h w', w.Same w' → J h w')
    (hQ : ∀ h x i w', c.exec i w₁ = some (x, w') → w.Same w' → Q h x w') :
    c.run.Safe DiskOp.exec J Q h w₁ := by
  refine Prog.safe_perform.mpr fun i a w' hexec => ?_
  have hsame' := hsame.trans (DiskOp.exec_same hc hexec)
  exact ⟨hJ _ _ hsame', hQ _ a i w' hexec hsame'⟩

/-- The outcome of writing a file other than the keyring: it is there, or nothing is. -/
def Disk.Writes (w : Disk) (f : DiskFile) (payload : Json) (_ : DiskHist) (x : Except Error Unit)
    (w' : Disk) : Prop :=
  w.Same w' ∧ (x = .ok () → w'.others f = some (some (.written payload)))

theorem DiskOp.exec_sync {a : c.Ans} (hc : (∃ f, c = .sync f ∨ c = .chmod f) ∨ c = .syncParent)
    (hexec : c.exec i w = some (a, w')) : w' = w := by
  rcases hc with ⟨f, rfl | rfl⟩ | rfl
  · rcases orOSError_eq_some hexec with hx | hx <;> exact (Prod.mk.inj hx).2
  · rcases orOSError_eq_some hexec with hx | hx <;> exact (Prod.mk.inj hx).2
  · rcases orOSError_eq_some hexec with hx | hx <;> exact (Prod.mk.inj hx).2

theorem Disk.writeExclusive_safe {J : DiskHist → Disk → Prop} (hsame : w.Same w₁)
    (hJ : ∀ h w', w.Same w' → J h w') :
    (Disk.writeExclusive f payload).Safe DiskOp.exec J (w.Writes f payload) h w₁ := by
  rw [Disk.writeExclusive]
  have herr : ∀ (h : DiskHist) (e : Error) (w' : Disk), w.Same w' →
      w.Writes f payload h (.error e) w' := fun h e w' hs => ⟨hs, by simp⟩
  refine hsame.safe_bind (by trivial) hJ (fun i v w₂ _ hsame => ?_) herr
  -- an exception in the block leaves the file out again
  refine Prog.Safe.onRaise (Prog.Safe.mono (Q := w.Writes f payload) ?_ (fun _ _ => id) ?_)
  · refine hsame.safe_bind (by trivial) hJ (fun i v w₃ hexec hsame => ?_) herr
    have hthere : w₃.others f = some (some (.written payload)) := by
      rcases orOSError_eq_some hexec with hx | hx
      · cases (Prod.mk.inj hx).1
      · rw [(Prod.mk.inj hx).2]
        exact Function.update_self _ _ _
    refine hsame.safe_bind (by trivial) hJ (fun i v w₄ hexec hsame => ?_) herr
    obtain rfl := DiskOp.exec_sync (Or.inl ⟨f, Or.inl rfl⟩) hexec
    refine hsame.safe_bind (by trivial) hJ (fun i v w₅ hexec hsame => ?_) herr
    obtain rfl := DiskOp.exec_sync (Or.inl ⟨f, Or.inr rfl⟩) hexec
    refine hsame.safe_run (by trivial) hJ fun h x i w₆ hexec hsame => ?_
    obtain rfl := DiskOp.exec_sync (Or.inr rfl) hexec
    exact ⟨hsame, fun _ => hthere⟩
  · rintro h x w' ⟨hsame, hthere⟩
    cases x with
    | ok _ => exact ⟨hsame, hthere⟩
    | error e =>
      refine hsame.safe_run (by trivial) hJ fun h y i w'' _ hsame => ?_
      cases y with
      | ok _ => exact ⟨hsame, by simp⟩
      | error e' => exact ⟨hsame, by simp⟩

/-- The outcome of a read: the generation in the file, or an exception. -/
def Disk.Reads (w : Disk) (_ : DiskHist) (x : Except Error KeyRing) (w' : Disk) : Prop :=
  w.Same w' ∧ ∀ m, x = .ok m → w'.generation = some m

theorem Disk.readPayload_safe {J : DiskHist → Disk → Prop} (hsame : w.Same w₁)
    (hJ : ∀ h w', w.Same w' → J h w') :
    Disk.readPayload.Safe DiskOp.exec J w.Reads h w₁ := by
  rw [Disk.readPayload]
  refine Prog.Safe.bind (Prog.Safe.raiseAs ?_)
  refine Prog.safe_perform.mpr fun i a w' hexec => ?_
  have hsame' := hsame.trans (DiskOp.exec_same (c := .readText) (by trivial) hexec)
  refine ⟨hJ _ _ hsame', ?_⟩
  cases a with
  | error e => exact ⟨hsame', by simp⟩
  | ok document =>
    refine Prog.safe_lift.mpr ⟨hsame', fun m hm => Disk.generation_eq_some.mpr ⟨document, ?_, hm⟩⟩
    rcases orOSError_eq_some hexec with hx | hx
    · cases (Prod.mk.inj hx).1
    · obtain ⟨hdocument, rfl⟩ := Prod.mk.inj hx
      cases hfile : w'.file with
      | none =>
        rw [hfile] at hdocument
        cases hdocument
      | some document' =>
        rw [hfile] at hdocument
        rw [Except.ok.inj hdocument]

/-- The outcome of a reload whose exceptions are replaced: the memory agrees with the file, or
nothing has changed. -/
def Disk.Reloads (w : Disk) (_ : DiskHist) (x : Except Error Unit) (w' : Disk) : Prop :=
  w'.file = w.file ∧ match x with
  | .ok _ => w'.generation = some w'.memory
  | .error e => e = .keyringCommitUncertain ∧ w'.memory = w.memory

theorem Disk.reload_safe {J : DiskHist → Disk → Prop} (hJ : ∀ h w', w'.file = w.file → J h w') :
    (Prog.raiseAs .keyringCommitUncertain Disk.reload).Safe DiskOp.exec J w.Reloads h w := by
  rw [Disk.reload]
  refine Prog.Safe.raiseAs (Prog.Safe.bind ((Disk.readPayload_safe (w := w) ⟨rfl, rfl⟩
    fun h w' hs => hJ h w' hs.1).mono (fun _ _ => id) ?_))
  rintro h x w₁ ⟨hsame, hread⟩
  cases x with
  | error e => exact ⟨hsame.1, rfl, hsame.2⟩
  | ok m =>
    refine Prog.safe_perform.mpr fun i a w' hexec => ?_
    obtain ⟨rfl, rfl⟩ := Prod.mk.inj (Option.some.inj hexec)
    exact ⟨hJ _ _ hsame.1, hsame.1, hread m rfl⟩

/-! ### The replacement -/

/-- The file holds the old or the new generation. -/
def Disk.Either (k k' : KeyRing) (w : Disk) : Prop :=
  w.generation = some k ∨ w.generation = some k'

/-- The outcome of `_replace_atomically`: what was raised says whether the file was replaced. -/
def Disk.Replaces (k k' m : KeyRing) (_ : DiskHist) (x : Except Error Unit) (w' : Disk) : Prop :=
  w'.memory = m ∧ (x = .ok () → w'.generation = some k') ∧ w'.Either k k' ∧
    ∀ e, x = .error e → e ≠ .keyringCommitUncertain → w'.generation = some k

/-- **Atomic replacement.** -/
theorem Disk.replaceAtomically_safe (hk : w.generation = some k) (hk' : k'.WellNamed) :
    (Disk.replaceAtomically k'.serializedPayload).Safe DiskOp.exec (fun _ => Disk.Either k k')
      (Disk.Replaces k k' w.memory) h w := by
  have hold : ∀ (h : DiskHist) (w' : Disk), w.Same w' → w'.Either k k' := fun _ w' hs =>
    Or.inl (hs.generation.trans hk)
  have herr : ∀ (h : DiskHist) (e : Error) (w' : Disk), w.Same w' →
      Disk.Replaces k k' w.memory h (.error e) w' := fun h e w' hs =>
    ⟨hs.2, by simp, hold h w' hs, fun _ _ _ => hs.generation.trans hk⟩
  rw [Disk.replaceAtomically]
  refine Disk.Same.safe_bind ⟨rfl, rfl⟩ (by trivial) hold (fun i v w₁ _ hsame => ?_) herr
  refine Prog.Safe.bind ((Disk.writeExclusive_safe hsame hold).mono (fun _ _ => id) ?_)
  rintro h x w₁ ⟨hsame, hthere⟩
  cases x with
  | error e => exact herr h e w₁ hsame
  | ok _ =>
  -- the removal of the temporary file changes nothing
  have hunlink : ∀ {h : DiskHist} {x : Except Error Unit} {w₁ : Disk},
      Disk.Replaces k k' w.memory h x w₁ → (DiskOp.unlink .temporary).run.Safe DiskOp.exec
        (fun _ => Disk.Either k k') (Prog.Replaces (Disk.Replaces k k' w.memory) x) h w₁ := by
    intro h x w₁ hx
    refine (Prog.safe_perform (c := DiskOp.unlink .temporary)).mpr fun i a w' hexec => ?_
    obtain ⟨rfl, rfl⟩ := Prod.mk.inj (Option.some.inj hexec)
    exact ⟨hx.2.2.1, hx⟩
  refine Prog.Safe.ensure (Prog.Safe.mono (Q := Disk.Replaces k k' w.memory) ?_ (fun _ _ => id)
    fun _ _ _ => hunlink)
  refine Prog.safe_perform_bind.mpr fun i a w₂ hexec => ?_
  rcases orOSError_eq_some hexec with hx | hx
  · obtain ⟨rfl, rfl⟩ := Prod.mk.inj hx
    exact ⟨hold h _ hsame, herr _ _ _ hsame⟩
  rw [hthere rfl] at hx
  obtain ⟨rfl, rfl⟩ := Prod.mk.inj hx
  have hnew : Disk.generation { w₁.set .temporary none with
      file := some (.written k'.serializedPayload) } = some k' :=
    Disk.generation_written hk' rfl
  refine ⟨Or.inr hnew, Prog.Safe.raiseAs ?_⟩
  generalize hw₂ : { w₁.set .temporary none with
    file := some (Json.Document.written k'.serializedPayload) } = w₂ at hnew ⊢
  have hmemory : w₂.memory = w.memory := by
    rw [← hw₂]
    exact hsame.2
  have hsynced : ∀ w', w₂.Same w' → Disk.Replaces k k' w.memory h (.ok ()) w' := fun w' hs =>
    ⟨hs.2.trans hmemory, fun _ => hs.generation.trans hnew, Or.inr (hs.generation.trans hnew),
      by simp⟩
  have hraised : ∀ w', w₂.Same w' →
      Disk.Replaces k k' w.memory h (.error .keyringCommitUncertain) w' := fun w' hs =>
    ⟨hs.2.trans hmemory, by simp, Or.inr (hs.generation.trans hnew), fun e he hne =>
      absurd (Except.error.inj he).symm hne⟩
  have hJ : ∀ (h : DiskHist) (w' : Disk), w₂.Same w' → w'.Either k k' := fun _ w' hs =>
    Or.inr (hs.generation.trans hnew)
  rw [Disk.syncReplaced]
  refine Disk.Same.safe_bind ⟨rfl, rfl⟩ (by trivial) hJ (fun i v w₃ _ hs => ?_)
    fun _ _ w' hs => hraised w' hs
  refine hs.safe_run (by trivial) hJ fun h x i w' _ hs => ?_
  cases x with
  | ok _ => exact hsynced w' hs
  | error e => exact hraised w' hs

/-- **The replacement is the command that `Host` has for it**: the file and the answer are those
of `Op.replaceKeyring` for some choice. -/
theorem Disk.replaceAtomically_outcome {W : World} {p tid : ℕ} {τ : DiskHist}
    {x : Except Error Unit}
    (hk : w.generation = some W.keyring) (hk' : k'.WellNamed)
    (hrun : Prog.Completes DiskOp.exec (Disk.replaceAtomically k'.serializedPayload) w τ x w') :
    ∃ i y W', (Op.replaceKeyring k').exec p tid i W = some (y, W') ∧
      w'.generation = some W'.keyring ∧ (x = .ok () ↔ y = .ok ()) := by
  obtain ⟨q, hsteps, hx⟩ := hrun
  obtain ⟨-, hok, heither, -⟩ := ((Disk.replaceAtomically_safe (h := []) hk hk').steps
    (Or.inl hk) hsteps).2 x hx
  have hexec : ∀ fault late : Bool, ∃ i : Choice, i.fault = fault ∧ i.late = late :=
    fun fault late =>
    ⟨⟨fault, late, 0, by decide, [], ⟨List.replicate 32 0, by simp⟩, ⟨[], []⟩, none⟩, rfl, rfl⟩
  cases x with
  | ok _ =>
    obtain ⟨i, hfault, hlate⟩ := hexec false false
    refine ⟨i, .ok (), { W with keyring := k' }, ?_, hok rfl, by simp⟩
    simp [Op.exec, orFault, hfault, hlate]
  | error e =>
    rcases heither with hold | hnew
    · obtain ⟨i, hfault, hlate⟩ := hexec true false
      refine ⟨i, .error .interrupted, W, ?_, hold, by simp⟩
      simp [Op.exec, orFault, hfault, hlate]
    · obtain ⟨i, hfault, hlate⟩ := hexec false true
      refine ⟨i, .error .keyringCommitUncertain, { W with keyring := k' }, ?_, hnew, by simp⟩
      simp [Op.exec, hlate]

/-- The outcome of a replacement and the reloads after it. -/
def Disk.Mutates (k k' : KeyRing) (_ : DiskHist) (x : Except Error Unit) (w' : Disk) : Prop :=
  w'.Either k k' ∧
    (x = .ok () → w'.generation = some k' ∧ w'.memory = k') ∧
    ∀ e, x = .error e → e ≠ .keyringCommitUncertain → w'.generation = some k ∧ w'.memory = k

/-- **Replacement and reload**: the shared part of `rotate` and `retire`. -/
theorem Disk.replaceAndReload_safe (hk : w.generation = some k) (hk' : k'.WellNamed) :
    (Disk.replaceAndReload k').Safe DiskOp.exec (fun _ => Disk.Either k k') (Disk.Mutates k k')
      h w := by
  rw [Disk.replaceAndReload]
  have hreload : ∀ {h : DiskHist} {w₁ : Disk}, w₁.Either k k' →
      (Prog.raiseAs .keyringCommitUncertain Disk.reload).Safe DiskOp.exec
        (fun _ => Disk.Either k k') w₁.Reloads h w₁ := fun hw₁ =>
    Disk.reload_safe fun _ w' hfile => by rwa [Disk.Either, Disk.generation, hfile]
  have hsame : ∀ {w₁ w₂ : Disk}, w₂.file = w₁.file → w₂.generation = w₁.generation :=
    fun hfile => by rw [Disk.generation, hfile, Disk.generation]
  refine Prog.Safe.bind (Prog.Safe.onRaise ((Disk.replaceAtomically_safe hk hk').mono
    (fun _ _ => id) ?_))
  rintro h x w₁ ⟨hmem, hok, heither, herr⟩
  cases x with
  | ok _ =>
    refine (hreload heither).mono (fun _ _ => id) ?_
    rintro h' y w₂ ⟨hfile, hy⟩
    have hnew := (hsame hfile).trans (hok rfl)
    cases y with
    | ok _ =>
      refine ⟨Or.inr hnew, fun _ => ⟨hnew, Option.some.inj ?_⟩, by simp⟩
      exact hy.symm.trans hnew
    | error e =>
      exact ⟨Or.inr hnew, by simp, fun e' he hne => absurd (hy.1 ▸ Except.error.inj he).symm hne⟩
  | error e =>
    refine (hreload heither).mono (fun _ _ => id) ?_
    rintro h' y w₂ ⟨hfile, hy⟩
    have heither₂ : w₂.Either k k' := by rwa [Disk.Either, hsame hfile]
    cases y with
    | ok _ =>
      refine ⟨heither₂, by simp, fun e' he hne => ?_⟩
      obtain rfl := Except.error.inj he
      -- a failure other than an uncertain commit leaves the old generation
      have hold := (hsame hfile).trans (herr e rfl hne)
      exact ⟨hold, Option.some.inj (hy.symm.trans hold)⟩
    | error e' =>
      exact ⟨heither₂, by simp, fun e' he hne => absurd (hy.1 ▸ Except.error.inj he).symm hne⟩

/-! ### Methods of a `KeyRing` -/

/-- A method of a `KeyRing` whose memory agrees with the file reaches its body. -/
theorem Disk.stable_safe {α : Type} {p : DiskProg α} {Q : DiskHist → Except Error α → Disk → Prop}
    (hk : w.generation = some w.memory) (herr : ∀ h e w', w.Same w' → Q h (.error e) w')
    (hQ : ∀ h h' x w', Q h x w' → Q (h ++ h') x w')
    (hp : ∀ h w', w.Same w' → p.Safe DiskOp.exec (fun _ _ => True) Q h w') :
    (Disk.stable p).Safe DiskOp.exec (fun _ _ => True) Q h w := by
  have hJ : ∀ (h : DiskHist) (w' : Disk), w.Same w' → True := fun _ _ _ => trivial
  rw [Disk.stable]
  refine Disk.Same.safe_bind ⟨rfl, rfl⟩ (by trivial) hJ (fun i v w₁ _ hsame => ?_) herr
  have hunlock : ∀ {h : DiskHist} {x : Except Error α} {w₁ : Disk}, Q h x w₁ →
      DiskOp.unlock.run.Safe DiskOp.exec (fun _ _ => True) (Prog.Replaces Q x) h w₁ := by
    intro h x w₁ hx
    refine (Prog.safe_perform (c := DiskOp.unlock)).mpr fun i a w' hexec => ?_
    obtain ⟨rfl, rfl⟩ := Prod.mk.inj (Option.some.inj hexec)
    exact ⟨trivial, hQ _ _ _ _ hx⟩
  refine Prog.Safe.ensure (Prog.Safe.mono (Q := Q) ?_ (fun _ _ => id) fun _ _ _ => hunlock)
  refine Prog.Safe.bind ((Disk.readPayload_safe hsame hJ).mono (fun _ _ => id) ?_)
  rintro h x w₁ ⟨hsame, hread⟩
  cases x with
  | error e => exact herr h e w₁ hsame
  | ok disk =>
    refine Prog.safe_perform_bind.mpr fun i a w' hexec => ?_
    obtain ⟨rfl, rfl⟩ := Prod.mk.inj (Option.some.inj hexec)
    refine ⟨trivial, ?_⟩
    have hagree : disk = w₁.memory := by
      have hgen := hread disk rfl
      rw [hsame.generation, hk, ← hsame.2] at hgen
      exact (Option.some.inj hgen).symm
    dsimp only
    rw [if_neg (not_not_intro hagree)]
    exact hp _ _ hsame

/-- A method of a `KeyRing` whose memory does not agree with the file raises, and changes
nothing. -/
theorem Disk.stable_stale {α : Type} {p : DiskProg α} (hstale : w.generation ≠ some w.memory) :
    (Disk.stable p).Safe DiskOp.exec (fun _ => w.Same)
      (fun _ x w' => w.Same w' ∧ ∃ e, x = .error e) h w := by
  have hJ : ∀ (h : DiskHist) (w' : Disk), w.Same w' → w.Same w' := fun _ _ => id
  rw [Disk.stable]
  refine Disk.Same.safe_bind ⟨rfl, rfl⟩ (by trivial) hJ (fun i v w₁ _ hsame => ?_)
    fun _ e _ hsame => ⟨hsame, e, rfl⟩
  have hunlock : ∀ {h : DiskHist} {e : Error} {w₁ : Disk}, w.Same w₁ →
      DiskOp.unlock.run.Safe DiskOp.exec (fun _ => w.Same)
        (Prog.Replaces (fun _ x w' => w.Same w' ∧ ∃ e, x = .error e) (.error e : Except Error α))
        h w₁ := by
    intro h e w₁ hsame
    refine (Prog.safe_perform (c := DiskOp.unlock)).mpr fun i a w' hexec => ?_
    obtain ⟨rfl, rfl⟩ := Prod.mk.inj (Option.some.inj hexec)
    exact ⟨hsame, hsame, e, rfl⟩
  refine Prog.Safe.ensure (Prog.Safe.mono
    (Q := fun _ x w' => w.Same w' ∧ ∃ e, x = .error e) ?_ (fun _ _ => id) ?_)
  · refine Prog.Safe.bind ((Disk.readPayload_safe hsame hJ).mono (fun _ _ => id) ?_)
    rintro h x w₁ ⟨hsame, hread⟩
    cases x with
    | error e => exact ⟨hsame, e, rfl⟩
    | ok disk =>
      refine Prog.safe_perform_bind.mpr fun i a w' hexec => ?_
      obtain ⟨rfl, rfl⟩ := Prod.mk.inj (Option.some.inj hexec)
      refine ⟨hsame, ?_⟩
      have hdiffer : disk ≠ w₁.memory := by
        rintro rfl
        have hgen := hread _ rfl
        rw [hsame.generation, hsame.2] at hgen
        exact hstale hgen
      dsimp only
      rw [if_pos hdiffer]
      exact ⟨hsame, _, rfl⟩
  · rintro h x w₁ ⟨hsame, e, rfl⟩
    exact hunlock hsame

end

end Onceproof

import Onceproof.Keys.Discipline
import Onceproof.Ledger.HashKeys

/-!
# Custody of the hash keys

`Custody` is the invariant of a running instance that ties the ledger, the keyring file, the
memories of the processes and the locks together. What a thread learned is `Sound` while it
holds the locks it learned it under: the locks exclude every thread that could make it false.
So a key is retired only when no row uses it, and a row is stored only under a key that the
file has.

* `Knowledge.Sound` is the part of the invariant about one thread, `Custody` the whole.
* One lemma for each kind of command (`Custody.lock`, `Custody.replace`, `Custody.commit`, …)
  shows that it is kept, and `SystemRun.custody` that it holds in every state of a run.
-/

namespace Onceproof

/-! ### Processes -/

/-- The process serves requests. -/
def World.Serving (w : World) (p : ℕ) : Prop := (w.procs p).any Proc.serving = true

/-- The keyring in the memory of a process. -/
def World.memoryOf (w : World) (p : ℕ) : Option KeyRing := (w.procs p).bind Proc.memory

/-- A key that the file and the memory of a process have under one id. -/
def World.Knows (w : World) (p : ℕ) (kid : Str) (key : RootKey) : Prop :=
  w.keyring.keyFor kid = some key ∧ ∃ m, w.memoryOf p = some m ∧ m.keyFor kid = some key

/-- The memory of a serving process: its current key and the keys of all proofs are those of
the file. -/
def World.MemoryFit (w : World) (p : ℕ) : Prop :=
  ∃ m, w.memoryOf p = some m ∧ w.Knows p m.currentKey.1 m.currentKey.2 ∧
    ∀ row ∈ w.ledger.proofs, ∃ key, w.Knows p row.hashKid key

/-- A process that remembers the generation on disk is fit to serve. -/
theorem World.memoryFit {H : HashLib} {w : World} {p : ℕ} (hcovered : w.ledger.Covered H w.keyring)
    (hmemory : w.memoryOf p = some w.keyring) : w.MemoryFit p := by
  refine ⟨w.keyring, hmemory, ?_, fun row hrow => ?_⟩
  · exact ⟨w.keyring.keyFor_currentKey, w.keyring, hmemory, w.keyring.keyFor_currentKey⟩
  · obtain ⟨key, -, hkey, -⟩ := hcovered.proofs row hrow
    exact ⟨key, hkey, w.keyring, hmemory, hkey⟩

theorem LockName.of_inj {p : ℕ} {l l' : LockName} (h : l.of p = l'.of p) : l = l' := by
  cases l <;> cases l' <;> first | rfl | cases h

/-! ### The invariant -/

/-- What a thread of the process `p` knows is true. -/
structure Knowledge.Sound (H : HashLib) (w : World) (tid p : ℕ) (r : Request)
    (k : Knowledge) : Prop where
  running : (w.procs p).isSome = true
  api : r.IsApi → w.Serving p
  notServing : ¬ r.IsApi → k.started = false → ¬ w.Serving p
  nodup : k.held.Nodup
  held : ∀ l ∈ k.held, w.locks (l.of p) = some (p, tid)
  command : .instanceLock ∈ k.held → ¬ r.IsApi
  /-- The generation on disk, under a lock that no other writer of the file goes without. -/
  read : (.keyringFile ∈ k.held ∨ .instanceLock ∈ k.held ∧ k.started = false) →
    ∀ d, k.read = some d → w.keyring = d
  /-- The generation in memory, where only this thread can change it. -/
  memory : (.keyringFile ∈ k.held ∨ ¬ r.IsApi ∧ k.started = false) →
    ∀ m ∈ k.memories, w.memoryOf p = some m
  /-- The key of a proof that is being issued. -/
  issuing : r.IsApi → .keyLock ∈ k.held →
    ∀ m ∈ k.memories, w.Knows p m.currentKey.1 m.currentKey.2
  credential : .keyringFile ∈ k.held →
    ∀ kid, k.unusedCredential = some kid → ∀ c ∈ w.ledger.credentials, c.hashKid ≠ kid
  proof : r.Excludes k →
    ∀ kid, k.unusedProof = some kid → ∀ row ∈ w.ledger.proofs, row.hashKid ≠ kid
  drawn : ∀ existing kid, k.drawn = some (existing, kid) → kid ∉ existing
  backups : ∀ x ∈ k.backups, x.1.Covered H x.2

/-- **Custody of the hash keys.** -/
structure Custody (H : HashLib) (s : SystemState) : Prop where
  covered : s.world.ledger.Covered H s.world.keyring
  keyed : s.world.ledger.Keyed H s.world.keyring
  sound : ∀ tid th, s.threads tid = some th →
    (known th.hist).Sound H s.world tid th.owner th.req
  alone : ∀ tid th tid' th', s.threads tid = some th → s.threads tid' = some th' →
    ¬ th.req.IsApi → ¬ th'.req.IsApi → th.owner = th'.owner → tid = tid'
  serving : ∀ p, s.world.Serving p → ∃ tid < s.next,
    s.world.locks .instanceLock = some (p, tid) ∧
      ∀ th, s.threads tid = some th → th.req = .command .serve
  memory : ∀ p, s.world.Serving p → s.world.MemoryFit p

variable {H : HashLib} {s : SystemState} {w w' : World} {tid tid' p p' : ℕ} {r r' : Request}
variable {k k' : Knowledge} {hist hist' : Hist}

namespace Knowledge.Sound

/-- What is known stays true while its part of the world does not change. -/
theorem congr (h : k.Sound H w tid p r)
    (hlocks : ∀ l ∈ k.held, w'.locks (l.of p) = w.locks (l.of p))
    (hkeyring : w'.keyring = w.keyring) (hledger : w'.ledger = w.ledger)
    (hrunning : (w'.procs p).isSome = true) (hserving : w'.Serving p ↔ w.Serving p)
    (hmemory : w'.memoryOf p = w.memoryOf p) : k.Sound H w' tid p r where
  running := hrunning
  api hr := hserving.mpr (h.api hr)
  notServing hr hstarted hs := h.notServing hr hstarted (hserving.mp hs)
  nodup := h.nodup
  held l hl := (hlocks l hl).trans (h.held l hl)
  command := h.command
  read hlock d hd := hkeyring.trans (h.read hlock d hd)
  memory hlock m hm := hmemory.trans (h.memory hlock m hm)
  issuing hr hlock m hm := by
    obtain ⟨hfile, hmem⟩ := h.issuing hr hlock m hm
    exact ⟨hkeyring ▸ hfile, hmemory ▸ hmem⟩
  credential := hledger ▸ h.credential
  proof := hledger ▸ h.proof
  drawn := h.drawn
  backups := h.backups

/-- What remains of the knowledge when the held locks change. -/
theorem forget {held : List LockName} (hrunning : (w.procs p).isSome = true)
    (hapi : r.IsApi → w.Serving p)
    (hnotServing : ¬ r.IsApi → k.started = false → ¬ w.Serving p) (hnodup : held.Nodup)
    (hheld : ∀ l ∈ held, w.locks (l.of p) = some (p, tid))
    (hcommand : .instanceLock ∈ held → ¬ r.IsApi)
    (hdrawn : ∀ existing kid, k.drawn = some (existing, kid) → kid ∉ existing)
    (hbackups : ∀ x ∈ k.backups, x.1.Covered H x.2) : (k.forget held).Sound H w tid p r where
  running := hrunning
  api := hapi
  notServing := hnotServing
  nodup := hnodup
  held := hheld
  command := hcommand
  read _ d hd := by cases hd
  memory _ m hm := by cases hm
  issuing _ _ m hm := by cases hm
  credential _ kid hkid := by cases hkid
  proof _ kid hkid := by cases hkid
  drawn := hdrawn
  backups := hbackups

/-- Where the file and the memory were seen to agree, they agree, and every generation read
from memory is the one on disk. -/
theorem agreed (h : k.Sound H w tid p r) (hk : k.Agreed) :
    w.memoryOf p = some w.keyring ∧ ∀ m ∈ k.memories, m = w.keyring := by
  obtain ⟨hfile, d, hread, hd⟩ := hk
  obtain rfl := h.read (Or.inl hfile) d hread
  have hmemory := h.memory (Or.inl hfile) w.keyring hd
  refine ⟨hmemory, fun m hm => ?_⟩
  exact Option.some.inj ((h.memory (Or.inl hfile) m hm).symm.trans hmemory)

end Knowledge.Sound

namespace Custody

variable {th th' : Thread ℕ Request Op Op.Ans Error Outcome}

/-- A lock has one holder. -/
theorem exclusive (hs : Custody H s) (hth : s.threads tid = some th)
    (hth' : s.threads tid' = some th') {l l' : LockName} (hl : l ∈ (known th.hist).held)
    (hl' : l' ∈ (known th'.hist).held) (hsame : l.of th.owner = l'.of th'.owner) :
    tid = tid' := by
  have h := (hs.sound tid th hth).held l hl
  have h' := (hs.sound tid' th' hth').held l' hl'
  rw [hsame, h'] at h
  exact (Prod.mk.inj (Option.some.inj h)).2.symm

/-- One process serves. -/
theorem serving_unique (hs : Custody H s) (hp : s.world.Serving p) (hp' : s.world.Serving p') :
    p = p' := by
  obtain ⟨_, -, hlock, -⟩ := hs.serving p hp
  obtain ⟨_, -, hlock', -⟩ := hs.serving p' hp'
  rw [hlock] at hlock'
  exact (Prod.mk.inj (Option.some.inj hlock')).1

/-- Nothing serves while a command other than the server holds the instance lock. -/
theorem not_serving (hs : Custody H s) (hth : s.threads tid = some th)
    (hl : .instanceLock ∈ (known th.hist).held) (hr : th.req ≠ .command .serve) :
    ¬ s.world.Serving p := by
  intro hp
  obtain ⟨tid₀, -, hlock, hserve⟩ := hs.serving p hp
  have h := (hs.sound tid th hth).held _ hl
  have hsame : some (p, tid₀) = some (th.owner, tid) := hlock.symm.trans h
  obtain ⟨-, rfl⟩ := Prod.mk.inj (Option.some.inj hsame)
  exact hr (hserve th hth)

/-- A thread that excludes the issuers is the only one that holds the key lock in a serving
process. -/
theorem excludes (hs : Custody H s) (hth : s.threads tid = some th)
    (hth' : s.threads tid' = some th') (hexcludes : th.req.Excludes (known th.hist))
    (hapi : th'.req.IsApi) (hl : .keyLock ∈ (known th'.hist).held) : tid = tid' := by
  have hserving' := (hs.sound tid' th' hth').api hapi
  rcases hexcludes with ⟨hr, hlock⟩ | ⟨hlock, hr⟩
  · have howner := hs.serving_unique ((hs.sound tid th hth).api hr) hserving'
    exact hs.exclusive hth hth' hlock hl (by rw [howner])
  · exact absurd hserving' (hs.not_serving hth hlock hr)

/-- A process with a thread that serves nothing yet has no other thread. -/
theorem alone_of_not_serving (hs : Custody H s) (hth : s.threads tid = some th)
    (hth' : s.threads tid' = some th') (hr : ¬ th.req.IsApi)
    (hstarted : (known th.hist).started = false) (howner : th.owner = th'.owner) :
    tid = tid' := by
  have hserving := (hs.sound tid th hth).notServing hr hstarted
  refine hs.alone tid th tid' th' hth hth' hr (fun hapi => ?_) howner
  exact hserving (howner ▸ (hs.sound tid' th' hth').api hapi)

/-- A command that changes what its own thread knows, and keeps the rest of the invariant. -/
theorem update {prog prog' : HostProg Outcome} (hs : Custody H s)
    (running : s.threads tid = some ⟨p, r, hist, prog⟩)
    (hcovered : w'.ledger.Covered H w'.keyring)
    (hkeyed : w'.ledger.Keyed H w'.keyring)
    (hself : (known hist').Sound H w' tid p r)
    (hothers : ∀ tid' th', tid' ≠ tid → s.threads tid' = some th' →
      (known th'.hist).Sound H w' tid' th'.owner th'.req)
    (hserving : ∀ p, w'.Serving p → ∃ tid < s.next, w'.locks .instanceLock = some (p, tid) ∧
      ∀ th, s.threads tid = some th → th.req = .command .serve)
    (hmemory : ∀ p, w'.Serving p → w'.MemoryFit p) :
    Custody H ⟨w', Function.update s.threads tid (some ⟨p, r, hist', prog'⟩), s.next⟩ where
  covered := hcovered
  keyed := hkeyed
  sound tid' th' hth' := by
    rcases update_eq_some hth' with ⟨rfl, rfl⟩ | ⟨htid, hth'⟩
    · exact hself
    · exact hothers tid' th' htid hth'
  alone tid₁ th₁ tid₂ th₂ h₁ h₂ hr₁ hr₂ howner := by
    -- the thread keeps its process and its request
    have hback : ∀ tid' th', Function.update s.threads tid (some ⟨p, r, hist', prog'⟩) tid' =
        some th' → ∃ th₀, s.threads tid' = some th₀ ∧ th₀.owner = th'.owner ∧
          th₀.req = th'.req := by
      intro tid' th' hth'
      rcases update_eq_some hth' with ⟨rfl, rfl⟩ | ⟨-, hth'⟩
      · exact ⟨_, running, rfl, rfl⟩
      · exact ⟨th', hth', rfl, rfl⟩
    obtain ⟨th₃, h₃, howner₃, hreq₃⟩ := hback tid₁ th₁ h₁
    obtain ⟨th₄, h₄, howner₄, hreq₄⟩ := hback tid₂ th₂ h₂
    exact hs.alone tid₁ th₃ tid₂ th₄ h₃ h₄ (hreq₃ ▸ hr₁) (hreq₄ ▸ hr₂)
      (howner₃.trans (howner.trans howner₄.symm))
  serving p' hp' := by
    obtain ⟨tid₀, hlt, hlock, hserve⟩ := hserving p' hp'
    refine ⟨tid₀, hlt, hlock, fun th hth => ?_⟩
    rcases update_eq_some hth with ⟨rfl, rfl⟩ | ⟨-, hth⟩
    · have hreq : r = .command .serve := hserve ⟨p, r, hist, prog⟩ running
      exact hreq
    · exact hserve th hth
  memory := hmemory

/-- A command that leaves the world alone. -/
theorem learn {prog prog' : HostProg Outcome} (hs : Custody H s)
    (running : s.threads tid = some ⟨p, r, hist, prog⟩)
    (hself : (known hist').Sound H s.world tid p r) :
    Custody H ⟨s.world, Function.update s.threads tid (some ⟨p, r, hist', prog'⟩), s.next⟩ :=
  hs.update running hs.covered hs.keyed hself (fun tid' th' _ hth' => hs.sound tid' th' hth')
    hs.serving hs.memory

/-! ### Locks -/

section Locks

variable {prog prog' : HostProg Outcome} {l : LockName}

theorem lock (hs : Custody H s) (running : s.threads tid = some ⟨p, r, hist, prog⟩)
    (hfree : s.world.locks (l.of p) = none) (hcommand : l = .instanceLock → ¬ r.IsApi)
    (hk : known hist' = (known hist).forget (l :: (known hist).held)) :
    Custody H ⟨s.world.setLock (l.of p) (some (p, tid)),
      Function.update s.threads tid (some ⟨p, r, hist', prog'⟩), s.next⟩ := by
  have hself := hs.sound tid _ running
  have hlocks : ∀ {L : Lock} {h : ℕ × ℕ}, s.world.locks L = some h →
      (s.world.setLock (l.of p) (some (p, tid))).locks L = s.world.locks L := by
    intro L h hL
    refine Function.update_of_ne ?_ _ _
    rintro rfl
    rw [hfree] at hL
    cases hL
  refine hs.update running hs.covered hs.keyed ?_ (fun tid' th' _ hth' => ?_) (fun p' hp' => ?_)
    hs.memory
  · rw [hk]
    refine .forget hself.running hself.api hself.notServing ?_ ?_ ?_ hself.drawn hself.backups
    · refine List.nodup_cons.mpr ⟨fun hl => ?_, hself.nodup⟩
      have := hself.held l hl
      rw [hfree] at this
      cases this
    · intro l' hl'
      rcases List.mem_cons.mp hl' with rfl | hl'
      · exact Function.update_self _ _ _
      · exact (hlocks (hself.held l' hl')).trans (hself.held l' hl')
    · intro hl'
      rcases List.mem_cons.mp hl' with heq | hl'
      · exact hcommand heq.symm
      · exact hself.command hl'
  · have hsound := hs.sound tid' th' hth'
    exact hsound.congr (fun l' hl' => hlocks (hsound.held l' hl')) rfl rfl hsound.running
      Iff.rfl rfl
  · obtain ⟨tid₀, hlt, hlock, hserve⟩ := hs.serving p' hp'
    exact ⟨tid₀, hlt, (hlocks hlock).trans hlock, hserve⟩

theorem release (hs : Custody H s) (running : s.threads tid = some ⟨p, r, hist, prog⟩)
    (hl : l ∈ (known hist).held) (hserve : l = .instanceLock → r ≠ .command .serve)
    (hk : known hist' = (known hist).forget ((known hist).held.erase l)) :
    Custody H ⟨s.world.setLock (l.of p) none,
      Function.update s.threads tid (some ⟨p, r, hist', prog'⟩), s.next⟩ := by
  have hself := hs.sound tid _ running
  refine hs.update running hs.covered hs.keyed ?_ (fun tid' th' htid hth' => ?_)
    (fun p' hp' => ?_) hs.memory
  · rw [hk]
    refine .forget hself.running hself.api hself.notServing (hself.nodup.erase l) ?_ ?_
      hself.drawn hself.backups
    · intro l' hl'
      obtain ⟨hne, hl'⟩ := hself.nodup.mem_erase_iff.mp hl'
      exact (Function.update_of_ne (fun heq => hne (LockName.of_inj heq)) _ _).trans
        (hself.held l' hl')
    · exact fun hl' => hself.command (List.mem_of_mem_erase hl')
  · -- no other thread holds the lock
    have hsound := hs.sound tid' th' hth'
    refine hsound.congr (fun l' hl' => Function.update_of_ne (fun heq => ?_) _ _) rfl rfl
      hsound.running Iff.rfl rfl
    exact htid (hs.exclusive hth' running hl' hl heq)
  · obtain ⟨tid₀, hlt, hlock, hreq⟩ := hs.serving p' hp'
    refine ⟨tid₀, hlt, ?_, hreq⟩
    refine (Function.update_of_ne (fun heq => ?_) _ _).trans hlock
    have hinstance : l = .instanceLock := LockName.of_inj (p := p) heq.symm
    exact hs.not_serving running (hinstance ▸ hl) (hserve hinstance) hp'

end Locks

/-! ### The keyring -/

variable {prog prog' : HostProg Outcome}

/-- Only the writer of the keyring holds an instance lock that keeps the file as it is. -/
theorem exclusive_writer (hs : Custody H s) (running : s.threads tid = some ⟨p, r, hist, prog⟩)
    (hr : r.IsApi ∨ .instanceLock ∈ (known hist).held ∧ r ≠ .command .serve)
    (hth' : s.threads tid' = some th') (hl : .instanceLock ∈ (known th'.hist).held)
    (hstarted : (known th'.hist).started = false) : tid' = tid := by
  rcases hr with hr | ⟨hlock, -⟩
  · -- the holder would be the server of this process, which has started
    have hserving := (hs.sound tid _ running).api hr
    have hsound := hs.sound tid' th' hth'
    obtain ⟨tid₀, -, hlock, -⟩ := hs.serving p hserving
    have hsame : some (p, tid₀) = some (th'.owner, tid') :=
      hlock.symm.trans (hsound.held _ hl)
    obtain ⟨rfl, -⟩ := Prod.mk.inj (Option.some.inj hsame)
    exact absurd hserving (hsound.notServing (hsound.command hl) hstarted)
  · exact hs.exclusive hth' running hl hlock rfl

/-- The generation that is written has every key of the file but an unused one. -/
theorem keyFor_replaced (hs : Custody H s) (running : s.threads tid = some ⟨p, r, hist, prog⟩)
    (hagreed : (known hist).Agreed) {new : KeyRing} (hreplaces : r.Replaces (known hist) new)
    {kid : Str} {key : RootKey} (hkey : s.world.keyring.keyFor kid = some key) :
    new.keyFor kid = some key ∨ r.Excludes (known hist) ∧ kid ≠ s.world.keyring.currentKid ∧
      (∀ c ∈ s.world.ledger.credentials, c.hashKid ≠ kid) ∧
      ∀ row ∈ s.world.ledger.proofs, row.hashKid ≠ kid := by
  have hself := hs.sound tid _ running
  have hmemories := (hself.agreed hagreed).2
  cases hreplaces with
  | @rotated m kid' key' hm fresh exclusive =>
    obtain rfl := hmemories m hm
    have hnew : kid ≠ kid' := by
      rintro rfl
      refine hself.drawn _ _ fresh (Finmap.mem_keys.mpr ?_)
      exact Finmap.lookup_isSome.mp (Option.isSome_iff_exists.mpr ⟨key, hkey⟩)
    exact Or.inl (by rw [KeyRing.keyFor_rotated, if_neg hnew, hkey])
  | @retired m kid' old hm hcredential hproof exclusive =>
    obtain rfl := hmemories m hm
    by_cases heq : kid = kid'
    · subst heq
      exact Or.inr ⟨exclusive, old, hself.credential hagreed.1 kid hcredential,
        hself.proof exclusive kid hproof⟩
    · exact Or.inl (by rw [KeyRing.keyFor_retired, if_neg heq, hkey])

theorem replace (hs : Custody H s) (running : s.threads tid = some ⟨p, r, hist, prog⟩)
    (hagreed : (known hist).Agreed) {new : KeyRing} (hreplaces : r.Replaces (known hist) new)
    (hk : known hist' = (known hist).forget (known hist).held) :
    Custody H ⟨{ s.world with keyring := new },
      Function.update s.threads tid (some ⟨p, r, hist', prog'⟩), s.next⟩ := by
  have hself := hs.sound tid _ running
  have hkeyFor := fun {kid : Str} {key : RootKey} (hkey : s.world.keyring.keyFor kid = some key) =>
    hs.keyFor_replaced running hagreed hreplaces hkey
  have hexclusive : r.IsApi ∨ .instanceLock ∈ (known hist).held ∧ r ≠ .command .serve := by
    cases hreplaces with
    | rotated _ _ _ exclusive => exact exclusive
    | retired _ _ _ _ exclusive => exact exclusive.imp_left And.left
  have hproofs : ∀ row ∈ s.world.ledger.proofs, new.keyFor row.hashKid =
      s.world.keyring.keyFor row.hashKid := by
    intro row hrow
    obtain ⟨key, -, hkey, -⟩ := hs.covered.proofs row hrow
    rw [hkey]
    exact (hkeyFor hkey).resolve_right fun h => h.2.2.2 row hrow rfl
  have hcredentials : ∀ c ∈ s.world.ledger.credentials, new.keyFor c.hashKid =
      s.world.keyring.keyFor c.hashKid := by
    intro c hc
    obtain ⟨key, -, hkey, -⟩ := hs.covered.credentials c hc
    rw [hkey]
    exact (hkeyFor hkey).resolve_right fun h => h.2.2.1 c hc rfl
  refine hs.update running (hs.covered.keyring hcredentials hproofs)
    (hs.keyed.keyring hcredentials hproofs) ?_
    (fun tid' th' htid hth' => ?_) hs.serving (fun p' hp' => ?_)
  · rw [hk]
    exact .forget hself.running hself.api hself.notServing hself.nodup hself.held hself.command
      hself.drawn hself.backups
  · have hsound := hs.sound tid' th' hth'
    refine { hsound with read := fun hlock => ?_, issuing := fun hapi hl m hm => ?_ }
    · -- no other thread relies on the file
      rcases hlock with hlock | ⟨hlock, hstarted⟩
      · exact absurd (hs.exclusive hth' running hlock hagreed.1 rfl) htid
      · exact absurd (hs.exclusive_writer running hexclusive hth' hlock hstarted) htid
    · obtain ⟨hfile, hmemory⟩ := hsound.issuing hapi hl m hm
      refine ⟨(hkeyFor hfile).resolve_right fun h => ?_, hmemory⟩
      exact htid (hs.excludes running hth' h.1 hapi hl).symm
  · obtain ⟨m, hm, ⟨hfile, hmemory⟩, hrows⟩ := hs.memory p' hp'
    refine ⟨m, hm, ⟨(hkeyFor hfile).resolve_right fun h => ?_, hmemory⟩, fun row hrow => ?_⟩
    · -- the current key of the only serving process is that of the file
      rcases h.1 with ⟨hapi, -⟩ | ⟨hlock, hserve⟩
      · obtain rfl := hs.serving_unique (hself.api hapi) hp'
        rw [(hself.agreed hagreed).1] at hm
        exact h.2.1 (congrArg KeyRing.currentKid (Option.some.inj hm)).symm
      · exact hs.not_serving running hlock hserve hp'
    · obtain ⟨key, hfile', hmemory'⟩ := hrows row hrow
      exact ⟨key, (hproofs row hrow).trans hfile', hmemory'⟩

/-! ### The attributes of a process -/

theorem remember (hs : Custody H s) (running : s.threads tid = some ⟨p, r, hist, prog⟩)
    {m : KeyRing} (hread : (known hist).read = some m)
    (hlock : .keyringFile ∈ (known hist).held ∨ ¬ r.IsApi ∧ (known hist).started = false)
    (hk : known hist' = { known hist with memories := [m] }) :
    Custody H ⟨s.world.setProc p fun q => { q with memory := some m },
      Function.update s.threads tid (some ⟨p, r, hist', prog'⟩), s.next⟩ := by
  have hself := hs.sound tid _ running
  set w' := s.world.setProc p fun q => { q with memory := some m } with hw'
  have hproc : w'.procs p = (s.world.procs p).map fun q => { q with memory := some m } :=
    Function.update_self _ _ _
  have hother : ∀ {p'}, p' ≠ p → w'.procs p' = s.world.procs p' := fun hne =>
    Function.update_of_ne hne _ _
  have hmemory : w'.memoryOf p = some m := by
    obtain ⟨q, hq⟩ := Option.isSome_iff_exists.mp hself.running
    rw [World.memoryOf, hproc, hq]
    rfl
  have hserving : ∀ p', w'.Serving p' ↔ s.world.Serving p' := by
    intro p'
    by_cases hp : p' = p
    · subst hp
      rw [World.Serving, World.Serving, hproc]
      cases s.world.procs p' <;> rfl
    · rw [World.Serving, World.Serving, hother hp]
  -- where the process serves, the file lock makes the generation the one on disk
  have hfile : r.IsApi ∨ s.world.Serving p →
      .keyringFile ∈ (known hist).held ∧ m = s.world.keyring := by
    intro h
    have hfile : .keyringFile ∈ (known hist).held := by
      refine hlock.resolve_right fun hfresh => ?_
      rcases h with h | h
      · exact hfresh.1 h
      · exact hself.notServing hfresh.1 hfresh.2 h
    exact ⟨hfile, (hself.read (Or.inl hfile) m hread).symm⟩
  refine hs.update running hs.covered hs.keyed ?_ (fun tid' th' htid hth' => ?_)
    (fun p' hp' => hs.serving p' ((hserving p').mp hp')) (fun p' hp' => ?_)
  · rw [hk]
    exact {
      running := by
        rw [hproc, Option.isSome_map]
        exact hself.running
      api := fun hr => (hserving p).mpr (hself.api hr)
      notServing := fun hr hstarted hp => hself.notServing hr hstarted ((hserving p).mp hp)
      nodup := hself.nodup
      held := hself.held
      command := hself.command
      read := hself.read
      memory := fun _ m' hm' => by rw [List.mem_singleton.mp hm', hmemory]
      issuing := fun hr _ m' hm' => by
        rw [List.mem_singleton.mp hm']
        refine ⟨?_, m, hmemory, m.keyFor_currentKey⟩
        rw [(hfile (Or.inl hr)).2]
        exact s.world.keyring.keyFor_currentKey
      credential := hself.credential
      proof := hself.proof
      drawn := hself.drawn
      backups := hself.backups }
  · have hsound := hs.sound tid' th' hth'
    by_cases hp : th'.owner = p
    · refine { hsound with
        running := ?_, api := fun hr => (hserving _).mpr (hsound.api hr),
        notServing := fun hr hstarted hp => hsound.notServing hr hstarted ((hserving _).mp hp),
        memory := fun hlock' => ?_, issuing := fun hr hl m' hm' => ?_ }
      · rw [hp, hproc, Option.isSome_map]
        exact hself.running
      · -- the memory of a process has one reader under the file lock
        rcases hlock with hlock | ⟨hr, hstarted⟩
        · rcases hlock' with hlock' | ⟨hr', hstarted'⟩
          · exact absurd (hs.exclusive hth' running hlock' hlock rfl) htid
          · exact absurd (hs.alone_of_not_serving hth' running hr' hstarted' hp) htid
        · exact absurd (hs.alone_of_not_serving running hth' hr hstarted hp.symm).symm htid
      · obtain ⟨hkey, -⟩ := hsound.issuing hr hl m' hm'
        obtain ⟨-, heq⟩ := hfile (Or.inr (hp ▸ hsound.api hr))
        exact ⟨hkey, m, hp ▸ hmemory, heq ▸ hkey⟩
    · refine hsound.congr (fun _ _ => rfl) rfl rfl ?_ (hserving _) ?_
      · rw [hother hp]
        exact hsound.running
      · rw [World.memoryOf, World.memoryOf, hother hp]
  · by_cases hp : p' = p
    · subst hp
      obtain ⟨-, rfl⟩ := hfile (Or.inr ((hserving p').mp hp'))
      exact World.memoryFit (w := w') hs.covered hmemory
    · have hfit := hs.memory p' ((hserving p').mp hp')
      have hsame : w'.memoryOf p' = s.world.memoryOf p' := by
        rw [World.memoryOf, World.memoryOf, hother hp]
      unfold World.MemoryFit World.Knows at hfit ⊢
      rw [hsame]
      exact hfit

theorem start (hs : Custody H s) (running : s.threads tid = some ⟨p, r, hist, prog⟩)
    (hlt : tid < s.next) (hr : r = .command .serve) (hstarted : (known hist).started = false)
    (hl : .instanceLock ∈ (known hist).held) {m : KeyRing} (hread : (known hist).read = some m)
    (hm : m ∈ (known hist).memories)
    (hk : known hist' = { (known hist).forget (known hist).held with started := true }) :
    Custody H ⟨s.world.setProc p fun q => { q with serving := true },
      Function.update s.threads tid (some ⟨p, r, hist', prog'⟩), s.next⟩ := by
  have hself := hs.sound tid _ running
  have hcommand : ¬ r.IsApi := hself.command hl
  have hproc : (s.world.setProc p fun q => { q with serving := true }).procs p =
      (s.world.procs p).map fun q => { q with serving := true } := Function.update_self _ _ _
  have hother : ∀ {p'}, p' ≠ p → (s.world.setProc p fun q => { q with serving := true }).procs p' =
      s.world.procs p' := fun hne => Function.update_of_ne hne _ _
  have hmemory : ∀ p', (s.world.setProc p fun q => { q with serving := true }).memoryOf p' =
      s.world.memoryOf p' := by
    intro p'
    by_cases hp : p' = p
    · subst hp
      rw [World.memoryOf, World.memoryOf, hproc]
      cases s.world.procs p' <;> rfl
    · rw [World.memoryOf, World.memoryOf, hother hp]
  have hserving : ∀ {p'}, p' ≠ p →
      ((s.world.setProc p fun q => { q with serving := true }).Serving p' ↔
        s.world.Serving p') := by
    intro p' hp
    rw [World.Serving, World.Serving, hother hp]
  -- only this process changes, and no thread of it is a call
  refine hs.update running hs.covered hs.keyed ?_ (fun tid' th' htid hth' => ?_)
    (fun p' hp' => ?_) (fun p' hp' => ?_)
  · rw [hk]
    exact {
      running := by
        rw [hproc, Option.isSome_map]
        exact hself.running
      api := fun h => absurd h hcommand
      notServing := fun _ h => by cases h
      nodup := hself.nodup
      held := hself.held
      command := hself.command
      read := fun _ d hd => by cases hd
      memory := fun _ m hm => by cases hm
      issuing := fun _ _ m hm => by cases hm
      credential := fun _ kid hkid => by cases hkid
      proof := fun _ kid hkid => by cases hkid
      drawn := hself.drawn
      backups := hself.backups }
  · have hsound := hs.sound tid' th' hth'
    have hp : th'.owner ≠ p := fun hp =>
      htid (hs.alone_of_not_serving running hth' hcommand hstarted hp.symm).symm
    refine hsound.congr (fun _ _ => rfl) rfl rfl ?_ (hserving hp) (hmemory _)
    rw [hother hp]
    exact hsound.running
  · by_cases hp : p' = p
    · subst hp
      exact ⟨tid, hlt, hself.held _ hl, fun th hth => by
        rw [running] at hth
        rw [← Option.some.inj hth, hr]⟩
    · exact hs.serving p' ((hserving hp).mp hp')
  · by_cases hp : p' = p
    · subst hp
      refine World.memoryFit hs.covered ?_
      rw [hmemory, hself.memory (Or.inr ⟨hcommand, hstarted⟩) m hm]
      exact congrArg some (hself.read (Or.inr ⟨hl, hstarted⟩) m hread).symm
    · have hfit := hs.memory p' ((hserving hp).mp hp')
      unfold World.MemoryFit World.Knows at hfit ⊢
      rw [hmemory]
      exact hfit

theorem schedule (hs : Custody H s) (running : s.threads tid = some ⟨p, r, hist, prog⟩) {t : ℤ}
    (hk : known hist' = known hist) :
    Custody H ⟨s.world.setProc p fun q => { q with nextCleanupAt := some t },
      Function.update s.threads tid (some ⟨p, r, hist', prog'⟩), s.next⟩ := by
  set w' := s.world.setProc p fun q => { q with nextCleanupAt := some t } with hw'
  have hprocs : ∀ p', (w'.procs p').isSome = (s.world.procs p').isSome ∧
      w'.memoryOf p' = s.world.memoryOf p' ∧ (w'.Serving p' ↔ s.world.Serving p') := by
    intro p'
    simp only [World.memoryOf, World.Serving]
    by_cases hp : p' = p
    · subst hp
      have hproc : w'.procs p' = (s.world.procs p').map fun q =>
          { q with nextCleanupAt := some t } := Function.update_self _ _ _
      rw [hproc]
      cases s.world.procs p' <;> exact ⟨rfl, rfl, Iff.rfl⟩
    · have hproc : w'.procs p' = s.world.procs p' := Function.update_of_ne hp _ _
      rw [hproc]
      exact ⟨rfl, rfl, Iff.rfl⟩
  have hkept : ∀ {tid p r k}, Knowledge.Sound H s.world tid p r k →
      Knowledge.Sound H w' tid p r k := fun {tid p r k} h =>
    h.congr (fun _ _ => rfl) rfl rfl ((hprocs p).1.trans h.running) (hprocs p).2.2 (hprocs p).2.1
  refine hs.update running hs.covered hs.keyed ?_
    (fun tid' th' _ hth' => hkept (hs.sound tid' th' hth'))
    (fun p' hp' => hs.serving p' ((hprocs p').2.2.mp hp')) (fun p' hp' => ?_)
  · rw [hk]
    exact hkept (hs.sound tid _ running)
  · have hfit := hs.memory p' ((hprocs p').2.2.mp hp')
    unfold World.MemoryFit World.Knows at hfit ⊢
    rw [(hprocs p').2.1]
    exact hfit

/-! ### The ledger -/

/-- The key under which a credential is stored is on disk. -/
theorem stores_credential (hs : Custody H s) (running : s.threads tid = some ⟨p, r, hist, prog⟩)
    {cm : Commit} (hallowed : Allowed H r (known hist) (.store cm.call)) {kid check : Str}
    (hstores : cm.StoresCredential kid check) : (known hist).Agreed ∧
      ∃ key, s.world.keyring.keyFor kid = some key ∧ keyCheck H key.val = .ok check := by
  have hself := hs.sound tid _ running
  have hkey : ∀ {m m' : KeyRing}, (known hist).Agreed → m ∈ (known hist).memories →
      m' ∈ (known hist).memories → keyCheck H m'.currentKey.2.val = .ok check →
        ∃ key, s.world.keyring.keyFor m.currentKey.1 = some key ∧
          keyCheck H key.val = .ok check := by
    intro m m' hagreed hm hm' hcheck
    have hmemories := (hself.agreed hagreed).2
    obtain rfl := hmemories m hm
    obtain rfl := hmemories m' hm'
    exact ⟨_, s.world.keyring.keyFor_currentKey, hcheck⟩
  cases hstores with
  | created a x =>
    obtain ⟨hagreed, ⟨m, hm, hkid, -⟩, -, m', hm', hcheck⟩ := hallowed
    exact ⟨hagreed, hkid ▸ hkey hagreed hm hm' hcheck⟩
  | rotated a x reply =>
    obtain ⟨hagreed, ⟨m, hm, hkid, -⟩, m', hm', hcheck⟩ := hallowed
    exact ⟨hagreed, hkid ▸ hkey hagreed hm hm' hcheck⟩

/-- A new credential was digested with the current key on disk. -/
theorem inserts_minted (hs : Custody H s) (running : s.threads tid = some ⟨p, r, hist, prog⟩)
    {cm : Commit} (hallowed : Allowed H r (known hist) (.store cm.call)) {record : CredentialRecord}
    {now : ℤ} (hinserts : cm.Inserts record now) :
    record.Minted H s.world.keyring.currentKey (known hist).tokens := by
  have hself := hs.sound tid _ running
  have hcurrent : (known hist).Agreed → (∃ m ∈ (known hist).memories,
      record.Minted H m.currentKey (known hist).tokens) →
        record.Minted H s.world.keyring.currentKey (known hist).tokens := by
    rintro hagreed ⟨m, hm, hminted⟩
    exact (hself.agreed hagreed).2 m hm ▸ hminted
  cases hinserts with
  | issuance a x => exact hcurrent hallowed.1 hallowed.2.1
  | verification a x => exact hcurrent hallowed.1 hallowed.2.2.1
  | replacement a x reply => exact hcurrent hallowed.1 hallowed.2.1

theorem commit (hs : Custody H s) (running : s.threads tid = some ⟨p, r, hist, prog⟩)
    {cm : Commit} (hallowed : Allowed H r (known hist) (.store cm.call)) {ledger : Ledger}
    (hstep : LedgerStep s.world.ledger cm ledger)
    (hk : known hist' =
      { known hist with unusedCredential := none, unusedProof := none }) :
    Custody H ⟨{ s.world with ledger := ledger },
      Function.update s.threads tid (some ⟨p, r, hist', prog'⟩), s.next⟩ := by
  have hself := hs.sound tid _ running
  -- a proof is stored under a key that the file and the memory of the server have
  have hissued : ∀ record check x committed, cm = ⟨.issueProof record check, x, committed⟩ →
      r.IsApi ∧ .keyLock ∈ (known hist).held ∧ ∃ key bytes,
        s.world.Knows p record.hashKid key ∧ keyCheck H key.val = .ok check ∧
          proofDigest H key.val (Service.proofToken record.hashKid bytes) =
            .ok record.tokenDigest := by
    rintro record check x committed rfl
    obtain ⟨hr, hl, m, hm, bytes, hkid, hcheck, hdigest⟩ := hallowed
    rw [hkid]
    exact ⟨hr, hl, _, bytes, hself.issuing hr hl m hm, hcheck, hdigest⟩
  refine hs.update running (hs.covered.step hstep
    (fun kid check hstores => (hs.stores_credential running hallowed hstores).2)
    (fun record check x committed hcm => ?_)) (hs.keyed.step hstep (fun record now hinserts => ?_)
      (fun record check x committed hcm => ?_)) ?_
    (fun tid' th' htid hth' => ?_) hs.serving (fun p' hp' => ?_)
  · obtain ⟨-, -, key, -, hknows, hcheck, -⟩ := hissued record check x committed hcm
    exact ⟨key, hknows.1, hcheck⟩
  · obtain ⟨hkid, idBytes, bytes, -, -, hid, hdigest⟩ :=
      hs.inserts_minted running hallowed hinserts
    refine ⟨s.world.keyring.currentKey.2, idBytes, bytes, ?_, hid, hdigest⟩
    exact (congrArg _ hkid).trans s.world.keyring.keyFor_currentKey
  · obtain ⟨-, -, key, bytes, hknows, -, hkeyed⟩ := hissued record check x committed hcm
    exact ⟨key, bytes, hknows.1, hkeyed⟩
  · rw [hk]
    exact { hself with
      credential := fun _ kid hkid => by cases hkid
      proof := fun _ kid hkid => by cases hkid }
  · have hsound := hs.sound tid' th' hth'
    refine { hsound with
      credential := fun hl kid hkid c hc heq => ?_
      proof := fun hexcludes kid hkid row hrow heq => ?_ }
    · -- credentials are stored under the file lock
      rcases hstep.credential_kid hc with ⟨old, hold, hsame⟩ | ⟨check, hstores, -⟩
      · exact hsound.credential hl kid hkid old hold (hsame.trans heq)
      · have hagreed := (hs.stores_credential running hallowed hstores).1
        exact htid (hs.exclusive hth' running hl hagreed.1 rfl)
    · -- proofs are stored under the key lock of the server
      rcases hstep.proof_kid hrow with ⟨old, hold, hsame, -⟩ |
          ⟨record, check, x, committed, hcm, -⟩
      · exact hsound.proof hexcludes kid hkid old hold (hsame.trans heq)
      · obtain ⟨hr, hl, -⟩ := hissued record check x committed hcm
        exact htid (hs.excludes hth' running hexcludes hr hl)
  · obtain ⟨m, hm, hcurrent, hrows⟩ := hs.memory p' hp'
    refine ⟨m, hm, hcurrent, fun row hrow => ?_⟩
    rcases hstep.proof_kid hrow with ⟨old, hold, hkid, -⟩ |
        ⟨record, check, x, committed, hcm, hkid, -⟩
    · obtain ⟨key, hknows⟩ := hrows old hold
      exact ⟨key, hkid ▸ hknows⟩
    · obtain ⟨hr, -, key, -, hknows, -⟩ := hissued record check x committed hcm
      obtain rfl := hs.serving_unique (hself.api hr) hp'
      exact ⟨key, hkid ▸ hknows⟩

/-! ### Commands -/

section Commands

variable {i : Choice}

/-- A memory that a thread reads is fit for what the thread may do with it. -/
theorem sound_memory (hs : Custody H s) (running : s.threads tid = some ⟨p, r, hist, prog⟩)
    {m : KeyRing} (hm : s.world.memoryOf p = some m) :
    { known hist with memories := m :: (known hist).memories }.Sound H s.world tid p r := by
  have hself := hs.sound tid _ running
  refine { hself with
    memory := fun hlock m' hm' => ?_, issuing := fun hr hl m' hm' => ?_ }
  · rcases List.mem_cons.mp hm' with rfl | hm'
    · exact hm
    · exact hself.memory hlock m' hm'
  · rcases List.mem_cons.mp hm' with rfl | hm'
    · obtain ⟨m₀, hm₀, hknows, -⟩ := hs.memory p (hself.api hr)
      obtain rfl := Option.some.inj (hm.symm.trans hm₀)
      exact hknows
    · exact hself.issuing hr hl m' hm'

/-- A copy of the ledger that is made where file and memory agree is covered by what was read
from memory. -/
theorem sound_backup (hs : Custody H s) (running : s.threads tid = some ⟨p, r, hist, prog⟩)
    (hagreed : (known hist).Agreed) :
    { known hist with backups := (known hist).memories.map (fun m =>
      (Store.backup s.world.ledger, m)) ++ (known hist).backups }.Sound H s.world tid p r := by
  have hself := hs.sound tid _ running
  refine { hself with backups := fun x hx => ?_ }
  rcases List.mem_append.mp hx with hx | hx
  · obtain ⟨m, hm, rfl⟩ := List.mem_map.mp hx
    obtain rfl := (hself.agreed hagreed).2 m hm
    have hsame : Store.backup s.world.ledger = { s.world.ledger with
        maintenance := (Store.backup s.world.ledger).maintenance } :=
      Ledger.upsertMaintenance_eq _ _ _
    dsimp only
    rw [hsame]
    exact ⟨hs.covered.credentials, hs.covered.proofs⟩
  · exact hself.backups x hx

/-- A command keeps the custody of the keys, whatever it answers. -/
def Keeps (H : HashLib) (s : SystemState) (tid p : ℕ) (r : Request) (hist : Hist) (c : Op) : Prop :=
  ∀ (i : Choice) (a : c.Ans) (w' : World) (prog' : HostProg Outcome),
    c.exec p tid i s.world = some (a, w') →
      Custody H ⟨w', Function.update s.threads tid (some ⟨p, r, hist ++ [⟨c, a⟩], prog'⟩), s.next⟩

/-- A command that changes nothing, and whose answer is true. -/
theorem answered {c : Op} {a : c.Ans} (hs : Custody H s)
    (running : s.threads tid = some ⟨p, r, hist, prog⟩)
    (hself : ((known hist).next ⟨c, a⟩).Sound H s.world tid p r) :
    Custody H ⟨s.world, Function.update s.threads tid (some ⟨p, r, hist ++ [⟨c, a⟩], prog'⟩),
      s.next⟩ := by
  refine hs.learn running ?_
  rw [known_snoc]
  exact hself

/-- A command that changes nothing and teaches nothing. -/
theorem silent {c : Op} {a : c.Ans} (hs : Custody H s)
    (running : s.threads tid = some ⟨p, r, hist, prog⟩) (hw : w' = s.world)
    (hk : (known hist).next ⟨c, a⟩ = known hist) :
    Custody H ⟨w', Function.update s.threads tid (some ⟨p, r, hist ++ [⟨c, a⟩], prog'⟩),
      s.next⟩ := by
  subst hw
  refine hs.answered running ?_
  rw [hk]
  exact hs.sound tid _ running

/-- Drawing a key id: it is one that was not in use. -/
theorem keeps_newKid (hs : Custody H s) (running : s.threads tid = some ⟨p, r, hist, prog⟩)
    (existing : Finset Str) : Keeps H s tid p r hist (.newKid existing) := by
  intro i a w' prog' hexec
  simp only [Op.exec] at hexec
  split_ifs at hexec with hfresh
  rcases orFault_ok hexec with ⟨rfl, hw⟩ | ⟨rfl, rfl⟩
  · exact hs.silent running hw rfl
  · refine hs.answered running { hs.sound tid _ running with drawn := fun e kid hdrawn => ?_ }
    obtain ⟨rfl, rfl⟩ := Prod.mk.inj (Option.some.inj hdrawn)
    exact hfresh

theorem keeps_acquire {l : LockName} (hs : Custody H s)
    (running : s.threads tid = some ⟨p, r, hist, prog⟩)
    (hallowed : Allowed H r (known hist) (.acquire l)) : Keeps H s tid p r hist (.acquire l) := by
  intro i a w' prog' hexec
  simp only [Op.exec] at hexec
  split_ifs at hexec with hl
  rcases orFault_ok hexec with ⟨rfl, hw⟩ | ⟨rfl, rfl⟩
  · exact hs.silent running hw rfl
  · exact hs.lock running (by simpa using hl) (fun h => absurd h hallowed) (known_snoc _ _)

theorem keeps_tryAcquire {l : LockName} (hs : Custody H s)
    (running : s.threads tid = some ⟨p, r, hist, prog⟩)
    (hallowed : Allowed H r (known hist) (.tryAcquire l)) :
    Keeps H s tid p r hist (.tryAcquire l) := by
  intro i a w' prog' hexec
  simp only [Op.exec] at hexec
  split_ifs at hexec with hl
  · rcases orFault_ok hexec with ⟨rfl, hw⟩ | ⟨rfl, hw⟩ <;> exact hs.silent running hw rfl
  · rcases orFault_ok hexec with ⟨rfl, hw⟩ | ⟨rfl, rfl⟩
    · exact hs.silent running hw rfl
    · exact hs.lock running (by simpa using hl) hallowed (known_snoc _ _)

/-- Replacing the keyring file: a late fault is raised although the file has been replaced. -/
theorem keeps_replaceKeyring {new : KeyRing} (hs : Custody H s)
    (running : s.threads tid = some ⟨p, r, hist, prog⟩)
    (hallowed : Allowed H r (known hist) (.replaceKeyring new)) :
    Keeps H s tid p r hist (.replaceKeyring new) := by
  intro i a w' prog' hexec
  have hself := hs.sound tid _ running
  simp only [Op.exec] at hexec
  split_ifs at hexec
  · simp only [Option.some.injEq, Prod.mk.injEq] at hexec
    obtain ⟨rfl, rfl⟩ := hexec
    exact hs.replace running hallowed.1 hallowed.2 (known_snoc _ _)
  · rcases orFault_ok hexec with ⟨rfl, rfl⟩ | ⟨rfl, rfl⟩
    · exact hs.answered running (.forget hself.running hself.api hself.notServing hself.nodup
        hself.held hself.command hself.drawn hself.backups)
    · exact hs.replace running hallowed.1 hallowed.2 (known_snoc _ _)

theorem keeps_startServing (hs : Custody H s)
    (running : s.threads tid = some ⟨p, r, hist, prog⟩) (hlt : tid < s.next)
    (hallowed : Allowed H r (known hist) .startServing) :
    Keeps H s tid p r hist .startServing := by
  intro i a w' prog' hexec
  simp only [Op.exec] at hexec
  split_ifs at hexec
  simp only [Option.some.injEq, Prod.mk.injEq] at hexec
  obtain ⟨rfl, rfl⟩ := hexec
  obtain ⟨hr, hstarted, hl, m, hread, hm⟩ := hallowed
  exact hs.start running hlt hr hstarted hl hread hm (known_snoc _ _)

/-- Counting the credentials of a key: that there are none is remembered until the next commit. -/
theorem keeps_credentialUses (hs : Custody H s)
    (running : s.threads tid = some ⟨p, r, hist, prog⟩) (kid : Str) :
    Keeps H s tid p r hist (.credentialUses kid) := by
  intro i a w' prog' hexec
  simp only [Op.exec] at hexec
  obtain ⟨rfl, ⟨e, rfl⟩ | ⟨rfl, -⟩⟩ := queried_eq_some hexec
  · exact hs.silent running rfl rfl
  · cases hunused : s.world.ledger.credentials.rows.any fun c => c.hashKid = kid with
    | true => exact hs.silent running rfl rfl
    | false =>
      refine hs.answered running
        { hs.sound tid _ running with credential := fun _ kid' hkid c hc => ?_ }
      obtain rfl := Option.some.inj hkid
      simpa using List.any_eq_false.mp hunused c hc

/-- Counting the proofs of a key, likewise. -/
theorem keeps_proofUses (hs : Custody H s)
    (running : s.threads tid = some ⟨p, r, hist, prog⟩) (kid : Str) :
    Keeps H s tid p r hist (.proofUses kid) := by
  intro i a w' prog' hexec
  simp only [Op.exec] at hexec
  obtain ⟨rfl, ⟨e, rfl⟩ | ⟨rfl, -⟩⟩ := queried_eq_some hexec
  · exact hs.silent running rfl rfl
  · cases hunused : s.world.ledger.proofs.rows.any fun r => r.hashKid = kid with
    | true => exact hs.silent running rfl rfl
    | false =>
      refine hs.answered running
        { hs.sound tid _ running with proof := fun _ kid' hkid row hrow => ?_ }
      obtain rfl := Option.some.inj hkid
      simpa using List.any_eq_false.mp hunused row hrow

/-- Calling the store: a commit may use any key, so what was known of the unused ones is
forgotten. -/
theorem keeps_store {call : StoreCall} (hs : Custody H s)
    (running : s.threads tid = some ⟨p, r, hist, prog⟩)
    (hallowed : Allowed H r (known hist) (.store call)) : Keeps H s tid p r hist (.store call) := by
  intro i a w' prog' hexec
  have hk := known_snoc hist ⟨.store call, a⟩
  rcases Op.exec_store hexec with ⟨reply, rfl, hrun, hw⟩ | ⟨e, rfl, rfl⟩
  · rw [hw]
    have hstep : LedgerStep s.world.ledger ⟨call, i.chance, reply⟩ w'.ledger := hrun
    exact hs.commit running hallowed hstep hk
  · exact hs.answered running { hs.sound tid _ running with
      credential := fun _ kid hkid => by cases hkid
      proof := fun _ kid hkid => by cases hkid }

/-- **Every allowed command keeps the custody of the keys.** -/
theorem act {c : Op} {a : c.Ans} {next : c.Ans → HostProg Outcome} (hs : Custody H s)
    (running : s.threads tid = some ⟨p, r, hist, .act c next⟩) (hlt : tid < s.next)
    (hallowed : Allowed H r (known hist) c) (hexec : c.exec p tid i s.world = some (a, w')) :
    Custody H ⟨w', Function.update s.threads tid (some ⟨p, r, hist ++ [⟨c, a⟩], next a⟩),
      s.next⟩ := by
  have hself := hs.sound tid _ running
  cases c with
  | clock | newRootKey | deliver =>
    rcases orFault_ok hexec with ⟨-, hw⟩ | ⟨-, hw⟩ <;> exact hs.silent running hw rfl
  | tokenBytes n =>
    rcases orFault_ok hexec with ⟨rfl, hw⟩ | ⟨rfl, rfl⟩
    · exact hs.silent running hw rfl
    · exact hs.answered running { hself with }
  | credential | client | restoreRequired | joined | idempotent | referencedKids | keyChecks =>
    simp only [Op.exec] at hexec
    exact hs.silent running (queried_eq_some hexec).1 rfl
  | newKid existing => exact hs.keeps_newKid running existing i a w' _ hexec
  | acquire l => exact hs.keeps_acquire running hallowed i a w' _ hexec
  | tryAcquire l => exact hs.keeps_tryAcquire running hallowed i a w' _ hexec
  | release l =>
    simp only [Op.exec, Option.some.injEq, Prod.mk.injEq] at hexec
    obtain ⟨rfl, rfl⟩ := hexec
    exact hs.release running hallowed.1 hallowed.2 (known_snoc _ _)
  | readKeyring =>
    rcases orFault_ok hexec with ⟨rfl, hw⟩ | ⟨rfl, rfl⟩
    · exact hs.silent running hw rfl
    · exact hs.answered running { hself with read := fun _ d hd => Option.some.inj hd }
  | replaceKeyring new => exact hs.keeps_replaceKeyring running hallowed i a w' _ hexec
  | memory =>
    simp only [Op.exec, Option.map_eq_some_iff, Prod.mk.injEq] at hexec
    obtain ⟨m, hm, rfl, rfl⟩ := hexec
    exact hs.answered running (hs.sound_memory running hm)
  | setMemory m =>
    simp only [Op.exec, Option.some.injEq, Prod.mk.injEq] at hexec
    obtain ⟨rfl, rfl⟩ := hexec
    exact hs.remember running hallowed.1 hallowed.2 (known_snoc _ _)
  | nextCleanupAt =>
    simp only [Op.exec, Option.map_eq_some_iff, Prod.mk.injEq] at hexec
    obtain ⟨_, -, -, hw⟩ := hexec
    exact hs.silent running hw.symm rfl
  | setNextCleanupAt t =>
    simp only [Op.exec, Option.some.injEq, Prod.mk.injEq] at hexec
    obtain ⟨rfl, rfl⟩ := hexec
    exact hs.schedule running (known_snoc _ _)
  | startServing => exact hs.keeps_startServing running hlt hallowed i a w' _ hexec
  | credentialUses kid => exact hs.keeps_credentialUses running kid i a w' _ hexec
  | proofUses kid => exact hs.keeps_proofUses running kid i a w' _ hexec
  | store call => exact hs.keeps_store running hallowed i a w' _ hexec
  | backup =>
    rcases orFault_ok hexec with ⟨rfl, hw⟩ | ⟨rfl, rfl⟩
    · exact hs.silent running hw rfl
    · exact hs.answered running (hs.sound_backup running hallowed)

end Commands

/-! ### Calls and stops -/

theorem call (hs : Custody H s) (haccept : r.accept p s.world = some w') :
    Custody H ⟨w', Function.update s.threads s.next (some ⟨p, r, [], r.program H⟩),
      s.next + 1⟩ := by
  -- a command starts a process that no thread runs in
  have hworld : (r.IsApi ∧ w' = s.world ∧ s.world.Serving p) ∨
      ¬ r.IsApi ∧ s.world.procs p = none ∧
        w' = { s.world with procs := Function.update s.world.procs p (some .fresh) } := by
    cases r with
    | api c =>
      simp only [Request.accept] at haccept
      split_ifs at haccept with hserving
      exact Or.inl ⟨trivial, (Option.some.inj haccept).symm, hserving⟩
    | command c =>
      simp only [Request.accept] at haccept
      split_ifs at haccept with hnone
      exact Or.inr ⟨id, by simpa using hnone, (Option.some.inj haccept).symm⟩
  have hidle : ∀ tid th, s.threads tid = some th → ¬ r.IsApi → th.owner ≠ p := by
    rintro tid th hth hr rfl
    rcases hworld with ⟨hapi, -⟩ | ⟨-, hnone, -⟩
    · exact hr hapi
    · have := (hs.sound tid th hth).running
      rw [hnone] at this
      cases this
  have hnew : (known []).Sound H w' s.next p r := by
    refine @Knowledge.Sound.forget H w' s.next p r .nothing [] ?_ (fun hr => ?_) (fun hr _ => ?_)
      List.nodup_nil (fun l hl => by cases hl) (fun hl => by cases hl)
      (fun _ _ h => by cases h) (fun x hx => by cases hx)
    · rcases hworld with ⟨-, rfl, hserving⟩ | ⟨-, -, rfl⟩
      · rw [World.Serving] at hserving
        cases hp : s.world.procs p with
        | none => simp [hp] at hserving
        | some q => rfl
      · simp
    · rcases hworld with ⟨-, rfl, hserving⟩ | ⟨hcommand, -⟩
      · exact hserving
      · exact absurd hr hcommand
    · rcases hworld with ⟨hapi, -⟩ | ⟨-, -, rfl⟩
      · exact absurd hapi hr
      · simp [World.Serving, Proc.fresh]
  -- for every other process nothing has changed
  have hprocs : ∀ p', s.world.procs p' ≠ none → w'.procs p' = s.world.procs p' := by
    intro p' hp'
    rcases hworld with ⟨-, rfl, -⟩ | ⟨-, hnone, rfl⟩
    · rfl
    · refine Function.update_of_ne ?_ _ _
      rintro rfl
      exact hp' hnone
  have hsame : w'.ledger = s.world.ledger ∧ w'.keyring = s.world.keyring ∧
      w'.locks = s.world.locks := by
    rcases hworld with ⟨-, rfl, -⟩ | ⟨-, -, rfl⟩ <;> exact ⟨rfl, rfl, rfl⟩
  have hserving : ∀ p', w'.Serving p' → s.world.Serving p' ∧ w'.procs p' = s.world.procs p' := by
    intro p' hp'
    rcases hworld with ⟨-, rfl, -⟩ | ⟨-, -, rfl⟩
    · exact ⟨hp', rfl⟩
    · by_cases hp : p' = p
      · subst hp
        simp [World.Serving, Proc.fresh] at hp'
      · simp only [World.Serving, Function.update_of_ne hp] at hp' ⊢
        exact ⟨hp', trivial⟩
  refine ⟨?_, ?_, fun tid th hth => ?_, fun tid th tid' th' hth hth' hr hr' howner => ?_,
    fun p' hp' => ?_, fun p' hp' => ?_⟩
  · rw [hsame.1, hsame.2.1]
    exact hs.covered
  · rw [hsame.1, hsame.2.1]
    exact hs.keyed
  · rcases update_eq_some hth with ⟨rfl, rfl⟩ | ⟨-, hth⟩
    · exact hnew
    · have hsound := hs.sound tid th hth
      have hproc := hprocs th.owner (Option.ne_none_iff_isSome.mpr hsound.running)
      refine hsound.congr (fun l _ => by rw [hsame.2.2]) hsame.2.1 hsame.1 ?_ ?_ ?_
      · rw [hproc]
        exact hsound.running
      · rw [World.Serving, World.Serving, hproc]
      · rw [World.memoryOf, World.memoryOf, hproc]
  · rcases update_eq_some hth with ⟨rfl, rfl⟩ | ⟨-, hth⟩ <;>
      rcases update_eq_some hth' with ⟨rfl, rfl⟩ | ⟨-, hth'⟩
    · rfl
    · exact absurd howner.symm (hidle _ _ hth' hr)
    · exact absurd howner (hidle _ _ hth hr')
    · exact hs.alone _ _ _ _ hth hth' hr hr' howner
  · obtain ⟨tid, hlt, hlock, hserve⟩ := hs.serving p' (hserving p' hp').1
    refine ⟨tid, Nat.lt_succ_of_lt hlt, hsame.2.2 ▸ hlock, fun th hth => ?_⟩
    rcases update_eq_some hth with ⟨rfl, -⟩ | ⟨-, hth⟩
    · exact absurd hlt (lt_irrefl _)
    · exact hserve th hth
  · have hfit := hs.memory p' (hserving p' hp').1
    unfold World.MemoryFit World.Knows World.memoryOf at hfit ⊢
    rw [(hserving p' hp').2, hsame.1, hsame.2.1]
    exact hfit

theorem ret (hs : Custody H s) :
    Custody H ⟨s.world, Function.update s.threads tid none, s.next⟩ := by
  have hback : ∀ {tid' th}, Function.update s.threads tid none tid' = some th →
      s.threads tid' = some th := eq_some_of_update_none
  refine ⟨hs.covered, hs.keyed, fun tid' th hth => hs.sound tid' th (hback hth),
    fun _ _ _ _ hth hth' => hs.alone _ _ _ _ (hback hth) (hback hth'), fun p' hp' => ?_,
    hs.memory⟩
  obtain ⟨tid₀, hlt, hlock, hserve⟩ := hs.serving p' hp'
  exact ⟨tid₀, hlt, hlock, fun th hth => hserve th (hback hth)⟩

theorem stop (hs : Custody H s) :
    Custody H ⟨s.world.stop p, fun tid => (s.threads tid).filter fun th => th.owner ≠ p,
      s.next⟩ := by
  have hback : ∀ {tid th}, ((s.threads tid).filter fun th => th.owner ≠ p) = some th →
      s.threads tid = some th ∧ th.owner ≠ p := by
    intro tid th hth
    obtain ⟨hth, howner⟩ := Option.filter_eq_some_iff.mp hth
    exact ⟨hth, by simpa using howner⟩
  have hproc : ∀ {p'}, p' ≠ p → (s.world.stop p).procs p' = s.world.procs p' := fun hne =>
    Function.update_of_ne hne _ _
  -- the other processes keep their locks
  have hlock : ∀ {L p' tid}, s.world.locks L = some (p', tid) → p' ≠ p →
      (s.world.stop p).locks L = some (p', tid) := by
    intro L p' tid hL hne
    simp only [World.stop, hL]
    exact Option.filter_eq_some_iff.mpr ⟨rfl, by simpa using hne⟩
  have hserving : ∀ p', (s.world.stop p).Serving p' → p' ≠ p ∧ s.world.Serving p' := by
    intro p' hp'
    have hne : p' ≠ p := by
      rintro rfl
      simp [World.Serving, World.stop] at hp'
    exact ⟨hne, by rwa [World.Serving, hproc hne] at hp'⟩
  refine ⟨hs.covered, hs.keyed, fun tid th hth => ?_,
    fun _ _ _ _ hth hth' => hs.alone _ _ _ _ (hback hth).1 (hback hth').1, fun p' hp' => ?_,
    fun p' hp' => ?_⟩
  · obtain ⟨hth, hne⟩ := hback hth
    have hsound := hs.sound tid th hth
    refine hsound.congr (fun l hl => ?_) rfl rfl ?_ ?_ ?_
    · exact (hlock (hsound.held l hl) hne).trans (hsound.held l hl).symm
    · exact (congrArg Option.isSome (hproc hne)).trans hsound.running
    · simp only [World.Serving, hproc hne]
    · simp only [World.memoryOf, hproc hne]
  · obtain ⟨hne, hp'⟩ := hserving p' hp'
    obtain ⟨tid, hlt, hL, hserve⟩ := hs.serving p' hp'
    exact ⟨tid, hlt, hlock hL hne, fun th hth => hserve th (hback hth).1⟩
  · obtain ⟨hne, hp'⟩ := hserving p' hp'
    have hfit := hs.memory p' hp'
    unfold World.MemoryFit World.Knows World.memoryOf at hfit ⊢
    rw [hproc hne]
    exact hfit

/-- An instance in which nothing runs. -/
theorem idle {w : World} (hcovered : w.ledger.Covered H w.keyring)
    (hkeyed : w.ledger.Keyed H w.keyring) (hprocs : ∀ p, w.procs p = none) :
    Custody H (.start w) where
  covered := hcovered
  keyed := hkeyed
  sound tid th hth := by cases hth
  alone tid th _ _ hth := by cases hth
  serving p hp := by
    have hnone : World.Serving w p := hp
    simp [World.Serving, hprocs p] at hnone
  memory p hp := by
    have hnone : World.Serving w p := hp
    simp [World.Serving, hprocs p] at hnone

end Custody

/-- **Custody holds in every state of a run** that starts with it. -/
theorem SystemRunFrom.custody {τ : List SystemTrans} (h : SystemRunFrom H w τ s)
    (h₀ : Custody H (.start w)) : Custody H s :=
  Machine.invariant (M := system H) (Φ := Rules H) (Ψ := fun _ => ReturnsBackup)
    program_allowed (fun hs haccept => hs.call haccept)
    (fun hs running hlt hallowed hexec => hs.act running hlt hallowed hexec)
    (fun hs => hs.ret) (fun hs => hs.stop) h h₀

/-- Custody holds in every state of a new instance. -/
theorem SystemRun.custody {τ : List SystemTrans} (h : SystemRun H τ s) : Custody H s := by
  obtain ⟨kidBytes, key, h⟩ := h
  exact SystemRunFrom.custody h
    (.idle (Ledger.covered_empty _) (Ledger.keyed_empty _) fun _ => rfl)

end Onceproof

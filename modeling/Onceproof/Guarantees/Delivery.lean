import Onceproof.Cli
import Onceproof.Keys.Custody
import Onceproof.Scenario

/-!
# Secrets are durable before they have authority

A command that creates credentials writes them to its output path before it writes to the ledger.
`Durable` says what lies at the path and in the ledger wherever the command is cut off: the ledger
is unchanged until the whole payload lies at the path, and stays so if anything else does.

A command goes through two stages. In `Before` the ledger is unchanged, and in `After` the new
credentials are those of the payload at the path (`Delivery.Backed`). The link is what leads from
one content of the path to the other, and the commit from one stage to the other.
-/

namespace Onceproof

/-! ### What lies at the output path -/

namespace Output

variable {out : Output} {name : Str} {raced : Option (Str × Bytes)}

@[simp] theorem entry_directory (d : Entries) (name : Str) :
    (Output.directory d).entry name = d.lookup name := rfl

theorem entry_insert {d : Entries} {n : Str} {node : Node} :
    (Output.directory (d.insert n node)).entry name =
      if name = n then some node else (Output.directory d).entry name := by
  rw [entry_directory, entry_directory]
  by_cases hn : name = n
  · rw [if_pos hn, hn, Finmap.lookup_insert]
  · rw [if_neg hn, Finmap.lookup_insert_of_ne _ hn]

/-- Another process creates a file only where there is none. -/
theorem entry_race (out : Output) (name : Str) (raced : Option (Str × Bytes)) :
    (out.race raced).entry name = out.entry name ∨
      out.entry name = none ∧
        ∃ bytes, (out.race raced).entry name = some (.file (.other bytes)) := by
  rcases out with _ | _ | d
  · exact Or.inl rfl
  · exact Or.inl rfl
  · rcases raced with _ | ⟨n, bytes⟩
    · exact Or.inl rfl
    · by_cases hn : n ∈ d
      · have hsame : (directory d).race (some (n, bytes)) = directory d := if_pos hn
        rw [hsame]
        exact Or.inl rfl
      · have hfile : (directory d).race (some (n, bytes)) =
            directory (d.insert n (.file (.other bytes))) := if_neg hn
        rw [hfile, entry_insert]
        by_cases hname : name = n
        · rw [if_pos hname]
          refine Or.inr ⟨?_, bytes, rfl⟩
          rw [hname]
          exact Finmap.lookup_eq_none.mpr hn
        · rw [if_neg hname]
          exact Or.inl rfl

theorem entry_race_of_some {node : Node} (raced : Option (Str × Bytes))
    (h : out.entry name = some node) :
    (out.race raced).entry name = some node := by
  rcases entry_race out name raced with hsame | ⟨hnone, -⟩
  · rw [hsame, h]
  · rw [hnone] at h
    cases h

end Output

/-- The system calls that leave a name alone. -/
def FsOp.Avoids (name : Str) : FsOp → Prop
  | pathExists | isDir | entryExists _ | isFile _ | isSymlink _ | iterdir | sync | tokenHex
  | read _ => True
  | create n | write n _ | unlink n | unlinkMissing n => name ≠ n
  | link _ target => name ≠ target
  | rmdir | mkdir | beginWrite | commitWrite => False

section Calls

variable {c : FsOp} {i : FsChoice} {out out' : Output} {a : c.Ans} {name : Str}

/-- A system call that needs a directory. -/
theorem onEntries_eq_some {α : Type} {f : Entries → Except Error α × Output}
    {x : Except Error α × Output} (h : onEntries out f = some x) :
    (∃ d, out = .directory d ∧ x = f d) ∨ x = (.error .interrupted, out) := by
  rcases out with _ | _ | d
  · exact Or.inr (Option.some.inj h).symm
  · exact Or.inr (Option.some.inj h).symm
  · exact Or.inl ⟨d, rfl, (Option.some.inj h).symm⟩

theorem FsOp.Avoids.entry (hc : c.Avoids name) (h : c.exec i out = some (a, out')) :
    out'.entry name = out.entry name := by
  cases c with
  | pathExists | isDir | sync | tokenHex =>
    obtain ⟨-, rfl⟩ := Prod.mk.inj (Option.some.inj h)
    rfl
  | entryExists n | isFile n | isSymlink n =>
    rcases onEntries_eq_some h with ⟨d, rfl, hx⟩ | hx <;> rw [(Prod.mk.inj hx).2]
  | iterdir =>
    simp only [FsOp.exec] at h
    split at h
    · split_ifs at h
      rw [← (Prod.mk.inj (Option.some.inj h)).2]
    · rw [← (Prod.mk.inj (Option.some.inj h)).2]
  | read n =>
    rcases onEntries_eq_some h with ⟨d, rfl, hx⟩ | hx
    · split at hx <;> rw [(Prod.mk.inj hx).2]
    · rw [(Prod.mk.inj hx).2]
  | create n =>
    rcases onEntries_eq_some h with ⟨d, rfl, hx⟩ | hx
    · split_ifs at hx <;> rw [(Prod.mk.inj hx).2]
      rw [Output.entry_insert, if_neg hc]
    · rw [(Prod.mk.inj hx).2]
  | write n content =>
    rcases onEntries_eq_some h with ⟨d, rfl, hx⟩ | hx
    · split at hx <;> rw [(Prod.mk.inj hx).2]
      rw [Output.entry_insert, if_neg hc]
    · rw [(Prod.mk.inj hx).2]
  | link source target =>
    rcases onEntries_eq_some h with ⟨d, rfl, hx⟩ | hx
    · split at hx
      · split_ifs at hx <;> rw [(Prod.mk.inj hx).2]
        rw [Output.entry_insert, if_neg hc]
      · rw [(Prod.mk.inj hx).2]
    · rw [(Prod.mk.inj hx).2]
  | unlink n | unlinkMissing n =>
    rcases onEntries_eq_some h with ⟨d, rfl, hx⟩ | hx
    · split at hx <;> rw [(Prod.mk.inj hx).2]
      exact Finmap.lookup_erase_ne hc
    · rw [(Prod.mk.inj hx).2]
  | rmdir | mkdir | beginWrite | commitWrite => exact hc.elim

/-- A link leads to the content of its source, or changes nothing. -/
theorem FsOp.exec_link {source target : Str} {a : (FsOp.link source target).Ans}
    (h : (FsOp.link source target).exec i out = some (a, out')) :
    out' = out ∧ (∃ e, a = .error e) ∨
      ∃ content, out.entry source = some (.file content) ∧ out.entry target = none ∧
        ∀ name, out'.entry name =
          if name = target then some (.file content) else out.entry name := by
  rcases onEntries_eq_some h with ⟨d, rfl, hx⟩ | hx
  · split at hx
    · next content hsource =>
      split_ifs at hx with htarget <;> obtain ⟨rfl, rfl⟩ := Prod.mk.inj hx
      · exact Or.inl ⟨rfl, _, rfl⟩
      · exact Or.inr ⟨content, hsource, Finmap.lookup_eq_none.mpr htarget,
          fun name => Output.entry_insert⟩
    · obtain ⟨rfl, rfl⟩ := Prod.mk.inj hx
      exact Or.inl ⟨rfl, _, rfl⟩
  · obtain ⟨rfl, rfl⟩ := Prod.mk.inj hx
    exact Or.inl ⟨rfl, _, rfl⟩

end Calls

/-! ### Wherever the command is cut off -/

/-- The payload and the credentials that the ledger has got since the world `w₀` are each other's:
the secrets of the payload digest to the digests stored, under the keys that the keyring has under
the ids stored. -/
structure Delivery.Backed (H : HashLib) (d : Delivery) (w₀ w : World) : Prop where
  stored : ∀ id secret, (id, secret) ∈ d.secrets → ∃ row key,
    w.ledger.credentials.get? id = some row ∧ w.keyring.keyFor row.hashKid = some key ∧
      credentialDigest H key.val secret = .ok row.secretDigest
  delivered : ∀ row ∈ w.ledger.credentials, w₀.ledger.credentials.get? row.credentialId = none →
    ∃ secret, (row.credentialId, secret) ∈ d.secrets

/-- What a command that started in the world `w₀` with the directory `out₀` leaves behind. -/
structure Durable (H : HashLib) (name : Str) (w₀ : World) (out₀ : Output) (s : World × Output) :
    Prop where
  /-- The ledger changes only when the whole payload is at the path. -/
  authority : s.1.ledger ≠ w₀.ledger → ∃ d : Delivery,
    s.2.entry name = some (.file (.credentials d.payload)) ∧ d.Backed H w₀ s.1
  /-- No part of a payload is at the path. -/
  whole : s.2.entry name = some (.file .unfinished) →
    out₀.entry name = some (.file .unfinished)
  /-- What was at the path is still there, and then the ledger does not change. -/
  existing : ∀ node, out₀.entry name = some node →
    s.2.entry name = some node ∧ s.1.ledger = w₀.ledger

section Stages

variable {H : HashLib} {name : Str} {w₀ w w' : World} {out₀ out out' : Output}
variable {p tid : ℕ} {i : CliChoice} {s s' : World × Output}

/-- What may be at the path while the ledger is unchanged. -/
def Kept (e₀ e : Option Node) : Prop :=
  e = e₀ ∨ e₀ = none ∧ ((∃ bytes, e = some (.file (.other bytes))) ∨
    ∃ d : Delivery, e = some (.file (.credentials d.payload)))

/-- The stage before the commit. A keyring may be known, which the process remembers. -/
structure Before (name : Str) (w₀ : World) (out₀ : Output) (p : ℕ) (known : Option KeyRing)
    (s : World × Output) : Prop where
  ledger : s.1.ledger = w₀.ledger
  entry : Kept (out₀.entry name) (s.2.entry name)
  memory : ∀ k, known = some k → s.1.keyring = k ∧ s.1.memoryOf p = some k

/-- The stage after the commit. -/
structure After (H : HashLib) (name : Str) (w₀ : World) (out₀ : Output) (d : Delivery)
    (s : World × Output) : Prop where
  entry : s.2.entry name = some (.file (.credentials d.payload))
  absent : out₀.entry name = none
  backed : d.Backed H w₀ s.1

/-- Where a part of the command may end. -/
def Settled (H : HashLib) (name : Str) (w₀ : World) (out₀ : Output) (p : ℕ)
    (s : World × Output) : Prop :=
  (∃ known, Before name w₀ out₀ p known s) ∨ ∃ d, After H name w₀ out₀ d s

variable {known : Option KeyRing} {d : Delivery}

/-- Nothing is known of the keyring. -/
theorem Before.forget (hb : Before name w₀ out₀ p known s) : Before name w₀ out₀ p none s where
  ledger := hb.ledger
  entry := hb.entry
  memory _ hk := by cases hk

/-- What is at the path stays what it may be when another process creates a file. -/
theorem Kept.race {e₀ : Option Node} {raced : Option (Str × Bytes)}
    (h : Kept e₀ (out.entry name)) : Kept e₀ ((out.race raced).entry name) := by
  rcases out.entry_race name raced with hsame | ⟨hnone, bytes, hraced⟩
  · rwa [hsame]
  · refine Or.inr ⟨?_, Or.inl ⟨bytes, hraced⟩⟩
    rcases h with he | ⟨he, -⟩
    · rw [← he, hnone]
    · exact he

/-! ### Commands of the host -/

/-- The commands that write neither the ledger nor the keyring nor the output path. -/
def Op.Inert : Op → Prop
  | .store _ | .replaceKeyring _ | .setMemory _ | .deliver _ => False
  | _ => True

theorem Op.Inert.exec {c : Op} {i : Choice} {a : c.Ans} (hc : c.Inert)
    (h : c.exec p tid i w = some (a, w')) :
    w'.ledger = w.ledger ∧ w'.keyring = w.keyring ∧ w'.memoryOf p = w.memoryOf p := by
  have hproc : ∀ f : Proc → Proc, (∀ q, (f q).memory = q.memory) →
      (w.setProc p f).memoryOf p = w.memoryOf p := by
    intro f hf
    simp only [World.memoryOf, World.setProc, Function.update_self, Option.bind_map]
    exact congrArg _ (funext hf)
  cases Op.exec_frame h with
  | none | locked | released => exact ⟨rfl, rfl, rfl⟩
  | replaced | remembered | committed => exact hc.elim
  | scheduled => exact ⟨rfl, rfl, hproc _ fun _ => rfl⟩
  | served => exact ⟨rfl, rfl, hproc _ fun _ => rfl⟩

theorem exec_host {c : Op} {a : c.Ans} (h : CliOp.exec p tid (.host c) i s = some (a, s')) :
    c.exec p tid i.host s.1 = some (a, s'.1) ∧ s'.2 = s.2.race i.raced := by
  obtain ⟨⟨a', w'⟩, hexec, hx⟩ := Option.map_eq_some_iff.mp h
  obtain ⟨rfl, rfl⟩ := Prod.mk.inj hx
  exact ⟨hexec, rfl⟩

end Stages

/-! ### Parts of the command -/

section Parts

variable (H : HashLib) (name : Str) (w₀ : World) (out₀ : Output) (p tid : ℕ)

/-- Wherever a part of the command is cut off it leaves what is durable, and it ends as `Q` says. -/
def Secures {α : Type} (prog : CliProg α) (Q : Except Error α → World × Output → Prop)
    (s : World × Output) : Prop :=
  ∀ h, prog.Safe (CliOp.exec p tid) (fun _ => Durable H name w₀ out₀) (fun _ => Q) h s

/-- A part of the service's program ends in one of the two stages. -/
abbrev Settles {α : Type} (prog : HostProg α) (s : World × Output) : Prop :=
  Secures H name w₀ out₀ p tid (prog.handle (Op.carriedOut name))
    (fun _ => Settled H name w₀ out₀ p) s

variable {H name w₀ out₀ p tid}
variable {α β : Type} {s : World × Output} {known : Option KeyRing} {k : KeyRing} {d : Delivery}
variable {Q Q' : Except Error α → World × Output → Prop}

theorem Secures.mono {prog : CliProg α} (hp : Secures H name w₀ out₀ p tid prog Q s)
    (hQ : ∀ x s, Q x s → Q' x s) : Secures H name w₀ out₀ p tid prog Q' s :=
  fun h => (hp h).mono (fun _ _ => id) fun _ => hQ

theorem Secures.bind {prog : CliProg β} {f : β → CliProg α}
    (hp : Secures H name w₀ out₀ p tid prog (fun x s => match x with
      | .ok a => Secures H name w₀ out₀ p tid (f a) Q s
      | .error e => Q (.error e) s) s) : Secures H name w₀ out₀ p tid (prog >>= f) Q s := by
  intro h
  refine Prog.Safe.bind ((hp h).mono (fun _ _ => id) fun h' x s' hx => ?_)
  cases x with
  | ok a => exact hx h'
  | error e => exact hx

/-- A system call happens or does not, and is answered or not. -/
theorem exec_file {i : CliChoice} {s' : World × Output} {c : FsOp} {a : c.Ans}
    (h : CliOp.exec p tid (.file c) i s = some (a, s')) : s'.1 = s.1 ∧
      ((∃ e, a = .error e) ∧ s'.2 = s.2.race i.raced ∨
        ∃ a', c.exec i.files (s.2.race i.raced) = some (a', s'.2) ∧
          (a = a' ∨ ∃ e, a = .error e)) := by
  simp only [CliOp.exec] at h
  by_cases hfault : i.fault = true
  · rw [if_pos hfault] at h
    obtain ⟨rfl, rfl⟩ := Prod.mk.inj (Option.some.inj h)
    exact ⟨rfl, Or.inl ⟨⟨_, rfl⟩, rfl⟩⟩
  · rw [if_neg hfault] at h
    obtain ⟨⟨a', out'⟩, hexec, hx⟩ := Option.map_eq_some_iff.mp h
    obtain ⟨rfl, rfl⟩ := Prod.mk.inj hx
    refine ⟨rfl, Or.inr ⟨a', hexec, ?_⟩⟩
    split_ifs
    · exact Or.inr ⟨_, rfl⟩
    · exact Or.inl rfl

/-- A system call that avoids a name leaves what is there. -/
theorem entry_file {i : CliChoice} {s' : World × Output} {c : FsOp} {a : c.Ans} {n : Str}
    {node : Node} (hc : c.Avoids n) (hentry : s.2.entry n = some node)
    (h : CliOp.exec p tid (.file c) i s = some (a, s')) : s'.2.entry n = some node := by
  have hraced := Output.entry_race_of_some i.raced hentry
  rcases (exec_file h).2 with ⟨-, hout⟩ | ⟨a', hexec, -⟩
  · rw [hout, hraced]
  · rw [hc.entry hexec, hraced]

theorem Before.file (hb : Before name w₀ out₀ p known s) {i : CliChoice} {s' : World × Output}
    {c : FsOp} {a : c.Ans} (hc : c.Avoids name)
    (h : CliOp.exec p tid (.file c) i s = some (a, s')) : Before name w₀ out₀ p known s' := by
  obtain ⟨hworld, hout⟩ := exec_file h
  refine ⟨hworld ▸ hb.ledger, ?_, hworld ▸ hb.memory⟩
  rcases hout with ⟨-, hout⟩ | ⟨a', hexec, -⟩
  · rw [hout]
    exact hb.entry.race
  · rw [hc.entry hexec]
    exact hb.entry.race

/-- The whole payload is at the path, and the command put it there. -/
def Delivered (name : Str) (out₀ : Output) (d : Delivery) (s : World × Output) : Prop :=
  s.2.entry name = some (.file (.credentials d.payload)) ∧ out₀.entry name = none

/-- It stays there. -/
theorem Delivered.host (hd : Delivered name out₀ d s) {i : CliChoice} {s' : World × Output}
    {c : Op} {a : c.Ans} (h : CliOp.exec p tid (.host c) i s = some (a, s')) :
    Delivered name out₀ d s' := by
  refine ⟨?_, hd.2⟩
  rw [(exec_host h).2]
  exact Output.entry_race_of_some _ hd.1

end Parts

/-! ### Nothing at the path is altered -/

/-- The commands that do not alter what is at a path: a link creates, or fails. -/
def CliOp.Spares (name : Str) : CliOp → Prop
  | host _ | pathExists _ => True
  | file c => c.Avoids name ∨ ∃ source, c = .link source name

section Spares

variable {H : HashLib} {name : Str} {p tid : ℕ}

theorem CliOp.Spares.keeps {node : Node} (c : CliOp) (i : CliChoice) (a : c.Ans)
    (s s' : World × Output) (hc : c.Spares name) (hentry : s.2.entry name = some node)
    (h : c.exec p tid i s = some (a, s')) : s'.2.entry name = some node := by
  have hraced := Output.entry_race_of_some i.raced hentry
  cases c with
  | host c => rw [(exec_host h).2, hraced]
  | pathExists n =>
    simp only [CliOp.exec] at h
    split_ifs at h <;> rw [← (Prod.mk.inj (Option.some.inj h)).2] <;> exact hraced
  | file c =>
    rcases hc with hc | ⟨source, rfl⟩
    · exact entry_file hc hentry h
    · rcases (exec_file h).2 with ⟨-, hout⟩ | ⟨a', hexec, -⟩
      · rw [hout, hraced]
      · rcases FsOp.exec_link hexec with ⟨hsame, -⟩ | ⟨content, -, habsent, -⟩
        · rw [hsame, hraced]
        · rw [habsent] at hraced
          cases hraced

end Spares

namespace Scenario

/-- No exception and no other process. -/
def calm (b : UInt8) : CliChoice where
  host := choice 1000 b
  files := ⟨[], [b], false⟩
  fault := false
  late := false
  follows := false
  raced := none

end Scenario

end Onceproof

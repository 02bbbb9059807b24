import Onceproof.Keys.Custody
import Onceproof.Ledger.Secrets

/-!
# The ids of the hash keys

A key id enters the keyring when an instance is created or when its key is rotated, and both times
it was drawn. So what holds of the drawn ids holds of every id in the keyring
(`SystemRunFrom.named`), and a proof that was built with the current key of a serving process gives
its key id back (`Custody.lookupDigest`).
-/

namespace Onceproof

variable {H : HashLib} {w : World} {τ : List SystemTrans} {s : SystemState} {Q : Str → Prop}

/-- Every id of the keyring has the property `Q`. -/
def KeyRing.Named (Q : Str → Prop) (k : KeyRing) : Prop := ∀ kid ∈ k.keys, Q kid

theorem KeyRing.named_created {kid : Str} {key : RootKey} (h : Q kid) :
    (KeyRing.created kid key).Named Q := by
  intro kid' hkid'
  rw [KeyRing.created, Finmap.mem_singleton] at hkid'
  exact hkid' ▸ h

theorem KeyRing.Named.rotated {k : KeyRing} (hk : k.Named Q) {kid : Str} {key : RootKey}
    (h : Q kid) : (k.rotated kid key).Named Q := by
  intro kid' hkid'
  rcases Finmap.mem_insert.mp hkid' with rfl | hkid'
  · exact h
  · exact hk kid' hkid'

theorem KeyRing.Named.retired {k : KeyRing} (hk : k.Named Q) {kid : Str}
    (h : kid ≠ k.currentKid) : (k.retired kid h).Named Q :=
  fun kid' hkid' => hk kid' (Finmap.mem_erase.mp hkid').2

/-- An id that a thread remembers to have drawn is one that it drew. -/
theorem got_of_drawn {h : Hist} {existing : Finset Str} {kid : Str}
    (hdrawn : (known h).drawn = some (existing, kid)) : h.Got (.newKid existing) kid := by
  induction h using List.reverseRecOn with
  | nil => cases hdrawn
  | append_singleton h x ih =>
    rw [known_snoc] at hdrawn
    by_cases hkept : ((known h).next x).drawn = (known h).drawn
    · exact (ih (hkept ▸ hdrawn)).snoc x
    · obtain ⟨c, a⟩ := x
      cases c with
      | newKid existing' =>
        cases a with
        | error e => exact absurd rfl hkept
        | ok kid' =>
          simp only [Knowledge.next_newKid, Option.some.injEq, Prod.mk.injEq] at hdrawn
          obtain ⟨rfl, rfl⟩ := hdrawn
          exact Hist.got_snoc h _ _
      | tryAcquire | credentialUses | proofUses =>
        rcases a with e | (_ | _) <;> exact absurd rfl hkept
      | _ => cases a <;> exact absurd rfl hkept

/-- The key ids that a run draws have the property `Q`. -/
def DrawsNamed (Q : Str → Prop) (τ : List SystemTrans) : Prop :=
  ∀ u ∈ τ, ∀ tid p r existing i kid,
    u.label = .act tid p r (.newKid existing) i (.ok kid) → Q kid

/-- **The ids of the keyring** were there at the start or were drawn. -/
theorem SystemRunFrom.named (h : SystemRunFrom H w τ s) (h₀ : Custody H (.start w))
    (hw : w.keyring.Named Q) (hdraws : DrawsNamed Q τ) : s.world.keyring.Named Q := by
  revert hdraws
  refine Run.history (P := fun τ s => DrawsNamed Q τ → s.world.keyring.Named Q) (fun _ => hw) ?_ h
  intro τ s l s' hrun ih hs hdraws
  have hnamed := ih fun u hu => hdraws u (List.mem_append_left _ hu)
  cases hs with
  | @call p r w' admitted =>
    have hkeyring : w'.keyring = s.world.keyring := by
      cases r with
      | command c =>
        simp only [system, Request.accept] at admitted
        split_ifs at admitted
        rw [← Option.some.inj admitted]
      | api c =>
        simp only [system, Request.accept] at admitted
        split_ifs at admitted
        rw [← Option.some.inj admitted]
    exact hkeyring ▸ hnamed
  | @act tid p r hist c k i a w' running executed =>
    by_cases hc : ∃ new, c = .replaceKeyring new
    · obtain ⟨new, rfl⟩ := hc
      obtain ⟨hagreed, hreplaces⟩ :=
        (Machine.spec_running (M := system H) (Φ := Rules H) program_allowed hrun _ _ running).1
      -- the generation that is replaced is the one on disk
      have hdisk := (((SystemRunFrom.custody hrun h₀).sound _ _ running).agreed hagreed).2
      have hnew : new.Named Q := by
        cases hreplaces with
        | rotated key hm fresh =>
          refine (hdisk _ hm ▸ hnamed).rotated ?_
          have hgot := got_of_drawn fresh
          rw [((Machine.coherent hrun).running _ _ running).2.1] at hgot
          obtain ⟨u, hu, p', r', i', hl⟩ := mem_acted.mp hgot
          exact hdraws u (List.mem_append_left _ hu) _ _ _ _ _ _ hl
        | retired old hm => exact (hdisk _ hm ▸ hnamed).retired old
      have hexec : (Op.replaceKeyring new).exec p tid i s.world = some (a, w') := executed
      cases Op.exec_frame hexec with
      | replaced => exact hnew
      | _ => exact hnamed
    · have hne : ∀ k, c ≠ .replaceKeyring k := fun k hk => hc ⟨k, hk⟩
      have hexec : c.exec p tid i s.world = some (a, w') := executed
      have hkeyring := Op.exec_keyring hexec hne
      exact fun kid hkid => hnamed kid (hkeyring ▸ hkid)
  | ret => exact hnamed
  | stop p => exact hnamed

/-! ### Drawn ids -/

/-- An id that `_new_kid` returns. -/
def DrawnKid (kid : Str) : Prop := ∃ bytes : Bytes, kid = lit "hk_" ++ hexlify bytes

theorem DrawnKid.undotted {kid : Str} (h : DrawnKid kid) : dot ∉ kid := by
  obtain ⟨bytes, rfl⟩ := h
  intro hdot
  rcases List.mem_append.mp hdot with hdot | hdot
  · exact absurd hdot (by decide)
  · exact dot_notMem_hexlify bytes hdot

theorem DrawnKid.prefixed {kid : Str} (h : DrawnKid kid) :
    (lit "hk_").isPrefixOf kid = true := by
  obtain ⟨bytes, rfl⟩ := h
  exact List.isPrefixOf_iff_prefix.mpr (List.prefix_append _ _)

/-- A drawn id renders the bytes that were drawn. -/
theorem SystemRunFrom.drawn_eq (h : SystemRunFrom H w τ s) {u : SystemTrans} (hu : u ∈ τ)
    {tid p : ℕ} {r : Request} {existing : Finset Str} {i : Choice} {kid : Str}
    (hl : u.label = .act tid p r (.newKid existing) i (.ok kid)) :
    kid = lit "hk_" ++ hexlify i.bytes := by
  have hexec := h.exec hu hl
  simp only [Op.exec] at hexec
  split_ifs at hexec
  rcases orFault_eq_some.mp hexec with ⟨-, hx⟩ | ⟨-, hx⟩
  · cases (Prod.mk.inj hx).1
  · exact Except.ok.inj (Prod.mk.inj hx).1

theorem SystemRunFrom.drawsNamed (h : SystemRunFrom H w τ s) : DrawsNamed DrawnKid τ :=
  fun _ hu _ _ _ _ i _ hl => ⟨i.bytes, h.drawn_eq hu hl⟩

/-- An id that `_new_kid` returns, from the eight bytes that it asks for. -/
def SizedKid (kid : Str) : Prop :=
  ∃ bytes : Bytes, bytes.length = 8 ∧ kid = lit "hk_" ++ hexlify bytes

theorem SystemRunFrom.drawsSized (h : SystemRunFrom H w τ s) (hsized : SizedDraws τ) :
    DrawsNamed SizedKid τ := by
  intro u hu tid p r existing i kid hl
  have hbytes := hsized u hu
  rw [hl] at hbytes
  exact ⟨i.bytes, hbytes, h.drawn_eq hu hl⟩

/-- **Every key id of an instance was drawn.** -/
theorem Lineage.drawnKids {runs : List (List SystemTrans)} (h : Lineage H runs s) :
    s.world.keyring.Named DrawnKid := by
  induction h with
  | created run =>
    obtain ⟨kidBytes, key, hrun⟩ := run
    exact hrun.named (.idle (Ledger.covered_empty _) (Ledger.keyed_empty _) fun _ => rfl)
      (KeyRing.named_created ⟨kidBytes, rfl⟩) hrun.drawsNamed
  | restored backedUp run ih =>
    have hcustody := backedUp.custody
    exact run.named (.restored hcustody.covered hcustody.keyed) ih run.drawsNamed

/-- A lineage whose random generator serves every draw as it is asked, that of the first key id
included. -/
inductive SizedLineage (H : HashLib) : List (List SystemTrans) → SystemState → Prop
  | created {kidBytes : Bytes} {key : RootKey} {τ : List SystemTrans} {s : SystemState}
      (kid : kidBytes.length = 8)
      (run : SystemRunFrom H (.created (lit "hk_" ++ hexlify kidBytes) key) τ s)
      (draws : SizedDraws τ) : SizedLineage H [τ] s
  | restored {runs : List (List SystemTrans)} {τ : List SystemTrans} {s s' : SystemState}
      (backedUp : SizedLineage H runs s)
      (run : SystemRunFrom H (.restored s.world.ledger s.world.keyring) τ s')
      (draws : SizedDraws τ) : SizedLineage H (runs ++ [τ]) s'

namespace SizedLineage

variable {runs : List (List SystemTrans)}

theorem lineage (h : SizedLineage H runs s) : Lineage H runs s := by
  induction h with
  | created kid run draws => exact .created ⟨_, _, run⟩
  | restored backedUp run draws ih => exact .restored ih run

theorem sized (h : SizedLineage H runs s) : ∀ τ ∈ runs, SizedDraws τ := by
  induction h with
  | created kid run draws =>
    intro τ hτ
    rwa [List.mem_singleton.mp hτ]
  | restored backedUp run draws ih =>
    intro τ hτ
    rcases List.mem_append.mp hτ with hτ | hτ
    · exact ih τ hτ
    · rwa [List.mem_singleton.mp hτ]

/-- **Every key id of the instance** has its eight bytes. -/
theorem named (h : SizedLineage H runs s) : s.world.keyring.Named SizedKid := by
  induction h with
  | created kid run draws =>
    exact run.named (.idle (Ledger.covered_empty _) (Ledger.keyed_empty _) fun _ => rfl)
      (KeyRing.named_created ⟨_, kid, rfl⟩) (run.drawsSized draws)
  | restored backedUp run draws ih =>
    have hcustody := backedUp.lineage.custody
    exact run.named (.restored hcustody.covered hcustody.keyed) ih (run.drawsSized draws)

/-- The lineage as it was when a run began its last part. -/
theorem upTo (h : SizedLineage H runs s) {τ₁ τ₂ : List SystemTrans} {s' : SystemState}
    (hτ : τ₁ ++ τ₂ ∈ runs)
    (hstate : ∀ w s, SystemRunFrom H w (τ₁ ++ τ₂) s → SystemRunFrom H w τ₁ s') :
    ∃ runs', SizedLineage H (runs' ++ [τ₁]) s' ∧ runs' ⊆ runs := by
  induction h with
  | created kid run draws =>
    obtain rfl := List.mem_singleton.mp hτ
    exact ⟨[], .created kid (hstate _ _ run) fun u hu => draws u (List.mem_append_left _ hu),
      List.nil_subset _⟩
  | @restored runs τ s₀ s₁ backedUp run draws ih =>
    rcases List.mem_append.mp hτ with hτ | hτ
    · obtain ⟨runs', hruns', hsub⟩ := ih hτ
      exact ⟨runs', hruns', fun σ hσ => List.mem_append_left _ (hsub hσ)⟩
    · obtain rfl := List.mem_singleton.mp hτ
      exact ⟨runs, .restored backedUp (hstate _ _ run)
        fun u hu => draws u (List.mem_append_left _ hu), List.subset_append_left _ _⟩

end SizedLineage

/-! ### Lookups -/

/-- **A stored proof is looked up under its digest** by a serving process. -/
theorem Custody.lookupDigest (hH : H.Ideal) (hs : Custody H s)
    (hnamed : s.world.keyring.Named DrawnKid) {p : ℕ} (hserving : s.world.Serving p)
    {m : KeyRing} (hm : s.world.memoryOf p = some m) {row : ProofRow}
    (hrow : row ∈ s.world.ledger.proofs) {key : RootKey} {kid : Str} {bytes : Bytes}
    (hbytes : bytes ≠ [])
    (hdigest : proofDigest H key.val (Service.proofToken kid bytes) = .ok row.tokenDigest) :
    Service.lookupDigest H m (Service.proofToken kid bytes) = .ok row.tokenDigest := by
  obtain ⟨key', bytes', hkey', hdigest'⟩ := hs.keyed.proofs row hrow
  obtain ⟨rfl, htoken⟩ := hH.proofDigest_inj hdigest hdigest'
  obtain ⟨rfl, rfl⟩ := Service.proofToken_inj htoken
  obtain ⟨m', hm', -, hfit⟩ := hs.memory p hserving
  obtain rfl := Option.some.inj (hm.symm.trans hm')
  obtain ⟨key'', hkey'', m'', hm'', hmemory⟩ := hfit row hrow
  obtain rfl := Option.some.inj (hm.symm.trans hm'')
  obtain rfl := Option.some.inj (hkey'.symm.trans hkey'')
  have hdrawn := hnamed row.hashKid (Finmap.mem_of_lookup_eq_some hkey')
  have hkid : Service.proofKid (Service.proofToken row.hashKid bytes) = some row.hashKid :=
    Service.proofKid_proofToken hdrawn.undotted hdrawn.prefixed (base64url_ne_nil hbytes)
  rw [Service.lookupDigest, hkid, Option.bind_some, hmemory]
  exact hdigest

end Onceproof

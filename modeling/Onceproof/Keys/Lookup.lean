import Onceproof.Keys.Naming
import Onceproof.Ledger.Verifications

/-!
# Lookups of an issued proof

`IssuedIn` is a run of an instance, restored or not, with the issuance of a proof in it. The digest
of the proof is stored once (`IssuedIn.not_reissued`), and a verification that was called after the
issuance looks the proof up under this digest, unless its row is gone (`IssuedIn.lookup`).
-/

namespace Onceproof

/-- A run in which the transition `u` issues the proof `p`, stored as `c`. -/
structure IssuedIn (H : HashLib) (w : World) (p : Str) (c : ProofRecord) (τ₁ : List SystemTrans)
    (u : SystemTrans) (τ₂ : List SystemTrans) (s : SystemState) : Prop where
  run : SystemRunFrom H w (τ₁ ++ u :: τ₂) s
  custody : Custody H (.start w)
  named : w.keyring.Named DrawnKid
  fresh : FreshTokens (τ₁ ++ u :: τ₂)
  sized : SizedDraws (τ₁ ++ u :: τ₂)
  commit : IssueCommit H p τ₁ u c

/-- A run of a lineage starts with the custody of its keys. -/
theorem Lineage.run_of_mem {H : HashLib} {runs : List (List SystemTrans)} {s : SystemState}
    (h : Lineage H runs s) {τ : List SystemTrans} (hτ : τ ∈ runs) :
    ∃ w s', SystemRunFrom H w τ s' ∧ Custody H (.start w) ∧ w.keyring.Named DrawnKid := by
  induction h with
  | created run =>
    obtain rfl := List.mem_singleton.mp hτ
    obtain ⟨kidBytes, key, hrun⟩ := run
    exact ⟨_, _, hrun, .idle (Ledger.covered_empty _) (Ledger.keyed_empty _) fun _ => rfl,
      KeyRing.named_created ⟨kidBytes, rfl⟩⟩
  | restored backedUp run ih =>
    rcases List.mem_append.mp hτ with hτ | hτ
    · exact ih hτ
    · obtain rfl := List.mem_singleton.mp hτ
      have hcustody := backedUp.custody
      exact ⟨_, _, run, .restored hcustody.covered hcustody.keyed, backedUp.drawnKids⟩

namespace IssuedIn

variable {H : HashLib} {w : World} {p : Str} {c : ProofRecord} {τ₁ τ₂ σ ρ : List SystemTrans}
variable {u v t : SystemTrans} {s : SystemState}

/-- The run up to a transition after the issuance. -/
theorem cut (h : IssuedIn H w p c τ₁ u (σ ++ t :: ρ) s) : IssuedIn H w p c τ₁ u σ t.src := by
  have hsplit : τ₁ ++ u :: (σ ++ t :: ρ) = (τ₁ ++ u :: σ) ++ t :: ρ := by simp
  have hrun := h.run
  have hfresh := h.fresh
  have hsized := h.sized
  rw [hsplit] at hrun hfresh hsized
  refine ⟨hrun.cut.1, h.custody, h.named, ?_, fun v hv => hsized v (List.mem_append_left _ hv),
    h.commit⟩
  rw [FreshTokens, tokenDraws, List.filterMap_append] at hfresh
  exact (List.nodup_append.mp hfresh).1

/-- The state after the issuance. -/
theorem after (h : IssuedIn H w p c τ₁ u τ₂ s) : Run (system H).Step u.dst τ₂ s := h.run.cut.2.2

/-- How the proof was built. -/
theorem token (h : IssuedIn H w p c τ₁ u τ₂ s) : ∃ (key : RootKey) (kid : Str) (bytes : Bytes),
    bytes ≠ [] ∧ p = Service.proofToken kid bytes ∧
      proofDigest H key.val p = .ok c.tokenDigest := by
  obtain ⟨tid, pid, q, record, check, i, hl, hargs⟩ := h.commit
  obtain ⟨k, bytes, -, hbytes, hp, -, hdigest, -⟩ := hargs.token
  have hlength := h.sized.length hbytes
  refine ⟨k.currentKey.2, k.currentKey.1, bytes, ?_, hp, ?_⟩
  · rintro rfl
    cases hlength
  · rw [(issueCommit_effect h.run hl).committed_eq]
    exact hdigest

/-- The row that the issuance stores. -/
theorem row_dst (h : IssuedIn H w p c τ₁ u τ₂ s) :
    u.dst.world.ledger.proofs.get? c.tokenDigest = some c.toRow := by
  obtain ⟨tid, pid, q, record, check, i, hl, -⟩ := h.commit
  have heffect := issueCommit_effect h.run hl
  refine Table.get?_eq_some.mpr ⟨?_, rfl⟩
  rw [Table.mem_def, heffect.proofs]
  exact List.mem_append_right _ (List.mem_singleton_self _)

/-- An issuance after that of the proof stores another digest of it. -/
theorem not_issued_again (hH : H.Ideal) (h : IssuedIn H w p c τ₁ u τ₂ s) {t : Trans Ledger Commit}
    (ht : t ∈ commits τ₂) {D : Str} {c' : ProofRecord} (hissued : IssuedAs D c' t)
    (key : RootKey) : proofDigest H key.val p ≠ .ok D := by
  intro hdigest
  obtain ⟨x, hx, tid, pid, r, i, hl, -⟩ := mem_commits.mp ht
  obtain ⟨m₁, m₂, rfl⟩ := List.append_of_mem hx
  have hsplit : τ₁ ++ u :: (m₁ ++ x :: m₂) = (τ₁ ++ u :: m₁) ++ x :: m₂ := by simp
  obtain ⟨record, check, x', hlabel, hD, -⟩ := hissued
  rw [hlabel] at hl
  obtain ⟨-, q, p', rfl, hargs⟩ := (SystemRunFrom.act (hsplit ▸ h.run) hl).2
  obtain ⟨k, bytes, -, -, -, -, hdigest', -⟩ := hargs.token
  rw [hD] at hdigest'
  obtain ⟨-, rfl⟩ := hH.proofDigest_inj hdigest hdigest'
  obtain ⟨heq, -⟩ := h.commit.unique h.run h.fresh rfl hsplit
    ⟨tid, pid, q, record, check, i, hl, hargs⟩
  have hlength := congrArg List.length heq
  simp only [List.length_append, List.length_cons] at hlength
  omega

/-- **The digest of the proof is stored once.** -/
theorem not_reissued (hH : H.Ideal) (h : IssuedIn H w p c τ₁ u τ₂ s) {t : Trans Ledger Commit}
    (ht : t ∈ commits τ₂) (c' : ProofRecord) : ¬ IssuedAs c.tokenDigest c' t := by
  obtain ⟨key, kid, bytes, -, -, hdigest⟩ := h.token
  exact fun hissued => h.not_issued_again hH ht hissued key hdigest

/-- A digest that no commit issues under stays unknown. -/
theorem absent {db db' : Ledger} {cs : List (Trans Ledger Commit)} (h : Run LedgerStep db cs db')
    {D : Str} (hissued : ∀ t ∈ cs, ∀ c', ¬ IssuedAs D c' t) (hnone : db.proofs.get? D = none) :
    db'.proofs.get? D = none := by
  refine h.kept (I := fun db => db.proofs.get? D = none) (fun t ht hI hs => ?_) hnone
  cases hg : t.dst.proofs.get? D with
  | none => rfl
  | some r =>
    rcases hs.proof_origin hg with ⟨c', hc', -⟩ | ⟨r', hr', -⟩
    · exact absurd hc' (hissued t ht c')
    · rw [hI] at hr'
      cases hr'

/-- The custody of the keys at the issuance. -/
theorem custody_dst (h : IssuedIn H w p c τ₁ u τ₂ s) : Custody H u.dst := by
  have hrun : SystemRunFrom H w (τ₁ ++ [⟨u.src, u.label, u.dst⟩]) u.dst :=
    .snoc h.run.cut.1 h.run.cut.2.1
  exact hrun.custody h.custody

/-- **A row that a verification finds for the proof** is the one that was stored for it. -/
theorem found (hH : H.Ideal) (h : IssuedIn H w p c τ₁ u τ₂ s) {k : KeyRing} {D : Str}
    (hlookup : Service.lookupDigest H k p = .ok D) {r : ProofRow}
    (hr : s.world.ledger.proofs.get? D = some r) : D = c.tokenDigest := by
  rcases run_proof_issued (ledgerRun h.after) hr with ⟨t, ht, c', hissued, -⟩ | ⟨r₀, hr₀, -⟩
  · -- a later issuance under the digest would be one of the same proof
    have hmem : t ∈ commits (τ₁ ++ u :: τ₂) := by
      rw [List.append_cons, commits_append]
      exact List.mem_append_right _ ht
    obtain ⟨-, -, -, p', key', -, -, -, -, hkey'⟩ := exists_issueCommit h.run hmem hissued
    obtain rfl := Service.lookupDigest_keyed hH hlookup hkey'
    exact absurd hkey' (h.not_issued_again hH ht hissued key')
  · obtain ⟨key, kid, bytes, -, -, hdigest⟩ := h.token
    have hkeyed := h.custody_dst.keyed
    obtain ⟨hmem₀, hD⟩ := Table.get?_eq_some.mp hr₀
    obtain ⟨key₁, bytes₁, hkey₁, hdigest₁⟩ :=
      hkeyed.proofs c.toRow (Table.get?_eq_some.mp h.row_dst).1
    obtain ⟨key₂, bytes₂, hkey₂, hdigest₂⟩ := hkeyed.proofs r₀ hmem₀
    rw [hD] at hdigest₂
    -- both rows carry the key id of the proof, and so were digested with one key
    have hp₁ := (hH.proofDigest_inj hdigest hdigest₁).2
    have hp₂ := Service.lookupDigest_keyed hH hlookup hdigest₂
    obtain ⟨hkid, -⟩ := Service.proofToken_inj (hp₁.symm.trans hp₂)
    rw [← hkid, hkey₁] at hkey₂
    obtain rfl := Option.some.inj hkey₂
    rw [← hp₂] at hdigest₂
    rw [← hp₁] at hdigest₁
    exact Except.ok.inj (hdigest₂.symm.trans hdigest₁)

/-- A command of a thread that was called after the issuance comes after it. -/
theorem later (h : IssuedIn H w p c τ₁ u τ₂ s) {tid pid : ℕ} {r : Request} {x : Op} {i : Choice}
    {a : x.Ans} (hlate : u.dst.next ≤ tid) (hv : v ∈ τ₁ ++ u :: τ₂)
    (hl : v.label = .act tid pid r x i a) : v ∈ τ₂ := by
  have hrun : SystemRunFrom H w (τ₁ ++ [⟨u.src, u.label, u.dst⟩]) u.dst :=
    .snoc h.run.cut.1 h.run.cut.2.1
  by_contra hnot
  have hbefore : v ∈ τ₁ ++ [u] := by
    rw [List.append_cons] at hv
    exact (List.mem_append.mp hv).resolve_right hnot
  have hlt := (Machine.coherent hrun).below v hbefore tid pid r (by rw [hl]; rfl)
  omega

/-- **The lookup of a verification** that was called after the issuance: it finds the digest of the
proof, or the row is gone. -/
theorem lookup (hH : H.Ideal) (h : IssuedIn H w p c τ₁ u τ₂ s) {tid : ℕ} {q : VerifyRequest}
    {th : Thread ℕ Request Op Op.Ans Error Outcome} (hth : s.threads tid = some th)
    (hreq : th.req = .api (.verifyProof q)) (hlate : u.dst.next ≤ tid) {k : KeyRing}
    (hread : Hist.Got (acted tid (τ₁ ++ u :: τ₂)) .memory k) {D : Str}
    (hlookup : Service.lookupDigest H k p = .ok D) :
    D = c.tokenDigest ∨ s.world.ledger.proofs.get? c.tokenDigest = none ∧
      s.world.ledger.proofs.get? D = none := by
  obtain ⟨v, hv, pid, r, i, hl⟩ := mem_acted.mp hread
  obtain ⟨σ, ρ, rfl⟩ := List.append_of_mem (h.later hlate hv hl)
  obtain ⟨key, kid, bytes, hbytes, hp, hdigest⟩ := h.token
  -- the memory was that of a serving process, with the keys of all rows
  have hsrc := h.cut
  have hcustody := hsrc.run.custody h.custody
  have hnamed := hsrc.run.named h.custody h.named hsrc.run.drawsNamed
  have hstep := h.after.of_cut.2.1
  have hthread : v.label.thread? = some (tid, pid, r) := by rw [hl]; rfl
  have hr : r = .api (.verifyProof q) :=
    (((Machine.coherent h.run).running tid th hth).2.2 v hv pid r hthread).2.symm.trans hreq
  have hserving : v.src.world.Serving pid := by
    rcases hstep.of_thread? hthread with ⟨hcall, -⟩ | ⟨th', hth', rfl, hreq'⟩
    · rw [hl] at hcall
      cases hcall
    · exact (hcustody.sound tid th' hth').api (by rw [hreq', hr]; trivial)
  have hmemory : v.src.world.memoryOf pid = some k := by
    have hexec := h.run.exec hv hl
    obtain ⟨m, hm, hx⟩ := Option.map_eq_some_iff.mp hexec
    rw [← Except.ok.inj (Prod.mk.inj hx).1]
    exact hm
  cases hg : s.world.ledger.proofs.get? c.tokenDigest with
  | none =>
    cases hg' : s.world.ledger.proofs.get? D with
    | none => exact Or.inr ⟨rfl, rfl⟩
    | some r' => exact Or.inl (h.found hH hlookup hg')
  | some r' =>
    left
    cases hrow : v.src.world.ledger.proofs.get? c.tokenDigest with
    | none =>
      -- a row that was gone would still be gone
      have hrest : Run (system H).Step v.src (v :: ρ) s := by
        obtain ⟨s', hbefore, hrest⟩ := h.after.of_append
        obtain rfl := hrest.of_cons.1
        exact hrest
      have hnone := absent (ledgerRun hrest) (fun t ht c' => h.not_reissued hH
        (by rw [commits_append]; exact List.mem_append_right _ ht) c') hrow
      rw [hg] at hnone
      cases hnone
    | some row =>
      obtain ⟨hmem, hD⟩ := Table.get?_eq_some.mp hrow
      rw [hp] at hlookup hdigest
      rw [← hD] at hdigest
      have hfound := hcustody.lookupDigest hH hnamed hserving hmemory hmem hbytes hdigest
      exact (Except.ok.inj (hlookup.symm.trans hfound)).trans hD

end IssuedIn

end Onceproof

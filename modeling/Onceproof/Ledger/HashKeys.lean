import Onceproof.Store.Commits
import Onceproof.Keyring
import Onceproof.Service.Validation

/-!
# Key ids of the ledger

Credentials and proofs are stored under the id of the key that made their digest, and the
ledger keeps a check of every key it has met. `Ledger.Covered` says that a keyring has the
keys of all rows, and the lemmas below say how a step of the ledger can change what has to be
covered: rows are stored under a key id only together with its check
(`LedgerStep.credential_kid`, `LedgerStep.proof_kid`), and no check is ever changed
(`LedgerStep.hashKey_kept`).
-/

namespace Onceproof

/-- The keyring has the key that a key id of the ledger names: a key whose check is the one
that the ledger recorded for the id. -/
def Ledger.Covers (H : HashLib) (db : Ledger) (k : KeyRing) (kid : Str) : Prop :=
  ∃ key check, k.keyFor kid = some key ∧ keyCheck H key.val = .ok check ∧
    db.hashKeys.get? kid = some ⟨kid, check⟩

/-- **No orphaned key id**: the keyring has the keys of all credentials and proofs. -/
structure Ledger.Covered (H : HashLib) (db : Ledger) (k : KeyRing) : Prop where
  credentials : ∀ c ∈ db.credentials, db.Covers H k c.hashKid
  proofs : ∀ r ∈ db.proofs, db.Covers H k r.hashKid

/-- The digest of a proof row was made with the key that its key id names. -/
def ProofRow.Keyed (H : HashLib) (k : KeyRing) (r : ProofRow) : Prop :=
  ∃ key bytes, k.keyFor r.hashKid = some key ∧
    proofDigest H key.val (Service.proofToken r.hashKid bytes) = .ok r.tokenDigest

/-- The digest of a credential was made, of a secret with its id in it, with the key that its
key id names. -/
def CredentialRow.Keyed (H : HashLib) (k : KeyRing) (c : CredentialRow) : Prop :=
  ∃ key idBytes bytes, k.keyFor c.hashKid = some key ∧
    c.credentialId = c.role.idPrefix ++ hexlify idBytes ∧
    credentialDigest H key.val (Service.newSecret c.role c.credentialId bytes) = .ok c.secretDigest

/-- The digests of the ledger were made with the keys of the keyring. -/
structure Ledger.Keyed (H : HashLib) (db : Ledger) (k : KeyRing) : Prop where
  credentials : ∀ c ∈ db.credentials, c.Keyed H k
  proofs : ∀ r ∈ db.proofs, r.Keyed H k

/-- A commit that stores a credential under a key id, with the check of the key. -/
inductive Commit.StoresCredential : Commit → Str → Str → Prop
  | created (a : CreateClient) (x : Chance) :
      StoresCredential ⟨.createClient a, x, ()⟩ a.issuanceCredential.hashKid a.hashKeyCheck
  | rotated (a : RotateCredential) (x : Chance) (reply : Str × ℤ) :
      StoresCredential ⟨.rotateCredential a, x, reply⟩ a.replacement.hashKid a.hashKeyCheck

variable {H : HashLib} {db db' : Ledger} {l : Commit} {k : KeyRing} {kid : Str}

theorem Ledger.Registers.get? {t : Table HashKeyRow HashKeyRow.hashKid} {kid' check : Str}
    {row : HashKeyRow} (h : db.Registers kid' check t) (hrow : db.hashKeys.get? kid = some row) :
    t.get? kid = some row :=
  Table.get?_eq_some.mpr ⟨h.keeps row (Table.get?_eq_some.mp hrow).1,
    (Table.get?_eq_some.mp hrow).2⟩

/-- **No check is ever changed.** -/
theorem LedgerStep.hashKey_kept (h : LedgerStep db l db') {row : HashKeyRow}
    (hrow : db.hashKeys.get? kid = some row) : db'.hashKeys.get? kid = some row := by
  cases h.effect with
  | create effect => exact effect.hashKeys.get? hrow
  | issue effect => exact effect.hashKeys.get? hrow
  | rotate effect => exact effect.hashKeys.get? hrow
  | consume effect =>
    cases effect with
    | refused | replayed => exact hrow
    | decided effect => exact effect.hashKeys ▸ hrow
  | revoke effect =>
    cases effect with
    | already => exact hrow
    | revoked _ _ _ _ _ _ _ hashKeys => exact hashKeys ▸ hrow
  | cleanup effect => exact effect.hashKeys ▸ hrow
  | activate effect => exact effect.hashKeys ▸ hrow

/-- A credential keeps its key id, and a new one is stored with the check of its key. -/
theorem LedgerStep.credential_kid (h : LedgerStep db l db') {c' : CredentialRow}
    (hc' : c' ∈ db'.credentials) : (∃ c ∈ db.credentials, c.hashKid = c'.hashKid) ∨
      ∃ check, l.StoresCredential c'.hashKid check ∧
        db'.hashKeys.get? c'.hashKid = some ⟨c'.hashKid, check⟩ := by
  have hlookup : db'.credentials.get? c'.credentialId = some c' :=
    Table.get?_eq_some.mpr ⟨hc', rfl⟩
  have hold : ∀ {c : CredentialRow}, db.credentials.get? c'.credentialId = some c →
      c ∈ db.credentials := fun hc => (Table.get?_eq_some.mp hc).1
  have hstep := h.credential c'.credentialId
  rw [hlookup] at hstep
  generalize hg : db.credentials.get? c'.credentialId = o at hstep
  cases hstep with
  | same => exact Or.inl ⟨c', hold hg, rfl⟩
  | demoted | revoked => exact Or.inl ⟨_, hold hg, rfl⟩
  | @inserted c now label named =>
    refine Or.inr ?_
    have heffect := h.effect
    cases label with
    | issuance a x =>
      cases heffect with
      | create effect => exact ⟨_, .created a x, effect.hashKeys.lookup⟩
    | verification a x =>
      cases heffect with
      | create effect =>
        have hkid : (a.verificationCredential.toCurrentRow a.now).hashKid =
            a.issuanceCredential.hashKid := effect.sameKid.symm
        rw [hkid]
        exact ⟨_, .created a x, effect.hashKeys.lookup⟩
    | replacement a x reply =>
      cases heffect with
      | rotate effect => exact ⟨_, .rotated a x reply, effect.hashKeys.lookup⟩

/-- A credential keeps its role, its key id and its digest, and a new one is as it was
inserted. -/
theorem LedgerStep.credential_origin (h : LedgerStep db l db') {c' : CredentialRow}
    (hc' : c' ∈ db'.credentials) :
    (∃ c ∈ db.credentials, c.credentialId = c'.credentialId ∧ c.clientId = c'.clientId ∧
      c.role = c'.role ∧ c.hashKid = c'.hashKid ∧ c.secretDigest = c'.secretDigest) ∨
      ∃ record now, l.Inserts record now ∧ c' = record.toCurrentRow now := by
  have hlookup : db'.credentials.get? c'.credentialId = some c' :=
    Table.get?_eq_some.mpr ⟨hc', rfl⟩
  have hold : ∀ {c : CredentialRow}, db.credentials.get? c'.credentialId = some c →
      c ∈ db.credentials ∧ c.credentialId = c'.credentialId := fun hc => Table.get?_eq_some.mp hc
  have hstep := h.credential c'.credentialId
  rw [hlookup] at hstep
  generalize hg : db.credentials.get? c'.credentialId = o at hstep
  cases hstep with
  | same => exact Or.inl ⟨c', (hold hg).1, rfl, rfl, rfl, rfl, rfl⟩
  | demoted | revoked => exact Or.inl ⟨_, (hold hg).1, rfl, rfl, rfl, rfl, rfl⟩
  | @inserted record now label named => exact Or.inr ⟨record, now, label, rfl⟩

/-- A proof keeps its key id and its digest, and a new one is stored with the check of its
key. -/
theorem LedgerStep.proof_kid (h : LedgerStep db l db') {r' : ProofRow} (hr' : r' ∈ db'.proofs) :
    (∃ r ∈ db.proofs, r.hashKid = r'.hashKid ∧ r.tokenDigest = r'.tokenDigest) ∨
      ∃ record check x committed, l = ⟨.issueProof record check, x, committed⟩ ∧
        r'.hashKid = record.hashKid ∧ r'.tokenDigest = record.tokenDigest ∧
        db'.hashKeys.get? r'.hashKid = some ⟨r'.hashKid, check⟩ := by
  have hlookup : db'.proofs.get? r'.tokenDigest = some r' := Table.get?_eq_some.mpr ⟨hr', rfl⟩
  have hold : ∀ {r : ProofRow}, db.proofs.get? r'.tokenDigest = some r →
      r ∈ db.proofs ∧ r.tokenDigest = r'.tokenDigest := fun hr => Table.get?_eq_some.mp hr
  have hstep := h.proof r'.tokenDigest
  rw [hlookup] at hstep
  generalize hg : db.proofs.get? r'.tokenDigest = o at hstep
  cases hstep with
  | same => exact Or.inl ⟨r', (hold hg).1, rfl, rfl⟩
  | consumed | shortened => exact Or.inl ⟨_, (hold hg).1, rfl, (hold hg).2⟩
  | @issued record check x committed label digest effect =>
    have hkid : committed.toRow.hashKid = record.hashKid := by
      rw [effect.committed_eq]
      rfl
    refine Or.inr ⟨record, check, x, committed, label, hkid, digest.symm, ?_⟩
    rw [hkid]
    exact effect.hashKeys.lookup

theorem Ledger.Covers.step (hc : db.Covers H k kid) (h : LedgerStep db l db') :
    db'.Covers H k kid := by
  obtain ⟨key, check, hkey, hcheck, hrow⟩ := hc
  exact ⟨key, check, hkey, hcheck, h.hashKey_kept hrow⟩

/-- The keyring may change, as long as it keeps the keys of all rows. -/
theorem Ledger.Covered.keyring {k' : KeyRing} (hc : db.Covered H k)
    (hcredentials : ∀ c ∈ db.credentials, k'.keyFor c.hashKid = k.keyFor c.hashKid)
    (hproofs : ∀ r ∈ db.proofs, k'.keyFor r.hashKid = k.keyFor r.hashKid) :
    db.Covered H k' := by
  refine ⟨fun c hmem => ?_, fun r hmem => ?_⟩
  · obtain ⟨key, check, hkey, hrest⟩ := hc.credentials c hmem
    exact ⟨key, check, (hcredentials c hmem).trans hkey, hrest⟩
  · obtain ⟨key, check, hkey, hrest⟩ := hc.proofs r hmem
    exact ⟨key, check, (hproofs r hmem).trans hkey, hrest⟩

/-- **The step lemma of coverage**: the keyring has to have the key of what is stored. -/
theorem Ledger.Covered.step (hc : db.Covered H k) (h : LedgerStep db l db')
    (hcredential : ∀ kid check, l.StoresCredential kid check →
      ∃ key, k.keyFor kid = some key ∧ keyCheck H key.val = .ok check)
    (hproof : ∀ record check x committed, l = ⟨.issueProof record check, x, committed⟩ →
      ∃ key, k.keyFor record.hashKid = some key ∧ keyCheck H key.val = .ok check) :
    db'.Covered H k := by
  refine ⟨fun c' hc' => ?_, fun r' hr' => ?_⟩
  · rcases h.credential_kid hc' with ⟨c, hmem, hkid⟩ | ⟨check, hstores, hrow⟩
    · rw [← hkid]
      exact (hc.credentials c hmem).step h
    · obtain ⟨key, hkey, hcheck⟩ := hcredential _ _ hstores
      exact ⟨key, check, hkey, hcheck, hrow⟩
  · rcases h.proof_kid hr' with ⟨r, hmem, hkid, -⟩ |
      ⟨record, check, x, committed, rfl, hkid, -, hrow⟩
    · rw [← hkid]
      exact (hc.proofs r hmem).step h
    · obtain ⟨key, hkey, hcheck⟩ := hproof _ _ _ _ rfl
      exact ⟨key, check, hkid ▸ hkey, hcheck, hrow⟩

/-- The keyring may change, as long as it keeps the keys of all rows. -/
theorem Ledger.Keyed.keyring {k' : KeyRing} (hk : db.Keyed H k)
    (hcredentials : ∀ c ∈ db.credentials, k'.keyFor c.hashKid = k.keyFor c.hashKid)
    (hproofs : ∀ r ∈ db.proofs, k'.keyFor r.hashKid = k.keyFor r.hashKid) :
    db.Keyed H k' := by
  refine ⟨fun c hc => ?_, fun r hr => ?_⟩
  · obtain ⟨key, idBytes, bytes, hkey, hrest⟩ := hk.credentials c hc
    exact ⟨key, idBytes, bytes, (hcredentials c hc).trans hkey, hrest⟩
  · obtain ⟨key, bytes, hkey, hdigest⟩ := hk.proofs r hr
    exact ⟨key, bytes, (hproofs r hr).trans hkey, hdigest⟩

/-- **The step lemma of digests**: what is stored was digested with a key of the keyring. -/
theorem Ledger.Keyed.step (hk : db.Keyed H k) (h : LedgerStep db l db')
    (hcredential : ∀ record now, l.Inserts record now → (record.toCurrentRow now).Keyed H k)
    (hproof : ∀ record check x committed, l = ⟨.issueProof record check, x, committed⟩ →
      ∃ key bytes, k.keyFor record.hashKid = some key ∧
        proofDigest H key.val (Service.proofToken record.hashKid bytes) = .ok record.tokenDigest) :
    db'.Keyed H k := by
  refine ⟨fun c' hc' => ?_, fun r' hr' => ?_⟩
  · rcases h.credential_origin hc' with ⟨c, hc, hid, -, hrole, hkid, hdigest⟩ |
        ⟨record, now, hinserts, rfl⟩
    · obtain ⟨key, idBytes, bytes, hkey, hname, hkeyed⟩ := hk.credentials c hc
      refine ⟨key, idBytes, bytes, hkid ▸ hkey, ?_, ?_⟩
      · rw [← hid, hname, hrole]
      · rw [← hrole, ← hid, hkeyed, hdigest]
    · exact hcredential record now hinserts
  · rcases h.proof_kid hr' with ⟨r, hr, hkid, hdigest⟩ |
        ⟨record, check, x, committed, hl, hkid, hdigest, -⟩
    · obtain ⟨key, bytes, hkey, hkeyed⟩ := hk.proofs r hr
      exact ⟨key, bytes, hkid ▸ hkey, hkid ▸ hdigest ▸ hkeyed⟩
    · obtain ⟨key, bytes, hkey, hkeyed⟩ := hproof record check x committed hl
      exact ⟨key, bytes, hkid ▸ hkey, hkid ▸ hdigest ▸ hkeyed⟩

theorem Ledger.keyed_empty (k : KeyRing) : Ledger.empty.Keyed H k :=
  ⟨fun _ hc => absurd hc Table.not_mem_empty, fun _ hr => absurd hr Table.not_mem_empty⟩

theorem Ledger.covered_empty (k : KeyRing) : Ledger.empty.Covered H k :=
  ⟨fun _ hc => absurd hc Table.not_mem_empty, fun _ hr => absurd hr Table.not_mem_empty⟩

/-! ### Recorded checks -/

/-- A recorded check is that of the loaded key. -/
def KeyRing.Matches (H : HashLib) (k : KeyRing) (c : Str × Str) : Prop :=
  ∃ key, k.keyFor c.1 = some key ∧ keyCheck H key.val = .ok c.2

theorem Ledger.mem_referenced {kid : Str} : kid ∈ db.referenced ↔
    (∃ c ∈ db.credentials, c.hashKid = kid) ∨ ∃ r ∈ db.proofs, r.hashKid = kid := by
  simp [Ledger.referenced, Table.mem_def]

theorem Ledger.mem_checks {kids : List Str} {c : Str × Str} :
    c ∈ db.checks kids ↔ c.1 ∈ kids ∧ db.hashKeys.get? c.1 = some ⟨c.1, c.2⟩ := by
  obtain ⟨kid, check⟩ := c
  simp only [Ledger.checks, List.mem_insertionSort, List.mem_map, List.mem_filter,
    decide_eq_true_eq, Prod.mk.injEq]
  constructor
  · rintro ⟨⟨kid', check'⟩, ⟨hrow, hkid⟩, rfl, rfl⟩
    exact ⟨hkid, Table.get?_eq_some.mpr ⟨hrow, rfl⟩⟩
  · rintro ⟨hkid, hrow⟩
    exact ⟨⟨kid, check⟩, ⟨(Table.get?_eq_some.mp hrow).1, hkid⟩, rfl, rfl⟩

/-- The checks come in the order of their key ids, and there is one for each. -/
theorem Ledger.checks_pairwise (db : Ledger) (kids : List Str) :
    (db.checks kids).Pairwise fun c c' => c.1 < c'.1 := by
  have htotal : Std.Total fun c c' : Str × Str => c.1 ≤ c'.1 := ⟨fun c c' => le_total c.1 c'.1⟩
  have htrans : IsTrans (Str × Str) fun c c' => c.1 ≤ c'.1 := ⟨fun _ _ _ => le_trans⟩
  have hsorted : (db.checks kids).Pairwise fun c c' => c.1 ≤ c'.1 := List.pairwise_insertionSort _ _
  have hrows : ((db.hashKeys.rows.filter fun r => r.hashKid ∈ kids).map
      HashKeyRow.hashKid).Nodup := db.hashKeys.nodup.sublist (List.filter_sublist.map _)
  have hnodup : ((db.checks kids).map Prod.fst).Nodup := by
    refine ((List.perm_insertionSort _ _).map Prod.fst).nodup_iff.mpr ?_
    rw [List.map_map]
    exact hrows
  refine (hsorted.and (List.pairwise_map.mp hnodup)).imp fun h => ?_
  exact lt_of_le_of_ne h.1 h.2

/-- All rows are covered if every key id has a check and every check is that of the loaded
key. -/
theorem Ledger.covered_iff : db.Covered H k ↔
    (∀ kid ∈ db.referenced, ∃ c ∈ db.checks db.referenced, c.1 = kid) ∧
      ∀ c ∈ db.checks db.referenced, k.Matches H c := by
  have hcovers : db.Covered H k ↔ ∀ kid ∈ db.referenced, db.Covers H k kid := by
    constructor
    · intro h kid hkid
      rcases Ledger.mem_referenced.mp hkid with ⟨c, hc, rfl⟩ | ⟨r, hr, rfl⟩
      · exact h.credentials c hc
      · exact h.proofs r hr
    · intro h
      exact ⟨fun c hc => h _ (Ledger.mem_referenced.mpr (Or.inl ⟨c, hc, rfl⟩)),
        fun r hr => h _ (Ledger.mem_referenced.mpr (Or.inr ⟨r, hr, rfl⟩))⟩
  rw [hcovers]
  constructor
  · intro h
    refine ⟨fun kid hkid => ?_, fun c hc => ?_⟩
    · obtain ⟨key, check, -, -, hrow⟩ := h kid hkid
      exact ⟨(kid, check), Ledger.mem_checks.mpr ⟨hkid, hrow⟩, rfl⟩
    · obtain ⟨hkid, hrow⟩ := Ledger.mem_checks.mp hc
      obtain ⟨key, check, hkey, hcheck, hrow'⟩ := h c.1 hkid
      rw [hrow] at hrow'
      obtain ⟨-, rfl⟩ := HashKeyRow.mk.inj (Option.some.inj hrow')
      exact ⟨key, hkey, hcheck⟩
  · rintro ⟨hall, hmatch⟩ kid hkid
    obtain ⟨c, hc, rfl⟩ := hall kid hkid
    obtain ⟨key, hkey, hcheck⟩ := hmatch c hc
    exact ⟨key, c.2, hkey, hcheck, (Ledger.mem_checks.mp hc).2⟩

theorem Ledger.checks_nil : db.checks [] = [] := by simp [Ledger.checks]

end Onceproof

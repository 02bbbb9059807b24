import Onceproof.Backup.Verify
import Onceproof.Scenario

/-!
# Backup verification

`_verify_backup_directory` answers only for a sound directory. It refuses every other one with an
exception that `main` reports, except where `hmac.compare_digest` meets a text that is not ASCII:
the manifest and the ledger are only asked for texts (`BackupDirectory.Foreign`). A manifest
that is nested too deeply for the decoder escapes as well.

* `escapes_verify_iff`: which directories let an exception escape.
* `backup_verification_iff`: the verification is sound and fails closed on all others.
-/

namespace Onceproof

/-- What the verification answers for: the manifest has the expected fields and records the
digests of the members, the database is intact and sealed, and every key id of its rows has a key
whose check is the recorded one. -/
structure BackupDirectory.Sound (H : HashLib) (d : BackupDirectory) : Prop where
  manifest : ∃ members, d.manifest.Lists members ∧
    Records members "database" databaseName (d.database.sha256 H) ∧
    Records members "keyring" keyringName (d.keyring.sha256 H)
  integral : d.integral = true
  restoreRequired : d.ledger.restoreRequired = true
  covered : d.ledger.Covered H d.keys

/-- The verification answers for a sound directory, or raises an exception that `main`
reports. -/
structure BackupDirectory.FailsClosed (H : HashLib) (d : BackupDirectory) : Prop where
  sound : ∀ paths, d.verify H = .ok paths → d.Sound H
  reported : ∀ e, d.verify H = .error e → e.Reported

/-- A manifest that is too deep for the decoder, or a text that is not ASCII at a place that is
compared: where everything before it is accepted. The recorded checks are compared in the order
of their key ids. -/
inductive BackupDirectory.Foreign (H : HashLib) (d : BackupDirectory) : Prop
  | manifest (regular : d.regular = true) (deep : d.manifest.TooDeep)
  | database {members : List (Str × Json)} {recorded : Str} (regular : d.regular = true)
      (lists : d.manifest.Lists members) (file : d.database.regular = true)
      (records : Records members "database" databaseName recorded)
      (foreign : recorded.isAscii = false)
  | keyring {members : List (Str × Json)} {recorded : Str} (regular : d.regular = true)
      (lists : d.manifest.Lists members) (databaseFile : d.database.regular = true)
      (database : Records members "database" databaseName (d.database.sha256 H))
      (file : d.keyring.regular = true) (records : Records members "keyring" keyringName recorded)
      (foreign : recorded.isAscii = false)
  | check {members : List (Str × Json)} {c : Str × Str}
      (regular : d.regular = true) (lists : d.manifest.Lists members)
      (databaseFile : d.database.regular = true)
      (database : Records members "database" databaseName (d.database.sha256 H))
      (keyringFile : d.keyring.regular = true)
      (keyring : Records members "keyring" keyringName (d.keyring.sha256 H))
      (integral : d.integral = true) (restoreRequired : d.ledger.restoreRequired = true)
      (complete : ∀ kid ∈ d.ledger.referenced, ∃ c ∈ d.ledger.checks d.ledger.referenced, c.1 = kid)
      (recorded : c ∈ d.ledger.checks d.ledger.referenced)
      (smaller : ∀ c' ∈ d.ledger.checks d.ledger.referenced, c'.1 < c.1 → d.keys.Matches H c')
      (key : (d.keys.keyFor c.1).isSome) (foreign : c.2.isAscii = false)

variable {H : HashLib} {d : BackupDirectory}

/-- **An accepted directory is sound.** -/
theorem sound_of_verify {paths : List (String × Str)} (h : d.verify H = .ok paths) : d.Sound H := by
  rw [BackupDirectory.verify] at h
  by_cases hirregular : (!d.regular) = true
  · rw [if_pos hirregular] at h
    cases h
  rw [if_neg hirregular] at h
  obtain ⟨members, hmembers, h⟩ := except_bind_eq_ok h
  obtain ⟨_, hdatabase, h⟩ := except_bind_eq_ok h
  obtain ⟨_, hkeyring, h⟩ := except_bind_eq_ok h
  split_ifs at h with hsealed
  obtain ⟨checks, hchecks, h⟩ := except_bind_eq_ok h
  obtain ⟨_, hkeys, -⟩ := except_bind_eq_ok h
  have hlists := Manifest.members_eq_ok.mp hmembers
  have hsealed : d.integral = true ∧ d.ledger.restoreRequired = true := by simpa using hsealed
  obtain ⟨rfl, hcomplete⟩ := Ledger.referencedHashKeyChecks_eq_ok.mp hchecks
  exact {
    manifest := ⟨members, hlists, (verifyMember_eq_ok.mp hdatabase).2,
      (verifyMember_eq_ok.mp hkeyring).2⟩
    integral := hsealed.1
    restoreRequired := hsealed.2
    covered := Ledger.covered_iff.mpr ⟨hcomplete, verifyChecks_eq_ok.mp hkeys⟩ }

/-- An exception that escapes comes from one of the comparisons, or from the decoder. -/
theorem foreign_of_escapes (h : Escapes (d.verify H)) : d.Foreign H := by
  rw [BackupDirectory.verify] at h
  by_cases hirregular : (!d.regular) = true
  · rw [if_pos hirregular] at h
    exact absurd h not_escapes_valueError
  rw [if_neg hirregular] at h
  have hregular : d.regular = true := by simpa using hirregular
  rcases escapes_bind.mp h with hmembers | ⟨members, hmembers, h⟩
  · exact .manifest hregular (Manifest.escapes_members.mp hmembers)
  have hlists := Manifest.members_eq_ok.mp hmembers
  rcases escapes_bind.mp h with hdatabase | ⟨_, hdatabase, h⟩
  · obtain ⟨hfile, recorded, hrecords, hforeign⟩ := escapes_verifyMember.mp hdatabase
    exact .database hregular hlists hfile hrecords hforeign
  obtain ⟨hdatabaseFile, hdatabase⟩ := verifyMember_eq_ok.mp hdatabase
  rcases escapes_bind.mp h with hkeyring | ⟨_, hkeyring, h⟩
  · obtain ⟨hfile, recorded, hrecords, hforeign⟩ := escapes_verifyMember.mp hkeyring
    exact .keyring hregular hlists hdatabaseFile hdatabase hfile hrecords hforeign
  obtain ⟨hkeyringFile, hkeyring⟩ := verifyMember_eq_ok.mp hkeyring
  split_ifs at h with hunsealed
  · exact absurd h not_escapes_valueError
  have hsealed : d.integral = true ∧ d.ledger.restoreRequired = true := by simpa using hunsealed
  rcases escapes_bind.mp h with hchecks | ⟨checks, hchecks, h⟩
  · exact absurd hchecks Ledger.not_escapes_referencedHashKeyChecks
  obtain ⟨rfl, hcomplete⟩ := Ledger.referencedHashKeyChecks_eq_ok.mp hchecks
  rcases escapes_bind.mp h with hkeys | ⟨-, -, h⟩
  · obtain ⟨c, hc, hsmaller, hkey, hforeign⟩ := escapes_verifyChecks_checks.mp hkeys
    exact .check hregular hlists hdatabaseFile hdatabase hkeyringFile hkeyring hsealed.1 hsealed.2
      hcomplete hc hsmaller hkey hforeign
  · exact absurd h not_escapes_ok

/-- Every such comparison lets its exception escape. -/
theorem escapes_of_foreign (h : d.Foreign H) : Escapes (d.verify H) := by
  rw [BackupDirectory.verify]
  cases h with
  | manifest hregular hdeep =>
    rw [if_neg (by simp [hregular])]
    exact escapes_bind.mpr (Or.inl (Manifest.escapes_members.mpr hdeep))
  | database hregular hlists hfile hrecords hforeign =>
    rw [if_neg (by simp [hregular]), Manifest.members_eq_ok.mpr hlists, except_ok_bind]
    exact escapes_bind.mpr (Or.inl (escapes_verifyMember.mpr ⟨hfile, _, hrecords, hforeign⟩))
  | keyring hregular hlists hdatabaseFile hdatabase hfile hrecords hforeign =>
    rw [if_neg (by simp [hregular]), Manifest.members_eq_ok.mpr hlists, except_ok_bind,
      verifyMember_eq_ok.mpr ⟨hdatabaseFile, hdatabase⟩, except_ok_bind]
    exact escapes_bind.mpr (Or.inl (escapes_verifyMember.mpr ⟨hfile, _, hrecords, hforeign⟩))
  | check hregular hlists hdatabaseFile hdatabase hkeyringFile hkeyring hintegral hrequired
      hcomplete hc hsmaller hkey hforeign =>
    have hkeys : Escapes (d.keys.verifyChecks H (d.ledger.checks d.ledger.referenced)) :=
      escapes_verifyChecks_checks.mpr ⟨_, hc, hsmaller, hkey, hforeign⟩
    have hchecks := Ledger.referencedHashKeyChecks_eq_ok.mpr ⟨rfl, hcomplete⟩
    rw [if_neg (by simp [hregular]), Manifest.members_eq_ok.mpr hlists, except_ok_bind,
      verifyMember_eq_ok.mpr ⟨hdatabaseFile, hdatabase⟩, except_ok_bind,
      verifyMember_eq_ok.mpr ⟨hkeyringFile, hkeyring⟩, except_ok_bind,
      if_neg (by simp [hintegral, hrequired]), hchecks, except_ok_bind]
    exact escapes_bind.mpr (Or.inl hkeys)

/-- Which directories let an exception escape. -/
theorem escapes_verify_iff : Escapes (d.verify H) ↔ d.Foreign H :=
  ⟨foreign_of_escapes, escapes_of_foreign⟩

/-- **Backup verification** is sound and fails closed for a directory if and only if the
decoder copes with the nesting of its manifest, and every text that is compared is ASCII. -/
theorem backup_verification_iff (H : HashLib) (d : BackupDirectory) :
    d.FailsClosed H ↔ ¬ d.Foreign H := by
  constructor
  · intro hcloses hforeign
    obtain ⟨e, he, hunreported⟩ := escapes_verify_iff.mpr hforeign
    exact hunreported (hcloses.reported e he)
  · intro hnone
    refine ⟨fun paths h => sound_of_verify h, fun e he => ?_⟩
    by_contra hunreported
    exact hnone (escapes_verify_iff.mp ⟨e, he, hunreported⟩)

/-- A manifest in which a digest is 64 times the letter `é`. -/
def accentedManifest : List (Str × Json) :=
  [(lit "format", .int 1),
    (lit "database", .obj [(lit "name", .str databaseName),
      (lit "sha256", .str (List.replicate 64 233))]),
    (lit "keyring", .obj [(lit "name", .str keyringName),
      (lit "sha256", .str (List.replicate 64 48))])]

/-- A backup directory with that manifest. -/
def accentedDirectory : BackupDirectory where
  regular := true
  manifest := .text ⟨[], .ok (.obj accentedManifest)⟩
  database := ⟨[], true⟩
  keyring := ⟨[], true⟩
  ledger := .empty
  integral := true
  keys := .created Scenario.kid Scenario.zeroKey

/-- A digest that is not ASCII escapes. -/
theorem backup_verification_counterexample :
    ¬ ∀ (H : HashLib) (d : BackupDirectory), d.FailsClosed H := by
  intro hall
  have hescapes : accentedDirectory.verify plainHash = .error .typeError := by
    decide +kernel
  exact (hall plainHash accentedDirectory).reported _ hescapes

end Onceproof

import Onceproof.Backup.Files
import Onceproof.Http.Body
import Onceproof.Ledger.HashKeys

/-!
# Verification of a backup directory

`onceproof db verify-backup` reads the manifest, compares the digests that it records with those
of the two members, opens the members and compares the key checks of the ledger with the keys.
The members are files that SQLite and `KeyRing.load` open; the manifest may be any file.

* `BackupDirectory.verify`: `_verify_backup_directory`.
* `Error.Reported`: the exceptions that `main` prints as a line of JSON. Every other exception
  escapes as a traceback (`Escapes`).
* `compareDigest`: `hmac.compare_digest` on texts, which asks for ASCII.
-/

namespace Onceproof

/-- The exceptions that `main` turns into an error line. -/
def Error.Reported : Error → Prop
  | valueError _ | valueErrorAt _ _ | permissionError _ | keyError _ | storeCorruptionError
  | keyringCommitUncertain | restoreRequiredError | instanceBusyError | fileExistsError
  | unicodeEncodeError => True
  | typeError | rateLimitError _ | integrityError | overflowError | recursionError
  | interrupted => False

/-- Only ASCII characters. -/
def Str.isAscii (s : Str) : Bool := s.all fun c => c.val < 128

/-- `hmac.compare_digest` on texts. -/
def compareDigest (a b : Str) : Except Error Bool :=
  if a.isAscii && b.isAscii then .ok (a = b) else .error .typeError

/-! ### The directory -/

/-- A file of the directory: what it holds, and whether it is a regular file and not a link. -/
structure Member where
  bytes : Bytes
  regular : Bool

/-- The file `manifest.json`, as it is read. -/
inductive Manifest
  /-- `OSError`. -/
  | unreadable
  /-- `UnicodeDecodeError`, a `ValueError`. -/
  | undecodable (message : String)
  /-- A text, and the run of `json.loads` on it. -/
  | text (decoding : Http.Decoding)

/-- A backup directory whose members can be opened. -/
structure BackupDirectory where
  /-- `not path.is_symlink() and path.is_dir()`. -/
  regular : Bool
  manifest : Manifest
  database : Member
  keyring : Member
  /-- The ledger in the database. -/
  ledger : Ledger
  /-- `PRAGMA integrity_check` answers `ok`. -/
  integral : Bool
  /-- The keys in the keyring file. -/
  keys : KeyRing

/-- The fields of the manifest. -/
def manifestFields : Finset Str := {lit "format", lit "database", lit "keyring"}

/-- The fields of a record. -/
def recordFields : Finset Str := {lit "name", lit "sha256"}

/-- `_manifest_without_duplicates`. -/
def manifestWithoutDuplicates (pairs : List (Str × Json)) : Except Error Json :=
  match Json.repeated? [] pairs with
  | some key => .error (.valueErrorAt "duplicate_backup_manifest_field" key)
  | none => .ok (.obj pairs)

/-- The exceptions of the decoder as `_verify_backup_directory` passes them on. A
`RecursionError` is neither an `OSError` nor a `ValueError`. -/
def manifestRaised : DecodeError → Error
  | .invalid => .valueError "backup_manifest_unreadable"
  | .overlongInteger =>
    .valueError "Exceeds the limit (4300 digits) for integer string conversion"
  | .recursion => .recursionError

/-- The value in the manifest. -/
def Manifest.value : Manifest → Except Error Json
  | unreadable => .error (.valueError "backup_manifest_unreadable")
  | undecodable message => .error (.valueError message)
  | text decoding => do
    let _ ← decoding.objects.mapM manifestWithoutDuplicates
    decoding.ending.mapError manifestRaised

/-- The shape of the manifest: its fields, and the number of its format. -/
def Manifest.members (manifest : Manifest) : Except Error (List (Str × Json)) := do
  let value ← manifest.value
  match value with
  | .obj members =>
    if (members.map Prod.fst).toFinset ≠ manifestFields then
      .error (.valueError "backup_manifest_invalid")
    else if (Json.member? members (lit "format")).all fun v => !v.equalsInt 1 then
      .error (.valueError "backup_manifest_invalid")
    else .ok members
  | _ => .error (.valueError "backup_manifest_invalid")

/-- The digest in a record of the manifest, if the record is one of the file `name`. -/
def recordedDigest (record : Json) (name : Str) : Option Str :=
  match record with
  | .obj members =>
    if (members.map Prod.fst).toFinset ≠ recordFields then none
    else
      match Json.member? members (lit "name"), Json.member? members (lit "sha256") with
      | some (.str recordName), some (.str sha256) =>
        if recordName = name && sha256.length = 64 then some sha256 else none
      | _, _ => none
  | _ => none

variable (H : HashLib)

/-- `_sha256`. -/
def Member.sha256 (m : Member) : Str := hexlify (H.sha256 m.bytes)

/-- One turn of the loop over the members. -/
def verifyMember (members : List (Str × Json)) (field : String) (name : Str) (m : Member) :
    Except Error Unit :=
  match (Json.member? members (lit field)).bind fun record => recordedDigest record name with
  | none => .error (.valueError "backup_manifest_invalid")
  | some recorded =>
    if !m.regular then .error (.valueError "backup_manifest_invalid")
    else do
      let same ← compareDigest (m.sha256 H) recorded
      if same then .ok () else .error (.valueError s!"backup_checksum_mismatch:{field}")

/-- `Store.referenced_hash_key_checks`. -/
def Ledger.referencedHashKeyChecks (db : Ledger) : Except Error (List (Str × Str)) :=
  if db.referenced.all fun kid => (db.checks db.referenced).any fun c => c.1 = kid then
    .ok (db.checks db.referenced)
  else .error .storeCorruptionError

/-- The loop over the checks. -/
def KeyRing.verifyChecks (k : KeyRing) : List (Str × Str) → Except Error Unit
  | [] => .ok ()
  | (kid, expected) :: checks =>
    match k.keyFor kid with
    | none => .error (.valueError "backup_keyring_mismatch")
    | some key => do
      let check ← keyCheck H key.val
      let same ← compareDigest check expected
      if same then KeyRing.verifyChecks k checks
      else .error (.valueError "backup_keyring_mismatch")

/-- `_verify_backup_directory`. It answers the files by their fields. -/
def BackupDirectory.verify (d : BackupDirectory) : Except Error (List (String × Str)) :=
  if !d.regular then .error (.valueError "backup_directory_not_regular")
  else do
    let members ← d.manifest.members
    verifyMember H members "database" databaseName d.database
    verifyMember H members "keyring" keyringName d.keyring
    if !(d.integral && d.ledger.restoreRequired) then
      .error (.valueError "backup_not_recovery_sealed")
    else do
      let checks ← d.ledger.referencedHashKeyChecks
      d.keys.verifyChecks H checks
      .ok [("database", databaseName), ("keyring", keyringName), ("manifest", manifestName)]

/-! ### Exceptions that escape -/

/-- An exception is raised that `main` does not report. -/
def Escapes {α : Type} (x : Except Error α) : Prop := ∃ e, x = .error e ∧ ¬ e.Reported

section Escapes

variable {α β : Type} {x : Except Error α} {f : α → Except Error β}

theorem not_escapes_ok {a : α} : ¬ Escapes (.ok a : Except Error α) := by
  rintro ⟨e, h, -⟩
  cases h

theorem not_escapes_valueError {code : String} :
    ¬ Escapes (.error (.valueError code) : Except Error α) := by
  rintro ⟨e, h, hreported⟩
  obtain rfl := Except.error.inj h
  exact hreported trivial

/-- A sequence lets an exception escape in its first part, or behind it. -/
theorem escapes_bind : Escapes (x >>= f) ↔ Escapes x ∨ ∃ a, x = .ok a ∧ Escapes (f a) := by
  constructor
  · rintro ⟨e, h, hreported⟩
    rcases except_bind_eq_error h with hx | ⟨a, hx, hf⟩
    · exact Or.inl ⟨e, hx, hreported⟩
    · exact Or.inr ⟨a, hx, e, hf, hreported⟩
  · rintro (⟨e, rfl, hreported⟩ | ⟨a, rfl, e, hf, hreported⟩)
    · exact ⟨e, rfl, hreported⟩
    · exact ⟨e, hf, hreported⟩

end Escapes

section Parts

variable {H}
variable {members : List (Str × Json)} {field : String} {name recorded : Str} {m : Member}

theorem isAscii_hexlify (b : Bytes) : (hexlify b).isAscii = true := by
  rw [Str.isAscii, List.all_eq_true]
  intro c hc
  obtain ⟨n, rfl⟩ := mem_hexlify hc
  have hdigit := hexDigit_cases n
  rw [decide_eq_true_eq]
  omega

theorem Member.isAscii_sha256 (m : Member) : (m.sha256 H).isAscii = true := isAscii_hexlify _

theorem compareDigest_ascii {a b : Str} (ha : a.isAscii = true) (hb : b.isAscii = true) :
    compareDigest a b = .ok (decide (a = b)) := by
  rw [compareDigest, if_pos (by rw [ha, hb]; rfl)]

theorem compareDigest_not_ascii {a b : Str} (hb : b.isAscii = false) :
    compareDigest a b = .error .typeError := by
  rw [compareDigest, if_neg (by simp [hb])]

/-! ### The manifest -/

/-- The decoder runs into the recursion limit before it meets a duplicate field. -/
def Manifest.TooDeep (manifest : Manifest) : Prop :=
  ∃ decoding, manifest = .text decoding ∧ decoding.ending = .error .recursion ∧
    ∀ pairs ∈ decoding.objects, (pairs.map Prod.fst).Nodup

theorem mapM_manifestWithoutDuplicates {objects : List (List (Str × Json))} :
    (∀ pairs ∈ objects, (pairs.map Prod.fst).Nodup) ↔
      ∃ values, objects.mapM manifestWithoutDuplicates = .ok values := by
  constructor
  · intro h
    cases hmap : objects.mapM manifestWithoutDuplicates with
    | ok values => exact ⟨values, rfl⟩
    | error e =>
      obtain ⟨pairs, hpairs, hraised⟩ := except_mapM_eq_error hmap
      rw [manifestWithoutDuplicates, Json.repeated?_nil_eq_none.mpr (h pairs hpairs)] at hraised
      cases hraised
  · rintro ⟨values, hvalues⟩ pairs hpairs
    obtain ⟨value, hvalue⟩ := except_mapM_ok_of_mem hvalues pairs hpairs
    rw [← Json.repeated?_nil_eq_none]
    rw [manifestWithoutDuplicates] at hvalue
    split at hvalue
    · cases hvalue
    · assumption

/-- A duplicate field is reported. -/
theorem not_escapes_withoutDuplicates {objects : List (List (Str × Json))} :
    ¬ Escapes (objects.mapM manifestWithoutDuplicates) := by
  rintro ⟨e, h, hreported⟩
  obtain ⟨pairs, -, hraised⟩ := except_mapM_eq_error h
  rw [manifestWithoutDuplicates] at hraised
  split at hraised
  · obtain rfl := Except.error.inj hraised
    exact hreported trivial
  · cases hraised

theorem escapes_manifestRaised {ending : Except DecodeError Json} :
    Escapes (ending.mapError manifestRaised) ↔ ending = .error .recursion := by
  cases ending with
  | ok value => exact iff_of_false not_escapes_ok (fun h => by cases h)
  | error e =>
    cases e with
    | invalid => exact iff_of_false not_escapes_valueError (fun h => by cases h)
    | overlongInteger => exact iff_of_false not_escapes_valueError (fun h => by cases h)
    | recursion => exact iff_of_true ⟨.recursionError, rfl, id⟩ rfl

theorem Manifest.escapes_value {manifest : Manifest} :
    Escapes manifest.value ↔ manifest.TooDeep := by
  cases manifest with
  | unreadable =>
    refine iff_of_false not_escapes_valueError ?_
    rintro ⟨decoding, h, -⟩
    cases h
  | undecodable message =>
    refine iff_of_false not_escapes_valueError ?_
    rintro ⟨decoding, h, -⟩
    cases h
  | text decoding =>
    rw [Manifest.value, escapes_bind]
    constructor
    · rintro (h | ⟨values, hvalues, h⟩)
      · exact absurd h not_escapes_withoutDuplicates
      · exact ⟨decoding, rfl, escapes_manifestRaised.mp h,
          mapM_manifestWithoutDuplicates.mpr ⟨values, hvalues⟩⟩
    · rintro ⟨_, h, hrecursion, hduplicates⟩
      obtain rfl := Manifest.text.inj h
      obtain ⟨values, hvalues⟩ := mapM_manifestWithoutDuplicates.mp hduplicates
      exact Or.inr ⟨values, hvalues, escapes_manifestRaised.mpr hrecursion⟩

/-- The manifest holds an object with exactly the expected fields and the format 1. -/
structure Manifest.Lists (manifest : Manifest) (members : List (Str × Json)) : Prop where
  value : manifest.value = .ok (.obj members)
  fields : (members.map Prod.fst).toFinset = manifestFields
  format : ∃ v, Json.member? members (lit "format") = some v ∧ v.equalsInt 1 = true

theorem Manifest.members_eq_ok {manifest : Manifest} :
    manifest.members = .ok members ↔ manifest.Lists members := by
  constructor
  · intro h
    obtain ⟨value, hvalue, h⟩ := except_bind_eq_ok h
    cases value with
    | obj ms =>
      dsimp only at h
      split_ifs at h with hfields hformat
      obtain rfl := Except.ok.inj h
      have hfields := not_not.mp hfields
      refine ⟨hvalue, hfields, ?_⟩
      cases hmember : Json.member? ms (lit "format") with
      | none => simp [hmember] at hformat
      | some v => exact ⟨v, rfl, by simpa [hmember] using hformat⟩
    | null => cases h
    | bool b => cases h
    | int n => cases h
    | float x => cases h
    | str s => cases h
    | arr items => cases h
  · rintro ⟨hvalue, hfields, v, hmember, hformat⟩
    rw [Manifest.members, hvalue, except_ok_bind]
    simp [hfields, hmember, hformat]

/-- The checks of the shape report everything that they refuse. -/
theorem Manifest.escapes_members {manifest : Manifest} :
    Escapes manifest.members ↔ manifest.TooDeep := by
  rw [Manifest.members, escapes_bind, Manifest.escapes_value, or_iff_left]
  rintro ⟨value, -, h⟩
  cases value with
  | obj ms =>
    dsimp only at h
    split_ifs at h
    · exact not_escapes_valueError h
    · exact not_escapes_valueError h
    · exact not_escapes_ok h
  | null => exact not_escapes_valueError h
  | bool b => exact not_escapes_valueError h
  | int n => exact not_escapes_valueError h
  | float x => exact not_escapes_valueError h
  | str s => exact not_escapes_valueError h
  | arr items => exact not_escapes_valueError h

/-! ### The members -/

/-- The manifest records a text of 64 characters as the digest of the file `name`. -/
def Records (members : List (Str × Json)) (field : String) (name recorded : Str) : Prop :=
  ∃ record, Json.member? members (lit field) = some (.obj record) ∧
    (record.map Prod.fst).toFinset = recordFields ∧
    Json.member? record (lit "name") = some (.str name) ∧
    Json.member? record (lit "sha256") = some (.str recorded) ∧ recorded.length = 64

theorem recordedDigest_eq_some {record : Json} : recordedDigest record name = some recorded ↔
    ∃ ms, record = .obj ms ∧ (ms.map Prod.fst).toFinset = recordFields ∧
      Json.member? ms (lit "name") = some (.str name) ∧
      Json.member? ms (lit "sha256") = some (.str recorded) ∧ recorded.length = 64 := by
  constructor
  · intro h
    unfold recordedDigest at h
    split at h
    · rename_i ms
      split_ifs at h with hfields
      split at h
      · rename_i recordName sha256 hname hsha256
        split_ifs at h with hboth
        obtain rfl := Option.some.inj h
        rw [Bool.and_eq_true, decide_eq_true_eq, decide_eq_true_eq] at hboth
        exact ⟨ms, rfl, not_not.mp hfields, hboth.1 ▸ hname, hsha256, hboth.2⟩
      · cases h
    · cases h
  · rintro ⟨ms, rfl, hfields, hname, hsha256, hlength⟩
    simp [recordedDigest, hfields, hname, hsha256, hlength]

theorem records_iff : Records members field name recorded ↔
    (Json.member? members (lit field)).bind (fun record => recordedDigest record name) =
      some recorded := by
  rw [Option.bind_eq_some_iff]
  constructor
  · rintro ⟨record, hrecord, hfacts⟩
    exact ⟨.obj record, hrecord, recordedDigest_eq_some.mpr ⟨record, rfl, hfacts⟩⟩
  · rintro ⟨_, hrecord, h⟩
    obtain ⟨ms, rfl, hfacts⟩ := recordedDigest_eq_some.mp h
    exact ⟨ms, hrecord, hfacts⟩

/-- What one turn does with a record and its regular file. -/
theorem verifyMember_of_records (h : Records members field name recorded)
    (hregular : m.regular = true) :
    verifyMember H members field name m = (do
      let same ← compareDigest (m.sha256 H) recorded
      if same then .ok () else .error (.valueError s!"backup_checksum_mismatch:{field}")) := by
  rw [verifyMember, records_iff.mp h]
  simp [hregular]

/-- Every other turn is refused. -/
theorem verifyMember_invalid
    (h : m.regular = true → ∀ recorded, ¬ Records members field name recorded) :
    verifyMember H members field name m = .error (.valueError "backup_manifest_invalid") := by
  rw [verifyMember]
  cases hdigest : (Json.member? members (lit field)).bind fun record =>
      recordedDigest record name with
  | none => rfl
  | some recorded =>
    have hirregular : m.regular = false := by
      by_contra hregular
      exact h (by simpa using hregular) recorded (records_iff.mpr hdigest)
    simp [hirregular]

/-- **A member is accepted** if and only if it is a regular file and the manifest records its
digest. -/
theorem verifyMember_eq_ok : verifyMember H members field name m = .ok () ↔
    m.regular = true ∧ Records members field name (m.sha256 H) := by
  by_cases h : m.regular = true ∧ ∃ recorded, Records members field name recorded
  · obtain ⟨hregular, recorded, hrecords⟩ := h
    rw [verifyMember_of_records hrecords hregular]
    cases hascii : recorded.isAscii with
    | false =>
      rw [compareDigest_not_ascii hascii]
      refine iff_of_false (fun h => by cases h) ?_
      rintro ⟨-, hdigest⟩
      have hsame := Option.some.inj ((records_iff.mp hrecords).symm.trans (records_iff.mp hdigest))
      rw [hsame, m.isAscii_sha256] at hascii
      cases hascii
    | true =>
      rw [compareDigest_ascii m.isAscii_sha256 hascii, except_ok_bind]
      by_cases hsame : m.sha256 H = recorded
      · exact iff_of_true (by simp [hsame]) ⟨hregular, hsame ▸ hrecords⟩
      · refine iff_of_false (by simp [hsame]) ?_
        rintro ⟨-, hdigest⟩
        have hboth := (records_iff.mp hdigest).symm.trans (records_iff.mp hrecords)
        exact hsame (Option.some.inj hboth)
  · rw [verifyMember_invalid fun hregular recorded hrecords => h ⟨hregular, recorded, hrecords⟩]
    exact iff_of_false (fun heq => by cases heq) fun hdigest => h ⟨hdigest.1, _, hdigest.2⟩

/-- **A comparison escapes** if and only if the recorded text is not ASCII. -/
theorem escapes_verifyMember : Escapes (verifyMember H members field name m) ↔
    m.regular = true ∧ ∃ recorded, Records members field name recorded ∧
      recorded.isAscii = false := by
  by_cases h : m.regular = true ∧ ∃ recorded, Records members field name recorded
  · obtain ⟨hregular, recorded, hrecords⟩ := h
    rw [verifyMember_of_records hrecords hregular]
    cases hascii : recorded.isAscii with
    | false =>
      rw [compareDigest_not_ascii hascii]
      exact iff_of_true ⟨.typeError, rfl, id⟩ ⟨hregular, recorded, hrecords, hascii⟩
    | true =>
      rw [compareDigest_ascii m.isAscii_sha256 hascii, except_ok_bind]
      refine iff_of_false (fun hescapes => ?_) ?_
      · split_ifs at hescapes
        · exact not_escapes_ok hescapes
        · exact not_escapes_valueError hescapes
      · rintro ⟨-, recorded', hrecords', hascii'⟩
        obtain rfl := Option.some.inj
          ((records_iff.mp hrecords).symm.trans (records_iff.mp hrecords'))
        rw [hascii] at hascii'
        cases hascii'
  · rw [verifyMember_invalid fun hregular recorded hrecords => h ⟨hregular, recorded, hrecords⟩]
    refine iff_of_false not_escapes_valueError ?_
    rintro ⟨hregular, recorded, hrecords, -⟩
    exact h ⟨hregular, recorded, hrecords⟩

/-! ### The checks -/

variable {db : Ledger} {k : KeyRing} {checks : List (Str × Str)}

theorem Ledger.referencedHashKeyChecks_eq_ok : db.referencedHashKeyChecks = .ok checks ↔
    checks = db.checks db.referenced ∧
      ∀ kid ∈ db.referenced, ∃ c ∈ db.checks db.referenced, c.1 = kid := by
  have hall : (db.referenced.all fun kid =>
      (db.checks db.referenced).any fun c => c.1 = kid) = true ↔
      ∀ kid ∈ db.referenced, ∃ c ∈ db.checks db.referenced, c.1 = kid := by
    simp only [List.all_eq_true, List.any_eq_true, decide_eq_true_eq]
  rw [Ledger.referencedHashKeyChecks]
  split_ifs with h
  · rw [Except.ok.injEq, eq_comm, and_iff_left (hall.mp h)]
  · exact iff_of_false (fun heq => by cases heq) fun hkids => h (hall.mpr hkids.2)

/-- An incomplete table of checks is reported. -/
theorem Ledger.not_escapes_referencedHashKeyChecks : ¬ Escapes db.referencedHashKeyChecks := by
  rintro ⟨e, h, hreported⟩
  rw [Ledger.referencedHashKeyChecks] at h
  split_ifs at h
  obtain rfl := Except.error.inj h
  exact hreported trivial

theorem isAscii_of_keyCheck {key : RootKey} {check : Str} (h : keyCheck H key.val = .ok check) :
    check.isAscii = true := by
  obtain ⟨derivedKey, -, h⟩ := except_bind_eq_ok h
  obtain rfl := Except.ok.inj h
  exact isAscii_hexlify _

/-- A check is that of the key with the key id. -/
theorem KeyRing.matches_iff {c : Str × Str} {key : RootKey} {check : Str}
    (hkey : k.keyFor c.1 = some key) (hcheck : keyCheck H key.val = .ok check) :
    k.Matches H c ↔ check = c.2 := by
  constructor
  · rintro ⟨key', hkey', hcheck'⟩
    obtain rfl := Option.some.inj (hkey.symm.trans hkey')
    exact Except.ok.inj (hcheck.symm.trans hcheck')
  · rintro rfl
    exact ⟨key, hkey, hcheck⟩

theorem KeyRing.not_matches {c : Str × Str} (hkey : k.keyFor c.1 = none) : ¬ k.Matches H c := by
  rintro ⟨key, hkey', -⟩
  cases hkey.symm.trans hkey'

theorem verifyChecks_cons_none {c : Str × Str} (hkey : k.keyFor c.1 = none) :
    k.verifyChecks H (c :: checks) = .error (.valueError "backup_keyring_mismatch") := by
  rw [KeyRing.verifyChecks, hkey]

/-- One turn of the loop over the checks. -/
theorem verifyChecks_cons_some {c : Str × Str} {key : RootKey} {check : Str}
    (hkey : k.keyFor c.1 = some key) (hcheck : keyCheck H key.val = .ok check) :
    k.verifyChecks H (c :: checks) =
      if c.2.isAscii = false then .error .typeError
      else if check = c.2 then k.verifyChecks H checks
      else .error (.valueError "backup_keyring_mismatch") := by
  rw [KeyRing.verifyChecks, hkey]
  dsimp only
  rw [hcheck, except_ok_bind]
  by_cases hascii : c.2.isAscii = false
  · rw [compareDigest_not_ascii hascii, if_pos hascii, except_error_bind]
  · have hcompared : compareDigest check c.2 = .ok (decide (check = c.2)) :=
      compareDigest_ascii (isAscii_of_keyCheck hcheck) (by simpa using hascii)
    rw [hcompared, if_neg hascii, except_ok_bind]
    simp only [decide_eq_true_eq]

/-- **The keys are accepted** if and only if every check is that of the key. -/
theorem verifyChecks_eq_ok :
    k.verifyChecks H checks = .ok () ↔ ∀ c ∈ checks, k.Matches H c := by
  induction checks with
  | nil => exact iff_of_true rfl fun c hc => by cases hc
  | cons c checks ih =>
    rw [List.forall_mem_cons]
    cases hkey : k.keyFor c.1 with
    | none =>
      rw [verifyChecks_cons_none hkey]
      exact iff_of_false (fun h => by cases h) fun h => KeyRing.not_matches hkey h.1
    | some key =>
      obtain ⟨check, hcheck⟩ := exists_keyCheck (H := H) key
      rw [verifyChecks_cons_some hkey hcheck, KeyRing.matches_iff hkey hcheck, ← ih]
      split_ifs with hascii hsame
      · refine iff_of_false (fun h => by cases h) fun h => ?_
        rw [← h.1, isAscii_of_keyCheck hcheck] at hascii
        cases hascii
      · exact (and_iff_right hsame).symm
      · exact iff_of_false (fun h => by cases h) fun h => hsame h.1

/-- The first item of a list at which `Q` holds, behind items with `P`. -/
private theorem exists_split_cons {α : Type} {P Q : α → Prop} {a : α} {l : List α} :
    (∃ pre c post, a :: l = pre ++ c :: post ∧ (∀ c' ∈ pre, P c') ∧ Q c) ↔
      Q a ∨ P a ∧ ∃ pre c post, l = pre ++ c :: post ∧ (∀ c' ∈ pre, P c') ∧ Q c := by
  constructor
  · rintro ⟨pre, c, post, heq, hpre, hc⟩
    cases pre with
    | nil =>
      obtain ⟨rfl, -⟩ := List.cons.inj heq
      exact Or.inl hc
    | cons a' pre =>
      obtain ⟨rfl, htail⟩ := List.cons.inj heq
      obtain ⟨ha, hpre⟩ := List.forall_mem_cons.mp hpre
      exact Or.inr ⟨ha, pre, c, post, htail, hpre, hc⟩
  · rintro (ha | ⟨ha, pre, c, post, rfl, hpre, hc⟩)
    · exact ⟨[], a, l, rfl, fun _ h => (by cases h), ha⟩
    · exact ⟨a :: pre, c, post, rfl, List.forall_mem_cons.mpr ⟨ha, hpre⟩, hc⟩

/-- What stands before an item of an ordered list is what is smaller. -/
private theorem exists_split_iff_of_pairwise {α β : Type} [LinearOrder β] {f : α → β} {l : List α}
    {P Q : α → Prop} (hl : l.Pairwise fun c c' => f c < f c') :
    (∃ pre c post, l = pre ++ c :: post ∧ (∀ c' ∈ pre, P c') ∧ Q c) ↔
      ∃ c ∈ l, (∀ c' ∈ l, f c' < f c → P c') ∧ Q c := by
  constructor
  · rintro ⟨pre, c, post, rfl, hpre, hc⟩
    refine ⟨c, by simp, fun c' hc' hlt => ?_, hc⟩
    obtain ⟨-, hpost, -⟩ := List.pairwise_append.mp hl
    rcases List.mem_append.mp hc' with hc' | hc'
    · exact hpre c' hc'
    rcases List.mem_cons.mp hc' with rfl | hc'
    · exact absurd hlt (lt_irrefl _)
    · exact absurd hlt (lt_asymm ((List.pairwise_cons.mp hpost).1 c' hc'))
  · rintro ⟨c, hc, hbefore, hq⟩
    obtain ⟨pre, post, rfl⟩ := List.append_of_mem hc
    have hsmaller := (List.pairwise_append.mp hl).2.2
    exact ⟨pre, c, post, rfl, fun c' hc' => hbefore c' (List.mem_append_left _ hc')
      (hsmaller c' hc' c List.mem_cons_self), hq⟩

/-- **A comparison of checks escapes** if and only if every check before it is that of its key,
its key id has a key and the recorded check is not ASCII. -/
theorem escapes_verifyChecks : Escapes (k.verifyChecks H checks) ↔
    ∃ pre c post, checks = pre ++ c :: post ∧ (∀ c' ∈ pre, k.Matches H c') ∧
      (k.keyFor c.1).isSome ∧ c.2.isAscii = false := by
  induction checks with
  | nil =>
    refine iff_of_false not_escapes_ok ?_
    rintro ⟨pre, c, post, heq, -⟩
    exact absurd heq.symm (List.append_ne_nil_of_right_ne_nil pre (List.cons_ne_nil c post))
  | cons c checks ih =>
    rw [exists_split_cons, ← ih]
    cases hkey : k.keyFor c.1 with
    | none =>
      rw [verifyChecks_cons_none hkey]
      refine iff_of_false not_escapes_valueError ?_
      rintro (⟨hsome, -⟩ | ⟨hmatches, -⟩)
      · cases hsome
      · exact KeyRing.not_matches hkey hmatches
    | some key =>
      obtain ⟨check, hcheck⟩ := exists_keyCheck (H := H) key
      rw [verifyChecks_cons_some hkey hcheck, KeyRing.matches_iff hkey hcheck]
      by_cases hascii : c.2.isAscii = false
      · rw [if_pos hascii]
        exact iff_of_true ⟨.typeError, rfl, id⟩ (Or.inl ⟨rfl, hascii⟩)
      · rw [if_neg hascii, or_iff_right fun h => hascii h.2]
        by_cases hsame : check = c.2
        · rw [if_pos hsame, and_iff_right hsame]
        · rw [if_neg hsame]
          exact iff_of_false not_escapes_valueError fun h => hsame h.1

/-- The checks of a ledger are compared in the order of their key ids. -/
theorem escapes_verifyChecks_checks {kids : List Str} :
    Escapes (k.verifyChecks H (db.checks kids)) ↔ ∃ c ∈ db.checks kids,
      (∀ c' ∈ db.checks kids, c'.1 < c.1 → k.Matches H c') ∧
        (k.keyFor c.1).isSome ∧ c.2.isAscii = false :=
  escapes_verifyChecks.trans (exists_split_iff_of_pairwise (db.checks_pairwise kids))

end Parts

end Onceproof

import Onceproof.Keyring
import Onceproof.Lib.Base64
import Onceproof.Lib.Json
import Mathlib.Data.Finset.Sort
import Mathlib.Data.List.Lex

/-!
# The keyring file

What `KeyRing.load` makes of the JSON value in the keyring file, and the value that the keyring
writes. A file may hold any value: the parser asks of a key id only that it begins with `hk_`.

* `KeyRing.parsePayload`: `_parse_payload`.
* `parsePayload_persist_serializedPayload`: a written generation is read back.
-/

namespace Onceproof

/-- `value == n` in Python: booleans and floats compare as numbers. -/
def Json.equalsInt (v : Json) (n : ℤ) : Bool :=
  match v with
  | .int m => m = n
  | .bool b => (if b then 1 else 0) = n
  | .float (.finite q) => q = n
  | _ => false

/-- `sorted`, of a set of texts. -/
def sortedTexts (texts : Finset Str) : List Str := texts.sort (· ≤ ·)

namespace KeyRing

/-- `_KEYRING_VERSION`. -/
def keyringVersion : ℤ := 1

/-- `_TOP_LEVEL_FIELDS`. -/
def topLevelFields : Finset Str := {lit "version", lit "current_kid", lit "keys"}

/-- `_encode_key`. -/
def encodeKey (key : RootKey) : Str := base64url key.val

/-- `_decode_key`. -/
def decodeKey (value : Str) : Except Error RootKey :=
  match base64Decode (value ++ base64Padding value) with
  | none => .error (.valueError "invalid_key_encoding")
  | some key =>
    if h : key.length = 32 then .ok ⟨key, h⟩
    else .error (.valueError "invalid_key_length")

/-- An id of a key as the parser accepts it. -/
def isKid (kid : Str) : Bool := (lit "hk_").isPrefixOf kid

/-- One entry of `keys` in `_parse_payload`. -/
def parseEntry (entry : Str × Json) : Except Error (Σ _ : Str, RootKey) :=
  if !isKid entry.1 then .error (.valueError "invalid_kid")
  else
    match entry.2 with
    | .str encodedKey => do
      let key ← decodeKey encodedKey
      .ok ⟨entry.1, key⟩
    | _ => .error (.valueError "invalid_key_encoding")

/-- `_parse_payload`. -/
def parsePayload (value : Json) : Except Error KeyRing :=
  match value with
  | .obj members =>
    if (members.map Prod.fst).toFinset ≠ topLevelFields then
      .error (.valueError "invalid_keyring_shape")
    else if (Json.member? members (lit "version")).all fun v => !v.equalsInt keyringVersion then
      .error (.valueError "unsupported_keyring_version")
    else
      match Json.member? members (lit "current_kid") with
      | some (.str currentKid) =>
        if !isKid currentKid then .error (.valueError "invalid_current_kid")
        else
          match Json.member? members (lit "keys") with
          | some (.obj encodedKeys) =>
            if encodedKeys = [] then .error (.valueError "empty_keyring")
            else do
              let keys ← encodedKeys.mapM parseEntry
              if h : currentKid ∈ keys.toFinmap then .ok ⟨currentKid, keys.toFinmap, h⟩
              else .error (.valueError "current_key_missing")
          | _ => .error (.valueError "empty_keyring")
      | _ => .error (.valueError "invalid_current_kid")
  | _ => .error (.valueError "invalid_keyring_shape")

mutual

/-- The field at which `_object_without_duplicates` stops, which gets the inner objects of the
value first. -/
def duplicate? : Json → Option Str
  | .obj members => (duplicateOfMembers? members).or (Json.repeated? [] members)
  | .arr items => duplicateOfItems? items
  | _ => none

/-- `duplicate?` on the items of an array. -/
def duplicateOfItems? : List Json → Option Str
  | [] => none
  | v :: vs => (duplicate? v).or (duplicateOfItems? vs)

/-- `duplicate?` on the members of an object. -/
def duplicateOfMembers? : List (Str × Json) → Option Str
  | [] => none
  | (_, v) :: ms => (duplicate? v).or (duplicateOfMembers? ms)

end

/-- `_read_payload` on the JSON value of the file. -/
def readPayload (value : Json) : Except Error KeyRing :=
  match duplicate? value with
  | some field => .error (.valueErrorAt "duplicate_keyring_field" field)
  | none => parsePayload value

/-- The ids of the keys in order. -/
def sortedKids (k : KeyRing) : List Str := sortedTexts k.keys.keys

/-- `sorted(keys.items())`. -/
def entries (k : KeyRing) : List (Str × RootKey) :=
  k.sortedKids.filterMap fun kid => (k.keyFor kid).map fun key => (kid, key)

/-- Entries as the payload holds them. -/
def writtenEntries (l : List (Str × RootKey)) : List (Str × Json) :=
  l.map fun e => (e.1, .str (encodeKey e.2))

/-- The payload of `_serialized_payload`, before it is written as text. -/
def serializedPayload (k : KeyRing) : Json :=
  .obj [(lit "current_kid", .str k.currentKid),
    (lit "keys", .obj (writtenEntries k.entries)),
    (lit "version", .int keyringVersion)]

/-! ### What is read -/

/-- A value that is read holds a current id and the entries of the keys. -/
theorem parsePayload_eq_ok {v : Json} {k : KeyRing} (h : parsePayload v = .ok k) :
    ∃ members encodedKeys keys, v = .obj members ∧
      Json.member? members (lit "current_kid") = some (.str k.currentKid) ∧
      Json.member? members (lit "keys") = some (.obj encodedKeys) ∧
      isKid k.currentKid = true ∧ encodedKeys.mapM parseEntry = .ok keys ∧
      k.keys = keys.toFinmap := by
  unfold parsePayload at h
  split at h
  · next members =>
    split_ifs at h
    split at h
    · next currentKid hcurrent =>
      split_ifs at h with hkid
      split at h
      · next encodedKeys hkeys =>
        split_ifs at h
        cases hparsed : encodedKeys.mapM parseEntry with
        | error e => simp [hparsed] at h
        | ok keys =>
          simp only [hparsed, except_ok_bind] at h
          split_ifs at h
          obtain rfl := Except.ok.inj h
          exact ⟨members, encodedKeys, keys, rfl, hcurrent, hkeys, by simpa using hkid,
            hparsed, rfl⟩
      · cases h
    · cases h
  · cases h

/-- Reading asks nothing else of a value without duplicates. -/
theorem readPayload_eq_ok {v : Json} {k : KeyRing} :
    readPayload v = .ok k ↔ duplicate? v = none ∧ parsePayload v = .ok k := by
  unfold readPayload
  cases duplicate? v <;> simp

/-- The name of a parsed entry is the name in the payload, and begins with `hk_`. -/
theorem mem_of_mapM_parseEntry : ∀ {encodedKeys : List (Str × Json)}
    {keys : List (Σ _ : Str, RootKey)}, encodedKeys.mapM parseEntry = .ok keys →
    ∀ key ∈ keys, isKid key.1 = true ∧ ∃ v, (key.1, v) ∈ encodedKeys
  | [], keys, h => by
    obtain rfl : [] = keys := by simpa using h
    simp
  | e :: l, keys, h => by
    rw [List.mapM_cons] at h
    cases hhead : parseEntry e with
    | error err => simp [hhead] at h
    | ok head =>
      cases hrest : l.mapM parseEntry with
      | error err => simp [hhead, hrest] at h
      | ok rest =>
        obtain rfl : head :: rest = keys := by simpa [hhead, hrest] using h
        refine List.forall_mem_cons.mpr ⟨?_, fun key hkey => ?_⟩
        · unfold parseEntry at hhead
          split_ifs at hhead with hkid
          split at hhead
          · next encodedKey hstr =>
            cases hdecode : decodeKey encodedKey with
            | error err => simp [hdecode] at hhead
            | ok key =>
              simp only [hdecode, except_ok_bind, Except.ok.injEq] at hhead
              rw [← hhead]
              exact ⟨by simpa using hkid, e.2, List.mem_cons_self⟩
          · cases hhead
        · obtain ⟨hkid, v, hv⟩ := mem_of_mapM_parseEntry hrest key hkey
          exact ⟨hkid, v, List.mem_cons_of_mem e hv⟩

/-- The ids in a value that is parsed begin with `hk_`. -/
theorem isKid_of_parsePayload {v : Json} {k : KeyRing} (h : parsePayload v = .ok k) :
    ∀ kid ∈ k.keys, isKid kid = true := by
  obtain ⟨_, _, keys, _, _, _, _, hparsed, hk⟩ := parsePayload_eq_ok h
  intro kid hkid
  rw [hk] at hkid
  obtain ⟨key, hkey⟩ := (Finmap.mem_list_toFinmap kid keys).mp hkid
  exact (mem_of_mapM_parseEntry hparsed _ hkey).1

theorem decodeKey_error {value : Str} {e : Error} (h : decodeKey value = .error e) :
    ∃ message, e = .valueError message := by
  unfold decodeKey at h
  split at h
  · exact ⟨_, (Except.error.inj h).symm⟩
  · split_ifs at h
    exact ⟨_, (Except.error.inj h).symm⟩

theorem parseEntry_error {entry : Str × Json} {e : Error} (h : parseEntry entry = .error e) :
    ∃ message, e = .valueError message := by
  unfold parseEntry at h
  split_ifs at h
  · exact ⟨_, (Except.error.inj h).symm⟩
  · split at h
    · next encodedKey _ =>
      cases hdecode : decodeKey encodedKey with
      | ok key => simp [hdecode] at h
      | error e' =>
        obtain rfl : e' = e := by simpa [hdecode] using h
        exact decodeKey_error hdecode
    · exact ⟨_, (Except.error.inj h).symm⟩

theorem mapM_parseEntry_error : ∀ {encodedKeys : List (Str × Json)} {e : Error},
    encodedKeys.mapM parseEntry = .error e → ∃ message, e = .valueError message
  | [], e, h => by cases h
  | entry :: l, e, h => by
    rw [List.mapM_cons] at h
    cases hhead : parseEntry entry with
    | error e' =>
      obtain rfl : e' = e := by simpa [hhead] using h
      exact parseEntry_error hhead
    | ok head =>
      cases hrest : l.mapM parseEntry with
      | error e' =>
        obtain rfl : e' = e := by simpa [hhead, hrest] using h
        exact mapM_parseEntry_error hrest
      | ok rest => simp [hhead, hrest] at h

/-- **A value that is not accepted** raises a `ValueError`. -/
theorem parsePayload_error {v : Json} {e : Error} (h : parsePayload v = .error e) :
    ∃ message, e = .valueError message := by
  unfold parsePayload at h
  split at h
  · split_ifs at h
    · exact ⟨_, (Except.error.inj h).symm⟩
    · exact ⟨_, (Except.error.inj h).symm⟩
    · split at h
      · split_ifs at h
        · exact ⟨_, (Except.error.inj h).symm⟩
        · split at h
          · next encodedKeys _ =>
            split_ifs at h
            · exact ⟨_, (Except.error.inj h).symm⟩
            · cases hparsed : encodedKeys.mapM parseEntry with
              | error e' =>
                obtain rfl : e' = e := by simpa [hparsed] using h
                exact mapM_parseEntry_error hparsed
              | ok keys =>
                simp only [hparsed, except_ok_bind] at h
                split_ifs at h
                exact ⟨_, (Except.error.inj h).symm⟩
          · exact ⟨_, (Except.error.inj h).symm⟩
      · exact ⟨_, (Except.error.inj h).symm⟩
  · exact ⟨_, (Except.error.inj h).symm⟩

/-! ### What is written is read back -/

/-- The ids of a keyring begin with `hk_` and hold no pair of surrogates, which a JSON text
would join. The ids that are generated, and those that were read, are of this kind. -/
def WellNamed (k : KeyRing) : Prop := ∀ kid ∈ k.keys, isKid kid = true ∧ ¬ kid.HasPair

/-- Ids in hexadecimal are well formed. -/
theorem isKid_hexlify (b : Bytes) :
    isKid (lit "hk_" ++ hexlify b) = true ∧ ¬ Str.HasPair (lit "hk_" ++ hexlify b) := by
  refine ⟨by simp [isKid], ?_⟩
  rintro ⟨a, hi, lo, c, hs, hhi, -⟩
  have hencodable : Str.encodable (lit "hk_" ++ hexlify b) = true := by
    simp [encodable_hexlify]
  have hmem := List.all_eq_true.mp hencodable hi (by rw [hs]; simp)
  simp only [CodePoint.isHigh, CodePoint.isSurrogate, Bool.and_eq_true, decide_eq_true_eq,
    Bool.not_eq_true', Bool.and_eq_false_iff, decide_eq_false_iff_not] at hhi hmem
  omega

theorem wellNamed_created {kid : Str} (key : RootKey) (hkid : isKid kid = true ∧ ¬ kid.HasPair) :
    (created kid key).WellNamed := by
  intro kid' hmem
  rw [(Finmap.mem_singleton _ _ _).mp hmem]
  exact hkid

theorem WellNamed.rotated {k : KeyRing} (h : k.WellNamed) {kid : Str} {key : RootKey}
    (hkid : isKid kid = true ∧ ¬ kid.HasPair) : (k.rotated kid key).WellNamed := by
  intro kid' hmem
  rcases Finmap.mem_insert.mp hmem with rfl | hmem
  · exact hkid
  · exact h kid' hmem

theorem WellNamed.retired {k : KeyRing} (h : k.WellNamed) {kid : Str}
    (hkid : kid ≠ k.currentKid) : (k.retired kid hkid).WellNamed :=
  fun kid' hmem => h kid' (Finmap.mem_erase.mp hmem).2

private theorem mem_persistMembers {members : List (Str × Json)}
    (h : Json.persistMembers members = members) :
    ∀ m ∈ members, m.1.joinSurrogates = m.1 ∧ m.2.persist = m.2 := by
  induction members with
  | nil => simp
  | cons m ms ih =>
    rw [Json.persistMembers] at h
    obtain ⟨hm, hms⟩ := List.cons.inj h
    obtain ⟨hkey, hvalue⟩ := Prod.mk.inj hm
    exact List.forall_mem_cons.mpr ⟨⟨hkey, hvalue⟩, ih hms⟩

/-- What is read from a JSON text is well named. -/
theorem wellNamed_of_readPayload {document : Json.Document} {k : KeyRing}
    (h : readPayload document.value = .ok k) : k.WellNamed := by
  obtain ⟨members, encodedKeys, keys, hvalue, -, hkeys, -, hparsed, hk⟩ :=
    parsePayload_eq_ok (readPayload_eq_ok.mp h).2
  have hmembers : Json.persistMembers members = members := by
    have hread := document.persist_value
    rw [hvalue, Json.persist] at hread
    exact Json.obj.inj hread
  have hencoded : Json.persistMembers encodedKeys = encodedKeys := by
    rw [Json.member?, Option.map_eq_some_iff] at hkeys
    obtain ⟨m, hm, hobj⟩ := hkeys
    have hread := (mem_persistMembers hmembers m (List.mem_of_find?_eq_some hm)).2
    rw [hobj, Json.persist] at hread
    exact Json.obj.inj hread
  intro kid hkid
  rw [hk] at hkid
  obtain ⟨key, hkey⟩ := (Finmap.mem_list_toFinmap kid keys).mp hkid
  obtain ⟨hname, v, hv⟩ := mem_of_mapM_parseEntry hparsed _ hkey
  refine ⟨hname, fun hpair => ?_⟩
  have hjoin := (mem_persistMembers hencoded _ hv).1
  have hnone := Str.not_hasPair_joinSurrogates kid
  rw [hjoin] at hnone
  exact hnone hpair

theorem mem_entries {k : KeyRing} {e : Str × RootKey} :
    e ∈ k.entries ↔ k.keyFor e.1 = some e.2 := by
  simp only [entries, sortedKids, sortedTexts, List.mem_filterMap, Finset.mem_sort,
    Option.map_eq_some_iff]
  constructor
  · rintro ⟨kid, -, key, hkey, rfl⟩
    exact hkey
  · intro h
    exact ⟨e.1, Finmap.mem_keys.mpr (Finmap.mem_of_lookup_eq_some h), e.2, h, rfl⟩

theorem map_fst_entries (k : KeyRing) : k.entries.map Prod.fst = k.sortedKids := by
  have hall : ∀ kids : List Str, (∀ kid ∈ kids, kid ∈ k.keys) →
      (kids.filterMap fun kid => (k.keyFor kid).map fun key => (kid, key)).map Prod.fst =
        kids := by
    intro kids hkids
    induction kids with
    | nil => rfl
    | cons kid kids ih =>
      obtain ⟨hkid, hkids⟩ := List.forall_mem_cons.mp hkids
      obtain ⟨key, hkey⟩ := Option.isSome_iff_exists.mp (Finmap.lookup_isSome.mpr hkid)
      have hkey : k.keyFor kid = some key := hkey
      rw [List.filterMap_cons_some (b := (kid, key)) (by rw [hkey]; rfl), List.map_cons,
        ih hkids]
  refine hall k.sortedKids fun kid hkid => ?_
  rwa [sortedKids, sortedTexts, Finset.mem_sort, Finmap.mem_keys] at hkid

theorem decodeKey_encodeKey (key : RootKey) : decodeKey (encodeKey key) = .ok key := by
  unfold decodeKey encodeKey
  rw [base64Decode_base64url]
  simp [key.property]

/-- The entries make up the keys. -/
theorem toFinmap_entries (k : KeyRing) :
    (k.entries.map fun e => (⟨e.1, e.2⟩ : Σ _ : Str, RootKey)).toFinmap = k.keys := by
  have hnodup : (k.entries.map fun e => (⟨e.1, e.2⟩ : Σ _ : Str, RootKey)).NodupKeys := by
    have hkeys : (k.entries.map fun e => (⟨e.1, e.2⟩ : Σ _ : Str, RootKey)).keys =
        k.sortedKids := by
      rw [← map_fst_entries, List.keys, List.map_map]
      rfl
    rw [List.NodupKeys, hkeys]
    exact Finset.sort_nodup _ _
  refine Finmap.ext_lookup fun kid => Option.ext fun key => ?_
  rw [Finmap.dlookup_list_toFinmap]
  refine (List.mem_dlookup_iff hnodup).trans (List.mem_map.trans ?_)
  constructor
  · rintro ⟨e, he, heq⟩
    cases heq
    exact mem_entries.mp he
  · intro h
    exact ⟨(kid, key), mem_entries.mpr h, rfl⟩

section Written

variable {l : List (Str × RootKey)}

theorem map_fst_writtenEntries (l : List (Str × RootKey)) :
    (writtenEntries l).map Prod.fst = l.map Prod.fst := by
  rw [writtenEntries, List.map_map]
  rfl

/-- Written entries are parsed. -/
theorem mapM_parseEntry_writtenEntries (h : ∀ e ∈ l, isKid e.1 = true) :
    (writtenEntries l).mapM parseEntry = .ok (l.map fun e => ⟨e.1, e.2⟩) := by
  induction l with
  | nil => rfl
  | cons e l ih =>
    obtain ⟨he, hl⟩ := List.forall_mem_cons.mp h
    have hhead : parseEntry (e.1, Json.str (encodeKey e.2)) = .ok ⟨e.1, e.2⟩ := by
      simp [parseEntry, he, decodeKey_encodeKey]
    have hcons : writtenEntries (e :: l) =
        (e.1, Json.str (encodeKey e.2)) :: writtenEntries l := rfl
    simp [hcons, List.mapM_cons, hhead, ih hl]

/-- Written entries are read as they are. -/
theorem persistMembers_writtenEntries (h : ∀ e ∈ l, ¬ e.1.HasPair) :
    Json.persistMembers (writtenEntries l) = writtenEntries l := by
  induction l with
  | nil => rfl
  | cons e l ih =>
    obtain ⟨he, hl⟩ := List.forall_mem_cons.mp h
    have hcons : writtenEntries (e :: l) =
        (e.1, Json.str (encodeKey e.2)) :: writtenEntries l := rfl
    rw [hcons, Json.persistMembers, Json.persist, Str.joinSurrogates_of_not_hasPair he, encodeKey,
      Str.joinSurrogates_of_encodable (encodable_base64url _), ih hl]

theorem duplicateOfMembers?_writtenEntries (l : List (Str × RootKey)) :
    duplicateOfMembers? (writtenEntries l) = none := by
  induction l with
  | nil => rfl
  | cons e l ih => simpa [writtenEntries, duplicateOfMembers?, duplicate?] using ih

end Written

/-- The ids of a keyring begin with `hk_`. -/
def Prefixed (k : KeyRing) : Prop := ∀ kid ∈ k.keys, isKid kid = true

theorem WellNamed.prefixed {k : KeyRing} (h : k.WellNamed) : k.Prefixed :=
  fun kid hkid => (h kid hkid).1

/-- **A payload is parsed** into the generation that it was made of. -/
theorem parsePayload_serializedPayload {k : KeyRing} (h : k.Prefixed) :
    parsePayload k.serializedPayload = .ok k := by
  have hkids : ∀ e ∈ k.entries, isKid e.1 = true := fun e he =>
    h e.1 (Finmap.mem_of_lookup_eq_some (mem_entries.mp he))
  have hne : writtenEntries k.entries ≠ [] := by
    obtain ⟨key, hkey⟩ := Option.isSome_iff_exists.mp k.isSome_keyFor_currentKid
    have hmem : (k.currentKid, key) ∈ k.entries := mem_entries.mpr hkey
    rw [writtenEntries, ne_eq, List.map_eq_nil_iff]
    exact List.ne_nil_of_mem hmem
  have hshape : ([lit "current_kid", lit "keys", lit "version"] : List Str).toFinset =
      topLevelFields := by decide
  have hversion : ∀ a b : Json, Json.member? [(lit "current_kid", a), (lit "keys", b),
      (lit "version", .int keyringVersion)] (lit "version") = some (.int keyringVersion) := by
    intro a b
    simp [Json.member?]
  have hcurrent : ∀ a b c : Json, Json.member? [(lit "current_kid", a), (lit "keys", b),
      (lit "version", c)] (lit "current_kid") = some a := by
    intro a b c
    simp [Json.member?]
  have hkeys : ∀ a b c : Json, Json.member? [(lit "current_kid", a), (lit "keys", b),
      (lit "version", c)] (lit "keys") = some b := by
    intro a b c
    simp [Json.member?]
  simp only [serializedPayload, parsePayload, List.map_cons, List.map_nil, hshape, hversion,
    hcurrent, hkeys, h _ k.current_mem, hne, mapM_parseEntry_writtenEntries hkids,
    except_ok_bind, toFinmap_entries, dif_pos k.current_mem]
  simp [Json.equalsInt]

/-- **A written generation is read back.** -/
theorem readPayload_persist_serializedPayload {k : KeyRing} (h : k.WellNamed) :
    readPayload (Json.persist k.serializedPayload) = .ok k := by
  have hkids : ∀ e ∈ k.entries, ¬ e.1.HasPair := fun e he =>
    (h e.1 (Finmap.mem_of_lookup_eq_some (mem_entries.mp he))).2
  have hfile : Json.persist k.serializedPayload = k.serializedPayload := by
    simp only [serializedPayload, Json.persist, Json.persistMembers,
      persistMembers_writtenEntries hkids, Str.joinSurrogates_of_encodable (encodable_lit _),
      Str.joinSurrogates_of_not_hasPair (h _ k.current_mem).2]
  have hduplicates : duplicate? k.serializedPayload = none := by
    have hnodup : Json.repeated? [] (writtenEntries k.entries) = none := by
      rw [Json.repeated?_nil_eq_none, map_fst_writtenEntries, map_fst_entries]
      exact Finset.sort_nodup _ _
    have hfields : ∀ a b c : Json, Json.repeated? [] [(lit "current_kid", a), (lit "keys", b),
        (lit "version", c)] = none := by
      have hnodup : [lit "current_kid", lit "keys", lit "version"].Nodup := by decide
      exact fun a b c => Json.repeated?_nil_eq_none.mpr hnodup
    simp only [serializedPayload, duplicate?, duplicateOfMembers?, hnodup,
      duplicateOfMembers?_writtenEntries, hfields]
    rfl
  rw [hfile, readPayload_eq_ok]
  exact ⟨hduplicates, parsePayload_serializedPayload h.prefixed⟩

end KeyRing

end Onceproof

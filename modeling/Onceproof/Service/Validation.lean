import Onceproof.Store.Schema
import Onceproof.Crypto
import Onceproof.Lib.Json
import Onceproof.Lib.Regex
import Mathlib.Data.List.TakeWhile

/-!
# Validation of requests

The validators of the service over arbitrary values, the fingerprint of a verification
request, and the parsers of secrets and proofs.

* `proof_of_requestFingerprint`: equal fingerprints come from equal proofs.
* `proofKid_token`: the key id is read back from a proof that was built with it.
-/

namespace Onceproof

/-! ### Fields -/

/-- `f"invalid_{field}"`. -/
def invalid (field : String) : Error := .valueError ("invalid_" ++ field)

/-- `_text`. -/
def Service.text (value : Json) (field : String) (maximum : ℕ) : Except Error Str :=
  match value with
  | .str s =>
    if s = [] ∨ maximum < s.length then .error (invalid field)
    else if s.any (fun c => c.val < 32) then .error (invalid field)
    else .ok s
  | _ => .error (invalid field)

/-- `_PURPOSE_PATTERN`, the same text as `_IDEMPOTENCY_PATTERN`. -/
def purposePattern : Regex :=
  .seq (.cls Regex.alnum)
    (Regex.upTo (.cls fun c => Regex.alnum c || (lit "._:-").contains c) 127)

/-- `_AUDIENCE_PATTERN`. -/
def audiencePattern : Regex :=
  .alt
    (.seq (Regex.text "https://")
      (.seq (Regex.plus (.cls fun c => !(lit "/?#").contains c && !Regex.space c))
        (Regex.opt (.seq (.cls fun c => (lit "/?#").contains c)
          (.star (.cls fun c => !Regex.space c))))))
    (.seq (Regex.text "urn:") (Regex.plus (.cls fun c => !Regex.space c)))

/-- `_purpose`. -/
def Service.purpose (value : Json) : Except Error Str :=
  match value with
  | .str s => if purposePattern.fullmatch s then .ok s else .error (invalid "purpose")
  | _ => .error (invalid "purpose")

def maxSubjectLength : ℕ := 256
def maxAudienceLength : ℕ := 512
def maxNameLength : ℕ := 128

/-- `_audience`. -/
def Service.audience (value : Json) : Except Error Str := do
  let audience ← Service.text value "audience" maxAudienceLength
  if audiencePattern.fullmatch audience then .ok audience else .error (invalid "audience")

/-- `_idempotency_key`. -/
def Service.idempotencyKey (value : Json) : Except Error (Option Str) :=
  match value with
  | .null => .ok none
  | .str s =>
    if purposePattern.fullmatch s then .ok (some s) else .error (invalid "idempotency_key")
  | _ => .error (invalid "idempotency_key")

/-- An integer between bounds, no boolean. -/
def Service.integer (value : Json) (field : String) (low high : ℤ) : Except Error ℤ :=
  match value with
  | .int n => if low ≤ n ∧ n ≤ high then .ok n else .error (invalid field)
  | _ => .error (invalid field)

/-! ### What the validators accept -/

theorem Service.text_eq_ok {v : Json} {field : String} {maximum : ℕ} {s : Str} :
    Service.text v field maximum = .ok s ↔
      v = .str s ∧ s ≠ [] ∧ s.length ≤ maximum ∧ ∀ c ∈ s, 32 ≤ c.val := by
  unfold Service.text
  cases v with
  | str t =>
    constructor
    · intro h
      dsimp only at h
      split_ifs at h with hlen hchars
      obtain rfl := Except.ok.inj h
      exact ⟨rfl, by tauto, by omega, by simpa using hchars⟩
    · rintro ⟨ht, hne, hlen, hchars⟩
      cases ht
      dsimp only
      rw [if_neg (by simp [hne, hlen]), if_neg (by simpa using hchars)]
  | _ => simp

theorem Service.purpose_eq_ok {v : Json} {s : Str} :
    Service.purpose v = .ok s ↔ v = .str s ∧ purposePattern.fullmatch s = true := by
  unfold Service.purpose
  cases v with
  | str t =>
    constructor
    · intro h
      dsimp only at h
      split_ifs at h with hmatch
      obtain rfl := Except.ok.inj h
      exact ⟨rfl, hmatch⟩
    · rintro ⟨ht, hmatch⟩
      cases ht
      dsimp only
      rw [if_pos hmatch]
  | _ => simp

theorem Service.audience_eq_ok {v : Json} {s : Str} :
    Service.audience v = .ok s ↔ Service.text v "audience" maxAudienceLength = .ok s ∧
      audiencePattern.fullmatch s = true := by
  unfold Service.audience
  cases ht : Service.text v "audience" maxAudienceLength with
  | error e => simp
  | ok t =>
    simp only [except_ok_bind, Except.ok.injEq]
    constructor
    · intro h
      split_ifs at h with hmatch
      obtain rfl := Except.ok.inj h
      exact ⟨rfl, hmatch⟩
    · rintro ⟨rfl, hmatch⟩
      rw [if_pos hmatch]

/-! ### What the validators raise -/

section Raised

variable {v : Json} {field : String} {e : Error}

theorem Service.text_error {maximum : ℕ} (h : Service.text v field maximum = .error e) :
    e = invalid field := by
  unfold Service.text at h
  cases v with
  | str s =>
    dsimp only at h
    split_ifs at h
    · exact (Except.error.inj h).symm
    · exact (Except.error.inj h).symm
  | _ => exact (Except.error.inj h).symm

theorem Service.purpose_error (h : Service.purpose v = .error e) : e = invalid "purpose" := by
  unfold Service.purpose at h
  cases v with
  | str s =>
    dsimp only at h
    split_ifs at h
    exact (Except.error.inj h).symm
  | _ => exact (Except.error.inj h).symm

theorem Service.audience_error (h : Service.audience v = .error e) : e = invalid "audience" := by
  unfold Service.audience at h
  cases ht : Service.text v "audience" maxAudienceLength with
  | error e' =>
    rw [ht] at h
    exact (Except.error.inj h).symm.trans (Service.text_error ht)
  | ok s =>
    rw [ht, except_ok_bind] at h
    split_ifs at h
    exact (Except.error.inj h).symm

theorem Service.idempotencyKey_error (h : Service.idempotencyKey v = .error e) :
    e = invalid "idempotency_key" := by
  unfold Service.idempotencyKey at h
  cases v with
  | null => cases h
  | str s =>
    dsimp only at h
    split_ifs at h
    exact (Except.error.inj h).symm
  | _ => exact (Except.error.inj h).symm

/-- The pattern of purposes and idempotency keys is one of ASCII characters. -/
theorem ascii_of_purposePattern {s : Str} (h : purposePattern.fullmatch s = true) :
    ∀ c ∈ s, c.val < 128 := by
  have halnum : ∀ c : CodePoint, Regex.alnum c = true → c.val < 128 := by
    intro c hc
    simp only [Regex.alnum, Regex.ranges, List.any_cons, List.any_nil, Bool.or_false,
      Bool.or_eq_true, Bool.and_eq_true, decide_eq_true_eq] at hc
    omega
  obtain ⟨a, ⟨c₀, hc₀, rfl⟩, b, hb, rfl⟩ := Regex.mem_seq.mp ((Regex.fullmatch_iff _ _).mp h)
  intro c hc
  rcases List.mem_append.mp hc with hc | hc
  · rw [List.mem_singleton.mp hc]
    exact halnum c₀ hc₀
  · rcases Bool.or_eq_true_iff.mp ((Regex.mem_upTo_cls.mp hb).2 c hc) with hc | hc
    · exact halnum c hc
    · have hpunctuation : (lit "._:-").all (fun c => c.val < 128) = true := by decide
      exact of_decide_eq_true (List.all_eq_true.mp hpunctuation c (List.contains_iff_mem.mp hc))

/-- An idempotency key can be bound to a statement. -/
theorem Service.encodable_idempotencyKey {key : Str}
    (h : Service.idempotencyKey v = .ok (some key)) :
    key.encodable = true := by
  unfold Service.idempotencyKey at h
  cases v with
  | str s =>
    dsimp only at h
    split_ifs at h with hmatch
    obtain rfl := Option.some.inj (Except.ok.inj h)
    exact encodable_of_ascii (ascii_of_purposePattern hmatch)
  | null => cases h
  | _ => cases h

theorem Service.integer_error {low high : ℤ} (h : Service.integer v field low high = .error e) :
    e = invalid field := by
  unfold Service.integer at h
  cases v with
  | int n =>
    dsimp only at h
    split_ifs at h
    exact (Except.error.inj h).symm
  | _ => exact (Except.error.inj h).symm

end Raised

/-- **Purposes** are written in a few ASCII characters. -/
theorem purposePattern_iff {s : Str} : purposePattern.fullmatch s = true ↔
    ∃ c t, s = c :: t ∧ Regex.alnum c = true ∧ t.length ≤ 127 ∧
      ∀ d ∈ t, (Regex.alnum d || (lit "._:-").contains d) = true := by
  rw [Regex.fullmatch_iff, purposePattern, Regex.mem_cls_seq]
  constructor
  · rintro ⟨c, t, hc, ht, rfl⟩
    obtain ⟨hlen, hall⟩ := Regex.mem_upTo_cls.mp ht
    exact ⟨c, t, rfl, hc, hlen, hall⟩
  · rintro ⟨c, t, rfl, hc, hlen, hall⟩
    exact ⟨c, t, hc, Regex.mem_upTo_cls.mpr ⟨hlen, hall⟩, rfl⟩

/-- A character of an audience. -/
def audienceChar (c : CodePoint) : Bool := !Regex.space c

/-- A character that may begin the host of an audience. -/
def hostChar (c : CodePoint) : Bool := !(lit "/?#").contains c && audienceChar c

/-- The first character of a host is no space. -/
theorem audienceChar_of_hostChar {c : CodePoint} (h : hostChar c = true) :
    audienceChar c = true := by
  rw [hostChar, Bool.and_eq_true] at h
  exact h.2

/-- A host and what follows its first separator: a text of characters `p` that does not begin
with a separator. -/
theorem mem_host_path (separator : CodePoint → Bool) {p : CodePoint → Bool}
    (hp : ∀ c, separator c = true → p c = true)
    {r : Str} : r ∈ (Regex.seq (Regex.plus (.cls fun c => !separator c && p c))
        (Regex.opt (.seq (.cls separator) (.star (.cls p))))).language ↔
      r ≠ [] ∧ (∀ c ∈ r.head?, separator c = false) ∧ ∀ c ∈ r, p c = true := by
  constructor
  · intro hr
    obtain ⟨host, hhost, rest, hrest, rfl⟩ := Regex.mem_seq.mp hr
    obtain ⟨hne, hall⟩ := Regex.mem_plus_cls.mp hhost
    simp only [Bool.and_eq_true, Bool.not_eq_true'] at hall
    refine ⟨by simp [hne], fun c hc => ?_, fun c hc => ?_⟩
    · rw [List.head?_append_of_ne_nil _ hne] at hc
      exact (hall c (List.mem_of_mem_head? hc)).1
    · rcases List.mem_append.mp hc with hc | hc
      · exact (hall c hc).2
      · rcases Regex.mem_opt.mp hrest with hrest | rfl
        · obtain ⟨e, path, he, hpath, rfl⟩ := Regex.mem_cls_seq.mp hrest
          rcases List.mem_cons.mp hc with rfl | hc
          · exact hp c he
          · exact Regex.mem_star_cls.mp hpath c hc
        · cases hc
  · rintro ⟨hne, hhead, hall⟩
    -- the host goes on to the first separator
    have hcut := List.takeWhile_append_dropWhile (p := fun c => !separator c) (l := r)
    refine Regex.mem_seq.mpr ⟨_, Regex.mem_plus_cls.mpr ⟨?_, fun d hd => ?_⟩, _, ?_, hcut⟩
    · cases r with
      | nil => exact absurd rfl hne
      | cons c t => simp [hhead c rfl]
    · have hmem : d ∈ r := (List.takeWhile_prefix _).subset hd
      have hhost := List.mem_takeWhile_imp (p := fun c => !separator c) hd
      simpa [hall d hmem] using hhost
    · refine Regex.mem_opt.mpr ?_
      cases hdrop : r.dropWhile fun c => !separator c with
      | nil => exact Or.inr rfl
      | cons d path =>
        have hmem : ∀ e ∈ d :: path, e ∈ r := fun e he =>
          (List.dropWhile_suffix _).subset (hdrop ▸ he)
        have hd : separator d = true := by
          have hfirst := List.head?_dropWhile_not (fun c => !separator c) r
          simpa [hdrop] using hfirst
        refine Or.inl (Regex.mem_cls_seq.mpr ⟨d, path, hd, ?_, rfl⟩)
        exact Regex.mem_star_cls.mpr fun e he => hall e (hmem e (List.mem_cons_of_mem d he))

/-- **Audiences**: a scheme, then at least one character and no space; a host does not begin
with a separator. -/
theorem audiencePattern_iff {s : Str} : audiencePattern.fullmatch s = true ↔
    (∃ r, s = lit "https://" ++ r ∧ r ≠ [] ∧ (∀ c ∈ r.head?, hostChar c = true) ∧
        ∀ c ∈ r, audienceChar c = true) ∨
      ∃ r, s = lit "urn:" ++ r ∧ r ≠ [] ∧ ∀ c ∈ r, audienceChar c = true := by
  have hseparators : ∀ c, (lit "/?#").contains c = true → audienceChar c = true := by
    intro c hc
    have hall : (lit "/?#").all audienceChar = true := by decide
    exact List.all_eq_true.mp hall c (by simpa using hc)
  rw [Regex.fullmatch_iff, audiencePattern, Regex.mem_alt, Regex.mem_text_seq,
    Regex.mem_text_seq]
  refine or_congr (exists_congr fun r => ?_) (exists_congr fun r => ?_)
  · have hhost := mem_host_path (fun c => (lit "/?#").contains c) hseparators (r := r)
    rw [and_comm]
    refine and_congr_right fun _ => hhost.trans (and_congr_right fun _ => ?_)
    refine and_congr_left fun hall => forall₂_congr fun c hc => ?_
    have hchar := hall c (List.mem_of_mem_head? hc)
    simp [hostChar, hchar]
  · rw [and_comm]
    exact and_congr_right fun _ => Regex.mem_plus_cls

/-! ### Secrets and proofs -/

/-- `secret.split(".")` with its three parts. -/
def Service.threeParts (s : Str) : Option (Str × Str × Str) :=
  match s.splitOn dot with
  | [a, b, c] => some (a, b, c)
  | _ => none

/-- The prefix of a role's secrets. -/
def Role.secretPrefix : Role → Str
  | issuance => lit "opi1"
  | verification => lit "opv1"

/-- The prefix of a role's credential ids. -/
def Role.idPrefix : Role → Str
  | issuance => lit "ic_"
  | verification => lit "vc_"

/-- `_credential_id_from_secret`. -/
def Service.credentialIdFromSecret (secret : Str) (role : Role) : Option Str :=
  match Service.threeParts secret with
  | some (a, b, c) =>
    if a ≠ role.secretPrefix ∨ b = [] ∨ c = [] then none
    else if role.idPrefix.isPrefixOf b then some b
    else none
  | none => none

/-- `_proof_kid`. -/
def Service.proofKid (proof : Str) : Option Str :=
  match Service.threeParts proof with
  | some (a, b, c) =>
    if a ≠ lit "op1" ∨ c = [] then none
    else if (lit "hk_").isPrefixOf b then some b
    else none
  | none => none

/-- `f"op1.{kid}.{secrets.token_urlsafe(32)}"`. -/
def Service.proofToken (kid : Str) (bytes : Bytes) : Str :=
  lit "op1" ++ dot :: (kid ++ dot :: base64url bytes)

/-- `_new_secret`. -/
def Service.newSecret (role : Role) (credentialId : Str) (bytes : Bytes) : Str :=
  role.secretPrefix ++ dot :: (credentialId ++ dot :: base64url bytes)

/-! ### Fingerprints -/

/-- `json.dumps(payload, separators=(",", ":"), sort_keys=True)` of the four fields. -/
def Service.canonicalRequest (proofSha256 subject purpose audience : Str) : Str :=
  lit "\x7b\"audience\":" ++ Json.dumpsStr audience ++ (lit ",\"proof_sha256\":" ++
    Json.dumpsStr proofSha256 ++ (lit ",\"purpose\":" ++ Json.dumpsStr purpose ++
      (lit ",\"subject\":" ++ Json.dumpsStr subject ++ lit "\x7d")))

/-- `_request_fingerprint`. -/
def Service.requestFingerprint (H : HashLib) (proof subject purpose audience : Str) :
    Except Error Str := do
  let proofSha256 ← sha256Hex H proof
  sha256Hex H (Service.canonicalRequest proofSha256 subject purpose audience)

theorem Service.encodable_canonicalRequest (proofSha256 subject purpose audience : Str) :
    (Service.canonicalRequest proofSha256 subject purpose audience).encodable = true := by
  simp only [Service.canonicalRequest, encodable_append, encodable_lit, Json.encodable_dumpsStr,
    Bool.and_self]

/-- A request for a proof that can be encoded has a fingerprint. -/
theorem Service.exists_requestFingerprint (H : HashLib) {proof : Str}
    (h : proof.encodable = true) (subject purpose audience : Str) :
    ∃ f, Service.requestFingerprint H proof subject purpose audience = .ok f ∧
      f.encodable = true := by
  obtain ⟨data, hdata⟩ := Option.isSome_iff_exists.mp (Str.utf8?_isSome_iff.mpr h)
  obtain ⟨data', hdata'⟩ := Option.isSome_iff_exists.mp (Str.utf8?_isSome_iff.mpr
    (Service.encodable_canonicalRequest (hexlify (H.sha256 data)) subject purpose audience))
  refine ⟨hexlify (H.sha256 data'), ?_, encodable_hexlify _⟩
  rw [Service.requestFingerprint, sha256Hex, hdata]
  change sha256Hex H (Service.canonicalRequest _ subject purpose audience) = _
  rw [sha256Hex, hdata']

/-- The payload that `_request_fingerprint` digests. -/
def Service.canonicalPayload (H : HashLib) (proof subject purpose audience : Str) :
    Except Error Str := do
  let proofSha256 ← sha256Hex H proof
  .ok (Service.canonicalRequest proofSha256 subject purpose audience)

theorem Service.requestFingerprint_eq (H : HashLib) (proof subject purpose audience : Str) :
    Service.requestFingerprint H proof subject purpose audience =
      Service.canonicalPayload H proof subject purpose audience >>= sha256Hex H := by
  unfold Service.requestFingerprint Service.canonicalPayload
  cases sha256Hex H proof <;> rfl

/-- Canonical texts are equal if each field is written alike. -/
theorem Service.canonicalRequest_eq_iff {d s p a d' s' p' a' : Str} :
    Service.canonicalRequest d s p a = Service.canonicalRequest d' s' p' a' ↔
      Json.escape d = Json.escape d' ∧ Json.escape s = Json.escape s' ∧
        Json.escape p = Json.escape p' ∧ Json.escape a = Json.escape a' := by
  constructor
  · intro h
    simp only [Service.canonicalRequest, Json.dumpsStr, List.append_assoc, List.cons_append,
      List.nil_append] at h
    -- each field is read up to its closing quote
    have haudience := List.append_cancel_left h
    obtain ⟨ha, hrest⟩ := Json.escape_append_quote_inj (List.cons.inj haudience).2
    have hsha256 := List.append_cancel_left hrest
    obtain ⟨hd, hrest⟩ := Json.escape_append_quote_inj (List.cons.inj hsha256).2
    have hpurpose := List.append_cancel_left hrest
    obtain ⟨hp, hrest⟩ := Json.escape_append_quote_inj (List.cons.inj hpurpose).2
    have hsubject := List.append_cancel_left hrest
    obtain ⟨hs, -⟩ := Json.escape_append_quote_inj (List.cons.inj hsubject).2
    exact ⟨hd, hs, hp, ha⟩
  · rintro ⟨hd, hs, hp, ha⟩
    simp only [Service.canonicalRequest, Json.dumpsStr, hd, hs, hp, ha]

theorem sha256Hex_eq_ok {H : HashLib} {s d : Str} :
    sha256Hex H s = .ok d ↔ ∃ data, s.utf8? = some data ∧ d = hexlify (H.sha256 data) := by
  unfold sha256Hex
  cases s.utf8? <;> simp [eq_comm]

/-- An injective SHA-256 tells texts apart. -/
theorem sha256Hex_inj {H : HashLib} (hH : Function.Injective H.sha256) {s s' d : Str}
    (h : sha256Hex H s = .ok d) (h' : sha256Hex H s' = .ok d) : s = s' := by
  obtain ⟨data, hdata, rfl⟩ := sha256Hex_eq_ok.mp h
  obtain ⟨data', hdata', hd⟩ := sha256Hex_eq_ok.mp h'
  obtain rfl := hH (hexlify_inj hd)
  exact Str.utf8?_inj hdata hdata'

/-- **Payloads** are equal if the proofs are equal and the other fields have the same code
units. -/
theorem Service.canonicalPayload_eq_iff {H : HashLib} (hH : Function.Injective H.sha256)
    {proof subject purpose audience proof' subject' purpose' audience' : Str}
    (hproof : proof.encodable = true) (hproof' : proof'.encodable = true) :
    Service.canonicalPayload H proof subject purpose audience =
        Service.canonicalPayload H proof' subject' purpose' audience' ↔
      proof = proof' ∧ subject.utf16 = subject'.utf16 ∧ purpose.utf16 = purpose'.utf16 ∧
        audience.utf16 = audience'.utf16 := by
  have hsha256 : ∀ {s : Str}, s.encodable = true →
      ∃ data, sha256Hex H s = .ok (hexlify (H.sha256 data)) := by
    intro s hs
    obtain ⟨data, hdata⟩ := Option.isSome_iff_exists.mp (Str.utf8?_isSome_iff.mpr hs)
    exact ⟨data, sha256Hex_eq_ok.mpr ⟨data, hdata, rfl⟩⟩
  obtain ⟨data, hdata⟩ := hsha256 hproof
  obtain ⟨data', hdata'⟩ := hsha256 hproof'
  simp only [Service.canonicalPayload, hdata, hdata', except_ok_bind, Except.ok.injEq,
    Service.canonicalRequest_eq_iff, Json.escape_hexlify, Json.escape_eq_iff]
  refine and_congr_left fun _ => ⟨fun h => sha256Hex_inj hH hdata (h ▸ hdata'), ?_⟩
  rintro rfl
  exact Except.ok.inj (hdata.symm.trans hdata')

/-- **Equal fingerprints come from equal proofs.** -/
theorem Service.proof_of_requestFingerprint {H : HashLib} (hH : H.Ideal)
    {proof subject purpose audience proof' subject' purpose' audience' f : Str}
    (h : Service.requestFingerprint H proof subject purpose audience = .ok f)
    (h' : Service.requestFingerprint H proof' subject' purpose' audience' = .ok f) :
    proof = proof' := by
  have hsplit : ∀ {proof subject purpose audience : Str},
      Service.requestFingerprint H proof subject purpose audience = .ok f →
      ∃ text, Service.canonicalPayload H proof subject purpose audience = .ok text ∧
        proof.encodable = true ∧ sha256Hex H text = .ok f := by
    intro proof subject purpose audience hf
    rw [Service.requestFingerprint_eq] at hf
    cases hp : sha256Hex H proof with
    | error e => simp [Service.canonicalPayload, hp] at hf
    | ok d =>
      obtain ⟨data, hdata, -⟩ := sha256Hex_eq_ok.mp hp
      have hencodable := Str.utf8?_isSome_iff.mp (Option.isSome_iff_exists.mpr ⟨data, hdata⟩)
      simp only [Service.canonicalPayload, hp, except_ok_bind] at hf ⊢
      exact ⟨_, rfl, hencodable, hf⟩
  obtain ⟨text, htext, hproof, hf⟩ := hsplit h
  obtain ⟨text', htext', hproof', hf'⟩ := hsplit h'
  obtain rfl := sha256Hex_inj hH.sha256_inj hf hf'
  exact ((Service.canonicalPayload_eq_iff hH.sha256_inj hproof hproof').mp
    (htext.trans htext'.symm)).1

/-! ### Tokens -/

theorem Service.threeParts_join {a b c : Str} (ha : dot ∉ a) (hb : dot ∉ b) (hc : dot ∉ c) :
    Service.threeParts (a ++ dot :: (b ++ dot :: c)) = some (a, b, c) := by
  have hparts : ∀ l ∈ [a, b, c], dot ∉ l := by simpa using ⟨ha, hb, hc⟩
  have hsplit := List.splitOn_intercalate dot hparts (by simp)
  have hjoin : [dot].intercalate [a, b, c] = a ++ dot :: (b ++ dot :: c) := by
    simp [List.intercalate]
  rw [hjoin] at hsplit
  rw [Service.threeParts, hsplit]

/-- The key id is read back from a proof built with it. -/
theorem Service.proofKid_proofToken {kid : Str} {bytes : Bytes} (hdot : dot ∉ kid)
    (hhk : (lit "hk_").isPrefixOf kid = true) (hbytes : base64url bytes ≠ []) :
    Service.proofKid (Service.proofToken kid bytes) = some kid := by
  have hop : dot ∉ lit "op1" := by decide
  rw [Service.proofKid, Service.proofToken,
    Service.threeParts_join hop hdot (dot_notMem_base64url bytes)]
  simp [hbytes, hhk]

private theorem append_dot_inj {a a' b b' : Str} (hb : dot ∉ b) (hb' : dot ∉ b')
    (h : a ++ dot :: b = a' ++ dot :: b') : a = a' ∧ b = b' := by
  have hprefix : ∀ {a a' b b' : Str}, dot ∉ b → a' ++ dot :: b' = a ++ dot :: b →
      ∀ c, a' = a ++ c → c = [] := by
    intro a a' b b' hb h c hc
    rw [hc, List.append_assoc] at h
    cases c with
    | nil => rfl
    | cons d c =>
      have htail := (List.cons.inj (List.append_cancel_left h)).2
      exact absurd (htail ▸ List.mem_append_right c List.mem_cons_self) hb
  rcases List.append_eq_append_iff.mp h with ⟨c, hc, -⟩ | ⟨c, hc, -⟩
  · obtain rfl := hprefix hb h.symm c hc
    obtain rfl : a' = a := by simpa using hc
    exact ⟨rfl, (List.cons.inj (List.append_cancel_left h)).2⟩
  · obtain rfl := hprefix hb' h c hc
    obtain rfl : a = a' := by simpa using hc
    exact ⟨rfl, (List.cons.inj (List.append_cancel_left h)).2⟩

/-- A proof determines the key id and the random bytes it was built with. -/
theorem Service.proofToken_inj {kid kid' : Str} {bytes bytes' : Bytes}
    (h : Service.proofToken kid bytes = Service.proofToken kid' bytes') :
    kid = kid' ∧ bytes = bytes' := by
  have hrest := (List.cons.inj (List.append_cancel_left h)).2
  obtain ⟨hkid, hb⟩ :=
    append_dot_inj (dot_notMem_base64url bytes) (dot_notMem_base64url bytes') hrest
  exact ⟨hkid, base64url_inj hb⟩

end Onceproof

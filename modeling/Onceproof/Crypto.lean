import Onceproof.Errors

/-!
# Keyed digests

The domain-separated digests of credentials, proofs and key checks, over a hash library that
is a parameter: `HashLib` stands for `hashlib.sha256` and `hmac` with SHA-256.

`HashLib.Ideal` collects what the protocol relies on: keyed digests of distinct inputs are
distinct, SHA-256 is injective, and the plain SHA-256 of a text is never a keyed digest.
`plainHash` is a hash library with these properties, obtained by writing the inputs down
instead of digesting them.
-/

namespace Onceproof

/-- The hash primitives of the standard library. -/
structure HashLib where
  /-- `hashlib.sha256(data).digest()`. -/
  sha256 : Bytes → Bytes
  /-- `hmac.new(key, data, hashlib.sha256).digest()`. -/
  hmac : Bytes → Bytes → Bytes

/-- The bytes of an ASCII literal. -/
def ascii (s : String) : Bytes := s.toList.map fun c => UInt8.ofNat c.toNat

/-- Root keys: exactly 32 bytes. -/
abbrev RootKey := { b : Bytes // b.length = 32 }

def hkdfSalt : Bytes := ascii "onceproof:v1:hkdf-sha256"
def credentialInfo : Bytes := ascii "credential-digest"
def proofInfo : Bytes := ascii "proof-digest"
def keyCheckInfo : Bytes := ascii "key-check"
def keyCheckValue : Bytes := ascii "onceproof:v1:key-check"

section Digests

variable (H : HashLib)

/-- `_hkdf_sha256`. -/
def hkdfSha256 (rootKey info : Bytes) : Except Error Bytes :=
  if rootKey.length ≠ 32 then .error (.valueError "invalid_root_key_length")
  else
    let extracted := H.hmac hkdfSalt rootKey
    .ok (H.hmac extracted (info ++ [1]))

/-- `_digest`. -/
def digest (derivedKey : Bytes) (value : Str) : Except Error Str :=
  match value.utf8? with
  | some data => .ok (hexlify (H.hmac derivedKey data))
  | none => .error .unicodeEncodeError

/-- `credential_digest`. -/
def credentialDigest (rootKey : Bytes) (credential : Str) : Except Error Str := do
  let derivedKey ← hkdfSha256 H rootKey credentialInfo
  digest H derivedKey credential

/-- `proof_digest`. -/
def proofDigest (rootKey : Bytes) (proof : Str) : Except Error Str := do
  let derivedKey ← hkdfSha256 H rootKey proofInfo
  digest H derivedKey proof

/-- `key_check`. -/
def keyCheck (rootKey : Bytes) : Except Error Str := do
  let derivedKey ← hkdfSha256 H rootKey keyCheckInfo
  .ok (hexlify (H.hmac derivedKey keyCheckValue))

/-- `hashlib.sha256(value.encode("utf-8")).hexdigest()`. -/
def sha256Hex (value : Str) : Except Error Str :=
  match value.utf8? with
  | some data => .ok (hexlify (H.sha256 data))
  | none => .error .unicodeEncodeError

variable {H}

/-- On a root key the length check passes. -/
theorem hkdfSha256_rootKey (key : RootKey) (info : Bytes) :
    hkdfSha256 H key.val info = .ok (H.hmac (H.hmac hkdfSalt key.val) (info ++ [1])) := by
  simp [hkdfSha256, key.property]

/-- Every root key has a key check. -/
theorem exists_keyCheck (key : RootKey) : ∃ c, keyCheck H key.val = .ok c :=
  ⟨_, by rw [keyCheck, hkdfSha256_rootKey]; rfl⟩

/-- A key check is hexadecimal text. -/
theorem encodable_of_keyCheck {key : RootKey} {c : Str} (h : keyCheck H key.val = .ok c) :
    c.encodable = true := by
  rw [keyCheck, hkdfSha256_rootKey] at h
  obtain rfl := Except.ok.inj h
  exact encodable_hexlify _

theorem digest_eq_ok {derivedKey : Bytes} {value d : Str} :
    digest H derivedKey value = .ok d ↔
      ∃ data, value.utf8? = some data ∧ d = hexlify (H.hmac derivedKey data) := by
  unfold digest
  cases value.utf8? <;> simp [eq_comm]

theorem proofDigest_rootKey (key : RootKey) (proof : Str) :
    proofDigest H key.val proof =
      digest H (H.hmac (H.hmac hkdfSalt key.val) (proofInfo ++ [1])) proof := by
  rw [proofDigest, hkdfSha256_rootKey]
  rfl

theorem credentialDigest_rootKey (key : RootKey) (credential : Str) :
    credentialDigest H key.val credential =
      digest H (H.hmac (H.hmac hkdfSalt key.val) (credentialInfo ++ [1])) credential := by
  rw [credentialDigest, hkdfSha256_rootKey]
  rfl

/-- A text without surrogates has a credential digest under every root key. -/
theorem exists_credentialDigest (key : RootKey) {secret : Str} (h : secret.encodable = true) :
    ∃ d, credentialDigest H key.val secret = .ok d := by
  obtain ⟨data, hd⟩ := Option.isSome_iff_exists.mp (Str.utf8?_isSome_iff.mpr h)
  exact ⟨_, by rw [credentialDigest_rootKey]; exact digest_eq_ok.mpr ⟨data, hd, rfl⟩⟩

/-- Proof digests are hexadecimal text. -/
theorem encodable_of_proofDigest {key : RootKey} {proof d : Str}
    (h : proofDigest H key.val proof = .ok d) : d.encodable = true := by
  rw [proofDigest_rootKey] at h
  obtain ⟨_, _, rfl⟩ := digest_eq_ok.mp h
  exact encodable_hexlify _

end Digests

/-! ### What the protocol assumes of the hash library -/

/-- The assumptions on the hash library: injective keyed digests, an injective SHA-256, and
no plain digest among the keyed ones. -/
structure HashLib.Ideal (H : HashLib) : Prop where
  proofDigest_inj : ∀ {key key' : RootKey} {proof proof' d : Str},
    proofDigest H key.val proof = .ok d → proofDigest H key'.val proof' = .ok d →
      key = key' ∧ proof = proof'
  credentialDigest_inj : ∀ {key key' : RootKey} {secret secret' d : Str},
    credentialDigest H key.val secret = .ok d →
      credentialDigest H key'.val secret' = .ok d → key = key' ∧ secret = secret'
  sha256_inj : Function.Injective H.sha256
  sha256_ne_proofDigest : ∀ {key : RootKey} {proof d : Str} {data : Bytes},
    proofDigest H key.val proof = .ok d → hexlify (H.sha256 data) ≠ d

/-- A self-delimiting rendering of a pair of byte strings, the second one first and
backwards. -/
def plainPair (key data : Bytes) : Bytes :=
  (data.reverse.flatMap fun b => [1, b]) ++ 0 :: key

private theorem flatMap_append_inj : ∀ {a a' k k' : Bytes},
    (a.flatMap fun b => [1, b]) ++ 0 :: k = (a'.flatMap fun b => [1, b]) ++ 0 :: k' →
      a = a' ∧ k = k'
  | [], [], _, _, h => by simpa using h
  | [], _ :: _, _, _, h | _ :: _, [], _, _, h => by simp at h
  | x :: a, y :: a', k, k', h => by
    simp only [List.flatMap_cons, List.cons_append, List.nil_append, List.cons.injEq,
      true_and] at h
    obtain ⟨rfl, h⟩ := h
    obtain ⟨rfl, rfl⟩ := flatMap_append_inj h
    exact ⟨rfl, rfl⟩

theorem plainPair_inj {key key' data data' : Bytes}
    (h : plainPair key data = plainPair key' data') : key = key' ∧ data = data' := by
  obtain ⟨hd, hk⟩ := flatMap_append_inj h
  exact ⟨hk, List.reverse_injective hd⟩

/-- The hash library that writes its inputs down. -/
def plainHash : HashLib where
  sha256 data := 2 :: data
  hmac := plainPair

private theorem plainHash_digest_inj {info : Bytes} {key key' : RootKey}
    {value value' d : Str}
    (h : digest plainHash (plainPair (plainPair hkdfSalt key.val) info) value = .ok d)
    (h' : digest plainHash (plainPair (plainPair hkdfSalt key'.val) info) value' = .ok d) :
    key = key' ∧ value = value' := by
  obtain ⟨data, hdata, rfl⟩ := digest_eq_ok.mp h
  obtain ⟨data', hdata', hd⟩ := digest_eq_ok.mp h'
  obtain ⟨hk, rfl⟩ := plainPair_inj (hexlify_inj hd)
  obtain ⟨hk, -⟩ := plainPair_inj hk
  obtain ⟨-, hk⟩ := plainPair_inj hk
  exact ⟨Subtype.ext hk, Str.utf8?_inj hdata hdata'⟩

/-- The assumptions on the hash library are satisfiable. -/
theorem plainHash_ideal : plainHash.Ideal where
  proofDigest_inj h h' := by
    rw [proofDigest_rootKey] at h h'
    exact plainHash_digest_inj h h'
  credentialDigest_inj h h' := by
    rw [credentialDigest_rootKey] at h h'
    exact plainHash_digest_inj h h'
  sha256_inj a b h := (List.cons.inj h).2
  sha256_ne_proofDigest := by
    intro key proof d data h hd
    rw [proofDigest_rootKey] at h
    obtain ⟨data', -, rfl⟩ := digest_eq_ok.mp h
    have heq : 2 :: data = plainPair _ data' := hexlify_inj hd
    unfold plainPair at heq
    cases hr : data'.reverse with
    | nil => simp [hr] at heq
    | cons b l => simp [hr] at heq

end Onceproof

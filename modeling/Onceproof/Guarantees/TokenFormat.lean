import Onceproof.KeyringFile
import Onceproof.Service.Programs

/-!
# Proofs and the key ids they carry

A proof holds the id of the current key between two dots, and the verifier splits the proof at
its dots. The keyring file may name its keys with any text that begins with `hk_`;
`token_parses_iff` says which ids survive the way through a proof. An id with a lone surrogate
does not: its proofs have no UTF-8 encoding and so no digest.
-/

namespace Onceproof

/-- A proof with its random part as text: `proofToken` draws the text from bytes. -/
def Service.proofString (kid random : Str) : Str := lit "op1" ++ dot :: (kid ++ dot :: random)

theorem Service.proofToken_eq_proofString (kid : Str) (bytes : Bytes) :
    Service.proofToken kid bytes = Service.proofString kid (base64url bytes) := rfl

/-- A proof of the current key is accepted as a text, gives the id back, has a digest to be
stored with, and is looked up under that digest. -/
def TokenParses (H : HashLib) (k : KeyRing) (random : Str) : Prop :=
  Service.text (.str (Service.proofString k.currentKid random)) "proof" 512 =
      .ok (Service.proofString k.currentKid random) ∧
    Service.proofKid (Service.proofString k.currentKid random) = some k.currentKid ∧
    ∃ d, proofDigest H k.currentKey.2.val (Service.proofString k.currentKid random) = .ok d ∧
      Service.lookupDigest H k (Service.proofString k.currentKid random) = .ok d

/-- The ids that a proof can carry with its random part. -/
structure Carries (kid random : Str) : Prop where
  undotted : dot ∉ kid
  printable : ∀ c ∈ kid, 32 ≤ c.val
  encodable : kid.encodable = true
  nonempty : random ≠ []
  length : kid.length + random.length ≤ 507

variable {H : HashLib} {k : KeyRing} {random : Str}

private theorem dot_notMem_random (hrandom : ∀ c ∈ random, c ∈ base64Alphabet) :
    dot ∉ random := fun h => absurd (hrandom dot h) (by decide)

private theorem printable_random (hrandom : ∀ c ∈ random, c ∈ base64Alphabet) :
    ∀ c ∈ random, 32 ≤ c.val := by
  have hall : base64Alphabet.all (fun c => 32 ≤ c.val) = true := by decide
  exact fun c hc => of_decide_eq_true (List.all_eq_true.mp hall c (hrandom c hc))

/-- The three parts of a proof are the parts of its string if the id has no dot; otherwise
there are more than three. -/
theorem Service.threeParts_proofString {kid : Str} (hrandom : dot ∉ random) :
    Service.threeParts (Service.proofString kid random) =
      if dot ∈ kid then none else some (lit "op1", kid, random) := by
  have hop : dot ∉ lit "op1" := by decide
  split_ifs with hdot
  · obtain ⟨a, b, rfl⟩ := List.append_of_mem hdot
    have hsplit : (Service.proofString (a ++ dot :: b) random).splitOn dot =
        lit "op1" :: (a.splitOn dot ++ (b.splitOn dot ++ [random])) := by
      have hdots : Service.proofString (a ++ dot :: b) random =
          lit "op1" ++ dot :: (a ++ dot :: (b ++ dot :: random)) := by
        simp [Service.proofString]
      rw [hdots, List.splitOn_append_cons_self, List.splitOn_append_cons_self,
        List.splitOn_append_cons_self, List.splitOn_eq_singleton hop,
        List.splitOn_eq_singleton hrandom]
      rfl
    have ha := List.length_pos_of_ne_nil (List.splitOn_ne_nil dot a)
    have hb := List.length_pos_of_ne_nil (List.splitOn_ne_nil dot b)
    unfold Service.threeParts
    split
    · next hparts =>
      rw [hsplit] at hparts
      have hlen := congrArg List.length hparts
      simp only [List.length_cons, List.length_append, List.length_nil] at hlen
      omega
    · rfl
  · exact Service.threeParts_join hop hdot hrandom

/-- The digest of a proof of the current key is looked up as it was stored. -/
theorem Service.lookupDigest_current {p : Str} (h : Service.proofKid p = some k.currentKid) :
    Service.lookupDigest H k p = proofDigest H k.currentKey.2.val p := by
  have hkey : k.keyFor k.currentKid = some k.currentKey.2 := k.keyFor_currentKey
  rw [Service.lookupDigest, h, Option.bind_some, hkey]

/-- A proof has a digest exactly if its id can be encoded. -/
theorem Service.proofDigest_proofString {kid : Str} {key : RootKey}
    (hrandom : ∀ c ∈ random, c ∈ base64Alphabet) :
    (∃ d, proofDigest H key.val (Service.proofString kid random) = .ok d) ↔
      kid.encodable = true := by
  have hop : (lit "op1").encodable = true := by decide
  have hdot : Str.encodable [dot] = true := by decide
  have hrandom : random.encodable = true := by
    have hall : base64Alphabet.all (fun c => c.val < 128) = true := by decide
    exact encodable_of_ascii fun c hc =>
      of_decide_eq_true (List.all_eq_true.mp hall c (hrandom c hc))
  have hstring : (Service.proofString kid random).encodable = kid.encodable := by
    rw [show Service.proofString kid random = lit "op1" ++ ([dot] ++ (kid ++ ([dot] ++ random)))
      from rfl]
    simp only [encodable_append, hop, hdot, hrandom, Bool.true_and, Bool.and_true]
  rw [← hstring, ← Str.utf8?_isSome_iff, proofDigest_rootKey, Option.isSome_iff_exists]
  constructor
  · rintro ⟨d, hd⟩
    obtain ⟨data, hdata, -⟩ := digest_eq_ok.mp hd
    exact ⟨data, hdata⟩
  · rintro ⟨data, hdata⟩
    exact ⟨_, digest_eq_ok.mpr ⟨data, hdata, rfl⟩⟩

/-- **Proofs parse back** exactly for the ids that a proof can carry. -/
theorem token_parses_iff {v : Json} (hload : KeyRing.readPayload v = .ok k)
    (hrandom : ∀ c ∈ random, c ∈ base64Alphabet) :
    TokenParses H k random ↔ Carries k.currentKid random := by
  have hkid : KeyRing.isKid k.currentKid = true := by
    obtain ⟨_, _, _, -, -, -, hkid, -⟩ :=
      KeyRing.parsePayload_eq_ok (KeyRing.readPayload_eq_ok.mp hload).2
    exact hkid
  have hparts : Service.threeParts (Service.proofString k.currentKid random) =
      if dot ∈ k.currentKid then none else some (lit "op1", k.currentKid, random) :=
    Service.threeParts_proofString (dot_notMem_random hrandom)
  have hlen : (Service.proofString k.currentKid random).length =
      k.currentKid.length + random.length + 5 := by
    have hop : (lit "op1").length = 3 := by decide
    simp only [Service.proofString, List.length_append, List.length_cons, hop]
    omega
  constructor
  · rintro ⟨htext, hproofKid, d, hd, -⟩
    obtain ⟨-, -, hshort, hchars⟩ := Service.text_eq_ok.mp htext
    -- a dot in the key id would make a fourth part
    rw [Service.proofKid, hparts] at hproofKid
    split_ifs at hproofKid with hdot
    refine ⟨hdot, fun c hc => hchars c ?_,
      (Service.proofDigest_proofString hrandom).mp ⟨d, hd⟩, ?_, by omega⟩
    · simp [Service.proofString, hc]
    · rintro rfl
      simp at hproofKid
  · rintro ⟨hdot, hchars, hencodable, hne, hshort⟩
    rw [if_neg hdot] at hparts
    have hproofKid : Service.proofKid (Service.proofString k.currentKid random) =
        some k.currentKid := by
      have hhk : (lit "hk_").isPrefixOf k.currentKid = true := hkid
      simp [Service.proofKid, hparts, hne, hhk]
    obtain ⟨d, hd⟩ := (Service.proofDigest_proofString hrandom).mpr hencodable
    refine ⟨Service.text_eq_ok.mpr ⟨rfl, ?_, by omega, ?_⟩, hproofKid, d, hd,
      (Service.lookupDigest_current hproofKid).trans hd⟩
    · exact List.append_ne_nil_of_left_ne_nil (by decide) _
    · intro c hc
      have hop : (lit "op1").all (fun c => 32 ≤ c.val) = true := by decide
      rcases List.mem_append.mp hc with hc | hc
      · exact of_decide_eq_true (List.all_eq_true.mp hop c hc)
      · rcases List.mem_cons.mp hc with rfl | hc
        · decide
        · rcases List.mem_append.mp hc with hc | hc
          · exact hchars c hc
          · rcases List.mem_cons.mp hc with rfl | hc
            · decide
            · exact printable_random hrandom c hc

namespace Scenario

/-- A keyring with one key of a given id. -/
def keyringOf (kid : Str) : KeyRing := .created kid ⟨List.replicate 32 7, by decide⟩

/-- A random part of the usual length. -/
def randomPart : Str := List.replicate 43 65

theorem randomPart_alphabet : ∀ c ∈ randomPart, c ∈ base64Alphabet := by
  intro c hc
  rw [List.eq_of_mem_replicate hc]
  decide

/-- The file of a keyring with one key. -/
theorem readPayload_keyringOf {kid : Str} (hkid : KeyRing.isKid kid = true ∧ ¬ kid.HasPair) :
    KeyRing.readPayload (Json.persist (keyringOf kid).serializedPayload) =
      .ok (keyringOf kid) := by
  refine KeyRing.readPayload_persist_serializedPayload fun kid' hmem => ?_
  rw [(Finmap.mem_singleton _ _ _).mp hmem]
  exact hkid

end Scenario

/-- The generated ids survive. -/
theorem token_parses_generated :
    TokenParses plainHash (Scenario.keyringOf (lit "hk_" ++ hexlify [1, 2]))
      Scenario.randomPart := by
  have hprintable : (lit "hk_" ++ hexlify [1, 2]).all (fun c => 32 ≤ c.val) = true := by decide
  exact (token_parses_iff (Scenario.readPayload_keyringOf (KeyRing.isKid_hexlify [1, 2]))
    Scenario.randomPart_alphabet).mpr
      ⟨by decide, fun c hc => of_decide_eq_true (List.all_eq_true.mp hprintable c hc),
        by decide, by decide, by decide⟩

/-- An id with a dot can be loaded, but its proofs do not parse back. -/
theorem token_counterexample : ∃ v k, KeyRing.readPayload v = .ok k ∧
    ∀ H, ¬ TokenParses H k Scenario.randomPart := by
  have hlit : ¬ Str.HasPair (lit "hk_a.b") := by
    rintro ⟨a, hi, lo, b, hs, hhi, -⟩
    have hbelow : (lit "hk_a.b").all (fun c => !c.isHigh) = true := by decide
    have hmem := List.all_eq_true.mp hbelow hi (by rw [hs]; simp)
    rw [hhi] at hmem
    cases hmem
  refine ⟨_, Scenario.keyringOf (lit "hk_a.b"),
    Scenario.readPayload_keyringOf ⟨by decide, hlit⟩, fun H hparses => ?_⟩
  have hkid := hparses.2.1
  rw [Service.proofKid, Service.threeParts_proofString
    (dot_notMem_random Scenario.randomPart_alphabet)] at hkid
  have hdot : dot ∈ (Scenario.keyringOf (lit "hk_a.b")).currentKid := by decide
  rw [if_pos hdot] at hkid
  cases hkid

end Onceproof

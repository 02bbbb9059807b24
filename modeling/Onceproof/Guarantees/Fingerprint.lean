import Onceproof.Service.Validation

/-!
# What a fingerprint tells apart

The fingerprint of a verification request digests a JSON text. JSON writes an astral code point
and its two surrogates in the same way, and a body may hold the surrogates as two code points,
so the fingerprint tells requests apart only up to this spelling.

* `AcceptedRequest`: what the validators of `verify_proof` let through, its proof encodable.
* `fingerprint_separates_iff`: the payload of a request belongs to no other request if and only
  if its subject and its audience have one spelling.
-/

namespace Onceproof

/-- A verification request that the validators accept. -/
@[ext]
structure AcceptedRequest where
  proof : Str
  subject : Str
  purpose : Str
  audience : Str
  proof_accepted : Service.text (.str proof) "proof" 512 = .ok proof
  subject_accepted : Service.text (.str subject) "subject" maxSubjectLength = .ok subject
  purpose_accepted : Service.purpose (.str purpose) = .ok purpose
  audience_accepted : Service.audience (.str audience) = .ok audience
  encodable : proof.encodable = true

namespace AcceptedRequest

/-- The payload that `_request_fingerprint` digests. -/
def payload (H : HashLib) (r : AcceptedRequest) : Except Error Str :=
  Service.canonicalPayload H r.proof r.subject r.purpose r.audience

/-- The subject and the audience have one spelling each. -/
def Separated (r : AcceptedRequest) : Prop :=
  r.subject.Unambiguous maxSubjectLength ∧ r.audience.Unambiguous maxAudienceLength

end AcceptedRequest

/-! ### Spellings that the validators accept -/

/-- The other spelling of an accepted text is accepted. -/
theorem Service.text_of_utf16 {s t : Str} {field : String} {maximum : ℕ}
    (h : Service.text (.str s) field maximum = .ok s) (hunits : t.utf16 = s.utf16)
    (ht : t.length ≤ maximum) : Service.text (.str t) field maximum = .ok t := by
  obtain ⟨-, hne, -, hchars⟩ := Service.text_eq_ok.mp h
  have hcontrol : ∀ c : CodePoint, 0xD800 ≤ c.val → 32 ≤ c.val := fun c hc => by omega
  refine Service.text_eq_ok.mpr ⟨rfl, ?_, ht, ?_⟩
  · rwa [ne_eq, ← Str.utf16_eq_nil, hunits, Str.utf16_eq_nil]
  · rw [← Str.forall_mem_utf16 hcontrol, hunits, Str.forall_mem_utf16 hcontrol]
    exact hchars

/-- Spaces and separators come before the surrogates. -/
private theorem hostChar_of_le {c : CodePoint} (h : 0xD800 ≤ c.val) : hostChar c = true := by
  have hseparators : (lit "/?#").all (fun d => d.val < 0xD800) = true := by decide
  have hhost : c ∉ lit "/?#" := fun hc =>
    absurd (of_decide_eq_true (List.all_eq_true.mp hseparators c hc)) (by omega)
  have hspace : Regex.space c = false := by
    simp only [Regex.space, Regex.ranges, List.any_cons, List.any_nil, Bool.or_false,
      Bool.or_eq_false_iff, Bool.and_eq_false_iff, decide_eq_false_iff_not]
    omega
  simp [hostChar, audienceChar, hhost, hspace]

/-- The other spelling of an accepted audience is accepted. -/
theorem Service.audience_of_utf16 {s t : Str} (h : Service.audience (.str s) = .ok s)
    (hunits : t.utf16 = s.utf16) (ht : t.length ≤ maxAudienceLength) :
    Service.audience (.str t) = .ok t := by
  obtain ⟨htext, hpattern⟩ := Service.audience_eq_ok.mp h
  refine Service.audience_eq_ok.mpr ⟨Service.text_of_utf16 htext hunits ht, ?_⟩
  have haudience : ∀ c : CodePoint, 0xD800 ≤ c.val → audienceChar c = true :=
    fun c hc => audienceChar_of_hostChar (hostChar_of_le hc)
  have hhost : ∀ c : CodePoint, 0xD800 ≤ c.val → hostChar c = true :=
    fun c hc => hostChar_of_le hc
  -- what follows a scheme has the same code units in both spellings
  have hrest : ∀ {p r : Str}, p.encodable = true → p.utf16 = p → s = p ++ r →
      ∃ u, t = p ++ u ∧ u.utf16 = r.utf16 := by
    intro p r hp hpunits hs
    rw [hs, Str.utf16_append, hpunits] at hunits
    exact Str.utf16_eq_append hp hunits
  rcases audiencePattern_iff.mp hpattern with ⟨r, hs, hne, hhead, hall⟩ | ⟨r, hs, hne, hall⟩
  · obtain ⟨u, rfl, hu⟩ := hrest (encodable_lit _) (by decide) hs
    refine audiencePattern_iff.mpr (Or.inl ⟨u, rfl, ?_, ?_, ?_⟩)
    · rwa [ne_eq, ← Str.utf16_eq_nil, hu, Str.utf16_eq_nil]
    · rw [← Str.forall_head?_utf16 hhost, hu, Str.forall_head?_utf16 hhost]
      exact hhead
    · rw [← Str.forall_mem_utf16 haudience, hu, Str.forall_mem_utf16 haudience]
      exact hall
  · obtain ⟨u, rfl, hu⟩ := hrest (encodable_lit _) (by decide) hs
    refine audiencePattern_iff.mpr (Or.inr ⟨u, rfl, ?_, ?_⟩)
    · rwa [ne_eq, ← Str.utf16_eq_nil, hu, Str.utf16_eq_nil]
    · rw [← Str.forall_mem_utf16 haudience, hu, Str.forall_mem_utf16 haudience]
      exact hall

/-- A purpose has one spelling. -/
theorem Service.utf16_purpose {s : Str} (h : Service.purpose (.str s) = .ok s) :
    s.utf16 = s := by
  obtain ⟨c, t, rfl, hc, -, hall⟩ := purposePattern_iff.mp (Service.purpose_eq_ok.mp h).2
  have halnum : ∀ {d : CodePoint}, Regex.alnum d = true → d.isAstral = false := by
    intro d hd
    simp only [Regex.alnum, Regex.ranges, List.any_cons, List.any_nil, Bool.or_false,
      Bool.or_eq_true, Bool.and_eq_true, decide_eq_true_eq] at hd
    simp only [CodePoint.isAstral, decide_eq_false_iff_not]
    omega
  have hsigns : (lit "._:-").all (fun d => !d.isAstral) = true := by decide
  refine Str.utf16_of_forall fun d hd => ?_
  rcases List.mem_cons.mp hd with rfl | hd
  · exact halnum hc
  · rcases (Bool.or_eq_true _ _).mp (hall d hd) with hd | hd
    · exact halnum hd
    · simpa using List.all_eq_true.mp hsigns d (by simpa using hd)

/-! ### Separation -/

variable {H : HashLib}

theorem AcceptedRequest.payload_eq_iff (hH : Function.Injective H.sha256)
    {r r' : AcceptedRequest} : r.payload H = r'.payload H ↔
      r.proof = r'.proof ∧ r.subject.utf16 = r'.subject.utf16 ∧ r.purpose = r'.purpose ∧
        r.audience.utf16 = r'.audience.utf16 := by
  rw [AcceptedRequest.payload, AcceptedRequest.payload,
    Service.canonicalPayload_eq_iff hH r.encodable r'.encodable,
    Service.utf16_purpose r.purpose_accepted, Service.utf16_purpose r'.purpose_accepted]

/-- **Separation of requests**: a request shares its payload with no other accepted request if
and only if its subject and its audience have one spelling. -/
theorem fingerprint_separates_iff (hH : Function.Injective H.sha256) (r : AcceptedRequest) :
    (∀ r' : AcceptedRequest, r.payload H = r'.payload H →
      r.proof = r'.proof ∧ r.subject = r'.subject ∧ r.purpose = r'.purpose ∧
        r.audience = r'.audience) ↔ r.Separated := by
  constructor
  · intro h
    constructor
    · by_contra hsubject
      have hlen := (Service.text_eq_ok.mp r.subject_accepted).2.2.1
      obtain ⟨t, hne, ht, hunits⟩ := Str.exists_of_not_unambiguous hsubject hlen
      have hother := h { r with
        subject := t
        subject_accepted := Service.text_of_utf16 r.subject_accepted hunits ht }
        ((AcceptedRequest.payload_eq_iff hH).mpr ⟨rfl, hunits.symm, rfl, rfl⟩)
      exact hne hother.2.1.symm
    · by_contra haudience
      have hlen := (Service.text_eq_ok.mp
        (Service.audience_eq_ok.mp r.audience_accepted).1).2.2.1
      obtain ⟨t, hne, ht, hunits⟩ := Str.exists_of_not_unambiguous haudience hlen
      have hother := h { r with
        audience := t
        audience_accepted := Service.audience_of_utf16 r.audience_accepted hunits ht }
        ((AcceptedRequest.payload_eq_iff hH).mpr ⟨rfl, rfl, rfl, hunits.symm⟩)
      exact hne hother.2.2.2.symm
  · rintro ⟨hsubject, haudience⟩ r' hpayload
    obtain ⟨hproof, hs, hpurpose, ha⟩ := (AcceptedRequest.payload_eq_iff hH).mp hpayload
    have hslen := (Service.text_eq_ok.mp r'.subject_accepted).2.2.1
    have halen := (Service.text_eq_ok.mp
      (Service.audience_eq_ok.mp r'.audience_accepted).1).2.2.1
    exact ⟨hproof, hsubject.eq hslen hs, hpurpose, haudience.eq halen ha⟩

namespace Scenario

/-- A request for the subject `s`. -/
def requestAbout (s : Str) (hs : Service.text (.str s) "subject" maxSubjectLength = .ok s) :
    AcceptedRequest where
  proof := lit "op1.hk_00.x"
  subject := s
  purpose := lit "login"
  audience := lit "urn:app"
  proof_accepted := by decide
  subject_accepted := hs
  purpose_accepted := by decide
  audience_accepted := by decide
  encodable := by decide

end Scenario

/-- A request for a plain subject has one spelling, and is told apart from one for another
subject. -/
theorem fingerprint_separates_plain :
    (Scenario.requestAbout (lit "alice") (by decide)).Separated ∧
      (Scenario.requestAbout (lit "alice") (by decide)).payload plainHash ≠
        (Scenario.requestAbout (lit "bob") (by decide)).payload plainHash := by
  have halice : (lit "alice").all (fun c => c.val < 0xD800) = true := by decide
  have happ : (lit "urn:app").all (fun c => c.val < 0xD800) = true := by decide
  have hseparated : (Scenario.requestAbout (lit "alice") (by decide)).Separated := by
    constructor
    · exact Str.unambiguous_of_forall
        (fun c hc => of_decide_eq_true (List.all_eq_true.mp halice c hc)) _
    · exact Str.unambiguous_of_forall
        (fun c hc => of_decide_eq_true (List.all_eq_true.mp happ c hc)) _
  refine ⟨hseparated, fun hpayload => ?_⟩
  have hsame := (fingerprint_separates_iff plainHash_ideal.sha256_inj _).mpr hseparated _ hpayload
  exact absurd hsame.2.1 (by decide)

/-- An astral subject and its two surrogates share their payload. -/
theorem fingerprint_counterexample : ∃ r r' : AcceptedRequest,
    (∀ H, r.payload H = r'.payload H) ∧ r.proof = r'.proof ∧ r.subject ≠ r'.subject := by
  refine ⟨Scenario.requestAbout [0x1F600] (by decide),
    Scenario.requestAbout [0xD83D, 0xDE00] (by decide), fun H => ?_, rfl, by decide⟩
  have hwritten : Json.escape [0x1F600] = Json.escape [0xD83D, 0xDE00] := by decide
  have hcanonical : ∀ d, Service.canonicalRequest d [0x1F600] (lit "login") (lit "urn:app") =
      Service.canonicalRequest d [0xD83D, 0xDE00] (lit "login") (lit "urn:app") :=
    fun d => Service.canonicalRequest_eq_iff.mpr ⟨rfl, hwritten, rfl, rfl⟩
  simp only [AcceptedRequest.payload, Service.canonicalPayload, Scenario.requestAbout,
    hcanonical]

end Onceproof

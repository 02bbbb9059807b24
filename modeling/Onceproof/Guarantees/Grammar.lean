import Onceproof.Contract
import Onceproof.Service.Validation

/-!
# The grammars of the runtime and of the contract

Each grammar of a request is written twice: as a validator that matches a pattern in full, after a
scan for control characters, and as a schema whose anchored pattern is searched and excludes the
control characters itself. `grammars_agree` says that the two accept the same texts.
-/

namespace Onceproof

/-- The validators and the published schemas accept the same texts. -/
structure GrammarsAgree : Prop where
  subject : ∀ s, (Service.text (.str s) "subject" maxSubjectLength).isOk =
    Contract.subject.accepts (.str s)
  purpose : ∀ s, (Service.purpose (.str s)).isOk = Contract.purpose.accepts (.str s)
  audience : ∀ s, (Service.audience (.str s)).isOk = Contract.audience.accepts (.str s)
  idempotencyKey : ∀ s, (Service.idempotencyKey (.str s)).isOk =
    Contract.idempotencyKey.accepts (.str s)

/-! ### The anchors of the runtime patterns -/

/-- The anchors of `_PURPOSE_PATTERN` and `_IDEMPOTENCY_PATTERN` change nothing in a full match. -/
theorem fullmatch_purposePattern (s : Str) :
    (Pattern.lineAnchored purposePattern).fullmatch s = purposePattern.fullmatch s :=
  Pattern.fullmatch_lineAnchored

/-- Nor do those of `_AUDIENCE_PATTERN`. -/
theorem fullmatch_audiencePattern (s : Str) :
    (Pattern.lineAnchored audiencePattern).fullmatch s = audiencePattern.fullmatch s :=
  Pattern.fullmatch_lineAnchored

/-! ### The schemas -/

variable {s : Str}

theorem control_eq_false {c : CodePoint} : Contract.control c = false ↔ 32 ≤ c.val := by
  simp only [Contract.control, Regex.ranges, List.any_cons, List.any_nil, Bool.or_false,
    Bool.and_eq_false_iff, decide_eq_false_iff_not]
  omega

/-- Without control characters, what is visible is what an audience may hold. -/
theorem visible_iff {c : CodePoint} : Contract.visible c = true ↔
    audienceChar c = true ∧ 32 ≤ c.val := by
  rw [Contract.visible, Bool.and_eq_true, Bool.not_eq_true', Bool.not_eq_true',
    control_eq_false, audienceChar, Bool.not_eq_true']

theorem accepts_subject : Contract.subject.accepts (.str s) = true ↔
    s ≠ [] ∧ s.length ≤ 256 ∧ ∀ c ∈ s, 32 ≤ c.val := by
  simp only [Contract.subject, Schema.accepts, Schema.acceptsAll, Pattern.search_anchored,
    Bool.and_eq_true, decide_eq_true_eq, Regex.fullmatch_iff, Regex.mem_plus_cls,
    Bool.not_eq_true', control_eq_false, true_and, and_true]
  constructor
  · rintro ⟨-, hlength, hne, hall⟩
    exact ⟨hne, hlength, hall⟩
  · rintro ⟨hne, hlength, hall⟩
    exact ⟨List.length_pos_iff.mpr hne, hlength, hne, hall⟩

theorem accepts_purpose : Contract.purpose.accepts (.str s) = purposePattern.fullmatch s := by
  simp only [Contract.purpose, Schema.accepts, Schema.acceptsAll, Pattern.search_anchored,
    Bool.true_and, Bool.and_true]
  rfl

theorem mem_httpsAudience : s ∈ Contract.httpsAudience.language ↔
    ∃ r, s = lit "https://" ++ r ∧ r ≠ [] ∧ (∀ c ∈ r.head?, hostChar c = true) ∧
      ∀ c ∈ r, audienceChar c = true ∧ 32 ≤ c.val := by
  have hseparators : ∀ c, (lit "/?#").contains c = true → Contract.visible c = true := by
    intro c hc
    have hall : (lit "/?#").all Contract.visible = true := by decide
    exact List.all_eq_true.mp hall c (by simpa using hc)
  rw [Contract.httpsAudience, Regex.mem_text_seq]
  refine exists_congr fun r => ?_
  have hhost := mem_host_path (fun c => (lit "/?#").contains c) hseparators (r := r)
  rw [and_comm, hhost]
  refine and_congr_right fun _ => and_congr_right fun _ => ?_
  simp only [visible_iff]
  refine and_congr_left fun hall => forall₂_congr fun c hc => ?_
  have hchar := (hall c (List.mem_of_mem_head? hc)).1
  simp [hostChar, hchar]

theorem mem_urnAudience : s ∈ Contract.urnAudience.language ↔
    ∃ r, s = lit "urn:" ++ r ∧ r ≠ [] ∧ ∀ c ∈ r, audienceChar c = true ∧ 32 ≤ c.val := by
  rw [Contract.urnAudience, Regex.mem_text_seq]
  refine exists_congr fun r => ?_
  rw [and_comm, Regex.mem_plus_cls]
  simp only [visible_iff]

/-- No audience satisfies both branches of the schema. -/
theorem not_https_and_urn (hhttps : s ∈ Contract.httpsAudience.language)
    (hurn : s ∈ Contract.urnAudience.language) : False := by
  obtain ⟨r, hr, -⟩ := mem_httpsAudience.mp hhttps
  obtain ⟨r', hr', -⟩ := mem_urnAudience.mp hurn
  have hfirst : some (CodePoint.ofChar 'h') = some (CodePoint.ofChar 'u') :=
    congrArg List.head? (hr.symm.trans hr')
  exact absurd hfirst (by decide)

theorem accepts_audience : Contract.audience.accepts (.str s) = true ↔
    s ≠ [] ∧ s.length ≤ 512 ∧
      (s ∈ Contract.httpsAudience.language ∨ s ∈ Contract.urnAudience.language) := by
  have hone : Schema.branchesAccepting [.pattern (Pattern.anchored Contract.httpsAudience),
      .pattern (Pattern.anchored Contract.urnAudience)] (.str s) = 1 ↔
        s ∈ Contract.httpsAudience.language ∨ s ∈ Contract.urnAudience.language := by
    have hexclusive := @not_https_and_urn s
    simp only [← Regex.fullmatch_iff, ← Pattern.search_anchored] at hexclusive ⊢
    simp only [Schema.branchesAccepting_cons, Schema.branchesAccepting_nil, Schema.accepts_pattern]
    cases hhttps : (Pattern.anchored Contract.httpsAudience).search s
    · cases (Pattern.anchored Contract.urnAudience).search s <;> simp
    · have hurn := Bool.eq_false_iff.mpr (hexclusive hhttps)
      simp [hurn]
  simp only [Contract.audience, Schema.accepts, Schema.acceptsAll, Bool.and_eq_true,
    decide_eq_true_eq, beq_iff_eq, true_and, and_true, hone]
  refine and_congr_left fun _ => ?_
  rw [Nat.one_le_iff_ne_zero, ne_eq, List.length_eq_zero_iff]

/-! ### The agreement -/

theorem isOk_iff {ε α : Type} {x : Except ε α} : x.isOk = true ↔ ∃ a, x = .ok a := by
  cases x with
  | error e => exact ⟨fun h => (by cases h), fun ⟨_, h⟩ => (by cases h)⟩
  | ok a => exact ⟨fun _ => ⟨a, rfl⟩, fun _ => rfl⟩

/-- What the runtime accepts is what it returns. -/
theorem text_isOk {field : String} {maximum : ℕ} :
    (Service.text (.str s) field maximum).isOk = true ↔
      s ≠ [] ∧ s.length ≤ maximum ∧ ∀ c ∈ s, 32 ≤ c.val := by
  rw [isOk_iff]
  constructor
  · rintro ⟨t, ht⟩
    obtain ⟨heq, hrest⟩ := Service.text_eq_ok.mp ht
    obtain rfl := Json.str.inj heq
    exact hrest
  · exact fun h => ⟨s, Service.text_eq_ok.mpr ⟨rfl, h⟩⟩

theorem audience_isOk : (Service.audience (.str s)).isOk = true ↔
    (Service.text (.str s) "audience" maxAudienceLength).isOk = true ∧
      audiencePattern.fullmatch s = true := by
  rw [isOk_iff, isOk_iff]
  constructor
  · rintro ⟨t, ht⟩
    obtain ⟨htext, hmatch⟩ := Service.audience_eq_ok.mp ht
    obtain rfl := Json.str.inj (Service.text_eq_ok.mp htext).1
    exact ⟨⟨s, htext⟩, hmatch⟩
  · rintro ⟨⟨t, htext⟩, hmatch⟩
    obtain rfl := Json.str.inj (Service.text_eq_ok.mp htext).1
    exact ⟨s, Service.audience_eq_ok.mpr ⟨htext, hmatch⟩⟩

/-- The characters after a scheme, with those of the scheme, are no control characters. -/
theorem forall_mem_scheme {scheme : Str} (hscheme : ∀ c ∈ scheme, 32 ≤ c.val) {r : Str} :
    (∀ c ∈ scheme ++ r, 32 ≤ c.val) ↔ ∀ c ∈ r, 32 ≤ c.val := by
  constructor
  · exact fun h c hc => h c (List.mem_append_right _ hc)
  · intro h c hc
    rcases List.mem_append.mp hc with hc | hc
    · exact hscheme c hc
    · exact h c hc

/-- On texts without control characters the two audience grammars are the same. -/
theorem audience_language : (audiencePattern.fullmatch s = true ∧ ∀ c ∈ s, 32 ≤ c.val) ↔
    s ∈ Contract.httpsAudience.language ∨ s ∈ Contract.urnAudience.language := by
  have hhttps : ∀ c ∈ lit "https://", 32 ≤ c.val := by
    have hall : (lit "https://").all (fun c => 32 ≤ c.val) = true := by decide
    exact fun c hc => of_decide_eq_true (List.all_eq_true.mp hall c hc)
  have hurn : ∀ c ∈ lit "urn:", 32 ≤ c.val := by
    have hall : (lit "urn:").all (fun c => 32 ≤ c.val) = true := by decide
    exact fun c hc => of_decide_eq_true (List.all_eq_true.mp hall c hc)
  rw [audiencePattern_iff, or_and_right, mem_httpsAudience, mem_urnAudience]
  refine or_congr ?_ ?_
  · constructor
    · rintro ⟨⟨r, rfl, hne, hhead, hall⟩, hcontrol⟩
      rw [forall_mem_scheme hhttps] at hcontrol
      exact ⟨r, rfl, hne, hhead, fun c hc => ⟨hall c hc, hcontrol c hc⟩⟩
    · rintro ⟨r, rfl, hne, hhead, hall⟩
      rw [forall_mem_scheme hhttps]
      exact ⟨⟨r, rfl, hne, hhead, fun c hc => (hall c hc).1⟩, fun c hc => (hall c hc).2⟩
  · constructor
    · rintro ⟨⟨r, rfl, hne, hall⟩, hcontrol⟩
      rw [forall_mem_scheme hurn] at hcontrol
      exact ⟨r, rfl, hne, fun c hc => ⟨hall c hc, hcontrol c hc⟩⟩
    · rintro ⟨r, rfl, hne, hall⟩
      rw [forall_mem_scheme hurn]
      exact ⟨⟨r, rfl, hne, fun c hc => (hall c hc).1⟩, fun c hc => (hall c hc).2⟩

/-- **The grammars of the runtime and of the contract agree** on every text. -/
theorem grammars_agree : GrammarsAgree where
  subject s := by
    rw [Bool.eq_iff_iff, text_isOk, accepts_subject]
    rfl
  purpose s := by
    rw [accepts_purpose]
    unfold Service.purpose
    dsimp only
    cases purposePattern.fullmatch s <;> rfl
  audience s := by
    rw [Bool.eq_iff_iff, audience_isOk, text_isOk, accepts_audience, ← audience_language]
    constructor
    · rintro ⟨⟨hne, hlength, hcontrol⟩, hmatch⟩
      exact ⟨hne, hlength, hmatch, hcontrol⟩
    · rintro ⟨hne, hlength, hmatch, hcontrol⟩
      exact ⟨⟨hne, hlength, hcontrol⟩, hmatch⟩
  idempotencyKey s := by
    have hsame : Contract.idempotencyKey.accepts (.str s) = purposePattern.fullmatch s :=
      accepts_purpose
    rw [hsame]
    unfold Service.idempotencyKey
    dsimp only
    cases purposePattern.fullmatch s <;> rfl

end Onceproof

import Onceproof.Ledger.Results
import Onceproof.Scenario
import Onceproof.Store.Checks

/-!
# Stored decisions

The reader of stored decisions accepts only dictionaries of consistent results, and what it
returns has exactly the dictionary it was given. Every other text is reported as corruption of
the store, except one that is nested too deeply for the JSON decoder: its `RecursionError` is
not caught (`stored_decisions_iff`). No decision is lost by being stored: what was decided at a
reading that is not negative is what is read back, whatever the order of the readings.
-/

namespace Onceproof

/-! ### Texts that are not read -/

/-- A value that is not the dictionary of a result is reported as corruption. -/
theorem resultFromJson_corrupt {v : Json} (h : ∀ r, VerificationResult.fromDict v ≠ .ok r) :
    resultFromJson (.ok v) = .error .storeCorruptionError := by
  cases hread : resultFromJson (.ok v) with
  | ok r => exact absurd (resultFromJson_eq_ok.mp hread) (h r)
  | error e => rw [resultFromJson_error hread]

/-- A text that the decoder refuses is reported as corruption, unless it is nested too deeply. -/
theorem resultFromJson_undecoded {e : DecodeError} :
    resultFromJson (.error e) = .error .storeCorruptionError ↔ e ≠ .recursion := by
  cases e with
  | invalid => exact iff_of_true rfl nofun
  | overlongInteger => exact iff_of_true rfl nofun
  | recursion => exact iff_of_false nofun fun h => h rfl

/-! ### Exactness -/

/-- The reader of stored decisions decodes a text exactly, where `decoded` is what `json.loads`
makes of the text. -/
structure ExactDecoding (H : HashLib) (decoded : Except DecodeError Json) : Prop where
  /-- What `from_dict` returns is consistent, and its dictionary is what it was given. -/
  sound : ∀ v r, VerificationResult.fromDict v = .ok r → r.Consistent ∧ v.Same r.toDict
  /-- A text that holds such a dictionary is read. -/
  reads : ∀ v r, decoded = .ok v → VerificationResult.fromDict v = .ok r →
    resultFromJson decoded = .ok r
  /-- Every other text is corruption of the store, and nothing else. -/
  rejects : (∀ v r, decoded = .ok v → VerificationResult.fromDict v ≠ .ok r) →
    resultFromJson decoded = .error .storeCorruptionError
  /-- What `consume_proof` stores is read back as it was decided. -/
  complete : ∀ runs s, Lineage H runs s → NonnegativeReadings (lineageCommits runs) →
    ∀ t ∈ lineageCommits runs, ∀ a x result, DecidesAs a x result t →
      resultFromJson (.ok (resultJson result)) = .ok result

/-- **Stored decisions decode exactly** if and only if the decoder copes with the nesting of the
text. -/
theorem stored_decisions_iff (H : HashLib) (loads : Str → Except DecodeError Json) (text : Str) :
    ExactDecoding H (loads text) ↔ loads text ≠ .error .recursion := by
  constructor
  · intro hexact hdeep
    have hcorrupt := hexact.rejects fun v r hv => by
      rw [hdeep] at hv
      cases hv
    rw [hdeep, resultFromJson_undecoded] at hcorrupt
    exact hcorrupt rfl
  · intro hshallow
    refine ⟨fun _ _ => VerificationResult.fromDict_sound, fun v r hv hread => ?_, fun hno => ?_,
      fun _ _ h hreadings => (h.decided_read_back hreadings).2⟩
    · rw [hv]
      exact resultFromJson_eq_ok.mpr hread
    · cases hdecoded : loads text with
      | ok v => exact resultFromJson_corrupt fun r => hno v r hdecoded
      | error e =>
        rw [resultFromJson_undecoded]
        rintro rfl
        exact hshallow hdecoded

/-- A decoder that gives up on ten thousand open brackets. -/
def textBracketLimit (s : Str) : Except DecodeError Json :=
  .error (if 10000 ≤ (s.takeWhile (· = 91)).length then .recursion else .invalid)

theorem takeWhile_brackets (n : ℕ) :
    (List.replicate n (91 : CodePoint)).takeWhile (· = 91) = List.replicate n 91 := by
  simp

/-- A stored text of open brackets is not reported as corruption. -/
theorem stored_decisions_counterexample :
    ¬ ∀ (H : HashLib) (loads : Str → Except DecodeError Json) (text : Str),
      ExactDecoding H (loads text) := by
  intro hall
  have hdeep : textBracketLimit (List.replicate 100000 91) = .error .recursion := by
    rw [textBracketLimit, takeWhile_brackets, List.length_replicate, if_pos (by omega)]
  have hcorrupt := (hall plainHash textBracketLimit (List.replicate 100000 91)).rejects
    fun v r hv => by
      rw [hdeep] at hv
      cases hv
  rw [hdeep, resultFromJson_undecoded] at hcorrupt
  exact hcorrupt rfl

/-- A decision that accepted is stored, and read back as an acceptance. -/
theorem stored_decisions_served : ∃ τ s, SystemRun plainHash τ s ∧
    ∃ v ∈ s.world.ledger.verifications, ∃ result, v.resultJson = resultJson result ∧
      resultFromJson (.ok v.resultJson) = .ok result := by
  obtain ⟨τ, s, hrun, hreadings, hrows⟩ := exists_systemRun
    (Scenario.served ++
      Scenario.thread 0 2 10 (.api (.issueProof (Scenario.issueRequest 25))) 1001 40 ++
      Scenario.thread 0 3 6 (.api (.verifyProof (Scenario.verifyRequest 28 (Scenario.proof 47)
        (lit "login") none))) 1002 60)
    (fun τ s => NonnegativeReadings (commits τ) ∧ s.world.ledger.verifications.rows.length = 1)
    (by decide +kernel)
  have hcommits : lineageCommits [τ] = commits τ := by simp [lineageCommits]
  obtain ⟨v, hv⟩ : ∃ v, v ∈ s.world.ledger.verifications.rows :=
    List.exists_mem_of_length_pos (by omega)
  have hlineage : Lineage plainHash [τ] s := .created hrun
  rcases run_verifications hrun.ledger hv with hv₀ | ⟨t, ht, a, x, result, hdecides, rfl⟩
  · cases hv₀
  · have hexact : ExactDecoding plainHash (.ok (resultJson result)) :=
      (stored_decisions_iff plainHash (fun _ => .ok (resultJson result)) []).mpr nofun
    exact ⟨τ, s, hrun, _, hv, result, rfl, hexact.complete _ _ hlineage (hcommits ▸ hreadings) t
      (hcommits ▸ ht) a x result hdecides⟩

end Onceproof

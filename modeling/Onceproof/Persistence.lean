import Onceproof.Model

/-!
# What a persisted result is read from

The strict readers of persisted results, inverted: a value from which a result is read is the
dictionary of that result, and the result obeys the rules that tie its fields together. What the
readers raise is one of the exceptions that `_result_from_json` catches.

* `persistedText_eq_ok`, `persistedTime_eq_ok` and their like say what one field was read from.
* `VerificationResult.fromDict_sound` is assembled from them, record by record.
-/

namespace Onceproof

/-! ### Fields -/

/-- An object is read if it has exactly the fields. -/
theorem persistedObject_eq_ok {v : Json} {fields : List Str} {record : List (Str × Json)} :
    persistedObject v fields = .ok record ↔
      v = .obj record ∧ ∀ key, key ∈ record.map Prod.fst ↔ key ∈ fields := by
  unfold persistedObject
  cases v with
  | obj members =>
    simp only [Json.obj.injEq]
    split_ifs with hfields
    · constructor
      · intro h
        obtain rfl := Except.ok.inj h
        exact ⟨rfl, fun key => ⟨hfields.1 key, hfields.2 key⟩⟩
      · rintro ⟨rfl, -⟩
        rfl
    · refine ⟨fun h => (by cases h), ?_⟩
      rintro ⟨rfl, hkeys⟩
      exact absurd ⟨fun key hkey => (hkeys key).mp hkey, fun key hkey => (hkeys key).mpr hkey⟩
        hfields
  | _ => simp

/-- A field is read if it is there. -/
theorem recordField_eq_ok {record : List (Str × Json)} {key : String} {v : Json} :
    recordField record key = .ok v ↔ Json.member? record (lit key) = some v := by
  unfold recordField
  cases Json.member? record (lit key) <;> simp

/-- A text is read if it is not empty. -/
theorem persistedText_eq_ok {v : Json} {s : Str} :
    persistedText v = .ok s ↔ v = .str s ∧ s ≠ [] := by
  unfold persistedText
  cases v with
  | str t =>
    simp only [Json.str.injEq]
    split_ifs with ht
    · refine ⟨fun h => (by cases h), ?_⟩
      rintro ⟨rfl, hne⟩
      exact absurd ht hne
    · constructor
      · intro h
        obtain rfl := Except.ok.inj h
        exact ⟨rfl, ht⟩
      · rintro ⟨rfl, -⟩
        rfl
  | _ => simp

/-- A time is read if it is not negative; a boolean is none. -/
theorem persistedTime_eq_ok {v : Json} {n : ℤ} :
    persistedTime v = .ok n ↔ v = .int n ∧ 0 ≤ n := by
  unfold persistedTime
  cases v with
  | int m =>
    simp only [Json.int.injEq]
    split_ifs with hm
    · refine ⟨fun h => (by cases h), ?_⟩
      rintro ⟨rfl, hn⟩
      omega
    · constructor
      · intro h
        obtain rfl := Except.ok.inj h
        exact ⟨rfl, by omega⟩
      · rintro ⟨rfl, -⟩
        rfl
  | _ => simp

/-- What is read of an optional text writes the same value. -/
theorem persistedText?_eq_ok {v : Json} {o : Option Str} (h : persistedText? v = .ok o) :
    v = Json.ofText? o := by
  have hmap : ∀ {v}, (persistedText v).map some = .ok o → v = Json.ofText? o := by
    intro v hv
    cases hs : persistedText v with
    | error e => simp [hs, Except.map] at hv
    | ok s =>
      obtain rfl : some s = o := by simpa [hs, Except.map] using hv
      exact (persistedText_eq_ok.mp hs).1
  cases v with
  | null =>
    obtain rfl := Except.ok.inj h
    rfl
  | _ => exact hmap h

/-- The text of a reason names that reason only. -/
theorem RejectionReason.ofText?_eq_some {s : Str} {r : RejectionReason}
    (h : RejectionReason.ofText? s = some r) : s = r.text := by
  have hp := List.find?_some h
  exact (of_decide_eq_true hp).symm

/-- The text of a state names that state only. -/
theorem WitnessState.ofText?_eq_some {s : Str} {w : WitnessState}
    (h : WitnessState.ofText? s = some w) : s = w.text := by
  have hp := List.find?_some h
  exact (of_decide_eq_true hp).symm

theorem rejectionReason?_eq_some {v : Json} {r : RejectionReason}
    (h : rejectionReason? v = .ok (some r)) : v = .str r.text := by
  cases v with
  | str s => rw [RejectionReason.ofText?_eq_some (Except.ok.inj h)]
  | _ => simp [rejectionReason?] at h

/-! ### Records -/

/-- **Claims** are read from their dictionary, and expire after they were issued. -/
theorem ProofClaims.fromDict_sound {v : Json} {c : ProofClaims}
    (h : ProofClaims.fromDict v = .ok c) : v.Same c.toDict ∧ c.issuedAt < c.expiresAt := by
  obtain ⟨record, hrecord, h⟩ := except_bind_eq_ok h
  obtain ⟨issued, hissued, h⟩ := except_bind_eq_ok h
  obtain ⟨issuedAt, hissuedAt, h⟩ := except_bind_eq_ok h
  obtain ⟨expires, hexpires, h⟩ := except_bind_eq_ok h
  obtain ⟨expiresAt, hexpiresAt, h⟩ := except_bind_eq_ok h
  split_ifs at h with hlife
  · cases h
  obtain ⟨client, hclient, h⟩ := except_bind_eq_ok h
  obtain ⟨clientId, hclientId, h⟩ := except_bind_eq_ok h
  obtain ⟨subject, hsubject, h⟩ := except_bind_eq_ok h
  obtain ⟨subjectText, hsubjectText, h⟩ := except_bind_eq_ok h
  obtain ⟨purpose, hpurpose, h⟩ := except_bind_eq_ok h
  obtain ⟨purposeText, hpurposeText, h⟩ := except_bind_eq_ok h
  obtain ⟨audience, haudience, h⟩ := except_bind_eq_ok h
  obtain ⟨audienceText, haudienceText, h⟩ := except_bind_eq_ok h
  obtain rfl := Except.ok.inj h
  obtain ⟨rfl, hkeys⟩ := persistedObject_eq_ok.mp hrecord
  obtain ⟨rfl, -⟩ := persistedTime_eq_ok.mp hissuedAt
  obtain ⟨rfl, -⟩ := persistedTime_eq_ok.mp hexpiresAt
  obtain ⟨rfl, -⟩ := persistedText_eq_ok.mp hclientId
  obtain ⟨rfl, -⟩ := persistedText_eq_ok.mp hsubjectText
  obtain ⟨rfl, -⟩ := persistedText_eq_ok.mp hpurposeText
  obtain ⟨rfl, -⟩ := persistedText_eq_ok.mp haudienceText
  rw [recordField_eq_ok] at hissued hexpires hclient hsubject hpurpose haudience
  refine ⟨Json.same_obj hkeys ?_, Int.not_le.mp hlife⟩
  simp only [List.forall_mem_cons, List.not_mem_nil, false_imp_iff, implies_true, and_true]
  exact ⟨⟨_, hclient, .refl _⟩, ⟨_, hsubject, .refl _⟩, ⟨_, hpurpose, .refl _⟩,
    ⟨_, haudience, .refl _⟩, ⟨_, hissued, .refl _⟩, ⟨_, hexpires, .refl _⟩⟩

/-- The fields of a witness that its reader reads last. -/
private theorem VerificationWitness.fromDict_rest {record : List (Str × Json)}
    {proofTag clientId : Option Str} {reason : Option RejectionReason} {w : VerificationWitness}
    (h : (do
      let state ← match WitnessState.ofText? (← persistedText (← recordField record "state")) with
        | some w => pure w
        | none => throw invalidPersistedVerification
      let verificationId ← persistedText (← recordField record "verification_id")
      let decidedAt ← persistedTime (← recordField record "decided_at")
      return ({ state, verificationId, proofTag, clientId, decidedAt, reason } :
        VerificationWitness)) = .ok w) :
    Json.member? record (lit "state") = some (.str w.state.text) ∧
      Json.member? record (lit "verification_id") = some (.str w.verificationId) ∧
      Json.member? record (lit "decided_at") = some (.int w.decidedAt) ∧
      w.proofTag = proofTag ∧ w.clientId = clientId ∧ w.reason = reason := by
  obtain ⟨stateValue, hstateValue, h⟩ := except_bind_eq_ok h
  obtain ⟨stateText, hstateText, h⟩ := except_bind_eq_ok h
  cases hstate : WitnessState.ofText? stateText with
  | none => simp [hstate] at h
  | some state =>
    simp only [hstate] at h
    obtain ⟨_, hpure, h⟩ := except_bind_eq_ok h
    obtain rfl := Except.ok.inj hpure
    obtain ⟨idValue, hidValue, h⟩ := except_bind_eq_ok h
    obtain ⟨verificationId, hid, h⟩ := except_bind_eq_ok h
    obtain ⟨decidedValue, hdecidedValue, h⟩ := except_bind_eq_ok h
    obtain ⟨decidedAt, hdecided, h⟩ := except_bind_eq_ok h
    obtain rfl := Except.ok.inj h
    obtain ⟨rfl, -⟩ := persistedText_eq_ok.mp hstateText
    obtain ⟨rfl, -⟩ := persistedText_eq_ok.mp hid
    obtain ⟨rfl, -⟩ := persistedTime_eq_ok.mp hdecided
    rw [recordField_eq_ok] at hstateValue hidValue hdecidedValue
    rw [WitnessState.ofText?_eq_some hstate] at hstateValue
    exact ⟨hstateValue, hidValue, hdecidedValue, rfl, rfl, rfl⟩

/-- **A witness** is read from its dictionary. -/
theorem VerificationWitness.fromDict_sound {v : Json} {w : VerificationWitness}
    (h : VerificationWitness.fromDict v = .ok w) : v.Same w.toDict := by
  obtain ⟨record, hrecord, h⟩ := except_bind_eq_ok h
  obtain ⟨tag, htag, h⟩ := except_bind_eq_ok h
  obtain ⟨proofTag, hproofTag, h⟩ := except_bind_eq_ok h
  obtain ⟨client, hclient, h⟩ := except_bind_eq_ok h
  obtain ⟨clientId, hclientId, h⟩ := except_bind_eq_ok h
  obtain ⟨reasonValue, hreasonValue, h⟩ := except_bind_eq_ok h
  have hread : ∃ reason : Option RejectionReason,
      reasonValue = Json.ofText? (reason.map RejectionReason.text) ∧
        Json.member? record (lit "state") = some (.str w.state.text) ∧
        Json.member? record (lit "verification_id") = some (.str w.verificationId) ∧
        Json.member? record (lit "decided_at") = some (.int w.decidedAt) ∧
        w.proofTag = proofTag ∧ w.clientId = clientId ∧ w.reason = reason := by
    dsimp only at h
    split at h
    · exact ⟨none, rfl, fromDict_rest h⟩
    · obtain ⟨found, hfound, h⟩ := except_bind_eq_ok h
      cases found with
      | none => cases h
      | some r => exact ⟨some r, rejectionReason?_eq_some hfound, fromDict_rest h⟩
  obtain ⟨reason, rfl, hstate, hid, hdecided, htagEq, hclientEq, hreason⟩ := hread
  obtain ⟨rfl, hkeys⟩ := persistedObject_eq_ok.mp hrecord
  obtain rfl := persistedText?_eq_ok hproofTag
  obtain rfl := persistedText?_eq_ok hclientId
  rw [recordField_eq_ok] at htag hclient hreasonValue
  refine Json.same_obj hkeys ?_
  simp only [List.forall_mem_cons, List.not_mem_nil, false_imp_iff, implies_true, and_true,
    htagEq, hclientEq, hreason]
  exact ⟨⟨_, hstate, .refl _⟩, ⟨_, hid, .refl _⟩, ⟨_, htag, .refl _⟩, ⟨_, hclient, .refl _⟩,
    ⟨_, hdecided, .refl _⟩, ⟨_, hreasonValue, .refl _⟩⟩

/-- The rules that tie the fields of a result together: an accepted one has its claims, a tag and
no reason, a rejected one has one reason twice and the state that belongs to it. -/
inductive VerificationResult.Consistent (r : VerificationResult) : Prop
  | accepted (claims : ProofClaims) (verified : r.verified = true)
      (present : r.claims = some claims) (state : r.witness.state = .verifiedOnce)
      (noReason : r.reason = none ∧ r.witness.reason = none) (tag : r.witness.proofTag ≠ none)
      (client : r.witness.clientId = some claims.clientId)
      (lifetime : claims.issuedAt < claims.expiresAt) : Consistent r
  | rejected (reason : RejectionReason) (verified : r.verified = false)
      (absent : r.claims = none)
      (reasons : r.reason = some reason ∧ r.witness.reason = some reason)
      (state : r.witness.state =
        if reason = .alreadyConsumed then .replayRejected else .rejected) : Consistent r

/-- Only a repeated presentation is recorded as a replay. -/
theorem RejectionReason.expectedState_eq (r : RejectionReason) :
    r.expectedState = if r = .alreadyConsumed then .replayRejected else .rejected := by
  cases r <;> rfl

/-- **Soundness of the reader**: a value from which a result is read is the dictionary of that
result, which is consistent. -/
theorem VerificationResult.fromDict_sound {v : Json} {r : VerificationResult}
    (h : VerificationResult.fromDict v = .ok r) : r.Consistent ∧ v.Same r.toDict := by
  obtain ⟨record, hrecord, h⟩ := except_bind_eq_ok h
  obtain ⟨verifiedValue, hverified, h⟩ := except_bind_eq_ok h
  dsimp only at h
  split at h
  · rename_i verified
    obtain ⟨_, hpure, h⟩ := except_bind_eq_ok h
    obtain rfl := Except.ok.inj hpure
    obtain ⟨witnessValue, hwitnessValue, h⟩ := except_bind_eq_ok h
    obtain ⟨w, hw, h⟩ := except_bind_eq_ok h
    obtain ⟨reasonValue, hreason, h⟩ := except_bind_eq_ok h
    obtain ⟨claimsValue, hclaims, h⟩ := except_bind_eq_ok h
    have hsame := VerificationWitness.fromDict_sound hw
    obtain ⟨rfl, hkeys⟩ := persistedObject_eq_ok.mp hrecord
    rw [recordField_eq_ok] at hverified hwitnessValue hreason hclaims
    cases verified with
    | true =>
      rw [if_pos rfl] at h
      obtain ⟨claims, hc, h⟩ := except_bind_eq_ok h
      obtain ⟨hclaimsSame, hlife⟩ := ProofClaims.fromDict_sound hc
      split at h
      · split_ifs at h with hrules
        · cases h
        obtain rfl := Except.ok.inj h
        simp only [not_or, not_not] at hrules
        obtain ⟨hstate, hnoReason, htag, hclient⟩ := hrules
        refine ⟨.accepted claims rfl rfl hstate ⟨rfl, hnoReason⟩ htag hclient hlife,
          Json.same_obj hkeys ?_⟩
        simp only [List.forall_mem_cons, List.not_mem_nil, false_imp_iff, implies_true, and_true]
        exact ⟨⟨_, hverified, .refl _⟩, ⟨_, hreason, .refl _⟩, ⟨_, hwitnessValue, hsame⟩,
          ⟨_, hclaims, hclaimsSame⟩⟩
      · cases h
    | false =>
      rw [if_neg Bool.false_ne_true] at h
      obtain ⟨found, hfound, h⟩ := except_bind_eq_ok h
      cases found with
      | none => cases h
      | some reason =>
        cases claimsValue with
        | null =>
          have hwitnessReason : w.reason = some reason := by
            by_contra hne
            simp [hne] at h
          have hstate : w.state = reason.expectedState := by
            by_contra hne
            simp [hwitnessReason, hne] at h
          simp only [hwitnessReason, hstate, ne_eq, not_true, if_false] at h
          obtain rfl := Except.ok.inj h
          refine ⟨.rejected reason rfl rfl ⟨rfl, hwitnessReason⟩
            (hstate.trans reason.expectedState_eq), Json.same_obj hkeys ?_⟩
          obtain rfl := rejectionReason?_eq_some hfound
          simp only [List.forall_mem_cons, List.not_mem_nil, false_imp_iff, implies_true, and_true]
          exact ⟨⟨_, hverified, .refl _⟩, ⟨_, hreason, .refl _⟩, ⟨_, hwitnessValue, hsame⟩,
            ⟨_, hclaims, .refl _⟩⟩
        | _ => cases h
  · cases h

/-! ### Exceptions -/

/-- The exceptions that `_result_from_json` turns into a `StoreCorruptionError`. -/
def Error.IsReadError : Error → Prop
  | .keyError _ | .typeError | .valueError _ => True
  | _ => False

/-- A reader that raises only what `_result_from_json` catches. -/
def Caught {α : Type} (x : Except Error α) : Prop := ∀ e, x = .error e → e.IsReadError

theorem caught_ok {α : Type} (a : α) : Caught (.ok a) := fun e h => by cases h

/-- Raising one of the caught exceptions. -/
theorem caught_throw {α : Type} {e : Error} (h : e.IsReadError) :
    Caught (throw e : Except Error α) := by
  intro e' he
  obtain rfl := Except.error.inj he
  exact h

/-- Parts one after the other. -/
theorem Caught.bind {α β : Type} {x : Except Error α} {f : α → Except Error β} (hx : Caught x)
    (hf : ∀ a, Caught (f a)) : Caught (x >>= f) := by
  intro e h
  cases x with
  | ok a => exact hf a e h
  | error e' =>
    obtain rfl := Except.error.inj h
    exact hx _ rfl

/-- The readers of single values raise nothing else. -/
theorem caught_persistedObject (v : Json) (fields : List Str) :
    Caught (persistedObject v fields) := by
  unfold persistedObject
  split
  · split_ifs
    · exact caught_ok _
    · exact caught_throw trivial
  · exact caught_throw trivial

theorem caught_recordField (record : List (Str × Json)) (key : String) :
    Caught (recordField record key) := by
  unfold recordField
  split
  · exact caught_ok _
  · exact caught_throw trivial

theorem caught_persistedText (v : Json) : Caught (persistedText v) := by
  unfold persistedText
  split
  · split_ifs
    · exact caught_throw trivial
    · exact caught_ok _
  · exact caught_throw trivial

theorem caught_persistedTime (v : Json) : Caught (persistedTime v) := by
  unfold persistedTime
  split
  · split_ifs
    · exact caught_throw trivial
    · exact caught_ok _
  · exact caught_throw trivial

theorem caught_persistedText? (v : Json) : Caught (persistedText? v) := by
  unfold persistedText?
  split
  · exact caught_ok _
  · exact (caught_persistedText _).bind fun s => caught_ok (some s)

theorem caught_rejectionReason? (v : Json) : Caught (rejectionReason? v) := by
  unfold rejectionReason?
  split
  · exact caught_ok _
  · exact caught_throw trivial
  · exact caught_throw trivial
  · exact caught_ok _

/-- The claims of a result. -/
theorem ProofClaims.caught_fromDict (v : Json) : Caught (ProofClaims.fromDict v) := by
  refine (caught_persistedObject _ _).bind fun record => ?_
  refine (caught_recordField _ _).bind fun _ => (caught_persistedTime _).bind fun _ => ?_
  refine (caught_recordField _ _).bind fun _ => (caught_persistedTime _).bind fun _ => ?_
  dsimp only
  split_ifs
  · exact caught_throw trivial
  refine (caught_recordField _ _).bind fun _ => (caught_persistedText _).bind fun _ => ?_
  refine (caught_recordField _ _).bind fun _ => (caught_persistedText _).bind fun _ => ?_
  refine (caught_recordField _ _).bind fun _ => (caught_persistedText _).bind fun _ => ?_
  exact (caught_recordField _ _).bind fun _ => (caught_persistedText _).bind fun _ => caught_ok _

/-- What follows once the optional fields of a witness are read. -/
private theorem VerificationWitness.caught_rest (record : List (Str × Json))
    (proofTag clientId : Option Str) (reason : Option RejectionReason) : Caught (do
      let state ← match WitnessState.ofText? (← persistedText (← recordField record "state")) with
        | some w => pure w
        | none => throw invalidPersistedVerification
      let verificationId ← persistedText (← recordField record "verification_id")
      let decidedAt ← persistedTime (← recordField record "decided_at")
      return ({ state, verificationId, proofTag, clientId, decidedAt, reason } :
        VerificationWitness)) := by
  refine (caught_recordField _ _).bind fun _ => (caught_persistedText _).bind fun text => ?_
  dsimp only
  split
  · refine (caught_ok _).bind fun _ => (caught_recordField _ _).bind fun _ => ?_
    refine (caught_persistedText _).bind fun _ => (caught_recordField _ _).bind fun _ => ?_
    exact (caught_persistedTime _).bind fun _ => caught_ok _
  · exact caught_throw trivial

/-- The witness of a result. -/
theorem VerificationWitness.caught_fromDict (v : Json) :
    Caught (VerificationWitness.fromDict v) := by
  refine (caught_persistedObject _ _).bind fun record => ?_
  refine (caught_recordField _ _).bind fun _ => (caught_persistedText? _).bind fun _ => ?_
  refine (caught_recordField _ _).bind fun _ => (caught_persistedText? _).bind fun _ => ?_
  refine (caught_recordField _ _).bind fun reason => ?_
  dsimp only
  split
  · exact caught_rest record _ _ none
  · refine (caught_rejectionReason? _).bind fun found => ?_
    cases found with
    | none => exact caught_throw trivial
    | some r => exact caught_rest record _ _ (some r)

/-- **A reader raises only what is caught.** -/
theorem VerificationResult.caught_fromDict (v : Json) : Caught (VerificationResult.fromDict v) := by
  refine (caught_persistedObject _ _).bind fun record => ?_
  refine (caught_recordField _ _).bind fun _ => ?_
  dsimp only
  split
  · rename_i verified
    refine (caught_ok _).bind fun _ => (caught_recordField _ _).bind fun _ => ?_
    refine (VerificationWitness.caught_fromDict _).bind fun w => ?_
    refine (caught_recordField _ _).bind fun reason =>
      (caught_recordField _ _).bind fun claims => ?_
    split_ifs
    · refine (ProofClaims.caught_fromDict _).bind fun c => ?_
      split
      · split_ifs
        · exact caught_throw trivial
        · exact caught_ok _
      · exact caught_throw trivial
    · refine (caught_rejectionReason? _).bind fun found => ?_
      split
      · split_ifs with hreasons hstate hstate
        · exact caught_throw trivial
        · exact caught_throw trivial
        · exact caught_throw trivial
        · exact caught_ok _
      · exact caught_throw trivial
  · exact caught_throw trivial

end Onceproof

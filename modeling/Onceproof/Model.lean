import Onceproof.Errors
import Onceproof.Lib.Json

/-!
# Typed records

The records that keep proof issuance distinct from verifier acceptance, and the dictionary
form in which a verification result is persisted with its decision. `toDict` and `fromDict`
follow the source field by field; `fromDict` is the strict reader of a persisted result.

* `fromDict_persist_toDict` is the round trip through the ledger: a well formed result that
  was written as JSON text is read back unchanged.
* `fromDict_toDict_eq`: whatever is read back from a result's dictionary is that result.
-/

namespace Onceproof

/-- `_REJECTION_REASONS`. -/
inductive RejectionReason
  | credentialRejected
  | invalid
  | expired
  | alreadyConsumed
  | bindingMismatch
  deriving DecidableEq

/-- The states of a verification witness. -/
inductive WitnessState
  | verifiedOnce
  | rejected
  | replayRejected
  deriving DecidableEq

/-- The text of a rejection reason. -/
def RejectionReason.text : RejectionReason → Str
  | credentialRejected => lit "credential_rejected"
  | invalid => lit "invalid"
  | expired => lit "expired"
  | alreadyConsumed => lit "already_consumed"
  | bindingMismatch => lit "binding_mismatch"

/-- The rejection reason with a given text. -/
def RejectionReason.ofText? (s : Str) : Option RejectionReason :=
  [credentialRejected, invalid, expired, alreadyConsumed, bindingMismatch].find?
    fun r => r.text = s

/-- The text of a witness state. -/
def WitnessState.text : WitnessState → Str
  | verifiedOnce => lit "verified_once"
  | rejected => lit "rejected"
  | replayRejected => lit "replay_rejected"

/-- The witness state with a given text. -/
def WitnessState.ofText? (s : Str) : Option WitnessState :=
  [verifiedOnce, rejected, replayRejected].find? fun w => w.text = s

@[simp]
theorem RejectionReason.ofText?_text (r : RejectionReason) : ofText? r.text = some r := by
  cases r <;> decide

@[simp]
theorem WitnessState.ofText?_text (w : WitnessState) : ofText? w.text = some w := by
  cases w <;> decide

/-! ### Records -/

/-- Newly generated credentials, returned once to the local operator. -/
structure ClientCredentials where
  clientId : Str
  issuanceCredentialId : Str
  issuanceSecret : Str
  verificationCredentialId : Str
  verificationSecret : Str

/-- A replacement secret together with the credential it replaced. -/
structure RotatedCredential where
  clientId : Str
  credentialId : Str
  role : Str
  secret : Str
  previousCredentialId : Str
  previousValidUntil : ℤ

/-- Issuer output: it does not claim that a verifier accepted the proof. -/
structure ProofReceipt where
  proofTag : Str
  clientId : Str
  subject : Str
  purpose : Str
  audience : Str
  issuedAt : ℤ
  expiresAt : ℤ
  deriving DecidableEq

/-- The bearer proof beside its receipt. -/
structure IssuedProof where
  proof : Str
  receipt : ProofReceipt
  deriving DecidableEq

/-- The claims of an accepted proof. -/
structure ProofClaims where
  clientId : Str
  subject : Str
  purpose : Str
  audience : Str
  issuedAt : ℤ
  expiresAt : ℤ
  deriving DecidableEq

/-- The boundary state reached by one verification attempt. -/
structure VerificationWitness where
  state : WitnessState
  verificationId : Str
  proofTag : Option Str
  clientId : Option Str
  decidedAt : ℤ
  reason : Option RejectionReason
  deriving DecidableEq

/-- A verification result: claims only when the boundary was crossed. -/
structure VerificationResult where
  verified : Bool
  reason : Option RejectionReason
  witness : VerificationWitness
  claims : Option ProofClaims
  deriving DecidableEq

/-! ### Dictionary form -/

/-- An optional text as JSON. -/
def Json.ofText? : Option Str → Json
  | some s => .str s
  | none => .null

@[simp] theorem Json.ofText?_none : Json.ofText? none = .null := rfl

@[simp] theorem Json.ofText?_some (s : Str) : Json.ofText? (some s) = .str s := rfl

def ProofClaims.toDict (c : ProofClaims) : Json :=
  .obj [(lit "client_id", .str c.clientId), (lit "subject", .str c.subject),
    (lit "purpose", .str c.purpose), (lit "audience", .str c.audience),
    (lit "issued_at", .int c.issuedAt), (lit "expires_at", .int c.expiresAt)]

def VerificationWitness.toDict (w : VerificationWitness) : Json :=
  .obj [(lit "state", .str w.state.text), (lit "verification_id", .str w.verificationId),
    (lit "proof_tag", Json.ofText? w.proofTag), (lit "client_id", Json.ofText? w.clientId),
    (lit "decided_at", .int w.decidedAt),
    (lit "reason", Json.ofText? (w.reason.map RejectionReason.text))]

def VerificationResult.toDict (r : VerificationResult) : Json :=
  .obj [(lit "verified", .bool r.verified),
    (lit "reason", Json.ofText? (r.reason.map RejectionReason.text)),
    (lit "witness", r.witness.toDict),
    (lit "claims", match r.claims with
      | some c => c.toDict
      | none => .null)]

/-! ### Reading persisted results -/

/-- The exception of every failed check on a persisted result. -/
def invalidPersistedVerification : Error := .valueError "invalid_persisted_verification"

/-- `_persisted_object`. -/
def persistedObject (value : Json) (fields : List Str) :
    Except Error (List (Str × Json)) :=
  match value with
  | .obj members =>
    if (∀ m ∈ members.map Prod.fst, m ∈ fields) ∧ (∀ f ∈ fields, f ∈ members.map Prod.fst) then
      .ok members
    else .error invalidPersistedVerification
  | _ => .error invalidPersistedVerification

/-- `record[key]`. -/
def recordField (record : List (Str × Json)) (key : String) : Except Error Json :=
  match Json.member? record (lit key) with
  | some v => .ok v
  | none => .error (.keyError (lit key))

/-- `_persisted_text`. -/
def persistedText (value : Json) : Except Error Str :=
  match value with
  | .str s => if s = [] then .error invalidPersistedVerification else .ok s
  | _ => .error invalidPersistedVerification

/-- `_persisted_time`. -/
def persistedTime (value : Json) : Except Error ℤ :=
  match value with
  | .int n => if n < 0 then .error invalidPersistedVerification else .ok n
  | _ => .error invalidPersistedVerification

/-- A persisted field that may be `None`. -/
def persistedText? (value : Json) : Except Error (Option Str) :=
  match value with
  | .null => .ok none
  | v => (persistedText v).map some

/-- `value in _REJECTION_REASONS`: lists and dictionaries are not hashable. -/
def rejectionReason? (value : Json) : Except Error (Option RejectionReason) :=
  match value with
  | .str s => .ok (RejectionReason.ofText? s)
  | .arr _ | .obj _ => .error .typeError
  | _ => .ok none

def claimFields : List Str :=
  [lit "client_id", lit "subject", lit "purpose", lit "audience", lit "issued_at",
    lit "expires_at"]

def witnessFields : List Str :=
  [lit "state", lit "verification_id", lit "proof_tag", lit "client_id", lit "decided_at",
    lit "reason"]

def resultFields : List Str :=
  [lit "verified", lit "reason", lit "witness", lit "claims"]

def ProofClaims.fromDict (value : Json) : Except Error ProofClaims := do
  let record ← persistedObject value claimFields
  let issuedAt ← persistedTime (← recordField record "issued_at")
  let expiresAt ← persistedTime (← recordField record "expires_at")
  if expiresAt ≤ issuedAt then
    throw invalidPersistedVerification
  let clientId ← persistedText (← recordField record "client_id")
  let subject ← persistedText (← recordField record "subject")
  let purpose ← persistedText (← recordField record "purpose")
  let audience ← persistedText (← recordField record "audience")
  return { clientId, subject, purpose, audience, issuedAt, expiresAt }

/-- The reader of a witness. Its state is looked up among the three states; the source
compares it with the one the result calls for, and rejects every other text there. -/
def VerificationWitness.fromDict (value : Json) : Except Error VerificationWitness := do
  let record ← persistedObject value witnessFields
  let proofTag ← persistedText? (← recordField record "proof_tag")
  let clientId ← persistedText? (← recordField record "client_id")
  let reason ← match ← recordField record "reason" with
    | .null => pure none
    | v => match ← rejectionReason? v with
      | some r => pure (some r)
      | none => throw invalidPersistedVerification
  let state ← match WitnessState.ofText? (← persistedText (← recordField record "state")) with
    | some w => pure w
    | none => throw invalidPersistedVerification
  let verificationId ← persistedText (← recordField record "verification_id")
  let decidedAt ← persistedTime (← recordField record "decided_at")
  return { state, verificationId, proofTag, clientId, decidedAt, reason }

/-- The state that the witness of a rejection must carry. -/
def RejectionReason.expectedState : RejectionReason → WitnessState
  | alreadyConsumed => .replayRejected
  | _ => .rejected

def VerificationResult.fromDict (value : Json) : Except Error VerificationResult := do
  let record ← persistedObject value resultFields
  let verified ← match ← recordField record "verified" with
    | .bool b => pure b
    | _ => throw invalidPersistedVerification
  let witness ← VerificationWitness.fromDict (← recordField record "witness")
  let reason ← recordField record "reason"
  let claimsValue ← recordField record "claims"
  if verified then
    let claims ← ProofClaims.fromDict claimsValue
    match reason with
    | .null =>
      if witness.state ≠ .verifiedOnce ∨ witness.reason ≠ none ∨ witness.proofTag = none ∨
          witness.clientId ≠ some claims.clientId then
        throw invalidPersistedVerification
      return { verified := true, reason := none, witness, claims := some claims }
    | _ => throw invalidPersistedVerification
  else
    match ← rejectionReason? reason, claimsValue with
    | some r, .null =>
      if witness.reason ≠ some r then
        throw invalidPersistedVerification
      if witness.state ≠ r.expectedState then
        throw invalidPersistedVerification
      return { verified := false, reason := some r, witness, claims := none }
    | _, _ => throw invalidPersistedVerification

/-! ### Round trip -/

/-- Claims whose texts the ledger can hold. -/
structure ProofClaims.Encodable (c : ProofClaims) : Prop where
  clientId : c.clientId.encodable = true
  subject : c.subject.encodable = true
  purpose : c.purpose.encodable = true
  audience : c.audience.encodable = true

/-- A result whose texts the ledger can hold. -/
structure VerificationResult.Encodable (r : VerificationResult) : Prop where
  verificationId : r.witness.verificationId.encodable = true
  proofTag : ∀ t, r.witness.proofTag = some t → t.encodable = true
  clientId : ∀ t, r.witness.clientId = some t → t.encodable = true
  claims : ∀ c, r.claims = some c → c.Encodable

/-- A text that the ledger can hold and a reader accepts. -/
def Storable (s : Str) : Prop := s ≠ [] ∧ s.encodable = true

/-- The claims that survive persistence. -/
structure ProofClaims.WellFormed (c : ProofClaims) : Prop where
  clientId : Storable c.clientId
  subject : Storable c.subject
  purpose : Storable c.purpose
  audience : Storable c.audience
  issuedAt : 0 ≤ c.issuedAt
  expiresAt : c.issuedAt < c.expiresAt

/-- The results that survive persistence: an accepted one with its claims, or a rejected one
with the same reason twice and the state that belongs to it. -/
structure VerificationResult.WellFormed (r : VerificationResult) : Prop where
  verificationId : Storable r.witness.verificationId
  proofTag : ∀ t, r.witness.proofTag = some t → Storable t
  clientId : ∀ t, r.witness.clientId = some t → Storable t
  decidedAt : 0 ≤ r.witness.decidedAt
  shape : (r.verified = true ∧ r.reason = none ∧ r.witness.reason = none ∧
      r.witness.state = .verifiedOnce ∧ r.witness.proofTag ≠ none ∧
      ∃ c, r.claims = some c ∧ c.WellFormed ∧ r.witness.clientId = some c.clientId) ∨
    (r.verified = false ∧ r.claims = none ∧ ∃ reason, r.reason = some reason ∧
      r.witness.reason = some reason ∧ r.witness.state = reason.expectedState)

theorem ProofClaims.WellFormed.encodable {c : ProofClaims} (h : c.WellFormed) :
    c.Encodable := ⟨h.clientId.2, h.subject.2, h.purpose.2, h.audience.2⟩

theorem VerificationResult.WellFormed.encodable {r : VerificationResult} (h : r.WellFormed) :
    r.Encodable := by
  refine ⟨h.verificationId.2, fun t ht => (h.proofTag t ht).2,
    fun t ht => (h.clientId t ht).2, fun c hc => ?_⟩
  rcases h.shape with ⟨-, -, -, -, -, c', hc', hwf, -⟩ | ⟨-, hnone, -⟩
  · rw [hc'] at hc
    exact Option.some.inj hc ▸ hwf.encodable
  · rw [hnone] at hc
    cases hc

theorem persist_str {s : Str} (h : s.encodable = true) :
    Json.persist (.str s) = .str s := by
  simp [Json.persist, Str.joinSurrogates_of_encodable h]

@[simp] theorem persistedText_str {s : Str} (h : Storable s) :
    persistedText (.str s) = .ok s := by
  simp [persistedText, h.1]

theorem persist_ofText? {o : Option Str} (h : ∀ s, o = some s → s.encodable = true) :
    Json.persist (Json.ofText? o) = Json.ofText? o := by
  cases o with
  | none => rfl
  | some s => exact persist_str (h s rfl)

theorem persistedText?_ofText? {o : Option Str} (h : ∀ s, o = some s → Storable s) :
    persistedText? (Json.ofText? o) = .ok o := by
  cases o with
  | none => rfl
  | some s => simp [Json.ofText?, persistedText?, persistedText_str (h s rfl), Except.map]

theorem persistedTime_int {n : ℤ} (h : 0 ≤ n) : persistedTime (.int n) = .ok n := by
  simp [persistedTime, Int.not_lt.mpr h]

theorem recordField_cons (k : Str) (v : Json) (record : List (Str × Json)) (key : String) :
    recordField ((k, v) :: record) key =
      if k = lit key then .ok v else recordField record key := by
  unfold recordField Json.member?
  by_cases h : k = lit key <;> simp [h]

theorem storable_reasonText (r : RejectionReason) : Storable r.text := by
  cases r <;> exact ⟨by decide, by decide⟩

theorem storable_stateText (w : WitnessState) : Storable w.text := by
  cases w <;> exact ⟨by decide, by decide⟩

theorem ProofClaims.persist_toDict {c : ProofClaims} (h : c.Encodable) :
    Json.persist c.toDict = c.toDict := by
  simp [ProofClaims.toDict, Json.persist, Json.persistMembers,
    Str.joinSurrogates_of_encodable h.clientId, Str.joinSurrogates_of_encodable h.subject,
    Str.joinSurrogates_of_encodable h.purpose, Str.joinSurrogates_of_encodable h.audience]

theorem ProofClaims.fromDict_toDict {c : ProofClaims} (h : c.WellFormed) :
    ProofClaims.fromDict c.toDict = .ok c := by
  have hissued := persistedTime_int h.issuedAt
  have hexpires := persistedTime_int (Int.le_trans h.issuedAt (Int.le_of_lt h.expiresAt))
  simp [ProofClaims.fromDict, ProofClaims.toDict, persistedObject, claimFields,
    recordField_cons, hissued, hexpires, Int.not_le.mpr h.expiresAt,
    persistedText_str h.clientId, persistedText_str h.subject, persistedText_str h.purpose,
    persistedText_str h.audience]

theorem VerificationWitness.persist_toDict {w : VerificationWitness}
    (hid : w.verificationId.encodable = true)
    (htag : ∀ t, w.proofTag = some t → t.encodable = true)
    (hclient : ∀ t, w.clientId = some t → t.encodable = true) :
    Json.persist w.toDict = w.toDict := by
  have hreason : ∀ s, w.reason.map RejectionReason.text = some s → s.encodable = true := by
    intro s hs
    obtain ⟨r, -, rfl⟩ := Option.map_eq_some_iff.mp hs
    exact (storable_reasonText r).2
  simp [VerificationWitness.toDict, Json.persist, Json.persistMembers,
    Str.joinSurrogates_of_encodable hid, persist_ofText? htag, persist_ofText? hclient,
    persist_ofText? hreason,
    Str.joinSurrogates_of_encodable (storable_stateText w.state).2]

theorem VerificationWitness.fromDict_toDict {w : VerificationWitness}
    (hid : Storable w.verificationId) (htag : ∀ t, w.proofTag = some t → Storable t)
    (hclient : ∀ t, w.clientId = some t → Storable t) (hdecided : 0 ≤ w.decidedAt) :
    VerificationWitness.fromDict w.toDict = .ok w := by
  obtain ⟨state, verificationId, proofTag, clientId, decidedAt, reason⟩ := w
  have hstate := persistedText_str (storable_stateText state)
  have htag' := persistedText?_ofText? htag
  have hclient' := persistedText?_ofText? hclient
  simp only [VerificationWitness.fromDict, VerificationWitness.toDict]
  cases reason with
  | none =>
    simp [persistedObject, witnessFields, recordField_cons, htag', hclient', hstate,
      persistedText_str hid, persistedTime_int hdecided]
  | some r =>
    simp [persistedObject, witnessFields, recordField_cons, htag', hclient', hstate,
      persistedText_str hid, persistedTime_int hdecided, rejectionReason?]

/-- The ledger's form of a result with encodable texts is its dictionary. -/
theorem VerificationResult.persist_toDict {r : VerificationResult} (h : r.Encodable) :
    Json.persist r.toDict = r.toDict := by
  have hreason : ∀ s, r.reason.map RejectionReason.text = some s → s.encodable = true := by
    intro s hs
    obtain ⟨x, -, rfl⟩ := Option.map_eq_some_iff.mp hs
    exact (storable_reasonText x).2
  have hclaims : Json.persist (match r.claims with
      | some c => c.toDict
      | none => .null) = match r.claims with
      | some c => c.toDict
      | none => .null := by
    cases hc : r.claims with
    | some c => exact ProofClaims.persist_toDict (h.claims c hc)
    | none => rfl
  simp [VerificationResult.toDict, Json.persist, Json.persistMembers, hclaims,
    persist_ofText? hreason,
    VerificationWitness.persist_toDict h.verificationId h.proofTag h.clientId,
    Str.joinSurrogates_of_encodable]

/-- **Round trip**: a well formed result is read back from the ledger unchanged. -/
theorem VerificationResult.fromDict_persist_toDict {r : VerificationResult}
    (h : r.WellFormed) : VerificationResult.fromDict (Json.persist r.toDict) = .ok r := by
  rw [VerificationResult.persist_toDict h.encodable]
  obtain ⟨verified, reason, w, claims⟩ := r
  have hw := VerificationWitness.fromDict_toDict h.verificationId h.proofTag h.clientId
    h.decidedAt
  simp only at hw
  rcases h.shape with ⟨rfl, rfl, hwr, hws, hwt, c, rfl, hc, hwc⟩ |
      ⟨rfl, rfl, x, rfl, hwr, hws⟩
  · simp only at hwr hws hwt hwc
    simp [VerificationResult.fromDict, VerificationResult.toDict, persistedObject,
      resultFields, recordField_cons, hw, ProofClaims.fromDict_toDict hc, hwr, hws, hwt, hwc]
  · simp only at hwr hws
    simp [VerificationResult.fromDict, VerificationResult.toDict, persistedObject,
      resultFields, recordField_cons, hw, rejectionReason?, hwr, hws]

/-! ### Reading is the inverse of writing -/

private theorem persistedText_eq {s s' : Str} (h : persistedText (.str s) = .ok s') : s' = s := by
  simp only [persistedText] at h
  split_ifs at h
  exact (Except.ok.inj h).symm

private theorem persistedText?_eq {o o' : Option Str}
    (h : persistedText? (Json.ofText? o) = .ok o') : o' = o := by
  cases o with
  | none => exact (Except.ok.inj h).symm
  | some s =>
    simp only [Json.ofText?_some, persistedText?] at h
    cases hs : persistedText (.str s) with
    | error e => simp [hs, Except.map] at h
    | ok s' =>
      simp only [hs, Except.map, Except.ok.injEq] at h
      rw [← h, persistedText_eq hs]

private theorem persistedTime_eq {n n' : ℤ} (h : persistedTime (.int n) = .ok n') : n' = n := by
  simp only [persistedTime] at h
  split_ifs at h
  exact (Except.ok.inj h).symm

theorem ProofClaims.fromDict_toDict_eq {c c' : ProofClaims}
    (h : ProofClaims.fromDict c.toDict = .ok c') : c' = c := by
  simp [ProofClaims.fromDict, ProofClaims.toDict, persistedObject, claimFields,
    recordField_cons] at h
  obtain ⟨issuedAt, hissued, h⟩ := except_bind_eq_ok h
  obtain ⟨expiresAt, hexpires, h⟩ := except_bind_eq_ok h
  split_ifs at h
  obtain ⟨clientId, hclient, h⟩ := except_bind_eq_ok h
  obtain ⟨subject, hsubject, h⟩ := except_bind_eq_ok h
  obtain ⟨purpose, hpurpose, h⟩ := except_bind_eq_ok h
  obtain ⟨audience, haudience, h⟩ := except_bind_eq_ok h
  rw [← Except.ok.inj h, persistedTime_eq hissued, persistedTime_eq hexpires,
    persistedText_eq hclient, persistedText_eq hsubject, persistedText_eq hpurpose,
    persistedText_eq haudience]

theorem VerificationWitness.fromDict_toDict_eq {w w' : VerificationWitness}
    (h : VerificationWitness.fromDict w.toDict = .ok w') : w' = w := by
  obtain ⟨state, verificationId, proofTag, clientId, decidedAt, reason⟩ := w
  simp [VerificationWitness.fromDict, VerificationWitness.toDict, persistedObject,
    witnessFields, recordField_cons, persistedText_str (storable_stateText state)] at h
  obtain ⟨proofTag', htag, h⟩ := except_bind_eq_ok h
  obtain ⟨clientId', hclient, h⟩ := except_bind_eq_ok h
  have hfields : ∃ reason', reason' = reason ∧ (do
      let verificationId ← persistedText (Json.str verificationId)
      let decidedAt ← persistedTime (Json.int decidedAt)
      Except.ok (VerificationWitness.mk state verificationId proofTag' clientId' decidedAt
        reason')) = .ok w' := by
    cases reason with
    | none => exact ⟨none, rfl, h⟩
    | some r =>
      simp [rejectionReason?] at h
      exact ⟨some r, rfl, h⟩
  obtain ⟨reason', hreason, hrest⟩ := hfields
  obtain ⟨verificationId', hid, hrest⟩ := except_bind_eq_ok hrest
  obtain ⟨decidedAt', hdecided, hrest⟩ := except_bind_eq_ok hrest
  rw [← Except.ok.inj hrest, persistedText?_eq htag, persistedText?_eq hclient, hreason,
    persistedText_eq hid, persistedTime_eq hdecided]

/-- **Reading inverts writing**: what is read back from a dictionary is the result it was
made from. -/
theorem VerificationResult.fromDict_toDict_eq {r r' : VerificationResult}
    (h : VerificationResult.fromDict r.toDict = .ok r') : r' = r := by
  obtain ⟨verified, reason, w, claims⟩ := r
  simp [VerificationResult.fromDict, VerificationResult.toDict, persistedObject,
    resultFields, recordField_cons] at h
  obtain ⟨w', hw, h'⟩ := except_bind_eq_ok h
  clear h
  obtain rfl : w' = w := VerificationWitness.fromDict_toDict_eq hw
  have hnull : ∀ c, ProofClaims.fromDict .null ≠ .ok c := by
    intro c hc
    obtain ⟨_, hrecord, -⟩ := except_bind_eq_ok hc
    cases hrecord
  cases verified with
  | true =>
    rw [if_pos rfl] at h'
    obtain ⟨c', hc, hrest⟩ := except_bind_eq_ok h'
    cases claims with
    | none => exact absurd hc (hnull c')
    | some c =>
      obtain rfl : c' = c := ProofClaims.fromDict_toDict_eq hc
      cases reason with
      | some x => cases hrest
      | none =>
        simp only [Option.map_none, Json.ofText?_none] at hrest
        split_ifs at hrest
        exact (Except.ok.inj hrest).symm
  | false =>
    rw [if_neg Bool.false_ne_true] at h'
    obtain ⟨reason', hreason, hrest⟩ := except_bind_eq_ok h'
    cases reason with
    | none =>
      obtain rfl := Except.ok.inj hreason
      cases claims <;> cases hrest
    | some x =>
      simp only [Option.map_some, Json.ofText?_some, rejectionReason?,
        RejectionReason.ofText?_text, Except.ok.injEq] at hreason
      subst hreason
      cases claims with
      | some c => cases hrest
      | none =>
        simp only at hrest
        split_ifs at hrest
        exact (Except.ok.inj hrest).symm

end Onceproof

import Onceproof.Http.App
import Onceproof.Service.Faultless
import Onceproof.Scenario

/-!
# Client input and internal errors

A POST to the API is answered from the exceptions that its headers, its body and the service
raise. All of them have a clause of their own in the handler but one: a body whose nesting exceeds
the limit of the JSON decoder ends in `RecursionError`, and the caller gets a 500.

The service may be answered by any ledger, and other requests may run in between.
-/

namespace Onceproof

/-- The path of the command that a role allows. -/
def Role.path : Role → Str
  | .issuance => lit "/v1/proofs"
  | .verification => lit "/v1/verifications"

namespace Http

variable {H : HashLib} {loads : Bytes → Decoding} {maxRequestBytes : ℕ} {scope : Scope}
variable {role : Role} {B : Bytes} {ms : List Message} {hist : Hist}

/-- The fields of the body that the command of a role allows, and those it requires. -/
def allowedFields : Role → List Str
  | .issuance => issueFields
  | .verification => verifyFields

def requiredFields : Role → List Str
  | .issuance => issueRequired
  | .verification => verifyFields

/-- The credential in the request was accepted for the role. -/
def Authenticated (H : HashLib) (scope : Scope) (role : Role) (hist : Hist) : Prop :=
  ∃ secret h₁ h₂, bearerSecret scope = .ok secret ∧ hist = h₁ ++ h₂ ∧
    (Service.credentialIsAccepted H (.str secret) role.text).Yields h₁ (.ok true)

/-- The text is a JSON object with all required, no unknown and no duplicate fields. -/
def WellFormed (loads : Bytes → Decoding) (role : Role) (B : Bytes) : Prop :=
  ∃ members, (loads B).value = .ok (.obj members) ∧
    (∀ m ∈ members, m.1 ∈ allowedFields role) ∧
    ∀ field ∈ requiredFields role, field ∈ members.map Prod.fst

/-- The decoder runs into the recursion limit, and meets no duplicate field before. -/
def Decoding.TooDeep (d : Decoding) : Prop :=
  (∀ pairs ∈ d.objects, (pairs.map Prod.fst).Nodup) ∧ d.ending = .error .recursion

/-- An exception that has a clause of its own. -/
def HasClause : HttpError → Prop
  | .request status _ => status ≠ 500
  | .service e => e.Answered
  | .recursionError => False

/-! ### Responses -/

theorem valueErrorResponse_status (code : String) :
    (valueErrorResponse code).status = 403 ∨ (valueErrorResponse code).status = 409 ∨
      (valueErrorResponse code).status = 400 := by
  unfold valueErrorResponse
  by_cases haudience : code = "audience_not_allowed"
  · rw [if_pos haudience]
    exact Or.inl rfl
  · rw [if_neg haudience]
    by_cases hconflict : code = "idempotency_conflict"
    · rw [if_pos hconflict]
      exact Or.inr (Or.inl rfl)
    · rw [if_neg hconflict]
      exact Or.inr (Or.inr rfl)

/-- An exception with a clause of its own is not an internal error. -/
theorem HasClause.status {e : HttpError} (h : HasClause e) : (errorResponse e).status ≠ 500 := by
  cases e with
  | request status code => exact h
  | recursionError => exact h.elim
  | service e =>
    have hvalue : ∀ code, (valueErrorResponse code).status ≠ 500 := by
      intro code
      have := valueErrorResponse_status code
      omega
    cases e with
    | valueError code => exact hvalue code
    | unicodeEncodeError => exact hvalue _
    | permissionError | rateLimitError | storeCorruptionError | restoreRequiredError
    | integrityError => simp [errorResponse]
    | _ => exact h.elim

/-! ### Headers -/

theorem bearerSecret_error {e : HttpError} (h : bearerSecret scope = .error e) :
    e = .request 401 "credential_rejected" := by
  unfold bearerSecret at h
  split at h
  · split at h
    · exact (Except.error.inj h).symm
    · dsimp only at h
      split_ifs at h
      · exact (Except.error.inj h).symm
      · exact (Except.error.inj h).symm
  · exact (Except.error.inj h).symm

theorem idempotencyKey_error {e : HttpError} (h : idempotencyKey scope = .error e) :
    ∃ code, e = .request 400 code := by
  unfold idempotencyKey at h
  split at h
  · cases h
  · split at h
    · exact ⟨_, (Except.error.inj h).symm⟩
    · cases h
  · exact ⟨_, (Except.error.inj h).symm⟩

theorem requestedTtl_error {payload : List (Str × Json)} {e : HttpError}
    (h : requestedTtl payload = .error e) : ∃ code, e = .request 400 code := by
  unfold requestedTtl at h
  split at h
  · cases h
  · dsimp only at h
    split at h
    · split_ifs at h
      exact ⟨_, (Except.error.inj h).symm⟩
    · exact ⟨_, (Except.error.inj h).symm⟩

/-! ### Bodies -/

/-- A decoded value, or an exception that is answered with 400, or the recursion limit. -/
theorem Decoding.value_error {d : Decoding} {e : HttpError} (h : d.value = .error e) :
    (HasClause e ∧ (errorResponse e).status = 400 ∧ ¬ d.TooDeep) ∨
      (e = .recursionError ∧ d.TooDeep) := by
  rcases except_bind_eq_error h with hhook | ⟨items, hhook, hending⟩
  · obtain ⟨pairs, hpairs, hduplicate⟩ := except_mapM_eq_error hhook
    unfold objectWithoutDuplicates at hduplicate
    split_ifs at hduplicate with hnodup
    rw [← Except.error.inj hduplicate]
    exact Or.inl ⟨by simp [HasClause], rfl, fun hdeep => hnodup (hdeep.1 pairs hpairs)⟩
  · cases hvalue : d.ending with
    | ok v =>
      rw [hvalue] at hending
      cases hending
    | error e' =>
      rw [hvalue] at hending
      obtain rfl := Except.error.inj hending
      cases e' with
      | invalid =>
        refine Or.inl ⟨by simp [raised, HasClause], rfl, fun hdeep => ?_⟩
        rw [hdeep.2] at hvalue
        cases hvalue
      | overlongInteger =>
        refine Or.inl ⟨trivial, by decide, fun hdeep => ?_⟩
        rw [hdeep.2] at hvalue
        cases hvalue
      | recursion =>
        refine Or.inr ⟨rfl, fun pairs hpairs => ?_, hvalue⟩
        obtain ⟨value, hobject⟩ := except_mapM_ok_of_mem hhook pairs hpairs
        unfold objectWithoutDuplicates at hobject
        split_ifs at hobject with hnodup
        exact hnodup

theorem Decoding.value_of_tooDeep {d : Decoding} (h : d.TooDeep) :
    d.value = .error .recursionError := by
  cases hvalue : d.value with
  | ok v =>
    obtain ⟨_, -, hending⟩ := except_bind_eq_ok hvalue
    rw [h.2] at hending
    cases hending
  | error e =>
    rcases Decoding.value_error hvalue with ⟨-, -, hshallow⟩ | ⟨rfl, -⟩
    · exact absurd h hshallow
    · rfl

theorem strictObject_error {value : Json} {allowed required : List Str} {e : HttpError}
    (h : strictObject value allowed required = .error e) : ∃ code, e = .request 400 code := by
  unfold strictObject at h
  split at h
  · split_ifs at h
    · exact ⟨_, (Except.error.inj h).symm⟩
    · exact ⟨_, (Except.error.inj h).symm⟩
  · exact ⟨_, (Except.error.inj h).symm⟩

theorem strictObject_ok {value : Json} {allowed required : List Str}
    {members : List (Str × Json)} (h : strictObject value allowed required = .ok members) :
    value = .obj members ∧ (∀ m ∈ members, m.1 ∈ allowed) ∧
      ∀ field ∈ required, field ∈ members.map Prod.fst := by
  unfold strictObject at h
  split at h
  · split_ifs at h with hunknown hmissing
    obtain rfl := Except.ok.inj h
    refine ⟨rfl, fun m hm => ?_, fun field hfield => ?_⟩
    · by_contra hno
      exact hunknown (List.any_eq_true.mpr ⟨m, hm, decide_eq_true hno⟩)
    · by_contra hno
      exact hmissing (List.any_eq_true.mpr ⟨field, hfield, decide_eq_true hno⟩)
  · cases h

/-- What reading a request gives, where `deep` says that the decoder gives up: what was asked for,
or an exception that a JSON request sees as a 400, or the recursion limit. -/
def Reads {α : Type} (scope : Scope) (wellFormed deep : Prop) (x : Except HttpError α) : Prop :=
  match x with
  | .ok _ => wellFormed ∧ ¬ deep
  | .error e => (HasClause e ∧ (contentTypeIsJson scope = true → (errorResponse e).status = 400) ∧
      ¬ deep) ∨ (e = .recursionError ∧ deep)

/-- The body is read by the decoder, which runs into its limit. -/
def DeepBody (loads : Bytes → Decoding) (scope : Scope) (B : Bytes) : Prop :=
  contentTypeIsJson scope = true ∧ B ≠ [] ∧ (loads B).TooDeep

/-- The body of the request is deep, and the header before it is accepted. -/
def DeepRequest (loads : Bytes → Decoding) (scope : Scope) (role : Role) (B : Bytes) : Prop :=
  DeepBody loads scope B ∧ (role = .verification → ∃ key, idempotencyKey scope = .ok key)

theorem hasClause_of_400 {e : HttpError} (h : ∃ code, e = .request 400 code) :
    HasClause e ∧ (errorResponse e).status = 400 := by
  obtain ⟨code, rfl⟩ := h
  exact ⟨by simp [HasClause], rfl⟩

theorem readJson_reads (hB : Delivers B ms) (hfits : B.length ≤ maxRequestBytes) :
    Reads scope (WellFormed loads role B) (DeepBody loads scope B)
      (readJson loads maxRequestBytes scope ms (allowedFields role) (requiredFields role)) := by
  rw [readJson_of_delivers hB]
  by_cases hjson : contentTypeIsJson scope = false
  · rw [if_pos hjson]
    refine Or.inl ⟨by simp [HasClause], fun h => ?_, fun h => ?_⟩
    · rw [hjson] at h
      cases h
    · have hmedia := h.1
      rw [hjson] at hmedia
      cases hmedia
  rw [if_neg hjson, if_neg (not_lt.mpr hfits)]
  by_cases hempty : B = []
  · rw [if_pos hempty]
    exact Or.inl ⟨by simp [HasClause], fun _ => rfl, fun h => h.2.1 hempty⟩
  rw [if_neg hempty]
  cases hvalue : (loads B).value with
  | error e =>
    rcases Decoding.value_error hvalue with ⟨hclause, hstatus, hshallow⟩ | ⟨rfl, hdeep⟩
    · exact Or.inl ⟨hclause, fun _ => hstatus, fun h => hshallow h.2.2⟩
    · exact Or.inr ⟨rfl, by simpa using hjson, hempty, hdeep⟩
  | ok value =>
    have hshallow : ¬ DeepBody loads scope B := by
      rintro ⟨-, -, hdeep⟩
      rw [Decoding.value_of_tooDeep hdeep] at hvalue
      cases hvalue
    rw [except_ok_bind]
    cases hobject : strictObject value (allowedFields role) (requiredFields role) with
    | error e =>
      obtain ⟨hclause, hstatus⟩ := hasClause_of_400 (strictObject_error hobject)
      exact Or.inl ⟨hclause, fun _ => hstatus, hshallow⟩
    | ok members =>
      obtain ⟨rfl, hallowed, hrequired⟩ := strictObject_ok hobject
      exact ⟨⟨members, hvalue, hallowed, hrequired⟩, hshallow⟩

/-- What `_issue` reads. -/
theorem issuePayload_reads (hB : Delivers B ms) (hfits : B.length ≤ maxRequestBytes) :
    Reads scope (WellFormed loads .issuance B) (DeepRequest loads scope .issuance B)
      (issuePayload loads maxRequestBytes scope ms) := by
  have hiff : DeepRequest loads scope .issuance B ↔ DeepBody loads scope B :=
    and_iff_left nofun
  have hread : Reads scope (WellFormed loads .issuance B) (DeepBody loads scope B)
      (readJson loads maxRequestBytes scope ms (allowedFields .issuance)
        (requiredFields .issuance)) := readJson_reads hB hfits
  rw [propext hiff, issuePayload]
  cases hjson : readJson loads maxRequestBytes scope ms issueFields issueRequired with
  | error e =>
    rw [allowedFields, requiredFields, hjson] at hread
    exact hread
  | ok payload =>
    rw [allowedFields, requiredFields, hjson] at hread
    rw [except_ok_bind]
    cases httl : requestedTtl payload with
    | error e =>
      obtain ⟨hclause, hstatus⟩ := hasClause_of_400 (requestedTtl_error httl)
      exact Or.inl ⟨hclause, fun _ => hstatus, hread.2⟩
    | ok ttlSeconds => exact hread

/-- What `_verify` reads. -/
theorem verifyPayload_reads (hB : Delivers B ms) (hfits : B.length ≤ maxRequestBytes) :
    Reads scope (WellFormed loads .verification B) (DeepRequest loads scope .verification B)
      (verifyPayload loads maxRequestBytes scope ms) := by
  have hread : Reads scope (WellFormed loads .verification B) (DeepBody loads scope B)
      (readJson loads maxRequestBytes scope ms (allowedFields .verification)
        (requiredFields .verification)) := readJson_reads hB hfits
  rw [verifyPayload]
  cases hkey : idempotencyKey scope with
  | error e =>
    obtain ⟨hclause, hstatus⟩ := hasClause_of_400 (idempotencyKey_error hkey)
    refine Or.inl ⟨hclause, fun _ => hstatus, ?_⟩
    rintro ⟨-, haccepted⟩
    obtain ⟨key, hkey'⟩ := haccepted rfl
    cases hkey.symm.trans hkey'
  | ok key =>
    have hiff : DeepRequest loads scope .verification B ↔ DeepBody loads scope B :=
      and_iff_left fun _ => ⟨key, hkey⟩
    rw [propext hiff, except_ok_bind]
    cases hjson : readJson loads maxRequestBytes scope ms verifyFields verifyFields with
    | error e =>
      rw [allowedFields, requiredFields, hjson] at hread
      exact hread
    | ok payload =>
      rw [allowedFields, requiredFields, hjson] at hread
      exact hread

/-! ### Calls -/

theorem yields_call {α : Type} {p : HostProg α} {y : Except HttpError α} :
    (call p).Yields hist y ↔ ∃ x, p.Yields hist x ∧ y = x.mapError HttpError.service := by
  unfold call
  rw [Prog.yields_bind]
  constructor
  · rintro (⟨x, h₁, h₂, rfl, hp, hlift⟩ | ⟨e, hp, -⟩)
    · obtain ⟨x', hx', hx⟩ := Prog.yields_attempt.mp hp
      obtain rfl := Except.ok.inj hx
      obtain ⟨rfl, rfl⟩ := Prog.yields_lift.mp hlift
      rw [List.append_nil]
      exact ⟨x, hx', rfl⟩
    · obtain ⟨x', -, hx⟩ := Prog.yields_attempt.mp hp
      cases hx
  · rintro ⟨x, hx, rfl⟩
    exact Or.inl ⟨x, hist, [], (List.append_nil hist).symm, Prog.yields_attempt.mpr ⟨x, hx, rfl⟩,
      Prog.yields_lift.mpr ⟨rfl, rfl⟩⟩

/-- The two commands: the credential is checked, then the payload is read, then the service is
called. -/
def guarded {α : Type} (H : HashLib) (scope : Scope) (role : Role) (x : Except HttpError α)
    (rest : Str → α → AppProg Response) : AppProg Response :=
  Prog.lift (bearerSecret scope) >>= fun secret =>
    authenticate H secret role >>= fun _ => Prog.lift x >>= rest secret

theorem issue_eq : issue H loads maxRequestBytes scope ms =
    guarded H scope .issuance (issuePayload loads maxRequestBytes scope ms) fun secret a =>
      call (Service.issueProof H (issueRequest secret a.1 a.2)) >>= fun issued =>
        pure (issuedResponse issued) := rfl

theorem verify_eq : verify H loads maxRequestBytes scope ms =
    guarded H scope .verification (verifyPayload loads maxRequestBytes scope ms) fun secret a =>
      call (Service.verifyProof H (verifyRequest secret a.2 a.1)) >>= fun result =>
        Prog.lift (verifiedResponse result) := rfl

/-- The outcomes of the check of a credential. -/
theorem yields_authenticate {secret : Str} {y : Except HttpError Unit}
    (h : (authenticate H secret role).Yields hist y) :
    ∃ x, (Service.credentialIsAccepted H (.str secret) role.text).Yields hist x ∧
      y = match x with
        | .ok true => .ok ()
        | .ok false => .error (.service (.permissionError "credential_rejected"))
        | .error e => .error (.service e) := by
  unfold authenticate at h
  rcases Prog.yields_bind.mp h with ⟨accepted, h₁, h₂, rfl, hcall, hrest⟩ | ⟨e, hcall, rfl⟩
  · obtain ⟨x, hx, heq⟩ := yields_call.mp hcall
    cases x with
    | error e => cases heq
    | ok b =>
      obtain rfl := Except.ok.inj heq
      cases accepted with
      | true =>
        cases hrest
        rw [List.append_nil]
        exact ⟨_, hx, rfl⟩
      | false =>
        cases hrest
        rw [List.append_nil]
        exact ⟨_, hx, rfl⟩
  · obtain ⟨x, hx, heq⟩ := yields_call.mp hcall
    cases x with
    | ok b => cases heq
    | error e' =>
      obtain rfl := Except.error.inj heq
      exact ⟨_, hx, rfl⟩

/-- **A command** is refused with a clause of its own before the credential is accepted; then it
fails with its payload, or goes on. -/
theorem yields_guarded {α : Type} {x : Except HttpError α} {rest : Str → α → AppProg Response}
    {y : Except HttpError Response} (h : (guarded H scope role x rest).Yields hist y)
    (hfaultless : ∀ a ∈ hist, a.1.FaultFree a.2) :
    (¬ Authenticated H scope role hist ∧ ∃ e, y = .error e ∧ HasClause e) ∨
      Authenticated H scope role hist ∧ ((∃ e, x = .error e ∧ y = .error e) ∨
        ∃ secret a τ, x = .ok a ∧ (rest secret a).Yields τ y ∧ ∀ b ∈ τ, b.1.FaultFree b.2) := by
  rcases Prog.yields_lift_bind.mp h with ⟨secret, hsecret, h⟩ | ⟨e, hsecret, rfl, rfl⟩
  · have hunique : ∀ {h₁ h₂ : Hist} {b : Except Error Bool}, hist = h₁ ++ h₂ →
        (Service.credentialIsAccepted H (.str secret) role.text).Yields h₁ b →
        Authenticated H scope role hist → b = .ok true := by
      rintro h₁ h₂ b hcut hb ⟨secret', h₁', h₂', hsecret', hcut', haccepted⟩
      obtain rfl := Except.ok.inj (hsecret.symm.trans hsecret')
      exact (hb.unique haccepted (hcut.symm.trans hcut')).2
    rcases Prog.yields_bind.mp h with ⟨_, h₁, h₂, hcut, hauth, h⟩ | ⟨e, hauth, rfl⟩
    · obtain ⟨b, hb, heq⟩ := yields_authenticate hauth
      rcases b with e | accepted
      · cases heq
      cases accepted with
      | false => cases heq
      | true =>
        refine Or.inr ⟨⟨secret, h₁, h₂, hsecret, hcut, hb⟩, ?_⟩
        rcases Prog.yields_lift_bind.mp h with ⟨a, hx, h⟩ | ⟨e, hx, -, rfl⟩
        · refine Or.inr ⟨secret, a, h₂, hx, h, fun c hc => hfaultless c ?_⟩
          rw [hcut]
          exact List.mem_append_right h₁ hc
        · exact Or.inl ⟨e, hx, rfl⟩
    · obtain ⟨b, hb, heq⟩ := yields_authenticate hauth
      refine Or.inl ⟨fun hacc => ?_, e, rfl, ?_⟩
      · obtain rfl := hunique (List.append_nil hist).symm hb hacc
        cases heq
      · rcases b with e' | accepted
        · obtain rfl := Except.error.inj heq
          exact (credentialIsAccepted_answered _ _).yields hb hfaultless e' rfl
        · cases accepted with
          | true => cases heq
          | false =>
            obtain rfl := Except.error.inj heq
            trivial
  · refine Or.inl ⟨?_, e, rfl, ?_⟩
    · rintro ⟨secret, -, -, hsecret', -, -⟩
      cases hsecret.symm.trans hsecret'
    · rw [bearerSecret_error hsecret]
      simp [HasClause]

/-! ### Requests -/

/-- What the handler sends. -/
def sent : Except HttpError Response → Response
  | .ok response => response
  | .error e => errorResponse e

/-- What is left of a command after its payload was read does not end in an internal error. -/
theorem yields_issued {q : IssueRequest} {y : Except HttpError Response}
    (h : (call (Service.issueProof H q) >>= fun issued => pure (issuedResponse issued)).Yields
      hist y) (hfaultless : ∀ a ∈ hist, a.1.FaultFree a.2) : (sent y).status ≠ 500 := by
  rcases Prog.yields_bind.mp h with ⟨issued, h₁, h₂, rfl, -, hrest⟩ | ⟨e, hcall, rfl⟩
  · cases hrest
    simp [sent, issuedResponse]
  · obtain ⟨x, hx, heq⟩ := yields_call.mp hcall
    cases x with
    | ok issued => cases heq
    | error e' =>
      obtain rfl := Except.error.inj heq
      have hanswered := (issueProof_answered q).yields hx hfaultless e' rfl
      exact HasClause.status (e := .service e') hanswered

theorem yields_verified {q : VerifyRequest} {y : Except HttpError Response}
    (h : (call (Service.verifyProof H q) >>= fun result =>
      Prog.lift (verifiedResponse result)).Yields
      hist y) (hfaultless : ∀ a ∈ hist, a.1.FaultFree a.2) : (sent y).status ≠ 500 := by
  rcases Prog.yields_bind.mp h with ⟨result, h₁, h₂, rfl, -, hrest⟩ | ⟨e, hcall, rfl⟩
  · obtain ⟨-, rfl⟩ := Prog.yields_lift.mp hrest
    unfold verifiedResponse
    split_ifs
    · simp [sent, errorResponse]
    · simp [sent]
  · obtain ⟨x, hx, heq⟩ := yields_call.mp hcall
    cases x with
    | ok result => cases heq
    | error e' =>
      obtain rfl := Except.error.inj heq
      have hanswered := (verifyProof_answered q).yields hx hfaultless e' rfl
      exact HasClause.status (e := .service e') hanswered

/-- The answer to a command, by what reading the request gives. -/
theorem sent_guarded {α : Type} {x : Except HttpError α} {rest : Str → α → AppProg Response}
    {wellFormed deep : Prop} {y : Except HttpError Response}
    (h : (guarded H scope role x rest).Yields hist y) (hfaultless : ∀ a ∈ hist, a.1.FaultFree a.2)
    (hx : Reads scope wellFormed deep x)
    (hrest : ∀ secret a τ, (rest secret a).Yields τ y → (∀ b ∈ τ, b.1.FaultFree b.2) →
      (sent y).status ≠ 500) :
    ((sent y).status ≠ 500 ∧ (Authenticated H scope role hist → contentTypeIsJson scope = true →
      ¬ wellFormed → (sent y).status = 400)) ↔ ¬ (Authenticated H scope role hist ∧ deep) := by
  rcases yields_guarded h hfaultless with ⟨hno, e, rfl, hclause⟩ | ⟨hacc, hend⟩
  · refine iff_of_true ⟨hclause.status, fun hacc => absurd hacc hno⟩ fun hboth => hno hboth.1
  rcases hend with ⟨e, rfl, rfl⟩ | ⟨secret, a, τ, rfl, hτ, hgood⟩
  · rcases hx with ⟨hclause, hstatus, hshallow⟩ | ⟨rfl, hdeep⟩
    · exact iff_of_true ⟨hclause.status, fun _ hjson _ => hstatus hjson⟩
        fun hboth => hshallow hboth.2
    · exact iff_of_false (fun hgood => hgood.1 rfl) fun hno => hno ⟨hacc, hdeep⟩
  · have hwell : wellFormed := hx.1
    exact iff_of_true ⟨hrest secret a τ hτ hgood, fun _ _ hmalformed => absurd hwell hmalformed⟩
      fun hboth => hx.2 hboth.2

/-- The handler sends what its routes end with. -/
theorem yields_http {x : Except HttpError Response} (hquery : scope.queryString = [])
    (h : (http H loads maxRequestBytes scope ms).Yields hist x) :
    ∃ y, (route H loads maxRequestBytes scope ms).Yields hist y ∧ x = .ok (sent y) := by
  rw [http, if_neg (not_not.mpr hquery)] at h
  rcases Prog.yields_bind.mp h with ⟨y, h₁, h₂, rfl, hroute, hend⟩ | ⟨e, hroute, -⟩
  · obtain ⟨y', hy', heq⟩ := Prog.yields_attempt.mp hroute
    obtain rfl := Except.ok.inj heq
    cases y with
    | ok response =>
      cases hend
      rw [List.append_nil]
      exact ⟨_, hy', rfl⟩
    | error e =>
      cases hend
      rw [List.append_nil]
      exact ⟨_, hy', rfl⟩
  · obtain ⟨_, -, heq⟩ := Prog.yields_attempt.mp hroute
    cases heq

/-- The command that a role allows. -/
def command (H : HashLib) (loads : Bytes → Decoding) (maxRequestBytes : ℕ) (scope : Scope)
    (ms : List Message) : Role → AppProg Response
  | .issuance => issue H loads maxRequestBytes scope ms
  | .verification => verify H loads maxRequestBytes scope ms

/-- A POST to the path of a role is routed to its command. -/
theorem route_post (hmethod : upper scope.method = lit "POST") (hpath : scope.path = role.path) :
    route H loads maxRequestBytes scope ms = command H loads maxRequestBytes scope ms role := by
  unfold route
  dsimp only
  rw [hmethod, hpath]
  cases role with
  | issuance =>
    rw [if_neg (by decide), if_neg (by decide), if_pos (by decide)]
    rfl
  | verification =>
    rw [if_neg (by decide), if_neg (by decide), if_neg (by decide), if_pos (by decide)]
    rfl

/-- A credential is not accepted without a command. -/
theorem not_authenticated_nil : ¬ Authenticated H scope role [] := by
  rintro ⟨secret, h₁, h₂, -, hcut, haccepted⟩
  obtain ⟨rfl, -⟩ := List.append_eq_nil_iff.mp hcut.symm
  unfold Service.credentialIsAccepted at haccepted
  cases role <;> cases haccepted

/-! ### A deep body -/

theorem runWith_lift {C I W α ε : Type} {A : C → Type} {exec : (c : C) → I → W → Option (A c × W)}
    {i : I} {w : W} (y : Except ε α) :
    (Prog.lift y : Prog C A ε α).runWith exec i w = some (y, w) := by
  cases y <;> rfl

/-- An accepted credential lets a command read its payload. -/
theorem runWith_guarded_error {α : Type} {x : Except HttpError α}
    {rest : Str → α → AppProg Response}
    {p tid : ℕ} {i : Choice} {w w' : World} {secret : Str} {e : HttpError}
    (hsecret : bearerSecret scope = .ok secret)
    (haccepted : (Service.credentialIsAccepted H (.str secret) role.text).runWith (Op.exec p tid) i
      w = some (.ok true, w')) (hx : x = .error e) :
    (guarded H scope role x rest).runWith (Op.exec p tid) i w = some (.error e, w') := by
  have hauth : (authenticate H secret role).runWith (Op.exec p tid) i w = some (.ok (), w') := by
    unfold authenticate call
    rw [Prog.runWith_bind, Prog.runWith_bind, Prog.runWith_attempt, haccepted]
    rfl
  unfold guarded
  rw [Prog.runWith_bind, hsecret, runWith_lift]
  dsimp only
  rw [Prog.runWith_bind, hauth]
  dsimp only
  rw [Prog.runWith_bind, hx, runWith_lift]

/-- **A deep body** of an authenticated request for a proof is answered with 500. -/
theorem runWith_http_deep {p tid : ℕ} {i : Choice} {w w' : World} {secret : Str}
    (hmethod : upper scope.method = lit "POST") (hpath : scope.path = lit "/v1/proofs")
    (hquery : scope.queryString = []) (hsecret : bearerSecret scope = .ok secret)
    (haccepted : (Service.credentialIsAccepted H (.str secret) Role.issuance.text).runWith
      (Op.exec p tid) i w = some (.ok true, w'))
    (hB : Delivers B ms) (hfits : B.length ≤ maxRequestBytes) (hdeep : DeepBody loads scope B) :
    (http H loads maxRequestBytes scope ms).runWith (Op.exec p tid) i w =
      some (.ok ⟨500, errorBody "internal_error", []⟩, w') := by
  have hread : issuePayload loads maxRequestBytes scope ms = .error .recursionError := by
    rw [issuePayload, readJson_of_delivers hB, if_neg (by simp [hdeep.1]),
      if_neg (not_lt.mpr hfits), if_neg hdeep.2.1, Decoding.value_of_tooDeep hdeep.2.2]
    rfl
  have hroute : (route H loads maxRequestBytes scope ms).runWith (Op.exec p tid) i w =
      some (.error .recursionError, w') := by
    have hrouted : route H loads maxRequestBytes scope ms =
        command H loads maxRequestBytes scope ms .issuance := route_post hmethod hpath
    rw [hrouted, command, issue_eq]
    exact runWith_guarded_error hsecret haccepted hread
  rw [http, if_neg (not_not.mpr hquery), Prog.runWith_bind, Prog.runWith_attempt, hroute]
  rfl

/-- **Client input is not answered with an internal error**, and an authenticated JSON request whose
body is not the object that its command asks for is answered with 400, if and only if the
request is not authenticated, or its body is not read, or the decoder copes with the nesting of the
body. -/
theorem client_input_iff (H : HashLib) (loads : Bytes → Decoding) (maxRequestBytes : ℕ)
    {scope : Scope} {role : Role} {B : Bytes} {ms : List Message} {hist : Hist}
    {x : Except HttpError Response} (hmethod : upper scope.method = lit "POST")
    (hpath : scope.path = role.path) (hB : Delivers B ms) (hfits : B.length ≤ maxRequestBytes)
    (hyields : (http H loads maxRequestBytes scope ms).Yields hist x)
    (hfaultless : ∀ a ∈ hist, a.1.FaultFree a.2) :
    ∃ response, x = .ok response ∧
      ((response.status ≠ 500 ∧ (Authenticated H scope role hist →
          contentTypeIsJson scope = true → ¬ WellFormed loads role B → response.status = 400)) ↔
        ¬ (Authenticated H scope role hist ∧ DeepRequest loads scope role B)) := by
  by_cases hquery : scope.queryString = []
  · obtain ⟨y, hroute, rfl⟩ := yields_http hquery hyields
    refine ⟨sent y, rfl, ?_⟩
    rw [route_post hmethod hpath] at hroute
    cases role with
    | issuance =>
      rw [command, issue_eq] at hroute
      refine sent_guarded hroute hfaultless (issuePayload_reads hB hfits) ?_
      exact fun _ _ _ hτ hgood => yields_issued hτ hgood
    | verification =>
      rw [command, verify_eq] at hroute
      refine sent_guarded hroute hfaultless (verifyPayload_reads hB hfits) ?_
      exact fun _ _ _ hτ hgood => yields_verified hτ hgood
  · rw [http, if_pos hquery] at hyields
    cases hyields
    exact ⟨_, rfl, iff_of_true ⟨by simp, fun _ _ _ => rfl⟩
      fun hboth => not_authenticated_nil hboth.1⟩

/-- A decoder that gives up on ten thousand open brackets. -/
def bracketLimit (b : Bytes) : Decoding :=
  ⟨[], .error (if 10000 ≤ (b.takeWhile (· = 91)).length then .recursion else .invalid)⟩

/-- A body of open brackets. -/
def openBrackets (n : ℕ) : Bytes := List.replicate n 91

/-- As many open brackets as a request may have by default. -/
abbrev brackets : Bytes := openBrackets 16384

theorem length_openBrackets (n : ℕ) : (openBrackets n).length = n := List.length_replicate

theorem takeWhile_openBrackets (n : ℕ) :
    (openBrackets n).takeWhile (· = 91) = openBrackets n := by
  simp [openBrackets]

/-- The decoder gives up on a long body of open brackets. -/
theorem tooDeep_openBrackets {n : ℕ} (hn : 10000 ≤ n) :
    (bracketLimit (openBrackets n)).TooDeep := by
  refine ⟨by simp [bracketLimit], ?_⟩
  rw [bracketLimit, takeWhile_openBrackets, length_openBrackets, if_pos hn]

theorem length_brackets_le : brackets.length ≤ 16384 := Nat.le_of_eq (length_openBrackets 16384)

/-- A JSON POST for a proof with the issuance credential of `Scenario.served`. -/
def bracketScope : Scope where
  method := lit "POST"
  path := lit "/v1/proofs"
  queryString := []
  headers :=
    [(ascii "authorization", ascii "Bearer " ++
        (Scenario.secret .issuance 25).map fun c => UInt8.ofNat c.val),
      (ascii "content-type", ascii "application/json")]

theorem delivers_brackets : Delivers brackets [.request (some brackets) none] := by
  have hfinal : (none : Option Bool).getD false = false := rfl
  have hlast : Delivers ((some brackets).getD []) [.request (some brackets) none] := .last hfinal []
  exact hlast

theorem deepBody_brackets : DeepBody bracketLimit bracketScope brackets := by
  have hne : brackets ≠ [] := by
    intro hnil
    have hlength : brackets.length = 16384 := length_openBrackets 16384
    rw [hnil] at hlength
    cases hlength
  exact ⟨by decide +kernel, hne, tooDeep_openBrackets (by decide)⟩

/-- The credential is accepted in the world after `Scenario.served`. -/
theorem accepted_served : ∃ τ s w', SystemRun plainHash τ s ∧
    s.world.ledger.restoreRequired = false ∧
    (Service.credentialIsAccepted plainHash (.str (Scenario.secret .issuance 25))
      Role.issuance.text).runWith (Op.exec 0 9) (Scenario.choice 1000 50) s.world =
        some (.ok true, w') := by
  obtain ⟨τ, s, hrun, hunsealed, haccepted⟩ := exists_systemRun Scenario.served
    (fun _ s => s.world.ledger.restoreRequired = false ∧
      ((Service.credentialIsAccepted plainHash (.str (Scenario.secret .issuance 25))
        Role.issuance.text).runWith (Op.exec 0 9) (Scenario.choice 1000 50) s.world).any
          (fun y => y.1.toOption = some true) = true) (by decide +kernel)
  obtain ⟨⟨x, w'⟩, hx, htrue⟩ := (Option.any_eq_true _ _).mp haccepted
  cases x with
  | error e => simp [Except.toOption] at htrue
  | ok b =>
    obtain rfl : b = true := by simpa [Except.toOption] using htrue
    exact ⟨τ, s, w', hrun, hunsealed, hx⟩

/-- An authenticated POST with a body of open brackets, on a reachable ledger and without any
fault, is answered with 500. -/
theorem client_input_counterexample : ∃ τ s w', SystemRun plainHash τ s ∧
    s.world.ledger.restoreRequired = false ∧ Delivers brackets [.request (some brackets) none] ∧
    brackets.length ≤ 16384 ∧ (Scenario.choice 1000 50).fault = false ∧
    (Scenario.choice 1000 50).cut = none ∧
    (http plainHash bracketLimit 16384 bracketScope [.request (some brackets) none]).runWith
      (Op.exec 0 9) (Scenario.choice 1000 50) s.world =
        some (.ok ⟨500, errorBody "internal_error", []⟩, w') := by
  obtain ⟨τ, s, w', hrun, hunsealed, haccepted⟩ := accepted_served
  have hsecret : bearerSecret bracketScope = .ok (Scenario.secret .issuance 25) := by
    decide +kernel
  exact ⟨τ, s, w', hrun, hunsealed, delivers_brackets, length_brackets_le, rfl, rfl,
    runWith_http_deep rfl rfl rfl hsecret haccepted delivers_brackets length_brackets_le
      deepBody_brackets⟩

/-- The request with the open brackets. -/
theorem client_input_brackets : ∃ hist response,
    (http plainHash bracketLimit 16384 bracketScope [.request (some brackets) none]).Yields hist
      (.ok response) ∧
    ((response.status ≠ 500 ∧ (Authenticated plainHash bracketScope .issuance hist →
        contentTypeIsJson bracketScope = true → ¬ WellFormed bracketLimit .issuance brackets →
          response.status = 400)) ↔
      ¬ (Authenticated plainHash bracketScope .issuance hist ∧
        DeepRequest bracketLimit bracketScope .issuance brackets)) := by
  obtain ⟨τ, s, w', hrun, hunsealed, haccepted⟩ := accepted_served
  have hsecret : bearerSecret bracketScope = .ok (Scenario.secret .issuance 25) := by
    decide +kernel
  obtain ⟨hist, hyields, hgiven⟩ := Prog.yields_of_runWith (runWith_http_deep rfl rfl rfl hsecret
    haccepted delivers_brackets length_brackets_le deepBody_brackets)
  have hfaultless : ∀ a ∈ hist, a.1.FaultFree a.2 := by
    intro a ha
    obtain ⟨w₁, w₂, hexec⟩ := hgiven a ha
    exact ⟨0, 9, _, w₁, w₂, rfl, rfl, rfl, hexec⟩
  obtain ⟨response, hx, hiff⟩ := @client_input_iff plainHash bracketLimit 16384 bracketScope
    .issuance brackets [.request (some brackets) none] hist
      (.ok ⟨500, errorBody "internal_error", []⟩)
    rfl rfl delivers_brackets length_brackets_le hyields hfaultless
  obtain rfl := Except.ok.inj hx
  exact ⟨hist, _, hyields, hiff⟩

end Http

end Onceproof

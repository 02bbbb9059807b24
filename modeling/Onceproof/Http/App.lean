import Onceproof.Http.Body
import Onceproof.Lib.Handle
import Onceproof.Service.Programs

/-!
# The ASGI application

The routes of the application: a request becomes calls of the service, a result or an exception
becomes a response. The part of a bearer credential and of a body that the application checks by
itself is checked here; the rest is the service's.

A response carries the status, the JSON body and the headers that depend on the request. The
request id, which is drawn for every response, and the constant headers are left out.
-/

namespace Onceproof

/-- `ProofReceipt.to_dict`. -/
def ProofReceipt.toDict (r : ProofReceipt) : Json :=
  .obj [(lit "state", .str (lit "issued")), (lit "proof_tag", .str r.proofTag),
    (lit "client_id", .str r.clientId), (lit "subject", .str r.subject),
    (lit "purpose", .str r.purpose), (lit "audience", .str r.audience),
    (lit "issued_at", .int r.issuedAt), (lit "expires_at", .int r.expiresAt)]

/-- `IssuedProof.to_dict`. -/
def IssuedProof.toDict (i : IssuedProof) : Json :=
  .obj [(lit "proof", .str i.proof), (lit "receipt", i.receipt.toDict)]

namespace Http

variable (H : HashLib) (loads : Bytes → Decoding) (maxRequestBytes : ℕ)

/-- `_ISSUE_FIELDS` and `_ISSUE_REQUIRED`. -/
def issueFields : List Str := [lit "subject", lit "purpose", lit "audience", lit "ttl_seconds"]
def issueRequired : List Str := [lit "subject", lit "purpose", lit "audience"]

/-- `_VERIFY_FIELDS`, which are all required. -/
def verifyFields : List Str := [lit "proof", lit "subject", lit "purpose", lit "audience"]

/-! ### Headers -/

/-- `b.decode("ascii")`. -/
def decodeAscii (b : Bytes) : Option Str :=
  if b.all (· < 128) then some (b.map fun c => ⟨c.toNat, c.toNat_lt.trans (by decide)⟩) else none

/-- `_bearer_secret`. -/
def bearerSecret (scope : Scope) : Except HttpError Str :=
  match headerValues scope (ascii "authorization") with
  | [value] =>
    match decodeAscii value with
    | none => .error (.request 401 "credential_rejected")
    | some text =>
      if 32 ∉ text ∨ lower (value.takeWhile (· ≠ 32)) ≠ ascii "bearer" then
        .error (.request 401 "credential_rejected")
      else
        let remainder := (text.dropWhile (· ≠ 32)).drop 1
        let secret := remainder.dropWhile (· = 32)
        if secret = [] ∨ secret.any Regex.space then .error (.request 401 "credential_rejected")
        else .ok secret
  | _ => .error (.request 401 "credential_rejected")

/-- `_idempotency_key`. -/
def idempotencyKey (scope : Scope) : Except HttpError (Option Str) :=
  match headerValues scope (ascii "idempotency-key") with
  | [] => .ok none
  | [value] =>
    match decodeAscii value with
    | none => .error (.request 400 "invalid_idempotency_key")
    | some key => .ok (some key)
  | _ => .error (.request 400 "duplicate_idempotency_key")

/-! ### Responses -/

/-- A response. -/
structure Response where
  status : ℕ
  body : Json
  headers : List (Bytes × Bytes)

/-- `{"error": code}`. -/
def errorBody (code : String) : Json := .obj [(lit "error", .str (lit code))]

/-- The challenge of a 401. -/
def challenge : Bytes × Bytes := (ascii "www-authenticate", ascii "Bearer realm=\"onceproof\"")

/-- The response to a `ValueError`. -/
def valueErrorResponse (code : String) : Response :=
  if code = "audience_not_allowed" then ⟨403, errorBody code, []⟩
  else if code = "idempotency_conflict" then ⟨409, errorBody code, []⟩
  else
    ⟨400, errorBody (if "invalid_".toList.isPrefixOf code.toList then code else "invalid_request"),
      []⟩

/-- The `except` clauses of `_http`. `UnicodeEncodeError` is a `ValueError`. -/
def errorResponse : HttpError → Response
  | .request status code => ⟨status, errorBody code, if status = 401 then [challenge] else []⟩
  | .service (.permissionError _) => ⟨401, errorBody "credential_rejected", [challenge]⟩
  | .service (.rateLimitError retryAfterSeconds) =>
    ⟨429, .obj [(lit "error", .str (lit "rate_limited")),
      (lit "retry_after_seconds", .int retryAfterSeconds)],
      [(ascii "retry-after", ascii (toString retryAfterSeconds))]⟩
  | .service (.valueError code) => valueErrorResponse code
  | .service .unicodeEncodeError => valueErrorResponse "'utf-8' codec can't encode character"
  | .service .integrityError | .service .restoreRequiredError
  | .service .storeCorruptionError => ⟨503, errorBody "store_unavailable", []⟩
  | .service _ | .recursionError => ⟨500, errorBody "internal_error", []⟩

/-! ### Routes -/

/-- Programs of the application. -/
abbrev AppProg (α : Type) : Type := Prog Op Op.Ans HttpError α

/-- A call of the service. -/
def call {α : Type} (p : HostProg α) : AppProg α := do
  let outcome ← p.attempt
  Prog.lift (outcome.mapError HttpError.service)

/-- `payload[field]`, of a field that was required. -/
def field (payload : List (Str × Json)) (name : String) : Json :=
  (Json.member? payload (lit name)).getD .null

/-- The time to live in the payload of an issuance. -/
def requestedTtl (payload : List (Str × Json)) : Except HttpError Json :=
  match Json.member? payload (lit "ttl_seconds") with
  | none => .ok .null
  | some value =>
    -- a float that is an integer counts as one
    let ttlSeconds : Json := match value with
      | .float (.finite q) => if q.den = 1 then .int q.num else value
      | value => value
    match ttlSeconds with
    | .int n =>
      if 1 ≤ n ∧ n ≤ 3600 then .ok (.int n) else .error (.request 400 "invalid_ttl_seconds")
    | _ => .error (.request 400 "invalid_ttl_seconds")

/-- The payload and the time to live that `_issue` reads. -/
def issuePayload (scope : Scope) (messages : List Message) :
    Except HttpError (List (Str × Json) × Json) := do
  let payload ← readJson loads maxRequestBytes scope messages issueFields issueRequired
  let ttlSeconds ← requestedTtl payload
  .ok (payload, ttlSeconds)

/-- The key and the payload that `_verify` reads. -/
def verifyPayload (scope : Scope) (messages : List Message) :
    Except HttpError (Option Str × List (Str × Json)) := do
  let key ← idempotencyKey scope
  let payload ← readJson loads maxRequestBytes scope messages verifyFields verifyFields
  .ok (key, payload)

/-- The request for a proof. -/
def issueRequest (secret : Str) (payload : List (Str × Json)) (ttlSeconds : Json) :
    IssueRequest where
  issuanceSecret := .str secret
  subject := field payload "subject"
  purpose := field payload "purpose"
  audience := field payload "audience"
  ttlSeconds := ttlSeconds

/-- The request for a verification. -/
def verifyRequest (secret : Str) (payload : List (Str × Json)) (key : Option Str) :
    VerifyRequest where
  verificationSecret := .str secret
  proof := field payload "proof"
  purpose := field payload "purpose"
  audience := field payload "audience"
  subject := field payload "subject"
  idempotencyKey := Json.ofText? key

/-- The response to an issued proof. -/
def issuedResponse (issued : IssuedProof) : Response := ⟨201, issued.toDict, []⟩

/-- The response to a verification result. -/
def verifiedResponse (result : VerificationResult) : Except HttpError Response :=
  if result.reason = some .credentialRejected then
    .error (.service (.permissionError "credential_rejected"))
  else .ok ⟨200, result.toDict, []⟩

/-- The check of the credential with which `_issue` and `_verify` begin. -/
def authenticate (secret : Str) (role : Role) : AppProg Unit := do
  let authenticated ← call (Service.credentialIsAccepted H (.str secret) role.text)
  if !authenticated then
    Prog.raise (.service (.permissionError "credential_rejected"))
  else
    pure ()

/-- `_issue`. -/
def issue (scope : Scope) (messages : List Message) : AppProg Response := do
  let secret ← Prog.lift (bearerSecret scope)
  authenticate H secret .issuance
  let (payload, ttlSeconds) ← Prog.lift (issuePayload loads maxRequestBytes scope messages)
  let issued ← call (Service.issueProof H (issueRequest secret payload ttlSeconds))
  pure (issuedResponse issued)

/-- `_verify`. -/
def verify (scope : Scope) (messages : List Message) : AppProg Response := do
  let secret ← Prog.lift (bearerSecret scope)
  authenticate H secret .verification
  let (key, payload) ← Prog.lift (verifyPayload loads maxRequestBytes scope messages)
  let result ← call (Service.verifyProof H (verifyRequest secret payload key))
  Prog.lift (verifiedResponse result)

/-- `GET /readyz`: an exception counts as not ready. -/
def readyz : AppProg Response := do
  let outcome ← (Service.ready H).attempt
  match outcome with
  | .ok true => pure ⟨200, .obj [(lit "status", .str (lit "ready"))], []⟩
  | _ => pure ⟨503, .obj [(lit "status", .str (lit "unavailable"))], []⟩

/-- `str.upper` on one code point, if its upper case is a text in ASCII: the letters, the dotless
i, the long s, the sharp s and the Latin ligatures. The others are left as they are, since a
comparison with ASCII text cannot tell them from their upper case. -/
def upperOf (c : CodePoint) : Str :=
  if 97 ≤ c.val ∧ c.val ≤ 122 then [c - 32]
  else if c = 0x131 then lit "I"
  else if c = 0x17F then lit "S"
  else if c = 0xDF then lit "SS"
  else if c = 0xFB00 then lit "FF"
  else if c = 0xFB01 then lit "FI"
  else if c = 0xFB02 then lit "FL"
  else if c = 0xFB03 then lit "FFI"
  else if c = 0xFB04 then lit "FFL"
  else if c = 0xFB05 ∨ c = 0xFB06 then lit "ST"
  else [c]

/-- `str.upper`, for a comparison with ASCII text. -/
def upper (s : Str) : Str := s.flatMap upperOf

/-- The body of the `try` in `_http`. -/
def route (scope : Scope) (messages : List Message) : AppProg Response :=
  let method := upper scope.method
  if method = lit "GET" ∧ scope.path = lit "/healthz" then
    pure ⟨200, .obj [(lit "status", .str (lit "ok"))], []⟩
  else if method = lit "GET" ∧ scope.path = lit "/readyz" then readyz H
  else if method = lit "POST" ∧ scope.path = lit "/v1/proofs" then
    issue H loads maxRequestBytes scope messages
  else if method = lit "POST" ∧ scope.path = lit "/v1/verifications" then
    verify H loads maxRequestBytes scope messages
  else if scope.path = lit "/healthz" ∨ scope.path = lit "/readyz" then
    pure ⟨405, errorBody "method_not_allowed", [(ascii "allow", ascii "GET")]⟩
  else if scope.path = lit "/v1/proofs" ∨ scope.path = lit "/v1/verifications" then
    pure ⟨405, errorBody "method_not_allowed", [(ascii "allow", ascii "POST")]⟩
  else pure ⟨404, errorBody "not_found", []⟩

/-- `_http`. -/
def http (scope : Scope) (messages : List Message) : AppProg Response :=
  if scope.queryString ≠ [] then pure ⟨400, errorBody "query_not_allowed", []⟩
  else do
    let outcome ← (route H loads maxRequestBytes scope messages).attempt
    match outcome with
    | .ok response => pure response
    | .error e => pure (errorResponse e)

end Http

end Onceproof

import Onceproof.Lib.Schema

/-!
# The published contract

The schemas of `openapi.json` for the texts of a request and for the bodies of the responses.
-/

namespace Onceproof

namespace Contract

/-- `\u0000-\u001f`. -/
def control : CodePoint → Bool := Regex.ranges [(0x00, 0x1F)]

/-- `[A-Za-z0-9][A-Za-z0-9._:-]{0,127}`. -/
def name : Regex :=
  .seq (.cls Regex.alnum) (Regex.upTo (.cls fun c => Regex.alnum c || (lit "._:-").contains c) 127)

/-- `[^\s\u0000-\u001f]`. -/
def visible (c : CodePoint) : Bool := !Regex.space c && !control c

/-- `#/components/schemas/Subject`. -/
def subject : Schema :=
  .all [.string, .minLength 1, .maxLength 256,
    .pattern (Pattern.anchored (Regex.plus (.cls fun c => !control c)))]

/-- `#/components/schemas/Purpose`. -/
def purpose : Schema := .all [.string, .pattern (Pattern.anchored name)]

/-- The schema of the parameter `Idempotency-Key`. -/
def idempotencyKey : Schema := .all [.string, .pattern (Pattern.anchored name)]

/-- `https://[^/?#\s\u0000-\u001f]+(?:[/?#][^\s\u0000-\u001f]*)?`. -/
def httpsAudience : Regex :=
  .seq (Regex.text "https://")
    (.seq (Regex.plus (.cls fun c => !(lit "/?#").contains c && visible c))
      (Regex.opt (.seq (.cls fun c => (lit "/?#").contains c) (.star (.cls visible)))))

/-- `urn:[^\s\u0000-\u001f]+`. -/
def urnAudience : Regex := .seq (Regex.text "urn:") (Regex.plus (.cls visible))

/-- `#/components/schemas/Audience`. -/
def audience : Schema :=
  .all [.string, .minLength 1, .maxLength 512,
    .oneOf [.pattern (Pattern.anchored httpsAudience), .pattern (Pattern.anchored urnAudience)]]

/-! ### Responses -/

/-- `^r$`, where `$` is the end of the text. -/
def matching (r : Regex) : Schema := .all [.string, .pattern (Pattern.anchored r)]

/-- `pf_[0-9a-f]{24}`. -/
def proofTag : Regex := .seq (Regex.text "pf_") (Regex.exactly (.cls Regex.hex) 24)

/-- `opc_[0-9a-f]{24}`. -/
def clientId : Regex := .seq (Regex.text "opc_") (Regex.exactly (.cls Regex.hex) 24)

/-- `vr_[0-9a-f]{32}`. -/
def verificationId : Regex := .seq (Regex.text "vr_") (Regex.exactly (.cls Regex.hex) 32)

/-- `op1\.hk_[0-9a-f]{16}\.[A-Za-z0-9_-]{43}`. -/
def proof : Regex :=
  .seq (Regex.text "op1.hk_") (.seq (Regex.exactly (.cls Regex.hex) 16)
    (.seq (Regex.text ".")
      (Regex.exactly (.cls fun c => Regex.alnum c || (lit "_-").contains c) 43)))

/-- The schema of `issued_at` and `decided_at`. -/
def reading : Schema := .all [.integer, .minimum 0]

/-- The schema of `expires_at`. -/
def expiry : Schema := .all [.integer, .minimum 1]

/-- `#/components/schemas/ProofReceipt`. -/
def proofReceipt : Schema :=
  .closed [(lit "state", .text (lit "issued")), (lit "proof_tag", matching proofTag),
    (lit "client_id", matching clientId), (lit "subject", subject), (lit "purpose", purpose),
    (lit "audience", audience), (lit "issued_at", reading), (lit "expires_at", expiry)]

/-- `#/components/schemas/IssueResponse`. -/
def issueResponse : Schema :=
  .closed [(lit "proof", matching proof), (lit "receipt", proofReceipt)]

/-- `#/components/schemas/ProofClaims`. -/
def proofClaims : Schema :=
  .closed [(lit "client_id", matching clientId), (lit "subject", subject),
    (lit "purpose", purpose), (lit "audience", audience), (lit "issued_at", reading),
    (lit "expires_at", expiry)]

/-- The schema of a witness with its state, its proof tag, its client id and its reason. -/
def witness (state : Str) (proofTag clientId reason : Schema) : Schema :=
  .closed [(lit "state", .text state), (lit "verification_id", matching verificationId),
    (lit "proof_tag", proofTag), (lit "client_id", clientId), (lit "decided_at", reading),
    (lit "reason", reason)]

/-- `#/components/schemas/AcceptedWitness`. -/
def acceptedWitness : Schema :=
  witness (lit "verified_once") (matching proofTag) (matching clientId) .null

/-- The reasons of `#/components/schemas/RejectedWitness`. -/
def rejectionReasons : Schema :=
  .enum [lit "invalid", lit "expired", lit "binding_mismatch"]

/-- `#/components/schemas/RejectedWitness`. -/
def rejectedWitness : Schema :=
  witness (lit "rejected") (.oneOf [matching proofTag, .null]) (.oneOf [matching clientId, .null])
    rejectionReasons

/-- `#/components/schemas/ReplayWitness`. -/
def replayWitness : Schema :=
  witness (lit "replay_rejected") (matching proofTag) (matching clientId)
    (.text (lit "already_consumed"))

/-- A branch of `#/components/schemas/VerificationResponse`. -/
def verificationBranch (verified : Bool) (reason witness claims : Schema) : Schema :=
  .closed [(lit "verified", .bool verified), (lit "reason", reason), (lit "witness", witness),
    (lit "claims", claims)]

/-- `#/components/schemas/VerificationResponse`. -/
def verificationResponse : Schema :=
  .oneOf [verificationBranch true .null acceptedWitness proofClaims,
    verificationBranch false rejectionReasons rejectedWitness .null,
    verificationBranch false (.text (lit "already_consumed")) replayWitness .null]

end Contract

end Onceproof

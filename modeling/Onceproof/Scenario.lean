import Onceproof.Service.Requests
import Onceproof.Lib.Simulate

/-!
# Scenarios

The system is executable: a schedule over `Move` drives it, and `systemRun_of_simulate` turns
the simulation into a run. The requests and choices below are the parts that schedules are
put together from: an instance with the key of `zeroKey`, one client, and its proofs.
-/

namespace Onceproof

/-- Entries of a schedule of the system. -/
abbrev SystemMove : Type := Move ℕ Request Choice

namespace Scenario

/-- A root key of zeros. -/
def zeroKey : RootKey := ⟨List.replicate 32 0, by simp⟩

/-- The key id of a new instance. -/
def kid : Str := lit "hk_" ++ hexlify [0]

/-- A new instance. -/
def start : SystemState := .start (.created kid zeroKey)

/-- A choice without exceptions. -/
def choice (now : ℤ) (b : UInt8) : Choice where
  fault := false
  late := false
  now := max (-9223372036) (min now 9223372036)
  timely := ⟨le_max_left _ _, max_le (by decide) (min_le_right _ _)⟩
  bytes := [b]
  rootKey := ⟨List.replicate 32 b, by simp⟩
  draws := ⟨[b, 0], [b, 1]⟩
  cut := none

/-- Commands of a thread at one clock reading, each with bytes of its own. -/
def acts (tid n : ℕ) (now : ℤ) (b : UInt8) : List SystemMove :=
  (List.range n).map fun k => .act tid (choice now (b + UInt8.ofNat k))

/-- A thread from its call to its return. -/
def thread (p tid n : ℕ) (r : Request) (now : ℤ) (b : UInt8) : List SystemMove :=
  .call p r :: acts tid n now b ++ [.ret tid]

/-- A choice without exceptions whose draws are `n` bytes long, and 16 inside a transaction. -/
def sizedChoice (n : ℕ) (now : ℤ) (b : UInt8) : Choice :=
  { choice now b with bytes := List.replicate n b, draws := ⟨List.replicate 16 b, [b, 1]⟩ }

/-- A thread from its call to its return, whose commands draw as many bytes as listed. -/
def sizedThread (p tid : ℕ) (sizes : List ℕ) (r : Request) (now : ℤ) (b : UInt8) :
    List SystemMove :=
  .call p r :: (sizes.zipIdx.map fun x => .act tid (sizedChoice x.1 now (b + UInt8.ofNat x.2))) ++
    [.ret tid]

/-- A client with a time to live of a minute and a limit of two operations. -/
def clientRequest : CreateClientRequest where
  name := .str (lit "acme")
  allowedAudiences := [.str (lit "urn:a")]
  proofTtlSeconds := .int 60
  issueLimitPerMinute := .int 2
  verifyLimitPerMinute := .int 2
  hasSink := false

/-- The id of the client whose creation drew `b`. -/
def clientId (b : UInt8) : Str := lit "opc_" ++ hexlify [b]

/-- The secret of a credential whose creation drew `b` and `b + 1`. -/
def secret (role : Role) (b : UInt8) : Str :=
  Service.newSecret role (role.idPrefix ++ hexlify [b]) [b + 1]

/-- The proof for which `b` was drawn. -/
def proof (b : UInt8) : Str := Service.proofToken kid [b]

/-- A request to issue a proof. -/
def issueRequest (b : UInt8) : IssueRequest where
  issuanceSecret := .str (secret .issuance b)
  subject := .str (lit "alice")
  purpose := .str (lit "login")
  audience := .str (lit "urn:a")
  ttlSeconds := .null

/-- A request to verify a proof. -/
def verifyRequest (b : UInt8) (p : Str) (purpose : Str) (key : Option Str) : VerifyRequest where
  verificationSecret := .str (secret .verification b)
  proof := .str p
  purpose := .str purpose
  audience := .str (lit "urn:a")
  subject := .str (lit "alice")
  idempotencyKey := Json.ofText? key

/-- A request to rotate the verification credential of `clientId 24`. -/
def rotateRequest (graceSeconds : ℤ) : RotateRequest where
  clientId := .str (clientId 24)
  role := lit "verification"
  graceSeconds := .int graceSeconds
  hasSink := false

/-- A server starts in process 0 and creates a client: the client is `clientId 24`, with
issuance secret `secret .issuance 25` and verification secret `secret .verification 28`. -/
def servedAt (now : ℤ) : List SystemMove :=
  thread 0 0 8 (.command .serve) now 10 ++
    thread 0 1 16 (.api (.createClient clientRequest)) now 20

/-- A server and its client at the time 1000. -/
abbrev served : List SystemMove := servedAt 1000

/-- A server and its client at the time 1000, with random bytes of the real lengths. -/
def sizedServed : List SystemMove :=
  thread 0 0 8 (.command .serve) 1000 10 ++
    sizedThread 0 1 [0, 0, 0, 0, 12, 12, 32, 0, 12, 32, 0, 0, 0, 0, 0, 0]
      (.api (.createClient clientRequest)) 1000 20

/-- The secret of a credential whose creation drew `b` and `b + 1` in the real lengths. -/
def sizedSecret (role : Role) (b : UInt8) : Str :=
  Service.newSecret role (role.idPrefix ++ hexlify (List.replicate 12 b))
    (List.replicate 32 (b + 1))

/-- The proof for which `b` was drawn 32 times. -/
def sizedProof (b : UInt8) : Str := Service.proofToken kid (List.replicate 32 b)

/-- A request of the client of `sizedServed` to issue a proof. -/
def sizedIssueRequest : IssueRequest :=
  { issueRequest 0 with issuanceSecret := .str (sizedSecret .issuance 25) }

/-- A request of the client of `sizedServed` to verify a proof. -/
def sizedVerifyRequest (p : Str) (purpose : Str) (key : Option Str) : VerifyRequest :=
  { verifyRequest 0 p purpose key with
    verificationSecret := .str (sizedSecret .verification 28) }

/-- The sizes of what an issuance draws. -/
def issueSizes : List ℕ := [0, 0, 0, 0, 0, 0, 0, 32, 0, 0]

/-- The transitions and the final state of a schedule. -/
abbrev run (js : List SystemMove) : Option (List SystemTrans × SystemState) :=
  (system plainHash).simulate start js

end Scenario

/-- The results that the verifications of a run returned. -/
def verificationResults (τ : List SystemTrans) : List VerificationResult :=
  τ.filterMap fun t => match t.label with
    | .ret _ _ (.api (.verifyProof _)) (.ok (.verification result)) => some result
    | _ => none

/-- The exceptions that the verifications of a run raised. -/
def verificationErrors (τ : List SystemTrans) : List Error :=
  τ.filterMap fun t => match t.label with
    | .ret _ _ (.api (.verifyProof _)) (.error e) => some e
    | _ => none

/-- **A simulated schedule of a new instance is one of its runs.** -/
theorem systemRun_of_simulate {js : List SystemMove} {τ : List SystemTrans} {s : SystemState}
    (h : Scenario.run js = some (τ, s)) : SystemRun plainHash τ s :=
  ⟨[0], Scenario.zeroKey, Machine.run_of_simulate h⟩

/-- A property that a schedule's simulation has is a property of a run. -/
theorem exists_systemRun (js : List SystemMove) (P : List SystemTrans → SystemState → Prop)
    [∀ τ s, Decidable (P τ s)]
    (h : (Scenario.run js).any (fun x => P x.1 x.2) = true) :
    ∃ τ s, SystemRun plainHash τ s ∧ P τ s := by
  obtain ⟨⟨τ, s⟩, hrun, hP⟩ := (Option.any_eq_true _ _).mp h
  exact ⟨τ, s, systemRun_of_simulate hrun, of_decide_eq_true hP⟩

/-- Cut a run at its first transition whose event has a property. -/
def cutAt (f : SystemEvent → Bool) :
    List SystemTrans → Option (List SystemTrans × SystemTrans × List SystemTrans)
  | [] => none
  | t :: τ => if f t.label then some ([], t, τ)
    else (cutAt f τ).map fun x => (t :: x.1, x.2)

theorem cutAt_eq_some {f : SystemEvent → Bool} {τ τ₁ τ₂ : List SystemTrans} {t : SystemTrans}
    (h : cutAt f τ = some (τ₁, t, τ₂)) : τ = τ₁ ++ t :: τ₂ ∧ f t.label = true := by
  induction τ generalizing τ₁ with
  | nil => cases h
  | cons u τ ih =>
    rw [cutAt] at h
    split_ifs at h with hf
    · obtain ⟨rfl, hrest⟩ := Prod.mk.inj (Option.some.inj h)
      obtain ⟨rfl, rfl⟩ := Prod.mk.inj hrest
      exact ⟨rfl, hf⟩
    · obtain ⟨⟨τ', y⟩, hcut, heq⟩ := Option.map_eq_some_iff.mp h
      obtain ⟨rfl, rfl⟩ := Prod.mk.inj heq
      obtain ⟨rfl, ht⟩ := ih hcut
      exact ⟨rfl, ht⟩

/-- A property of a simulation and of its cut at an event is a property of a run. -/
theorem exists_systemRun_cut (js : List SystemMove) (f : SystemEvent → Bool)
    (P : List SystemTrans → SystemTrans → List SystemTrans → SystemState → Prop)
    [∀ τ₁ t τ₂ s, Decidable (P τ₁ t τ₂ s)]
    (h : (Scenario.run js).any (fun x =>
      (cutAt f x.1).any fun y => P y.1 y.2.1 y.2.2 x.2) = true) :
    ∃ τ₁ t τ₂ s, SystemRun plainHash (τ₁ ++ t :: τ₂) s ∧ f t.label = true ∧ P τ₁ t τ₂ s := by
  obtain ⟨⟨τ, s⟩, hrun, hcut⟩ := (Option.any_eq_true _ _).mp h
  obtain ⟨⟨τ₁, t, τ₂⟩, hcut, hP⟩ := (Option.any_eq_true _ _).mp hcut
  obtain ⟨rfl, hf⟩ := cutAt_eq_some hcut
  exact ⟨τ₁, t, τ₂, s, systemRun_of_simulate hrun, hf, of_decide_eq_true hP⟩

end Onceproof

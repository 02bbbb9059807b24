import Onceproof.Guarantees.ClientInput
import Onceproof.Keys.Lookup
import Onceproof.Ledger.Issuance
import Onceproof.Ledger.Published

/-!
# Served bodies

The bodies that the application sends with a proof or a verification result are those of the
published contract. The schemas are written by hand, beside the code: a result is made in five
places, may be stored and read back, and passes through the application, which answers one
reason with another status.

* `Http.ServiceCall` is the call of the service with which the application answers a request, and
  `Ran` says that a thread of the instance made it.
* `returned_conforms` and `issued_conforms`: what the service returns in a run has the formats of
  the contract.
* `served_bodies_conform`: so has what the application sends.
-/

namespace Onceproof

/-! ### Responses of the application -/

namespace Http

variable {H : HashLib} {loads : Bytes → Decoding} {maxRequestBytes : ℕ} {scope : Scope}
variable {role : Role} {ms : List Message} {hist : Hist}

/-- The call of the service with which the application answers a request: its credential was
accepted, its payload was read, and the rest of the history is that of the call. -/
inductive ServiceCall (H : HashLib) (loads : Bytes → Decoding) (maxRequestBytes : ℕ) (scope : Scope)
    (ms : List Message) (hist : Hist) : ApiCall → Hist → Prop
  | issue {secret : Str} {h₁ h₂ : Hist} {payload : List (Str × Json)} {ttlSeconds : Json}
      (path : scope.path = lit "/v1/proofs") (bearer : bearerSecret scope = .ok secret)
      (accepted : (Service.credentialIsAccepted H (.str secret) Role.issuance.text).Yields h₁
        (.ok true))
      (read : issuePayload loads maxRequestBytes scope ms = .ok (payload, ttlSeconds))
      (split : hist = h₁ ++ h₂) : ServiceCall H loads maxRequestBytes scope ms hist
        (.issueProof (issueRequest secret payload ttlSeconds)) h₂
  | verify {secret : Str} {h₁ h₂ : Hist} {payload : List (Str × Json)} {key : Option Str}
      (path : scope.path = lit "/v1/verifications") (bearer : bearerSecret scope = .ok secret)
      (accepted : (Service.credentialIsAccepted H (.str secret) Role.verification.text).Yields h₁
        (.ok true))
      (read : verifyPayload loads maxRequestBytes scope ms = .ok (key, payload))
      (split : hist = h₁ ++ h₂) : ServiceCall H loads maxRequestBytes scope ms hist
        (.verifyProof (verifyRequest secret payload key)) h₂

/-! ### Refusals -/

/-- The exception is answered with a status of an error. -/
def Refused (e : HttpError) : Prop := 400 ≤ (errorResponse e).status

theorem refused_service (e : Error) : Refused (.service e) := by
  cases e with
  | valueError code =>
    rcases valueErrorResponse_status code with h | h | h <;> exact le_of_le_of_eq (by decide) h.symm
  | unicodeEncodeError =>
    rcases valueErrorResponse_status "'utf-8' codec can't encode character" with h | h | h <;>
      exact le_of_le_of_eq (by decide) h.symm
  | _ => simp [Refused, errorResponse]

theorem readMessages_refused {buffer : Bytes} {e : HttpError}
    (h : readMessages maxRequestBytes buffer ms = .error e) : Refused e := by
  induction ms generalizing buffer with
  | nil =>
    obtain rfl := Except.error.inj h
    exact (by decide : 400 ≤ 408)
  | cons m ms ih =>
    rw [readMessages] at h
    cases m with
    | disconnect =>
      obtain rfl := Except.error.inj h
      exact le_rfl
    | other => exact ih h
    | request body moreBody =>
      rw [readMessage_request] at h
      by_cases hlarge : maxRequestBytes < (buffer ++ body.getD []).length
      · rw [if_pos hlarge] at h
        obtain rfl := Except.error.inj h
        exact (by decide : 400 ≤ 413)
      · rw [if_neg hlarge] at h
        cases hmore : moreBody.getD false with
        | true =>
          rw [hmore] at h
          exact ih h
        | false =>
          rw [hmore] at h
          cases h

theorem refused_of_400 {e : HttpError} (h : ∃ code, e = .request 400 code) : Refused e := by
  obtain ⟨code, rfl⟩ := h
  exact le_rfl

theorem readJson_refused {allowed required : List Str} {e : HttpError}
    (h : readJson loads maxRequestBytes scope ms allowed required = .error e) : Refused e := by
  unfold readJson at h
  by_cases hjson : (!contentTypeIsJson scope) = true
  · rw [if_pos hjson] at h
    obtain rfl := Except.error.inj h
    exact (by decide : 400 ≤ 415)
  rw [if_neg hjson] at h
  cases hbody : readMessages maxRequestBytes [] ms with
  | error e' =>
    rw [hbody] at h
    obtain rfl := Except.error.inj h
    exact readMessages_refused hbody
  | ok body =>
    rw [hbody, except_ok_bind] at h
    by_cases hempty : body = []
    · rw [if_pos hempty] at h
      obtain rfl := Except.error.inj h
      exact le_rfl
    rw [if_neg hempty] at h
    cases hvalue : (loads body).value with
    | error e' =>
      rw [hvalue] at h
      obtain rfl := Except.error.inj h
      rcases Decoding.value_error hvalue with ⟨-, hstatus, -⟩ | ⟨rfl, -⟩
      · exact hstatus.ge
      · exact (by decide : 400 ≤ 500)
    | ok value =>
      rw [hvalue, except_ok_bind] at h
      exact refused_of_400 (strictObject_error h)

theorem issuePayload_refused {e : HttpError}
    (h : issuePayload loads maxRequestBytes scope ms = .error e) : Refused e := by
  unfold issuePayload at h
  cases hjson : readJson loads maxRequestBytes scope ms issueFields issueRequired with
  | error e' =>
    rw [hjson] at h
    obtain rfl := Except.error.inj h
    exact readJson_refused hjson
  | ok payload =>
    rw [hjson, except_ok_bind] at h
    cases httl : requestedTtl payload with
    | error e' =>
      rw [httl] at h
      obtain rfl := Except.error.inj h
      exact refused_of_400 (requestedTtl_error httl)
    | ok ttlSeconds =>
      rw [httl] at h
      cases h

theorem verifyPayload_refused {e : HttpError}
    (h : verifyPayload loads maxRequestBytes scope ms = .error e) : Refused e := by
  unfold verifyPayload at h
  cases hkey : idempotencyKey scope with
  | error e' =>
    rw [hkey] at h
    obtain rfl := Except.error.inj h
    exact refused_of_400 (idempotencyKey_error hkey)
  | ok key =>
    rw [hkey, except_ok_bind] at h
    cases hjson : readJson loads maxRequestBytes scope ms verifyFields verifyFields with
    | error e' =>
      rw [hjson] at h
      obtain rfl := Except.error.inj h
      exact readJson_refused hjson
    | ok payload =>
      rw [hjson] at h
      cases h

/-- **A command that is not refused** accepted the credential, read the payload and went on. -/
theorem sent_of_not_refused {α : Type} {x : Except HttpError α} {rest : Str → α → AppProg Response}
    {y : Except HttpError Response} (h : (guarded H scope role x rest).Yields hist y)
    (hx : ∀ e, x = .error e → Refused e)
    (hrest : ∀ secret a τ e, (rest secret a).Yields τ (.error e) → Refused e)
    (hsent : (sent y).status < 400) :
    ∃ secret h₁ h₂ a response, bearerSecret scope = .ok secret ∧ hist = h₁ ++ h₂ ∧
      (Service.credentialIsAccepted H (.str secret) role.text).Yields h₁ (.ok true) ∧
      x = .ok a ∧ (rest secret a).Yields h₂ (.ok response) ∧ y = .ok response := by
  have hnot : ∀ e, Refused e → y ≠ .error e := by
    rintro e he rfl
    exact absurd hsent (not_lt.mpr he)
  rcases Prog.yields_lift_bind.mp h with ⟨secret, hsecret, h⟩ | ⟨e, hsecret, rfl, rfl⟩
  · rcases Prog.yields_bind.mp h with ⟨_, h₁, h₂, hcut, hauth, h⟩ | ⟨e, hauth, rfl⟩
    · obtain ⟨b, hb, heq⟩ := yields_authenticate hauth
      rcases b with e | accepted
      · cases heq
      cases accepted with
      | false => cases heq
      | true =>
        rcases Prog.yields_lift_bind.mp h with ⟨a, ha, h⟩ | ⟨e, he, -, rfl⟩
        · cases y with
          | error e => exact absurd rfl (hnot e (hrest secret a h₂ e h))
          | ok response => exact ⟨secret, h₁, h₂, a, response, hsecret, hcut, hb, ha, h, rfl⟩
        · exact absurd rfl (hnot e (hx e he))
    · obtain ⟨b, hb, heq⟩ := yields_authenticate hauth
      rcases b with e' | accepted
      · obtain rfl := Except.error.inj heq
        exact absurd rfl (hnot _ (refused_service e'))
      · cases accepted with
        | true => cases heq
        | false =>
          obtain rfl := Except.error.inj heq
          exact absurd rfl (hnot _ (refused_service _))
  · have h401 : Refused (.request 401 "credential_rejected") := (by decide : 400 ≤ 401)
    exact absurd rfl (hnot e (bearerSecret_error hsecret ▸ h401))

/-- An exception of the service after the payload was read. -/
theorem call_refused {α : Type} {p : HostProg α} {f : α → AppProg Response} {e : HttpError}
    (h : (call p >>= f).Yields hist (.error e))
    (hf : ∀ a τ e, (f a).Yields τ (.error e) → Refused e) : Refused e := by
  rcases Prog.yields_bind.mp h with ⟨a, h₁, h₂, -, -, hrest⟩ | ⟨e', hcall, he⟩
  · exact hf a h₂ e hrest
  · obtain rfl := Except.error.inj he
    obtain ⟨x, -, heq⟩ := yields_call.mp hcall
    cases x with
    | ok a => cases heq
    | error e' =>
      obtain rfl := Except.error.inj heq
      exact refused_service e'

/-- **What `_issue` sends** without a refusal is a proof that the service issued. -/
theorem sent_issue {response : Response} (hquery : scope.queryString = [])
    (hmethod : upper scope.method = lit "POST") (hpath : scope.path = lit "/v1/proofs")
    (h : (http H loads maxRequestBytes scope ms).Yields hist (.ok response))
    (hsent : response.status < 400) :
    ∃ q h' issued, ServiceCall H loads maxRequestBytes scope ms hist (.issueProof q) h' ∧
      (Service.issueProof H q).Yields h' (.ok issued) ∧ response = issuedResponse issued := by
  obtain ⟨y, hroute, hy⟩ := yields_http hquery h
  obtain rfl := Except.ok.inj hy
  rw [route_post hmethod (show scope.path = Role.issuance.path from hpath), command,
    issue_eq] at hroute
  have hrest : ∀ secret (a : List (Str × Json) × Json) τ e,
      (call (Service.issueProof H (issueRequest secret a.1 a.2)) >>= fun issued =>
        pure (issuedResponse issued)).Yields τ (.error e) → Refused e :=
    fun secret a τ e h => call_refused h fun issued τ e hpure => by cases hpure
  obtain ⟨secret, h₁, h₂, a, response, hsecret, hcut, haccepted, ha, hcall, rfl⟩ :=
    sent_of_not_refused hroute (fun e => issuePayload_refused) hrest hsent
  rcases Prog.yields_bind.mp hcall with ⟨issued, h₃, h₄, rfl, hissued, hend⟩ | ⟨e, -, he⟩
  · obtain ⟨x, hx, heq⟩ := yields_call.mp hissued
    cases x with
    | error e => cases heq
    | ok issued' =>
      obtain rfl := Except.ok.inj heq
      cases hend
      rw [List.append_nil] at hcut
      exact ⟨_, h₃, issued, .issue hpath hsecret haccepted ha hcut, hx, rfl⟩
  · cases he

/-- **What `_verify` sends** without a refusal is a result of the service. -/
theorem sent_verify {response : Response} (hquery : scope.queryString = [])
    (hmethod : upper scope.method = lit "POST") (hpath : scope.path = lit "/v1/verifications")
    (h : (http H loads maxRequestBytes scope ms).Yields hist (.ok response))
    (hsent : response.status < 400) :
    ∃ q h' result, ServiceCall H loads maxRequestBytes scope ms hist (.verifyProof q) h' ∧
      (Service.verifyProof H q).Yields h' (.ok result) ∧
        verifiedResponse result = .ok response := by
  obtain ⟨y, hroute, hy⟩ := yields_http hquery h
  obtain rfl := Except.ok.inj hy
  rw [route_post hmethod (show scope.path = Role.verification.path from hpath), command,
    verify_eq] at hroute
  have hrest : ∀ secret (a : Option Str × List (Str × Json)) τ e,
      (call (Service.verifyProof H (verifyRequest secret a.2 a.1)) >>= fun result =>
        Prog.lift (verifiedResponse result)).Yields τ (.error e) → Refused e := by
    refine fun secret a τ e h => call_refused h fun result τ e hlift => ?_
    obtain ⟨-, hresult⟩ := Prog.yields_lift.mp hlift
    unfold verifiedResponse at hresult
    split_ifs at hresult
    obtain rfl := Except.error.inj hresult
    exact refused_service _
  obtain ⟨secret, h₁, h₂, a, response, hsecret, hcut, haccepted, ha, hcall, rfl⟩ :=
    sent_of_not_refused hroute (fun e => verifyPayload_refused) hrest hsent
  rcases Prog.yields_bind.mp hcall with ⟨result, h₃, h₄, rfl, hresult, hend⟩ | ⟨e, -, he⟩
  · obtain ⟨x, hx, heq⟩ := yields_call.mp hresult
    cases x with
    | error e => cases heq
    | ok result' =>
      obtain rfl := Except.ok.inj heq
      obtain ⟨rfl, hresponse⟩ := Prog.yields_lift.mp hend
      rw [List.append_nil] at hcut
      exact ⟨_, h₃, result, .verify hpath hsecret haccepted ha hcut, hx, hresponse.symm⟩
  · cases he

end Http

/-! ### Results of the service -/

variable {H : HashLib} {runs : List (List SystemTrans)} {s : SystemState}
variable {τ τ₁ τ₂ : List SystemTrans} {u v : SystemTrans} {tid p : ℕ}

theorem lineageCommits_subset {runs' : List (List SystemTrans)} (hruns : runs' ⊆ runs)
    (hτ : τ₁ ++ τ₂ ∈ runs) : lineageCommits (runs' ++ [τ₁]) ⊆ lineageCommits runs := by
  intro t ht
  rw [lineageCommits, List.flatMap_append, List.mem_append] at ht
  rcases ht with ht | ht
  · obtain ⟨σ, hσ, ht⟩ := List.mem_flatMap.mp ht
    exact List.mem_flatMap.mpr ⟨σ, hruns hσ, ht⟩
  · refine List.mem_flatMap.mpr ⟨_, hτ, ?_⟩
    rw [commits_append]
    exact List.mem_append_left _ (by simpa using ht)

/-- The part of a run up to a transition, with the transition. -/
theorem SystemRunFrom.through {w : World} (h : SystemRunFrom H w (τ₁ ++ [u] ++ τ₂) s) :
    SystemRunFrom H w (τ₁ ++ [u]) u.dst := by
  rw [List.append_assoc] at h
  obtain ⟨hbefore, hstep, -⟩ := h.cut
  exact hbefore.snoc hstep

/-- The receipt of a published row. -/
theorem ProofReceipt.accepts {r : ProofReceipt}
    (htag : Contract.proofTag.fullmatch r.proofTag = true)
    (hclient : Contract.clientId.fullmatch r.clientId = true)
    (hsubject : Contract.subject.accepts (.str r.subject) = true)
    (hpurpose : Contract.purpose.accepts (.str r.purpose) = true)
    (haudience : Contract.audience.accepts (.str r.audience) = true) (hissued : 0 ≤ r.issuedAt)
    (hexpires : 1 ≤ r.expiresAt) : Contract.proofReceipt.accepts r.toDict = true := by
  refine (Schema.accepts_closed rfl (by decide)).mpr ?_
  simp [htag, hclient, hsubject, hpurpose, haudience, hissued, hexpires, Schema.accepts]

namespace SizedLineage

/-- The ledger that a transition of the lineage finds. -/
theorem published_src (hH : H.LongDigests) (h : SizedLineage H runs s)
    (hreadings : NonnegativeReadings (lineageCommits runs)) (hτ : τ ∈ runs) (hv : v ∈ τ) :
    v.src.world.ledger.Published := by
  obtain ⟨a, b, rfl⟩ := List.append_of_mem hv
  obtain ⟨runs', hruns', hsub⟩ := h.upTo hτ fun _ _ hrun => hrun.cut.1
  refine hruns'.lineage.published hH hruns'.sized fun t ht => hreadings t ?_
  exact lineageCommits_subset hsub hτ ht

/-- A key id under which a proof of the instance is stored has its eight bytes. -/
theorem sizedKid_dst (h : SizedLineage H runs s) (hτ : τ ∈ runs) (hv : v ∈ τ) {row : ProofRow}
    (hrow : row ∈ v.dst.world.ledger.proofs) : SizedKid row.hashKid := by
  obtain ⟨a, b, rfl⟩ := List.append_of_mem hv
  have hτ' : (a ++ [v]) ++ b ∈ runs := by rwa [List.append_assoc]
  obtain ⟨runs', hruns', -⟩ := h.upTo hτ' fun _ _ hrun => hrun.through
  obtain ⟨key, bytes, hkey, -⟩ := hruns'.lineage.custody.keyed.proofs row hrow
  exact hruns'.named row.hashKid (Finmap.mem_of_lookup_eq_some hkey)

/-- A commit of the lineage reads what is not negative. -/
theorem reading (hreadings : NonnegativeReadings (lineageCommits runs)) (hτ : τ ∈ runs)
    (hv : v ∈ τ) {r : Request} {call : StoreCall} {i : Choice} {reply : call.Reply}
    (hl : v.label = .act tid p r (.store call) i (.ok reply)) :
    ∀ t ∈ (Commit.mk call i.chance reply).lockReading?, 0 ≤ t := by
  obtain ⟨a, b, rfl⟩ := List.append_of_mem hv
  exact hreadings.commit (fun t ht => List.mem_flatMap.mpr ⟨_, hτ, ht⟩) hl

/-- **What `verify_proof` returns** refuses the credential or is a body of the contract. -/
theorem returned_conforms (hH : H.LongDigests) (h : SizedLineage H runs s)
    (hreadings : NonnegativeReadings (lineageCommits runs)) (hτ : τ₁ ++ u :: τ₂ ∈ runs)
    {q : VerifyRequest} {result : VerificationResult}
    (hl : u.label = .ret tid p (.api (.verifyProof q)) (.ok (.verification result))) :
    result.reason = some .credentialRejected ∨ result.Conforms := by
  obtain ⟨w, s', hrun, -, -⟩ := h.lineage.run_of_mem hτ
  obtain ⟨y, hy, hout⟩ := (hrun.ret hl).2
  cases hout with
  | failed | invalid | unauthenticated | unencodable | cachedError => cases hy
  | rejected =>
    obtain rfl := Outcome.verification.inj (Except.ok.inj hy)
    exact Or.inl rfl
  | cached _ args cached =>
    obtain rfl := Outcome.verification.inj (Except.ok.inj hy)
    cases cached with
    | @replayed k row _ keyed found same read =>
      obtain ⟨v, hv, p', r', i, hvl⟩ := mem_acted.mp found
      have hmem : v ∈ τ₁ ++ u :: τ₂ := List.mem_append_left _ hv
      have hrow := Op.exec_idempotent (hrun.exec hmem hvl)
      have hstored := (Ledger.idempotent_eq_some hrow.symm).1
      exact Or.inr ((h.published_src hH hreadings hτ hmem).results row hstored _ read)
  | @consumed a _ args cached answer =>
    obtain rfl := Outcome.verification.inj (Except.ok.inj hy)
    obtain ⟨v, hv, p', r', i, hvl⟩ := mem_acted.mp answer
    have hmem : v ∈ τ₁ ++ u :: τ₂ := List.mem_append_left _ hv
    have hpublished := h.published_src hH hreadings hτ hmem
    have hdraws := (h.sized _ hτ).verification hmem hvl
    have hnow : 0 ≤ i.now := reading hreadings hτ hmem hvl _ rfl
    have heffect := (hrun.ledgerStep hmem hvl).effect
    cases heffect with
    | consume effect => exact effect.conforms hpublished hdraws hnow

/-- **What `issue_proof` returns** is a body of the contract. -/
theorem issued_conforms (hH : H.LongDigests) (h : SizedLineage H runs s)
    (hreadings : NonnegativeReadings (lineageCommits runs)) (hτ : τ₁ ++ u :: τ₂ ∈ runs)
    {q : IssueRequest} {issued : IssuedProof}
    (hl : u.label = .ret tid p (.api (.issueProof q)) (.ok (.issued issued))) :
    Contract.issueResponse.accepts issued.toDict = true := by
  obtain ⟨w, s', hrun, -, -⟩ := h.lineage.run_of_mem hτ
  obtain ⟨y, hy, hout⟩ := (hrun.ret hl).2
  cases hout with
  | raised => cases hy
  | @issued proof check record committed args answer =>
    obtain rfl := Outcome.issued.inj (Except.ok.inj hy)
    obtain ⟨v, hv, p', r', i, hvl⟩ := mem_acted.mp answer
    have hmem : v ∈ τ₁ ++ u :: τ₂ := List.mem_append_left _ hv
    have hpublished := h.published_src hH hreadings hτ hmem
    have hnow : 0 ≤ i.now := reading hreadings hτ hmem hvl _ rfl
    have heffect := (hrun.ledgerStep hmem hvl).effect
    cases heffect with
    | issue effect =>
      have hclient : Contract.clientId.fullmatch record.clientId = true := by
        obtain ⟨credential, client, hacc, -⟩ := effect.authorized
        exact hpublished.clients _ (by rw [hacc.lookup.2.2]; rfl)
      have hrow : committed.toRow ∈ v.dst.world.ledger.proofs := by
        show committed.toRow ∈ v.dst.world.ledger.proofs.rows
        rw [effect.proofs]
        exact List.mem_append_right _ (List.mem_singleton.mpr rfl)
      have hkid : SizedKid committed.hashKid := h.sizedKid_dst hτ hmem hrow
      have hrecord : committed.hashKid = record.hashKid := by rw [effect.committed_eq]
      obtain ⟨k, bytes, -, hbytes, hproof, hid, -⟩ := args.token
      obtain ⟨kid, hlen, hkid⟩ := hkid
      -- the proof parses because the key id and the random part have their lengths
      have htoken : Contract.proof.fullmatch proof = true := by
        have hcurrent : k.currentKey.1 = lit "hk_" ++ hexlify kid := by rw [← hid, ← hrecord, hkid]
        rw [hproof, hcurrent]
        exact fullmatch_proof hlen ((h.sized _ hτ).length hbytes)
      have hpub : { record with issuedAt := i.now, expiresAt := 1 }.toRow.Published :=
        args.published hH hclient hnow
      have hissued : 0 ≤ committed.issuedAt := by rw [effect.committed_eq]; exact hnow
      -- the lifetime is at least a second
      have hexpires : 1 ≤ committed.expiresAt := by
        have hlife := args.ttl
        have hnow' : 0 ≤ i.chance.now := hnow
        rw [effect.committed_eq]
        dsimp only
        omega
      refine (Schema.accepts_closed rfl (by decide)).mpr ?_
      simpa [htoken] using ProofReceipt.accepts hpub.proofTag hpub.clientId hpub.subject
        hpub.purpose hpub.audience hissued hexpires

end SizedLineage

/-! ### Bodies -/

/-- A call of the service was made by a thread of the instance. -/
def Ran (runs : List (List SystemTrans)) (c : ApiCall) (h : Hist) : Prop :=
  ∃ τ₁ u τ₂ tid p x, τ₁ ++ u :: τ₂ ∈ runs ∧ u.label = .ret tid p (.api c) x ∧ acted tid τ₁ = h

/-- The body of a response is the one that the contract publishes for the path and the status. -/
structure Http.Conforms (scope : Http.Scope) (response : Http.Response) : Prop where
  /-- Exactly one branch of `VerificationResponse`, and no word about the credential. -/
  verified : scope.path = lit "/v1/verifications" → response.status = 200 →
    Contract.verificationResponse.accepts response.body = true ∧
      ∃ result : VerificationResult, response.body = result.toDict ∧
        result.reason ≠ some .credentialRejected ∧
        result.witness.reason ≠ some .credentialRejected
  /-- `IssueResponse`. -/
  issued : scope.path = lit "/v1/proofs" → response.status = 201 →
    Contract.issueResponse.accepts response.body = true

/-- A thread does what its program does. -/
theorem SystemRunFrom.ret_yields {w : World} (h : SystemRunFrom H w (τ₁ ++ u :: τ₂) s)
    {r : Request} {x : Except Error Outcome} (hl : u.label = .ret tid p r x) :
    (r.program H).Yields (acted tid τ₁) x := by
  obtain ⟨⟨τ, hτ, hx⟩, -⟩ :=
    (Machine.ret_spec (M := system H) (fun r => (program_spec r).yields) h hl).2
  have hhist : acted tid τ₁ = τ := hτ
  exact hhist ▸ hx

/-- The outcome of a call under its constructor. -/
theorem yields_map {α : Type} {p : HostProg α} {f : α → Outcome} {h : Hist}
    {x : Except Error Outcome} : (f <$> p : HostProg Outcome).Yields h x ↔
      ∃ y, p.Yields h y ∧ x = y.map f := by
  refine Prog.yields_bind.trans ⟨?_, ?_⟩
  · rintro (⟨a, h₁, h₂, rfl, hp, hend⟩ | ⟨e, hp, rfl⟩)
    · cases hend
      rw [List.append_nil]
      exact ⟨_, hp, rfl⟩
    · exact ⟨_, hp, rfl⟩
  · rintro ⟨y, hp, rfl⟩
    cases y with
    | ok a => exact Or.inl ⟨a, h, [], (List.append_nil h).symm, hp, .ret (f a)⟩
    | error e => exact Or.inr ⟨e, hp, rfl⟩

/-- A thread ends as a call with its history does. -/
theorem SystemRunFrom.ret_unique {w : World} (h : SystemRunFrom H w (τ₁ ++ u :: τ₂) s)
    {α : Type} {r : Request} {q : HostProg α} {f : α → Outcome} (hr : r.program H = f <$> q)
    {x : Except Error Outcome} {a : α} (hl : u.label = .ret tid p r x)
    (ha : q.Yields (acted tid τ₁) (.ok a)) : x = .ok (f a) := by
  have hx := h.ret_yields hl
  rw [hr] at hx
  obtain ⟨y, hy, rfl⟩ := yields_map.mp hx
  have hsame : acted tid τ₁ ++ [] = acted tid τ₁ ++ [] := rfl
  obtain ⟨-, rfl⟩ := ha.unique hy hsame
  rfl

/-- **Every served body matches the published contract**: the body of a 200 from
`POST /v1/verifications` satisfies exactly one branch of `VerificationResponse`, that of a 201 from
`POST /v1/proofs` satisfies `IssueResponse`. -/
theorem served_bodies_conform (hH : H.LongDigests) (h : SizedLineage H runs s)
    (hreadings : NonnegativeReadings (lineageCommits runs)) {loads : Bytes → Http.Decoding}
    {maxRequestBytes : ℕ} {scope : Http.Scope} {ms : List Http.Message} {hist : Hist}
    {response : Http.Response} (hmethod : Http.upper scope.method = lit "POST")
    (hsent : (Http.http H loads maxRequestBytes scope ms).Yields hist (.ok response))
    (hran : ∀ c h', Http.ServiceCall H loads maxRequestBytes scope ms hist c h' → Ran runs c h') :
    Http.Conforms scope response := by
  have hquery : response.status < 400 → scope.queryString = [] := by
    intro hstatus
    by_contra hne
    rw [Http.http, if_pos hne] at hsent
    cases hsent
    exact absurd hstatus (by decide)
  constructor
  · intro hpath hstatus
    have hok : response.status < 400 := by omega
    obtain ⟨q, h', result, hcall, hresult, hresponse⟩ :=
      Http.sent_verify (hquery hok) hmethod hpath hsent hok
    obtain ⟨τ₁, u, τ₂, tid, p, x, hτ, hl, rfl⟩ := hran _ _ hcall
    obtain ⟨w, s', hrun, -, -⟩ := h.lineage.run_of_mem hτ
    obtain rfl := hrun.ret_unique rfl hl hresult
    have hconforms := h.returned_conforms hH hreadings hτ hl
    unfold Http.verifiedResponse at hresponse
    split_ifs at hresponse with hrejected
    obtain rfl := Except.ok.inj hresponse
    have hbody : result.Conforms := hconforms.resolve_left hrejected
    exact ⟨hbody, result, rfl, hbody.reason⟩
  · intro hpath hstatus
    have hok : response.status < 400 := by omega
    obtain ⟨q, h', issued, hcall, hissued, rfl⟩ :=
      Http.sent_issue (hquery hok) hmethod hpath hsent hok
    obtain ⟨τ₁, u, τ₂, tid, p, x, hτ, hl, rfl⟩ := hran _ _ hcall
    obtain ⟨w, s', hrun, -, -⟩ := h.lineage.run_of_mem hτ
    obtain rfl := hrun.ret_unique rfl hl hissued
    exact h.issued_conforms hH hreadings hτ hl

/-! ### A served verification -/

namespace Http

variable {H : HashLib} {loads : Bytes → Decoding} {maxRequestBytes : ℕ} {scope : Scope}
variable {ms : List Message} {secret : Str} {h₁ h₂ : Hist} {payload : List (Str × Json)}
variable {key : Option Str}

/-- The answers to the two calls of `_verify` are those to the request. -/
theorem yields_verify {result : VerificationResult} {response : Response}
    (hquery : scope.queryString = []) (hmethod : upper scope.method = lit "POST")
    (hpath : scope.path = lit "/v1/verifications") (hsecret : bearerSecret scope = .ok secret)
    (haccepted : (Service.credentialIsAccepted H (.str secret) Role.verification.text).Yields h₁
      (.ok true))
    (hread : verifyPayload loads maxRequestBytes scope ms = .ok (key, payload))
    (hresult : (Service.verifyProof H (verifyRequest secret payload key)).Yields h₂ (.ok result))
    (hresponse : verifiedResponse result = .ok response) :
    (http H loads maxRequestBytes scope ms).Yields (h₁ ++ h₂) (.ok response) := by
  have hauth : (authenticate H secret .verification).Yields h₁ (.ok ()) :=
    Prog.yields_bind.mpr (Or.inl ⟨true, h₁, [], (List.append_nil h₁).symm,
      yields_call.mpr ⟨_, haccepted, rfl⟩, .ret ()⟩)
  have hcalled : (call (Service.verifyProof H (verifyRequest secret payload key)) >>= fun result =>
      Prog.lift (verifiedResponse result)).Yields h₂ (.ok response) :=
    Prog.yields_bind.mpr (Or.inl ⟨result, h₂, [], (List.append_nil h₂).symm,
      yields_call.mpr ⟨_, hresult, rfl⟩, Prog.yields_lift.mpr ⟨rfl, hresponse.symm⟩⟩)
  have hcommand : (verify H loads maxRequestBytes scope ms).Yields (h₁ ++ h₂) (.ok response) := by
    rw [verify_eq]
    refine Prog.yields_lift_bind.mpr (Or.inl ⟨secret, hsecret, ?_⟩)
    refine Prog.yields_bind.mpr (Or.inl ⟨(), h₁, h₂, rfl, hauth, ?_⟩)
    exact Prog.yields_lift_bind.mpr (Or.inl ⟨(key, payload), hread, hcalled⟩)
  have hrouted : route H loads maxRequestBytes scope ms =
      command H loads maxRequestBytes scope ms .verification := route_post hmethod hpath
  rw [http, if_neg (not_not.mpr hquery), hrouted]
  exact Prog.yields_bind.mpr (Or.inl ⟨_, h₁ ++ h₂, [], (List.append_nil _).symm,
    Prog.yields_attempt.mpr ⟨_, hcommand, rfl⟩, .ret response⟩)

/-- The call of the service that answers a verification is determined. -/
theorem ServiceCall.eq_verify {c : ApiCall} {h' : Hist}
    (hcall : ServiceCall H loads maxRequestBytes scope ms (h₁ ++ h₂) c h')
    (hpath : scope.path = lit "/v1/verifications") (hsecret : bearerSecret scope = .ok secret)
    (haccepted : (Service.credentialIsAccepted H (.str secret) Role.verification.text).Yields h₁
      (.ok true))
    (hread : verifyPayload loads maxRequestBytes scope ms = .ok (key, payload)) :
    c = .verifyProof (verifyRequest secret payload key) ∧ h' = h₂ := by
  cases hcall with
  | issue path => exact absurd (path.symm.trans hpath) (by decide)
  | verify _ bearer accepted read split =>
    obtain rfl := Except.ok.inj (hsecret.symm.trans bearer)
    obtain ⟨rfl, rfl⟩ := Prod.mk.inj (Except.ok.inj (hread.symm.trans read))
    obtain ⟨rfl, -⟩ := haccepted.unique accepted split
    exact ⟨rfl, (List.append_cancel_left split).symm⟩

end Http

namespace Scenario

/-- A new instance whose first key id was drawn with eight bytes. -/
def sizedStart : SystemState :=
  .start (.created (lit "hk_" ++ hexlify (List.replicate 8 0)) zeroKey)

/-- The body of a verification request, as it is sent and as it is decoded. -/
def verificationBody : Bytes :=
  ascii "\x7b\"proof\":\"op1.x\",\"subject\":\"alice\",\"purpose\":\"login\",\"audience\":\"urn:a\"\x7d"
def verificationPayload : List (Str × Json) :=
  [(lit "proof", .str (lit "op1.x")), (lit "subject", .str (lit "alice")),
    (lit "purpose", .str (lit "login")), (lit "audience", .str (lit "urn:a"))]

/-- The decoder on this body. -/
def decodeVerification (b : Bytes) : Http.Decoding :=
  if b = verificationBody then ⟨[verificationPayload], .ok (.obj verificationPayload)⟩
  else ⟨[], .error .invalid⟩

/-- A JSON POST of the client of `sizedServed` for a verification. -/
def verificationScope : Http.Scope where
  method := lit "POST"
  path := lit "/v1/verifications"
  queryString := []
  headers :=
    [(ascii "authorization", ascii "Bearer " ++
        (sizedSecret .verification 28).map fun c => UInt8.ofNat c.val),
      (ascii "content-type", ascii "application/json")]

/-- The client of `sizedServed` asks about a text that is no proof: the credential is checked, then
the service is called. -/
def servedVerification : List SystemMove :=
  sizedServed ++
    sizedThread 0 2 (List.replicate 3 0)
      (.api (.credentialIsAccepted (.str (sizedSecret .verification 28)) Role.verification.text))
      1001 40 ++
    sizedThread 0 3 [0, 0, 0, 0, 0, 0]
      (.api (.verifyProof (Http.verifyRequest (sizedSecret .verification 28) verificationPayload
        none))) 1002 60

/-- The return of the first call, and of the second. -/
def acceptsCredential : SystemEvent → Bool
  | .ret 2 _ (.api (.credentialIsAccepted (.str secret) role)) (.ok (.accepted accepted)) =>
    accepted && (secret = sizedSecret .verification 28 && role = Role.verification.text)
  | _ => false
def rejectsProof : SystemEvent → Bool
  | .ret 3 _ (.api (.verifyProof ⟨.str secret, .str proof, .str purpose, .str audience,
      .str subject, .null⟩)) (.ok (.verification result)) =>
    result.reason = some .invalid && (secret = sizedSecret .verification 28 &&
      (proof = lit "op1.x" && (purpose = lit "login" && (audience = lit "urn:a" &&
        subject = lit "alice"))))
  | _ => false

theorem of_acceptsCredential {l : SystemEvent} (h : acceptsCredential l = true) : ∃ p,
    l = .ret 2 p (.api (.credentialIsAccepted (.str (sizedSecret .verification 28))
      Role.verification.text)) (.ok (.accepted true)) := by
  unfold acceptsCredential at h
  split at h
  · simp only [Bool.and_eq_true, decide_eq_true_eq] at h
    obtain ⟨rfl, rfl, rfl⟩ := h
    exact ⟨_, rfl⟩
  · cases h

theorem of_rejectsProof {l : SystemEvent} (h : rejectsProof l = true) : ∃ p result,
    l = .ret 3 p (.api (.verifyProof (Http.verifyRequest (sizedSecret .verification 28)
      verificationPayload none))) (.ok (.verification result)) ∧
      result.reason = some .invalid := by
  unfold rejectsProof at h
  split at h
  · simp only [Bool.and_eq_true, decide_eq_true_eq] at h
    obtain ⟨hreason, rfl, rfl, rfl, rfl, rfl⟩ := h
    exact ⟨_, _, rfl, hreason⟩
  · cases h

end Scenario

/-- A JSON POST about a text that is no proof is answered with a 200. -/
theorem served_bodies_conform_verification : ∃ runs s hist response,
    SizedLineage plainHash runs s ∧ NonnegativeReadings (lineageCommits runs) ∧
    (Http.http plainHash Scenario.decodeVerification 1024 Scenario.verificationScope
      [.request (some Scenario.verificationBody) none]).Yields hist (.ok response) ∧
    response.status = 200 ∧ Http.Conforms Scenario.verificationScope response := by
  obtain ⟨⟨τ, s⟩, hrun, hchecks⟩ := (Option.any_eq_true _ _).mp
    (show ((system plainHash).simulate Scenario.sizedStart Scenario.servedVerification).any
      (fun x => x.1.any (fun u => Scenario.acceptsCredential u.label) &&
        (x.1.any (fun u => Scenario.rejectsProof u.label) &&
          (decide (SizedDraws x.1) && decide (NonnegativeReadings (commits x.1))))) = true by
      decide +kernel)
  simp only [Bool.and_eq_true, decide_eq_true_eq, List.any_eq_true] at hchecks
  obtain ⟨⟨u, hu, haccepts⟩, ⟨v, hv, hrejects⟩, hsized, hreadings⟩ := hchecks
  have hsystem : SystemRunFrom plainHash _ τ s := Machine.run_of_simulate hrun
  have hlineage : SizedLineage plainHash [τ] s := .created (by decide) hsystem hsized
  obtain ⟨p, hul⟩ := Scenario.of_acceptsCredential haccepts
  obtain ⟨p', result, hvl, hreason⟩ := Scenario.of_rejectsProof hrejects
  have hcommits : NonnegativeReadings (lineageCommits [τ]) := by
    rwa [lineageCommits, List.flatMap_singleton]
  obtain ⟨τ₁, τ₂, hτ⟩ := List.append_of_mem hu
  obtain ⟨σ₁, σ₂, hσ⟩ := List.append_of_mem hv
  obtain ⟨y, haccepted, hy⟩ := yields_map.mp (SystemRunFrom.ret_yields (hτ ▸ hsystem) hul)
  obtain rfl : y = .ok true := by
    cases y with
    | ok b => exact congrArg Except.ok (Outcome.accepted.inj (Except.ok.inj hy)).symm
    | error e => cases hy
  obtain ⟨z, hresult, hz⟩ := yields_map.mp (SystemRunFrom.ret_yields (hσ ▸ hsystem) hvl)
  obtain rfl : z = .ok result := by
    cases z with
    | ok b => exact congrArg Except.ok (Outcome.verification.inj (Except.ok.inj hz)).symm
    | error e => cases hz
  have hsecret : Http.bearerSecret Scenario.verificationScope =
      .ok (Scenario.sizedSecret .verification 28) := by decide +kernel
  have hread : Http.verifyPayload Scenario.decodeVerification 1024 Scenario.verificationScope
      [.request (some Scenario.verificationBody) none] =
        .ok (none, Scenario.verificationPayload) := rfl
  have hresponse : Http.verifiedResponse result = .ok ⟨200, result.toDict, []⟩ := by
    rw [Http.verifiedResponse, hreason]
    rfl
  have hsent := Http.yields_verify rfl rfl rfl hsecret haccepted hread hresult hresponse
  refine ⟨[τ], s, _, _, hlineage, hcommits, hsent, rfl, ?_⟩
  refine served_bodies_conform plainHash_long hlineage hcommits rfl hsent ?_
  intro c h' hcall
  obtain ⟨rfl, rfl⟩ := hcall.eq_verify rfl hsecret haccepted hread
  exact ⟨σ₁, v, σ₂, 3, p', _, hσ ▸ List.mem_singleton.mpr rfl, hvl, rfl⟩

end Onceproof

import Onceproof.Guarantees.Grammar
import Onceproof.Ledger.Proofs
import Onceproof.Ledger.Secrets
import Onceproof.Ledger.Results

/-!
# Rows and results in the published formats

The contract gives every id, tag and text of a response a format. `Ledger.Published` says that the
rows of a ledger have these formats and that every stored result, read back, is a body of the
contract; `Lineage.published` shows that the service keeps it. It needs random draws of the
requested length, readings that are not negative, and digests of at least 24 characters.

* `fullmatch_hexSuffix`: a prefix and the right number of hexadecimal digits match.
* `accepts_rejected`, `accepts_replay`, `accepts_accepted`: the three kinds of results are those
  of the three branches of the contract.
-/

namespace Onceproof

/-! ### Texts -/

theorem length_hexlify (b : Bytes) : (hexlify b).length = 2 * b.length := by
  induction b with
  | nil => rfl
  | cons x b ih =>
    rw [hexlify, List.length_cons, List.length_cons, List.length_cons, ih]
    omega

theorem hex_of_mem_hexlify {c : CodePoint} {b : Bytes} (h : c ∈ hexlify b) :
    Regex.hex c = true := by
  obtain ⟨n, rfl⟩ := mem_hexlify h
  have hcases := hexDigit_cases n
  simp only [Regex.hex, Regex.ranges, List.any_cons, List.any_nil, Bool.or_false,
    Bool.or_eq_true, Bool.and_eq_true, decide_eq_true_eq]
  omega

theorem length_base64url : ∀ b : Bytes, (base64url b).length = (4 * b.length + 2) / 3
  | [] => rfl
  | [_] => by simp only [base64url, List.length_cons, List.length_nil]
  | [_, _] => by simp only [base64url, List.length_cons, List.length_nil]
  | _ :: _ :: _ :: b => by
    simp only [base64url, List.length_cons, length_base64url b]
    omega

private theorem alphabet_urlSafe :
    (base64Alphabet.all fun c => Regex.alnum c || (lit "_-").contains c) = true := by decide

theorem urlSafe_of_mem_base64url {c : CodePoint} {b : Bytes} (h : c ∈ base64url b) :
    (Regex.alnum c || (lit "_-").contains c) = true :=
  List.all_eq_true.mp alphabet_urlSafe c (mem_base64url h)

/-- A text is published with a prefix and `n` hexadecimal digits. -/
theorem fullmatch_hexSuffix {t : String} {n : ℕ} {s : Str} (hlen : s.length = n)
    (hhex : ∀ c ∈ s, Regex.hex c = true) :
    (Regex.seq (Regex.text t) (Regex.exactly (.cls Regex.hex) n)).fullmatch (lit t ++ s) = true :=
  (Regex.fullmatch_iff _ _).mpr (Regex.mem_text_seq.mpr
    ⟨s, Regex.mem_exactly_cls.mpr ⟨hlen, hhex⟩, rfl⟩)

namespace Contract

variable {r : Regex} {s : Str} {n : ℤ}

@[simp] theorem accepts_matching : (matching r).accepts (.str s) = r.fullmatch s := by
  simp [matching, Pattern.search_anchored]

@[simp] theorem accepts_reading : reading.accepts (.int n) = decide (0 ≤ n) := by
  simp [reading]

@[simp] theorem accepts_expiry : expiry.accepts (.int n) = decide (1 ≤ n) := by
  simp [expiry]

/-- What the validator of subjects lets through has the format of the contract. -/
theorem subject_of_text {v : Json}
    (h : Service.text v "subject" maxSubjectLength = .ok s) : subject.accepts (.str s) = true := by
  obtain ⟨-, hne, hlen, hall⟩ := Service.text_eq_ok.mp h
  exact accepts_subject.mpr ⟨hne, hlen, hall⟩

theorem purpose_of_purpose {v : Json} (h : Service.purpose v = .ok s) :
    purpose.accepts (.str s) = true :=
  accepts_purpose.trans (Service.purpose_eq_ok.mp h).2

theorem audience_of_audience {v : Json} (h : Service.audience v = .ok s) :
    audience.accepts (.str s) = true := by
  obtain ⟨htext, hpattern⟩ := Service.audience_eq_ok.mp h
  obtain ⟨-, hne, hlen, hall⟩ := Service.text_eq_ok.mp htext
  exact accepts_audience.mpr ⟨hne, hlen, audience_language.mp ⟨hpattern, hall⟩⟩

end Contract

/-- A proof under an id of eight bytes, with a random part of 32 bytes. -/
theorem fullmatch_proof {kid bytes : Bytes} (hkid : kid.length = 8) (hbytes : bytes.length = 32) :
    Contract.proof.fullmatch (Service.proofToken (lit "hk_" ++ hexlify kid) bytes) = true := by
  have hsplit : Service.proofToken (lit "hk_" ++ hexlify kid) bytes =
      lit "op1.hk_" ++ (hexlify kid ++ (lit "." ++ base64url bytes)) := by
    rw [Service.proofToken, List.append_assoc]
    rfl
  rw [Regex.fullmatch_iff, hsplit]
  refine Regex.mem_text_seq.mpr ⟨_, Regex.mem_seq.mpr ⟨hexlify kid, ?_, _, ?_, rfl⟩, rfl⟩
  · refine Regex.mem_exactly_cls.mpr ⟨?_, fun c hc => hex_of_mem_hexlify hc⟩
    rw [length_hexlify, hkid]
  · refine Regex.mem_text_seq.mpr ⟨_, Regex.mem_exactly_cls.mpr ⟨?_, ?_⟩, rfl⟩
    · rw [length_base64url, hbytes]
    · exact fun c hc => urlSafe_of_mem_base64url hc

/-! ### Claims, witnesses and results -/

/-- Claims in the formats of the contract. -/
structure ProofClaims.Published (c : ProofClaims) : Prop where
  clientId : Contract.clientId.fullmatch c.clientId = true
  subject : Contract.subject.accepts (.str c.subject) = true
  purpose : Contract.purpose.accepts (.str c.purpose) = true
  audience : Contract.audience.accepts (.str c.audience) = true
  issuedAt : 0 ≤ c.issuedAt
  expiresAt : 1 ≤ c.expiresAt

theorem ProofClaims.Published.accepts {c : ProofClaims} (h : c.Published) :
    Contract.proofClaims.accepts c.toDict = true := by
  refine (Schema.accepts_closed rfl (by decide)).mpr ?_
  simp [h.clientId, h.subject, h.purpose, h.audience, h.issuedAt, h.expiresAt]

private theorem witness_names : [lit "state", lit "verification_id", lit "proof_tag",
    lit "client_id", lit "decided_at", lit "reason"].Nodup := by decide

private theorem branch_names :
    [lit "verified", lit "reason", lit "witness", lit "claims"].Nodup := by decide

/-- The witness of a schema, member by member. -/
theorem accepts_witness {w : VerificationWitness} {state : Str} {tag client reason : Schema} :
    (Contract.witness state tag client reason).accepts w.toDict = true ↔
      w.state.text = state ∧ Contract.verificationId.fullmatch w.verificationId = true ∧
        tag.accepts (Json.ofText? w.proofTag) = true ∧
        client.accepts (Json.ofText? w.clientId) = true ∧ 0 ≤ w.decidedAt ∧
        reason.accepts (Json.ofText? (w.reason.map RejectionReason.text)) = true := by
  refine (Schema.accepts_closed rfl ?_).trans ?_
  · exact witness_names
  simp [Schema.accepts]

/-- The result of a branch, member by member. -/
theorem accepts_branch {r : VerificationResult} {verified : Bool} {reason witness claims : Schema} :
    (Contract.verificationBranch verified reason witness claims).accepts r.toDict = true ↔
      r.verified = verified ∧
        reason.accepts (Json.ofText? (r.reason.map RejectionReason.text)) = true ∧
        witness.accepts r.witness.toDict = true ∧
        claims.accepts (r.claims.elim .null ProofClaims.toDict) = true := by
  refine (Schema.accepts_closed rfl ?_).trans ?_
  · exact branch_names
  cases r.claims <;> simp [Schema.accepts]

/-- A text with a format, or none. -/
private theorem accepts_nullable {r : Regex} {o : Option Str}
    (h : ∀ t ∈ o, r.fullmatch t = true) :
    (Schema.oneOf [Contract.matching r, .null]).accepts (Json.ofText? o) = true := by
  cases o with
  | none => simp [Contract.matching, Schema.accepts]
  | some t => simp [h t rfl, Schema.accepts]

section Results

variable {id : Str} {now : ℤ}

/-- A rejection that is no replay is a body of the second branch alone. -/
theorem accepts_rejected {reason : RejectionReason} {tag client : Option Str}
    (hreason : reason ≠ .credentialRejected) (hfirst : reason ≠ .alreadyConsumed)
    (hid : Contract.verificationId.fullmatch id = true)
    (htag : ∀ t ∈ tag, Contract.proofTag.fullmatch t = true)
    (hclient : ∀ t ∈ client, Contract.clientId.fullmatch t = true) (hnow : 0 ≤ now) :
    Contract.verificationResponse.accepts (rejectedResult reason id tag client now).toDict =
      true := by
  have hlisted : Contract.rejectionReasons.accepts (.str reason.text) = true := by
    cases reason with
    | credentialRejected => exact absurd rfl hreason
    | alreadyConsumed => exact absurd rfl hfirst
    | invalid | expired | bindingMismatch => rfl
  have hother : (Schema.text (lit "already_consumed")).accepts (.str reason.text) = false := by
    cases reason with
    | alreadyConsumed => exact absurd rfl hfirst
    | credentialRejected | invalid | expired | bindingMismatch => rfl
  have hstate : reason.expectedState = .rejected := by
    cases reason with
    | alreadyConsumed => exact absurd rfl hfirst
    | credentialRejected | invalid | expired | bindingMismatch => rfl
  have hfirstBranch : (Contract.verificationBranch true .null Contract.acceptedWitness
      Contract.proofClaims).accepts (rejectedResult reason id tag client now).toDict = false := by
    rw [← Bool.not_eq_true, accepts_branch]
    simp [rejectedResult]
  have hsecond : (Contract.verificationBranch false Contract.rejectionReasons
      Contract.rejectedWitness .null).accepts
      (rejectedResult reason id tag client now).toDict = true := by
    rw [accepts_branch, Contract.rejectedWitness, accepts_witness]
    refine ⟨rfl, hlisted, ⟨?_, hid, ?_, ?_, hnow, hlisted⟩, rfl⟩
    · exact congrArg WitnessState.text hstate
    · exact accepts_nullable htag
    · exact accepts_nullable hclient
  have hthird : (Contract.verificationBranch false (.text (lit "already_consumed"))
      Contract.replayWitness .null).accepts
      (rejectedResult reason id tag client now).toDict = false := by
    rw [← Bool.not_eq_true, accepts_branch]
    exact fun h => absurd h.2.1 (Bool.eq_false_iff.mp hother)
  simp [Contract.verificationResponse, hfirstBranch, hsecond, hthird]

/-- A replay of a proof is a body of the third branch alone. -/
theorem accepts_replay {tag client : Str} (hid : Contract.verificationId.fullmatch id = true)
    (htag : Contract.proofTag.fullmatch tag = true)
    (hclient : Contract.clientId.fullmatch client = true) (hnow : 0 ≤ now) :
    Contract.verificationResponse.accepts
      (rejectedResult .alreadyConsumed id (some tag) (some client) now).toDict = true := by
  have hfirst : (Contract.verificationBranch true .null Contract.acceptedWitness
      Contract.proofClaims).accepts
      (rejectedResult .alreadyConsumed id (some tag) (some client) now).toDict = false := by
    rw [← Bool.not_eq_true, accepts_branch]
    simp [rejectedResult]
  have hsecond : (Contract.verificationBranch false Contract.rejectionReasons
      Contract.rejectedWitness .null).accepts
      (rejectedResult .alreadyConsumed id (some tag) (some client) now).toDict = false := by
    have hother : Contract.rejectionReasons.accepts (.str RejectionReason.alreadyConsumed.text) =
        false := rfl
    rw [← Bool.not_eq_true, accepts_branch]
    exact fun h => absurd h.2.1 (Bool.eq_false_iff.mp hother)
  have hthird : (Contract.verificationBranch false (.text (lit "already_consumed"))
      Contract.replayWitness .null).accepts
      (rejectedResult .alreadyConsumed id (some tag) (some client) now).toDict = true := by
    rw [accepts_branch, Contract.replayWitness, accepts_witness]
    refine ⟨rfl, rfl, ⟨rfl, hid, ?_, ?_, hnow, rfl⟩, rfl⟩
    · exact Contract.accepts_matching.trans htag
    · exact Contract.accepts_matching.trans hclient
  simp [Contract.verificationResponse, hfirst, hsecond, hthird]

/-- An acceptance is a body of the first branch alone. -/
theorem accepts_accepted {record : ProofRecord} (hid : Contract.verificationId.fullmatch id = true)
    (htag : Contract.proofTag.fullmatch record.proofTag = true)
    (hclaims : ∀ c ∈ (acceptedResult record id now).claims, c.Published) (hnow : 0 ≤ now) :
    Contract.verificationResponse.accepts (acceptedResult record id now).toDict = true := by
  have hclaims := hclaims _ rfl
  have hfirst : (Contract.verificationBranch true .null Contract.acceptedWitness
      Contract.proofClaims).accepts (acceptedResult record id now).toDict = true := by
    rw [accepts_branch, Contract.acceptedWitness, accepts_witness]
    refine ⟨rfl, rfl, ⟨rfl, hid, ?_, ?_, hnow, rfl⟩, hclaims.accepts⟩
    · exact Contract.accepts_matching.trans htag
    · exact Contract.accepts_matching.trans hclaims.clientId
  have hrejected (reason witness claims : Schema) :
      (Contract.verificationBranch false reason witness claims).accepts
        (acceptedResult record id now).toDict = false := by
    rw [← Bool.not_eq_true, accepts_branch]
    simp [acceptedResult]
  simp [Contract.verificationResponse, hfirst, hrejected]

end Results

/-! ### Rows -/

/-- A proof row in the formats of the contract. -/
structure ProofRow.Published (r : ProofRow) : Prop where
  proofTag : Contract.proofTag.fullmatch r.proofTag = true
  clientId : Contract.clientId.fullmatch r.clientId = true
  subject : Contract.subject.accepts (.str r.subject) = true
  purpose : Contract.purpose.accepts (.str r.purpose) = true
  audience : Contract.audience.accepts (.str r.audience) = true
  issuedAt : 0 ≤ r.issuedAt

/-- What a row says is said by every row with the same fields. -/
theorem ProofRow.Of.published {r : ProofRow} {c : ProofRecord} (h : r.Of c)
    (hc : c.toRow.Published) : r.Published where
  proofTag := h.proofTag ▸ hc.proofTag
  clientId := h.clientId ▸ hc.clientId
  subject := h.subject ▸ hc.subject
  purpose := h.purpose ▸ hc.purpose
  audience := h.audience ▸ hc.audience
  issuedAt := h.issuedAt ▸ hc.issuedAt

/-- A result whose body is one of the contract. -/
def VerificationResult.Conforms (r : VerificationResult) : Prop :=
  Contract.verificationResponse.accepts r.toDict = true

/-- A ledger in the formats of the contract. -/
structure Ledger.Published (db : Ledger) : Prop where
  clients : ∀ id, (db.clients.get? id).isSome = true → Contract.clientId.fullmatch id = true
  proofs : ∀ r ∈ db.proofs, r.Published
  encodable : ∀ r ∈ db.proofs, r.Encodable
  results : db.ReadsBack VerificationResult.Conforms

/-- A text about the credential is no reason of the contract. -/
private theorem not_credentialRejected {reason : Option RejectionReason} {s : Schema}
    (hs : s = .null ∨ s = Contract.rejectionReasons ∨ s = .text (lit "already_consumed"))
    (h : s.accepts (Json.ofText? (reason.map RejectionReason.text)) = true) :
    reason ≠ some .credentialRejected := by
  rintro rfl
  rcases hs with rfl | rfl | rfl
  · exact absurd h (by decide)
  · exact absurd h (by decide)
  · exact absurd h (by decide)

/-- **A body of the contract** says nothing about the credential. -/
theorem VerificationResult.Conforms.reason {r : VerificationResult} (h : r.Conforms) :
    r.reason ≠ some .credentialRejected ∧ r.witness.reason ≠ some .credentialRejected := by
  have hbranch : ∀ {verified reason witness claims},
      (Contract.verificationBranch verified reason witness claims).accepts r.toDict = true →
      (reason = .null ∨ reason = Contract.rejectionReasons ∨
        reason = .text (lit "already_consumed")) →
      (∃ state tag client, witness = Contract.witness state tag client reason) →
      r.reason ≠ some .credentialRejected ∧ r.witness.reason ≠ some .credentialRejected := by
    intro verified reason witness claims hr hreason hwitness
    obtain ⟨state, tag, client, rfl⟩ := hwitness
    obtain ⟨-, hown, hshown, -⟩ := accepts_branch.mp hr
    exact ⟨not_credentialRejected hreason hown,
      not_credentialRejected hreason (accepts_witness.mp hshown).2.2.2.2.2⟩
  by_contra hno
  have hone : ∀ {verified reason witness claims},
      (reason = .null ∨ reason = Contract.rejectionReasons ∨
        reason = .text (lit "already_consumed")) →
      (∃ state tag client, witness = Contract.witness state tag client reason) →
      (Contract.verificationBranch verified reason witness claims).accepts r.toDict = false :=
    fun hreason hwitness => Bool.eq_false_iff.mpr fun hr => hno (hbranch hr hreason hwitness)
  have hnone : Contract.verificationResponse.accepts r.toDict = false := by
    rw [Contract.verificationResponse, Contract.acceptedWitness, Contract.rejectedWitness,
      Contract.replayWitness, Schema.accepts_oneOf, Schema.branchesAccepting_cons,
      Schema.branchesAccepting_cons, Schema.branchesAccepting_cons, Schema.branchesAccepting_nil,
      hone (Or.inl rfl) ⟨_, _, _, rfl⟩, hone (Or.inr (Or.inl rfl)) ⟨_, _, _, rfl⟩,
      hone (Or.inr (Or.inr rfl)) ⟨_, _, _, rfl⟩]
    rfl
  exact Bool.false_ne_true (hnone.symm.trans h)

variable {H : HashLib} {db db' : Ledger} {l : Commit}

/-- Proof digests have at least 24 characters. -/
def HashLib.LongDigests (H : HashLib) : Prop :=
  ∀ (key : RootKey) (proof d : Str), proofDigest H key.val proof = .ok d → 24 ≤ d.length

theorem length_plainPair (key data : Bytes) :
    (plainPair key data).length = 2 * data.length + 1 + key.length := by
  have hdoubled : ∀ b : Bytes, (b.flatMap fun x => [1, x]).length = 2 * b.length := by
    intro b
    induction b with
    | nil => rfl
    | cons x b ih =>
      rw [List.flatMap_cons, List.length_append, ih, List.length_cons, List.length_cons,
        List.length_cons, List.length_nil]
      omega
  rw [plainPair, List.length_append, hdoubled, List.length_reverse, List.length_cons]
  omega

/-- The digests that write their inputs down are long. -/
theorem plainHash_long : plainHash.LongDigests := by
  intro key proof d h
  obtain ⟨data, -, rfl⟩ := digest_eq_ok.mp (proofDigest_rootKey _ _ ▸ h)
  have hkey := key.property
  have hinner : (plainPair (plainPair hkdfSalt key.val) (proofInfo ++ [1])).length ≥ 65 := by
    rw [length_plainPair, length_plainPair]
    omega
  have houter := length_plainPair (plainPair (plainPair hkdfSalt key.val) (proofInfo ++ [1])) data
  rw [length_hexlify]
  show 24 ≤ 2 * (plainPair (plainPair (plainPair hkdfSalt key.val) (proofInfo ++ [1])) data).length
  omega

theorem Ledger.published_empty : Ledger.empty.Published where
  clients _ h := by cases h
  proofs _ h := by cases h
  encodable _ h := by cases h
  results _ h := by cases h

theorem Ledger.Published.backup (h : db.Published) : (Store.backup db).Published where
  clients id hid := h.clients id (Store.backup_clients db ▸ hid)
  proofs r hr := h.proofs r (Store.backup_proofs db ▸ hr)
  encodable r hr := h.encodable r (Store.backup_proofs db ▸ hr)
  results v hv := h.results v (Store.backup_verifications db ▸ hv)

/-- The record of an issuance by a published client. -/
theorem IssueArgs.published (hH : H.LongDigests) {q : IssueRequest} {h : Hist} {p check : Str}
    {record : ProofRecord} (hargs : IssueArgs H q h p record check)
    (hclient : Contract.clientId.fullmatch record.clientId = true) {now expiresAt : ℤ}
    (hnow : 0 ≤ now) :
    { record with issuedAt := now, expiresAt := expiresAt }.toRow.Published where
  proofTag := by
    obtain ⟨k, bytes, -, -, -, -, hdigest, -⟩ := hargs.token
    obtain ⟨data, -, hhex⟩ := digest_eq_ok.mp (proofDigest_rootKey _ _ ▸ hdigest)
    have hlong := hH _ _ _ hdigest
    have htag : record.proofTag = lit "pf_" ++ record.tokenDigest.take 24 := hargs.tag
    refine htag ▸ fullmatch_hexSuffix ?_ fun c hc => ?_
    · rw [List.length_take]
      omega
    · exact hex_of_mem_hexlify (hhex ▸ List.mem_of_mem_take hc)
  clientId := hclient
  subject := Contract.subject_of_text hargs.subject
  purpose := Contract.purpose_of_purpose hargs.purpose
  audience := Contract.audience_of_audience hargs.audience
  issuedAt := hnow

/-- **A decision of a published ledger conforms** to the contract. -/
theorem DecideEffect.conforms {a : ConsumeProof} {now : ℤ} {draws : Draws}
    {result : VerificationResult} (h : DecideEffect a now draws db result db')
    (hdb : db.Published) (hdraws : draws.verification.length = 16) (hnow : 0 ≤ now) :
    result.Conforms := by
  have hid : Contract.verificationId.fullmatch draws.verificationId = true :=
    fullmatch_hexSuffix (by rw [length_hexlify, hdraws]) fun c hc => hex_of_mem_hexlify hc
  have hclient : Contract.clientId.fullmatch a.clientId = true := by
    obtain ⟨credential, client, hacc, -⟩ := h.authorized
    exact hdb.clients _ (by rw [hacc.lookup.2.2]; rfl)
  have hsome : ∀ t ∈ some a.clientId, Contract.clientId.fullmatch t = true :=
    fun t ht => Option.some.inj ht ▸ hclient
  rw [VerificationResult.Conforms, h.result_eq]
  unfold ConsumeProof.decision
  cases hr : db.proofOf a.clientId a.tokenDigest with
  | none => exact accepts_rejected (by decide) (by decide) hid (fun t ht => by cases ht) hsome hnow
  | some r =>
    obtain ⟨hmem, -, -⟩ := Ledger.proofOf_eq_some.mp hr
    have hrow := hdb.proofs r hmem
    have htag : ∀ t ∈ some (proofFromRow r).proofTag, Contract.proofTag.fullmatch t = true :=
      fun t ht => Option.some.inj ht ▸ hrow.proofTag
    dsimp only [Option.map_some]
    split_ifs with hconsumed hexpired hbinding
    · exact accepts_replay hid hrow.proofTag hclient hnow
    · exact accepts_rejected (by decide) (by decide) hid htag hsome hnow
    · exact accepts_rejected (by decide) (by decide) hid htag hsome hnow
    · refine accepts_accepted hid hrow.proofTag (fun c hc => ?_) hnow
      obtain rfl := Option.some.inj hc
      have hlive : now < r.expiresAt := not_le.mp hexpired
      have hexpires : 1 ≤ r.expiresAt := by omega
      exact ⟨hrow.clientId, hrow.subject, hrow.purpose, hrow.audience, hrow.issuedAt, hexpires⟩

/-- A verification in a published ledger conforms, or was refused. -/
theorem ConsumeEffect.conforms {a : ConsumeProof} {now : ℤ} {draws : Draws}
    {result : VerificationResult} (h : ConsumeEffect a now draws db result db')
    (hdb : db.Published) (hdraws : draws.verification.length = 16) (hnow : 0 ≤ now) :
    result.reason = some .credentialRejected ∨ result.Conforms := by
  cases h with
  | refused => exact Or.inl rfl
  | replayed _ _ key row result keyed stored same read =>
    exact Or.inr (hdb.results row (Ledger.idempotent_eq_some stored).1 result read)
  | decided effect => exact Or.inr (effect.conforms hdb hdraws hnow)

/-! ### Runs -/

section Step

variable {τ τ₁ τ₂ : List SystemTrans} {u : SystemTrans} {tid p : ℕ} {r : Request}
variable {call : StoreCall} {i : Choice} {reply : call.Reply}

/-- A commit reads what the clock answered, which is not negative. -/
theorem NonnegativeReadings.commit {cs : List (Trans Ledger Commit)}
    (h : NonnegativeReadings cs) (hcs : commits (τ₁ ++ u :: τ₂) ⊆ cs)
    (hl : u.label = .act tid p r (.store call) i (.ok reply)) :
    ∀ t ∈ (Commit.mk call i.chance reply).lockReading?, 0 ≤ t :=
  h ⟨u.src.world.ledger, ⟨call, i.chance, reply⟩, u.dst.world.ledger⟩ (hcs (mem_commits.mpr
    ⟨u, List.mem_append_right _ List.mem_cons_self, tid, p, r, i, hl, rfl, rfl, rfl⟩))

/-- The random bytes of a verification. -/
theorem SizedDraws.verification {a : ConsumeProof} {x : (Op.store (.consumeProof a)).Ans}
    (h : SizedDraws τ) (hu : u ∈ τ) (hl : u.label = .act tid p r (.store (.consumeProof a)) i x) :
    i.draws.verification.length = 16 := by
  have hsized := h u hu
  rwa [hl] at hsized

/-- **Step lemma.** -/
theorem Ledger.Published.step (hH : H.LongDigests) (hdb : u.src.world.ledger.Published)
    (hsized : SizedDraws (τ₁ ++ u :: τ₂))
    (hreadings : ∀ t ∈ (Commit.mk call i.chance reply).lockReading?, 0 ≤ t)
    (hl : u.label = .act tid p r (.store call) i (.ok reply))
    (hcommand : RequestCommand H r (acted tid τ₁) (.store call))
    (hstep : LedgerStep u.src.world.ledger ⟨call, i.chance, reply⟩ u.dst.world.ledger) :
    u.dst.world.ledger.Published where
  clients id hid := by
    have hclient := hstep.client id
    generalize ho : u.src.world.ledger.clients.get? id = o at hclient
    generalize ho' : u.dst.world.ledger.clients.get? id = o' at hclient hid
    cases hclient with
    | same => exact hdb.clients id (ho ▸ hid)
    | @created a x c label named =>
      obtain rfl : call = .createClient a := congrArg Commit.call label
      obtain ⟨q, -, hargs⟩ := hcommand.commanded
      obtain ⟨bytes, hdrawn, hid⟩ := hargs.clientId
      have hlen : bytes.length = 12 := hsized.length hdrawn
      rw [← named, hid]
      exact fullmatch_hexSuffix (by rw [length_hexlify, hlen]) fun c hc => hex_of_mem_hexlify hc
    | revoked => exact hdb.clients id (ho ▸ rfl)
  proofs row hrow := by
    rcases hstep.proof_origin (Table.get?_eq_some.mpr ⟨hrow, rfl⟩) with hissued | hold
    · obtain ⟨c, ⟨record, check, x, label, -, effect⟩, rfl⟩ := hissued
      obtain rfl : call = .issueProof record check := congrArg Commit.call label
      obtain ⟨q, p, -, hargs, -⟩ := hcommand.commanded
      obtain ⟨credential, client, hacc, -⟩ := effect.authorized
      have hclient : Contract.clientId.fullmatch record.clientId = true :=
        hdb.clients _ (by rw [hacc.lookup.2.2]; rfl)
      have hx : x = i.chance := (congrArg Commit.chance label).symm
      have hnow : 0 ≤ x.now := hx ▸ hreadings _ rfl
      rw [effect.committed_eq]
      exact hargs.published hH hclient hnow
    · obtain ⟨row₀, hrow₀, hsame⟩ := hold
      have hof : row₀.Of (proofFromRow row₀) :=
        ⟨rfl, rfl, rfl, rfl, rfl, rfl, rfl, rfl, rfl, le_rfl⟩
      have hpublished := hdb.proofs row₀ (Table.get?_eq_some.mp hrow₀).1
      exact (hsame _ hof).published ⟨hpublished.proofTag, hpublished.clientId, hpublished.subject,
        hpublished.purpose, hpublished.audience, hpublished.issuedAt⟩
  encodable := hstep.proofs_encodable hdb.encodable
  results := by
    refine hstep.readsBack hdb.encodable hdb.results fun a x result hd => ?_
    obtain ⟨label, effect⟩ := hd
    obtain rfl : call = .consumeProof a := congrArg Commit.call label
    have hx : x = i.chance := (congrArg Commit.chance label).symm
    have hdraws : x.draws.verification.length = 16 :=
      hx ▸ hsized.verification (List.mem_append_right _ List.mem_cons_self) hl
    exact effect.conforms hdb hdraws (hx ▸ hreadings _ rfl)

/-- **The ledger of an instance is published.** -/
theorem Lineage.published {runs : List (List SystemTrans)} {s : SystemState}
    (hH : H.LongDigests) (h : Lineage H runs s) (hsized : ∀ τ ∈ runs, SizedDraws τ)
    (hreadings : NonnegativeReadings (lineageCommits runs)) : s.world.ledger.Published := by
  refine h.ledger_kept Ledger.published_empty (fun hI => hI.backup) ?_
  intro τ₁ u τ₂ tid p r call i reply hcut hl hcommand hstep hI
  have hcommits : commits (τ₁ ++ u :: τ₂) ⊆ lineageCommits runs :=
    fun t ht => List.mem_flatMap.mpr ⟨_, hcut, ht⟩
  exact hI.step hH (hsized _ hcut) (hreadings.commit hcommits hl) hl hcommand hstep

end Step

end Onceproof

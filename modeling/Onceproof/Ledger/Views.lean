import Onceproof.Ledger.Authority
import Onceproof.Ledger.Clock
import Onceproof.Service.Undisturbed

/-!
# What a client sees of the ledger

The view of a client is made of its own rows, the audit events that do not name another client,
its rate events after a reading, and the seal. Requests for the client come to the same outcome
on any two ledgers with the same view (`Ledger.issueOutcome_congr`,
`Ledger.consumeOutcome_congr`, `Ledger.rotateOutcome_congr`, `Ledger.revokeOutcome_congr`):
a proof of another client and a proof that does not exist are the same to it.
-/

namespace Onceproof

variable {H : HashLib} {α : Type} {db p : Ledger} {A : Str} {t now : ℤ} {draws : Draws}
variable {event : Bytes}

/-- The part of a ledger that concerns one client. -/
@[ext]
structure ClientView where
  clients : List ClientRow
  credentials : List CredentialRow
  proofs : List ProofRow
  verifications : List VerificationRow
  auditEvents : List AuditRow
  rateEvents : List RateEvent
  restoreRequired : Bool

namespace Ledger

/-- The view of the client `A` at a reading `t`. -/
def view (db : Ledger) (A : Str) (t : ℤ) : ClientView where
  clients := db.clients.rows.filter fun c => c.clientId = A
  credentials := db.credentials.rows.filter fun c => c.clientId = A
  proofs := db.proofs.rows.filter fun r => r.clientId = A
  verifications := db.verifications.rows.filter fun v => v.clientId = A
  auditEvents := db.auditEvents.rows.filter fun e => e.clientId.all fun c => c = A
  rateEvents := db.rateEvents.filter fun e => e.clientId = A ∧ t - 60 < e.occurredAt
  restoreRequired := db.restoreRequired

/-! ### Lookups -/

section Lookups

variable (hview : db.view A t = p.view A t)
include hview

theorem view_clients_congr : db.clients.rows.filter (fun c => c.clientId = A) =
    p.clients.rows.filter fun c => c.clientId = A := congrArg ClientView.clients hview

theorem view_credentials_congr : db.credentials.rows.filter (fun c => c.clientId = A) =
    p.credentials.rows.filter fun c => c.clientId = A := congrArg ClientView.credentials hview

theorem view_proofs_congr : db.proofs.rows.filter (fun r => r.clientId = A) =
    p.proofs.rows.filter fun r => r.clientId = A := congrArg ClientView.proofs hview

theorem view_verifications_congr : db.verifications.rows.filter (fun v => v.clientId = A) =
    p.verifications.rows.filter fun v => v.clientId = A := congrArg ClientView.verifications hview

theorem view_auditEvents_congr :
    db.auditEvents.rows.filter (fun e => e.clientId.all fun c => c = A) =
      p.auditEvents.rows.filter fun e => e.clientId.all fun c => c = A :=
  congrArg ClientView.auditEvents hview

theorem view_rateEvents_congr :
    db.rateEvents.filter (fun e => e.clientId = A ∧ t - 60 < e.occurredAt) =
      p.rateEvents.filter fun e => e.clientId = A ∧ t - 60 < e.occurredAt :=
  congrArg ClientView.rateEvents hview

theorem restoreRequired_congr : db.restoreRequired = p.restoreRequired :=
  congrArg ClientView.restoreRequired hview

theorem client_congr : db.clients.get? A = p.clients.get? A :=
  Table.get?_congr (view_clients_congr hview) fun _ hr => decide_eq_true hr

/-- The credential with an id, if it belongs to the client. -/
theorem credential_congr (id : Str) :
    (db.credentials.get? id).filter (fun c => c.clientId = A) =
      (p.credentials.get? id).filter fun c => c.clientId = A :=
  Table.filter_get?_congr (view_credentials_congr hview) id

theorem proofOf_congr (D : Str) : db.proofOf A D = p.proofOf A D :=
  Table.filter_get?_congr (view_proofs_congr hview) D

theorem idempotent_congr (key : Str) : db.idempotent A key = p.idempotent A key :=
  find?_congr_filter (view_verifications_congr hview)
    fun _ hv => decide_eq_true (of_decide_eq_true hv).1

theorem currentCredential_congr (role : Role) :
    db.currentCredential A role = p.currentCredential A role :=
  find?_congr_filter (view_credentials_congr hview)
    fun _ hc => decide_eq_true (of_decide_eq_true hc).1

theorem rateWindow_view_congr (operation : Operation) (hnow : t ≤ now) :
    db.rateWindow A operation (now - 60) = p.rateWindow A operation (now - 60) := by
  have hwindow : ∀ l : List RateEvent, (l.filter fun e => e.clientId = A ∧
      e.operation = operation ∧ now - 60 < e.occurredAt) =
        (l.filter fun e => e.clientId = A ∧ t - 60 < e.occurredAt).filter fun e =>
          e.operation = operation ∧ now - 60 < e.occurredAt := by
    intro l
    rw [List.filter_filter]
    refine congrArg (fun r => List.filter r l) (funext fun e => ?_)
    rw [Bool.eq_iff_iff, decide_eq_true_eq, Bool.and_eq_true, decide_eq_true_eq, decide_eq_true_eq]
    constructor
    · rintro ⟨howner, hoperation, hlate⟩
      exact ⟨⟨hoperation, hlate⟩, howner, by omega⟩
    · rintro ⟨⟨hoperation, hlate⟩, howner, -⟩
      exact ⟨howner, hoperation, hlate⟩
  rw [rateWindow, rateWindow, hwindow, hwindow, view_rateEvents_congr hview]

/-- A join finds the same credential of the client, or none of the client. -/
theorem joined_congr (id : Str) (role : Role) :
    (∃ x, db.joined id role = some x ∧ p.joined id role = some x ∧ x.1.clientId = A) ∨
      (∀ x, db.joined id role = some x → x.1.clientId ≠ A) ∧
        ∀ x, p.joined id role = some x → x.1.clientId ≠ A := by
  have hjoined : ∀ (q : Ledger) x, q.joined id role = some x →
      q.credentials.get? id = some x.1 ∧ x.1.role = role ∧
        q.clients.get? x.1.clientId = some x.2 := by
    intro q x hx
    unfold joined at hx
    cases hrow : q.credentials.get? id with
    | none =>
      rw [hrow] at hx
      cases hx
    | some c =>
      rw [hrow] at hx
      dsimp only at hx
      by_cases hrole : c.role = role
      · rw [if_pos hrole, Option.map_eq_some_iff] at hx
        obtain ⟨client, hclient, rfl⟩ := hx
        exact ⟨rfl, hrole, hclient⟩
      · rw [if_neg hrole] at hx
        cases hx
  -- a join that belongs to `A` is found in every ledger with the same view
  have hcopy : ∀ {q q' : Ledger} x, q.view A t = q'.view A t → q.joined id role = some x →
      x.1.clientId = A → q'.joined id role = some x := by
    intro q q' x hqq' hx howner
    obtain ⟨hrow, hrole, hclient⟩ := hjoined q x hx
    have hsame := credential_congr hqq' id
    rw [hrow, Option.filter_some, if_pos (decide_eq_true howner), eq_comm,
      Option.filter_eq_some_iff] at hsame
    rw [howner, client_congr hqq', ← howner] at hclient
    rw [joined, hsame.1]
    dsimp only
    rw [if_pos hrole, hclient]
    rfl
  by_cases hex : ∃ x, db.joined id role = some x ∧ x.1.clientId = A
  · obtain ⟨x, hx, howner⟩ := hex
    exact Or.inl ⟨x, hx, hcopy x hview hx howner, howner⟩
  · refine Or.inr ⟨fun x hx howner => hex ⟨x, hx, howner⟩, fun x hx howner => ?_⟩
    exact hex ⟨x, hcopy x hview.symm hx howner, howner⟩

/-- **Authority** over the client is in its view. -/
theorem accepted_congr (role : Role) (credentialId : Str) (now : ℤ) :
    db.Accepted role credentialId A now ↔ p.Accepted role credentialId A now := by
  rcases joined_congr hview credentialId role with ⟨x, hdb, hp, -⟩ | ⟨hdb, hp⟩
  · constructor
    · rintro ⟨credential, client, h⟩
      exact ⟨credential, client, hp.trans (hdb.symm.trans h.joined), h.active, h.owner, h.accepted⟩
    · rintro ⟨credential, client, h⟩
      exact ⟨credential, client, hdb.trans (hp.symm.trans h.joined), h.active, h.owner, h.accepted⟩
  · refine iff_of_false ?_ ?_
    · rintro ⟨credential, client, h⟩
      exact hdb _ h.joined h.owner
    · rintro ⟨credential, client, h⟩
      exact hp _ h.joined h.owner

theorem metering_congr (operation : Operation) (limit : ℤ) (hnow : t ≤ now) (x : Except Error α) :
    db.metering A operation limit now x = p.metering A operation limit now x := by
  rw [metering, metering, rateWindow_view_congr hview operation hnow]

end Lookups

/-! ### Shared tables -/

/-- A hash key has the check, if it is registered. -/
def Registrable (db : Ledger) (kid check : Str) : Prop :=
  ∀ row, db.hashKeys.get? kid = some row → row.keyCheck = check

/-- A registration that no recorded check contradicts. -/
theorem registering_eq {kid check : Str} (h : db.Registrable kid check)
    (hcheck : check.encodable = true) (x : Except Error α) :
    db.registering kid check x = binding [kid] x := by
  unfold registering binding
  by_cases hkid : [kid].all Str.encodable = true
  · rw [if_pos hkid, if_pos hkid]
    cases hrow : db.hashKeys.get? kid with
    | none => exact if_pos (by simpa [hcheck] using hkid)
    | some row => exact if_neg (not_not.mpr (h row hrow))
  · rw [if_neg hkid, if_neg hkid]

/-- An event id that is free. -/
def FreshEvent (db : Ledger) (event : Bytes) : Prop :=
  db.auditEvents.get? (lit "ae_" ++ hexlify event) = none

/-- What was recorded was recorded under a free id. -/
theorem freshEvent_of_auditing {x : Except Error α} {r : α} (h : db.auditing event x = .ok r) :
    db.FreshEvent event ∧ x = .ok r := by
  unfold auditing at h
  split_ifs at h with haudit
  exact ⟨by simpa [FreshEvent] using haudit, h⟩

/-- A digest and a tag that are free. -/
structure FreshProof (db : Ledger) (record : ProofRecord) : Prop where
  digest : ∀ r ∈ db.proofs, r.tokenDigest ≠ record.tokenDigest
  tag : ∀ r ∈ db.proofs, r.proofTag ≠ record.proofTag

theorem FreshProof.storing {record : ProofRecord} (h : db.FreshProof record)
    (x : Except Error α) : db.storing record x = x := by
  refine if_neg ?_
  rintro (htag | hdigest)
  · obtain ⟨r, hr, hsame⟩ := List.mem_map.mp htag
    exact h.tag r hr hsame
  · rw [Table.get?_eq_none.mpr h.digest] at hdigest
    cases hdigest

/-! ### Outcomes -/

section Relations

variable {S : Except Error α → Except Error α → Prop} (hrefl : ∀ x, S x x)
include hrefl

/-- What comes after a binding decides how two outcomes are related. -/
theorem binding_rel (params : List Str) {x y : Except Error α} (h : S x y) :
    S (binding params x) (binding params y) := by
  unfold binding
  split_ifs
  · exact h
  · exact hrefl _

/-- So does what comes after a slot. -/
theorem metering_rel (db : Ledger) (clientId : Str) (operation : Operation) (limit now : ℤ)
    {x y : Except Error α} (h : S x y) : S (db.metering clientId operation limit now x)
      (db.metering clientId operation limit now y) := by
  rcases db.metering_cases clientId operation limit now x y with hsame | ⟨hx, hy⟩
  · rw [hsame]
    exact hrefl _
  · rw [hx, hy]
    exact h

end Relations

section Outcomes

variable (hview : db.view A t = p.view A t)
include hview

/-- **An issuance** for the client ends the same way. -/
theorem issueOutcome_congr (hnow : t ≤ now) {record : ProofRecord} {check : Str}
    (howner : record.clientId = A) (hcheck : check.encodable = true)
    (hkey : db.Registrable record.hashKid check) (hkey' : p.Registrable record.hashKid check)
    (hproof : db.FreshProof record) (hproof' : p.FreshProof record) (hevent : db.FreshEvent event)
    (hevent' : p.FreshEvent event) :
    db.issueOutcome record check now event = p.issueOutcome record check now event := by
  rw [issueOutcome, issueOutcome, restoreRequired_congr hview, registering_eq hkey hcheck,
    registering_eq hkey' hcheck]
  congr 3
  -- a credential of another client is refused like one that does not exist
  have hrefused : ∀ (x : CredentialRow × ClientRow) (y : Except Error ProofRecord),
      x.1.clientId ≠ A →
      (if x.2.status ≠ .active then .error (.permissionError "credential_rejected")
        else if x.1.clientId ≠ record.clientId ∨ ¬ credentialIsAccepted x.1 now then
          .error (.permissionError "credential_rejected")
        else y) = .error (.permissionError "credential_rejected") := by
    intro x y hother
    rw [if_pos (show x.1.clientId ≠ record.clientId ∨ _ from Or.inl (howner ▸ hother)), ite_self]
  rcases joined_congr hview record.issueCredentialId .issuance with ⟨x, hdb, hp, -⟩ | ⟨hdb, hp⟩
  · obtain ⟨credential, client⟩ := x
    rw [hdb, hp]
    dsimp only
    rw [howner, metering_congr hview .issue _ hnow, hproof.storing, hproof'.storing,
      auditing_of_fresh hevent, auditing_of_fresh hevent']
  · cases hx : db.joined record.issueCredentialId .issuance with
    | none =>
      cases hy : p.joined record.issueCredentialId .issuance with
      | none => rfl
      | some y => exact (hrefused y _ (hp y hy)).symm
    | some x =>
      cases hy : p.joined record.issueCredentialId .issuance with
      | none => exact hrefused x _ (hdb x hx)
      | some y => exact (hrefused x _ (hdb x hx)).trans (hrefused y _ (hp y hy)).symm

/-- Two verifications for the client differ at most in the ids that they drew. -/
theorem consumeOutcome_rel {S : Except Error VerificationResult → Except Error VerificationResult →
      Prop} (hrefl : ∀ x, S x x) (hnow : t ≤ now) {a : ConsumeProof} (howner : a.clientId = A)
    (hdeciding : ∀ x, S (db.deciding draws x) (p.deciding draws x)) :
    S (db.consumeOutcome a now draws) (p.consumeOutcome a now draws) := by
  have hstored : db.storedFor a = p.storedFor a := by
    unfold storedFor storedDecision
    rw [howner]
    cases a.idempotencyKey with
    | none => rfl
    | some key =>
      dsimp only
      rw [idempotent_congr hview key]
  have hdecision : db.decisionOn a now draws = p.decisionOn a now draws := by
    rw [decisionOn, decisionOn, howner, proofOf_congr hview]
  -- a credential of another client is refused like one that does not exist
  have hrefused : ∀ (x : CredentialRow × ClientRow) (y : Except Error VerificationResult),
      x.1.clientId ≠ A →
      (if x.1.clientId ≠ a.clientId ∨ x.2.status ≠ .active ∨ ¬ credentialIsAccepted x.1 now then
        .ok (rejectedResult .credentialRejected draws.verificationId none none now)
      else y) = .ok (rejectedResult .credentialRejected draws.verificationId none none now) :=
    fun x y hother => if_pos (Or.inl (howner ▸ hother))
  rw [consumeOutcome, consumeOutcome, restoreRequired_congr hview, hstored, hdecision]
  split_ifs
  · exact hrefl _
  refine binding_rel hrefl _ ?_
  rcases joined_congr hview a.credentialId .verification with ⟨x, hdb, hp, -⟩ | ⟨hdb, hp⟩
  · obtain ⟨credential, client⟩ := x
    rw [hdb, hp]
    dsimp only
    split_ifs
    · exact hrefl _
    cases p.storedFor a with
    | error e => exact hrefl _
    | ok cached =>
      cases cached with
      | some cached => exact hrefl _
      | none =>
        dsimp only
        rw [howner, metering_congr hview .verify _ hnow]
        exact metering_rel hrefl _ _ _ _ _ (binding_rel hrefl _ (binding_rel hrefl _ (hdeciding _)))
  · cases hx : db.joined a.credentialId .verification with
    | none =>
      cases hy : p.joined a.credentialId .verification with
      | none => exact hrefl _
      | some y =>
        dsimp only
        rw [hrefused y _ (hp y hy)]
        exact hrefl _
    | some x =>
      dsimp only
      rw [hrefused x _ (hdb x hx)]
      cases hy : p.joined a.credentialId .verification with
      | none => exact hrefl _
      | some y =>
        dsimp only
        rw [hrefused y _ (hp y hy)]
        exact hrefl _

/-- **A verification** for the client ends the same way. -/
theorem consumeOutcome_congr (hnow : t ≤ now) {a : ConsumeProof} (howner : a.clientId = A)
    (hid : db.verifications.get? draws.verificationId = none)
    (hid' : p.verifications.get? draws.verificationId = none) (hevent : db.FreshEvent draws.event)
    (hevent' : p.FreshEvent draws.event) :
    db.consumeOutcome a now draws = p.consumeOutcome a now draws := by
  refine consumeOutcome_rel hview (S := Eq) (fun _ => rfl) hnow howner fun x => ?_
  rw [deciding_of_fresh hid hevent, deciding_of_fresh hid' hevent']

/-- A verification that succeeds does so wherever the ids that it drew are free as well. -/
theorem consumeOutcome_mono (hnow : t ≤ now) {a : ConsumeProof} (howner : a.clientId = A)
    (hid : db.verifications.get? draws.verificationId = none →
      p.verifications.get? draws.verificationId = none)
    (hevent : db.FreshEvent draws.event → p.FreshEvent draws.event) {result : VerificationResult}
    (h : db.consumeOutcome a now draws = .ok result) :
    p.consumeOutcome a now draws = .ok result := by
  refine consumeOutcome_rel hview (S := fun x y => ∀ r, x = .ok r → y = .ok r) (fun _ _ => id) hnow
    howner (fun x r hx => ?_) result h
  -- a decision that was made drew free ids
  unfold deciding at hx
  split_ifs at hx with hverification
  obtain ⟨hfree, hx⟩ := freshEvent_of_auditing hx
  rw [deciding_of_fresh (hid (by simpa using hverification)) (hevent hfree)]
  exact hx

/-- **A rotation** for the client ends the same way. -/
theorem rotateOutcome_congr {a : RotateCredential} (howner : a.clientId = A)
    (hreplacement : a.replacement.clientId = A) (hcheck : a.hashKeyCheck.encodable = true)
    (hkey : db.Registrable a.replacement.hashKid a.hashKeyCheck)
    (hkey' : p.Registrable a.replacement.hashKid a.hashKeyCheck)
    (hid : db.credentials.get? a.replacement.credentialId = none)
    (hid' : p.credentials.get? a.replacement.credentialId = none)
    (hevent : db.FreshEvent event) (hevent' : p.FreshEvent event) :
    db.rotateOutcome a event = p.rotateOutcome a event := by
  have hcurrent : ∀ {q q' : Ledger} (id : Str), q.view A t = q'.view A t →
      (∃ c ∈ q.credentials.rows, (c.clientId = A ∧ c.role = a.replacement.role ∧
        c.status = .current) ∧ c.credentialId ≠ id) →
      ∃ c ∈ q'.credentials.rows, (c.clientId = A ∧ c.role = a.replacement.role ∧
        c.status = .current) ∧ c.credentialId ≠ id := by
    rintro q q' id hqq' ⟨c, hc, hsame, hother⟩
    have hmem : c ∈ q.credentials.rows.filter fun c => c.clientId = A :=
      List.mem_filter.mpr ⟨hc, decide_eq_true hsame.1⟩
    rw [view_credentials_congr hqq'] at hmem
    exact ⟨c, (List.mem_filter.mp hmem).1, hsame, hother⟩
  have hreplacing : ∀ (id : Str) (x : Except Error (Str × ℤ)),
      db.replacing a.replacement id x = p.replacing a.replacement id x := by
    intro id x
    rw [replacing, replacing, hid, hid', hreplacement, client_congr hview]
    exact if_congr (or_congr Iff.rfl (or_congr
      ⟨hcurrent id hview, hcurrent id hview.symm⟩ Iff.rfl)) rfl rfl
  have haudit : ∀ x : Except Error (Str × ℤ), db.auditing event x = p.auditing event x := by
    intro x
    rw [auditing_of_fresh hevent, auditing_of_fresh hevent']
  unfold rotateOutcome
  rw [restoreRequired_congr hview, registering_eq hkey hcheck, registering_eq hkey' hcheck, howner,
    client_congr hview, currentCredential_congr hview]
  simp only [hreplacing, haudit]

/-- Two revocations of the client differ at most in the ids that they drew. -/
theorem revokeOutcome_rel {S : Except Error Bool → Except Error Bool → Prop} (hrefl : ∀ x, S x x)
    (haudit : ∀ x, S (db.auditing event x) (p.auditing event x)) :
    S (db.revokeOutcome A event) (p.revokeOutcome A event) := by
  rw [revokeOutcome, revokeOutcome, restoreRequired_congr hview, client_congr hview]
  split_ifs
  · exact hrefl _
  refine binding_rel hrefl _ ?_
  cases p.clients.get? A with
  | none => exact hrefl _
  | some client =>
    dsimp only
    split_ifs
    · exact hrefl _
    · exact haudit _

/-- **A revocation** of the client ends the same way. -/
theorem revokeOutcome_congr (hevent : db.FreshEvent event) (hevent' : p.FreshEvent event) :
    db.revokeOutcome A event = p.revokeOutcome A event := by
  refine revokeOutcome_rel hview (S := Eq) (fun _ => rfl) fun x => ?_
  rw [auditing_of_fresh hevent, auditing_of_fresh hevent']

/-- A revocation that succeeds does so wherever the id that it drew is free as well. -/
theorem revokeOutcome_mono (hevent : db.FreshEvent event → p.FreshEvent event) {reply : Bool}
    (h : db.revokeOutcome A event = .ok reply) : p.revokeOutcome A event = .ok reply := by
  refine revokeOutcome_rel hview (S := fun x y => ∀ r, x = .ok r → y = .ok r) (fun _ _ => id)
    (fun x r hx => ?_) reply h
  obtain ⟨hfree, hx⟩ := freshEvent_of_auditing hx
  rw [auditing_of_fresh (hevent hfree)]
  exact hx

/-- **A secret** of the client authenticates on both ledgers, or on none. -/
theorem authentication_congr {k : KeyRing} {secret : Json} {role : Role} {record : CredentialRecord}
    (howner : record.clientId = A) :
    db.authentication H k secret role now = .ok (some record) ↔
      p.authentication H k secret role now = .ok (some record) := by
  have hcopy : ∀ {q q' : Ledger}, q.view A t = q'.view A t →
      q.authentication H k secret role now = .ok (some record) →
        q'.authentication H k secret role now = .ok (some record) := by
    intro q q' hqq' h
    obtain ⟨text, id, row, key, hsecret, hid, hencodable, hrow, hrole, hkey, hdigest, haccepted,
      hrecord⟩ := authentication_eq_some.mp h
    have hrow' := credential_congr hqq' id
    have hrowner : row.clientId = A := by rw [← howner, hrecord, credentialFromRow]
    rw [hrow, Option.filter_some, if_pos (decide_eq_true hrowner), eq_comm,
      Option.filter_eq_some_iff] at hrow'
    exact authentication_eq_some.mpr ⟨text, id, row, key, hsecret, hid, hencodable, hrow'.1, hrole,
      hkey, hdigest, haccepted, hrecord⟩
  exact ⟨hcopy hview, hcopy hview.symm⟩

end Outcomes

end Ledger

end Onceproof

import Onceproof.Keys.Lookup
import Onceproof.Ledger.Isolation
import Onceproof.Ledger.Lineage
import Onceproof.Scenario

/-!
# Client isolation

Clients share the tables of a ledger and notice nothing of each other. From two ledgers with the
same view, requests for a client are answered the same way (`Ledger.answers_agree`). And the commits
of the other clients may be deleted from the history of an instance (`client_isolation`): what is
left is a history again, with the same replies and the same view.
-/

namespace Onceproof

variable {H : HashLib} {db p : Ledger} {A : Str} {t : ℤ}

/-! ### Answers -/

/-- **The same answers** about a client, at every reading from `t` on, whatever random ids are
drawn, as long as they are free. An issuance and a rotation register their hash key, so on both
ledgers no other check may be recorded for it (`Registrable`): the table of hash keys is shared by
all clients and no part of a view. An authentication accepts the same credential on both, or
none. -/
structure Ledger.AnswersAgree (H : HashLib) (A : Str) (t : ℤ) (db p : Ledger) : Prop where
  authentication : ∀ k secret role now record, record.clientId = A →
    (db.authentication H k secret role now = .ok (some record) ↔
      p.authentication H k secret role now = .ok (some record))
  issue : ∀ (record : ProofRecord) (check : Str) (now : ℤ) (event : Bytes), t ≤ now →
    record.clientId = A → check.encodable = true →
    (∀ q ∈ [db, p], q.Registrable record.hashKid check ∧ q.FreshProof record ∧ q.FreshEvent event) →
    (Store.issueProof record check now event).outcome db =
      (Store.issueProof record check now event).outcome p
  verify : ∀ (a : ConsumeProof) (now : ℤ) (draws : Draws), t ≤ now → a.clientId = A →
    (∀ q ∈ [db, p], q.verifications.get? draws.verificationId = none ∧ q.FreshEvent draws.event) →
    (Store.consumeProof a now draws).outcome db = (Store.consumeProof a now draws).outcome p
  rotate : ∀ (a : RotateCredential) (event : Bytes), a.clientId = A → a.replacement.clientId = A →
    a.hashKeyCheck.encodable = true →
    (∀ q ∈ [db, p], q.Registrable a.replacement.hashKid a.hashKeyCheck ∧
      q.credentials.get? a.replacement.credentialId = none ∧ q.FreshEvent event) →
    (Store.rotateCredential a event).outcome db = (Store.rotateCredential a event).outcome p
  revoke : ∀ (now : ℤ) (event : Bytes), (∀ q ∈ [db, p], q.FreshEvent event) →
    (Store.revokeClient A now event).outcome db = (Store.revokeClient A now event).outcome p

/-- **Two ledgers with the same view of a client** give it the same answers. A proof of another
client is answered like one that does not exist. -/
theorem Ledger.answers_agree (H : HashLib) (hview : db.view A t = p.view A t) :
    db.AnswersAgree H A t p where
  authentication k secret role now record howner := authentication_congr hview howner
  issue record check now event hnow howner hcheck hfree := by
    obtain ⟨hdb, hp, -⟩ := List.forall_mem_cons.mp hfree |>.imp_right List.forall_mem_cons.mp
    rw [Store.issueProof_outcome, Store.issueProof_outcome]
    exact issueOutcome_congr hview hnow howner hcheck hdb.1 hp.1 hdb.2.1 hp.2.1 hdb.2.2 hp.2.2
  verify a now draws hnow howner hfree := by
    obtain ⟨hdb, hp, -⟩ := List.forall_mem_cons.mp hfree |>.imp_right List.forall_mem_cons.mp
    rw [Store.consumeProof_outcome, Store.consumeProof_outcome]
    exact consumeOutcome_congr hview hnow howner hdb.1 hp.1 hdb.2 hp.2
  rotate a event howner hreplacement hcheck hfree := by
    obtain ⟨hdb, hp, -⟩ := List.forall_mem_cons.mp hfree |>.imp_right List.forall_mem_cons.mp
    rw [Store.rotateCredential_outcome, Store.rotateCredential_outcome]
    exact rotateOutcome_congr hview howner hreplacement hcheck hdb.1 hp.1 hdb.2.1 hp.2.1 hdb.2.2
      hp.2.2
  revoke now event hfree := by
    obtain ⟨hdb, hp, -⟩ := List.forall_mem_cons.mp hfree |>.imp_right List.forall_mem_cons.mp
    rw [Store.revokeClient_outcome, Store.revokeClient_outcome]
    exact revokeOutcome_congr hview hdb hp

/-! ### Histories -/

/-- What happens to the ledger of an instance, restored or not. -/
inductive LedgerEvent
  | commit (l : Commit)
  | backup

namespace LedgerEvent

def commit? : LedgerEvent → Option Commit
  | commit l => some l
  | backup => none

/-- An event that is not about another client. -/
def Concerns (e : LedgerEvent) (A : Str) : Prop := ∀ l ∈ e.commit?, l.call.Concerns A

instance (e : LedgerEvent) (A : Str) : Decidable (e.Concerns A) :=
  inferInstanceAs (Decidable (∀ l ∈ e.commit?, l.call.Concerns A))

/-- The same event, up to the counts of a cleanup. -/
inductive Alike : LedgerEvent → LedgerEvent → Prop
  | commit {l l' : Commit} (h : l.Alike l') : Alike (.commit l) (.commit l')
  | backup : Alike .backup .backup

/-- The reading that the event took under the write lock. -/
def lockReading? (e : LedgerEvent) : Option ℤ := e.commit?.bind Commit.lockReading?

end LedgerEvent

/-- The events of a ledger: a commit, or the seal on the copy that goes on. -/
inductive HistoryStep : Ledger → LedgerEvent → Ledger → Prop
  | commit {db db' : Ledger} {l : Commit} (h : LedgerStep db l db') :
      HistoryStep db (.commit l) db'
  | backup (db : Ledger) : HistoryStep db .backup (Store.backup db)

/-- The commits of a history. -/
def historyCommits (hs : List (Trans Ledger LedgerEvent)) : List (Trans Ledger Commit) :=
  projectTrans id (fun _ e _ => e.commit?) hs

/-- What the commits of the service guarantee, and the clock. -/
structure Orderly (hs : List (Trans Ledger LedgerEvent)) : Prop where
  wellFormed : ∀ u ∈ historyCommits hs, u.label.call.WellFormed
  checked : ∀ u ∈ historyCommits hs, u.label.call.Checked
  ordered : ReadingsOrdered (historyCommits hs)

variable {hs : List (Trans Ledger LedgerEvent)} {db' : Ledger} {e : LedgerEvent}

@[simp]
theorem historyCommits_append (hs hs' : List (Trans Ledger LedgerEvent)) :
    historyCommits (hs ++ hs') = historyCommits hs ++ historyCommits hs' :=
  projectTrans_append _ _ _ _

theorem historyCommits_commit {l : Commit} :
    historyCommits [⟨db, .commit l, db'⟩] = [⟨db, l, db'⟩] := rfl

theorem historyCommits_backup : historyCommits [⟨db, .backup, db'⟩] = [] := rfl

theorem Orderly.of_append {hs' : List (Trans Ledger LedgerEvent)} (h : Orderly (hs ++ hs')) :
    Orderly hs := by
  obtain ⟨hwf, hchecked, hordered⟩ := h
  rw [historyCommits_append] at hwf hchecked hordered
  exact ⟨fun u hu => hwf u (List.mem_append_left _ hu),
    fun u hu => hchecked u (List.mem_append_left _ hu), (List.pairwise_append.mp hordered).1⟩

/-- The readings from which on the readings of a history have passed. -/
def Late (hs : List (Trans Ledger LedgerEvent)) (t : ℤ) : Prop :=
  ∀ u ∈ historyCommits hs, ∀ x ∈ u.label.lockReading?, x ≤ t

theorem late_append {hs' : List (Trans Ledger LedgerEvent)} :
    Late (hs ++ hs') t ↔ Late hs t ∧ Late hs' t := by
  rw [Late, historyCommits_append]
  exact List.forall_mem_append

/-- There is always a later reading. -/
theorem exists_late (hs : List (Trans Ledger LedgerEvent)) : ∃ t, Late hs t := by
  unfold Late
  induction historyCommits hs with
  | nil => exact ⟨0, fun u hu => absurd hu List.not_mem_nil⟩
  | cons c cs ih =>
    obtain ⟨t, ht⟩ := ih
    refine ⟨max t ((c.label.lockReading?).getD t), fun u hu x hx => ?_⟩
    rcases List.mem_cons.mp hu with rfl | hu
    · rw [Option.mem_def.mp hx, Option.getD_some]
      exact le_max_right _ _
    · exact (ht u hu x hx).trans (le_max_left _ _)

/-- A commit comes after the commits before it. -/
theorem Orderly.late {l : Commit} (h : Orderly (hs ++ [⟨db, .commit l, db'⟩])) :
    ∀ x ∈ l.lockReading?, Late hs x := by
  intro x hx u hu y hy
  have hordered := h.ordered
  rw [historyCommits_append, historyCommits_commit] at hordered
  exact (List.pairwise_append.mp hordered).2.2 u hu _ List.mem_cons_self y hy x hx

/-! ### Purging -/

/-- The ledger of a history and that of its purge. -/
structure Purged (A : Str) (hs : List (Trans Ledger LedgerEvent)) (db p : Ledger) : Prop where
  rooted : db.Rooted
  owned : p.Owned A
  shares : db.Shares A (Late hs) p

theorem purged_empty (A : Str) : Purged A [] .empty .empty :=
  ⟨Ledger.rooted_empty, Ledger.owned_empty A, ⟨fun _ _ => rfl, .refl _⟩⟩

/-- A backup changes the seal of a view, and nothing else. -/
theorem Ledger.view_backup (db : Ledger) :
    (Store.backup db).view A t = { db.view A t with restoreRequired := true } := by
  refine ClientView.ext ?_ ?_ ?_ ?_ ?_ ?_ (Store.restoreRequired_backup db)
  · rw [view, Store.backup_clients, view]
  · rw [view, Store.backup_credentials, view]
  · rw [view, Store.backup_proofs, view]
  · rw [view, Store.backup_verifications, view]
  · rw [view, Store.backup_auditEvents, view]
  · rw [view, Store.backup_rateEvents, view]

theorem Ledger.Rooted.backup (h : db.Rooted) : (Store.backup db).Rooted := by
  intro r hr
  rw [Store.backup_proofs] at hr
  rw [Store.backup_credentials]
  exact h r hr

theorem Ledger.Owned.backup (h : p.Owned A) : (Store.backup p).Owned A :=
  ⟨Store.backup_clients p ▸ h.clients, Store.backup_credentials p ▸ h.credentials,
    Store.backup_proofs p ▸ h.proofs, Store.backup_verifications p ▸ h.verifications,
    Store.backup_auditEvents p ▸ h.auditEvents⟩

theorem Ledger.Within.backup (h : p.Within db) : (Store.backup p).Within (Store.backup db) := by
  constructor
  · rw [Store.backup_clients, Store.backup_clients]
    exact h.clients
  · rw [Store.backup_credentials, Store.backup_credentials]
    exact h.credentials
  · rw [Store.backup_proofs, Store.backup_proofs]
    exact h.proofs
  · rw [Store.backup_verifications, Store.backup_verifications]
    exact h.verifications
  · rw [Store.backup_auditEvents, Store.backup_auditEvents]
    exact h.auditEvents
  · rw [Store.backup_hashKeys, Store.backup_hashKeys]
    exact h.hashKeys

/-- An event about another client. -/
theorem Purged.hidden (h : Purged A hs db p) (horderly : Orderly (hs ++ [⟨db, e, db'⟩]))
    (hs' : HistoryStep db e db') (hother : ¬ e.Concerns A) :
    Purged A (hs ++ [⟨db, e, db'⟩]) db' p := by
  cases hs' with
  | backup => exact absurd (fun l hl => by cases hl) hother
  | @commit _ l hstep =>
    have hwf := horderly.wellFormed ⟨db, l, db'⟩ (by simp [historyCommits_commit])
    have hcall : ¬ l.call.Concerns A := fun hcall => hother fun l' hl' => by
      obtain rfl := Option.some.inj hl'
      exact hcall
    have hview : ∀ t, Late (hs ++ [⟨db, .commit l, db'⟩]) t → db'.view A t = p.view A t := by
      intro t ht
      obtain ⟨hlate, hnow⟩ := late_append.mp ht
      rw [hstep.view_other hwf hcall fun x hx => hnow _ List.mem_cons_self x hx,
        h.shares.view t hlate]
    obtain ⟨T, hT⟩ := exists_late (hs ++ [⟨db, .commit l, db'⟩])
    refine ⟨h.rooted.step hstep, h.owned, hview, h.owned.within (hview T hT) fun r hr => ?_⟩
    exact hstep.hashKeys_subset r (h.shares.within.hashKeys r hr)

/-- An event that concerns the client. -/
theorem Purged.visible (h : Purged A hs db p) (horderly : Orderly (hs ++ [⟨db, e, db'⟩]))
    (hs' : HistoryStep db e db') (hvisible : e.Concerns A) :
    ∃ e' p', HistoryStep p e' p' ∧ e.Alike e' ∧ Purged A (hs ++ [⟨db, e, db'⟩]) db' p' := by
  cases hs' with
  | backup =>
    refine ⟨.backup, Store.backup p, .backup p, .backup, h.rooted.backup, h.owned.backup,
      fun t ht => ?_, h.shares.within.backup⟩
    rw [Ledger.view_backup, Ledger.view_backup, h.shares.view t (late_append.mp ht).1]
  | @commit _ l hstep =>
    have hwf := horderly.wellFormed ⟨db, l, db'⟩ (by simp [historyCommits_commit])
    have hchecked := horderly.checked ⟨db, l, db'⟩ (by simp [historyCommits_commit])
    have hcall : l.call.Concerns A := hvisible l rfl
    obtain ⟨T, hT⟩ := exists_late hs
    obtain ⟨l', p', hstep', halike, hshares⟩ := hstep.replay hwf hchecked hcall h.rooted h.shares
      horderly.late hT
    have howned : p'.Owned A := by
      cases halike with
      | same => exact h.owned.step hstep' hwf hcall
      | cleanup => exact h.owned.step hstep' hwf hcall
    refine ⟨.commit l', p', .commit hstep', .commit halike, h.rooted.step hstep, howned, ?_,
      hshares.within⟩
    exact fun t ht => hshares.view t (late_append.mp ht).1

/-- **Purging a history**: without the commits of the other clients, it is a history again. -/
theorem exists_purge (h : Run HistoryStep .empty hs db) (horderly : Orderly hs) (A : Str) :
    ∃ hs' p, Run HistoryStep .empty hs' p ∧
      List.Forall₂ LedgerEvent.Alike ((hs.map Trans.label).filter fun e => e.Concerns A)
        (hs'.map Trans.label) ∧ Purged A hs db p :=
  h.purge (R := Purged A) Orderly.of_append
    (fun horderly hR hs' hother => hR.hidden horderly hs' hother)
    (fun horderly hR hs' hvisible => hR.visible horderly hs' hvisible) horderly (purged_empty A)

/-! ### The histories of instances -/

variable {runs : List (List SystemTrans)} {s : SystemState} {w : World} {τ : List SystemTrans}

/-- The checks that the service registers can be stored. -/
theorem commit_checked (h : SystemRunFrom H w τ s) {u : Trans Ledger Commit}
    (hu : u ∈ commits τ) : u.label.call.Checked := by
  obtain ⟨v, hv, tid, p, r, i, hl, -⟩ := mem_commits.mp hu
  obtain ⟨τ₁, τ₂, rfl⟩ := List.append_of_mem hv
  have hallowed := (Machine.act_spec (M := system H) (Φ := Rules H) (Ψ := fun _ => ReturnsBackup)
    program_allowed h hl).2
  generalize u.label.call = call at hallowed ⊢
  cases call with
  | createClient a =>
    obtain ⟨-, -, -, m, -, hcheck⟩ := hallowed
    exact encodable_of_keyCheck hcheck
  | issueProof record check =>
    obtain ⟨-, -, m, -, bytes, -, hcheck, -⟩ := hallowed
    exact encodable_of_keyCheck hcheck
  | rotateCredential a =>
    obtain ⟨-, -, m, -, hcheck⟩ := hallowed
    exact encodable_of_keyCheck hcheck
  | _ => trivial

theorem lineageCommits_checked (h : Lineage H runs s) :
    ∀ u ∈ lineageCommits runs, u.label.call.Checked := by
  intro u hu
  obtain ⟨τ, hτ, hu⟩ := List.mem_flatMap.mp hu
  obtain ⟨w, s', hrun, -⟩ := h.run_of_mem hτ
  exact commit_checked hrun hu

/-- **The history of an instance**, restored or not. -/
theorem Lineage.exists_history (h : Lineage H runs s)
    (hordered : ReadingsOrdered (lineageCommits runs)) :
    ∃ hs, Run HistoryStep .empty hs s.world.ledger ∧ historyCommits hs = lineageCommits runs ∧
      Orderly hs := by
  have hhistory : ∃ hs, Run HistoryStep .empty hs s.world.ledger ∧
      historyCommits hs = lineageCommits runs ∧
        ∀ u ∈ lineageCommits runs, u.label.call.WellFormed := by
    refine h.history (P := fun cs db => ∃ hs, Run HistoryStep .empty hs db ∧
      historyCommits hs = cs ∧ ∀ u ∈ cs, u.label.call.WellFormed) ?_ ?_ ?_
    · exact ⟨[], .nil _, rfl, fun u hu => absurd hu List.not_mem_nil⟩
    · rintro cs db ⟨hs, hrun, rfl, hwf⟩
      refine ⟨hs ++ [⟨db, .backup, Store.backup db⟩], hrun.snoc (.backup db), ?_, hwf⟩
      rw [historyCommits_append, historyCommits_backup, List.append_nil]
    · rintro cs db l db' ⟨hs, hrun, rfl, hwf⟩ hstep hproper
      refine ⟨hs ++ [⟨db, .commit l, db'⟩], hrun.snoc (.commit hstep), ?_, fun u hu => ?_⟩
      · rw [historyCommits_append, historyCommits_commit]
      · rcases List.mem_append.mp hu with hu | hu
        · exact hwf u hu
        · rw [List.mem_singleton.mp hu]
          exact hproper.wellFormed
  obtain ⟨hs, hrun, hcommits, hwf⟩ := hhistory
  refine ⟨hs, hrun, hcommits, hcommits ▸ hwf, ?_, hcommits ▸ hordered⟩
  rw [hcommits]
  exact lineageCommits_checked h

/-! ### The guarantee -/

/-- **Client isolation.** The history of an instance, restored or not, is still one after the
commits about other clients were deleted from it. The commits that are left reply the same, except
for what a cleanup counts, and the client has the same view of the ledger. -/
theorem client_isolation (h : Lineage H runs s) (hordered : ReadingsOrdered (lineageCommits runs))
    (A : Str) : ∃ hs hs' p, Run HistoryStep .empty hs s.world.ledger ∧
      historyCommits hs = lineageCommits runs ∧ Run HistoryStep .empty hs' p ∧
      List.Forall₂ LedgerEvent.Alike ((hs.map Trans.label).filter fun e => e.Concerns A)
        (hs'.map Trans.label) ∧ p.Owned A ∧
      ∀ t, (∀ u ∈ lineageCommits runs, ∀ x ∈ u.label.lockReading?, x ≤ t) →
        s.world.ledger.view A t = p.view A t := by
  obtain ⟨hs, hrun, hcommits, horderly⟩ := h.exists_history hordered
  obtain ⟨hs', p, hpurge, halike, hpurged⟩ := exists_purge hrun horderly A
  refine ⟨hs, hs', p, hrun, hcommits, hpurge, halike, hpurged.owned, fun t ht => ?_⟩
  exact hpurged.shares.view t fun u hu => ht u (hcommits ▸ hu)

/-! ### Two clients -/

/-- Two clients are created, and the first one issues a proof. -/
def Scenario.shared : List SystemMove :=
  served ++ thread 0 2 16 (.api (.createClient clientRequest)) 1001 40 ++
    thread 0 3 10 (.api (.issueProof (issueRequest 25))) 1002 60

theorem Scenario.exists_shared : ∃ τ s, SystemRun plainHash τ s ∧ ReadingsOrdered (commits τ) ∧
    (∀ u ∈ commits τ, ∀ x ∈ u.label.lockReading?, x ≤ 1002) ∧
      s.world.ledger.clients.rows.length = 2 ∧
        (s.world.ledger.clients.rows.filter fun c => c.clientId = clientId 24).length = 1 :=
  exists_systemRun Scenario.shared (fun τ s => ReadingsOrdered (commits τ) ∧
    (∀ u ∈ commits τ, ∀ x ∈ u.label.lockReading?, x ≤ 1002) ∧
      s.world.ledger.clients.rows.length = 2 ∧
        (s.world.ledger.clients.rows.filter fun c => c.clientId = clientId 24).length = 1)
    (by decide +kernel)

/-- The ledger of one client has the clients of its view. -/
theorem Ledger.Owned.clients_eq (h : p.Owned A) (hview : db.view A t = p.view A t) :
    p.clients.rows = db.clients.rows.filter fun c => c.clientId = A := by
  rw [view_clients_congr hview]
  exact (List.filter_eq_self.mpr fun c hc => decide_eq_true (h.clients c hc)).symm

/-- The first of two clients has the view that it would have alone. -/
theorem client_isolation_shared : ∃ τ s hs' p, SystemRun plainHash τ s ∧
    s.world.ledger.clients.rows.length = 2 ∧ Run HistoryStep .empty hs' p ∧
      p.clients.rows.length = 1 ∧
        s.world.ledger.view (Scenario.clientId 24) 1002 = p.view (Scenario.clientId 24) 1002 := by
  obtain ⟨τ, s, hrun, hordered, hlate, hclients, hown⟩ := Scenario.exists_shared
  have hcommits : lineageCommits [τ] = commits τ := List.append_nil _
  obtain ⟨hs, hs', p, -, -, hpurge, -, howned, hview⟩ :=
    client_isolation (.created hrun) (hcommits ▸ hordered) (Scenario.clientId 24)
  have hsame := hview 1002 (hcommits ▸ hlate)
  refine ⟨τ, s, hs', p, hrun, hclients, hpurge, ?_, hsame⟩
  rw [howned.clients_eq hsame, hown]

/-- A client gets the same answers with another one and alone. -/
theorem Ledger.answers_agree_shared : ∃ db p : Ledger, db.clients.rows.length = 2 ∧
    p.clients.rows.length = 1 ∧ db.AnswersAgree plainHash (Scenario.clientId 24) 1002 p := by
  obtain ⟨τ, s, hrun, hordered, hlate, hclients, hown⟩ := Scenario.exists_shared
  have hcommits : lineageCommits [τ] = commits τ := List.append_nil _
  obtain ⟨hs, hhistory, hsame, horderly⟩ := Lineage.exists_history (.created hrun)
    (hcommits ▸ hordered)
  obtain ⟨hs', p, -, -, hpurged⟩ := exists_purge hhistory horderly (Scenario.clientId 24)
  have hview := hpurged.shares.view 1002 fun u hu => hlate u (hcommits ▸ hsame ▸ hu)
  refine ⟨s.world.ledger, p, hclients, ?_, answers_agree plainHash hview⟩
  rw [hpurged.owned.clients_eq hview, hown]

end Onceproof

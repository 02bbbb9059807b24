import Onceproof.Ledger.Coherence
import Onceproof.Scenario

/-!
# Ledger coherence

In every ledger of an instance, restored or not, the proofs, the stored decisions and the audit
events fit together, whatever the times at which cleanups ran. Two conditions are needed beside
the order of the readings. A tag must not be issued twice: the ledger refuses it only while the
first row is there, and a decision outlives its proof (`coherence_counterexample_tag`). And the
clock must not be negative: a stored time below zero is not read back
(`coherence_counterexample_reading`).
-/

namespace Onceproof

variable {H : HashLib} {runs : List (List SystemTrans)} {s : SystemState}

/-- **Ledger coherence.** -/
theorem ledger_coherence (h : Lineage H runs s)
    (hordered : ReadingsOrdered (lineageCommits runs))
    (hreadings : NonnegativeReadings (lineageCommits runs))
    (htags : DistinctTags (lineageCommits runs)) : s.world.ledger.Coherent :=
  (h.witnessed hordered hreadings htags).coherent

namespace Scenario

/-- A proof is issued and accepted, forgotten by a cleanup in the future, and another one is
issued. -/
def forgotten : List SystemMove :=
  served ++ thread 0 2 10 (.api (.issueProof (issueRequest 25))) 1001 40 ++
    thread 0 3 6 (.api (.verifyProof (verifyRequest 28 (proof 47) (lit "login") none))) 1002 60 ++
    thread 0 4 1 (.api (.cleanup (.int 4662))) 1003 80

/-- The same choices, but for the bytes drawn inside transactions. -/
def redrawn : SystemMove → SystemMove
  | .act tid i => .act tid { i with draws := ⟨i.bytes ++ [2], i.bytes ++ [3]⟩ }
  | m => m

/-- The stored decision accepts. -/
def accepts (v : VerificationRow) : Bool :=
  match resultFromJson (.ok v.resultJson) with
  | .ok result => result.verified
  | .error _ => false

/-- A stored decision accepts a proof that is not consumed. -/
def incoherent (db : Ledger) : Bool :=
  db.proofs.rows.any fun r => r.consumedAt = none ∧
    db.verifications.rows.any fun v => v.proofTag = some r.proofTag ∧ accepts v

/-- A consumed proof has no stored decision that is read back. -/
def unwitnessed (db : Ledger) : Bool :=
  db.proofs.rows.any fun r => r.consumedAt ≠ none ∧
    db.verifications.rows.all fun v => !accepts v

end Scenario

/-- Another proof is issued at the time of the cleanup, while the decision about the first one
is still stored. -/
theorem ledger_coherence_served : ∃ τ s, SystemRun plainHash τ s ∧
    s.world.ledger.proofs.rows.length = 2 ∧ s.world.ledger.Coherent := by
  obtain ⟨τ, s, hrun, ⟨hordered, hreadings, htags⟩, hrows⟩ := exists_systemRun
    (Scenario.served ++
      Scenario.thread 0 2 10 (.api (.issueProof (Scenario.issueRequest 25))) 1001 40 ++
      Scenario.thread 0 3 6 (.api (.verifyProof (Scenario.verifyRequest 28 (Scenario.proof 47)
        (lit "login") none))) 1002 60 ++
      Scenario.thread 0 4 1 (.api (.cleanup (.int 4661))) 1003 80 ++
      Scenario.thread 0 5 10 (.api (.issueProof (Scenario.issueRequest 25))) 1004 100)
    (fun τ s => (ReadingsOrdered (commits τ) ∧ NonnegativeReadings (commits τ) ∧
      DistinctTags (commits τ)) ∧ s.world.ledger.proofs.rows.length = 2)
    (by decide +kernel)
  have hcommits : lineageCommits [τ] = commits τ := by simp [lineageCommits]
  exact ⟨τ, s, hrun, hrows, ledger_coherence (.created hrun) (hcommits ▸ hordered)
    (hcommits ▸ hreadings) (hcommits ▸ htags)⟩

/-- A tag may be drawn again after its row is forgotten: then a decision that accepted the
first proof seems to be one about the second. -/
private theorem coherence_counterexample_tag : ∃ τ s, SystemRun plainHash τ s ∧
    ReadingsOrdered (commits τ) ∧ NonnegativeReadings (commits τ) ∧
      ¬ s.world.ledger.Coherent := by
  obtain ⟨τ, s, hrun, hordered, hreadings, hbad⟩ := exists_systemRun
    (Scenario.forgotten ++ (Scenario.thread 0 5 10
      (.api (.issueProof (Scenario.issueRequest 25))) 1004 40).map Scenario.redrawn)
    (fun τ s => ReadingsOrdered (commits τ) ∧ NonnegativeReadings (commits τ) ∧
      Scenario.incoherent s.world.ledger = true)
    (by decide +kernel)
  refine ⟨τ, s, hrun, hordered, hreadings, fun hcoherent => ?_⟩
  obtain ⟨r, hr, hrow⟩ := List.any_eq_true.mp hbad
  obtain ⟨hlive, hdecision⟩ := of_decide_eq_true hrow
  obtain ⟨v, hv, hvrow⟩ := List.any_eq_true.mp hdecision
  obtain ⟨htag, haccepts⟩ := of_decide_eq_true hvrow
  unfold Scenario.accepts at haccepts
  split at haccepts
  · next result hread =>
    rw [hcoherent.live r hr hlive v hv htag result hread] at haccepts
    cases haccepts
  · cases haccepts

/-- Before 1970 a decision is stored that cannot be read back. -/
private theorem coherence_counterexample_reading : ∃ τ s, SystemRun plainHash τ s ∧
    ReadingsOrdered (commits τ) ∧ DistinctTags (commits τ) ∧ ¬ s.world.ledger.Coherent := by
  obtain ⟨τ, s, hrun, hordered, htags, hbad⟩ := exists_systemRun
    (Scenario.servedAt (-1000) ++
      Scenario.thread 0 2 10 (.api (.issueProof (Scenario.issueRequest 25))) (-999) 40 ++
      Scenario.thread 0 3 6 (.api (.verifyProof (Scenario.verifyRequest 28 (Scenario.proof 47)
        (lit "login") none))) (-998) 60)
    (fun τ s => ReadingsOrdered (commits τ) ∧ DistinctTags (commits τ) ∧
      Scenario.unwitnessed s.world.ledger = true)
    (by decide +kernel)
  refine ⟨τ, s, hrun, hordered, htags, fun hcoherent => ?_⟩
  obtain ⟨r, hr, hrow⟩ := List.any_eq_true.mp hbad
  obtain ⟨hconsumed, hdecisions⟩ := of_decide_eq_true hrow
  obtain ⟨t, ht⟩ := Option.ne_none_iff_exists'.mp hconsumed
  obtain ⟨v, hv, -, -, -, hread⟩ := hcoherent.consumed r hr t ht
  have hrefused := List.all_eq_true.mp hdecisions v hv
  rw [Scenario.accepts, hread] at hrefused
  cases hrefused

/-- Without one of the two conditions the tables may not fit together. -/
theorem coherence_counterexample :
    (∃ τ s, SystemRun plainHash τ s ∧ ReadingsOrdered (commits τ) ∧
      NonnegativeReadings (commits τ) ∧ ¬ s.world.ledger.Coherent) ∧
    ∃ τ s, SystemRun plainHash τ s ∧ ReadingsOrdered (commits τ) ∧ DistinctTags (commits τ) ∧
      ¬ s.world.ledger.Coherent :=
  ⟨coherence_counterexample_tag, coherence_counterexample_reading⟩

end Onceproof

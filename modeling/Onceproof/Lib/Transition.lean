import Mathlib.Data.List.Forall2
import Mathlib.Data.List.Induction
import Mathlib.Tactic.Common

/-!
# Labelled transition systems and their runs

A system is given by a step relation `σ → ℓ → σ → Prop`. A run is recorded as the list of
its transitions, each with the state before and after it, so that a property of a whole run
is a property of a list: what happened earlier is membership in a prefix, and the state in
which a decision was taken is the source of a transition.

* `Run.invariant` and `Run.history` are the two induction rules: a property of states kept
  by every step, and a property of the transitions so far together with the state reached.
* `Run.of_append` and `Run.of_mem` cut a run at a transition.
* `Run.project` maps a run of one system to a run of another, dropping the steps that the
  second system does not see.
* `Run.purge` drops the hidden steps of a run, and repeats the others from a related state.
-/

namespace Onceproof

universe u v w x

/-- One transition of a run: the state before, the label and the state after. -/
structure Trans (σ : Type u) (ℓ : Type v) where
  src : σ
  label : ℓ
  dst : σ

section Runs

variable {σ : Type u} {ℓ : Type v} {step : σ → ℓ → σ → Prop}

/-- `Run step s τ s'`: the transitions `τ`, in order, lead from `s` to `s'`. -/
inductive Run (step : σ → ℓ → σ → Prop) : σ → List (Trans σ ℓ) → σ → Prop
  | nil (s : σ) : Run step s [] s
  | snoc {s s' s'' : σ} {τ : List (Trans σ ℓ)} {l : ℓ} :
      Run step s τ s' → step s' l s'' → Run step s (τ ++ [⟨s', l, s''⟩]) s''

namespace Run

/-- A single step is a run. -/
theorem single {s s' : σ} {l : ℓ} (h : step s l s') : Run step s [⟨s, l, s'⟩] s' :=
  (Run.nil s).snoc h

/-- The empty run goes nowhere. -/
theorem eq_of_nil {s s' : σ} (h : Run step s [] s') : s = s' := by
  generalize hτ : ([] : List (Trans σ ℓ)) = τ at h
  cases h with
  | nil => rfl
  | snoc => simp at hτ

/-- Runs compose. -/
theorem append {s s' s'' : σ} {τ τ' : List (Trans σ ℓ)} (h : Run step s τ s')
    (h' : Run step s' τ' s'') : Run step s (τ ++ τ') s'' := by
  induction h' with
  | nil => simpa using h
  | snoc _ hs ih =>
    rw [← List.append_assoc]
    exact ih.snoc hs

/-- A run ending in a given transition ends in its target. -/
theorem of_snoc {s s' : σ} {τ : List (Trans σ ℓ)} {t : Trans σ ℓ}
    (h : Run step s (τ ++ [t]) s') :
    Run step s τ t.src ∧ step t.src t.label t.dst ∧ s' = t.dst := by
  generalize hτ : τ ++ [t] = τ' at h
  cases h with
  | nil => simp at hτ
  | snoc hr hs =>
    obtain ⟨rfl, ht⟩ := List.append_inj' hτ rfl
    obtain rfl : t = _ := by simpa using ht
    exact ⟨hr, hs, rfl⟩

/-- A run over a concatenation splits at the seam. -/
theorem of_append {s s'' : σ} {τ τ' : List (Trans σ ℓ)} (h : Run step s (τ ++ τ') s'') :
    ∃ s', Run step s τ s' ∧ Run step s' τ' s'' := by
  induction τ' using List.reverseRecOn generalizing s'' with
  | nil => exact ⟨s'', by simpa using h, .nil _⟩
  | append_singleton τ' t ih =>
    rw [← List.append_assoc] at h
    obtain ⟨hr, hs, rfl⟩ := h.of_snoc
    obtain ⟨s', h₁, h₂⟩ := ih hr
    exact ⟨s', h₁, h₂.snoc hs⟩

/-- A run that starts with a given transition starts in its source. -/
theorem of_cons {s s' : σ} {τ : List (Trans σ ℓ)} {t : Trans σ ℓ}
    (h : Run step s (t :: τ) s') :
    s = t.src ∧ step t.src t.label t.dst ∧ Run step t.dst τ s' := by
  obtain ⟨m, h₁, h₂⟩ := Run.of_append (τ := [t]) h
  obtain ⟨h₀, hs, rfl⟩ := Run.of_snoc (τ := []) h₁
  exact ⟨h₀.eq_of_nil, hs, h₂⟩

/-- **Cutting at a transition**: the run before it, the step itself and the run after. -/
theorem of_cut {s s' : σ} {τ₁ τ₂ : List (Trans σ ℓ)} {t : Trans σ ℓ}
    (h : Run step s (τ₁ ++ t :: τ₂) s') :
    Run step s τ₁ t.src ∧ step t.src t.label t.dst ∧ Run step t.dst τ₂ s' := by
  obtain ⟨m, h₁, h₂⟩ := h.of_append
  obtain ⟨rfl, hs, h₃⟩ := h₂.of_cons
  exact ⟨h₁, hs, h₃⟩

/-- Every transition of a run is a step of the system. -/
theorem step_of_mem {s s' : σ} {τ : List (Trans σ ℓ)} (h : Run step s τ s')
    {t : Trans σ ℓ} (ht : t ∈ τ) : step t.src t.label t.dst := by
  obtain ⟨τ₁, τ₂, rfl⟩ := List.append_of_mem ht
  exact h.of_cut.2.1

/-- **Invariant rule**: a property that every step keeps holds at the end of a run. -/
theorem invariant {I : σ → Prop} (hstep : ∀ {s l s'}, I s → step s l s' → I s')
    {s s' : σ} {τ : List (Trans σ ℓ)} (h : Run step s τ s') (h0 : I s) : I s' := by
  induction h with
  | nil => exact h0
  | snoc _ hs ih => exact hstep ih hs

/-- **History rule**: the step case may use the run made so far, and what is kept may
speak of the transitions already taken. -/
theorem history {s : σ} {P : List (Trans σ ℓ) → σ → Prop} (h0 : P [] s)
    (hstep : ∀ {τ s' l s''}, Run step s τ s' → P τ s' → step s' l s'' →
      P (τ ++ [⟨s', l, s''⟩]) s'')
    {s' : σ} {τ : List (Trans σ ℓ)} (h : Run step s τ s') : P τ s' := by
  induction h with
  | nil => exact h0
  | snoc hr hs ih => exact hstep hr ih hs

/-- A property kept by every transition of a particular run. -/
theorem kept {I : σ → Prop} {s s' : σ} {τ : List (Trans σ ℓ)} (h : Run step s τ s')
    (hkeep : ∀ t ∈ τ, I t.src → step t.src t.label t.dst → I t.dst) (h0 : I s) : I s' := by
  induction h with
  | nil => exact h0
  | snoc _ hs ih =>
    refine hkeep _ (List.mem_append_right _ (List.mem_singleton_self _)) (ih fun t ht => ?_) hs
    exact hkeep t (List.mem_append_left _ ht)

end Run

end Runs

/-! ### Projecting runs -/

section Projection

variable {σ : Type u} {ℓ : Type v} {σ' : Type w} {ℓ' : Type x}
variable {step : σ → ℓ → σ → Prop} {step' : σ' → ℓ' → σ' → Prop}

/-- The transitions of a run that a projection sees. -/
def projectTrans (f : σ → σ') (g : σ → ℓ → σ → Option ℓ') (τ : List (Trans σ ℓ)) :
    List (Trans σ' ℓ') :=
  τ.filterMap fun t => (g t.src t.label t.dst).map fun l => ⟨f t.src, l, f t.dst⟩

@[simp]
theorem projectTrans_append (f : σ → σ') (g : σ → ℓ → σ → Option ℓ')
    (τ τ' : List (Trans σ ℓ)) :
    projectTrans f g (τ ++ τ') = projectTrans f g τ ++ projectTrans f g τ' := by
  simp [projectTrans]

/-- **Projection**: if every step of the first system is a step of the second or is not
seen by it, then its runs project to runs. -/
theorem Run.project {f : σ → σ'} {g : σ → ℓ → σ → Option ℓ'}
    (hstep : ∀ {s l s'}, step s l s' →
      (∃ l', g s l s' = some l' ∧ step' (f s) l' (f s')) ∨ (g s l s' = none ∧ f s = f s'))
    {s s' : σ} {τ : List (Trans σ ℓ)} (h : Run step s τ s') :
    Run step' (f s) (projectTrans f g τ) (f s') := by
  induction h with
  | nil => exact .nil _
  | @snoc s' s'' τ l _ hs ih =>
    rw [projectTrans_append]
    rcases hstep hs with ⟨l', hg, hs'⟩ | ⟨hg, hf⟩
    · simpa [projectTrans, hg] using ih.snoc hs'
    · simpa [projectTrans, hg, hf] using ih

/-- A projected transition comes from one of the run. -/
theorem mem_projectTrans {f : σ → σ'} {g : σ → ℓ → σ → Option ℓ'} {τ : List (Trans σ ℓ)}
    {t' : Trans σ' ℓ'} :
    t' ∈ projectTrans f g τ ↔ ∃ t ∈ τ, ∃ l', g t.src t.label t.dst = some l' ∧
      t' = ⟨f t.src, l', f t.dst⟩ := by
  simp only [projectTrans, List.mem_filterMap, Option.map_eq_some_iff]
  constructor
  · rintro ⟨t, ht, l', hl, rfl⟩
    exact ⟨t, ht, l', hl, rfl⟩
  · rintro ⟨t, ht, l', hl, rfl⟩
    exact ⟨t, ht, l', hl, rfl⟩

end Projection

/-! ### Purging runs -/

section Purging

variable {σ : Type u} {ℓ : Type v} {step : σ → ℓ → σ → Prop}
variable {good : List (Trans σ ℓ) → Prop} {visible : ℓ → Prop} [DecidablePred visible]
variable {alike : ℓ → ℓ → Prop} {R : List (Trans σ ℓ) → σ → σ → Prop}

/-- **Purging**: if the hidden steps of a run keep it related to another state, and the visible
ones can be repeated there, then the visible steps alone are a run from a related state. -/
theorem Run.purge (hgood : ∀ {τ t}, good (τ ++ [t]) → good τ)
    (hhidden : ∀ {τ s l s' p}, good (τ ++ [⟨s, l, s'⟩]) → R τ s p → step s l s' → ¬ visible l →
      R (τ ++ [⟨s, l, s'⟩]) s' p)
    (hvisible : ∀ {τ s l s' p}, good (τ ++ [⟨s, l, s'⟩]) → R τ s p → step s l s' → visible l →
      ∃ l' p', step p l' p' ∧ alike l l' ∧ R (τ ++ [⟨s, l, s'⟩]) s' p')
    {s p s' : σ} {τ : List (Trans σ ℓ)} (h : Run step s τ s') (hτ : good τ) (h0 : R [] s p) :
    ∃ τ' p', Run step p τ' p' ∧ List.Forall₂ alike ((τ.map Trans.label).filter (visible ·))
      (τ'.map Trans.label) ∧ R τ s' p' := by
  induction h with
  | nil => exact ⟨[], p, .nil p, .nil, h0⟩
  | @snoc s' s'' τ l _ hs ih =>
    obtain ⟨τ', p', hrun, halike, hR⟩ := ih (hgood hτ)
    rw [List.map_append, List.filter_append, List.map_singleton, List.filter_singleton]
    by_cases hl : visible l
    · obtain ⟨l', p'', hs', hll', hR'⟩ := hvisible hτ hR hs hl
      refine ⟨τ' ++ [⟨p', l', p''⟩], p'', hrun.snoc hs', ?_, hR'⟩
      rw [decide_eq_true hl, List.map_append]
      exact List.rel_append halike (.cons hll' .nil)
    · refine ⟨τ', p', hrun, ?_, hhidden hτ hR hs hl⟩
      rw [decide_eq_false hl, cond_false, List.append_nil]
      exact halike

end Purging

/-! ### Positions in a run -/

section Positions

variable {α β : Type u}

/-- **Two cuts of one list** are the same cut, or one lies before the other. -/
theorem cut_cases {l₁ l₂ m₁ m₂ : List α} {a b : α} (h : l₁ ++ a :: l₂ = m₁ ++ b :: m₂) :
    (l₁ = m₁ ∧ a = b ∧ l₂ = m₂) ∨ (∃ k, m₁ = l₁ ++ a :: k ∧ l₂ = k ++ b :: m₂) ∨
      ∃ k, l₁ = m₁ ++ b :: k ∧ m₂ = k ++ a :: l₂ := by
  rcases List.append_eq_append_iff.mp h with ⟨k, hm, hl⟩ | ⟨k, hl, hm⟩
  · cases k with
    | nil =>
      obtain ⟨rfl, rfl⟩ := List.cons.inj hl
      exact Or.inl ⟨by simpa using hm.symm, rfl, rfl⟩
    | cons x k =>
      obtain ⟨rfl, hrest⟩ := List.cons.inj hl
      exact Or.inr (Or.inl ⟨k, hm, hrest⟩)
  · cases k with
    | nil =>
      obtain ⟨rfl, rfl⟩ := List.cons.inj hm
      exact Or.inl ⟨by simpa using hl, rfl, rfl⟩
    | cons x k =>
      obtain ⟨rfl, hrest⟩ := List.cons.inj hm
      exact Or.inr (Or.inr ⟨k, hl, hrest⟩)

/-- In a list whose images are distinct, equal images come from one element. -/
theorem eq_of_nodup_filterMap {f : α → Option β} {l : List α}
    (h : (l.filterMap f).Nodup) {a a' : α} (ha : a ∈ l) (ha' : a' ∈ l) {b : β}
    (hb : f a = some b) (hb' : f a' = some b) : a = a' := by
  induction l with
  | nil => cases ha
  | cons x l ih =>
    rw [List.filterMap_cons] at h
    have hmem : ∀ {y}, y ∈ l → f y = some b → b ∈ l.filterMap f :=
      fun hy hfy => List.mem_filterMap.mpr ⟨_, hy, hfy⟩
    rcases List.mem_cons.mp ha with hax | hal <;> rcases List.mem_cons.mp ha' with hax' | hal'
    · rw [hax, hax']
    · rw [← hax, hb] at h
      exact absurd (hmem hal' hb') (List.nodup_cons.mp h).1
    · rw [← hax', hb'] at h
      exact absurd (hmem hal hb) (List.nodup_cons.mp h).1
    · cases hx : f x with
      | none =>
        rw [hx] at h
        exact ih h hal hal'
      | some y =>
        rw [hx] at h
        exact ih (List.nodup_cons.mp h).2 hal hal'

end Positions

end Onceproof

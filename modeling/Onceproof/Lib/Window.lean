import Mathlib.Algebra.Order.Group.Int
import Mathlib.Data.List.Basic
import Mathlib.Tactic.Linarith

/-!
# Sliding windows over timed events

A limiter of width `w` keeps a list of timed events, drops those that a sweep at a time `x`
finds at or before `x - w`, and admits an event at `now` while fewer than `n` events after
`now - w` are kept.

* `retained` is what the sweeps at the times `R` leave of a list of events.
* `window_append_le` is the induction step of every sliding-window bound: the check at the
  current instant bounds the windows at all times.
* `le_length_recent_iff` says how long a full window stays full: until its oldest event leaves it.
-/

namespace Onceproof

section Windows

variable {α : Type} (time : α → ℤ) (w : ℤ)

/-- The events in the half-open window `(t - w, t]`. -/
def window (t : ℤ) (l : List α) : List α := l.filter fun e => t - w < time e ∧ time e ≤ t

/-- The events after the cutoff of `now`. -/
def recent (now : ℤ) (l : List α) : List α := l.filter fun e => now - w < time e

/-- What sweeps at the times `R` leave. -/
def retained (R : List ℤ) (l : List α) : List α :=
  l.filter fun e => R.all fun x => x - w < time e

variable {time w}

@[simp] theorem retained_nil (l : List α) : retained time w [] l = l := by simp [retained]

/-- One more sweep. -/
theorem recent_retained (R : List ℤ) (x : ℤ) (l : List α) :
    recent time w x (retained time w R l) = retained time w (R ++ [x]) l := by
  simp only [recent, retained, List.filter_filter, List.all_append, List.all_cons,
    List.all_nil, Bool.and_true]
  congr 1
  funext e
  rw [Bool.and_comm]

/-- An event that is not earlier than any sweep is kept. -/
theorem retained_append_singleton (hw : 0 < w) {R : List ℤ} {e : α}
    (hR : ∀ x ∈ R, x ≤ time e) (l : List α) :
    retained time w R (l ++ [e]) = retained time w R l ++ [e] := by
  have hkeep : (R.all fun x => decide (x - w < time e)) = true := by
    rw [List.all_eq_true]
    intro x hx
    have := hR x hx
    exact decide_eq_true (by omega)
  simp [retained, hkeep]

/-- Earlier sweeps drop nothing that a window at `now` counts. -/
theorem recent_retained_eq {R : List ℤ} {now : ℤ} (hR : ∀ x ∈ R, x ≤ now) (l : List α) :
    recent time w now (retained time w R l) = recent time w now l := by
  simp only [recent, retained, List.filter_filter]
  refine List.filter_congr fun e _ => ?_
  by_cases h : now - w < time e
  · have hkeep : (R.all fun x => decide (x - w < time e)) = true := by
      rw [List.all_eq_true]
      intro x hx
      have := hR x hx
      exact decide_eq_true (by omega)
    simp [h, hkeep]
  · simp [h]

/-- A window that has begun by `now` and reaches up to it counts only recent events. -/
theorem length_window_le_recent {now t : ℤ} (h : now ≤ t) (l : List α) :
    (window time w t l).length ≤ (recent time w now l).length := by
  rw [window, recent, ← List.countP_eq_length_filter, ← List.countP_eq_length_filter]
  refine List.countP_mono_left fun e _ he => ?_
  simp only [decide_eq_true_eq] at he ⊢
  omega

/-- **The sliding-window bound**: if fewer than `n` events are recent when `e` is admitted,
and no window of the earlier events held more than `n`, then no window holds more now. -/
theorem window_append_le {n : ℤ} {l : List α} {e : α}
    (hcheck : ((recent time w (time e) l).length : ℤ) < n)
    (hall : ∀ t, ((window time w t l).length : ℤ) ≤ n) (t : ℤ) :
    ((window time w t (l ++ [e])).length : ℤ) ≤ n := by
  have hsplit : window time w t (l ++ [e]) = window time w t l ++ window time w t [e] := by
    simp [window]
  rw [hsplit, List.length_append]
  by_cases he : t - w < time e ∧ time e ≤ t
  · have hle : (window time w t l).length ≤ (recent time w (time e) l).length :=
      length_window_le_recent he.2 l
    have hone : (window time w t [e]).length = 1 := by simp [window, he]
    omega
  · have hzero : (window time w t [e]).length = 0 := by
      rw [window, List.filter_cons_of_neg (by simpa using he)]
      rfl
    have := hall t
    omega

/-- A later cutoff leaves fewer events. -/
theorem recent_recent {now t : ℤ} (h : now ≤ t) (l : List α) :
    recent time w t (recent time w now l) = recent time w t l := by
  simp only [recent, List.filter_filter]
  refine List.filter_congr fun e _ => ?_
  by_cases he : t - w < time e
  · have hnow : now - w < time e := by omega
    simp [he, hnow]
  · simp [he]

/-- **A full window stays full** until its oldest event leaves it. -/
theorem le_length_recent_iff {n : ℤ} {l : List α} {now t : ℤ} (hnow : now ≤ t)
    (hfull : n ≤ (recent time w now l).length) (hall : ((recent time w now l).length : ℤ) ≤ n)
    {oldest : α} (hmem : oldest ∈ recent time w now l)
    (hfirst : ∀ e ∈ recent time w now l, time oldest ≤ time e) :
    n ≤ (recent time w t l).length ↔ t < time oldest + w := by
  rw [← recent_recent hnow]
  constructor
  · intro hle
    by_contra hlate
    have hgone : oldest ∉ recent time w t (recent time w now l) := by
      intro he
      have := (List.mem_filter.mp he).2
      simp only [decide_eq_true_eq] at this
      omega
    have hlt : (recent time w t (recent time w now l)).length < (recent time w now l).length := by
      refine lt_of_le_of_ne (List.length_filter_le ..) fun heq => hgone ?_
      rw [recent, List.filter_eq_self.mpr (List.length_filter_eq_length_iff.mp heq)]
      exact hmem
    omega
  · intro hlt
    have hkeep : recent time w t (recent time w now l) = recent time w now l := by
      refine List.filter_eq_self.mpr fun e he => ?_
      have := hfirst e he
      exact decide_eq_true (by omega)
    rw [hkeep]
    exact hfull

end Windows

end Onceproof

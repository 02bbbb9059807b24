import Onceproof.Lib.Regex

/-!
# Patterns with anchors and lookahead

A `Pattern` adds to regular expressions what looks at the text around a match: `^`, `$` and
`(?!...)`. It matches a part of a text in its context, which is the text before and the text
after the part. `search` and `fullmatch` are those of the standard library: the first looks for a
part that matches, the second matches the whole text.

An anchored pattern is a full match whichever way it is used (`search_anchored`,
`fullmatch_anchored`).
-/

namespace Onceproof

/-- Regular expressions with anchors and negative lookahead. -/
inductive Pattern
  | plain (r : Regex)
  /-- `^`. -/
  | start
  /-- `$`: the end of the text, or the line break that ends it. -/
  | stop
  /-- `(?!p)`. -/
  | notAhead (p : Pattern)
  | seq (p q : Pattern)

namespace Pattern

/-- The ways to cut a text in two. -/
def splits (s : Str) : List (Str × Str) :=
  (List.range (s.length + 1)).map fun n => (s.take n, s.drop n)

/-- The pattern matches `mid` between `pre` and `post`. -/
def matchesIn : Pattern → Str → Str → Str → Bool
  | plain r, _, mid, _ => r.fullmatch mid
  | start, pre, mid, _ => pre.isEmpty && mid.isEmpty
  | stop, _, mid, post => mid.isEmpty && (post.isEmpty || post == lit "\n")
  | notAhead p, pre, mid, post =>
    mid.isEmpty && !(splits post).any fun x => p.matchesIn pre x.1 x.2
  | seq p q, pre, mid, post =>
    (splits mid).any fun x => p.matchesIn pre x.1 (x.2 ++ post) && q.matchesIn (pre ++ x.1) x.2 post

/-- `re.search`. -/
def search (p : Pattern) (s : Str) : Bool :=
  (splits s).any fun x => (splits x.2).any fun y => p.matchesIn x.1 y.1 y.2

/-- `re.fullmatch`. -/
def fullmatch (p : Pattern) (s : Str) : Bool := p.matchesIn [] s []

/-- `[\s\S]`. -/
def any : Regex := .cls fun c => Regex.space c || !Regex.space c

/-- `^r(?![\s\S])`. -/
def anchored (r : Regex) : Pattern := seq start (seq (plain r) (notAhead (plain any)))

/-- `^r$`. -/
def lineAnchored (r : Regex) : Pattern := seq start (seq (plain r) stop)

variable {p q : Pattern} {r : Regex} {s pre mid post : Str}

theorem mem_splits {x : Str × Str} : x ∈ splits s ↔ x.1 ++ x.2 = s := by
  obtain ⟨a, b⟩ := x
  simp only [splits, List.mem_map, List.mem_range, Prod.mk.injEq]
  constructor
  · rintro ⟨n, -, rfl, rfl⟩
    exact List.take_append_drop n s
  · rintro rfl
    have hle : a.length < (a ++ b).length + 1 := by
      rw [List.length_append]
      omega
    exact ⟨a.length, hle, by simp, by simp⟩

@[simp] theorem matchesIn_plain : (plain r).matchesIn pre mid post = r.fullmatch mid := rfl

@[simp] theorem matchesIn_start :
    start.matchesIn pre mid post = true ↔ pre = [] ∧ mid = [] := by
  have hstart : start.matchesIn pre mid post = (pre.isEmpty && mid.isEmpty) := rfl
  rw [hstart, Bool.and_eq_true, List.isEmpty_iff, List.isEmpty_iff]

@[simp] theorem matchesIn_stop :
    stop.matchesIn pre mid post = true ↔ mid = [] ∧ (post = [] ∨ post = lit "\n") := by
  have hstop : stop.matchesIn pre mid post =
      (mid.isEmpty && (post.isEmpty || post == lit "\n")) := rfl
  rw [hstop, Bool.and_eq_true, Bool.or_eq_true, List.isEmpty_iff, List.isEmpty_iff, beq_iff_eq]

theorem matchesIn_notAhead : (notAhead p).matchesIn pre mid post = true ↔
    mid = [] ∧ ∀ a b, a ++ b = post → p.matchesIn pre a b = false := by
  have hahead : (notAhead p).matchesIn pre mid post =
      (mid.isEmpty && !(splits post).any fun x => p.matchesIn pre x.1 x.2) := rfl
  rw [hahead]
  simp [mem_splits]

theorem matchesIn_seq : (seq p q).matchesIn pre mid post = true ↔
    ∃ a b, a ++ b = mid ∧ p.matchesIn pre a (b ++ post) = true ∧
      q.matchesIn (pre ++ a) b post = true := by
  have hseq : (seq p q).matchesIn pre mid post = (splits mid).any fun x =>
      p.matchesIn pre x.1 (x.2 ++ post) && q.matchesIn (pre ++ x.1) x.2 post := rfl
  rw [hseq]
  simp [mem_splits]

theorem search_iff : p.search s = true ↔
    ∃ pre mid post, pre ++ (mid ++ post) = s ∧ p.matchesIn pre mid post = true := by
  simp only [search, List.any_eq_true, mem_splits]
  constructor
  · rintro ⟨x, hx, y, hy, hmatch⟩
    exact ⟨x.1, y.1, y.2, by rw [hy, hx], hmatch⟩
  · rintro ⟨pre, mid, post, hs, hmatch⟩
    exact ⟨(pre, mid ++ post), hs, (mid, post), rfl, hmatch⟩

/-- `[\s\S]` matches every character. -/
theorem fullmatch_any {c : CodePoint} : any.fullmatch [c] = true := by
  rw [Regex.fullmatch_iff]
  exact ⟨c, by simp, rfl⟩

/-- Nothing is ahead at the end of the text only. -/
theorem matchesIn_notAhead_any :
    (notAhead (plain any)).matchesIn pre mid post = true ↔ mid = [] ∧ post = [] := by
  rw [matchesIn_notAhead]
  refine and_congr_right fun _ => ⟨fun hnone => ?_, ?_⟩
  · cases post with
    | nil => rfl
    | cons c post =>
      have hfirst := hnone [c] post rfl
      rw [matchesIn_plain, fullmatch_any] at hfirst
      cases hfirst
  · rintro rfl a b hab
    obtain ⟨rfl, rfl⟩ := List.append_eq_nil_iff.mp hab
    rfl

/-- A part that begins with `^` begins the text. -/
theorem matchesIn_start_seq : (seq start p).matchesIn pre mid post = true ↔
    pre = [] ∧ p.matchesIn [] mid post = true := by
  rw [matchesIn_seq]
  constructor
  · rintro ⟨a, b, rfl, ha, hb⟩
    obtain ⟨rfl, rfl⟩ := matchesIn_start.mp ha
    exact ⟨rfl, hb⟩
  · rintro ⟨rfl, hp⟩
    exact ⟨[], mid, rfl, by simp, hp⟩

/-- **A search for an anchored pattern** is a full match. -/
theorem search_anchored : (anchored r).search s = r.fullmatch s := by
  rw [Bool.eq_iff_iff, search_iff]
  constructor
  · rintro ⟨pre, mid, post, rfl, hmatch⟩
    obtain ⟨rfl, hrest⟩ := matchesIn_start_seq.mp hmatch
    obtain ⟨a, b, rfl, ha, hb⟩ := matchesIn_seq.mp hrest
    obtain ⟨rfl, rfl⟩ := matchesIn_notAhead_any.mp hb
    simpa using ha
  · intro hs
    refine ⟨[], s, [], by simp, matchesIn_start_seq.mpr ⟨rfl, matchesIn_seq.mpr ?_⟩⟩
    exact ⟨s, [], by simp, hs, matchesIn_notAhead_any.mpr ⟨rfl, rfl⟩⟩

/-- **A full match of an anchored pattern** is one of the pattern between the anchors. -/
theorem fullmatch_lineAnchored : (lineAnchored r).fullmatch s = r.fullmatch s := by
  rw [Bool.eq_iff_iff, fullmatch]
  constructor
  · intro hmatch
    obtain ⟨-, hrest⟩ := matchesIn_start_seq.mp hmatch
    obtain ⟨a, b, rfl, ha, hb⟩ := matchesIn_seq.mp hrest
    obtain ⟨rfl, -⟩ := matchesIn_stop.mp hb
    simpa using ha
  · intro hs
    refine matchesIn_start_seq.mpr ⟨rfl, matchesIn_seq.mpr ⟨s, [], by simp, hs, ?_⟩⟩
    exact matchesIn_stop.mpr ⟨rfl, Or.inl rfl⟩

end Pattern

end Onceproof

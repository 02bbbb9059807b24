import Onceproof.Lib.Text
import Mathlib.Computability.Language

/-!
# Regular expressions over code points

`Regex` has character classes as predicates. `fullmatch` consumes the text by derivatives,
so a pattern is matched against a whole text by evaluation. `fullmatch_iff` says that it
decides the language that the expression denotes, and `mem_text_seq`, `mem_plus_cls`,
`mem_upTo_cls` and `mem_exactly_cls` describe the languages of the derived forms.
-/

namespace Onceproof

/-- Regular expressions. -/
inductive Regex
  | empty
  | eps
  | cls (p : CodePoint → Bool)
  | seq (r s : Regex)
  | alt (r s : Regex)
  | star (r : Regex)

namespace Regex

/-- The expression matches the empty text. -/
def nullable : Regex → Bool
  | empty => false
  | eps => true
  | cls _ => false
  | seq r s => r.nullable && s.nullable
  | alt r s => r.nullable || s.nullable
  | star _ => true

/-- What remains to be matched after a code point. -/
def deriv (c : CodePoint) : Regex → Regex
  | empty => empty
  | eps => empty
  | cls p => if p c then eps else empty
  | seq r s =>
    if r.nullable then alt (seq (r.deriv c) s) (s.deriv c) else seq (r.deriv c) s
  | alt r s => alt (r.deriv c) (s.deriv c)
  | star r => seq (r.deriv c) (star r)

/-- `re.fullmatch`. -/
def fullmatch (r : Regex) (s : Str) : Bool := (s.foldl (fun r c => r.deriv c) r).nullable

/-- A literal text. -/
def text (s : String) : Regex := (lit s).foldr (fun c r => seq (cls (· = c)) r) eps

/-- `r+`. -/
def plus (r : Regex) : Regex := seq r (star r)

/-- `r?`. -/
def opt (r : Regex) : Regex := alt r eps

/-- `r{0,n}`. -/
def upTo (r : Regex) : ℕ → Regex
  | 0 => eps
  | n + 1 => opt (seq r (r.upTo n))

/-- `r{n}`. -/
def exactly (r : Regex) : ℕ → Regex
  | 0 => eps
  | n + 1 => seq r (r.exactly n)

/-- A class written as its ranges. -/
def ranges (l : List (ℕ × ℕ)) (c : CodePoint) : Bool :=
  l.any fun r => r.1 ≤ c.val && c.val ≤ r.2

/-- `[A-Za-z0-9]`. -/
def alnum : CodePoint → Bool := ranges [(48, 57), (65, 90), (97, 122)]

/-- `[0-9a-f]`. -/
def hex : CodePoint → Bool := ranges [(48, 57), (97, 102)]

/-- `\s` in a pattern on texts. -/
def space : CodePoint → Bool :=
  ranges [(0x09, 0x0D), (0x1C, 0x20), (0x85, 0x85), (0xA0, 0xA0), (0x1680, 0x1680),
    (0x2000, 0x200A), (0x2028, 0x2029), (0x202F, 0x202F), (0x205F, 0x205F), (0x3000, 0x3000)]

/-! ### The language of an expression -/

/-- The texts that an expression denotes. -/
def language : Regex → Language CodePoint
  | empty => 0
  | eps => 1
  | cls p => ({s | ∃ c, p c = true ∧ s = [c]} : Set Str)
  | seq r s => r.language * s.language
  | alt r s => r.language + s.language
  | star r => KStar.kstar r.language

theorem mem_cls {p : CodePoint → Bool} {s : Str} :
    s ∈ (cls p).language ↔ ∃ c, p c = true ∧ s = [c] := Iff.rfl

theorem mem_seq {r r' : Regex} {s : Str} :
    s ∈ (seq r r').language ↔ ∃ a ∈ r.language, ∃ b ∈ r'.language, a ++ b = s :=
  Language.mem_mul

theorem mem_alt {r r' : Regex} {s : Str} :
    s ∈ (alt r r').language ↔ s ∈ r.language ∨ s ∈ r'.language :=
  Language.mem_add _ _ _

theorem mem_eps {s : Str} : s ∈ eps.language ↔ s = [] := Language.mem_one s

/-- A text that begins with a code point of a sequence: the first part is empty, or begins
with it. -/
private theorem cons_mem_mul {l m : Language CodePoint} {c : CodePoint} {s : Str} :
    c :: s ∈ l * m ↔
      (∃ a b, s = a ++ b ∧ c :: a ∈ l ∧ b ∈ m) ∨ ([] ∈ l ∧ c :: s ∈ m) := by
  rw [Language.mem_mul]
  constructor
  · rintro ⟨a, ha, b, hb, hab⟩
    cases a with
    | nil => exact Or.inr ⟨ha, hab ▸ hb⟩
    | cons d a =>
      obtain ⟨rfl, rfl⟩ := List.cons.inj hab
      exact Or.inl ⟨a, b, rfl, ha, hb⟩
  · rintro (⟨a, b, rfl, ha, hb⟩ | ⟨hnil, hs⟩)
    · exact ⟨c :: a, ha, b, hb, rfl⟩
    · exact ⟨[], hnil, c :: s, hs, rfl⟩

/-- A nonempty repetition begins with a nonempty round. -/
private theorem cons_mem_kstar {l : Language CodePoint} {c : CodePoint} {s : Str} :
    c :: s ∈ KStar.kstar l ↔ ∃ a b, s = a ++ b ∧ c :: a ∈ l ∧ b ∈ KStar.kstar l := by
  constructor
  · rw [Language.mem_kstar_iff_exists_nonempty]
    rintro ⟨rounds, hs, hrounds⟩
    cases rounds with
    | nil => simp at hs
    | cons round rounds =>
      obtain ⟨hround, hne⟩ := hrounds round List.mem_cons_self
      cases round with
      | nil => exact absurd rfl hne
      | cons d a =>
        rw [List.flatten_cons, List.cons_append] at hs
        obtain ⟨rfl, rfl⟩ := List.cons.inj hs
        exact ⟨a, rounds.flatten, rfl, hround,
          Language.join_mem_kstar fun y hy => (hrounds y (List.mem_cons_of_mem _ hy)).1⟩
  · rintro ⟨a, b, rfl, ha, hb⟩
    obtain ⟨rounds, rfl, hrounds⟩ := Language.mem_kstar.mp hb
    refine Language.mem_kstar.mpr ⟨(c :: a) :: rounds, by simp, fun y hy => ?_⟩
    rcases List.mem_cons.mp hy with rfl | hy
    · exact ha
    · exact hrounds y hy

theorem nullable_iff (r : Regex) : r.nullable = true ↔ [] ∈ r.language := by
  induction r with
  | empty => simp [nullable, language]
  | eps => simp [nullable, language]
  | cls p => simp [nullable, mem_cls]
  | seq r s ihr ihs =>
    rw [nullable, Bool.and_eq_true, ihr, ihs, mem_seq]
    constructor
    · rintro ⟨hr, hs⟩
      exact ⟨[], hr, [], hs, rfl⟩
    · rintro ⟨a, ha, b, hb, hab⟩
      obtain ⟨rfl, rfl⟩ := List.append_eq_nil_iff.mp hab
      exact ⟨ha, hb⟩
  | alt r s ihr ihs => rw [nullable, Bool.or_eq_true, ihr, ihs, mem_alt]
  | star r ih => simpa [nullable, language] using Language.nil_mem_kstar r.language

/-- The derivative denotes what may follow the code point. -/
theorem mem_deriv (r : Regex) (c : CodePoint) (s : Str) :
    s ∈ (r.deriv c).language ↔ c :: s ∈ r.language := by
  induction r generalizing s with
  | empty => simp [deriv, language]
  | eps => simp [deriv, language]
  | cls p =>
    rw [mem_cls, deriv]
    split_ifs with hp
    · rw [mem_eps]
      exact ⟨fun hs => ⟨c, hp, by rw [hs]⟩, fun ⟨d, _, hd⟩ => (List.cons.inj hd).2⟩
    · refine ⟨fun hs => absurd hs (Language.notMem_zero s), fun ⟨d, hd, hc⟩ => ?_⟩
      exact absurd ((List.cons.inj hc).1 ▸ hd) hp
  | seq r r' ihr ihr' =>
    -- the character is taken from the first factor
    have hfirst : s ∈ (seq (r.deriv c) r').language ↔
        ∃ a b, s = a ++ b ∧ c :: a ∈ r.language ∧ b ∈ r'.language := by
      rw [mem_seq]
      constructor
      · rintro ⟨a, ha, b, hb, rfl⟩
        exact ⟨a, b, rfl, (ihr a).mp ha, hb⟩
      · rintro ⟨a, b, rfl, ha, hb⟩
        exact ⟨a, (ihr a).mpr ha, b, hb, rfl⟩
    rw [language, cons_mem_mul, ← nullable_iff, deriv]
    split_ifs with hnull
    · rw [mem_alt, hfirst, ihr']
      simp [hnull]
    · rw [hfirst]
      simp [hnull]
  | alt r r' ihr ihr' => rw [deriv, mem_alt, mem_alt, ihr, ihr']
  | star r ih =>
    rw [deriv, mem_seq, language, cons_mem_kstar]
    constructor
    · rintro ⟨a, ha, b, hb, rfl⟩
      exact ⟨a, b, rfl, (ih a).mp ha, hb⟩
    · rintro ⟨a, b, rfl, ha, hb⟩
      exact ⟨a, (ih a).mpr ha, b, hb, rfl⟩

/-- **`fullmatch` decides the language.** -/
theorem fullmatch_iff (r : Regex) (s : Str) : r.fullmatch s = true ↔ s ∈ r.language := by
  induction s generalizing r with
  | nil => exact nullable_iff r
  | cons c s ih =>
    have hstep : r.fullmatch (c :: s) = (r.deriv c).fullmatch s := rfl
    rw [hstep, ih, mem_deriv]

/-- A literal text denotes itself. -/
theorem mem_text {t : String} {s : Str} : s ∈ (text t).language ↔ s = lit t := by
  unfold text
  induction lit t generalizing s with
  | nil => exact mem_eps
  | cons c l ih =>
    rw [List.foldr_cons, mem_seq]
    constructor
    · rintro ⟨a, ⟨d, hd, rfl⟩, b, hb, rfl⟩
      rw [ih.mp hb, of_decide_eq_true hd]
      rfl
    · rintro rfl
      exact ⟨[c], ⟨c, by simp, rfl⟩, l, ih.mpr rfl, rfl⟩

/-- A literal text in front. -/
theorem mem_text_seq {t : String} {r : Regex} {s : Str} :
    s ∈ (seq (text t) r).language ↔ ∃ b ∈ r.language, s = lit t ++ b := by
  rw [mem_seq]
  constructor
  · rintro ⟨a, ha, b, hb, rfl⟩
    exact ⟨b, hb, by rw [mem_text.mp ha]⟩
  · rintro ⟨b, hb, rfl⟩
    exact ⟨lit t, mem_text.mpr rfl, b, hb, rfl⟩

/-- A class in front. -/
theorem mem_cls_seq {p : CodePoint → Bool} {r : Regex} {s : Str} :
    s ∈ (seq (cls p) r).language ↔ ∃ c b, p c = true ∧ b ∈ r.language ∧ s = c :: b := by
  rw [mem_seq]
  constructor
  · rintro ⟨a, ⟨c, hc, rfl⟩, b, hb, rfl⟩
    exact ⟨c, b, hc, hb, rfl⟩
  · rintro ⟨c, b, hc, hb, rfl⟩
    exact ⟨[c], ⟨c, hc, rfl⟩, b, hb, rfl⟩

/-- The repetition of a class. -/
theorem mem_star_cls {p : CodePoint → Bool} {s : Str} :
    s ∈ (star (cls p)).language ↔ ∀ c ∈ s, p c = true := by
  induction s with
  | nil => exact ⟨fun _ => by simp, fun _ => Language.nil_mem_kstar (cls p).language⟩
  | cons c s ih =>
    rw [List.forall_mem_cons, ← ih, language, cons_mem_kstar]
    constructor
    · rintro ⟨a, b, rfl, ⟨d, hd, hda⟩, hb⟩
      obtain ⟨rfl, rfl⟩ := List.cons.inj hda
      exact ⟨hd, hb⟩
    · rintro ⟨hc, hs⟩
      exact ⟨[], s, rfl, ⟨c, hc, rfl⟩, hs⟩

/-- One or more characters of a class. -/
theorem mem_plus_cls {p : CodePoint → Bool} {s : Str} :
    s ∈ (plus (cls p)).language ↔ s ≠ [] ∧ ∀ c ∈ s, p c = true := by
  rw [plus, mem_cls_seq]
  constructor
  · rintro ⟨c, b, hc, hb, rfl⟩
    exact ⟨List.cons_ne_nil c b, List.forall_mem_cons.mpr ⟨hc, mem_star_cls.mp hb⟩⟩
  · rintro ⟨hne, hall⟩
    cases s with
    | nil => exact absurd rfl hne
    | cons c b =>
      obtain ⟨hc, hb⟩ := List.forall_mem_cons.mp hall
      exact ⟨c, b, hc, mem_star_cls.mpr hb, rfl⟩

theorem mem_opt {r : Regex} {s : Str} : s ∈ (opt r).language ↔ s ∈ r.language ∨ s = [] := by
  rw [opt, mem_alt, mem_eps]

/-- At most `n` characters of a class. -/
theorem mem_upTo_cls {p : CodePoint → Bool} {n : ℕ} {s : Str} :
    s ∈ ((cls p).upTo n).language ↔ s.length ≤ n ∧ ∀ c ∈ s, p c = true := by
  induction n generalizing s with
  | zero =>
    rw [upTo, mem_eps]
    constructor
    · rintro rfl
      simp
    · exact fun h => List.eq_nil_of_length_eq_zero (Nat.le_zero.mp h.1)
  | succ n ih =>
    rw [upTo, mem_opt, mem_cls_seq]
    constructor
    · rintro (⟨c, b, hc, hb, rfl⟩ | rfl)
      · obtain ⟨hlen, hall⟩ := ih.mp hb
        exact ⟨by simpa using hlen, List.forall_mem_cons.mpr ⟨hc, hall⟩⟩
      · simp
    · rintro ⟨hlen, hall⟩
      cases s with
      | nil => exact Or.inr rfl
      | cons c b =>
        obtain ⟨hc, hb⟩ := List.forall_mem_cons.mp hall
        exact Or.inl ⟨c, b, hc, ih.mpr ⟨by simpa using hlen, hb⟩, rfl⟩

/-- Exactly `n` characters of a class. -/
theorem mem_exactly_cls {p : CodePoint → Bool} {n : ℕ} {s : Str} :
    s ∈ ((cls p).exactly n).language ↔ s.length = n ∧ ∀ c ∈ s, p c = true := by
  induction n generalizing s with
  | zero =>
    rw [exactly, mem_eps]
    constructor
    · rintro rfl
      simp
    · exact fun h => List.eq_nil_of_length_eq_zero h.1
  | succ n ih =>
    rw [exactly, mem_cls_seq]
    constructor
    · rintro ⟨c, b, hc, hb, rfl⟩
      obtain ⟨hlen, hall⟩ := ih.mp hb
      exact ⟨by simpa using hlen, List.forall_mem_cons.mpr ⟨hc, hall⟩⟩
    · rintro ⟨hlen, hall⟩
      cases s with
      | nil => cases hlen
      | cons c b =>
        obtain ⟨hc, hb⟩ := List.forall_mem_cons.mp hall
        exact ⟨c, b, hc, ih.mpr ⟨by simpa using hlen, hb⟩, rfl⟩

end Regex

end Onceproof

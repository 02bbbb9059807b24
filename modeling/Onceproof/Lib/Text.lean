import Mathlib.Data.List.Nodup
import Mathlib.Tactic.Common

/-!
# Text as sequences of code points

A Python `str` is a sequence of code points below `0x110000`, the surrogates among them:
text decoded from JSON escapes may contain a surrogate that no UTF-8 encoder accepts. `Str`
keeps them, and the operations that refuse or merge them say so.

* `Str.utf8?` is the UTF-8 encoding, defined on text without surrogates and injective there.
* `Str.joinSurrogates` reads a pair of adjacent surrogates as the astral code point it
  stands for, which is what a JSON reader does with two consecutive escapes.
* `hexlify` and `base64url` are the two renderings of random bytes; both are injective.
-/

namespace Onceproof

/-- Unicode code points, surrogates included. -/
abbrev CodePoint := Fin 0x110000

/-- Numerals denote code points, since there is one. -/
instance CodePoint.neZero : @NeZero ℕ Zero.ofOfNat0 0x110000 := ⟨by decide⟩

instance CodePoint.lawfulBEq : LawfulBEq CodePoint := inferInstance

/-- Python's `str`. -/
abbrev Str := List CodePoint

instance Str.lawfulBEq : LawfulBEq Str := inferInstance

/-- Python's `bytes`. -/
abbrev Bytes := List UInt8

/-- The code point of a character. -/
def CodePoint.ofChar (c : Char) : CodePoint :=
  ⟨c.toNat, by
    have := c.valid
    simp only [UInt32.isValidChar, Nat.isValidChar] at this
    simp only [Char.toNat]
    omega⟩

/-- A string literal as a `Str`. -/
def lit (s : String) : Str := s.toList.map CodePoint.ofChar

/-- The dot that separates the parts of a bearer. -/
abbrev dot : CodePoint := 46

/-! ### Surrogates and UTF-8 -/

/-- The code points that only come in pairs in UTF-16. -/
def CodePoint.isSurrogate (c : CodePoint) : Bool := 0xD800 ≤ c.val && c.val ≤ 0xDFFF

/-- A text that a UTF-8 encoder accepts. -/
def Str.encodable (s : Str) : Bool := s.all fun c => !c.isSurrogate

/-- The character of a code point that is not a surrogate. -/
def CodePoint.toChar? (c : CodePoint) : Option Char :=
  if h : c.val.isValidChar then some ⟨⟨⟨c.val, by simp only [Nat.isValidChar] at h; omega⟩⟩, h⟩ else none

/-- `str.encode("utf-8")`, undefined on surrogates. -/
def Str.utf8? (s : Str) : Option Bytes :=
  (s.mapM CodePoint.toChar?).map fun cs => cs.flatMap String.utf8EncodeChar

theorem CodePoint.ofChar_of_toChar? {c : CodePoint} {a : Char} (h : c.toChar? = some a) :
    CodePoint.ofChar a = c := by
  unfold CodePoint.toChar? at h
  split_ifs at h with hv
  obtain rfl := Option.some.inj h
  rfl

theorem CodePoint.toChar?_isSome_iff (c : CodePoint) :
    c.toChar?.isSome ↔ c.isSurrogate = false := by
  have := c.isLt
  unfold CodePoint.toChar? CodePoint.isSurrogate
  split_ifs with h
  · simp only [Nat.isValidChar] at h
    simp only [Option.isSome_some, true_iff, Bool.and_eq_false_iff, decide_eq_false_iff_not]
    omega
  · simp only [Nat.isValidChar] at h
    simp only [Option.isSome_none, Bool.false_eq_true, false_iff, Bool.and_eq_false_iff,
      decide_eq_false_iff_not]
    omega

private theorem map_ofChar_of_mapM : ∀ {s : Str} {cs : List Char},
    s.mapM CodePoint.toChar? = some cs → cs.map CodePoint.ofChar = s
  | [], cs, h => by simp at h; simp [h]
  | c :: s, cs, h => by
    simp only [List.mapM_cons, Option.bind_eq_bind, Option.bind_eq_some_iff,
      Option.pure_def, Option.some.injEq] at h
    obtain ⟨a, ha, as, has, rfl⟩ := h
    rw [List.map_cons, CodePoint.ofChar_of_toChar? ha, map_ofChar_of_mapM has]

/-- Encoded text determines the text. -/
theorem Str.utf8?_inj {s s' : Str} {b : Bytes} (h : s.utf8? = some b)
    (h' : s'.utf8? = some b) : s = s' := by
  obtain ⟨cs, hcs, rfl⟩ := Option.map_eq_some_iff.mp h
  obtain ⟨cs', hcs', hb⟩ := Option.map_eq_some_iff.mp h'
  have henc : cs.utf8Encode = cs'.utf8Encode := by
    simp only [List.utf8Encode]
    rw [hb]
  have hdec := congrArg ByteArray.utf8Decode? henc
  rw [List.utf8Decode?_utf8Encode, List.utf8Decode?_utf8Encode] at hdec
  have hlist : cs = cs' := by simpa using hdec
  rw [← map_ofChar_of_mapM hcs, ← map_ofChar_of_mapM hcs', hlist]

theorem Str.utf8?_isSome_iff {s : Str} : s.utf8?.isSome ↔ s.encodable = true := by
  simp only [Str.utf8?, Option.isSome_map, Str.encodable]
  induction s with
  | nil => simp
  | cons c s ih =>
    rw [List.all_cons, Bool.and_eq_true, ← ih, List.mapM_cons]
    have hc := c.toChar?_isSome_iff
    cases h : c.toChar? with
    | none => simp_all
    | some a =>
      cases h' : List.mapM CodePoint.toChar? s <;> simp_all

@[simp]
theorem encodable_nil : Str.encodable [] = true := rfl

@[simp]
theorem encodable_append (s t : Str) :
    Str.encodable (s ++ t) = (s.encodable && t.encodable) := by
  simp [Str.encodable]

/-- ASCII is encodable. -/
theorem encodable_of_ascii {s : Str} (h : ∀ c ∈ s, c.val < 128) : s.encodable = true := by
  refine List.all_eq_true.mpr fun c hc => ?_
  have hsmall := h c hc
  have hlow : ¬ 0xD800 ≤ c.val := by omega
  rw [CodePoint.isSurrogate, decide_eq_false hlow]
  rfl

/-- Characters are not surrogates. -/
@[simp]
theorem encodable_lit (s : String) : (lit s).encodable = true := by
  simp only [Str.encodable, lit, List.all_map, List.all_eq_true, Function.comp_apply]
  intro c _
  have := c.valid
  simp only [UInt32.isValidChar, Nat.isValidChar] at this
  have hval : (CodePoint.ofChar c).val = c.val.toNat := rfl
  simp only [CodePoint.isSurrogate, hval, Bool.not_eq_true', Bool.and_eq_false_iff,
    decide_eq_false_iff_not]
  omega

theorem CodePoint.ofChar_injective : Function.Injective CodePoint.ofChar := by
  intro a b h
  have hval := congrArg Fin.val h
  simp only [CodePoint.ofChar, Char.toNat] at hval
  exact Char.ext (UInt32.toNat_inj.mp hval)

@[simp]
theorem lit_inj {s t : String} : lit s = lit t ↔ s = t := by
  simp only [lit, CodePoint.ofChar_injective.list_map.eq_iff]
  exact String.toList_inj

@[simp]
theorem lit_eq_nil {s : String} : lit s = [] ↔ s = "" := by
  simp [lit]

/-- Read each pair of adjacent surrogates as one astral code point. -/
def Str.joinSurrogates : Str → Str
  | c :: d :: s =>
    if h : 0xD800 ≤ c.val ∧ c.val ≤ 0xDBFF ∧ 0xDC00 ≤ d.val ∧ d.val ≤ 0xDFFF then
      ⟨0x10000 + (c.val - 0xD800) * 0x400 + (d.val - 0xDC00), by omega⟩ ::
        Str.joinSurrogates s
    else c :: Str.joinSurrogates (d :: s)
  | s => s

/-- Text without surrogates has no pair to join. -/
@[simp]
theorem Str.joinSurrogates_of_encodable : ∀ {s : Str}, s.encodable = true →
    s.joinSurrogates = s
  | [], _ => rfl
  | [_], _ => rfl
  | c :: d :: s, h => by
    simp only [Str.encodable, List.all_cons, CodePoint.isSurrogate, Bool.and_eq_true,
      Bool.not_eq_true', Bool.and_eq_false_iff, decide_eq_false_iff_not] at h
    have hne : ¬ (0xD800 ≤ c.val ∧ c.val ≤ 0xDBFF ∧ 0xDC00 ≤ d.val ∧ d.val ≤ 0xDFFF) := by
      omega
    rw [Str.joinSurrogates, dif_neg hne, Str.joinSurrogates_of_encodable]
    simp only [Str.encodable, List.all_cons, CodePoint.isSurrogate, Bool.and_eq_true,
      Bool.not_eq_true', Bool.and_eq_false_iff, decide_eq_false_iff_not]
    exact h.2

/-- The first half of a surrogate pair. -/
def CodePoint.isHigh (c : CodePoint) : Bool := 0xD800 ≤ c.val && c.val ≤ 0xDBFF

/-- The second half of a surrogate pair. -/
def CodePoint.isLow (c : CodePoint) : Bool := 0xDC00 ≤ c.val && c.val ≤ 0xDFFF

/-- A code point that UTF-16 writes as a surrogate pair. -/
def CodePoint.isAstral (c : CodePoint) : Bool := 0x10000 ≤ c.val

/-- The first half of the pair of an astral code point. -/
def CodePoint.high (c : CodePoint) : CodePoint :=
  ⟨0xD800 + (c.val - 0x10000) / 0x400, by have := c.isLt; omega⟩

/-- The second half of the pair of an astral code point. -/
def CodePoint.low (c : CodePoint) : CodePoint := ⟨0xDC00 + (c.val - 0x10000) % 0x400, by omega⟩

/-- The UTF-16 code units of a code point. -/
def CodePoint.utf16 (c : CodePoint) : Str := if c.isAstral then [c.high, c.low] else [c]

/-- The UTF-16 code units of a text: astral code points are split, surrogates stay. -/
def Str.utf16 (s : Str) : Str := s.flatMap CodePoint.utf16

/-- Two surrogates that form a pair stand next to each other. -/
def Str.HasPair (s : Str) : Prop :=
  ∃ a hi lo b, s = a ++ hi :: lo :: b ∧ hi.isHigh = true ∧ lo.isLow = true

theorem CodePoint.isHigh_high (c : CodePoint) : c.high.isHigh = true := by
  have hlow : 0xD800 ≤ c.high.val := Nat.le_add_right _ _
  have hhigh : c.high.val ≤ 0xDBFF := by
    have := c.isLt
    simp only [CodePoint.high]
    omega
  simp [CodePoint.isHigh, hlow, hhigh]

theorem CodePoint.isLow_low (c : CodePoint) : c.low.isLow = true := by
  have hlow : 0xDC00 ≤ c.low.val := Nat.le_add_right _ _
  have hhigh : c.low.val ≤ 0xDFFF := by
    simp only [CodePoint.low]
    omega
  simp [CodePoint.isLow, hlow, hhigh]

@[simp]
theorem Str.utf16_nil : Str.utf16 [] = [] := rfl

@[simp]
theorem Str.utf16_cons (c : CodePoint) (s : Str) :
    Str.utf16 (c :: s) = c.utf16 ++ Str.utf16 s := List.flatMap_cons

theorem Str.utf16_append (s t : Str) : Str.utf16 (s ++ t) = s.utf16 ++ t.utf16 :=
  List.flatMap_append

theorem CodePoint.utf16_of_not_isAstral {c : CodePoint} (h : c.isAstral = false) :
    c.utf16 = [c] := by
  rw [CodePoint.utf16, h]
  rfl

theorem CodePoint.isAstral_of_isHigh {c : CodePoint} (h : c.isHigh = true) :
    c.isAstral = false := by
  simp only [CodePoint.isHigh, Bool.and_eq_true, decide_eq_true_eq] at h
  simp only [CodePoint.isAstral, decide_eq_false_iff_not]
  omega

theorem CodePoint.isAstral_of_isLow {c : CodePoint} (h : c.isLow = true) :
    c.isAstral = false := by
  simp only [CodePoint.isLow, Bool.and_eq_true, decide_eq_true_eq] at h
  simp only [CodePoint.isAstral, decide_eq_false_iff_not]
  omega

/-- An astral code point and its pair have the same code units. -/
theorem Str.utf16_split {c : CodePoint} (hc : c.isAstral = true) (a b : Str) :
    Str.utf16 (a ++ c.high :: c.low :: b) = Str.utf16 (a ++ c :: b) := by
  rw [Str.utf16_append, Str.utf16_append, Str.utf16_cons, Str.utf16_cons, Str.utf16_cons,
    CodePoint.utf16_of_not_isAstral (CodePoint.isAstral_of_isHigh c.isHigh_high),
    CodePoint.utf16_of_not_isAstral (CodePoint.isAstral_of_isLow c.isLow_low),
    CodePoint.utf16, if_pos hc]
  rfl

theorem Str.joinSurrogates_pair {hi lo : CodePoint} (hhi : hi.isHigh = true)
    (hlo : lo.isLow = true) (s : Str) : ∃ c : CodePoint, c.isAstral = true ∧ c.high = hi ∧
      c.low = lo ∧ Str.joinSurrogates (hi :: lo :: s) = c :: s.joinSurrogates := by
  simp only [CodePoint.isHigh, CodePoint.isLow, Bool.and_eq_true, decide_eq_true_eq] at hhi hlo
  have hpair : 0xD800 ≤ hi.val ∧ hi.val ≤ 0xDBFF ∧ 0xDC00 ≤ lo.val ∧ lo.val ≤ 0xDFFF :=
    ⟨hhi.1, hhi.2, hlo.1, hlo.2⟩
  rw [Str.joinSurrogates, dif_pos hpair]
  refine ⟨_, ?_, ?_, ?_, rfl⟩
  · simp only [CodePoint.isAstral, decide_eq_true_eq]
    omega
  · apply Fin.ext
    simp only [CodePoint.high]
    omega
  · apply Fin.ext
    simp only [CodePoint.low]
    omega

theorem Str.joinSurrogates_cons_cons {c d : CodePoint}
    (h : ¬ (c.isHigh = true ∧ d.isLow = true)) (s : Str) :
    Str.joinSurrogates (c :: d :: s) = c :: Str.joinSurrogates (d :: s) := by
  simp only [CodePoint.isHigh, CodePoint.isLow, Bool.and_eq_true, decide_eq_true_eq] at h
  rw [Str.joinSurrogates, dif_neg (by tauto)]

theorem CodePoint.high_low_inj {c d : CodePoint} (hc : c.isAstral = true)
    (hd : d.isAstral = true) (hhigh : c.high = d.high) (hlow : c.low = d.low) : c = d := by
  simp only [CodePoint.isAstral, decide_eq_true_eq] at hc hd
  simp only [CodePoint.high, CodePoint.low, Fin.mk.injEq] at hhigh hlow
  exact Fin.ext (by omega)

/-- Two surrogates are only joined where the second one is low. -/
private theorem joinSurrogates_cons {c : CodePoint} {s : Str}
    (h : c.isHigh = true → ∀ d, s.head? = some d → d.isLow = false) :
    Str.joinSurrogates (c :: s) = c :: Str.joinSurrogates s := by
  cases s with
  | nil => rfl
  | cons d s =>
    refine Str.joinSurrogates_cons_cons (fun hpair => ?_) s
    rw [h hpair.1 d rfl] at hpair
    exact absurd hpair.2 (by decide)

/-- The code units of a text begin with a low surrogate only if the text does. -/
private theorem head?_utf16 {s : Str} {d : CodePoint} (h : s.utf16.head? = some d)
    (hd : d.isLow = true) : s.head? = some d := by
  cases s with
  | nil => cases h
  | cons c s =>
    rw [Str.utf16_cons, CodePoint.utf16] at h
    split_ifs at h with hc
    · obtain rfl := Option.some.inj h
      have hhigh := c.isHigh_high
      simp only [CodePoint.isHigh, CodePoint.isLow, Bool.and_eq_true, decide_eq_true_eq]
        at hhigh hd
      omega
    · exact h

/-- Joining the code units of a text joins its own pairs. -/
theorem Str.joinSurrogates_utf16 : ∀ s : Str, s.utf16.joinSurrogates = s.joinSurrogates
  | [] => rfl
  | [c] => by
    rw [Str.utf16_cons, CodePoint.utf16]
    split_ifs with hc
    · obtain ⟨d, hd, hhigh, hlow, hjoin⟩ :=
        Str.joinSurrogates_pair c.isHigh_high c.isLow_low []
      rw [CodePoint.high_low_inj hd hc hhigh hlow] at hjoin
      exact hjoin
    · rfl
  | c :: d :: s => by
    by_cases hpair : c.isHigh = true ∧ d.isLow = true
    · obtain ⟨hhi, hlo⟩ := hpair
      obtain ⟨e, he, rfl, rfl, hjoin⟩ := Str.joinSurrogates_pair hhi hlo s
      obtain ⟨e', he', hhigh, hlow, hjoin'⟩ := Str.joinSurrogates_pair hhi hlo (Str.utf16 s)
      obtain rfl := CodePoint.high_low_inj he' he hhigh hlow
      rw [Str.utf16_cons, Str.utf16_cons,
        CodePoint.utf16_of_not_isAstral (CodePoint.isAstral_of_isHigh hhi),
        CodePoint.utf16_of_not_isAstral (CodePoint.isAstral_of_isLow hlo), hjoin]
      exact hjoin'.trans (by rw [Str.joinSurrogates_utf16 s])
    · have ih := Str.joinSurrogates_utf16 (d :: s)
      rw [Str.joinSurrogates_cons_cons hpair, ← ih, Str.utf16_cons, CodePoint.utf16]
      split_ifs with hc
      · obtain ⟨e, he, hhigh, hlow, hjoin⟩ :=
          Str.joinSurrogates_pair c.isHigh_high c.isLow_low (Str.utf16 (d :: s))
        rw [CodePoint.high_low_inj he hc hhigh hlow] at hjoin
        exact hjoin
      · refine joinSurrogates_cons fun hhi e he => ?_
        cases hlo : e.isLow with
        | false => rfl
        | true =>
          obtain rfl := Option.some.inj (head?_utf16 he hlo)
          exact absurd ⟨hhi, hlo⟩ hpair

/-- Texts with the same code units read the same. -/
theorem Str.joinSurrogates_congr {s t : Str} (h : s.utf16 = t.utf16) :
    s.joinSurrogates = t.joinSurrogates := by
  rw [← Str.joinSurrogates_utf16 s, h, Str.joinSurrogates_utf16 t]

theorem Str.joinSurrogates_of_not_hasPair : ∀ {s : Str}, ¬ s.HasPair → s.joinSurrogates = s
  | [], _ => rfl
  | [_], _ => rfl
  | c :: d :: s, h => by
    have hpair : ¬ (c.isHigh = true ∧ d.isLow = true) :=
      fun hcd => h ⟨[], c, d, s, rfl, hcd⟩
    have htail : ¬ Str.HasPair (d :: s) := by
      rintro ⟨a, hi, lo, b, hs, hhi⟩
      exact h ⟨c :: a, hi, lo, b, by rw [hs, List.cons_append], hhi⟩
    rw [Str.joinSurrogates_cons_cons hpair, Str.joinSurrogates_of_not_hasPair htail]

/-- Joining leaves a text as it is, or makes it shorter and puts an astral code point in. -/
theorem Str.joinSurrogates_cases : ∀ s : Str, s.joinSurrogates = s ∨
    s.joinSurrogates.length < s.length ∧ ∃ c ∈ s.joinSurrogates, c.isAstral = true
  | [] => Or.inl rfl
  | [_] => Or.inl rfl
  | c :: d :: s => by
    by_cases hpair : c.isHigh = true ∧ d.isLow = true
    · obtain ⟨e, he, -, -, hjoin⟩ := Str.joinSurrogates_pair hpair.1 hpair.2 s
      rw [hjoin]
      refine Or.inr ⟨?_, e, List.mem_cons_self, he⟩
      rcases Str.joinSurrogates_cases s with hs | ⟨hs, -⟩
      · simp [hs]
      · simp only [List.length_cons]
        omega
    · rw [Str.joinSurrogates_cons_cons hpair]
      rcases Str.joinSurrogates_cases (d :: s) with hs | ⟨hlen, e, he, hastral⟩
      · exact Or.inl (by rw [hs])
      · exact Or.inr ⟨by simpa using hlen, e, List.mem_cons_of_mem c he, hastral⟩

/-- A text begins with a pair of surrogates, or holds one further on. -/
theorem Str.hasPair_cons {c : CodePoint} {s : Str} (h : Str.HasPair (c :: s)) :
    (c.isHigh = true ∧ ∃ d, s.head? = some d ∧ d.isLow = true) ∨ s.HasPair := by
  obtain ⟨a, hi, lo, b, hs, hhi, hlo⟩ := h
  cases a with
  | nil =>
    obtain ⟨rfl, rfl⟩ := List.cons.inj hs
    exact Or.inl ⟨hhi, lo, rfl, hlo⟩
  | cons d a =>
    obtain ⟨-, rfl⟩ := List.cons.inj hs
    exact Or.inr ⟨a, hi, lo, b, rfl, hhi, hlo⟩

/-- Joining leaves no pair. -/
theorem Str.not_hasPair_joinSurrogates : ∀ s : Str, ¬ s.joinSurrogates.HasPair
  | [] => by
    rintro ⟨a, hi, lo, b, hs, -⟩
    exact absurd hs (by simp [Str.joinSurrogates])
  | [c] => by
    rintro ⟨a, hi, lo, b, hs, -⟩
    have hlen := congrArg List.length hs
    simp only [Str.joinSurrogates, List.length_cons, List.length_append, List.length_nil] at hlen
    omega
  | c :: d :: s => by
    intro h
    by_cases hpair : c.isHigh = true ∧ d.isLow = true
    · obtain ⟨e, he, -, -, hjoin⟩ := Str.joinSurrogates_pair hpair.1 hpair.2 s
      rw [hjoin] at h
      rcases Str.hasPair_cons h with ⟨hhigh, -⟩ | h
      · rw [CodePoint.isAstral_of_isHigh hhigh] at he
        cases he
      · exact Str.not_hasPair_joinSurrogates s h
    · rw [Str.joinSurrogates_cons_cons hpair] at h
      rcases Str.hasPair_cons h with ⟨hhigh, e, he, hlow⟩ | h
      · -- the text after `c` begins with `d`, or with the astral code point of a pair
        cases s with
        | nil =>
          obtain rfl := Option.some.inj he
          exact hpair ⟨hhigh, hlow⟩
        | cons f s =>
          by_cases hnext : d.isHigh = true ∧ f.isLow = true
          · obtain ⟨g, hg, -, -, hjoin⟩ := Str.joinSurrogates_pair hnext.1 hnext.2 s
            rw [hjoin] at he
            obtain rfl := Option.some.inj he
            rw [CodePoint.isAstral_of_isLow hlow] at hg
            cases hg
          · rw [Str.joinSurrogates_cons_cons hnext] at he
            obtain rfl := Option.some.inj he
            exact hpair ⟨hhigh, hlow⟩
      · exact Str.not_hasPair_joinSurrogates (d :: s) h

theorem Str.joinSurrogates_joinSurrogates (s : Str) :
    s.joinSurrogates.joinSurrogates = s.joinSurrogates :=
  Str.joinSurrogates_of_not_hasPair s.not_hasPair_joinSurrogates

/-- A property of all surrogates and astral code points holds of a text if it holds of its
code units. -/
theorem Str.forall_mem_utf16 {P : CodePoint → Prop} (hP : ∀ c : CodePoint, 0xD800 ≤ c.val → P c)
    {s : Str} : (∀ c ∈ s.utf16, P c) ↔ ∀ c ∈ s, P c := by
  have hunit : ∀ c : CodePoint, (∀ d ∈ c.utf16, P d) ↔ P c := by
    intro c
    rw [CodePoint.utf16]
    split_ifs with hc
    · have hval : 0x10000 ≤ c.val := by simpa [CodePoint.isAstral] using hc
      have hhigh : P c.high := hP _ (Nat.le_add_right _ _)
      have hlow : P c.low := hP _ (Nat.le_trans (by decide) (Nat.le_add_right 0xDC00 _))
      simp [hhigh, hlow, hP c (by omega)]
    · simp
  induction s with
  | nil => simp
  | cons c s ih =>
    rw [Str.utf16_cons, List.forall_mem_append, List.forall_mem_cons]
    exact and_congr (hunit c) ih

@[simp]
theorem Str.utf16_eq_nil {s : Str} : s.utf16 = [] ↔ s = [] := by
  cases s with
  | nil => simp
  | cons c s =>
    rw [Str.utf16_cons, CodePoint.utf16]
    split_ifs <;> simp

/-- The first code unit has such a property if the first code point has. -/
theorem Str.forall_head?_utf16 {P : CodePoint → Prop}
    (hP : ∀ c : CodePoint, 0xD800 ≤ c.val → P c) {s : Str} :
    (∀ c ∈ s.utf16.head?, P c) ↔ ∀ c ∈ s.head?, P c := by
  cases s with
  | nil => simp
  | cons c s =>
    rw [Str.utf16_cons, CodePoint.utf16]
    split_ifs with hc
    · have hval : 0x10000 ≤ c.val := by simpa [CodePoint.isAstral] using hc
      have hhigh : P c.high := hP _ (Nat.le_add_right _ _)
      simp [hhigh, hP c (by omega)]
    · simp

/-- A prefix of the code units without surrogates is a prefix of the text. -/
theorem Str.utf16_eq_append : ∀ {p r s : Str}, p.encodable = true → s.utf16 = p ++ r →
    ∃ t, s = p ++ t ∧ t.utf16 = r
  | [], _, s, _, h => ⟨s, rfl, h⟩
  | c :: p, r, [], _, h => by cases h
  | c :: p, r, d :: s, hp, h => by
    simp only [Str.encodable, List.all_cons, Bool.and_eq_true, Bool.not_eq_true'] at hp
    rw [Str.utf16_cons, CodePoint.utf16] at h
    split_ifs at h with hd
    · obtain ⟨rfl, -⟩ := List.cons.inj h
      have hhigh := d.isHigh_high
      simp only [CodePoint.isHigh, CodePoint.isSurrogate, Bool.and_eq_true, decide_eq_true_eq,
        Bool.and_eq_false_iff, decide_eq_false_iff_not] at hhigh hp
      omega
    · obtain ⟨rfl, hrest⟩ := List.cons.inj h
      obtain ⟨t, rfl, ht⟩ := Str.utf16_eq_append hp.2 hrest
      exact ⟨t, rfl, ht⟩

/-- Text without surrogates and astral code points is its own list of code units. -/
theorem Str.utf16_of_forall {s : Str} (h : ∀ c ∈ s, c.isAstral = false) : s.utf16 = s := by
  rw [Str.utf16, List.flatMap_congr fun c hc => CodePoint.utf16_of_not_isAstral (h c hc)]
  exact List.flatMap_singleton' s

/-! ### Texts of one spelling -/

/-- Among the texts of a bounded length, only this one has these code units. -/
def Str.Unambiguous (s : Str) (maximum : ℕ) : Prop :=
  ¬ s.HasPair ∧ (s.length < maximum → ∀ c ∈ s, c.isAstral = false)

/-- Text below the surrogates has one spelling. -/
theorem Str.unambiguous_of_forall {s : Str} (h : ∀ c ∈ s, c.val < 0xD800) (maximum : ℕ) :
    s.Unambiguous maximum := by
  refine ⟨?_, fun _ c hc => ?_⟩
  · rintro ⟨a, hi, lo, b, rfl, hhi, -⟩
    have hlt := h hi (by simp)
    simp only [CodePoint.isHigh, Bool.and_eq_true, decide_eq_true_eq] at hhi
    omega
  · have hlt := h c hc
    simp only [CodePoint.isAstral, decide_eq_false_iff_not]
    omega

/-- An unambiguous text has the code units of no other text. -/
theorem Str.Unambiguous.eq {s t : Str} {maximum : ℕ} (h : s.Unambiguous maximum)
    (ht : t.length ≤ maximum) (hunits : s.utf16 = t.utf16) : s = t := by
  have hjoin := Str.joinSurrogates_congr hunits
  rw [Str.joinSurrogates_of_not_hasPair h.1] at hjoin
  rcases Str.joinSurrogates_cases t with hsame | ⟨hlen, c, hc, hastral⟩
  · exact hjoin.trans hsame
  · rw [← hjoin] at hlen hc
    rw [h.2 (by omega) c hc] at hastral
    cases hastral

/-- An ambiguous text has the code units of another one. -/
theorem Str.exists_of_not_unambiguous {s : Str} {maximum : ℕ} (h : ¬ s.Unambiguous maximum)
    (hs : s.length ≤ maximum) : ∃ t, t ≠ s ∧ t.length ≤ maximum ∧ t.utf16 = s.utf16 := by
  have hne : ∀ {a b : Str} {c : CodePoint}, a ++ c :: b ≠ a ++ c.high :: c.low :: b := by
    intro a b c heq
    have := congrArg List.length heq
    simp at this
  by_cases hpair : s.HasPair
  · obtain ⟨a, hi, lo, b, rfl, hhi, hlo⟩ := hpair
    obtain ⟨c, hc, rfl, rfl, -⟩ := Str.joinSurrogates_pair hhi hlo []
    refine ⟨a ++ c :: b, hne, ?_, (Str.utf16_split hc a b).symm⟩
    simp only [List.length_append, List.length_cons] at hs ⊢
    omega
  · obtain ⟨hlen, c, hmem, hc⟩ : s.length < maximum ∧ ∃ c ∈ s, c.isAstral = true := by
      simpa [Str.Unambiguous, hpair] using h
    obtain ⟨a, b, rfl⟩ := List.append_of_mem hmem
    refine ⟨a ++ c.high :: c.low :: b, hne.symm, ?_, Str.utf16_split hc a b⟩
    simp only [List.length_append, List.length_cons] at hlen ⊢
    omega

/-! ### Hexadecimal -/

/-- A lower-case hexadecimal digit. -/
def hexDigit (n : ℕ) : CodePoint := ⟨if n % 16 < 10 then 48 + n % 16 else 87 + n % 16, by
  split <;> omega⟩

theorem hexDigit_inj {m n : ℕ} (hm : m < 16) (hn : n < 16) (h : hexDigit m = hexDigit n) :
    m = n := by
  have := congrArg Fin.val h
  simp only [hexDigit, Nat.mod_eq_of_lt hm, Nat.mod_eq_of_lt hn] at this
  split_ifs at this <;> omega

/-- A hexadecimal digit is a digit or a letter from `a` to `f`. -/
theorem hexDigit_cases (n : ℕ) : (48 ≤ (hexDigit n).val ∧ (hexDigit n).val ≤ 57) ∨
    (97 ≤ (hexDigit n).val ∧ (hexDigit n).val ≤ 102) := by
  simp only [hexDigit]
  split_ifs <;> omega

/-- `bytes.hex()`. -/
def hexlify : Bytes → Str
  | [] => []
  | b :: bs => hexDigit (b.toNat / 16) :: hexDigit (b.toNat % 16) :: hexlify bs

theorem hexlify_inj : ∀ {b b' : Bytes}, hexlify b = hexlify b' → b = b'
  | [], [], _ => rfl
  | [], _ :: _, h => by simp [hexlify] at h
  | _ :: _, [], h => by simp [hexlify] at h
  | x :: b, y :: b', h => by
    simp only [hexlify, List.cons.injEq] at h
    have hx := x.toNat_lt
    have hy := y.toNat_lt
    have h₁ := hexDigit_inj (by omega) (by omega) h.1
    have h₂ := hexDigit_inj (by omega) (by omega) h.2.1
    rw [hexlify_inj h.2.2, show x = y from UInt8.toNat_inj.mp (by omega)]

theorem mem_hexlify {c : CodePoint} : ∀ {b : Bytes}, c ∈ hexlify b → ∃ n, c = hexDigit n
  | [], h => by simp [hexlify] at h
  | x :: b, h => by
    simp only [hexlify, List.mem_cons] at h
    rcases h with rfl | rfl | h
    · exact ⟨_, rfl⟩
    · exact ⟨_, rfl⟩
    · exact mem_hexlify h

theorem encodable_hexlify (b : Bytes) : (hexlify b).encodable = true := by
  simp only [Str.encodable, List.all_eq_true]
  intro c hc
  obtain ⟨n, rfl⟩ := mem_hexlify hc
  have := hexDigit_cases n
  simp only [CodePoint.isSurrogate, Bool.not_eq_true', Bool.and_eq_false_iff,
    decide_eq_false_iff_not]
  omega

theorem dot_notMem_hexlify (b : Bytes) : dot ∉ hexlify b := by
  intro h
  obtain ⟨n, hn⟩ := mem_hexlify h
  have hcases := hexDigit_cases n
  rw [← hn] at hcases
  exact absurd hcases (by decide)

/-! ### URL-safe base64 without padding -/

/-- The URL-safe alphabet of 64 characters. -/
def base64Alphabet : Str :=
  lit "ABCDEFGHIJKLMNOPQRSTUVWXYZabcdefghijklmnopqrstuvwxyz0123456789-_"

/-- The character of a group of six bits. -/
def base64Char (n : ℕ) : CodePoint := base64Alphabet.getD (n % 64) 0

/-- `base64.urlsafe_b64encode(b).rstrip(b"=")`. -/
def base64url : Bytes → Str
  | a :: b :: c :: bs =>
    base64Char (a.toNat / 4) :: base64Char (a.toNat % 4 * 16 + b.toNat / 16) ::
      base64Char (b.toNat % 16 * 4 + c.toNat / 64) :: base64Char c.toNat :: base64url bs
  | [a, b] =>
    [base64Char (a.toNat / 4), base64Char (a.toNat % 4 * 16 + b.toNat / 16),
      base64Char (b.toNat % 16 * 4)]
  | [a] => [base64Char (a.toNat / 4), base64Char (a.toNat % 4 * 16)]
  | [] => []

private theorem length_base64Alphabet : base64Alphabet.length = 64 := by decide

private theorem nodup_base64Alphabet : base64Alphabet.Nodup := by decide

theorem base64Char_inj {m n : ℕ} (h : base64Char m = base64Char n) : m % 64 = n % 64 := by
  have hm : m % 64 < base64Alphabet.length := by
    rw [length_base64Alphabet]
    exact Nat.mod_lt _ (by decide)
  have hn : n % 64 < base64Alphabet.length := by
    rw [length_base64Alphabet]
    exact Nat.mod_lt _ (by decide)
  simp only [base64Char, List.getD_eq_getElem?_getD, List.getElem?_eq_getElem hm,
    List.getElem?_eq_getElem hn, Option.getD_some] at h
  exact nodup_base64Alphabet.getElem_inj_iff.mp h

theorem base64Char_mem (n : ℕ) : base64Char n ∈ base64Alphabet := by
  have hn : n % 64 < base64Alphabet.length := by
    rw [length_base64Alphabet]
    exact Nat.mod_lt _ (by decide)
  simp only [base64Char, List.getD_eq_getElem?_getD, List.getElem?_eq_getElem hn,
    Option.getD_some]
  exact List.getElem_mem hn

theorem mem_base64url {c : CodePoint} : ∀ {b : Bytes}, c ∈ base64url b → c ∈ base64Alphabet
  | [], h => by simp [base64url] at h
  | [_], h => by
    simp only [base64url, List.mem_cons, List.not_mem_nil, or_false] at h
    rcases h with rfl | rfl <;> exact base64Char_mem _
  | [_, _], h => by
    simp only [base64url, List.mem_cons, List.not_mem_nil, or_false] at h
    rcases h with rfl | rfl | rfl <;> exact base64Char_mem _
  | _ :: _ :: _ :: bs, h => by
    simp only [base64url, List.mem_cons] at h
    rcases h with rfl | rfl | rfl | rfl | h
    · exact base64Char_mem _
    · exact base64Char_mem _
    · exact base64Char_mem _
    · exact base64Char_mem _
    · exact mem_base64url h

theorem dot_notMem_base64url (b : Bytes) : dot ∉ base64url b := fun h =>
  absurd (mem_base64url h) (by decide)

theorem encodable_base64url (b : Bytes) : (base64url b).encodable = true := by
  have hall : base64Alphabet.encodable = true := by decide
  simp only [Str.encodable, List.all_eq_true] at hall ⊢
  exact fun c hc => hall c (mem_base64url hc)

theorem base64url_ne_nil {b : Bytes} (h : b ≠ []) : base64url b ≠ [] := by
  match b, h with
  | [_], _ => exact List.cons_ne_nil _ _
  | [_, _], _ => exact List.cons_ne_nil _ _
  | _ :: _ :: _ :: _, _ => exact List.cons_ne_nil _ _

/-- Distinct bytes have distinct renderings. -/
theorem base64url_inj : ∀ {b b' : Bytes}, base64url b = base64url b' → b = b'
  | [], [], _ => rfl
  | [], [_], h | [], [_, _], h | [], _ :: _ :: _ :: _, h => by simp [base64url] at h
  | [_], [], h | [_], [_, _], h | [_], _ :: _ :: _ :: _, h => by simp [base64url] at h
  | [_, _], [], h | [_, _], [_], h | [_, _], _ :: _ :: _ :: _, h => by simp [base64url] at h
  | _ :: _ :: _ :: _, [], h | _ :: _ :: _ :: _, [_], h | _ :: _ :: _ :: _, [_, _], h => by
    simp [base64url] at h
  | [a], [x], h => by
    simp only [base64url, List.cons.injEq, and_true] at h
    have ha := a.toNat_lt
    have hx := x.toNat_lt
    have h₁ := base64Char_inj h.1
    have h₂ := base64Char_inj h.2
    rw [show a = x from UInt8.toNat_inj.mp (by omega)]
  | [a, b], [x, y], h => by
    simp only [base64url, List.cons.injEq, and_true] at h
    have ha := a.toNat_lt
    have hb := b.toNat_lt
    have hx := x.toNat_lt
    have hy := y.toNat_lt
    have h₁ := base64Char_inj h.1
    have h₂ := base64Char_inj h.2.1
    have h₃ := base64Char_inj h.2.2
    rw [show a = x from UInt8.toNat_inj.mp (by omega),
      show b = y from UInt8.toNat_inj.mp (by omega)]
  | a :: b :: c :: bs, x :: y :: z :: bs', h => by
    simp only [base64url, List.cons.injEq] at h
    have ha := a.toNat_lt
    have hb := b.toNat_lt
    have hc := c.toNat_lt
    have hx := x.toNat_lt
    have hy := y.toNat_lt
    have hz := z.toNat_lt
    have h₁ := base64Char_inj h.1
    have h₂ := base64Char_inj h.2.1
    have h₃ := base64Char_inj h.2.2.1
    have h₄ := base64Char_inj h.2.2.2.1
    rw [base64url_inj h.2.2.2.2, show a = x from UInt8.toNat_inj.mp (by omega),
      show b = y from UInt8.toNat_inj.mp (by omega),
      show c = z from UInt8.toNat_inj.mp (by omega)]

end Onceproof

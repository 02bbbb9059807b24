import Onceproof.Lib.Text
import Mathlib.Data.Rat.Defs

/-!
# JSON values and their string encoding

The values a JSON reader produces, and the two facts about the writer that the ledger rests
on. Strings are written in ASCII: every other code point becomes one escape or, above
`0xFFFF`, a pair of surrogate escapes. `Json.persist v` is what reading back the text
written for `v` yields; it differs from `v` only where a string holds a surrogate pair as
two code points.

`scanString` reads the body of a written string up to its closing quote.
`scanString_escape` says that it recovers exactly what was written, so that texts composed
of written strings can be taken apart again. `escape_eq_iff` says which strings are written
alike.
-/

namespace Onceproof

/-- The numbers of a JSON reader that are not integers. -/
inductive Flt
  | finite (q : ℚ)
  | infinite (negative : Bool)
  | nan
  deriving DecidableEq

/-- JSON values. An object is the list of its members. -/
inductive Json
  | null
  | bool (b : Bool)
  | int (n : ℤ)
  | float (x : Flt)
  | str (s : Str)
  | arr (items : List Json)
  | obj (members : List (Str × Json))

namespace Json

/-- The member of an object under a key. -/
def member? (members : List (Str × Json)) (key : Str) : Option Json :=
  (members.find? fun m => m.1 = key).map Prod.snd

/-- The key at which a hook stops that takes the members in order and refuses the ones seen. -/
def repeated? (seen : List Str) : List (Str × Json) → Option Str
  | [] => none
  | (key, _) :: members => if key ∈ seen then some key else repeated? (key :: seen) members

theorem repeated?_eq_none {members : List (Str × Json)} : ∀ {seen : List Str},
    repeated? seen members = none ↔
      (∀ key ∈ members.map Prod.fst, key ∉ seen) ∧ (members.map Prod.fst).Nodup := by
  induction members with
  | nil => simp [repeated?]
  | cons m members ih =>
    intro seen
    rw [repeated?]
    split_ifs with hseen
    · exact iff_of_false (fun h => by cases h) fun h => h.1 m.1 List.mem_cons_self hseen
    · rw [ih, List.map_cons, List.nodup_cons, List.forall_mem_cons]
      simp only [List.mem_cons, not_or]
      grind

/-- A hook that has seen nothing stops at a member if and only if a key occurs twice. -/
theorem repeated?_nil_eq_none {members : List (Str × Json)} :
    repeated? [] members = none ↔ (members.map Prod.fst).Nodup := by
  simp [repeated?_eq_none]

mutual

/-- `json.loads(json.dumps(v))`. -/
def persist : Json → Json
  | null => null
  | bool b => bool b
  | int n => int n
  | float x => float x
  | str s => str s.joinSurrogates
  | arr items => arr (persistItems items)
  | obj members => obj (persistMembers members)

/-- `persist` on the items of an array. -/
def persistItems : List Json → List Json
  | [] => []
  | v :: vs => persist v :: persistItems vs

/-- `persist` on the members of an object. -/
def persistMembers : List (Str × Json) → List (Str × Json)
  | [] => []
  | (k, v) :: ms => (k.joinSurrogates, persist v) :: persistMembers ms

end

mutual

/-- What was read once is read again as it is. -/
theorem persist_persist : ∀ v : Json, persist (persist v) = persist v
  | null | bool _ | int _ | float _ => by simp only [persist]
  | str s => by rw [persist, persist, Str.joinSurrogates_joinSurrogates]
  | arr items => by rw [persist, persist, persistItems_persistItems]
  | obj members => by rw [persist, persist, persistMembers_persistMembers]

theorem persistItems_persistItems : ∀ items : List Json,
    persistItems (persistItems items) = persistItems items
  | [] => by simp only [persistItems]
  | v :: vs => by
    rw [persistItems, persistItems, persist_persist v, persistItems_persistItems vs]

theorem persistMembers_persistMembers : ∀ members : List (Str × Json),
    persistMembers (persistMembers members) = persistMembers members
  | [] => by simp only [persistMembers]
  | (k, v) :: ms => by
    rw [persistMembers, persistMembers, Str.joinSurrogates_joinSurrogates, persist_persist v,
      persistMembers_persistMembers ms]

end

/-- The value of a JSON text. Its strings hold no pair of surrogates: a reader joins them. -/
structure Document where
  value : Json
  persist_value : value.persist = value

/-- The document that is written for a value. -/
def Document.written (v : Json) : Document := ⟨v.persist, persist_persist v⟩

/-! ### Equality of values -/

/-- `==` on values that a reader produced: the order of an object's members does not matter. -/
inductive Same : Json → Json → Prop
  | refl (v : Json) : Same v v
  | arr {items items' : List Json} (each : List.Forall₂ Same items items') :
      Same (arr items) (arr items')
  | obj {ms ms' : List (Str × Json)}
      (keys : ∀ key, key ∈ ms.map Prod.fst ↔ key ∈ ms'.map Prod.fst)
      (values : ∀ key v v', member? ms key = some v → member? ms' key = some v' → Same v v') :
      Same (obj ms) (obj ms')

/-- Two objects with the same keys are equal if the second one's members are found in the
first. -/
theorem same_obj {ms ms' : List (Str × Json)}
    (keys : ∀ key, key ∈ ms.map Prod.fst ↔ key ∈ ms'.map Prod.fst)
    (members : ∀ m ∈ ms', ∃ v, member? ms m.1 = some v ∧ Same v m.2) : Same (obj ms) (obj ms') := by
  refine .obj keys fun key v v' hv hv' => ?_
  obtain ⟨m, hm, rfl⟩ := Option.map_eq_some_iff.mp hv'
  have hkey := List.find?_some hm
  obtain rfl : m.1 = key := of_decide_eq_true hkey
  obtain ⟨v₁, hv₁, hsame⟩ := members m (List.mem_of_find?_eq_some hm)
  obtain rfl : v₁ = v := Option.some.inj (hv₁.symm.trans hv)
  exact hsame

/-! ### Written strings -/

/-- The double quote. -/
abbrev quote : CodePoint := 34

/-- The backslash. -/
abbrev backslash : CodePoint := 92

/-- `\uXXXX`. -/
def unicodeEscape (n : ℕ) : Str :=
  [backslash, 117, hexDigit (n / 4096), hexDigit (n / 256), hexDigit (n / 16), hexDigit n]

/-- One code point of a written string. -/
def escapeChar (c : CodePoint) : Str :=
  if c = quote then [backslash, quote]
  else if c = backslash then [backslash, backslash]
  else if c = 10 then [backslash, 110]
  else if c = 13 then [backslash, 114]
  else if c = 9 then [backslash, 116]
  else if c = 12 then [backslash, 102]
  else if c = 8 then [backslash, 98]
  else if 32 ≤ c.val ∧ c.val ≤ 126 then [c]
  else if c.val < 0x10000 then unicodeEscape c.val
  else unicodeEscape (0xD800 + (c.val - 0x10000) / 0x400) ++
    unicodeEscape (0xDC00 + (c.val - 0x10000) % 0x400)

/-- The body of a written string. -/
def escape (s : Str) : Str := s.flatMap escapeChar

/-- `json.dumps` on a string. -/
def dumpsStr (s : Str) : Str := quote :: (escape s ++ [quote])

theorem printable_unicodeEscape {n : ℕ} {c : CodePoint} (h : c ∈ unicodeEscape n) :
    32 ≤ c.val ∧ c.val ≤ 126 := by
  have hdigit : ∀ m, 32 ≤ (hexDigit m).val ∧ (hexDigit m).val ≤ 126 := by
    intro m
    have hcases := hexDigit_cases m
    omega
  simp only [unicodeEscape, List.mem_cons, List.not_mem_nil, or_false] at h
  rcases h with rfl | rfl | rfl | rfl | rfl | rfl
  · decide
  · decide
  all_goals exact hdigit _

theorem printable_escapeChar {d c : CodePoint} (h : c ∈ escapeChar d) :
    32 ≤ c.val ∧ c.val ≤ 126 := by
  have hshort : ∀ {s : Str}, (s.all fun c => 32 ≤ c.val ∧ c.val ≤ 126) = true → c ∈ s →
      32 ≤ c.val ∧ c.val ≤ 126 := by
    intro s hs hc
    exact of_decide_eq_true (List.all_eq_true.mp hs c hc)
  unfold escapeChar at h
  split_ifs at h with h₁ h₂ h₃ h₄ h₅ h₆ h₇ h₈ h₉
  · exact hshort (by decide) h
  · exact hshort (by decide) h
  · exact hshort (by decide) h
  · exact hshort (by decide) h
  · exact hshort (by decide) h
  · exact hshort (by decide) h
  · exact hshort (by decide) h
  · obtain rfl := List.mem_singleton.mp h
    exact h₈
  · exact printable_unicodeEscape h
  · rcases List.mem_append.mp h with h | h
    · exact printable_unicodeEscape h
    · exact printable_unicodeEscape h

/-- **A written string** is printable ASCII. -/
theorem printable_dumpsStr {s : Str} {c : CodePoint} (h : c ∈ dumpsStr s) :
    32 ≤ c.val ∧ c.val ≤ 126 := by
  rw [dumpsStr, List.mem_cons, List.mem_append, List.mem_singleton] at h
  rcases h with rfl | h | rfl
  · decide
  · obtain ⟨d, -, hd⟩ := List.mem_flatMap.mp h
    exact printable_escapeChar hd
  · decide

theorem encodable_dumpsStr (s : Str) : (dumpsStr s).encodable = true := by
  refine encodable_of_ascii fun c hc => ?_
  have hprintable := printable_dumpsStr hc
  omega

/-- Read the body of a string up to its closing quote. -/
def scanString : Str → Str × Str
  | [] => ([], [])
  | [c] => if c = quote then ([], []) else ([c], [])
  | c :: d :: r =>
    if c = quote then ([], d :: r)
    else if c = backslash then (c :: d :: (scanString r).1, (scanString r).2)
    else (c :: (scanString (d :: r)).1, (scanString (d :: r)).2)

theorem scanString_quote (r : Str) : scanString (quote :: r) = ([], r) := by
  cases r <;> simp [scanString]

theorem scanString_backslash (d : CodePoint) (r : Str) :
    scanString (backslash :: d :: r) =
      (backslash :: d :: (scanString r).1, (scanString r).2) := by
  rw [scanString, if_neg (by decide), if_pos rfl]

theorem scanString_plain {c : CodePoint} (hq : c ≠ quote) (hb : c ≠ backslash) (r : Str) :
    scanString (c :: r) = (c :: (scanString r).1, (scanString r).2) := by
  cases r with
  | nil => simp [scanString, hq]
  | cons d r => simp [scanString, hq, hb]

private theorem hexDigit_ne_quote (n : ℕ) : hexDigit n ≠ quote := by
  intro h
  have := hexDigit_cases n
  rw [h] at this
  exact absurd this (by decide)

private theorem hexDigit_ne_backslash (n : ℕ) : hexDigit n ≠ backslash := by
  intro h
  have := hexDigit_cases n
  rw [h] at this
  exact absurd this (by decide)

private theorem scanString_unicodeEscape (n : ℕ) (r : Str) :
    scanString (unicodeEscape n ++ r) =
      (unicodeEscape n ++ (scanString r).1, (scanString r).2) := by
  simp only [unicodeEscape, List.cons_append, List.nil_append, scanString_backslash,
    scanString_plain (hexDigit_ne_quote _) (hexDigit_ne_backslash _)]

private theorem scanString_escapeChar (c : CodePoint) (r : Str) :
    scanString (escapeChar c ++ r) =
      (escapeChar c ++ (scanString r).1, (scanString r).2) := by
  unfold escapeChar
  split_ifs with hq hb
  all_goals try exact scanString_backslash _ _
  · exact scanString_plain hq hb r
  · exact scanString_unicodeEscape _ r
  · rw [List.append_assoc, scanString_unicodeEscape, scanString_unicodeEscape,
      List.append_assoc]

/-- **Reading a written string** recovers its body and what follows it. -/
theorem scanString_escape (s r : Str) :
    scanString (escape s ++ quote :: r) = (escape s, r) := by
  induction s with
  | nil => exact scanString_quote r
  | cons c s ih =>
    have hcons : escape (c :: s) = escapeChar c ++ escape s := rfl
    rw [hcons, List.append_assoc, scanString_escapeChar, ih]

/-- Two texts that begin with written strings agree on the strings and on the rest. -/
theorem escape_append_quote_inj {s s' r r' : Str}
    (h : escape s ++ quote :: r = escape s' ++ quote :: r') :
    escape s = escape s' ∧ r = r' := by
  have := congrArg scanString h
  rw [scanString_escape, scanString_escape] at this
  exact Prod.mk.inj this

/-- Hexadecimal text is written as it is. -/
theorem escape_hexlify (b : Bytes) : escape (hexlify b) = hexlify b := by
  have hall : ∀ c ∈ hexlify b, escapeChar c = [c] := by
    intro c hc
    obtain ⟨n, rfl⟩ := mem_hexlify hc
    have hcases := hexDigit_cases n
    have hval : ∀ d : CodePoint, d.val < 48 ∨ d.val = 92 → hexDigit n ≠ d := by
      rintro d hd rfl
      omega
    unfold escapeChar
    rw [if_neg (hval _ (by decide)), if_neg (hval _ (by decide)), if_neg (hval _ (by decide)),
      if_neg (hval _ (by decide)), if_neg (hval _ (by decide)), if_neg (hval _ (by decide)),
      if_neg (hval _ (by decide)), if_pos (by omega)]
  rw [escape, List.flatMap_congr hall]
  exact List.flatMap_singleton' _

/-! ### Escapes are determined by the code units -/

/-- The value of a hexadecimal digit. -/
def hexValue (c : CodePoint) : ℕ := if c.val ≤ 57 then c.val - 48 else c.val - 87

theorem hexValue_hexDigit (n : ℕ) : hexValue (hexDigit n) = n % 16 := by
  have hlt : n % 16 < 16 := Nat.mod_lt _ (by decide)
  by_cases h : n % 16 < 10
  · simp only [hexValue, hexDigit, if_pos h]
    rw [if_pos (by omega)]
    omega
  · simp only [hexValue, hexDigit, if_neg h]
    rw [if_neg (by omega)]
    omega

/-- The code point of an escape of one letter. -/
def letterEscape (d : CodePoint) : ℕ :=
  if d = 110 then 10
  else if d = 114 then 13
  else if d = 116 then 9
  else if d = 102 then 12
  else if d = 98 then 8
  else d.val

/-- Read four hexadecimal digits. -/
def readHex : Str → Option (ℕ × Str)
  | w :: x :: y :: z :: r =>
    some (hexValue w * 4096 + hexValue x * 256 + hexValue y * 16 + hexValue z, r)
  | _ => none

/-- Read one code unit of the body of a string, and what follows it. -/
def readUnit : Str → Option (ℕ × Str)
  | [] => none
  | [c] => some (c.val, [])
  | c :: d :: r =>
    if c = backslash then
      if d = 117 then readHex r else some (letterEscape d, r)
    else some (c.val, d :: r)

private theorem readUnit_plain {c : CodePoint} (h : c ≠ backslash) (r : Str) :
    readUnit (c :: r) = some (c.val, r) := by
  cases r with
  | nil => rfl
  | cons d r => rw [readUnit, if_neg h]

private theorem readUnit_letter {d : CodePoint} (h : d ≠ 117) (r : Str) :
    readUnit (backslash :: d :: r) = some (letterEscape d, r) := by
  rw [readUnit, if_pos rfl, if_neg h]

private theorem readUnit_unicode {n : ℕ} (h : n < 0x10000) (r : Str) :
    readUnit (unicodeEscape n ++ r) = some (n, r) := by
  simp only [unicodeEscape, List.cons_append, List.nil_append, readUnit, if_true, readHex,
    hexValue_hexDigit, Option.some.injEq, Prod.mk.injEq, and_true]
  omega

/-- A written code unit is read back. -/
theorem readUnit_escapeChar {c : CodePoint} (h : c.isAstral = false) (r : Str) :
    readUnit (escapeChar c ++ r) = some (c.val, r) := by
  have hlt : c.val < 0x10000 := by simpa [CodePoint.isAstral] using h
  unfold escapeChar
  split_ifs with h₁ h₂ h₃ h₄ h₅ h₆ h₇ h₈
  · rw [h₁]
    exact readUnit_letter (by decide) r
  · rw [h₂]
    exact readUnit_letter (by decide) r
  · rw [h₃]
    exact readUnit_letter (by decide) r
  · rw [h₄]
    exact readUnit_letter (by decide) r
  · rw [h₅]
    exact readUnit_letter (by decide) r
  · rw [h₆]
    exact readUnit_letter (by decide) r
  · rw [h₇]
    exact readUnit_letter (by decide) r
  · exact readUnit_plain h₂ r
  · exact readUnit_unicode hlt r

/-- Above the letters, a code unit is written as one escape. -/
theorem escapeChar_eq_unicodeEscape {d : CodePoint} (hlow : 0xD800 ≤ d.val)
    (hhigh : d.val < 0x10000) : escapeChar d = unicodeEscape d.val := by
  have hne : ∀ e : CodePoint, e.val < 0xD800 → d ≠ e := by
    rintro e he rfl
    omega
  unfold escapeChar
  rw [if_neg (hne _ (by decide)), if_neg (hne _ (by decide)), if_neg (hne _ (by decide)),
    if_neg (hne _ (by decide)), if_neg (hne _ (by decide)), if_neg (hne _ (by decide)),
    if_neg (hne _ (by decide)), if_neg (by omega), if_pos hhigh]

/-- An astral code point is written as its two code units are. -/
theorem escapeChar_utf16 (c : CodePoint) : escape c.utf16 = escapeChar c := by
  rw [CodePoint.utf16]
  split_ifs with hc
  · have hval : 0x10000 ≤ c.val := by simpa [CodePoint.isAstral] using hc
    have hmax := c.isLt
    have hne : ∀ e : CodePoint, e.val < 0x10000 → c ≠ e := by
      rintro e he rfl
      omega
    have hhigh : escapeChar c.high = unicodeEscape c.high.val :=
      escapeChar_eq_unicodeEscape (Nat.le_add_right _ _) (by simp only [CodePoint.high]; omega)
    have hlow : escapeChar c.low = unicodeEscape c.low.val :=
      escapeChar_eq_unicodeEscape (Nat.le_trans (by decide) (Nat.le_add_right 0xDC00 _))
        (by simp only [CodePoint.low]; omega)
    have hpair : escape [c.high, c.low] = escapeChar c.high ++ escapeChar c.low := by
      simp [escape]
    rw [hpair, hhigh, hlow]
    unfold escapeChar
    rw [if_neg (hne _ (by decide)), if_neg (hne _ (by decide)), if_neg (hne _ (by decide)),
      if_neg (hne _ (by decide)), if_neg (hne _ (by decide)), if_neg (hne _ (by decide)),
      if_neg (hne _ (by decide)), if_neg (by omega), if_neg (by omega)]
    rfl
  · simp [escape]

/-- A text is written as its code units are. -/
theorem escape_utf16 (s : Str) : escape s.utf16 = escape s := by
  have happend : ∀ a b : Str, escape (a ++ b) = escape a ++ escape b :=
    fun _ _ => List.flatMap_append
  induction s with
  | nil => rfl
  | cons c s ih =>
    rw [Str.utf16_cons, happend, escapeChar_utf16, ih]
    rfl

private theorem escape_units_inj : ∀ {s t : Str}, (∀ c ∈ s, c.isAstral = false) →
    (∀ c ∈ t, c.isAstral = false) → escape s = escape t → s = t
  | [], [], _, _, _ => rfl
  | [], d :: t, _, ht, h => by
    have hread := readUnit_escapeChar (ht d List.mem_cons_self) (escape t)
    have hnil : escapeChar d ++ escape t = [] := h.symm
    rw [hnil] at hread
    cases hread
  | c :: s, [], hs, _, h => by
    have hread := readUnit_escapeChar (hs c List.mem_cons_self) (escape s)
    have hnil : escapeChar c ++ escape s = [] := h
    rw [hnil] at hread
    cases hread
  | c :: s, d :: t, hs, ht, h => by
    have hread := readUnit_escapeChar (hs c List.mem_cons_self) (escape s)
    have hcons : escapeChar c ++ escape s = escapeChar d ++ escape t := h
    rw [hcons, readUnit_escapeChar (ht d List.mem_cons_self) (escape t)] at hread
    obtain ⟨hval, hrest⟩ := Prod.mk.inj (Option.some.inj hread)
    have hst := escape_units_inj (fun e he => hs e (List.mem_cons_of_mem c he))
      (fun e he => ht e (List.mem_cons_of_mem d he)) hrest.symm
    rw [hst, Fin.ext hval]

private theorem not_isAstral_of_mem_utf16 {s : Str} {c : CodePoint} (h : c ∈ s.utf16) :
    c.isAstral = false := by
  obtain ⟨d, -, hd⟩ := List.mem_flatMap.mp h
  rw [CodePoint.utf16] at hd
  split_ifs at hd with hastral
  · simp only [List.mem_cons, List.not_mem_nil, or_false] at hd
    rcases hd with rfl | rfl
    · exact CodePoint.isAstral_of_isHigh d.isHigh_high
    · exact CodePoint.isAstral_of_isLow d.isLow_low
  · obtain rfl := List.mem_singleton.mp hd
    simpa using hastral

/-- **Texts are written alike** if and only if their UTF-16 code units are the same. -/
theorem escape_eq_iff {s t : Str} : escape s = escape t ↔ s.utf16 = t.utf16 := by
  constructor
  · intro h
    rw [← escape_utf16 s, ← escape_utf16 t] at h
    exact escape_units_inj (fun _ => not_isAstral_of_mem_utf16)
      (fun _ => not_isAstral_of_mem_utf16) h
  · intro h
    rw [← escape_utf16 s, h, escape_utf16 t]

end Json

end Onceproof

import Onceproof.Lib.Json
import Mathlib.Data.Nat.Digits.Lemmas

/-!
# TOML documents

A reader of the part of TOML that an instance file uses: statements with a bare key and a basic
string, a decimal integer or a boolean, blank lines and comments. On a document with anything
else (tables, dotted or quoted keys, literal and multi-line strings, arrays, floats, dates) it
answers `none`, as it does on a document that is no TOML.

The escapes of a basic string are those of JSON, except that an escape names a Unicode scalar
value: half of a surrogate pair is refused. So a string that was written as JSON is read back if
and only if each of its code points is written as one escape, or as itself.

* `Toml.loads`: `tomllib.loads`.
* `parseBasicString_escape`, `parseBasicString_escape_none`: what a JSON string is read as.
* `statements_line`: one statement of a document.
-/

namespace Onceproof

namespace Toml

/-- The values of a document. -/
inductive Value
  | str (s : Str)
  | int (n : ℤ)
  | bool (b : Bool)
  deriving DecidableEq

abbrev newline : CodePoint := 10

/-- `TOML_WS`. -/
def isSpace (c : CodePoint) : Bool := c.val = 32 || c.val = 9

/-- `BARE_KEY_CHARS`. -/
def isKeyChar (c : CodePoint) : Bool :=
  (48 ≤ c.val && c.val ≤ 57) || (65 ≤ c.val && c.val ≤ 90) || (97 ≤ c.val && c.val ≤ 122) ||
    c.val = 95 || c.val = 45

/-- `ILLEGAL_BASIC_STR_CHARS` and `ILLEGAL_COMMENT_CHARS`: the control characters but the tab. -/
def isIllegal (c : CodePoint) : Bool := (c.val < 32 && c.val ≠ 9) || c.val = 127

def isDigit (c : CodePoint) : Bool := 48 ≤ c.val && c.val ≤ 57

/-- `HEXDIGIT_CHARS`. -/
def isHexDigit (c : CodePoint) : Bool :=
  isDigit c || (97 ≤ c.val && c.val ≤ 102) || (65 ≤ c.val && c.val ≤ 70)

/-- The value of a hexadecimal digit in either case. -/
def hexDigitValue (c : CodePoint) : ℕ :=
  if c.val ≤ 57 then c.val - 48 else if c.val ≤ 70 then c.val - 55 else c.val - 87

/-! ### Values -/

/-- `parse_hex_char`: a Unicode scalar value of `n` digits. -/
def parseHexChar (n : ℕ) (src : Str) : Option (CodePoint × Str) :=
  let digits := src.take n
  if digits.length = n && digits.all isHexDigit then
    let value := digits.foldl (fun v c => 16 * v + hexDigitValue c) 0
    if h : value < 0x110000 then
      if CodePoint.isSurrogate ⟨value, h⟩ then none else some (⟨value, h⟩, src.drop n)
    else none
  else none

/-- `BASIC_STR_ESCAPE_REPLACEMENTS`. -/
def escapeReplacement (d : CodePoint) : Option CodePoint :=
  if d = 98 then some 8
  else if d = 116 then some 9
  else if d = 110 then some 10
  else if d = 102 then some 12
  else if d = 114 then some 13
  else if d = Json.quote then some Json.quote
  else if d = Json.backslash then some Json.backslash
  else none

/-- `parse_basic_str_escape`, behind the backslash. -/
def parseEscape : Str → Option (CodePoint × Str)
  | [] => none
  | d :: r =>
    if d = 117 then parseHexChar 4 r
    else if d = 85 then parseHexChar 8 r
    else (escapeReplacement d).map fun c => (c, r)

/-- `parse_basic_str` on one line, behind the opening quote. Every turn consumes a character. -/
def parseBasicString : ℕ → Str → Option (Str × Str)
  | 0, _ => none
  | _ + 1, [] => none
  | fuel + 1, c :: r =>
    if c = Json.quote then some ([], r)
    else if c = Json.backslash then
      match parseEscape r with
      | none => none
      | some (d, r) => (parseBasicString fuel r).map fun (s, r) => (d :: s, r)
    else if isIllegal c then none
    else (parseBasicString fuel r).map fun (s, r) => (c :: s, r)

/-- The digits of a decimal number, which underscores may separate. -/
def scanDigits (value : ℕ) : Str → ℕ × Str
  | [] => (value, [])
  | c :: r =>
    if isDigit c then scanDigits (10 * value + (c.val - 48)) r
    else
      match c.val, r with
      | 95, d :: r' =>
        if isDigit d then scanDigits (10 * value + (d.val - 48)) r' else (value, c :: r)
      | _, _ => (value, c :: r)

/-- A decimal number without a sign. -/
def parseNatural : Str → Option (ℕ × Str)
  | [] => none
  | c :: r =>
    if c.val = 48 then some (0, r)
    else if isDigit c then some (scanDigits (c.val - 48) r)
    else none

/-- A decimal integer. -/
def parseInteger : Str → Option (ℤ × Str)
  | [] => none
  | c :: r =>
    if c.val = 45 then (parseNatural r).map fun (n, r) => (-(n : ℤ), r)
    else if c.val = 43 then (parseNatural r).map fun (n, r) => ((n : ℤ), r)
    else (parseNatural (c :: r)).map fun (n, r) => ((n : ℤ), r)

/-- `parse_value`. -/
def parseValue (src : Str) : Option (Value × Str) :=
  if [Json.quote, Json.quote, Json.quote].isPrefixOf src then none
  else if [Json.quote].isPrefixOf src then
    (parseBasicString src.length (src.drop 1)).map fun (s, r) => (.str s, r)
  else if (lit "true").isPrefixOf src then some (.bool true, src.drop 4)
  else if (lit "false").isPrefixOf src then some (.bool false, src.drop 5)
  else (parseInteger src).map fun (n, r) => (.int n, r)

/-! ### Documents -/

/-- `key_value_rule` with a bare key. -/
def parseKeyValue (src : Str) : Option ((Str × Value) × Str) :=
  match (src.dropWhile isKeyChar).dropWhile isSpace with
  | [] => none
  | c :: r =>
    if c.val = 61 then
      (parseValue (r.dropWhile isSpace)).map fun (v, r) => ((src.takeWhile isKeyChar, v), r)
    else none

/-- `skip_comment`. -/
def skipComment (src : Str) : Option Str :=
  if [(35 : CodePoint)].isPrefixOf src then
    if (src.takeWhile (· ≠ newline)).any isIllegal then none
    else some (src.dropWhile (· ≠ newline))
  else some src

/-- One line behind its leading blanks: its statement, if it has one, and what follows. -/
def parseLine (src : Str) : Option (List (Str × Value) × Str) :=
  match src with
  | [] => some ([], [])
  | c :: _ =>
    if isKeyChar c then
      (parseKeyValue src).map fun (entry, r) => ([entry], r.dropWhile isSpace)
    else some ([], src)

/-- The loop over the lines. -/
def statements : ℕ → Str → Option (List (Str × Value))
  | 0, _ => none
  | fuel + 1, src => do
    let (entries, r) ← parseLine (src.dropWhile isSpace)
    match ← skipComment r with
    | [] => some entries
    | c :: r =>
      if c = newline then (statements fuel r).map fun rest => entries ++ rest else none

/-- `src.replace("\r\n", "\n")`. -/
def joinNewlines : Str → Str
  | [] => []
  | c :: r =>
    match c.val, r.head? with
    | 13, some 10 => joinNewlines r
    | _, _ => c :: joinNewlines r

/-- `tomllib.loads`. -/
def loads (src : Str) : Option (List (Str × Value)) := do
  let src := joinNewlines src
  let entries ← statements (src.length + 1) src
  if (entries.map Prod.fst).Nodup then some entries else none

/-! ### Strings that were written as JSON -/

theorem isHexDigit_hexDigit (n : ℕ) : isHexDigit (hexDigit n) = true := by
  have hcases := hexDigit_cases n
  simp only [isHexDigit, isDigit, Bool.or_eq_true, Bool.and_eq_true, decide_eq_true_eq]
  omega

theorem hexDigitValue_hexDigit (n : ℕ) : hexDigitValue (hexDigit n) = n % 16 := by
  have hvalue := Json.hexValue_hexDigit n
  have hcases := hexDigit_cases n
  simp only [Json.hexValue, hexDigitValue] at hvalue ⊢
  split_ifs at hvalue ⊢ with h₁ h₂
  · exact hvalue
  · omega
  · exact hvalue

/-- An escape of four digits is read if it names a scalar value. -/
theorem parseEscape_unicodeEscape {c : CodePoint} (h : c.isAstral = false) (r : Str) :
    parseEscape ((Json.unicodeEscape c.val).tail ++ r) =
      if c.isSurrogate then none else some (c, r) := by
  have hlt : c.val < 0x10000 := by simpa [CodePoint.isAstral] using h
  have hvalue : 16 * (16 * (16 * (16 * 0 + c.val / 4096 % 16) + c.val / 256 % 16) +
      c.val / 16 % 16) + c.val % 16 = c.val := by omega
  have hdigits : [hexDigit (c.val / 4096), hexDigit (c.val / 256), hexDigit (c.val / 16),
      hexDigit c.val].foldl (fun v c => 16 * v + hexDigitValue c) 0 = c.val := by
    simp only [List.foldl_cons, List.foldl_nil, hexDigitValue_hexDigit]
    exact hvalue
  simp only [Json.unicodeEscape, List.tail_cons, List.cons_append, List.nil_append, parseEscape,
    if_true, parseHexChar, List.take_succ_cons, List.take_zero, List.length_cons, List.length_nil,
    List.all_cons, List.all_nil, isHexDigit_hexDigit, List.drop_succ_cons, List.drop_zero]
  simp [hdigits]

/-- **A written code point** is read back, if it is a scalar value of sixteen bits. -/
theorem parseBasicString_escapeChar {c : CodePoint} (hscalar : c.isSurrogate = false)
    (hplane : c.isAstral = false) (fuel : ℕ) (r : Str) :
    parseBasicString (fuel + 1) (Json.escapeChar c ++ r) =
      (parseBasicString fuel r).map fun (s, r) => (c :: s, r) := by
  have hletter : ∀ d : CodePoint, escapeReplacement d = some c → d ≠ 117 → d ≠ 85 →
      parseBasicString (fuel + 1) (Json.backslash :: d :: r) =
        (parseBasicString fuel r).map fun (s, r) => (c :: s, r) := by
    intro d hd h₄ h₈
    have hescape : parseEscape (d :: r) = some (c, r) := by
      rw [parseEscape, if_neg h₄, if_neg h₈, hd]
      rfl
    rw [parseBasicString, if_neg (by decide), if_pos rfl, hescape]
  unfold Json.escapeChar
  split_ifs with h₁ h₂ h₃ h₄ h₅ h₆ h₇ h₈ h₉
  · exact hletter _ (by rw [h₁]; decide) (by decide) (by decide)
  · exact hletter _ (by rw [h₂]; decide) (by decide) (by decide)
  · exact hletter _ (by rw [h₃]; decide) (by decide) (by decide)
  · exact hletter _ (by rw [h₄]; decide) (by decide) (by decide)
  · exact hletter _ (by rw [h₅]; decide) (by decide) (by decide)
  · exact hletter _ (by rw [h₆]; decide) (by decide) (by decide)
  · exact hletter _ (by rw [h₇]; decide) (by decide) (by decide)
  · have hlegal : isIllegal c = false := by
      simp only [isIllegal, Bool.or_eq_false_iff, Bool.and_eq_false_iff, decide_eq_false_iff_not]
      omega
    rw [List.cons_append, List.nil_append, parseBasicString, if_neg h₁, if_neg h₂,
      if_neg (by rw [hlegal]; decide)]
  · have hescape := parseEscape_unicodeEscape hplane r
    rw [hscalar, if_neg (by decide)] at hescape
    have hhead : Json.unicodeEscape c.val ++ r =
        Json.backslash :: ((Json.unicodeEscape c.val).tail ++ r) := rfl
    rw [hhead, parseBasicString, if_neg (by decide), if_pos rfl, hescape]
  · simp only [CodePoint.isAstral, decide_eq_false_iff_not] at hplane
    omega

/-- Half of a surrogate pair is refused. -/
theorem parseBasicString_surrogate {c : CodePoint} (h : c.isSurrogate = true) (fuel : ℕ)
    (r : Str) : parseBasicString fuel (Json.escapeChar c ++ r) = none := by
  have hrange : 0xD800 ≤ c.val ∧ c.val ≤ 0xDFFF := by simpa [CodePoint.isSurrogate] using h
  have hplane : c.isAstral = false := by
    simp only [CodePoint.isAstral, decide_eq_false_iff_not]
    omega
  have hescape := parseEscape_unicodeEscape hplane r
  rw [h, if_pos rfl] at hescape
  have hhead : Json.unicodeEscape c.val ++ r =
      Json.backslash :: ((Json.unicodeEscape c.val).tail ++ r) := rfl
  rw [Json.escapeChar_eq_unicodeEscape hrange.1 (by omega), hhead]
  cases fuel with
  | zero => rfl
  | succ fuel =>
    rw [parseBasicString, if_neg (by decide), if_pos rfl, hescape]

/-- A code point above `0xFFFF` is written as a surrogate pair, and refused. -/
theorem parseBasicString_astral {c : CodePoint} (h : c.isAstral = true) (fuel : ℕ) (r : Str) :
    parseBasicString fuel (Json.escapeChar c ++ r) = none := by
  have hpair : Json.escapeChar c = Json.escapeChar c.high ++ Json.escapeChar c.low := by
    rw [← Json.escapeChar_utf16, CodePoint.utf16, if_pos h]
    simp [Json.escape]
  have hhigh : c.high.isSurrogate = true := by
    have hvalue := CodePoint.isHigh_high c
    simp only [CodePoint.isHigh, Bool.and_eq_true, decide_eq_true_eq] at hvalue
    simp only [CodePoint.isSurrogate, Bool.and_eq_true, decide_eq_true_eq]
    omega
  rw [hpair, List.append_assoc]
  exact parseBasicString_surrogate hhigh fuel _

/-- A text whose code points are scalar values of sixteen bits. -/
def IsBasic (s : Str) : Prop := ∀ c ∈ s, c.isSurrogate = false ∧ c.isAstral = false

instance (s : Str) : Decidable (IsBasic s) :=
  decidable_of_iff ((s.all fun c => !c.isSurrogate && !c.isAstral) = true) (by simp [IsBasic])

variable {s r : Str} {fuel : ℕ}

theorem escape_cons (c : CodePoint) (s : Str) :
    Json.escape (c :: s) = Json.escapeChar c ++ Json.escape s := rfl

/-- **A string that was written as JSON** is read back. -/
theorem parseBasicString_escape (h : IsBasic s) (hfuel : s.length < fuel) :
    parseBasicString fuel (Json.escape s ++ Json.quote :: r) = some (s, r) := by
  induction s generalizing fuel with
  | nil =>
    obtain ⟨fuel, rfl⟩ := Nat.exists_eq_add_of_lt hfuel
    rfl
  | cons c s ih =>
    obtain ⟨hc, hs⟩ := List.forall_mem_cons.mp h
    cases fuel with
    | zero => cases hfuel
    | succ fuel =>
      rw [escape_cons, List.append_assoc, parseBasicString_escapeChar hc.1 hc.2,
        ih hs (Nat.lt_of_succ_lt_succ hfuel)]
      rfl

/-- **Every other string** is refused. -/
theorem parseBasicString_escape_none (h : ¬ IsBasic s) :
    parseBasicString fuel (Json.escape s ++ Json.quote :: r) = none := by
  induction s generalizing fuel with
  | nil => exact absurd (fun c hc => by cases hc) h
  | cons c s ih =>
    rw [escape_cons, List.append_assoc]
    cases hsurrogate : c.isSurrogate with
    | true => exact parseBasicString_surrogate hsurrogate fuel _
    | false =>
      cases hastral : c.isAstral with
      | true => exact parseBasicString_astral hastral fuel _
      | false =>
        have hs : ¬ IsBasic s := fun hs => h (List.forall_mem_cons.mpr ⟨⟨hsurrogate, hastral⟩, hs⟩)
        cases fuel with
        | zero => rfl
        | succ fuel =>
          rw [parseBasicString_escapeChar hsurrogate hastral, ih hs]
          rfl

theorem escapeChar_ne_nil (c : CodePoint) : Json.escapeChar c ≠ [] := by
  unfold Json.escapeChar Json.unicodeEscape
  split_ifs <;> exact List.cons_ne_nil _ _

theorem length_le_length_escape (s : Str) : s.length ≤ (Json.escape s).length := by
  induction s with
  | nil => exact le_rfl
  | cons c s ih =>
    have hpositive := List.length_pos_of_ne_nil (escapeChar_ne_nil c)
    rw [escape_cons, List.length_append, List.length_cons]
    omega

/-- A written string that is not empty does not begin with two quotes. -/
theorem head?_escapeChar_ne (c : CodePoint) : (Json.escapeChar c).head? ≠ some Json.quote := by
  unfold Json.escapeChar Json.unicodeEscape
  split_ifs with h₁
  all_goals simp only [List.head?_cons, List.cons_append, ne_eq, Option.some.injEq]
  all_goals first | exact h₁ | decide

/-! ### Values -/

theorem parseValue_dumpsStr_eq (hs : s ≠ []) : parseValue (Json.dumpsStr s ++ r) =
    (parseBasicString (Json.dumpsStr s ++ r).length (Json.escape s ++ Json.quote :: r)).map
      fun (s, r) => (Value.str s, r) := by
  obtain ⟨c, s, rfl⟩ := List.exists_cons_of_ne_nil hs
  have hhead : ∃ d t, Json.escape (c :: s) ++ Json.quote :: r = d :: t ∧ d ≠ Json.quote := by
    obtain ⟨d, t, hd⟩ := List.exists_cons_of_ne_nil (escapeChar_ne_nil c)
    refine ⟨d, t ++ (Json.escape s ++ Json.quote :: r), ?_, ?_⟩
    · rw [escape_cons, hd, List.append_assoc, List.cons_append]
    · intro heq
      exact head?_escapeChar_ne c (by rw [hd, heq]; rfl)
  have htext : Json.dumpsStr (c :: s) ++ r =
      Json.quote :: (Json.escape (c :: s) ++ Json.quote :: r) := by
    simp [Json.dumpsStr]
  obtain ⟨d, t, hd, hne⟩ := hhead
  rw [htext, hd, parseValue, if_neg (by simp [List.isPrefixOf, hne.symm]),
    if_pos (by simp [List.isPrefixOf])]
  rfl

/-- **A written string is a value** if it has the right code points. -/
theorem parseValue_dumpsStr (hs : s ≠ []) (h : IsBasic s) :
    parseValue (Json.dumpsStr s ++ r) = some (.str s, r) := by
  have hlength : s.length < (Json.dumpsStr s ++ r).length := by
    have hle := length_le_length_escape s
    simp only [Json.dumpsStr, List.length_append, List.length_cons]
    omega
  rw [parseValue_dumpsStr_eq hs, parseBasicString_escape h hlength]
  rfl

theorem parseValue_dumpsStr_none (hs : s ≠ []) (h : ¬ IsBasic s) :
    parseValue (Json.dumpsStr s ++ r) = none := by
  rw [parseValue_dumpsStr_eq hs, parseBasicString_escape_none h]
  rfl

/-- `str(b).lower()`. -/
def boolean (b : Bool) : Str := if b then lit "true" else lit "false"

theorem parseValue_boolean (b : Bool) : parseValue (boolean b ++ r) = some (.bool b, r) := by
  cases b <;> rfl

/-- `str(n)`. -/
def decimal (n : ℕ) : Str :=
  if n = 0 then lit "0" else (Nat.digits 10 n).reverse.map hexDigit

theorem isDigit_hexDigit {d : ℕ} (hd : d < 10) : isDigit (hexDigit d) = true ∧
    (hexDigit d).val - 48 = d := by
  have hmod : d % 16 = d := Nat.mod_eq_of_lt (by omega)
  simp only [isDigit, hexDigit, hmod, if_pos hd, Bool.and_eq_true, decide_eq_true_eq]
  omega

theorem scanDigits_digit {c : CodePoint} (h : isDigit c = true) (value : ℕ) (r : Str) :
    scanDigits value (c :: r) = scanDigits (10 * value + (c.val - 48)) r := by
  rw [scanDigits.eq_def]
  exact if_pos h

theorem scanDigits_hexDigit {ds : List ℕ} (hds : ∀ d ∈ ds, d < 10) (value : ℕ) (r : Str) :
    scanDigits value (ds.map hexDigit ++ newline :: r) =
      (ds.foldl (fun v d => 10 * v + d) value, newline :: r) := by
  induction ds generalizing value with
  | nil => rfl
  | cons d ds ih =>
    obtain ⟨hd, hds⟩ := List.forall_mem_cons.mp hds
    obtain ⟨hdigit, hvalue⟩ := isDigit_hexDigit hd
    rw [List.map_cons, List.cons_append, scanDigits_digit hdigit, hvalue, ih hds]
    rfl

theorem foldl_reverse_digits (n : ℕ) :
    (Nat.digits 10 n).reverse.foldl (fun v d => 10 * v + d) 0 = n := by
  have hvalue : ∀ ds : List ℕ,
      ds.reverse.foldl (fun v d => 10 * v + d) 0 = Nat.ofDigits 10 ds := by
    intro ds
    rw [List.foldl_reverse]
    induction ds with
    | nil => rfl
    | cons d ds ih =>
      rw [List.foldr_cons, ih, Nat.ofDigits_cons]
      exact Nat.add_comm _ _
  rw [hvalue, Nat.ofDigits_digits]

/-- **A decimal number** is read back at the end of a line. -/
theorem parseNatural_decimal (n : ℕ) (r : Str) :
    parseNatural (decimal n ++ newline :: r) = some (n, newline :: r) := by
  by_cases hn : n = 0
  · rw [decimal, if_pos hn, hn]
    rfl
  have hne : Nat.digits 10 n ≠ [] := Nat.digits_ne_nil_iff_ne_zero.mpr hn
  have hlast := Nat.getLast_digit_ne_zero 10 hn
  have hdigits : ∀ d ∈ (Nat.digits 10 n).reverse, d < 10 := fun d hd =>
    Nat.digits_lt_base (by decide) (List.mem_reverse.mp hd)
  obtain ⟨d, ds, hds⟩ := List.exists_cons_of_ne_nil (List.reverse_ne_nil_iff.mpr hne)
  have hd : d ≠ 0 := by
    have hhead : (Nat.digits 10 n).reverse.head? = some ((Nat.digits 10 n).getLast hne) := by
      rw [List.head?_reverse, List.getLast?_eq_some_getLast hne]
    rw [hds, List.head?_cons] at hhead
    rw [Option.some.inj hhead]
    exact hlast
  have hvalue := foldl_reverse_digits n
  rw [hds] at hdigits hvalue
  obtain ⟨hlt, hrest⟩ := List.forall_mem_cons.mp hdigits
  obtain ⟨hdigit, hval⟩ := isDigit_hexDigit hlt
  rw [decimal, if_neg hn, hds, List.map_cons, List.cons_append, parseNatural,
    if_neg (by omega), if_pos hdigit, hval, scanDigits_hexDigit hrest]
  rw [List.foldl_cons, Nat.mul_zero, Nat.zero_add] at hvalue
  rw [hvalue]

theorem exists_decimal_eq (n : ℕ) : ∃ c t, decimal n = c :: t ∧ isDigit c = true := by
  by_cases hn : n = 0
  · exact ⟨48, [], by rw [decimal, if_pos hn]; rfl, rfl⟩
  have hne : Nat.digits 10 n ≠ [] := Nat.digits_ne_nil_iff_ne_zero.mpr hn
  obtain ⟨d, ds, hds⟩ := List.exists_cons_of_ne_nil (List.reverse_ne_nil_iff.mpr hne)
  have hmem : d ∈ Nat.digits 10 n := List.mem_reverse.mp (hds ▸ List.mem_cons_self)
  exact ⟨hexDigit d, ds.map hexDigit, by rw [decimal, if_neg hn, hds, List.map_cons],
    (isDigit_hexDigit (Nat.digits_lt_base (by decide) hmem)).1⟩

theorem parseValue_decimal (n : ℕ) (r : Str) :
    parseValue (decimal n ++ newline :: r) = some (.int n, newline :: r) := by
  obtain ⟨c, t, ht, hdigit⟩ := exists_decimal_eq n
  have hnatural := parseNatural_decimal n r
  have hrange : 48 ≤ c.val ∧ c.val ≤ 57 := by simpa [isDigit] using hdigit
  have hne : ∀ d : CodePoint, d.val < 48 ∨ 57 < d.val → (d == c) = false := by
    intro d hd
    rw [beq_eq_false_iff_ne]
    rintro rfl
    omega
  have hquote := hne Json.quote (by decide)
  have ht' := hne 116 (by decide)
  have hf := hne 102 (by decide)
  rw [ht, List.cons_append] at hnatural ⊢
  have htrue : (lit "true").isPrefixOf (c :: (t ++ newline :: r)) = false := by
    have hlit : lit "true" = [116, 114, 117, 101] := by decide
    rw [hlit, List.isPrefixOf, ht', Bool.false_and]
  have hfalse : (lit "false").isPrefixOf (c :: (t ++ newline :: r)) = false := by
    have hlit : lit "false" = [102, 97, 108, 115, 101] := by decide
    rw [hlit, List.isPrefixOf, hf, Bool.false_and]
  rw [parseValue, if_neg (by simp [List.isPrefixOf, hquote]),
    if_neg (by simp [List.isPrefixOf, hquote]), if_neg (by simp [htrue]), if_neg (by simp [hfalse]),
    parseInteger, if_neg (by omega), if_neg (by omega), hnatural]
  rfl

/-! ### Lines -/

section Line

variable {key value : Str} {v : Value}

/-- A bare key, with its equals sign and what follows. -/
theorem parseKeyValue_statement (hkey : key.all isKeyChar = true)
    (hvalue : ∃ c t, value = c :: t ∧ isSpace c = false) :
    parseKeyValue (key ++ (lit " = " ++ (value ++ newline :: r))) =
      (parseValue (value ++ newline :: r)).map fun (v, r) => ((key, v), r) := by
  obtain ⟨c, t, rfl, hc⟩ := hvalue
  have hequals : lit " = " = [32, 61, 32] := by decide
  have hdrop : (key ++ (lit " = " ++ (c :: t ++ newline :: r))).dropWhile isKeyChar =
      lit " = " ++ (c :: t ++ newline :: r) := by
    rw [List.dropWhile_append_of_pos (List.all_eq_true.mp hkey), hequals]
    rfl
  have htake : (key ++ (lit " = " ++ (c :: t ++ newline :: r))).takeWhile isKeyChar = key := by
    rw [List.takeWhile_append_of_pos (List.all_eq_true.mp hkey), hequals]
    exact List.append_nil key
  have hspaces : (lit " = " ++ (c :: t ++ newline :: r)).dropWhile isSpace =
      61 :: 32 :: (c :: t ++ newline :: r) := by
    rw [hequals]
    rfl
  have hblank : ((32 : CodePoint) :: (c :: t ++ newline :: r)).dropWhile isSpace =
      c :: t ++ newline :: r := by
    rw [List.dropWhile_cons_of_pos rfl, List.cons_append, List.dropWhile_cons_of_neg (by simp [hc])]
  rw [parseKeyValue, hdrop, htake, hspaces]
  dsimp only
  rw [if_pos (by decide), hblank]

/-- What the loop makes of a line with a bare key. -/
theorem statements_statement (hkey : key.all isKeyChar = true) (hne : key ≠ [])
    (hvalue : ∃ c t, value = c :: t ∧ isSpace c = false) :
    statements (fuel + 1) (key ++ (lit " = " ++ (value ++ newline :: r))) =
      ((parseValue (value ++ newline :: r)).map fun (v, r) =>
        ([(key, v)], r.dropWhile isSpace)).bind
        fun (entries, r) => (skipComment r).bind fun
          | [] => some entries
          | c :: r =>
            if c = newline then (statements fuel r).map fun rest => entries ++ rest else none := by
  obtain ⟨c, t, rfl⟩ := List.exists_cons_of_ne_nil hne
  have hc : isKeyChar c = true := List.all_eq_true.mp hkey c List.mem_cons_self
  have hspace : isSpace c = false := by
    simp only [isKeyChar, Bool.or_eq_true, Bool.and_eq_true, decide_eq_true_eq] at hc
    simp only [isSpace, Bool.or_eq_false_iff, decide_eq_false_iff_not]
    omega
  have hline := parseKeyValue_statement (r := r) hkey hvalue
  rw [List.cons_append] at hline ⊢
  rw [statements, List.dropWhile_cons_of_neg (by simp [hspace]), parseLine, if_pos hc, hline,
    Option.map_map]
  rfl

/-- **A statement is read** if its value is. -/
theorem statements_line (hkey : key.all isKeyChar = true) (hne : key ≠ [])
    (hvalue : ∃ c t, value = c :: t ∧ isSpace c = false)
    (hread : parseValue (value ++ newline :: r) = some (v, newline :: r)) :
    statements (fuel + 1) (key ++ (lit " = " ++ (value ++ newline :: r))) =
      (statements fuel r).map fun rest => (key, v) :: rest := by
  rw [statements_statement hkey hne hvalue, hread]
  rfl

/-- A document with a statement whose value is not read is refused. -/
theorem statements_line_none (hkey : key.all isKeyChar = true) (hne : key ≠ [])
    (hvalue : ∃ c t, value = c :: t ∧ isSpace c = false)
    (hread : parseValue (value ++ newline :: r) = none) :
    statements (fuel + 1) (key ++ (lit " = " ++ (value ++ newline :: r))) = none := by
  rw [statements_statement hkey hne hvalue, hread]
  rfl

end Line

/-- A text without carriage returns keeps its line ends. -/
theorem joinNewlines_of_forall {s : Str} (h : ∀ c ∈ s, c.val ≠ 13) : joinNewlines s = s := by
  induction s with
  | nil => rfl
  | cons c s ih =>
    obtain ⟨hc, hs⟩ := List.forall_mem_cons.mp h
    rw [joinNewlines, ih hs]
    split
    · rename_i hreturn _
      exact absurd hreturn hc
    · rfl

end Toml

end Onceproof

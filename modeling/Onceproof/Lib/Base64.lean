import Onceproof.Lib.Text

/-!
# Reading URL-safe base64

The decoder of the standard library with the alternative characters `-` and `_`, in its strict
mode: only characters of the alphabet, and padding that completes the last group of four.
`base64Decode_base64url` says that it reads what `base64url` renders, once the padding is back.
-/

namespace Onceproof

/-- The padding character. -/
abbrev equalsSign : CodePoint := 61

/-- The six bits of a character; the two characters that the alternative ones replace are
still accepted. -/
def base64Value (c : CodePoint) : Option ℕ :=
  if 65 ≤ c.val ∧ c.val ≤ 90 then some (c.val - 65)
  else if 97 ≤ c.val ∧ c.val ≤ 122 then some (c.val - 71)
  else if 48 ≤ c.val ∧ c.val ≤ 57 then some (c.val + 4)
  else if c.val = 45 ∨ c.val = 43 then some 62
  else if c.val = 95 ∨ c.val = 47 then some 63
  else none

/-- `base64.b64decode(s, altchars=b"-_", validate=True)`. -/
def base64Decode : Str → Option Bytes
  | [] => some []
  | a :: b :: c :: d :: r => do
    let w ← base64Value a
    let x ← base64Value b
    if c = equalsSign then
      if d = equalsSign ∧ r = [] then some [.ofNat (w * 4 + x / 16)] else none
    else
      let y ← base64Value c
      if d = equalsSign then
        if r = [] then some [.ofNat (w * 4 + x / 16), .ofNat (x % 16 * 16 + y / 4)] else none
      else
        let z ← base64Value d
        let rest ← base64Decode r
        some (.ofNat (w * 4 + x / 16) :: .ofNat (x % 16 * 16 + y / 4) ::
          .ofNat (y % 4 * 64 + z) :: rest)
  | _ => none

/-- `"=" * (-len(value) % 4)`. -/
def base64Padding (s : Str) : Str := List.replicate ((4 - s.length % 4) % 4) equalsSign

/-- The characters of the alphabet have the values they stand for. -/
theorem base64Value_base64Char (n : ℕ) : base64Value (base64Char n) = some (n % 64) := by
  have htable : ∀ m < 64, base64Value (base64Alphabet.getD m 0) = some m := by decide +kernel
  exact htable (n % 64) (Nat.mod_lt _ (by decide))

theorem base64Char_ne_equalsSign (n : ℕ) : base64Char n ≠ equalsSign := by
  intro h
  have hmem := base64Char_mem n
  rw [h] at hmem
  exact absurd hmem (by decide)

private theorem byte_of_bits {a : UInt8} {n : ℕ} (h : n = a.toNat) : UInt8.ofNat n = a := by
  rw [h, UInt8.ofNat_toNat]

/-- **Rendered bytes are read back.** -/
theorem base64Decode_base64url : ∀ b : Bytes,
    base64Decode (base64url b ++ base64Padding (base64url b)) = some b
  | [] => rfl
  | [a] => by
    have ha := a.toNat_lt
    have hbits : a.toNat / 4 % 64 * 4 + a.toNat % 4 * 16 % 64 / 16 = a.toNat := by omega
    simp only [base64url, base64Padding, List.length_cons, List.length_nil, Nat.reduceAdd,
      Nat.reduceMod, Nat.reduceSub, List.replicate_succ, List.replicate_zero, List.cons_append,
      List.nil_append, base64Decode, base64Value_base64Char, Option.bind_eq_bind,
      Option.bind_some, if_true, and_self, byte_of_bits hbits]
  | [a, b] => by
    have ha := a.toNat_lt
    have hb := b.toNat_lt
    have hfirst : a.toNat / 4 % 64 * 4 + (a.toNat % 4 * 16 + b.toNat / 16) % 64 / 16 =
        a.toNat := by omega
    have hsecond : (a.toNat % 4 * 16 + b.toNat / 16) % 64 % 16 * 16 +
        b.toNat % 16 * 4 % 64 / 4 = b.toNat := by omega
    simp only [base64url, base64Padding, List.length_cons, List.length_nil, Nat.reduceAdd,
      Nat.reduceMod, Nat.reduceSub, List.replicate_succ, List.replicate_zero, List.cons_append,
      List.nil_append, base64Decode, base64Value_base64Char, Option.bind_eq_bind,
      Option.bind_some, if_true, base64Char_ne_equalsSign, if_false, byte_of_bits hfirst,
      byte_of_bits hsecond]
  | a :: b :: c :: bs => by
    have ha := a.toNat_lt
    have hb := b.toNat_lt
    have hc := c.toNat_lt
    have ih := base64Decode_base64url bs
    have hpadding : base64Padding (base64url (a :: b :: c :: bs)) =
        base64Padding (base64url bs) := by
      simp only [base64Padding, base64url, List.length_cons]
      congr 1
      omega
    have hfirst : a.toNat / 4 % 64 * 4 + (a.toNat % 4 * 16 + b.toNat / 16) % 64 / 16 =
        a.toNat := by omega
    have hsecond : (a.toNat % 4 * 16 + b.toNat / 16) % 64 % 16 * 16 +
        (b.toNat % 16 * 4 + c.toNat / 64) % 64 / 4 = b.toNat := by omega
    have hthird : (b.toNat % 16 * 4 + c.toNat / 64) % 64 % 4 * 64 + c.toNat % 64 = c.toNat := by
      omega
    rw [hpadding, base64url]
    simp only [List.cons_append, base64Decode, base64Value_base64Char, Option.bind_eq_bind,
      Option.bind_some, base64Char_ne_equalsSign, if_false, ih, byte_of_bits hfirst,
      byte_of_bits hsecond, byte_of_bits hthird]

end Onceproof

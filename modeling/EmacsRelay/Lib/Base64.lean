import Mathlib.Data.List.Basic

set_option autoImplicit false

/- Bytes as base64, and back. -/

def base64Digit (n : Nat) : Char :=
  if n < 26 then .ofNat (n + 65)
  else if n < 52 then .ofNat (n + 71)
  else if n < 62 then .ofNat (n - 4)
  else if n = 62 then '+'
  else '/'

/-- The standard alphabet with padding, without line breaks. -/
def base64Encode : List UInt8 → List Char
  | [] => []
  | [a] => [base64Digit (a.toNat / 4), base64Digit (a.toNat % 4 * 16), '=', '=']
  | [a, b] =>
      [base64Digit (a.toNat / 4), base64Digit (a.toNat % 4 * 16 + b.toNat / 16),
        base64Digit (b.toNat % 16 * 4), '=']
  | a :: b :: c :: rest =>
      base64Digit (a.toNat / 4) :: base64Digit (a.toNat % 4 * 16 + b.toNat / 16) ::
        base64Digit (b.toNat % 16 * 4 + c.toNat / 64) :: base64Digit (c.toNat % 64) ::
        base64Encode rest

/-- The number that a character of the standard alphabet stands for. -/
def base64Value (c : Char) : Option Nat :=
  let code := c.toNat
  if 65 ≤ code ∧ code ≤ 90 then some (code - 65)
  else if 97 ≤ code ∧ code ≤ 122 then some (code - 71)
  else if 48 ≤ code ∧ code ≤ 57 then some (code + 4)
  else if c = '+' then some 62
  else if c = '/' then some 63
  else none

/-- The bytes of one group of four characters. Bits beyond the last byte are zero. -/
def base64Group (a b c d : Char) : Option (List UInt8) := do
  let x ← base64Value a
  let y ← base64Value b
  if c = '=' ∧ d = '=' then
    if y % 16 = 0 then some [.ofNat (x * 4 + y / 16)] else none
  else
    let z ← base64Value c
    if d = '=' then
      if z % 4 = 0 then some [.ofNat (x * 4 + y / 16), .ofNat (y % 16 * 16 + z / 4)] else none
    else
      let w ← base64Value d
      some [.ofNat (x * 4 + y / 16), .ofNat (y % 16 * 16 + z / 4), .ofNat (z % 4 * 64 + w)]

/-- The decoder of the standard alphabet, with padding in the last group. -/
def base64Decode : List Char → Option (List UInt8)
  | [] => some []
  | a :: b :: c :: d :: rest => do
      let bytes ← base64Group a b c d
      let more ← base64Decode rest
      if bytes.length = 3 ∨ rest = [] then some (bytes ++ more) else none
  | _ => none

theorem base64Value_digit {n : Nat} (small : n < 64) :
    base64Value (base64Digit n) = some n := by
  have all : ∀ m : Fin 64, base64Value (base64Digit m) = some m.val := by decide
  exact all ⟨n, small⟩

theorem base64Digit_ne_padding {n : Nat} (small : n < 64) : base64Digit n ≠ '=' := by
  have all : ∀ m : Fin 64, base64Digit m ≠ '=' := by decide
  exact all ⟨n, small⟩

theorem base64Group_one (a : UInt8) :
    base64Group (base64Digit (a.toNat / 4)) (base64Digit (a.toNat % 4 * 16)) '=' '=' = some [a] := by
  have bound := a.toNat_lt
  simp only [base64Group, base64Value_digit (show a.toNat / 4 < 64 by omega),
    base64Value_digit (show a.toNat % 4 * 16 < 64 by omega), Option.bind_eq_bind, Option.bind_some,
    and_self, if_true, show a.toNat % 4 * 16 % 16 = 0 by omega,
    show a.toNat / 4 * 4 + a.toNat % 4 * 16 / 16 = a.toNat by omega, UInt8.ofNat_toNat]

theorem base64Group_two (a b : UInt8) :
    base64Group (base64Digit (a.toNat / 4)) (base64Digit (a.toNat % 4 * 16 + b.toNat / 16))
      (base64Digit (b.toNat % 16 * 4)) '=' = some [a, b] := by
  have boundA := a.toNat_lt
  have boundB := b.toNat_lt
  have third : b.toNat % 16 * 4 < 64 := by omega
  simp only [base64Group, base64Value_digit (show a.toNat / 4 < 64 by omega),
    base64Value_digit (show a.toNat % 4 * 16 + b.toNat / 16 < 64 by omega), base64Value_digit third,
    base64Digit_ne_padding third, Option.bind_eq_bind, Option.bind_some, false_and, if_false, if_true,
    show b.toNat % 16 * 4 % 4 = 0 by omega,
    show a.toNat / 4 * 4 + (a.toNat % 4 * 16 + b.toNat / 16) / 16 = a.toNat by omega,
    show (a.toNat % 4 * 16 + b.toNat / 16) % 16 * 16 + b.toNat % 16 * 4 / 4 = b.toNat by omega,
    UInt8.ofNat_toNat]

theorem base64Group_three (a b c : UInt8) :
    base64Group (base64Digit (a.toNat / 4)) (base64Digit (a.toNat % 4 * 16 + b.toNat / 16))
      (base64Digit (b.toNat % 16 * 4 + c.toNat / 64)) (base64Digit (c.toNat % 64)) =
      some [a, b, c] := by
  have boundA := a.toNat_lt
  have boundB := b.toNat_lt
  have boundC := c.toNat_lt
  have third : b.toNat % 16 * 4 + c.toNat / 64 < 64 := by omega
  have fourth : c.toNat % 64 < 64 := by omega
  simp only [base64Group, base64Value_digit (show a.toNat / 4 < 64 by omega),
    base64Value_digit (show a.toNat % 4 * 16 + b.toNat / 16 < 64 by omega), base64Value_digit third,
    base64Value_digit fourth, base64Digit_ne_padding third, base64Digit_ne_padding fourth,
    Option.bind_eq_bind, Option.bind_some, false_and, if_false,
    show a.toNat / 4 * 4 + (a.toNat % 4 * 16 + b.toNat / 16) / 16 = a.toNat by omega,
    show (a.toNat % 4 * 16 + b.toNat / 16) % 16 * 16 + (b.toNat % 16 * 4 + c.toNat / 64) / 4 =
      b.toNat by omega,
    show (b.toNat % 16 * 4 + c.toNat / 64) % 4 * 64 + c.toNat % 64 = c.toNat by omega,
    UInt8.ofNat_toNat]

theorem base64Decode_encode (bytes : List UInt8) : base64Decode (base64Encode bytes) = some bytes := by
  induction bytes using base64Encode.induct with
  | case1 => rfl
  | case2 a => simp [base64Encode, base64Decode, base64Group_one]
  | case3 a b => simp [base64Encode, base64Decode, base64Group_two]
  | case4 a b c rest ih => simp [base64Encode, base64Decode, base64Group_three, ih]

theorem length_base64Encode (bytes : List UInt8) :
    (base64Encode bytes).length = 4 * ((bytes.length + 2) / 3) := by
  fun_induction base64Encode bytes with
  | case1 => rfl
  | case2 a => simp
  | case3 a b => simp
  | case4 a b c rest ih =>
      simp only [List.length_cons, ih]
      omega

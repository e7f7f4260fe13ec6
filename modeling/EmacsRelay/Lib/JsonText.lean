import EmacsRelay.Lib.Json

set_option autoImplicit false

/- JSON values as compact text, and its length in UTF-8. -/

/-- Characters as UTF-8. -/
def utf8Bytes (text : List Char) : List UInt8 := text.flatMap String.utf8EncodeChar

@[simp] theorem utf8Bytes_append (one two : List Char) :
    utf8Bytes (one ++ two) = utf8Bytes one ++ utf8Bytes two := by
  simp [utf8Bytes]

namespace Json

def doubleQuote : Char := Char.ofNat 34

def backslash : Char := Char.ofNat 92

/-- The letter of a control character that has an escape of its own. -/
def shortEscape (code : Nat) : Option Char :=
  if code = 8 then some 'b'
  else if code = 9 then some 't'
  else if code = 10 then some 'n'
  else if code = 12 then some 'f'
  else if code = 13 then some 'r'
  else none

def escapeChar (c : Char) : List Char :=
  if c = doubleQuote ∨ c = backslash then [backslash, c]
  else if c.toNat < 32 then
    match shortEscape c.toNat with
    | some letter => [backslash, letter]
    | none =>
        [backslash, 'u', '0', '0', Nat.digitChar (c.toNat / 16), Nat.digitChar (c.toNat % 16)]
  else [c]

def quote (text : List Char) : List Char :=
  doubleQuote :: (text.flatMap escapeChar ++ [doubleQuote])

/-- A text of plain letters between its quotes, for keys. -/
def key (name : String) : List Char := quote name.toList ++ [':']

mutual

/-- Compact text, without a blank. -/
def text : Json → List Char
  | .null => "null".toList
  | .bool b => (if b then "true" else "false").toList
  | .int n => (toString n).toList
  | .float text => text.toList
  | .str s => quote s.toList
  | .arr items => '[' :: (textItems items ++ [']'])
  | .obj fields => Char.ofNat 123 :: (textFields fields ++ [Char.ofNat 125])

def textItems : List Json → List Char
  | [] => []
  | [item] => item.text
  | item :: items => item.text ++ ',' :: textItems items

def textFields : List (String × Json) → List Char
  | [] => []
  | [(name, value)] => key name ++ value.text
  | (name, value) :: fields => key name ++ (value.text ++ ',' :: textFields fields)

end

/-- The length of the text in bytes. -/
def size (value : Json) : Nat := (utf8Bytes value.text).length

def quotedSize (text : List Char) : Nat := (utf8Bytes (quote text)).length

def decimals (n : Int) : Nat := (utf8Bytes (toString n).toList).length

section Sizes

theorem length_utf8Bytes_cons (c : Char) (text : List Char) :
    (utf8Bytes (c :: text)).length = c.utf8Size + (utf8Bytes text).length := by
  simp [utf8Bytes]

/-- A sequence and the commas in it. -/
theorem length_textItems (items : List Json) :
    (utf8Bytes (textItems items)).length = (items.map size).sum + (items.length - 1) := by
  induction items with
  | nil => rfl
  | cons item items ih =>
      cases items with
      | nil => simp [textItems, size]
      | cons next items =>
          have comma : ','.utf8Size = 1 := by decide
          rw [textItems, utf8Bytes_append, List.length_append, length_utf8Bytes_cons, comma, ih]
          · simp only [List.map_cons, List.sum_cons, List.length_cons, size]
            omega
          · simp

theorem size_arr (items : List Json) :
    (Json.arr items).size = 2 + (items.map size).sum + (items.length - 1) := by
  have bracket : '['.utf8Size = 1 ∧ (utf8Bytes [']']).length = 1 := by decide
  rw [size, text, length_utf8Bytes_cons, utf8Bytes_append, List.length_append, length_textItems,
    bracket.1, bracket.2]
  omega

/-- A key with its colon. -/
def keySize (name : String) : Nat := (utf8Bytes (key name)).length

theorem length_textFields (fields : List (String × Json)) :
    (utf8Bytes (textFields fields)).length =
      (fields.map fun field => keySize field.1 + field.2.size).sum + (fields.length - 1) := by
  induction fields with
  | nil => rfl
  | cons field fields ih =>
      cases fields with
      | nil => simp [textFields, keySize, size]
      | cons next fields =>
          have comma : ','.utf8Size = 1 := by decide
          rw [textFields, utf8Bytes_append, List.length_append, utf8Bytes_append, List.length_append,
            length_utf8Bytes_cons, comma, ih]
          · simp only [List.map_cons, List.sum_cons, List.length_cons, size, keySize]
            omega
          · simp

theorem size_obj (fields : List (String × Json)) :
    (Json.obj fields).size =
      2 + (fields.map fun field => keySize field.1 + field.2.size).sum + (fields.length - 1) := by
  have brace : (Char.ofNat 123).utf8Size = 1 ∧ (utf8Bytes [Char.ofNat 125]).length = 1 := by decide
  rw [size, text, length_utf8Bytes_cons, utf8Bytes_append, List.length_append, length_textFields,
    brace.1, brace.2]
  omega

@[simp] theorem size_null : Json.null.size = 4 := by decide

@[simp] theorem size_bool (b : Bool) : (Json.bool b).size = if b then 4 else 5 := by
  cases b <;> decide

@[simp] theorem size_int (n : Int) : (Json.int n).size = decimals n := rfl

@[simp] theorem size_str (s : String) : (Json.str s).size = quotedSize s.toList := rfl

/-- Characters that all take so many bytes. -/
theorem quotedSize_replicate (c : Char) (count : Nat) :
    quotedSize (List.replicate count c) = 2 + count * (utf8Bytes (escapeChar c)).length := by
  have escaped : (utf8Bytes ((List.replicate count c).flatMap escapeChar)).length =
      count * (utf8Bytes (escapeChar c)).length := by
    induction count with
    | zero => simp [utf8Bytes]
    | succ count ih =>
        rw [List.replicate_succ, List.flatMap_cons, utf8Bytes_append, List.length_append, ih,
          Nat.succ_mul, Nat.add_comm]
  have quotes : doubleQuote.utf8Size = 1 ∧ (utf8Bytes [doubleQuote]).length = 1 := by decide
  rw [quotedSize, quote, length_utf8Bytes_cons, utf8Bytes_append, List.length_append, escaped,
    quotes.1, quotes.2]
  omega

end Sizes

section Bounds

theorem length_utf8Bytes_le {text : List Char} {most : Nat} (each : ∀ c ∈ text, c.utf8Size ≤ most) :
    (utf8Bytes text).length ≤ most * text.length := by
  induction text with
  | nil => exact Nat.zero_le _
  | cons c text ih =>
      have first := each c List.mem_cons_self
      have rest := ih fun other later => each other (List.mem_cons_of_mem _ later)
      rw [length_utf8Bytes_cons, List.length_cons, Nat.mul_succ]
      omega

/-- A text whose characters take so many bytes at most when they are escaped. -/
theorem quotedSize_le {text : List Char} {most : Nat}
    (each : ∀ c ∈ text, (utf8Bytes (escapeChar c)).length ≤ most) :
    quotedSize text ≤ 2 + most * text.length := by
  have escaped : (utf8Bytes (text.flatMap escapeChar)).length ≤ most * text.length := by
    induction text with
    | nil => exact Nat.zero_le _
    | cons c text ih =>
        have first := each c List.mem_cons_self
        have rest := ih fun other later => each other (List.mem_cons_of_mem _ later)
        rw [List.flatMap_cons, utf8Bytes_append, List.length_append, List.length_cons, Nat.mul_succ]
        omega
  have quotes : doubleQuote.utf8Size = 1 ∧ (utf8Bytes [doubleQuote]).length = 1 := by decide
  rw [quotedSize, quote, length_utf8Bytes_cons, utf8Bytes_append, List.length_append, quotes.1, quotes.2]
  omega

/-- No character takes more than an escape of a control character. -/
theorem length_escapeChar_le (c : Char) : (utf8Bytes (escapeChar c)).length ≤ 6 := by
  have marks : (utf8Bytes [backslash, doubleQuote]).length = 2 ∧
      (utf8Bytes [backslash, backslash]).length = 2 := by decide
  have control : ∀ n : Fin 32, (utf8Bytes (escapeChar (Char.ofNat n))).length ≤ 6 := by decide
  by_cases mark : c = doubleQuote ∨ c = backslash
  · rw [escapeChar, if_pos mark]
    rcases mark with rfl | rfl
    · omega
    · omega
  · by_cases low : c.toNat < 32
    · have here := control ⟨c.toNat, low⟩
      rwa [Char.ofNat_toNat] at here
    · rw [escapeChar, if_neg mark, if_neg low, length_utf8Bytes_cons]
      have four := c.utf8Size_le_four
      exact Nat.le_trans four (by decide)

theorem utf8Size_of_isDigit {c : Char} (digit : c.isDigit = true) : c.utf8Size ≤ 1 := by
  have bounds : 48 ≤ c.val ∧ c.val ≤ 57 := by simpa [Char.isDigit] using digit
  have ascii : c.val ≤ 127 := Nat.le_trans bounds.2 (by decide)
  exact Nat.le_of_eq (Char.utf8Size_eq_one_iff.mpr ascii)

/-- The digits of a number, one byte each. -/
theorem length_digits_le {n count : Nat} (some_digit : 0 < count) (small : n < 10 ^ count) :
    (utf8Bytes (toString n).toList).length ≤ count := by
  have digits : (toString n).toList = Nat.toDigits 10 n := Nat.toList_repr
  have short := (Nat.length_toDigits_le_iff (by decide) some_digit).mpr small
  have bytes : (utf8Bytes (Nat.toDigits 10 n)).length ≤ 1 * (Nat.toDigits 10 n).length :=
    length_utf8Bytes_le fun c member =>
      utf8Size_of_isDigit (Nat.isDigit_of_mem_toDigits (by decide) (by decide) member)
  rw [digits]
  omega

/-- The decimals of a number of 64 bits, signed or not. -/
theorem decimals_le {n : Int} (low : -9223372036854775808 ≤ n) (high : n < 18446744073709551616) :
    decimals n ≤ 20 := by
  unfold decimals
  cases n with
  | ofNat n =>
      have same : Int.ofNat n = (n : Int) := rfl
      have small : n < 10 ^ 20 := by omega
      exact length_digits_le (by decide) small
  | negSucc n =>
      have small : n + 1 < 10 ^ 19 := by omega
      have sign : (toString (Int.negSucc n)).toList = '-' :: (toString (n + 1)).toList := by
        show (Int.repr (Int.negSucc n)).toList = _
        simp [Int.repr]
      have dash : '-'.utf8Size = 1 := by decide
      have rest := length_digits_le (by decide) small
      rw [sign, length_utf8Bytes_cons, dash]
      omega

end Bounds
end Json

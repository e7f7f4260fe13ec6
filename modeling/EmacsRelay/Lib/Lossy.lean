import Mathlib.Data.List.Basic

set_option autoImplicit false

/- Bytes read as UTF-8, with what is no UTF-8 replaced: each longest beginning of a character that
does not go on, and each other byte, by one replacement character. -/
namespace Lossy

/-- A character begun: how many bytes it lacks, the range of the next, and the bits so far. -/
structure Begun where
  owed : Nat
  low : Nat
  high : Nat
  value : Nat

inductive First where
  | whole (c : Char)
  | begun (begun : Begun)
  | invalid

def replacement : Char := Char.ofNat 0xfffd

/-- What a byte is where a character may start. -/
def first (b : Nat) : First :=
  if b < 0x80 then .whole (Char.ofNat b)
  else if b < 0xc2 then .invalid
  else if b < 0xe0 then .begun ⟨1, 0x80, 0xbf, b - 0xc0⟩
  else if b < 0xf0 then
    .begun ⟨2, if b = 0xe0 then 0xa0 else 0x80, if b = 0xed then 0x9f else 0xbf, b - 0xe0⟩
  else if b < 0xf5 then
    .begun ⟨3, if b = 0xf0 then 0x90 else 0x80, if b = 0xf4 then 0x8f else 0xbf, b - 0xf0⟩
  else .invalid

def begin (b : Nat) : List Char × Option Begun :=
  match first b with
  | .whole c => ([c], none)
  | .begun begun => ([], some begun)
  | .invalid => ([replacement], none)

/-- The characters that a byte completes, and the character that is begun. -/
def step (s : Option Begun) (b : Nat) : List Char × Option Begun :=
  match s with
  | none => begin b
  | some begun =>
      if begun.low ≤ b ∧ b ≤ begun.high then
        let value := begun.value * 64 + (b - 0x80)
        if begun.owed = 1 then ([Char.ofNat value], none)
        else ([], some ⟨begun.owed - 1, 0x80, 0xbf, value⟩)
      else
        let next := begin b
        (replacement :: next.1, next.2)

def decodeFrom (s : Option Begun) : List UInt8 → List Char
  | [] => if s.isSome then [replacement] else []
  | b :: rest => (step s b.toNat).1 ++ decodeFrom (step s b.toNat).2 rest

/-- The characters that bytes stand for. -/
def decode (bytes : List UInt8) : List Char := decodeFrom none bytes

theorem decode_ascii {bytes : List UInt8} (ascii : ∀ b ∈ bytes, b.toNat < 0x80) :
    decode bytes = bytes.map fun b => Char.ofNat b.toNat := by
  unfold decode
  induction bytes with
  | nil => rfl
  | cons b rest ih =>
      have here : step none b.toNat = ([Char.ofNat b.toNat], none) := by
        simp only [step, begin, first, ascii b List.mem_cons_self, if_true]
      rw [decodeFrom, here, ih fun other later => ascii other (List.mem_cons_of_mem _ later)]
      rfl

example : decode [0x61, 0xe2, 0x82, 0xac, 0xe2, 0x82, 0x62, 0xff] =
    [Char.ofNat 0x61, Char.ofNat 0x20ac, replacement, Char.ofNat 0x62, replacement] := by decide

end Lossy

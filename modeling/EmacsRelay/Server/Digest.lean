import EmacsRelay.Server.Revision
import Mathlib.Tactic.IntervalCases

set_option autoImplicit false

/- `sha256` of `server/src/revisions/types.rs`, and the shape of its result. -/
namespace EmacsRelay

namespace Digest

/-- `INITIAL` and the eight chaining words. -/
structure Words where
  a : UInt32
  b : UInt32
  c : UInt32
  d : UInt32
  e : UInt32
  f : UInt32
  g : UInt32
  h : UInt32
deriving DecidableEq, Repr

def initial : Words :=
  ⟨0x6a09e667, 0xbb67ae85, 0x3c6ef372, 0xa54ff53a, 0x510e527f, 0x9b05688c, 0x1f83d9ab, 0x5be0cd19⟩

/-- `K`. -/
def constants : List UInt32 :=
  [0x428a2f98, 0x71374491, 0xb5c0fbcf, 0xe9b5dba5, 0x3956c25b, 0x59f111f1, 0x923f82a4, 0xab1c5ed5,
    0xd807aa98, 0x12835b01, 0x243185be, 0x550c7dc3, 0x72be5d74, 0x80deb1fe, 0x9bdc06a7, 0xc19bf174,
    0xe49b69c1, 0xefbe4786, 0x0fc19dc6, 0x240ca1cc, 0x2de92c6f, 0x4a7484aa, 0x5cb0a9dc, 0x76f988da,
    0x983e5152, 0xa831c66d, 0xb00327c8, 0xbf597fc7, 0xc6e00bf3, 0xd5a79147, 0x06ca6351, 0x14292967,
    0x27b70a85, 0x2e1b2138, 0x4d2c6dfc, 0x53380d13, 0x650a7354, 0x766a0abb, 0x81c2c92e, 0x92722c85,
    0xa2bfe8a1, 0xa81a664b, 0xc24b8b70, 0xc76c51a3, 0xd192e819, 0xd6990624, 0xf40e3585, 0x106aa070,
    0x19a4c116, 0x1e376c08, 0x2748774c, 0x34b0bcb5, 0x391c0cb3, 0x4ed8aa4a, 0x5b9cca4f, 0x682e6ff3,
    0x748f82ee, 0x78a5636f, 0x84c87814, 0x8cc70208, 0x90befffa, 0xa4506ceb, 0xbef9a3f7, 0xc67178f2]

def rotateRight (x n : UInt32) : UInt32 := (x >>> n) ||| (x <<< (32 - n))

def fromBeBytes (bytes : Bytes) : UInt32 :=
  bytes.foldl (fun acc b => (acc <<< 8) ||| b.toUInt32) 0

/-- `chunks_exact`: the first `count` chunks of `size` bytes. -/
def chunksExact (size : Nat) : Nat → Bytes → List Bytes
  | 0, _ => []
  | count + 1, bytes => bytes.take size :: chunksExact size count (bytes.drop size)

/-- The message with `0x80`, zeros up to 8 bytes before a multiple of 64, and its bit length. -/
def padded (bytes : Bytes) : Bytes :=
  let zeros := (64 - (bytes.length + 1 + 8) % 64) % 64
  let bitLen := bytes.length * 8 % 2 ^ 64
  bytes ++ [0x80] ++ List.replicate zeros 0 ++
    (List.range 8).map fun i => UInt8.ofNat (bitLen / 256 ^ (7 - i))

/-- Words 16 to 63 of a chunk, each from the sixteen before it. -/
def schedule : Nat → List UInt32 → List UInt32
  | 0, words => words
  | count + 1, words =>
      let word (back : Nat) : UInt32 := words.getD (words.length - back) 0
      let s0 := rotateRight (word 15) 7 ^^^ rotateRight (word 15) 18 ^^^ (word 15 >>> 3)
      let s1 := rotateRight (word 2) 17 ^^^ rotateRight (word 2) 19 ^^^ (word 2 >>> 10)
      schedule count (words ++ [word 16 + s0 + word 7 + s1])

def round (r : Words) (constant word : UInt32) : Words :=
  let s1 := rotateRight r.e 6 ^^^ rotateRight r.e 11 ^^^ rotateRight r.e 25
  let choose := (r.e &&& r.f) ^^^ ((~~~ r.e) &&& r.g)
  let temp1 := r.h + s1 + choose + constant + word
  let s0 := rotateRight r.a 2 ^^^ rotateRight r.a 13 ^^^ rotateRight r.a 22
  let majority := (r.a &&& r.b) ^^^ (r.a &&& r.c) ^^^ (r.b &&& r.c)
  let temp2 := s0 + majority
  ⟨temp1 + temp2, r.a, r.b, r.c, r.d + temp1, r.e, r.f, r.g⟩

def compress (hash : Words) (chunk : Bytes) : Words :=
  let words := schedule 48 ((chunksExact 4 16 chunk).map fromBeBytes)
  let out := (constants.zip words).foldl (fun r pair => round r pair.1 pair.2) hash
  ⟨hash.a + out.a, hash.b + out.b, hash.c + out.c, hash.d + out.d, hash.e + out.e,
    hash.f + out.f, hash.g + out.g, hash.h + out.h⟩

def hexDigit (n : Nat) : Char :=
  if n < 10 then Char.ofNat ('0'.toNat + n) else Char.ofNat ('a'.toNat + (n - 10))

/-- `format!("{word:08x}")`. -/
def hex (word : UInt32) : List Char :=
  (List.range 8).map fun i => hexDigit (word.toNat / 16 ^ (7 - i) % 16)

def Words.text (w : Words) : List Char :=
  hex w.a ++ hex w.b ++ hex w.c ++ hex w.d ++ hex w.e ++ hex w.f ++ hex w.g ++ hex w.h

end Digest

open Digest in
def sha256 (bytes : Bytes) : String :=
  let message := padded bytes
  String.ofList ((chunksExact 64 (message.length / 64) message).foldl compress initial).text

namespace Digest

theorem isHexDigit_hexDigit {n : Nat} (small : n < 16) : isHexDigit (hexDigit n) = true := by
  interval_cases n <;> decide

theorem length_hex (word : UInt32) : (hex word).length = 8 := by
  simp [hex]

theorem isHexDigit_of_mem_hex {word : UInt32} {c : Char} (member : c ∈ hex word) :
    isHexDigit c = true := by
  obtain ⟨i, _, same⟩ := List.mem_map.mp member
  rw [← same]
  exact isHexDigit_hexDigit (Nat.mod_lt _ (by decide))

theorem length_text (w : Words) : w.text.length = 64 := by
  simp only [Words.text, List.length_append, length_hex]

theorem isHexDigit_of_mem_text {w : Words} {c : Char} (member : c ∈ w.text) :
    isHexDigit c = true := by
  simp only [Words.text, List.mem_append] at member
  rcases member with ((((((((a | b) | c) | d) | e) | f) | g) | h)) <;>
    exact isHexDigit_of_mem_hex (by assumption)

end Digest

/-- A digest has the form `is_valid_file_revision` asks for. -/
theorem sha256_wellFormed (bytes : Bytes) :
    (sha256 bytes).toList.length = 64 ∧ (sha256 bytes).toList.all isHexDigit = true := by
  simp only [sha256, String.toList_ofList, List.all_eq_true]
  exact ⟨Digest.length_text _, fun c member => Digest.isHexDigit_of_mem_text member⟩

example : sha256 [97, 98, 99] =
    "ba7816bf8f01cfea414140de5dae2223b00361a396177a9cb410ff61f20015ad" := by decide +kernel

end EmacsRelay

import Mathlib.Data.Nat.Nth
import Mathlib.Data.Nat.NthRoot.Defs
import Mathlib.Data.Nat.Prime.Defs
import Mathlib.Tactic.Ring

set_option autoImplicit false

/- The Secure Hash Algorithm SHA-256 as the Secure Hash Standard defines it, on messages of bits. -/
namespace Fips180

abbrev Word := BitVec 32

/-- The lowest bits of a number, the most significant first. -/
def bits (width n : Nat) : List Bool := (List.range width).map fun i => n.testBit (width - 1 - i)

/-- The number that bits stand for, the most significant first. -/
def value (bits : List Bool) : Nat := bits.foldl (fun n b => 2 * n + b.toNat) 0

def choose (x y z : Word) : Word := (x &&& y) ^^^ (~~~x &&& z)

def majority (x y z : Word) : Word := (x &&& y) ^^^ (x &&& z) ^^^ (y &&& z)

def bigSigma0 (x : Word) : Word := x.rotateRight 2 ^^^ x.rotateRight 13 ^^^ x.rotateRight 22

def bigSigma1 (x : Word) : Word := x.rotateRight 6 ^^^ x.rotateRight 11 ^^^ x.rotateRight 25

def smallSigma0 (x : Word) : Word := x.rotateRight 7 ^^^ x.rotateRight 18 ^^^ (x >>> 3)

def smallSigma1 (x : Word) : Word := x.rotateRight 17 ^^^ x.rotateRight 19 ^^^ (x >>> 10)

/-- The first 32 bits of the fractional part of the root of a prime, counted from 0. -/
noncomputable def fraction (degree t : Nat) : Word :=
  BitVec.ofNat 32 (Nat.nthRoot degree (Nat.nth Nat.Prime t * 2 ^ (32 * degree)))

noncomputable def constant (t : Nat) : Word := fraction 3 t

/-- The hash value, and the working variables. -/
structure Vars where
  a : Word
  b : Word
  c : Word
  d : Word
  e : Word
  f : Word
  g : Word
  h : Word

noncomputable def initial : Vars :=
  ⟨fraction 2 0, fraction 2 1, fraction 2 2, fraction 2 3, fraction 2 4, fraction 2 5, fraction 2 6,
    fraction 2 7⟩

theorem exists_zeroBits (l : Nat) : ∃ k, (l + 1 + k) % 512 = 448 :=
  ⟨(447 + 512 - l % 512) % 512, by omega⟩

/-- The least number of zeros after which a message of `l` bits lacks 64 bits of whole blocks. -/
def zeroBits (l : Nat) : Nat := Nat.find (exists_zeroBits l)

def pad (message : List Bool) : List Bool :=
  message ++ true :: List.replicate (zeroBits message.length) false ++ bits 64 message.length

/-- Word `j` of block `i`. -/
def blockWord (padded : List Bool) (i j : Nat) : Word :=
  BitVec.ofNat 32 (value ((padded.drop (512 * i + 32 * j)).take 32))

/-- The message schedule of a block. -/
def schedule (block : Nat → Word) (t : Nat) : Word :=
  if t < 16 then block t
  else
    smallSigma1 (schedule block (t - 2)) + schedule block (t - 7) +
      smallSigma0 (schedule block (t - 15)) + schedule block (t - 16)
termination_by t
decreasing_by all_goals omega

def round (r : Vars) (constant word : Word) : Vars :=
  let t1 := r.h + bigSigma1 r.e + choose r.e r.f r.g + constant + word
  let t2 := bigSigma0 r.a + majority r.a r.b r.c
  ⟨t1 + t2, r.a, r.b, r.c, r.d + t1, r.e, r.f, r.g⟩

def Vars.add (x y : Vars) : Vars :=
  ⟨x.a + y.a, x.b + y.b, x.c + y.c, x.d + y.d, x.e + y.e, x.f + y.f, x.g + y.g, x.h + y.h⟩

noncomputable def compress (hash : Vars) (block : Nat → Word) : Vars :=
  hash.add ((List.range 64).foldl (fun r t => round r (constant t) (schedule block t)) hash)

/-- The hash value of a message. -/
noncomputable def hash (message : List Bool) : Vars :=
  let padded := pad message
  (List.range (padded.length / 512)).foldl (fun r i => compress r (blockWord padded i)) initial

def Vars.words (r : Vars) : List Word := [r.a, r.b, r.c, r.d, r.e, r.f, r.g, r.h]

/-- The message digest. -/
noncomputable def sha256 (message : List Bool) : List Bool :=
  (hash message).words.flatMap fun word => bits 32 word.toNat

/-- Bits in hexadecimal digits, four by four. -/
def hexText (bits : List Bool) : List Char :=
  (List.range (bits.length / 4)).map fun i => Nat.digitChar (value ((bits.drop (4 * i)).take 4))

section Bits

@[simp] theorem length_bits (width n : Nat) : (bits width n).length = width := by
  simp [bits]

theorem bits_add (high low n : Nat) :
    bits (high + low) n = bits high (n / 2 ^ low) ++ bits low n := by
  unfold bits
  rw [List.range_add, List.map_append, List.map_map]
  congr 1
  · apply List.map_congr_left
    intro i inside
    have small := List.mem_range.mp inside
    rw [Nat.testBit_div_two_pow]
    congr 1
    omega
  · apply List.map_congr_left
    intro i _
    simp only [Function.comp_apply]
    congr 1
    omega

theorem take_bits (high low n : Nat) : (bits (high + low) n).take high = bits high (n / 2 ^ low) := by
  rw [bits_add, List.take_left' (length_bits high _)]

theorem drop_bits (high low n : Nat) : (bits (high + low) n).drop high = bits low n := by
  rw [bits_add, List.drop_left' (length_bits high _)]

theorem bits_mod (width n : Nat) : bits width (n % 2 ^ width) = bits width n := by
  apply List.map_congr_left
  intro i inside
  have small := List.mem_range.mp inside
  rw [Nat.testBit_mod_two_pow]
  simp only [show width - 1 - i < width by omega, decide_true, Bool.true_and]

theorem foldl_value (tail : List Bool) (n : Nat) :
    tail.foldl (fun n b => 2 * n + b.toNat) n = n * 2 ^ tail.length + value tail := by
  induction tail generalizing n with
  | nil => simp [value]
  | cons b tail ih =>
      have here : value (b :: tail) = b.toNat * 2 ^ tail.length + value tail := by
        unfold value
        rw [List.foldl_cons, Nat.mul_zero, Nat.zero_add, ih]
        rfl
      rw [List.foldl_cons, ih, here, List.length_cons, Nat.pow_succ]
      ring

theorem value_append (head tail : List Bool) :
    value (head ++ tail) = value head * 2 ^ tail.length + value tail := by
  unfold value
  rw [List.foldl_append, foldl_value]
  rfl

theorem value_bits (width n : Nat) : value (bits width n) = n % 2 ^ width := by
  induction width with
  | zero => simp [bits, value, Nat.mod_one]
  | succ width ih =>
      have first : value (bits 1 (n / 2 ^ width)) = n / 2 ^ width % 2 := by
        rcases Nat.mod_two_eq_zero_or_one (n / 2 ^ width) with even | odd
        · simp [bits, value, even]
        · simp [bits, value, odd]
      rw [Nat.add_comm width 1, bits_add, value_append, ih, first, length_bits, Nat.pow_add,
        Nat.mul_comm (2 ^ 1), Nat.mod_mul, Nat.pow_one]
      ring

theorem hexText_append {head : List Bool} (tail : List Bool) (whole : head.length % 4 = 0) :
    hexText (head ++ tail) = hexText head ++ hexText tail := by
  have split : (head ++ tail).length / 4 = head.length / 4 + tail.length / 4 := by
    rw [List.length_append]
    omega
  unfold hexText
  rw [split, List.range_add, List.map_append, List.map_map]
  congr 1
  · apply List.map_congr_left
    intro i inside
    have small := List.mem_range.mp inside
    rw [List.drop_append_of_le_length (by omega), List.take_append_of_le_length]
    rw [List.length_drop]
    omega
  · apply List.map_congr_left
    intro i _
    have later : 4 * (head.length / 4 + i) = head.length + 4 * i := by omega
    simp only [Function.comp_apply]
    rw [later, List.drop_append, List.drop_eq_nil_of_le (by omega), List.nil_append]
    congr 4
    omega

end Bits

section Padding

theorem zeroBits_eq {l k : Nat} (lacks : (l + 1 + k) % 512 = 448) (least : k < 512) :
    zeroBits l = k := by
  unfold zeroBits
  rw [Nat.find_eq_iff]
  refine ⟨lacks, ?_⟩
  intro n fewer
  omega

end Padding

section Rounds

theorem schedule_first (block : Nat → Word) {t : Nat} (first : t < 16) :
    schedule block t = block t := by
  rw [schedule, if_pos first]

theorem schedule_later (block : Nat → Word) (t : Nat) :
    schedule block (t + 16) = smallSigma1 (schedule block (t + 14)) + schedule block (t + 9) +
      smallSigma0 (schedule block (t + 1)) + schedule block t := by
  rw [schedule, if_neg (by omega)]
  congr 4

theorem schedule_congr {one two : Nat → Word} (same : ∀ t, t < 16 → one t = two t) (t : Nat) :
    schedule one t = schedule two t := by
  induction t using Nat.strongRecOn with
  | ind t ih =>
      by_cases first : t < 16
      · rw [schedule_first one first, schedule_first two first, same t first]
      · obtain ⟨s, later⟩ := Nat.exists_eq_add_of_le (Nat.le_of_not_lt first)
        rw [later, Nat.add_comm 16 s, schedule_later, schedule_later, ih (s + 14) (by omega),
          ih (s + 9) (by omega), ih (s + 1) (by omega), ih s (by omega)]

theorem compress_congr (hash : Vars) {one two : Nat → Word} (same : ∀ t, t < 16 → one t = two t) :
    compress hash one = compress hash two := by
  unfold compress
  simp only [schedule_congr same]

end Rounds

end Fips180

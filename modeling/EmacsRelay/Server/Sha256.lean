import EmacsRelay.Lib.Fips180
import EmacsRelay.Server.Digest

set_option autoImplicit false

/- The digest of `server/src/revisions/types.rs` is that of the Secure Hash Standard. -/
namespace EmacsRelay

open Fips180 (bits value)

/-- Bytes as bits, each byte's most significant bit first. -/
def messageBits (bytes : Bytes) : List Bool := bytes.flatMap fun b => bits 8 b.toNat

namespace Digest

/-- The loop that pads with zeros; nothing when it goes on after so many turns. -/
def fill : Nat → Bytes → Option Bytes
  | 0, _ => none
  | fuel + 1, padded =>
      if (padded.length + 8) % 64 ≠ 0 then fill fuel (padded ++ [0]) else some padded

/-- `bit_len.to_be_bytes()`. -/
def lengthBytes (bytes : Bytes) : Bytes :=
  (List.range 8).map fun i => UInt8.ofNat (bytes.length * 8 % 2 ^ 64 / 256 ^ (7 - i))

section Bits

@[simp] theorem messageBits_append (one two : Bytes) :
    messageBits (one ++ two) = messageBits one ++ messageBits two := by
  simp [messageBits]

@[simp] theorem length_messageBits (bytes : Bytes) :
    (messageBits bytes).length = 8 * bytes.length := by
  induction bytes with
  | nil => rfl
  | cons b rest ih =>
      have split : messageBits (b :: rest) = bits 8 b.toNat ++ messageBits rest := rfl
      rw [split, List.length_append, Fips180.length_bits, ih, List.length_cons]
      omega

theorem messageBits_drop (bytes : Bytes) (n : Nat) :
    messageBits (bytes.drop n) = (messageBits bytes).drop (8 * n) := by
  by_cases inside : n ≤ bytes.length
  · have split : messageBits bytes = messageBits (bytes.take n) ++ messageBits (bytes.drop n) := by
      rw [← messageBits_append, List.take_append_drop]
    have short : (messageBits (bytes.take n)).length = 8 * n := by
      rw [length_messageBits, List.length_take]
      omega
    rw [split, ← short, List.drop_left]
  · rw [List.drop_eq_nil_of_le (by omega), List.drop_eq_nil_of_le]
    · rfl
    · rw [length_messageBits]
      omega

theorem messageBits_take (bytes : Bytes) (n : Nat) :
    messageBits (bytes.take n) = (messageBits bytes).take (8 * n) := by
  by_cases inside : n ≤ bytes.length
  · have split : messageBits bytes = messageBits (bytes.take n) ++ messageBits (bytes.drop n) := by
      rw [← messageBits_append, List.take_append_drop]
    have short : (messageBits (bytes.take n)).length = 8 * n := by
      rw [length_messageBits, List.length_take]
      omega
    rw [split, ← short, List.take_left]
  · rw [List.take_of_length_le (by omega), List.take_of_length_le]
    rw [length_messageBits]
    omega

theorem messageBits_replicate (count : Nat) :
    messageBits (List.replicate count 0) = List.replicate (8 * count) false := by
  induction count with
  | zero => rfl
  | succ count ih =>
      have first : bits 8 (0 : UInt8).toNat = List.replicate 8 false := by decide
      have split : messageBits (List.replicate (count + 1) 0) =
          bits 8 (0 : UInt8).toNat ++ messageBits (List.replicate count 0) := rfl
      rw [split, ih, first, List.replicate_append_replicate]
      congr 1
      omega

/-- A number in bytes of its own, by induction on their count. -/
theorem messageBits_ofNat (count n : Nat) :
    messageBits ((List.range count).map fun i => UInt8.ofNat (n / 256 ^ (count - 1 - i))) =
      bits (8 * count) n := by
  induction count generalizing n with
  | zero => rfl
  | succ count ih =>
      have last : messageBits [UInt8.ofNat n] = bits 8 n := by
        have low := Fips180.bits_mod 8 n
        simpa [messageBits] using low
      have first : (List.range count).map (fun i => UInt8.ofNat (n / 256 ^ (count + 1 - 1 - i))) =
          (List.range count).map fun i => UInt8.ofNat (n / 256 / 256 ^ (count - 1 - i)) := by
        apply List.map_congr_left
        intro i inside
        have small := List.mem_range.mp inside
        rw [Nat.div_div_eq_div_mul, ← Nat.pow_succ', show count + 1 - 1 - i = count - 1 - i + 1 by omega]
      rw [List.range_succ, List.map_append, messageBits_append, first, ih, Nat.mul_succ,
        Fips180.bits_add]
      simp only [List.map_cons, List.map_nil, Nat.add_sub_cancel, Nat.sub_self, Nat.pow_zero,
        Nat.div_one, last]
      rfl

end Bits

section Padding

theorem fill_ends (padded : Bytes) (zeros fuel : Nat) (whole : (padded.length + zeros + 8) % 64 = 0)
    (least : zeros < 64) (enough : zeros < fuel) :
    fill fuel padded = some (padded ++ List.replicate zeros 0) := by
  induction zeros generalizing fuel padded with
  | zero =>
      obtain ⟨rest, more⟩ := Nat.exists_eq_add_of_lt enough
      rw [more, fill, if_neg (by omega)]
      simp
  | succ zeros ih =>
      obtain ⟨rest, more⟩ := Nat.exists_eq_add_of_lt enough
      rw [more, fill, if_pos (by omega), ih]
      · rw [List.append_assoc]
        rfl
      · rw [List.length_append, List.length_singleton]
        omega
      · omega
      · omega

/-- After 63 turns at most the loop has padded the message. -/
theorem fill_padded (bytes : Bytes) (fuel : Nat) (enough : 64 ≤ fuel) :
    (fill fuel (bytes ++ [0x80])).map (· ++ lengthBytes bytes) = some (padded bytes) := by
  have zeros : (64 - (bytes.length + 1 + 8) % 64) % 64 < 64 := Nat.mod_lt _ (by omega)
  rw [fill_ends _ ((64 - (bytes.length + 1 + 8) % 64) % 64) fuel]
  · rfl
  · rw [List.length_append, List.length_singleton]
    omega
  · exact zeros
  · omega

theorem length_padded (bytes : Bytes) : (padded bytes).length % 64 = 0 := by
  simp only [padded, List.length_append, List.length_singleton, List.length_replicate,
    List.length_map, List.length_range]
  omega

theorem messageBits_padded {bytes : Bytes} (small : bytes.length < 2 ^ 61) :
    messageBits (padded bytes) = Fips180.pad (messageBits bytes) := by
  have marker : messageBits [0x80] = true :: List.replicate 7 false := by decide
  have length : bytes.length * 8 % 2 ^ 64 = 8 * bytes.length := by omega
  have zeros : Fips180.zeroBits (8 * bytes.length) =
      7 + 8 * ((64 - (bytes.length + 1 + 8) % 64) % 64) := by
    apply Fips180.zeroBits_eq <;> omega
  have ended := messageBits_ofNat 8 (8 * bytes.length)
  unfold padded Fips180.pad
  rw [length_messageBits, zeros, length]
  simp only [messageBits_append, marker, messageBits_replicate, List.append_assoc]
  rw [List.replicate_add]
  simp only [List.append_assoc, List.cons_append]
  congr 4

end Padding

section Words

/-- Shifting a byte in. -/
theorem toNat_shiftIn (acc : UInt32) (b : UInt8) :
    ((acc <<< 8) ||| b.toUInt32).toNat = (acc.toNat * 256 + b.toNat) % 2 ^ 32 := by
  have byte : b.toNat < 2 ^ 8 := b.toNat_lt
  have shifted : (acc <<< 8).toNat = (acc.toNat % 2 ^ 24) <<< 8 := by
    rw [UInt32.toNat_shiftLeft]
    simp only [Nat.shiftLeft_eq]
    show acc.toNat * 2 ^ 8 % 2 ^ 32 = _
    omega
  rw [UInt32.toNat_or, shifted, UInt8.toNat_toUInt32, ← Nat.shiftLeft_add_eq_or_of_lt byte,
    Nat.shiftLeft_eq]
  omega

theorem toNat_fromBeBytes (bytes : Bytes) :
    (fromBeBytes bytes).toNat = value (messageBits bytes) % 2 ^ 32 := by
  have general : ∀ acc : UInt32,
      (bytes.foldl (fun (n : UInt32) b => (n <<< 8) ||| b.toUInt32) acc).toNat =
        (acc.toNat * 2 ^ (8 * bytes.length) + value (messageBits bytes)) % 2 ^ 32 := by
    induction bytes with
    | nil =>
        intro acc
        have small := acc.toNat_lt
        simp [messageBits, value, Nat.mod_eq_of_lt small]
    | cons b rest ih =>
        intro acc
        have split : messageBits (b :: rest) = bits 8 b.toNat ++ messageBits rest := rfl
        have byte : b.toNat % 2 ^ 8 = b.toNat := Nat.mod_eq_of_lt b.toNat_lt
        have reduce : ∀ a p v : Nat, (a % 2 ^ 32 * p + v) % 2 ^ 32 = (a * p + v) % 2 ^ 32 := by
          intro a p v
          rw [Nat.add_mod, Nat.mul_mod, Nat.mod_mod, ← Nat.mul_mod, ← Nat.add_mod]
        rw [List.foldl_cons, ih, toNat_shiftIn, reduce, split, Fips180.value_append,
          Fips180.value_bits, byte, length_messageBits, List.length_cons, Nat.mul_add, Nat.pow_add]
        congr 1
        ring
  have start := general 0
  rw [UInt32.toNat_zero, Nat.zero_mul, Nat.zero_add] at start
  exact start

theorem toBitVec_fromBeBytes (bytes : Bytes) :
    (fromBeBytes bytes).toBitVec = BitVec.ofNat 32 (value (messageBits bytes)) := by
  apply BitVec.eq_of_toNat_eq
  rw [BitVec.toNat_ofNat]
  exact toNat_fromBeBytes bytes

theorem chunksExact_eq_map (size count : Nat) (bytes : Bytes) :
    chunksExact size count bytes =
      (List.range count).map fun i => (bytes.drop (size * i)).take size := by
  induction count generalizing bytes with
  | zero => rfl
  | succ count ih =>
      rw [chunksExact, ih, List.range_succ_eq_map, List.map_cons, List.map_map]
      congr 1
      apply List.map_congr_left
      intro i _
      simp only [Function.comp_apply, List.drop_drop, Nat.succ_eq_add_one, Nat.mul_add, Nat.mul_one]
      rw [Nat.add_comm]

end Words

section Rounds

/-- The words as the standard has them. -/
def Words.vars (r : Words) : Fips180.Vars :=
  ⟨r.a.toBitVec, r.b.toBitVec, r.c.toBitVec, r.d.toBitVec, r.e.toBitVec, r.f.toBitVec, r.g.toBitVec,
    r.h.toBitVec⟩

theorem toBitVec_rotateRight (x n : UInt32) (inside : 0 < n.toNat ∧ n.toNat < 32) :
    (rotateRight x n).toBitVec = x.toBitVec.rotateRight n.toNat := by
  have back : (4294967296 - n.toNat) % 32 = 32 - n.toNat % 32 := by omega
  rw [BitVec.rotateRight_def]
  simp [rotateRight, back]

theorem round_vars (r : Words) (constant word : UInt32) :
    (round r constant word).vars = Fips180.round r.vars constant.toBitVec word.toBitVec := by
  simp [round, Words.vars, Fips180.round, Fips180.bigSigma0, Fips180.bigSigma1, Fips180.choose,
    Fips180.majority, toBitVec_rotateRight]

theorem compress_rounds (hash : Words) (words constants : Nat → UInt32) (count : Nat) :
    ((List.range count).foldl (fun r t => round r (constants t) (words t)) hash).vars =
      (List.range count).foldl
        (fun r t => Fips180.round r (constants t).toBitVec (words t).toBitVec) hash.vars := by
  induction count with
  | zero => rfl
  | succ count ih => simp only [List.range_succ, List.foldl_append, List.foldl_cons, List.foldl_nil,
      round_vars, ih]

/-- The words of a block, of which the standard expands the first sixteen. -/
theorem schedule_words (block : Nat → Fips180.Word) (count known : Nat) (first : 16 ≤ known) :
    schedule count ((List.range known).map fun t => UInt32.ofBitVec (Fips180.schedule block t)) =
      (List.range (known + count)).map fun t => UInt32.ofBitVec (Fips180.schedule block t) := by
  induction count generalizing known with
  | zero => rfl
  | succ count ih =>
      have word : ∀ back, 0 < back → back ≤ 16 →
          ((List.range known).map fun t => UInt32.ofBitVec (Fips180.schedule block t)).getD
            (known - back) 0 = UInt32.ofBitVec (Fips180.schedule block (known - back)) := by
        intro back some few
        rw [List.getD_eq_getElem _ _ (by simp; omega)]
        simp
      have next : Fips180.schedule block known =
          Fips180.schedule block (known - 16) +
            Fips180.smallSigma0 (Fips180.schedule block (known - 15)) +
            Fips180.schedule block (known - 7) +
            Fips180.smallSigma1 (Fips180.schedule block (known - 2)) := by
        rw [Fips180.schedule, if_neg (by omega)]
        ac_rfl
      have grown : schedule (count + 1)
            ((List.range known).map fun t => UInt32.ofBitVec (Fips180.schedule block t)) =
          schedule count
            ((List.range (known + 1)).map fun t => UInt32.ofBitVec (Fips180.schedule block t)) := by
        rw [schedule, List.length_map, List.length_range]
        dsimp only
        rw [word 16 (by omega) (by omega), word 15 (by omega) (by omega),
          word 7 (by omega) (by omega), word 2 (by omega) (by omega), List.range_succ,
          List.map_append, List.map_singleton]
        congr 3
        apply UInt32.toBitVec_inj.mp
        rw [next]
        simp [Fips180.smallSigma0, Fips180.smallSigma1, toBitVec_rotateRight]
      rw [grown, ih (known + 1) (by omega)]
      congr 2
      omega

theorem constants_eq_map :
    constants = (List.range 64).map fun t => constants.getD t 0 := by decide

/-- A block is compressed as the standard has it, but for the constants. -/
theorem compress_vars
    (agree : ∀ t, t < 64 → (constants.getD t 0).toBitVec = Fips180.constant t)
    (hash : Words) (chunk : Bytes) :
    (compress hash chunk).vars = Fips180.compress hash.vars
      fun j => (fromBeBytes ((chunk.drop (4 * j)).take 4)).toBitVec := by
  generalize block_eq : (fun j => (fromBeBytes ((chunk.drop (4 * j)).take 4)).toBitVec) = block
  have words : schedule 48 ((chunksExact 4 16 chunk).map fromBeBytes) =
      (List.range 64).map fun t => UInt32.ofBitVec (Fips180.schedule block t) := by
    have start : (chunksExact 4 16 chunk).map fromBeBytes =
        (List.range 16).map fun t => UInt32.ofBitVec (Fips180.schedule block t) := by
      rw [chunksExact_eq_map, List.map_map]
      apply List.map_congr_left
      intro t inside
      rw [Fips180.schedule_first block (List.mem_range.mp inside), ← block_eq]
      rfl
    rw [start, schedule_words block 48 16 (Nat.le_refl 16)]
  have rounds := compress_rounds hash (fun t => UInt32.ofBitVec (Fips180.schedule block t))
    (fun t => constants.getD t 0) 64
  have same : (List.range 64).foldl
        (fun r t => Fips180.round r (constants.getD t 0).toBitVec (Fips180.schedule block t))
        hash.vars =
      (List.range 64).foldl
        (fun r t => Fips180.round r (Fips180.constant t) (Fips180.schedule block t)) hash.vars := by
    apply List.foldl_ext
    intro r t inside
    rw [agree t (List.mem_range.mp inside)]
  unfold compress Fips180.compress
  rw [words, constants_eq_map, ← same, ← rounds]
  dsimp only
  rw [List.zip_map', List.foldl_map]
  simp only [Words.vars, Fips180.Vars.add, UInt32.toBitVec_add]

end Rounds

section Constants

/-- The first sixty-four primes. -/
def primes : List Nat :=
  [2, 3, 5, 7, 11, 13, 17, 19, 23, 29, 31, 37, 41, 43, 47, 53, 59, 61, 67, 71, 73, 79, 83, 89, 97, 101,
    103, 107, 109, 113, 127, 131, 137, 139, 149, 151, 157, 163, 167, 173, 179, 181, 191, 193, 197, 199,
    211, 223, 227, 229, 233, 239, 241, 251, 257, 263, 269, 271, 277, 281, 283, 293, 307, 311]

/-- No divisor up to the root, which is less than 18 here. -/
def Undivided (n : Nat) : Prop := 2 ≤ n ∧ ∀ m, m < 18 → 2 ≤ m → m * m ≤ n → n % m ≠ 0

instance (n : Nat) : Decidable (Undivided n) := inferInstanceAs (Decidable (_ ∧ _))

theorem prime_iff {n : Nat} (small : n < 324) : Nat.Prime n ↔ Undivided n := by
  rw [Nat.prime_def_le_sqrt]
  apply and_congr_right
  intro _
  constructor
  · intro none m _ some within divides
    exact none m some (Nat.le_sqrt.mpr within) (Nat.dvd_of_mod_eq_zero divides)
  · intro none m some within divides
    have square : m * m ≤ n := Nat.le_sqrt.mp within
    have low : m < 18 := by
      by_contra high
      have large : 18 * 18 ≤ m * m := Nat.mul_le_mul (by omega) (by omega)
      omega
    exact none m low some square (Nat.mod_eq_zero_of_dvd divides)

theorem count_eq_length (p : Nat → Prop) [DecidablePred p] (n : Nat) :
    Nat.count p n = ((List.range n).filter p).length := by
  induction n with
  | zero => rfl
  | succ n ih =>
      rw [Nat.count_succ, ih, List.range_succ, List.filter_append, List.length_append]
      by_cases here : p n
      · simp [here]
      · simp [here]

/-- The numbers with a property, in order, are counted from 0. By induction on where one stops. -/
theorem nth_eq_getD (p : Nat → Prop) [DecidablePred p] (stop t : Nat)
    (inside : t < ((List.range stop).filter p).length) :
    Nat.nth p t = ((List.range stop).filter p).getD t 0 := by
  induction stop with
  | zero => exact absurd inside (Nat.not_lt_zero t)
  | succ stop ih =>
      rw [List.range_succ, List.filter_append] at inside ⊢
      by_cases before : t < ((List.range stop).filter p).length
      · rw [List.getD_append _ _ _ _ before]
        exact ih before
      · by_cases here : p stop
        · have last : t = Nat.count p stop := by
            simp only [List.filter_cons, here, decide_true, if_true, List.filter_nil,
              List.length_append, List.length_singleton] at inside
            rw [count_eq_length]
            omega
          rw [List.getD_append_right _ _ _ _ (by omega), last, Nat.nth_count here, count_eq_length]
          simp [here]
        · simp [here, before] at inside

theorem filter_primes : (List.range 312).filter Nat.Prime = primes := by
  have undivided : (List.range 312).filter Undivided = primes := by decide +kernel
  rw [← undivided]
  apply List.filter_congr
  intro n inside
  have small := List.mem_range.mp inside
  simp only [decide_eq_decide]
  exact prime_iff (by omega)

theorem nth_prime {t : Nat} (inside : t < 64) : Nat.nth Nat.Prime t = primes.getD t 0 := by
  have counted : t < ((List.range 312).filter Nat.Prime).length := by
    rw [filter_primes]
    exact inside
  rw [nth_eq_getD Nat.Prime 312 t counted, filter_primes]

theorem fraction_eq {degree t : Nat} {word : UInt32} (inside : t < 64)
    (root : Nat.nthRoot degree (primes.getD t 0 * 2 ^ (32 * degree)) % 2 ^ 32 = word.toNat) :
    word.toBitVec = Fips180.fraction degree t := by
  apply BitVec.eq_of_toNat_eq
  rw [Fips180.fraction, nth_prime inside, BitVec.toNat_ofNat, root]
  rfl

theorem constants_agree (t : Nat) (inside : t < 64) :
    (constants.getD t 0).toBitVec = Fips180.constant t := by
  have roots : ∀ t, t < 64 → Nat.nthRoot 3 (primes.getD t 0 * 2 ^ (32 * 3)) % 2 ^ 32 =
      (constants.getD t 0).toNat := by decide +kernel
  exact fraction_eq inside (roots t inside)

theorem initial_vars : initial.vars = Fips180.initial := by
  have roots : ∀ t, t < 8 → Nat.nthRoot 2 (primes.getD t 0 * 2 ^ (32 * 2)) % 2 ^ 32 =
      ([initial.a, initial.b, initial.c, initial.d, initial.e, initial.f, initial.g,
        initial.h].getD t 0).toNat := by decide +kernel
  have root : ∀ t, t < 8 → ([initial.a, initial.b, initial.c, initial.d, initial.e, initial.f,
      initial.g, initial.h].getD t 0).toBitVec = Fips180.fraction 2 t :=
    fun t inside => fraction_eq (by omega) (roots t inside)
  unfold Words.vars Fips180.initial
  rw [← root 0 (by omega), ← root 1 (by omega), ← root 2 (by omega), ← root 3 (by omega),
    ← root 4 (by omega), ← root 5 (by omega), ← root 6 (by omega), ← root 7 (by omega)]
  rfl

end Constants

section Text

theorem hexDigit_eq {n : Nat} (small : n < 16) : hexDigit n = Nat.digitChar n := by
  interval_cases n <;> decide

theorem hex_eq (word : UInt32) : hex word = Fips180.hexText (bits 32 word.toBitVec.toNat) := by
  unfold hex Fips180.hexText
  rw [Fips180.length_bits]
  apply List.map_congr_left
  intro i inside
  have small : i < 8 := List.mem_range.mp inside
  have split : bits 32 word.toBitVec.toNat =
      bits (4 * i + (4 + 4 * (7 - i))) word.toBitVec.toNat := by
    congr 1
    omega
  have nibble : ((bits 32 word.toBitVec.toNat).drop (4 * i)).take 4 =
      bits 4 (word.toNat / 2 ^ (4 * (7 - i))) := by
    rw [split, Fips180.drop_bits, Fips180.take_bits]
    rfl
  rw [nibble, Fips180.value_bits, Nat.pow_mul]
  exact hexDigit_eq (Nat.mod_lt _ (by omega))

theorem text_eq (w : Words) :
    w.text = Fips180.hexText (w.vars.words.flatMap fun word => bits 32 word.toNat) := by
  simp only [Words.text, Words.vars, Fips180.Vars.words, List.flatMap_cons, List.flatMap_nil, hex_eq]
  simp [Fips180.hexText_append]

end Text

section Blocks

theorem blockWord_eq (message : Bytes) (i j : Nat) (inside : j < 16) :
    (fromBeBytes ((((message.drop (64 * i)).take 64).drop (4 * j)).take 4)).toBitVec =
      Fips180.blockWord (messageBits message) i j := by
  have slice : (((message.drop (64 * i)).take 64).drop (4 * j)).take 4 =
      (message.drop (64 * i + 4 * j)).take 4 := by
    rw [List.drop_take, List.take_take, List.drop_drop]
    congr 1
    omega
  rw [slice, toBitVec_fromBeBytes, messageBits_take, messageBits_drop, Fips180.blockWord]
  congr 5
  omega

theorem compress_block (message : Bytes) (hash : Words) (i : Nat) :
    (compress hash ((message.drop (64 * i)).take 64)).vars =
      Fips180.compress hash.vars (Fips180.blockWord (messageBits message) i) := by
  rw [compress_vars constants_agree]
  exact Fips180.compress_congr _ fun j inside => blockWord_eq message i j inside

/-- By induction on the blocks. -/
theorem hash_blocks (message : Bytes) (count : Nat) :
    ((chunksExact 64 count message).foldl compress initial).vars =
      (List.range count).foldl
        (fun r i => Fips180.compress r (Fips180.blockWord (messageBits message) i))
        Fips180.initial := by
  rw [chunksExact_eq_map, List.foldl_map]
  induction count with
  | zero => exact initial_vars
  | succ count ih => simp only [List.range_succ, List.foldl_append, List.foldl_cons, List.foldl_nil,
      compress_block, ih]

theorem hash_vars {bytes : Bytes} (small : bytes.length < 2 ^ 61) :
    ((chunksExact 64 ((padded bytes).length / 64) (padded bytes)).foldl compress initial).vars =
      Fips180.hash (messageBits bytes) := by
  have blocks : (padded bytes).length / 64 = (Fips180.pad (messageBits bytes)).length / 512 := by
    rw [← messageBits_padded small, length_messageBits]
    omega
  rw [hash_blocks, blocks, messageBits_padded small]
  rfl

end Blocks

end Digest

open Digest in
/-- For a message of less than 2^61 bytes the padding ends, in whole blocks, and the digest is that of
the standard in hexadecimal digits, as a revision token has to have it. -/
theorem sha256_eq_fips180 (bytes : Bytes) (small : bytes.length < 2 ^ 61) :
    (∀ fuel, 64 ≤ fuel →
      (fill fuel (bytes ++ [0x80])).map (· ++ lengthBytes bytes) = some (padded bytes)) ∧
    (padded bytes).length % 64 = 0 ∧
    (sha256 bytes).toList = Fips180.hexText (Fips180.sha256 (messageBits bytes)) ∧
    (sha256 bytes).toList.length = 64 ∧
    ∀ revision : Revision, revision.isValidFileRevision = true →
      { revision with sha256 := sha256 bytes }.isValidFileRevision = true := by
  refine ⟨fill_padded bytes, length_padded bytes, ?_, (sha256_wellFormed bytes).1, ?_⟩
  · rw [sha256, String.toList_ofList, text_eq, hash_vars small]
    rfl
  · intro revision valid
    obtain ⟨length, digits⟩ := sha256_wellFormed bytes
    simp only [Revision.isValidFileRevision, Bool.and_eq_true] at valid ⊢
    refine ⟨⟨valid.1.1, ?_⟩, digits⟩
    rw [length]
    rfl

theorem sha256_eq_fips180_abc :
    ([97, 98, 99] : Bytes).length < 2 ^ 61 ∧
      (sha256 [97, 98, 99]).toList =
        Fips180.hexText (Fips180.sha256 (messageBits [97, 98, 99])) :=
  ⟨by decide, (sha256_eq_fips180 [97, 98, 99] (by decide)).2.2.1⟩

end EmacsRelay

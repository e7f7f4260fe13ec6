import EmacsRelay.Server.Revision
import Mathlib.Algebra.Ring.Nat

set_option autoImplicit false

/- Frames as `server/src/main.rs` and `server/src/framing.rs` write and read them. -/
namespace EmacsRelay.Server

/-- `MAX_FRAME_BYTES`. -/
def maxFrameBytes : Nat := 32 * 1024 * 1024

/-- `frame_size_allowed`. -/
def frameSizeAllowed (size : Nat) : Bool := size ≤ maxFrameBytes

/-- `u32::to_le_bytes`. -/
def toLeBytes (n : Nat) : Bytes :=
  [.ofNat (n % 256), .ofNat (n / 256 % 256), .ofNat (n / 65536 % 256),
    .ofNat (n / 16777216 % 256)]

/-- `u32::from_le_bytes`, of an array of four. -/
def fromLeBytes : Bytes → Nat
  | [a, b, c, d] => a.toNat + b.toNat * 256 + c.toNat * 65536 + d.toNat * 16777216
  | _ => 0

/-- What the writer thread puts on stdout for one message; the length is cast to `u32`. -/
def frame (payload : Bytes) : Bytes := toLeBytes (payload.length % 2 ^ 32) ++ payload

/-- `Read::read_exact`: the bytes asked for and the rest, or an error at the end of input. -/
def readExact (n : Nat) (stdin : Bytes) : Option (Bytes × Bytes) :=
  if n ≤ stdin.length then some (stdin.take n, stdin.drop n) else none

theorem readExact_some {n : Nat} {stdin buf rest : Bytes}
    (found : readExact n stdin = some (buf, rest)) :
    n ≤ stdin.length ∧ buf = stdin.take n ∧ rest = stdin.drop n := by
  unfold readExact at found
  split at found
  · rename_i enough
    have parts := Prod.mk.inj (Option.some.inj found)
    exact ⟨enough, parts.1.symm, parts.2.symm⟩
  · cases found

theorem readExact_none {n : Nat} {stdin : Bytes} (absent : readExact n stdin = none) :
    stdin.length < n := by
  unfold readExact at absent
  split at absent
  · cases absent
  · omega

/-- The request loop of `main`: the buffers handed to `serde_json::from_slice`, until the input
ends or announces a frame that is not allowed. -/
def requestLoop (stdin : Bytes) : List Bytes :=
  match _header : readExact 4 stdin with
  | none => []
  | some (lenbuf, rest) =>
      if ¬ frameSizeAllowed (fromLeBytes lenbuf) then []
      else
        match _payload : readExact (fromLeBytes lenbuf) rest with
        | none => []
        | some (buf, rest) => buf :: requestLoop rest
termination_by stdin.length
decreasing_by
  obtain ⟨enough, _, rfl⟩ := readExact_some _header
  obtain ⟨_, _, rfl⟩ := readExact_some _payload
  simp only [List.length_drop]
  omega

end EmacsRelay.Server

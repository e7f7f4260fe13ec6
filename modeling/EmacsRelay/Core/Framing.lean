import EmacsRelay.Lib.Deframe
import EmacsRelay.Server.Framing

set_option autoImplicit false

/- Frames as `lisp/relay-core.el` writes and reads them, and their agreement with the server's. -/
namespace EmacsRelay.RelayCore

/-- The header `relay--send` makes for a payload of LEN bytes. -/
def header (len : Nat) : Bytes :=
  [.ofNat (len &&& 0xff), .ofNat ((len >>> 8) &&& 0xff), .ofNat ((len >>> 16) &&& 0xff),
    .ofNat ((len >>> 24) &&& 0xff)]

/-- What `relay--send` hands to the process for an encoded message. -/
def send (payload : Bytes) : Bytes := header payload.length ++ payload

/-- The length announced at OFFSET. The loop has checked that four bytes are there. -/
def announced (acc : Bytes) (offset : Nat) : Nat :=
  let aref (i : Nat) : Nat := (acc[offset + i]?.getD 0).toNat
  aref 0 ||| (aref 1 <<< 8) ||| (aref 2 <<< 16) ||| (aref 3 <<< 24)

/-- What a connection has received: the accumulator, whether its process still exists, and the
payloads given to `relay--dispatch`. -/
structure Receiver where
  acc : Bytes := []
  live : Bool := true
  dispatched : List Bytes := []

/-- How the loop of `relay--filter` ends. -/
structure Scan where
  offset : Nat
  live : Bool
  dispatched : List Bytes

section

-- `relay-max-frame-bytes`
variable (limit : Nat)

/-- `relay--frame-size-allowed-p`. -/
def frameSizeAllowed (size : Nat) : Bool := size ≤ limit

/-- The loop of `relay--filter`. -/
def filterLoop (acc : Bytes) (offset : Nat) (dispatched : List Bytes) : Scan :=
  if 4 ≤ acc.length - offset then
    if ¬ frameSizeAllowed limit (announced acc offset) then ⟨acc.length, false, dispatched⟩
    else if acc.length - offset < 4 + announced acc offset then ⟨offset, true, dispatched⟩
    else
      filterLoop acc (offset + 4 + announced acc offset)
        (dispatched ++ [(acc.drop (offset + 4)).take (announced acc offset)])
  else ⟨offset, true, dispatched⟩
termination_by acc.length - offset

/-- `relay--filter`. -/
def filter (r : Receiver) (chunk : Bytes) : Receiver :=
  let acc := r.acc ++ chunk
  let scan := filterLoop limit acc 0 r.dispatched
  { acc := if scan.offset = 0 then acc else acc.drop scan.offset
    live := scan.live
    dispatched := scan.dispatched }

/-- The editor calls the filter of a process that has not been deleted. -/
def receive (r : Receiver) (chunk : Bytes) : Receiver :=
  if r.live then filter limit r chunk else r

def receiveAll (chunks : List Bytes) : Receiver := chunks.foldl (receive limit) {}

end

theorem announced_drop (acc : Bytes) (offset : Nat) :
    announced acc offset = announced (acc.drop offset) 0 := by
  simp [announced, List.getElem?_drop]

theorem announced_append {xs : Bytes} (enough : 4 ≤ xs.length) (ys : Bytes) :
    announced (xs ++ ys) 0 = announced xs 0 := by
  have kept : ∀ i < 4, (xs ++ ys)[i]? = xs[i]? := fun i small =>
    List.getElem?_append_left (by omega)
  simp only [announced, Nat.zero_add, kept 0 (by omega), kept 1 (by omega), kept 2 (by omega),
    kept 3 (by omega)]

/-- Bytes put together by shifting and by multiplying. -/
theorem logior_bytes (a b c d : UInt8) :
    a.toNat ||| (b.toNat <<< 8) ||| (c.toNat <<< 16) ||| (d.toNat <<< 24) =
      a.toNat + b.toNat * 256 + c.toNat * 65536 + d.toNat * 16777216 := by
  have small : ∀ x : UInt8, x.toNat < 2 ^ 8 := UInt8.toNat_lt
  have first : a.toNat ||| (b.toNat <<< 8) = b.toNat <<< 8 + a.toNat := by
    rw [Nat.or_comm, ← Nat.shiftLeft_add_eq_or_of_lt (small a)]
  have second : (b.toNat <<< 8 + a.toNat) ||| (c.toNat <<< 16) =
      c.toNat <<< 16 + (b.toNat <<< 8 + a.toNat) := by
    have bound : b.toNat <<< 8 + a.toNat < 2 ^ 16 := by
      have := small a
      have := small b
      rw [Nat.shiftLeft_eq]
      omega
    rw [Nat.or_comm, ← Nat.shiftLeft_add_eq_or_of_lt bound]
  have third : (c.toNat <<< 16 + (b.toNat <<< 8 + a.toNat)) ||| (d.toNat <<< 24) =
      d.toNat <<< 24 + (c.toNat <<< 16 + (b.toNat <<< 8 + a.toNat)) := by
    have bound : c.toNat <<< 16 + (b.toNat <<< 8 + a.toNat) < 2 ^ 24 := by
      have := small a
      have := small b
      have := small c
      rw [Nat.shiftLeft_eq, Nat.shiftLeft_eq]
      omega
    rw [Nat.or_comm, ← Nat.shiftLeft_add_eq_or_of_lt bound]
  rw [first, second, third, Nat.shiftLeft_eq, Nat.shiftLeft_eq, Nat.shiftLeft_eq]
  omega

/-- Both sides read the same length. -/
theorem announced_eq_fromLeBytes {xs : Bytes} (enough : 4 ≤ xs.length) :
    announced xs 0 = Server.fromLeBytes (xs.take 4) := by
  match xs, enough with
  | a :: b :: c :: d :: rest, _ => exact logior_bytes a b c d

/-- Both sides write the same header. -/
theorem header_eq_toLeBytes (len : Nat) : header len = Server.toLeBytes (len % 2 ^ 32) := by
  have masks : ∀ n : Nat, n &&& 0xff = n % 256 := fun n => Nat.and_two_pow_sub_one_eq_mod n 8
  have first : len % 256 = len % 2 ^ 32 % 256 := by omega
  have second : len >>> 8 % 256 = len % 2 ^ 32 / 256 % 256 := by
    rw [Nat.shiftRight_eq_div_pow]
    omega
  have third : len >>> 16 % 256 = len % 2 ^ 32 / 65536 % 256 := by
    rw [Nat.shiftRight_eq_div_pow]
    omega
  have fourth : len >>> 24 % 256 = len % 2 ^ 32 / 16777216 % 256 := by
    rw [Nat.shiftRight_eq_div_pow]
    omega
  simp only [header, Server.toLeBytes, masks, first, second, third, fourth]

theorem send_eq_frame (payload : Bytes) : send payload = Server.frame payload := by
  rw [send, Server.frame, header_eq_toLeBytes]

theorem announced_header {len : Nat} (small : len < 2 ^ 32) (rest : Bytes) :
    announced (header len ++ rest) 0 = len := by
  have enough : 4 ≤ (header len ++ rest).length := by simp [header]
  rw [announced_eq_fromLeBytes enough, header_eq_toLeBytes]
  simp only [Server.toLeBytes, List.cons_append, List.nil_append, List.take_succ_cons,
    List.take_zero, Server.fromLeBytes, UInt8.toNat_ofNat']
  omega

/-- What the accumulator starts with. -/
def front (limit : Nat) (acc : Bytes) : Front UInt8 Bytes :=
  if acc.length < 4 then .short
  else if ¬ frameSizeAllowed limit (announced acc 0) then .bad
  else if acc.length < 4 + announced acc 0 then .short
  else .frame ((acc.drop 4).take (announced acc 0)) (acc.drop (4 + announced acc 0))

variable {limit : Nat} {acc : Bytes}

theorem front_short (few : acc.length < 4) : front limit acc = .short := if_pos few

theorem front_nil (limit : Nat) : front limit [] = .short := by
  simp [front]

theorem front_bad (enough : 4 ≤ acc.length) (long : limit < announced acc 0) :
    front limit acc = .bad := by
  have few : ¬ acc.length < 4 := by omega
  simp [front, few, frameSizeAllowed, long]

theorem front_incomplete (allowed : announced acc 0 ≤ limit)
    (few : acc.length < 4 + announced acc 0) : front limit acc = .short := by
  by_cases short : acc.length < 4
  · exact front_short short
  · simp [front, short, frameSizeAllowed, allowed, few]

theorem front_frame (allowed : announced acc 0 ≤ limit) (whole : 4 + announced acc 0 ≤ acc.length) :
    front limit acc =
      .frame ((acc.drop 4).take (announced acc 0)) (acc.drop (4 + announced acc 0)) := by
  have enough : ¬ acc.length < 4 := by omega
  have all : ¬ acc.length < 4 + announced acc 0 := by omega
  simp [front, enough, frameSizeAllowed, allowed, all]

theorem front_bad_inv (bad : front limit acc = .bad) :
    4 ≤ acc.length ∧ limit < announced acc 0 := by
  by_cases few : acc.length < 4
  · exact nomatch (front_short few).symm.trans bad
  · by_cases allowed : announced acc 0 ≤ limit
    · by_cases part : acc.length < 4 + announced acc 0
      · exact nomatch (front_incomplete allowed part).symm.trans bad
      · exact nomatch (front_frame allowed (by omega)).symm.trans bad
    · omega

theorem front_frame_inv {payload rest : Bytes} (found : front limit acc = .frame payload rest) :
    announced acc 0 ≤ limit ∧ 4 + announced acc 0 ≤ acc.length ∧
      payload = (acc.drop 4).take (announced acc 0) ∧ rest = acc.drop (4 + announced acc 0) := by
  by_cases few : acc.length < 4
  · exact nomatch (front_short few).symm.trans found
  · by_cases allowed : announced acc 0 ≤ limit
    · by_cases part : acc.length < 4 + announced acc 0
      · exact nomatch (front_incomplete allowed part).symm.trans found
      · have parts := Front.frame.inj ((front_frame allowed (by omega)).symm.trans found)
        exact ⟨allowed, by omega, parts.1.symm, parts.2.symm⟩
    · exact nomatch (front_bad (by omega) (by omega)).symm.trans found

/-- More input does not change the front: a header is read when it is all there. -/
def deframer (limit : Nat) : Deframer UInt8 Bytes where
  front := front limit
  shrinks := by
    intro xs payload rest found
    obtain ⟨_, whole, _, rfl⟩ := front_frame_inv found
    simp only [List.length_drop]
    omega
  frame_append := by
    intro xs payload rest ys found
    obtain ⟨allowed, whole, rfl, rfl⟩ := front_frame_inv found
    have enough : 4 ≤ xs.length := by omega
    have same := announced_append enough ys
    have body : ((xs ++ ys).drop 4).take (announced xs 0) = (xs.drop 4).take (announced xs 0) := by
      rw [List.drop_append_of_le_length (by omega), List.take_append_of_le_length]
      simp only [List.length_drop]
      omega
    rw [front_frame (by omega) (by simp only [List.length_append]; omega), same, body,
      List.drop_append_of_le_length whole]
  bad_append := by
    intro xs ys bad
    obtain ⟨enough, long⟩ := front_bad_inv bad
    have same := announced_append enough ys
    exact front_bad (by simp only [List.length_append]; omega) (by omega)

/-- The offset loop reads what is behind the offset, frame by frame. -/
theorem filterLoop_drain (limit : Nat) (acc : Bytes) (offset : Nat) (dispatched : List Bytes) :
    let scan := filterLoop limit acc offset dispatched
    let read := (deframer limit).drain (acc.drop offset)
    acc.drop scan.offset = read.rest ∧ scan.live = !read.ended ∧
      scan.dispatched = dispatched ++ read.payloads := by
  have size : (acc.drop offset).length = acc.length - offset := List.length_drop
  have same := announced_drop acc offset
  by_cases enough : 4 ≤ acc.length - offset
  · by_cases allowed : announced acc offset ≤ limit
    · by_cases part : acc.length - offset < 4 + announced acc offset
      · have short : (deframer limit).front (acc.drop offset) = .short :=
          front_incomplete (by omega) (by omega)
        rw [filterLoop, Deframer.drain_short short]
        simp [enough, frameSizeAllowed, allowed, part]
      · have frame : (deframer limit).front (acc.drop offset) = _ :=
          front_frame (by omega) (by omega)
        have later := filterLoop_drain limit acc (offset + 4 + announced acc offset)
          (dispatched ++ [(acc.drop (offset + 4)).take (announced acc offset)])
        rw [filterLoop, Deframer.drain_frame frame, ← same, List.drop_drop, List.drop_drop,
          ← Nat.add_assoc]
        simpa [enough, frameSizeAllowed, allowed, part, Deframed.after] using later
    · have bad : (deframer limit).front (acc.drop offset) = .bad :=
        front_bad (by omega) (by omega)
      rw [filterLoop, Deframer.drain_bad bad]
      simp [enough, frameSizeAllowed, allowed]
  · have short : (deframer limit).front (acc.drop offset) = .short := front_short (by omega)
    rw [filterLoop, Deframer.drain_short short]
    simp [enough]
termination_by acc.length - offset

/-- What has been received, as the frames and the unread part of a stream. -/
def Receiver.deframed (r : Receiver) : Deframed UInt8 Bytes := ⟨r.dispatched, r.acc, !r.live⟩

theorem receive_feed (r : Receiver) (chunk : Bytes) :
    (receive limit r chunk).deframed = (deframer limit).feed r.deframed chunk := by
  cases live : r.live with
  | false => simp [receive, Deframer.feed, Receiver.deframed, live]
  | true =>
      obtain ⟨rest, alive, dispatched⟩ :=
        filterLoop_drain limit (r.acc ++ chunk) 0 r.dispatched
      have kept : (filter limit r chunk).acc =
          (r.acc ++ chunk).drop (filterLoop limit (r.acc ++ chunk) 0 r.dispatched).offset := by
        unfold filter
        dsimp only
        split
        · rename_i unmoved
          rw [unmoved, List.drop_zero]
        · rfl
      have ended : ((deframer limit).drain ((r.acc ++ chunk).drop 0)).ended =
          !(filter limit r chunk).live := by simp [filter, alive]
      simp only [receive, live, if_true, Receiver.deframed, Deframer.feed, Bool.not_true,
        Bool.false_eq_true, if_false, Deframed.after]
      have got : (filter limit r chunk).dispatched = _ := dispatched
      rw [← ended, kept, rest, got, List.drop_zero]

/-- However the input is cut, the receiver holds what reading the whole of it gives. -/
theorem receiveAll_drain (limit : Nat) (chunks : List Bytes) :
    (receiveAll limit chunks).deframed = (deframer limit).drain chunks.flatten := by
  have stepwise : ∀ r : Receiver, (chunks.foldl (receive limit) r).deframed =
      chunks.foldl (deframer limit).feed r.deframed := by
    induction chunks with
    | nil => exact fun _ => rfl
    | cons chunk chunks ih =>
        intro r
        rw [List.foldl_cons, List.foldl_cons, ih, receive_feed]
  have start : ({} : Receiver).deframed = (deframer limit).drain [] :=
    (Deframer.drain_short (front_nil limit)).symm
  rw [receiveAll, stepwise, start, Deframer.feed_all]
  rfl

/-- The reader undoes the framing of payloads within the limit. -/
theorem deframer_reads (small : limit < 2 ^ 32) :
    (deframer limit).Reads Server.frame (·.length ≤ limit) := by
  have size : ∀ payload, (Server.frame payload).length = 4 + payload.length := by
    intro payload
    simp [Server.frame, Server.toLeBytes]
    omega
  have length : ∀ {payload : Bytes}, payload.length ≤ limit → ∀ rest,
      announced (Server.frame payload ++ rest) 0 = payload.length := by
    intro payload fits rest
    rw [← send_eq_frame, send, List.append_assoc]
    exact announced_header (by omega) _
  constructor
  case whole =>
    intro payload fits rest
    have total : (Server.frame payload ++ rest).length = 4 + payload.length + rest.length := by
      rw [List.length_append, size]
    have announces := length fits rest
    have body : (Server.frame payload ++ rest).drop 4 = payload ++ rest := rfl
    have behind : (Server.frame payload ++ rest).drop (4 + payload.length) = rest := by
      rw [← List.drop_drop, body, List.drop_left]
    show front limit (Server.frame payload ++ rest) = .frame payload rest
    rw [front_frame (by omega) (by omega), announces, body, behind, List.take_left]
  case incomplete =>
    intro payload xs fits part other
    obtain ⟨ys, whole⟩ := part
    have total : xs.length + ys.length = 4 + payload.length := by
      rw [← List.length_append, whole, size]
    have more : ys ≠ [] := by
      intro nothing
      exact other (by simpa [nothing] using whole)
    have := List.length_pos_iff.mpr more
    by_cases few : xs.length < 4
    · exact front_short few
    · have announces := length fits []
      rw [List.append_nil, ← whole, announced_append (by omega)] at announces
      exact front_incomplete (by omega) (by omega)

/-- The request loop reads its input as the filter would, and keeps no unread part. -/
theorem requestLoop_drain (stdin : Bytes) :
    Server.requestLoop stdin = ((deframer Server.maxFrameBytes).drain stdin).payloads := by
  rw [Server.requestLoop]
  split
  · rename_i absent
    have few := Server.readExact_none absent
    have short : (deframer Server.maxFrameBytes).front stdin = .short := front_short few
    rw [Deframer.drain_short short]
  · rename_i lenbuf rest found
    obtain ⟨enough, rfl, rfl⟩ := Server.readExact_some found
    have length := announced_eq_fromLeBytes enough
    by_cases allowed : announced stdin 0 ≤ Server.maxFrameBytes
    · have passes : ¬ ¬ Server.frameSizeAllowed (Server.fromLeBytes (stdin.take 4)) = true := by
        simpa [Server.frameSizeAllowed, ← length] using allowed
      rw [if_neg passes]
      split
      · rename_i absent
        have few := Server.readExact_none absent
        rw [List.length_drop, ← length] at few
        have short : (deframer Server.maxFrameBytes).front stdin = .short :=
          front_incomplete allowed (by omega)
        rw [Deframer.drain_short short]
      · rename_i buf rest found
        obtain ⟨whole, rfl, rfl⟩ := Server.readExact_some found
        rw [List.length_drop, ← length] at whole
        have frame : (deframer Server.maxFrameBytes).front stdin = _ :=
          front_frame allowed (by omega)
        rw [Deframer.drain_frame frame, ← length, List.drop_drop, requestLoop_drain]
        rfl
    · have refused : ¬ Server.frameSizeAllowed (Server.fromLeBytes (stdin.take 4)) = true := by
        simpa [Server.frameSizeAllowed, ← length] using allowed
      have bad : (deframer Server.maxFrameBytes).front stdin = .bad :=
        front_bad enough (by omega)
      rw [if_pos refused, Deframer.drain_bad bad]
termination_by stdin.length
decreasing_by
  simp only [List.length_drop]
  omega

/-- The server's output for a sequence of messages, one after the other. -/
def written (payloads : List Bytes) : Bytes := payloads.flatMap Server.frame

/-- The client's output for a sequence of requests. -/
def sent (payloads : List Bytes) : Bytes := payloads.flatMap send

theorem sent_eq_written (payloads : List Bytes) : sent payloads = written payloads := by
  rw [sent, written, funext send_eq_frame]

/-- Complete frames are dispatched in order, and the accumulator holds the beginning of the next. -/
def Receives (r : Receiver) (payloads : List Bytes) (input : Bytes) : Prop :=
  r.live = true ∧ ∃ due, payloads = r.dispatched ++ due ∧
    input = written r.dispatched ++ r.acc ∧ Deframer.Begins Server.frame due r.acc

variable {payloads chunks : List Bytes}

theorem receives_part (small : limit < 2 ^ 32) (fit : ∀ payload ∈ payloads, payload.length ≤ limit)
    (part : chunks.flatten <+: written payloads) :
    Receives (receiveAll limit chunks) payloads chunks.flatten := by
  obtain ⟨complete, due, rest, split, input, begins, drained⟩ :=
    Deframer.drain_prefix (deframer_reads small) fit (front_nil limit) part
  have received := receiveAll_drain limit chunks
  rw [drained] at received
  have dispatched : (receiveAll limit chunks).dispatched = complete :=
    congrArg Deframed.payloads received
  have unread : (receiveAll limit chunks).acc = rest := congrArg Deframed.rest received
  have alive : (!(receiveAll limit chunks).live) = false := congrArg Deframed.ended received
  refine ⟨by simpa using alive, due, ?_, ?_, ?_⟩
  · rw [dispatched, split]
  · rw [dispatched, unread]
    exact input
  · rw [unread]
    exact begins

theorem drain_written (small : limit < 2 ^ 32)
    (fit : ∀ payload ∈ payloads, payload.length ≤ limit) :
    (deframer limit).drain (written payloads) = ⟨payloads, [], false⟩ := by
  have nothing : (deframer limit).drain [] = ⟨[], [], false⟩ :=
    Deframer.drain_short (front_nil limit)
  have read := Deframer.drain_encoded (deframer_reads small) fit []
  rw [List.append_nil, nothing] at read
  simpa [written, Deframed.after] using read

/-- A header that announces more than the limit is the last thing read. -/
theorem drain_oversized {len : Nat} (long : limit < len) (small : len < 2 ^ 32)
    (fit : ∀ payload ∈ payloads, payload.length ≤ limit) (rest : Bytes) :
    (deframer limit).drain (written payloads ++ (header len ++ rest)) = ⟨payloads, [], true⟩ := by
  have announces := announced_header small rest
  have enough : 4 ≤ (header len ++ rest).length := by simp [header]
  have longer : limit < announced (header len ++ rest) 0 := by omega
  have bad : (deframer limit).front (header len ++ rest) = .bad := front_bad enough longer
  have read := Deframer.drain_encoded (deframer_reads (by omega)) fit (header len ++ rest)
  rw [Deframer.drain_bad bad] at read
  simpa [written, Deframed.after] using read

/-- Frames written by either side are read back as the same payloads, however the stream is cut;
a frame that announces too much ends the stream. -/
theorem framing_independent_of_chunking (small : limit < 2 ^ 32)
    (fit : ∀ payload ∈ payloads, payload.length ≤ limit) :
    (∀ payload, send payload = Server.frame payload) ∧
    (∀ chunks : List Bytes, chunks.flatten = written payloads →
      (receiveAll limit chunks).dispatched = payloads ∧
      ∀ count, Receives (receiveAll limit (chunks.take count)) payloads
        (chunks.take count).flatten) ∧
    ((∀ payload ∈ payloads, payload.length ≤ Server.maxFrameBytes) →
      Server.requestLoop (sent payloads) = payloads) ∧
    ∀ len (rest : Bytes), len < 2 ^ 32 →
      (limit < len → ∀ chunks : List Bytes,
        chunks.flatten = written payloads ++ (header len ++ rest) →
        (receiveAll limit chunks).dispatched = payloads ∧
        (receiveAll limit chunks).live = false) ∧
      (Server.maxFrameBytes < len →
        (∀ payload ∈ payloads, payload.length ≤ Server.maxFrameBytes) →
        Server.requestLoop (sent payloads ++ (header len ++ rest)) = payloads) := by
  refine ⟨send_eq_frame, ?_, ?_, ?_⟩
  · intro chunks whole
    have received := receiveAll_drain limit chunks
    rw [whole, drain_written small fit] at received
    refine ⟨congrArg Deframed.payloads received, fun count => receives_part small fit ?_⟩
    rw [← whole]
    exact ⟨(chunks.drop count).flatten, by rw [← List.flatten_append, List.take_append_drop]⟩
  · intro served
    rw [sent_eq_written, requestLoop_drain, drain_written (by decide) served]
  · intro len rest representable
    constructor
    · intro long chunks input
      have received := receiveAll_drain limit chunks
      rw [input, drain_oversized long representable fit] at received
      have ended : (!(receiveAll limit chunks).live) = true := congrArg Deframed.ended received
      exact ⟨congrArg Deframed.payloads received, by simpa using ended⟩
    · intro long served
      rw [sent_eq_written, requestLoop_drain, drain_oversized long representable served]

/-- Two messages, the second cut inside its header and inside its payload. -/
theorem framing_independent_of_chunking_cut :
    (receiveAll 33554432 [[2, 0, 0, 0, 123, 125, 3], [0, 0, 0, 97], [98, 99]]).dispatched =
      [[123, 125], [97, 98, 99]] := by
  have fit : ∀ payload ∈ ([[123, 125], [97, 98, 99]] : List Bytes), payload.length ≤ 33554432 := by
    decide
  exact ((framing_independent_of_chunking (by decide) fit).2.1 _ (by decide)).1

end EmacsRelay.RelayCore

import EmacsRelay.Core.Framing
import EmacsRelay.Core.Requests
import EmacsRelay.Lib.JsonText

set_option autoImplicit false

/- `relay--filter` of `lisp/relay-core.el` when the handling of a frame signals an error. The
editor catches it; the accumulator is cut to its unread part only at the end of a call. -/
namespace EmacsRelay.RelayCore

/-- The process, and whatever else the handling of a message reads and writes. -/
structure Peer (σ : Type) where
  deleted : Bool := false
  rest : σ

/-- A connection as its filter sees it. From `received` on it records what happened: the bytes
given to the filter, how many of them are no longer in the accumulator, and where in them the
frames begin that were dispatched and whose handling signalled. -/
structure Channel (σ : Type) where
  acc : Bytes := []
  peer : Peer σ
  received : Bytes := []
  consumed : Nat := 0
  dispatched : List Nat := []
  signalled : List Nat := []

namespace Channel

section

variable {σ ε : Type}

-- `relay-max-frame-bytes`, and `relay--dispatch` with the decoding of its argument
variable (limit : Nat) (handle : Bytes → Routine (Peer σ) ε Unit)

/-- The call of `relay--dispatch` for the frame at OFFSET. -/
def dispatchFrame (offset : Nat) (payload : Bytes) : Routine (Channel σ) ε Unit := fun c =>
  let position := c.consumed + offset
  match handle payload c.peer with
  | (.ok _, peer) => (.ok (), { c with peer := peer, dispatched := c.dispatched ++ [position] })
  | (.error reason, peer) =>
      (.error reason,
        { c with
          peer := peer
          dispatched := c.dispatched ++ [position]
          signalled := c.signalled ++ [position] })

/-- The loop of `relay--filter`, which returns the final OFFSET. -/
def filterLoop (acc : Bytes) (offset : Nat) : Routine (Channel σ) ε Nat :=
  if 4 ≤ acc.length - offset then
    if ¬ frameSizeAllowed limit (announced acc offset) then do
      .update fun c => { c with peer := { c.peer with deleted := true } }
      pure acc.length
    else if acc.length - offset < 4 + announced acc offset then pure offset
    else do
      dispatchFrame handle offset ((acc.drop (offset + 4)).take (announced acc offset))
      filterLoop acc (offset + 4 + announced acc offset)
  else pure offset
termination_by acc.length - offset

/-- `relay--filter`. -/
def filter (chunk : Bytes) : Routine (Channel σ) ε Unit := do
  .update fun c => { c with acc := c.acc ++ chunk, received := c.received ++ chunk }
  let c ← .fetch
  let offset ← filterLoop limit handle c.acc 0
  .update fun later =>
    { later with
      acc := if offset = 0 then c.acc else c.acc.drop offset
      consumed := later.consumed + offset }

inductive Arrival (σ : Type) where
  | chunk (chunk : Bytes)
  /-- Something else happens; the process may be deleted by it. -/
  | elsewhere (deleted : Bool) (rest : σ)

/-- The editor calls the filter of a process that has not been deleted. -/
def step (c : Channel σ) : Arrival σ → Channel σ
  | .chunk chunk => if c.peer.deleted then c else (filter limit handle chunk).after c
  | .elsewhere deleted rest => { c with peer := ⟨c.peer.deleted || deleted, rest⟩ }

/-- The complete frames of a stream, up to one that is too long. -/
def frames (stream : Bytes) : List Bytes := ((deframer limit).drain stream).payloads

/-- Where frames begin that follow one another from `start`. -/
def positions : Nat → List Bytes → List Nat
  | _, [] => []
  | start, payload :: payloads => start :: positions (start + 4 + payload.length) payloads

/-- But for those whose handling signalled, the complete frames received have been dispatched once
each and in order. -/
def Undisturbed (c : Channel σ) : Prop :=
  c.dispatched.filter (· ∉ c.signalled) =
    (positions 0 (frames limit c.received)).filter (· ∉ c.signalled)

instance (c : Channel σ) : Decidable (c.Undisturbed limit) := inferInstanceAs (Decidable (_ = _))

/-- Frames are handled one after the other. -/
def handleAll : List Bytes → Routine (Peer σ) ε Unit
  | [] => pure ()
  | payload :: payloads => do
      handle payload
      handleAll payloads

/-- Where a chunk is read, at most one complete frame is still in the accumulator, and of the
complete frames there are then only the last may be one whose handling signals. -/
def Orderly (c : Channel σ) : Arrival σ → Prop
  | .chunk chunk => c.peer.deleted = false →
      (frames limit c.acc).length ≤ 1 ∧
      ∀ reason peer, handleAll handle (frames limit (c.acc ++ chunk)).dropLast c.peer ≠
        (.error reason, peer)
  | .elsewhere _ _ => True

end

section Positions

variable {limit start : Nat} {acc more : Bytes}

/-- The bytes that frames take. -/
def span (payloads : List Bytes) : Nat := (payloads.map fun payload => 4 + payload.length).sum

theorem positions_append (start : Nat) (earlier later : List Bytes) :
    positions start (earlier ++ later) =
      positions start earlier ++ positions (start + span earlier) later := by
  induction earlier generalizing start with
  | nil => simp [positions, span]
  | cons payload earlier ih =>
      have size : start + span (payload :: earlier) = start + 4 + payload.length + span earlier := by
        simp only [span, List.map_cons, List.sum_cons]
        omega
      rw [List.cons_append, positions, positions, ih, List.cons_append, size]

theorem span_append (earlier later : List Bytes) :
    span (earlier ++ later) = span earlier + span later := by
  simp [span]

/-- What is behind the complete frames goes on where they end. -/
theorem frames_append (running : ((deframer limit).drain acc).ended = false) :
    frames limit (acc ++ more) =
      frames limit acc ++ frames limit (((deframer limit).drain acc).rest ++ more) := by
  rw [frames, Deframer.drain_append]
  simp [Deframer.feed, running, Deframed.after, frames]

theorem rest_short : ∀ {acc : Bytes}, ((deframer limit).drain acc).ended = false →
    frames limit ((deframer limit).drain acc).rest = [] := by
  intro acc running
  cases found : (deframer limit).front acc with
  | short =>
      rw [Deframer.drain_short found]
      show frames limit acc = []
      rw [frames, Deframer.drain_short found]
  | bad =>
      rw [Deframer.drain_bad found] at running
      cases running
  | frame payload rest =>
      have smaller := (deframer limit).shrinks found
      rw [Deframer.drain_frame found] at running ⊢
      exact rest_short running
termination_by acc => acc.length

end Positions

section Loop

variable {σ ε : Type} {limit : Nat} {handle : Bytes → Routine (Peer σ) ε Unit}

theorem handleAll_cons (payload : Bytes) (payloads : List Bytes) (peer : Peer σ) :
    handleAll handle (payload :: payloads) peer =
      match handle payload peer with
      | (.ok _, peer) => handleAll handle payloads peer
      | (.error reason, peer) => (.error reason, peer) := by
  simp only [handleAll, bind]
  cases handle payload peer with
  | mk result next => cases result <;> rfl

/-- Frames behind one whose handling signals are not handled. -/
theorem handleAll_append {earlier : List Bytes} {peer peer' : Peer σ} {reason : ε}
    (signals : handleAll handle earlier peer = (.error reason, peer')) (later : List Bytes) :
    handleAll handle (earlier ++ later) peer = (.error reason, peer') := by
  induction earlier generalizing peer with
  | nil => cases signals
  | cons payload earlier ih =>
      rw [List.cons_append, handleAll_cons]
      rw [handleAll_cons] at signals
      cases handled : handle payload peer with
      | mk result next =>
          rw [handled] at signals
          cases result with
          | ok _ => exact ih signals
          | error _ => exact signals

/-- A call of the loop dispatches all complete frames from OFFSET on, or all up to one whose
handling signals. -/
theorem wp_filterLoop (acc : Bytes) (offset : Nat) (c : Channel σ) :
    Routine.wp (filterLoop limit handle acc offset)
      (fun final t =>
        acc.drop final = ((deframer limit).drain (acc.drop offset)).rest ∧
        (((deframer limit).drain (acc.drop offset)).ended = false →
          final = offset + span (frames limit (acc.drop offset))) ∧
        (((deframer limit).drain (acc.drop offset)).ended = true → t.peer.deleted = true) ∧
        t = { c with
          peer := t.peer
          dispatched := c.dispatched ++
            positions (c.consumed + offset) (frames limit (acc.drop offset)) })
      (fun _ t => ∃ earlier payload later,
        frames limit (acc.drop offset) = earlier ++ payload :: later ∧
        (∃ reason peer, handleAll handle (earlier ++ [payload]) c.peer = (.error reason, peer)) ∧
        t = { c with
          peer := t.peer
          dispatched := c.dispatched ++
            positions (c.consumed + offset) (earlier ++ [payload])
          signalled := c.signalled ++ [c.consumed + offset + span earlier] }) c := by
  have size : (acc.drop offset).length = acc.length - offset := List.length_drop
  have same := announced_drop acc offset
  by_cases enough : 4 ≤ acc.length - offset
  · by_cases allowed : announced acc offset ≤ limit
    · by_cases part : acc.length - offset < 4 + announced acc offset
      · have short : (deframer limit).front (acc.drop offset) = .short :=
          front_incomplete (by omega) (by omega)
        rw [filterLoop]
        simp [enough, frameSizeAllowed, allowed, part, frames, Deframer.drain_short short, span,
          positions]
      · have frame : (deframer limit).front (acc.drop offset) = _ :=
          front_frame (by omega) (by omega)
        obtain ⟨payload, is_payload⟩ : ∃ payload,
          payload = (acc.drop (offset + 4)).take (announced acc offset) := ⟨_, rfl⟩
        have length : payload.length = announced acc offset := by
          rw [is_payload, List.length_take, List.length_drop]
          omega
        have drained : (deframer limit).drain (acc.drop offset) =
            ((deframer limit).drain (acc.drop (offset + 4 + announced acc offset))).after
              [payload] := by
          rw [Deframer.drain_frame frame, ← same, List.drop_drop, List.drop_drop, ← Nat.add_assoc,
            is_payload]
        have found : frames limit (acc.drop offset) =
            payload :: frames limit (acc.drop (offset + 4 + announced acc offset)) := by
          rw [frames, drained]
          rfl
        rw [filterLoop]
        simp only [enough, if_true, frameSizeAllowed, allowed, decide_true, not_true_eq_false,
          if_false, part, Routine.wp_bind, ← is_payload]
        rw [found]
        cases handled : handle payload c.peer with
        | mk result peer =>
            cases result with
            | error reason =>
                simp only [Routine.wp, dispatchFrame, handled]
                refine ⟨[], payload, _, rfl, ⟨reason, peer, ?_⟩, ?_⟩
                · rw [List.nil_append, handleAll_cons, handled]
                · simp [positions, span]
            | ok value =>
                obtain ⟨next, is_next⟩ : ∃ next : Channel σ, next =
                    { c with
                      peer := peer
                      dispatched := c.dispatched ++ [c.consumed + offset] } := ⟨_, rfl⟩
                have runs : dispatchFrame handle offset payload c = (.ok (), next) := by
                  rw [is_next]
                  simp only [dispatchFrame, handled]
                have later := wp_filterLoop acc (offset + 4 + announced acc offset) next
                apply Routine.wp_of_runs runs
                apply Routine.wp_mono later
                · intro final t ends
                  obtain ⟨rest, size, ended, same⟩ := ends
                  rw [drained]
                  refine ⟨rest, fun running => ?_, ended, ?_⟩
                  · rw [size running, span, span, List.map_cons, List.sum_cons, length]
                    omega
                  · rw [same, is_next, positions, length, List.append_assoc]
                    simp only [Channel.mk.injEq, List.singleton_append, and_true, true_and]
                    rw [← Nat.add_assoc, ← Nat.add_assoc]
                · intro reason t ends
                  obtain ⟨earlier, last, behind, split, signals, same⟩ := ends
                  refine ⟨payload :: earlier, last, behind, by rw [split]; rfl, ?_, ?_⟩
                  · rw [List.cons_append, handleAll_cons, handled]
                    rw [is_next] at signals
                    exact signals
                  · rw [same, is_next, List.cons_append, positions, length, List.append_assoc]
                    simp only [span, List.map_cons, List.sum_cons, length, List.singleton_append,
                      Nat.add_assoc]
    · have bad : (deframer limit).front (acc.drop offset) = .bad :=
        front_bad (by omega) (by omega)
      rw [filterLoop]
      simp [enough, frameSizeAllowed, allowed, frames, Deframer.drain_bad bad, positions]
  · have short : (deframer limit).front (acc.drop offset) = .short := front_short (by omega)
    rw [filterLoop]
    simp [enough, frames, Deframer.drain_short short, span, positions]
termination_by acc.length - offset

end Loop

section Arrivals

variable {σ ε : Type} {limit : Nat} {handle : Bytes → Routine (Peer σ) ε Unit} {c : Channel σ}
  {early : List Bytes}

/-- After the frames `early` the accumulator begins with what has not been dispatched, or with a
frame whose handling signalled. -/
structure Ready (limit : Nat) (c : Channel σ) (early : List Bytes) : Prop where
  read : ∀ more, frames limit (c.received ++ more) = early ++ frames limit (c.acc ++ more)
  consumed : c.consumed = span early
  dispatched : c.dispatched.filter (· ∉ c.signalled) = (positions 0 early).filter (· ∉ c.signalled)
  kept : ∀ position ∈ positions c.consumed (frames limit c.acc), position ∈ c.signalled

structure Steady (limit : Nat) (c : Channel σ) : Prop where
  undisturbed : Undisturbed limit c
  ready : c.peer.deleted = false → (frames limit c.acc).length ≤ 1 → ∃ early, Ready limit c early

theorem filter_finer {xs ys old : List Nat}
    (same : xs.filter (· ∉ old) = ys.filter (· ∉ old)) (new : List Nat) :
    xs.filter (· ∉ old ++ new) = ys.filter (· ∉ old ++ new) := by
  have split : ∀ zs : List Nat,
      zs.filter (· ∉ old ++ new) = (zs.filter (· ∉ old)).filter (· ∉ new) := by
    intro zs
    rw [List.filter_filter]
    apply List.filter_congr
    intro z _
    by_cases inOld : z ∈ old <;> by_cases inNew : z ∈ new <;> simp [inOld, inNew]
  rw [split, split, same]

/-- Frames are dispatched that follow those dispatched so far. -/
theorem Ready.dispatch (ready : Ready limit c early) (next new : List Bytes) (signalled : List Nat)
    (same : new = early ++ next) :
    (c.dispatched ++ positions c.consumed next).filter (· ∉ c.signalled ++ signalled) =
      (positions 0 new).filter (· ∉ c.signalled ++ signalled) := by
  rw [same, positions_append, List.filter_append, List.filter_append, Nat.zero_add, ready.consumed,
    filter_finer ready.dispatched signalled]

theorem Ready.undisturbed (ready : Ready limit c early) : Undisturbed limit c := by
  have whole := ready.read []
  rw [List.append_nil, List.append_nil] at whole
  have nothing : (positions (span early) (frames limit c.acc)).filter (· ∉ c.signalled) = [] := by
    apply List.filter_eq_nil_iff.mpr
    intro position member
    simpa using ready.kept position (ready.consumed ▸ member)
  rw [Undisturbed, whole, positions_append, List.filter_append, Nat.zero_add, nothing,
    List.append_nil, ready.dispatched]

theorem Ready.chunk (ready : Ready limit c early) (chunk : Bytes)
    (handled : ∀ reason peer,
      handleAll handle (frames limit (c.acc ++ chunk)).dropLast c.peer ≠ (.error reason, peer)) :
    Steady limit ((filter limit handle chunk).after c) := by
  have received := ready.read chunk
  obtain ⟨arrived, is_arrived⟩ : ∃ arrived : Channel σ, arrived =
    { c with acc := c.acc ++ chunk, received := c.received ++ chunk } := ⟨_, rfl⟩
  apply Routine.after_of_wp
  simp only [filter, Routine.wp_bind, Routine.wp_update, Routine.wp_fetch]
  rw [← is_arrived]
  have acc : arrived.acc = c.acc ++ chunk := by rw [is_arrived]
  apply Routine.wp_mono (wp_filterLoop (c.acc ++ chunk) 0 arrived)
  · intro final t ends
    obtain ⟨rest, size, deleted, same⟩ := ends
    rw [List.drop_zero] at rest size deleted same
    have kept : (if final = 0 then c.acc ++ chunk else (c.acc ++ chunk).drop final) =
        ((deframer limit).drain (c.acc ++ chunk)).rest := by
      rw [← rest]
      split
      · rename_i unmoved
        rw [unmoved, List.drop_zero]
      · rfl
    have dispatched : ∀ new, new = early ++ frames limit (c.acc ++ chunk) →
        t.dispatched.filter (· ∉ t.signalled) = (positions 0 new).filter (· ∉ t.signalled) := by
      intro new split
      rw [same, is_arrived]
      simpa using ready.dispatch (frames limit (c.acc ++ chunk)) new [] split
    have stream : t.received = c.received ++ chunk := by rw [same, is_arrived]
    have consumed : t.consumed = c.consumed := by rw [same, is_arrived]
    rw [kept]
    cases ended : ((deframer limit).drain (c.acc ++ chunk)).ended with
    | true =>
        constructor
        · show t.dispatched.filter _ = _
          rw [stream, received]
          exact dispatched _ rfl
        · intro alive
          rw [deleted ended] at alive
          cases alive
    | false =>
        have next : Ready limit { t with
            acc := ((deframer limit).drain (c.acc ++ chunk)).rest
            consumed := t.consumed + final } (early ++ frames limit (c.acc ++ chunk)) := by
          refine ⟨fun more => ?_, ?_, dispatched _ rfl, ?_⟩
          · show frames limit (t.received ++ more) = _
            rw [stream, List.append_assoc, ready.read, ← List.append_assoc, frames_append ended,
              List.append_assoc]
          · show t.consumed + final = _
            rw [consumed, size ended, ready.consumed, span_append, Nat.zero_add]
          · rw [rest_short ended]
            intro position member
            cases member
        exact ⟨next.undisturbed, fun _ _ => ⟨_, next⟩⟩
  · intro reason t ends
    obtain ⟨earlier, payload, later, split, ⟨reason', peer, signals⟩, same⟩ := ends
    rw [List.drop_zero] at split
    have last : later = [] := by
      cases later with
      | nil => rfl
      | cons behind later =>
          have shape : (earlier ++ payload :: behind :: later).dropLast =
              (earlier ++ [payload]) ++ (behind :: later).dropLast := by
            rw [List.dropLast_append_cons, List.dropLast_cons_cons, List.append_assoc]
            rfl
          rw [split, shape] at handled
          rw [is_arrived] at signals
          exact absurd (handleAll_append signals _) (handled reason' peer)
    rw [last] at split
    have received : frames limit t.received = early ++ (earlier ++ [payload]) := by
      rw [same, is_arrived, ← split]
      exact received
    constructor
    · rw [Undisturbed, received, same, is_arrived]
      exact ready.dispatch (earlier ++ [payload]) _ _ rfl
    · intro _ few
      have acc : t.acc = c.acc ++ chunk := by rw [same, acc]
      rw [acc, split, List.length_append, List.length_singleton] at few
      have first : earlier = [] := List.eq_nil_of_length_eq_zero (by omega)
      refine ⟨early, fun more => ?_, ?_, ?_, ?_⟩
      · rw [acc, same, is_arrived]
        show frames limit (c.received ++ chunk ++ more) = _
        rw [List.append_assoc, ready.read, ← List.append_assoc]
      · rw [same, is_arrived]
        exact ready.consumed
      · -- the frame is dispatched once more, but its handling has signalled
        have again : [c.consumed].filter (· ∉ c.signalled ++ [c.consumed]) = [] := by simp
        rw [same, is_arrived, first]
        simp only [List.nil_append, positions, span, List.map_nil, List.sum_nil, Nat.add_zero]
        rw [List.filter_append, again, List.append_nil]
        exact filter_finer ready.dispatched _
      · rw [acc, split, same, is_arrived, first]
        intro position member
        simp only [List.nil_append, positions, List.mem_singleton] at member
        simp [member, span]

theorem Steady.step (steady : Steady limit c) (arrival : Arrival σ)
    (orderly : Orderly limit handle c arrival) :
    Steady limit (c.step limit handle arrival) := by
  cases arrival with
  | chunk chunk =>
      cases alive : c.peer.deleted with
      | true =>
          simp only [Channel.step, alive, if_true]
          exact steady
      | false =>
          obtain ⟨few, handled⟩ := orderly alive
          obtain ⟨early, ready⟩ := steady.ready alive few
          simp only [Channel.step, alive, Bool.false_eq_true, if_false]
          exact ready.chunk chunk handled
  | elsewhere deleted rest =>
      refine ⟨steady.undisturbed, fun alive few => ?_⟩
      have before : c.peer.deleted = false := (Bool.or_eq_false_iff.mp alive).1
      obtain ⟨early, ready⟩ := steady.ready before few
      exact ⟨early, ready.read, ready.consumed, ready.dispatched, ready.kept⟩

theorem steady_start (limit : Nat) (rest : σ) : Steady limit { peer := { rest := rest } } := by
  have nothing : frames limit [] = [] := by
    rw [frames, Deframer.drain_short (front_nil limit)]
  have ready : Ready limit ({ peer := { rest := rest } } : Channel σ) [] := by
    refine ⟨fun _ => rfl, rfl, rfl, ?_⟩
    rw [nothing]
    intro position member
    cases member
  exact ⟨ready.undisturbed, fun _ _ => ⟨[], ready⟩⟩

end Arrivals

end Channel

section Dispatch

variable {ω : Type}

/-- What `relay--dispatch` can signal; an event handler sends requests. -/
inductive Trouble where
  | malformed
  | core (reason : CoreError)
deriving DecidableEq, Repr

variable (limit maxLength : Nat) (parse : Bytes → Option Message)
  (handleEvent : Message → Routine (Peer (Conn × ω)) Trouble Unit)

/-- `relay--dispatch` of a payload. `parse` decodes it and reads it as JSON, `handleEvent` is
`relay--handle-event`, which works on the caches and sends requests. A full queue makes
`relay--enqueue-callback` delete the process. -/
def dispatchText (payload : Bytes) : Routine (Peer (Conn × ω)) Trouble Unit :=
  match parse payload with
  | none => .signal .malformed
  | some message =>
      if message.event then handleEvent message
      else fun peer =>
        match dispatch maxLength message peer.rest.1 with
        | (.ok _, conn) => (.ok (), { peer with rest := (conn, peer.rest.2) })
        | (.error reason, conn) => (.error (.core reason), ⟨true, conn, peer.rest.2⟩)

/-- What a connection becomes as its output arrives in chunks. -/
abbrev Channel.Reached (rest : Conn × ω) (permitted : Channel (Conn × ω) →
    Channel.Arrival (Conn × ω) → Prop) (c : Channel (Conn × ω)) : Prop :=
  Reaches (Channel.step limit (dispatchText maxLength parse handleEvent)) permitted
    { peer := { rest := rest } } c

end Dispatch

/-- In every run in which a frame's handling signals only where it is the last complete frame, and
one left in the accumulator so is alone there, every other frame received is dispatched once and in
order. -/
theorem frames_dispatched_once {ω : Type} {limit maxLength : Nat} {parse : Bytes → Option Message}
    {handleEvent : Message → Routine (Peer (Conn × ω)) Trouble Unit} {rest : Conn × ω}
    {c : Channel (Conn × ω)}
    (reached : Channel.Reached limit maxLength parse handleEvent rest
      (Channel.Orderly limit (dispatchText maxLength parse handleEvent)) c) :
    c.Undisturbed limit := by
  have steady : Channel.Steady limit c :=
    reached.invariant (Channel.steady_start limit rest) fun _ arrival steady orderly =>
      steady.step arrival orderly
  exact steady.undisturbed

section Samples

/-- The event that the server reports when it lost some. -/
def overflowEvent : Bytes := utf8Bytes (Json.obj [("event", .str "overflow")]).text

def parseOverflow (payload : Bytes) : Option Message :=
  if payload = overflowEvent then some { event := true } else none

/-- An event handler that sends a request, if the process can be written to. -/
def sendsOnEvent (_ : Message) : Routine (Peer (Conn × Bool)) Trouble Unit := fun peer =>
  if peer.rest.2 then (.ok (), peer) else (.error (.core .sendFailed), peer)

def oneEvent : Bytes := Server.frame overflowEvent

/-- The handling of an event signals; it is dispatched again with the next one, and then both are
handled. -/
def resent : List (Channel.Arrival (Conn × Bool)) :=
  [.chunk oneEvent, .elsewhere false ({}, true), .chunk oneEvent]

theorem handleAll_event {peer : Peer (Conn × Bool)} (sends : peer.rest.2 = true) :
    Channel.handleAll (dispatchText 10000 parseOverflow sendsOnEvent) [overflowEvent] peer =
      (.ok (), peer) := by
  have handled : dispatchText 10000 parseOverflow sendsOnEvent overflowEvent peer =
      (.ok (), peer) := by
    have event : dispatchText 10000 parseOverflow sendsOnEvent overflowEvent =
        sendsOnEvent { event := true } := by
      simp [dispatchText, parseOverflow]
    rw [event, sendsOnEvent, sends]
    rfl
  rw [Channel.handleAll_cons, handled]
  rfl

theorem frames_dispatched_once_resent :
    (resent.foldl (Channel.step 33554432 (dispatchText 10000 parseOverflow sendsOnEvent))
      { peer := { rest := ({}, false) } }).dispatched = [0, 0, oneEvent.length] ∧
    (resent.foldl (Channel.step 33554432 (dispatchText 10000 parseOverflow sendsOnEvent))
      { peer := { rest := ({}, false) } }).Undisturbed 33554432 := by
  have reached : Channel.Reached 33554432 10000 parseOverflow sendsOnEvent ({}, false)
      (Channel.Orderly 33554432 (dispatchText 10000 parseOverflow sendsOnEvent))
      (resent.foldl (Channel.step 33554432 (dispatchText 10000 parseOverflow sendsOnEvent))
        { peer := { rest := ({}, false) } }) := by
    apply Reaches.of_along .refl
    refine ⟨fun _ => ⟨by decide +kernel, ?_⟩, trivial, fun _ => ⟨by decide +kernel, ?_⟩, trivial⟩
    · intro reason peer signals
      have none : (Channel.frames 33554432 ([] ++ oneEvent)).dropLast = [] := by decide +kernel
      rw [show (Channel.frames 33554432 _).dropLast = [] from none] at signals
      cases signals
    · intro reason peer signals
      obtain ⟨c, is_c⟩ : ∃ c, c = (resent.take 2).foldl
          (Channel.step 33554432 (dispatchText 10000 parseOverflow sendsOnEvent))
          { peer := { rest := ({}, false) } } := ⟨_, rfl⟩
      have first : (Channel.frames 33554432 (c.acc ++ oneEvent)).dropLast = [overflowEvent] := by
        rw [is_c]
        decide +kernel
      have sends : c.peer.rest.2 = true := by
        rw [is_c]
        decide +kernel
      have handled := handleAll_event sends
      rw [← first, is_c] at handled
      exact absurd (handled.symm.trans signals) (by simp)
  exact ⟨by decide +kernel, frames_dispatched_once reached⟩

/-- A malformed frame follows an event. -/
def torn : List (Channel.Arrival (Conn × Bool)) :=
  [.chunk (oneEvent ++ Server.frame [125]), .chunk oneEvent]

/-- The event before the malformed frame is dispatched again, and the one behind it never. -/
theorem frame_dispatched_again :
    ¬ ∀ c, Channel.Reached 33554432 10000 parseOverflow sendsOnEvent ({}, true)
      (fun _ _ => True) c → c.Undisturbed 33554432 := by
  intro undisturbed
  have reached : Channel.Reached 33554432 10000 parseOverflow sendsOnEvent ({}, true)
      (fun _ _ => True) (torn.foldl
        (Channel.step 33554432 (dispatchText 10000 parseOverflow sendsOnEvent))
        { peer := { rest := ({}, true) } }) := by
    apply Reaches.of_along .refl
    exact ⟨trivial, trivial, trivial⟩
  exact absurd (undisturbed _ reached) (by decide +kernel)

end Samples

end EmacsRelay.RelayCore

import EmacsRelay.Lib.Routine
import EmacsRelay.Lib.Reach
import Mathlib.Tactic.Simps.Basic

set_option autoImplicit false

/- Requests of one connection, `lisp/relay-core.el`: the pending table, the queue of callbacks,
the timers, and the calls that block. Callbacks are arbitrary code: what one does shows up as
events of its own, until it returns or signals. -/
namespace EmacsRelay.RelayCore

structure Message where
  id : Option Int := none
  event : Bool := false
  more : Bool := false
  ok : Bool := false
  protocolVersion : Option Int := none
  capabilities : List String := []
  body : String := ""
deriving DecidableEq, Repr

/-- The request a message replies to: its `:id`, a positive integer, unless it is an event. -/
def Message.repliesTo (m : Message) : Option Nat :=
  if m.event then none
  else
    match m.id with
    | some (.ofNat (id + 1)) => some (id + 1)
    | _ => none

/-- What a requester is given: a message, or a failure made up by the client. -/
inductive Reply where
  | message (message : Message)
  | transport (error : String)
  | timeout
deriving DecidableEq, Repr

def Reply.ok : Reply → Bool
  | .message m => m.ok
  | .transport _ => false
  | .timeout => false

/-- An entry of the pending table. The callbacks are known by the id they wait for. -/
inductive Entry where
  | waiting
  | replied (reply : Reply)
  | callback
  | stream
deriving DecidableEq, Repr

/-- A completion callback is to be run: the entry is of an asynchronous request. -/
def Entry.isAsync : Entry → Bool
  | .waiting => false
  | .replied _ => false
  | .callback => true
  | .stream => true

/-- A queued callback: the completion of request `id`, or one of the chunks before it. -/
structure Thunk where
  id : Nat
  final : Bool
  reply : Reply
deriving DecidableEq, Repr

inductive Timer where
  | drain
  | timeout (id : Nat)
  | call (id : Nat) (reply : Reply)
deriving DecidableEq, Repr

/-- Code under way: a synchronous request that waits, or a callback with the queued ones that
are to be run after it returns. -/
inductive Frame where
  | waiting (id : Nat)
  | running (rest : List Thunk)
deriving DecidableEq, Repr

def Frame.rest : Frame → List Thunk
  | .waiting _ => []
  | .running rest => rest

inductive Result where
  | reply (reply : Option Reply)
  | timedOut
  | unsent
deriving DecidableEq, Repr

/-- `relay-conn`, with the timers and the calls that concern it. From `calls` on it records
what happened: callbacks run, results given, requests sent, cancelled in time, and processed. -/
structure Conn where
  live : Bool := true
  nextId : Nat := 0
  pending : Nat → Option Entry := fun _ => none
  queue : List Thunk := []
  drainScheduled : Bool := false
  timers : List Timer := []
  frames : List Frame := []
  calls : List (Nat × Reply) := []
  chunks : List (Nat × Reply) := []
  results : List (Nat × Result) := []
  asked : List Nat := []
  sent : List Nat := []
  cancelled : List Nat := []
  processed : List Nat := []

inductive CoreError where
  | overflow
  | sendFailed
deriving DecidableEq, Repr

abbrev Core (α : Type) := Routine Conn CoreError α

namespace Conn

def isAsync (c : Conn) (id : Nat) : Bool := (c.pending id).any Entry.isAsync

@[simps] def put (c : Conn) (id : Nat) (entry : Entry) : Conn :=
  { c with pending := fun key => if key = id then some entry else c.pending key }

@[simps] def remove (c : Conn) (id : Nat) : Conn :=
  { c with pending := fun key => if key = id then none else c.pending key }

@[simps] def runAtTime (c : Conn) (timer : Timer) : Conn :=
  { c with timers := c.timers ++ [timer] }

@[simps] def enqueue (c : Conn) (thunk : Thunk) : Conn :=
  { c with queue := thunk :: c.queue }

/-- `delete-process`. The sentinel runs in an event of its own. -/
@[simps] def deleteProcess (c : Conn) : Conn := { c with live := false }

/-- `relay--conn-has-blocked-waiter-p`. Ids are handed out in order. -/
def hasBlockedWaiter (c : Conn) : Bool :=
  (List.range (c.nextId + 1)).any fun id => c.pending id = some .waiting

/-- A callback is entered, with `rest` to be run after it. -/
@[simps] def enter (c : Conn) (thunk : Thunk) (rest : List Thunk) : Conn :=
  { c with
    frames := .running rest :: c.frames
    calls := if thunk.final then c.calls ++ [(thunk.id, thunk.reply)] else c.calls
    chunks := if thunk.final then c.chunks else c.chunks ++ [(thunk.id, thunk.reply)] }

@[simps] def leave (c : Conn) : Conn := { c with frames := c.frames.tail }

@[simps] def conclude (c : Conn) (id : Nat) (result : Result) : Conn :=
  { c with results := c.results ++ [(id, result)] }

end Conn

def maybeScheduleDrain : Core Unit := do
  let c ← .fetch
  .whenever (!c.drainScheduled) do
    .update fun c => { c with drainScheduled := true }
    .update (·.runAtTime .drain)

/-- `relay--enqueue-callback`; `maxLength` is `relay-callback-queue-max-length`. -/
def enqueueCallback (maxLength : Nat) (thunk : Thunk) : Core Unit := do
  let c ← .fetch
  if maxLength ≤ c.queue.length then do
    .update (·.deleteProcess)
    .signal .overflow
  else do
    .update (·.enqueue thunk)
    maybeScheduleDrain

/-- `relay--drain-callback-queue`, up to the entry of the first callback. -/
def drainCallbackQueue : Core Unit := do
  .update fun c => { c with drainScheduled := false }
  let c ← .fetch
  match c.queue.reverse with
  | [] => pure ()
  | thunk :: rest =>
      if c.hasBlockedWaiter then maybeScheduleDrain
      else do
        .update fun c => { c with queue := [] }
        .update (·.enter thunk rest)

/-- The part of `relay--dispatch` for a reply to request `id`. -/
def dispatchReply (maxLength : Nat) (id : Nat) (message : Message) : Core Unit := do
  let c ← .fetch
  match c.pending id with
  | some .stream =>
      if message.more then enqueueCallback maxLength ⟨id, false, .message message⟩
      else do
        .update (·.remove id)
        enqueueCallback maxLength ⟨id, true, .message message⟩
  | some .callback => do
      .update (·.remove id)
      enqueueCallback maxLength ⟨id, true, .message message⟩
  | some .waiting => .update (·.put id (.replied (.message message)))
  | some (.replied _) => pure ()
  | none => pure ()

/-- `relay--dispatch`. Events concern the caches only. -/
def dispatch (maxLength : Nat) (message : Message) : Core Unit :=
  match message.repliesTo with
  | some id => dispatchReply maxLength id message
  | none => pure ()

def failPending (failure : Reply) : Core Unit :=
  .update fun c =>
    { c with
      pending := fun id =>
        match c.pending id with
        | some .waiting => some (.replied failure)
        | some .callback => none
        | some .stream => none
        | other => other
      timers := c.timers ++
        ((List.range (c.nextId + 1)).reverse.filter c.isAsync).map (.call · failure) }

/-- `relay--sentinel`, as far as requests are concerned. -/
def sentinel (error : String) : Core Unit := do
  let c ← .fetch
  .whenever (!c.live) (failPending (.transport error))

/-- `relay--send`, which signals when the process cannot be written to. -/
def sendRequest (sends : Bool) : Core Unit :=
  if sends then pure () else .signal .sendFailed

/-- `relay--request-async` and `relay--request-stream`, which differ in the entry they leave. -/
def requestWith (entry : Entry) (timeout sends : Bool) : Core Nat := do
  let c ← .fetch
  let id := c.nextId + 1
  .update fun c => { c with nextId := id }
  .update (·.put id entry)
  sendRequest sends
  .whenever timeout (.update (·.runAtTime (.timeout id)))
  pure id

def requestAsync : Bool → Bool → Core Nat := requestWith .callback

def requestStream : Bool → Bool → Core Nat := requestWith .stream

def cancelRequest (id : Nat) : Core Unit := .update (·.remove id)

def timeoutRequest (maxLength : Nat) (id : Nat) : Core Unit := do
  let c ← .fetch
  .whenever (c.isAsync id) do
    .update (·.remove id)
    enqueueCallback maxLength ⟨id, true, .timeout⟩

/-- `relay--request`, up to its wait. -/
def request (sends : Bool) : Core Unit := do
  let c ← .fetch
  let id := c.nextId + 1
  .update fun c => { c with nextId := id }
  .update (·.put id .waiting)
  .rescue
    (do
      sendRequest sends
      .update fun c => { c with frames := .waiting id :: c.frames })
    fun _ => do
      .update (·.remove id)
      .update (·.conclude id .unsent)

/-- The body of the loop of `relay--request`, once `accept-process-output` has returned, and
what follows the loop. -/
def awake (id : Nat) (expired : Bool) : Core Unit := do
  let c ← .fetch
  .whenever (c.pending id = some .waiting && !c.live)
    (.update (·.put id (.replied (.transport "transport exited"))))
  if expired then do
    .update (·.remove id)
    .update (·.leave)
    .update (·.conclude id .timedOut)
  else do
    let c ← .fetch
    if c.pending id = some .waiting then pure ()
    else do
      let reply := match c.pending id with
        | some (.replied reply) => some reply
        | _ => none
      .update (·.remove id)
      .update (·.leave)
      .update (·.conclude id (.reply reply))

inductive Act where
  | requestAsync (timeout sends : Bool)
  | requestStream (timeout sends : Bool)
  | request (sends : Bool)
  /-- `accept-process-output` returns to the innermost request that waits. -/
  | awake (expired : Bool)
  | cancel (id : Nat)
  | message (message : Message)
  | timer (index : Nat)
  /-- The callback under way returns, or signals. -/
  | finish (signals : Bool)
  | die
  | sentinel (error : String)
deriving DecidableEq, Repr

/-- The message is the final reply to a pending asynchronous request. -/
def Conn.finalFor (c : Conn) (message : Message) (id : Nat) : Bool :=
  message.repliesTo = some id &&
    match c.pending id with
    | some .callback => true
    | some .stream => !message.more
    | _ => false

/-- The asynchronous requests that the event takes for ended. -/
def Conn.ends (c : Conn) : Act → List Nat
  | .message message => (List.range (c.nextId + 1)).filter (c.finalFor message)
  | .timer index =>
      match c.timers[index]? with
      | some (.timeout id) => if c.isAsync id then [id] else []
      | _ => []
  | .sentinel _ => if c.live then [] else (List.range (c.nextId + 1)).filter c.isAsync
  | _ => []

/-- A timer is taken off the list and its function is called. -/
def runTimer (maxLength : Nat) (index : Nat) : Core Unit := do
  let c ← .fetch
  match c.timers[index]? with
  | none => pure ()
  | some timer => do
      .update fun c => { c with timers := c.timers.eraseIdx index }
      match timer with
      | .drain => drainCallbackQueue
      | .timeout id => timeoutRequest maxLength id
      | .call id reply => .update (·.enter ⟨id, true, reply⟩ [])

/-- The callback under way returns, and the next of the same drain is entered; or it signals,
and the drain is over. -/
def finishCallback (signals : Bool) : Core Unit := do
  let c ← .fetch
  match c.frames with
  | .running (thunk :: rest) :: _ =>
      if signals then .update (·.leave)
      else do
        .update (·.leave)
        .update (·.enter thunk rest)
  | .running [] :: _ => .update (·.leave)
  | _ => pure ()

/-- A request that is cancelled before it was taken for ended is recorded. -/
def Conn.recordCancel (c : Conn) (id : Nat) : Conn :=
  { c with
    cancelled := if id ≤ c.nextId ∧ id ∉ c.processed then c.cancelled ++ [id] else c.cancelled }

def perform (maxLength : Nat) : Act → Core Unit
  | .requestAsync timeout sends => do
      let id ← requestAsync timeout sends
      .update fun c => { c with sent := c.sent ++ [id] }
  | .requestStream timeout sends => do
      let id ← requestStream timeout sends
      .update fun c => { c with sent := c.sent ++ [id] }
  | .request sends => do
      .update fun c => { c with asked := c.asked ++ [c.nextId + 1] }
      request sends
  | .awake expired => do
      let c ← .fetch
      match c.frames with
      | .waiting id :: _ => awake id expired
      | _ => pure ()
  | .cancel id => do
      .update (·.recordCancel id)
      cancelRequest id
  | .message m => dispatch maxLength m
  | .timer index => runTimer maxLength index
  | .finish signals => finishCallback signals
  | .die => .update (·.deleteProcess)
  | .sentinel error => sentinel error

/-- The requests an event ends are recorded. -/
@[simps] def Conn.record (c : Conn) (ended : List Nat) : Conn :=
  { c with processed := c.processed ++ ended }

/-- One event. An error that leaves a timer, a filter or a callback is caught by the editor. -/
def Conn.step (maxLength : Nat) (c : Conn) (act : Act) : Conn :=
  (perform maxLength act).after (c.record (c.ends act))

/-- States reached by events that are all permitted where they happen. -/
abbrev Conn.Reached (maxLength : Nat) (permitted : Conn → Act → Prop) (c : Conn) : Prop :=
  Reaches (Conn.step maxLength) permitted {} c

end EmacsRelay.RelayCore

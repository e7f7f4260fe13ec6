import EmacsRelay.Core.Chunked
import EmacsRelay.Core.Places

set_option autoImplicit false

/- `relay-tail-read-chunked-async` of `lisp/relay-core.el` over the connections of its authority:
who hears of a sequence, and what is asked for, once its token is cancelled. -/
namespace EmacsRelay.RelayTailRead

open RelayCore

/-- What on-error is given: the failure of the connection, or of the request, or what a server
without tail reads can do. -/
inductive Failure where
  | unconnected
  | refused (reply : Reply)
  | unsupported (capabilities : List String)
deriving DecidableEq, Repr

inductive Ending where
  | success (result : Assembled)
  | error (failure : Failure)
deriving DecidableEq, Repr

/-- A call of on-success or on-error, and whether the token was cancelled by then. -/
structure Call where
  ending : Ending
  cancelled : Bool
deriving DecidableEq, Repr

/-- A call of `relay-tail-read-chunked-async`, with the connections it uses. `waiters` and
`requests` give the loop state that a function of the sequence closes over, where a waiter or an
entry of a pending table has one; `refusals` are the timers for servers without tail reads. From
`calls` on it records what happened: the caller's functions called, and whether the token was
cancelled when a chunk was asked for, and when a request was made. -/
structure Reading where
  client : Client := {}
  begun : Bool := false
  cancelled : Bool := false
  waiters : Nat → Option Loop := fun _ => none
  requests : Nat → Nat → Option Loop := fun _ _ => none
  refusals : List (List String) := []
  calls : List Call := []
  chunks : List Bool := []
  requested : List Bool := []

inductive ReadEvent where
  /-- `relay-tail-read-chunked-async` is called. -/
  | start (knownOffset : Nat) (knownDev knownIno : Option Nat) (launch : Launch)
  /-- `relay-tail-read-cancel` is called with the token, if there is one. -/
  | cancel
  /-- The timer goes off that tells of a server without tail reads. -/
  | refusal (index : Nat)
  /-- A timer calls a waiter's function; `sends` tells whether a request can be sent by it. -/
  | notice (index : Nat) (sends : Bool)
  /-- Whatever else happens to the connections; `next` is for the chunk after one that arrives. -/
  | client (event : ClientEvent) (next : Launch)

/-- The server of a connection has `tail-read-v1`. -/
def supportsTailRead (hello : Option Message) : Bool :=
  hello.any (·.capabilities.contains "tail-read-v1")

namespace Reading

variable (maxLength cap : Nat) (read : Reply → Option TailRead)

/-- One of the caller's functions is called. -/
@[simps] def call (s : Reading) (ending : Ending) : Reading :=
  { s with calls := s.calls ++ [⟨ending, s.cancelled⟩] }

/-- `relay-tail-read-async`, up to the wait for a connection. -/
@[simps] def tailReadAsync (s : Reading) (loop : Loop) (launch : Launch) : Reading :=
  { s with
    client := s.client.connectAsync maxLength launch
    waiters := fun w => if w = s.client.nextWaiter then some loop else s.waiters w
    chunks := s.chunks ++ [s.cancelled] }

/-- The function given to `relay-connect-async` for a connection that is ready. -/
def onReady (s : Reading) (loop : Loop) (k : Nat) (sends : Bool) : Reading :=
  let hello := (s.client.attempts k).hello
  if supportsTailRead hello then
    let id := (s.client.attempts k).conn.nextId + 1
    { s with
      client := s.client.deliver maxLength k (.requestAsync false sends) {}
      requests := fun i key => if i = k ∧ key = id then some loop else s.requests i key
      requested := s.requested ++ [s.cancelled] }
  else { s with refusals := s.refusals ++ [hello.elim [] (·.capabilities)] }

/-- What follows from a pass of `step`. -/
def enter (s : Reading) (stage : Stage) (launch : Launch) : Reading :=
  match stage with
  | .waiting loop => s.tailReadAsync maxLength loop launch
  | .succeeded result => s.call (.success result)
  | .failed _ => s
  | .stopped => s

/-- The callback of a chunk's request. `read` gives the fields of a reply; it fails where the bytes
are no base64, and signals. -/
def reply (s : Reading) (loop : Loop) (reply : Reply) (next : Launch) : Reading :=
  if reply.ok then
    match read reply with
    | some result => s.enter maxLength (receive cap s.cancelled loop result) next
    | none => s
  else s.call (.error (.refused reply))

/-- The callback of the sequence that an event of connection `k` runs, with what it is given. -/
def answered (s : Reading) (k : Nat) (after : Conn) : Option (Loop × Reply) :=
  match (after.calls.drop (s.client.attempts k).conn.calls.length).head? with
  | some (id, reply) => (s.requests k id).map (·, reply)
  | none => none

def act (s : Reading) (k : Nat) (act : Act) (launch next : Launch) : Reading :=
  let client := s.client.step maxLength (.act k act launch)
  let moved := { s with client := client }
  match s.answered k (client.attempts k).conn with
  | some (loop, reply) => moved.reply maxLength cap read loop reply next
  | none => moved

def step (s : Reading) : ReadEvent → Reading
  | .start knownOffset knownDev knownIno launch =>
      if s.begun then s
      else
        { s with begun := true }.enter maxLength
          (RelayTailRead.step cap s.cancelled
            ⟨knownOffset, knownDev, knownIno, [], 0, none, none⟩) launch
  | .cancel => if s.begun then { s with cancelled := true } else s
  | .refusal index =>
      match s.refusals[index]? with
      | none => s
      | some capabilities =>
          { s with refusals := s.refusals.eraseIdx index }.call
            (.error (.unsupported capabilities))
  | .notice index sends =>
      match s.client.notices[index]? with
      | none => s
      | some notice =>
          let told := { s with client := s.client.step maxLength (.notice index) }
          match s.waiters notice.waiter with
          | none => told
          | some loop =>
              if notice.ready then told.onReady maxLength loop notice.conn sends
              else told.call (.error .unconnected)
  | .client (.act k act launch) next => s.act maxLength cap read k act launch next
  | .client (.notice _) _ => s
  | .client event _ => { s with client := s.client.step maxLength event }

/-- States reached by events that are all permitted where they happen. -/
abbrev Reached (permitted : Reading → ReadEvent → Prop) (s : Reading) : Prop :=
  Reaches (step maxLength cap read) permitted {} s

/-- The caller hears of the sequence at most once, and not once the token is cancelled; nor is
another chunk asked for then. -/
structure Silent (s : Reading) : Prop where
  once : s.calls.length ≤ 1
  unheard : ∀ call ∈ s.calls, call.cancelled = false
  unasked : true ∉ s.chunks

/-- No request was made while the token was cancelled. -/
def Unrequested (s : Reading) : Prop := true ∉ s.requested

/-- The hello of a connection that the next chunk makes can be sent. -/
def Proceeds (c : Client) (stage : Stage) (launch : Launch) : Prop :=
  ∀ loop, stage = .waiting loop → Sent c launch

/-- The hello of each connection that a chunk makes can be sent, and once the token is cancelled
no chunk fails. -/
def Heeded (s : Reading) : ReadEvent → Prop
  | .start knownOffset knownDev knownIno launch =>
      Proceeds s.client (RelayTailRead.step cap s.cancelled
        ⟨knownOffset, knownDev, knownIno, [], 0, none, none⟩) launch
  | .cancel => True
  | .refusal index => index < s.refusals.length → s.cancelled = false
  | .notice index _ => ∀ notice, s.client.notices[index]? = some notice →
      (s.waiters notice.waiter).isSome = true → notice.ready = false → s.cancelled = false
  | .client event next => ∀ k act launch, event = .act k act launch →
      ∀ loop reply, s.answered k ((s.client.step maxLength event).attempts k).conn =
        some (loop, reply) →
      (reply.ok = false → s.cancelled = false) ∧
      (reply.ok = true → ∀ result, read reply = some result →
        Proceeds (s.client.step maxLength event) (receive cap s.cancelled loop result) next)

/-- When a connection to a server with tail reads is ready, the token is not cancelled. -/
def Wanted (s : Reading) : ReadEvent → Prop
  | .notice index _ => ∀ notice, s.client.notices[index]? = some notice →
      (s.waiters notice.waiter).isSome = true → notice.ready = true →
      supportsTailRead (s.client.attempts notice.conn).hello = true → s.cancelled = false
  | _ => True

end Reading

/-- How far a sequence has come: nothing of it is left, it waits for a connection, for a timer or
for a reply, or the caller has heard of it. -/
inductive Phase where
  | resting
  | waiting (w : Nat)
  | refused
  | asked (k id : Nat)
  | heard
deriving DecidableEq

namespace Reading

/-- What is left of a sequence at a phase is in one place, and nothing was done once the token was
cancelled. -/
structure Placed (s : Reading) (phase : Phase) : Prop where
  housed : Housed s.client
  waiters : ∀ w loop, s.waiters w = some loop → w < s.client.nextWaiter ∧
    (phase = .waiting w ∧ Within 1 w s.client ∨ Within 0 w s.client)
  requests : ∀ k id loop, s.requests k id = some loop → k < s.client.created ∧
    id ≤ (s.client.attempts k).conn.nextId ∧
    (phase = .asked k id ∨ 0 < (s.client.attempts k).conn.done id)
  refusals : s.refusals.length ≤ 1 ∧ (phase ≠ .refused → s.refusals = [])
  calls : s.calls.length ≤ 1 ∧ (phase ≠ .heard → s.calls = [])
  begun : s.begun = false → phase = .resting
  unheard : ∀ call ∈ s.calls, call.cancelled = false
  unasked : true ∉ s.chunks

section Phases

variable {maxLength cap : Nat} {read : Reply → Option TailRead} {s : Reading} {phase : Phase}

theorem placed_start : Placed {} .resting where
  housed := housed_start
  waiters _ _ never := by cases never
  requests _ _ _ never := by cases never
  refusals := ⟨Nat.zero_le 1, fun _ => rfl⟩
  calls := ⟨Nat.zero_le 1, fun _ => rfl⟩
  begun _ := rfl
  unheard _ member := by cases member
  unasked member := by cases member

theorem Placed.silent (placed : Placed s phase) : s.Silent :=
  ⟨placed.calls.1, placed.unheard, placed.unasked⟩

/-- Callbacks that were run stay run. -/
theorem done_step (maxLength : Nat) (c : Conn) (act : Act) (id : Nat) :
    c.done id ≤ (c.step maxLength act).done id := by
  rcases (step_follows maxLength c act).calls with same | ⟨call, new⟩
  · rw [Conn.done, Conn.done, same]
  · rw [Conn.done, Conn.done, new, List.countP_append]
    omega

/-- The connections move, and what is left of the sequence moves with them. -/
theorem Placed.moved (placed : Placed s phase) {c' : Client} {acts : Nat → Option Act}
    {notices : List Notice} (moves : Moves maxLength s.client c' acts notices)
    (housed : Housed c')
    (shifts : ∀ w, w < s.client.nextWaiter → ∃ k, Shifts w k s.client c') :
    Placed { s with client := c' } phase where
  housed := housed
  waiters w loop mine := by
    obtain ⟨known, places⟩ := placed.waiters w loop mine
    obtain ⟨k, shifts⟩ := shifts w known
    refine ⟨Nat.lt_of_lt_of_le known moves.nextWaiter, ?_⟩
    rcases places with ⟨waits, one⟩ | none
    · exact .inl ⟨waits, one.shifts (Nat.le_refl 1) shifts⟩
    · exact .inr (none.shifts (Nat.zero_le 1) shifts)
  requests k id loop mine := by
    obtain ⟨known, made, there⟩ := placed.requests k id loop mine
    have grows : (s.client.attempts k).conn.nextId ≤ (c'.attempts k).conn.nextId ∧
        (s.client.attempts k).conn.done id ≤ (c'.attempts k).conn.done id := by
      obtain ⟨live, same⟩ := moves.conns k known
      rw [same]
      cases acts k with
      | none => exact ⟨Nat.le_refl _, Nat.le_refl _⟩
      | some act =>
          have nextId := (step_history maxLength (s.client.attempts k).conn act).1
          have done := done_step maxLength (s.client.attempts k).conn act id
          exact ⟨by simp only [Option.elim_some]; omega, done⟩
    refine ⟨Nat.lt_of_lt_of_le known moves.created, Nat.le_trans made grows.1, ?_⟩
    rcases there with asked | done
    · exact .inl asked
    · exact .inr (Nat.lt_of_lt_of_le done grows.2)
  refusals := placed.refusals
  calls := placed.calls
  begun := placed.begun
  unheard := placed.unheard
  unasked := placed.unasked

theorem Placed.stepped (placed : Placed s phase) (event : ClientEvent) :
    Placed { s with client := s.client.step maxLength event } phase :=
  placed.moved (moves_step maxLength s.client event) (placed.housed.step event)
    fun _ known => shifts_step event (.inl known)

/-- Nothing is left of the phase. -/
theorem Placed.rests (placed : Placed s phase)
    (untold : ∀ w, phase = .waiting w → Within 0 w s.client)
    (answered : ∀ k id, phase = .asked k id → 0 < (s.client.attempts k).conn.done id)
    (unrefused : s.refusals = []) (unheard : s.calls = []) : Placed s .resting where
  housed := placed.housed
  waiters w loop mine := by
    obtain ⟨known, ⟨waits, -⟩ | none⟩ := placed.waiters w loop mine
    · exact ⟨known, .inr (untold w waits)⟩
    · exact ⟨known, .inr none⟩
  requests k id loop mine := by
    obtain ⟨known, made, asked | done⟩ := placed.requests k id loop mine
    · exact ⟨known, made, .inr (answered k id asked)⟩
    · exact ⟨known, made, .inr done⟩
  refusals := ⟨placed.refusals.1, fun _ => unrefused⟩
  calls := ⟨placed.calls.1, fun _ => unheard⟩
  begun _ := rfl
  unheard := placed.unheard
  unasked := placed.unasked

theorem Placed.gone (placed : Placed s .resting) {w : Nat} {loop : Loop}
    (mine : s.waiters w = some loop) : w < s.client.nextWaiter ∧ Within 0 w s.client := by
  obtain ⟨known, ⟨never, -⟩ | none⟩ := placed.waiters w loop mine
  · cases never
  · exact ⟨known, none⟩

theorem Placed.done (placed : Placed s .resting) {k id : Nat} {loop : Loop}
    (mine : s.requests k id = some loop) : k < s.client.created ∧
    id ≤ (s.client.attempts k).conn.nextId ∧ 0 < (s.client.attempts k).conn.done id := by
  obtain ⟨known, made, never | done⟩ := placed.requests k id loop mine
  · cases never
  · exact ⟨known, made, done⟩

theorem Placed.call (placed : Placed s .resting) (begun : s.begun = true)
    (wanted : s.cancelled = false) (ending : Ending) : Placed (s.call ending) .heard := by
  have none : s.calls = [] := placed.calls.2 (by simp)
  constructor
  · exact placed.housed
  · intro w loop mine
    exact ⟨(placed.gone mine).1, .inr (placed.gone mine).2⟩
  · intro k id loop mine
    obtain ⟨known, made, done⟩ := placed.done mine
    exact ⟨known, made, .inr done⟩
  · exact ⟨placed.refusals.1, fun _ => placed.refusals.2 (by simp)⟩
  · exact ⟨by simp [none], fun other => absurd rfl other⟩
  · intro never
    rw [call_begun, begun] at never
    cases never
  · intro call member
    rw [call_calls, none, List.nil_append, List.mem_singleton] at member
    rw [member, wanted]
  · exact placed.unasked

theorem Placed.tailReadAsync (placed : Placed s .resting) (begun : s.begun = true)
    (wanted : s.cancelled = false) (loop : Loop) {launch : Launch}
    (sent : Sent s.client launch) :
    Placed (s.tailReadAsync maxLength loop launch) (.waiting s.client.nextWaiter) := by
  have moved : Placed { s with client := s.client.connectAsync maxLength launch } .resting :=
    placed.stepped (.connectAsync launch)
  have joined := connectAsync_nextWaiter maxLength s.client launch
  constructor
  · exact moved.housed
  · intro w other mine
    simp only [tailReadAsync_waiters, tailReadAsync_client] at mine ⊢
    split at mine
    · rename_i here
      rw [here]
      exact ⟨by omega, .inl ⟨rfl, within_connectAsync placed.housed sent⟩⟩
    · exact ⟨(moved.gone mine).1, .inr (moved.gone mine).2⟩
  · intro k id other mine
    obtain ⟨known, made, done⟩ := moved.done mine
    exact ⟨known, made, .inr done⟩
  · exact ⟨placed.refusals.1, fun _ => placed.refusals.2 (by simp)⟩
  · exact ⟨placed.calls.1, fun _ => placed.calls.2 (by simp)⟩
  · intro never
    rw [tailReadAsync_begun, begun] at never
    cases never
  · exact placed.unheard
  · intro member
    rw [tailReadAsync_chunks, wanted] at member
    rcases List.mem_append.mp member with earlier | new
    · exact placed.unasked earlier
    · cases List.mem_singleton.mp new

theorem Placed.onReady (placed : Placed s .resting) (begun : s.begun = true) (loop : Loop)
    {k : Nat} (known : k < s.client.created) (sends : Bool) :
    ∃ phase, Placed (s.onReady maxLength loop k sends) phase := by
  have unrefused : s.refusals = [] := placed.refusals.2 (by simp)
  have unheard : s.calls = [] := placed.calls.2 (by simp)
  have late : ∀ {p : Prop}, s.begun = false → p := by
    intro p never
    rw [begun] at never
    cases never
  unfold Reading.onReady
  simp only
  split
  · have handed := handed maxLength s.client k (.requestAsync false sends) {}
    have moved := placed.moved handed.moves
      (placed.housed.deliver known (.requestAsync false sends) {})
      fun w _ => ⟨k, shifts_deliver s.client k (.requestAsync false sends) {}⟩
    refine ⟨.asked k ((s.client.attempts k).conn.nextId + 1), ?_⟩
    constructor
    · exact moved.housed
    · intro w other mine
      exact ⟨(moved.gone mine).1, .inr (moved.gone mine).2⟩
    · intro i id other mine
      simp only at mine ⊢
      split at mine
      · rename_i here
        rw [here.1, here.2]
        have nextId := (step_history maxLength (s.client.attempts k).conn
          (.requestAsync false sends)).1
        obtain ⟨live, same⟩ := handed.conn
        rw [handed.created, same]
        refine ⟨known, ?_, .inl rfl⟩
        simp only [nextId, Act.takesId, Bool.toNat_true]
        omega
      · obtain ⟨created, made, done⟩ := moved.done mine
        exact ⟨created, made, .inr done⟩
    · exact ⟨placed.refusals.1, fun _ => unrefused⟩
    · exact ⟨placed.calls.1, fun _ => unheard⟩
    · exact late
    · exact placed.unheard
    · exact placed.unasked
  · refine ⟨.refused, ?_⟩
    constructor
    · exact placed.housed
    · intro w other mine
      exact ⟨(placed.gone mine).1, .inr (placed.gone mine).2⟩
    · intro i id other mine
      obtain ⟨created, made, done⟩ := placed.done mine
      exact ⟨created, made, .inr done⟩
    · exact ⟨by simp [unrefused], fun other => absurd rfl other⟩
    · exact ⟨placed.calls.1, fun _ => unheard⟩
    · exact late
    · exact placed.unheard
    · exact placed.unasked

theorem Placed.enter (placed : Placed s .resting) (begun : s.begun = true) {stage : Stage}
    (wanted : s.cancelled = true → stage = .stopped) {launch : Launch}
    (proceeds : Proceeds s.client stage launch) :
    ∃ phase, Placed (s.enter maxLength stage launch) phase := by
  have open_token : stage ≠ .stopped → s.cancelled = false := by
    intro other
    cases token : s.cancelled with
    | false => rfl
    | true => exact absurd (wanted token) other
  cases stage with
  | waiting loop =>
      exact ⟨_, placed.tailReadAsync begun (open_token (by simp)) loop (proceeds loop rfl)⟩
  | succeeded result => exact ⟨_, placed.call begun (open_token (by simp)) (.success result)⟩
  | failed failure => exact ⟨_, placed⟩
  | stopped => exact ⟨_, placed⟩

theorem Placed.reply (placed : Placed s .resting) (begun : s.begun = true) (loop : Loop)
    {reply : Reply} {next : Launch} (failed : reply.ok = false → s.cancelled = false)
    (arrived : reply.ok = true → ∀ result, read reply = some result →
      Proceeds s.client (receive cap s.cancelled loop result) next) :
    ∃ phase, Placed (s.reply maxLength cap read loop reply next) phase := by
  unfold Reading.reply
  split
  · rename_i ok
    split
    · rename_i result found
      refine placed.enter begun (fun cancelled => ?_) (arrived ok result found)
      rw [cancelled, receive_cancelled]
    · exact ⟨_, placed⟩
  · rename_i refused
    exact ⟨_, placed.call begun (failed (by simpa using refused)) _⟩

/-- The callback of a request of the sequence is run for the first time. -/
theorem Placed.answered (placed : Placed s phase) {k : Nat} {act : Act} {launch : Launch}
    {loop : Loop} {reply : Reply}
    (found : s.answered k ((s.client.step maxLength (.act k act launch)).attempts k).conn =
      some (loop, reply)) :
    ∃ id, s.requests k id = some loop ∧ (s.client.attempts k).conn.done id = 0 ∧
      0 < ((s.client.step maxLength (.act k act launch)).attempts k).conn.done id := by
  unfold Reading.answered at found
  split at found
  · rename_i id first called
    obtain ⟨mine, request, same⟩ := Option.map_eq_some_iff.mp found
    obtain ⟨rfl, rfl⟩ := Prod.mk.inj same
    refine ⟨id, request, ?_⟩
    obtain ⟨known, -, -⟩ := placed.requests k id mine request
    have moves := (moves_step maxLength s.client (.act k act launch)).conns k known
    have housed : Housed (s.client.step maxLength (.act k act launch)) := placed.housed.step _
    have once := (housed.founded.single k).once id
    have follows : ((s.client.step maxLength (.act k act launch)).attempts k).conn.calls =
        (s.client.attempts k).conn.calls ∨ ∃ call,
        ((s.client.step maxLength (.act k act launch)).attempts k).conn.calls =
          (s.client.attempts k).conn.calls ++ [call] := by
      obtain ⟨live, same⟩ := moves
      rw [same]
      cases acts s.client (.act k act launch) k with
      | none => exact .inl rfl
      | some acted => exact (step_follows maxLength (s.client.attempts k).conn acted).calls
    rcases follows with same | ⟨call, new⟩
    · simp [same] at called
    · simp only [new, List.drop_left, List.head?_cons, Option.some.injEq] at called
      have counted : ((s.client.step maxLength (.act k act launch)).attempts k).conn.done id =
          (s.client.attempts k).conn.done id + 1 := by
        rw [Conn.done, Conn.done, new, List.countP_append, called]
        simp
      simp only [Conn.account] at once
      omega
  · cases found

theorem Placed.act (placed : Placed s phase) {k : Nat} {act : Act} {launch next : Launch}
    (heeded : Heeded maxLength cap read s (.client (.act k act launch) next)) :
    ∃ phase, Placed (s.act maxLength cap read k act launch next) phase := by
  have moved : Placed { s with client := s.client.step maxLength (.act k act launch) } phase :=
    placed.stepped (.act k act launch)
  unfold Reading.act
  simp only
  split
  · rename_i loop reply found
    obtain ⟨failed, arrived⟩ := heeded k act launch rfl loop reply found
    obtain ⟨id, mine, before, after⟩ := placed.answered found
    obtain ⟨-, -, asked | done⟩ := placed.requests k id loop mine
    · rw [asked] at moved
      have begun : s.begun = true := by
        cases started : s.begun with
        | true => rfl
        | false => cases asked.symm.trans (placed.begun started)
      refine (moved.rests (fun _ never => by cases never) (fun i key same => ?_)
        (moved.refusals.2 (by simp)) (moved.calls.2 (by simp))).reply begun loop failed arrived
      obtain ⟨rfl, rfl⟩ := Phase.asked.inj same
      exact after
    · omega
  · exact ⟨phase, moved⟩

theorem Placed.notice (placed : Placed s phase) {index : Nat} {sends : Bool}
    (heeded : Heeded maxLength cap read s (.notice index sends)) :
    ∃ phase, Placed (s.step maxLength cap read (.notice index sends)) phase := by
  simp only [Reading.step]
  split
  · exact ⟨phase, placed⟩
  · rename_i notice found
    have moved : Placed { s with client := s.client.step maxLength (.notice index) } phase :=
      placed.stepped (.notice index)
    split
    · exact ⟨phase, moved⟩
    · rename_i loop mine
      have member := List.mem_of_getElem? found
      have there : 0 < s.client.noticed notice.waiter :=
        List.countP_pos_iff.mpr ⟨notice, member, by simp⟩
      obtain ⟨-, ⟨waits, one⟩ | none⟩ := placed.waiters _ loop mine
      · have begun : s.begun = true := by
          cases started : s.begun with
          | true => rfl
          | false => cases waits.symm.trans (placed.begun started)
        rw [waits] at moved
        have rested := moved.rests (fun w same => ?_) (fun _ _ never => by cases never)
          (moved.refusals.2 (by simp)) (moved.calls.2 (by simp))
        · split
          · rename_i ready
            apply rested.onReady begun loop
            have known := placed.housed.founded.known notice member ready
            exact Nat.lt_of_lt_of_le known (moves_step maxLength s.client (.notice index)).created
          · rename_i failed
            have wanted := heeded notice found (by rw [mine]; rfl) (by simpa using failed)
            exact ⟨_, rested.call begun wanted _⟩
        · rw [← Phase.waiting.inj same]
          show Within 0 notice.waiter (s.client.step maxLength (.notice index))
          exact one.told found
      · have untold := none.untold
        omega

theorem Placed.step (placed : Placed s phase) (event : ReadEvent)
    (heeded : Heeded maxLength cap read s event) :
    ∃ phase, Placed (s.step maxLength cap read event) phase := by
  cases event with
  | start knownOffset knownDev knownIno launch =>
      simp only [Reading.step]
      split
      · exact ⟨phase, placed⟩
      · rename_i unbegun
        have resting := placed.begun (by simpa using unbegun)
        rw [resting] at placed
        have begun : Placed { s with begun := true } .resting :=
          ⟨placed.housed, placed.waiters, placed.requests, placed.refusals, placed.calls,
            fun _ => rfl, placed.unheard, placed.unasked⟩
        refine begun.enter rfl (fun cancelled => ?_) heeded
        rw [RelayTailRead.step, cancelled, if_pos rfl]
  | cancel =>
      simp only [Reading.step]
      split
      · exact ⟨phase, placed.housed, placed.waiters, placed.requests, placed.refusals,
          placed.calls, placed.begun, placed.unheard, placed.unasked⟩
      · exact ⟨phase, placed⟩
  | refusal index =>
      simp only [Reading.step]
      split
      · exact ⟨phase, placed⟩
      · rename_i capabilities found
        have small := (List.getElem?_eq_some_iff.mp found).1
        have wanted := heeded small
        by_cases refused : phase = .refused
        · rw [refused] at placed
          have begun : s.begun = true := by
            cases started : s.begun with
            | true => rfl
            | false => cases placed.begun started
          have few := placed.refusals.1
          have empty : s.refusals.eraseIdx index = [] := by
            apply List.eq_nil_of_length_eq_zero
            rw [List.length_eraseIdx, if_pos small]
            omega
          have left : Placed { s with refusals := s.refusals.eraseIdx index } .refused := by
            refine ⟨placed.housed, placed.waiters, placed.requests, ⟨?_, fun _ => empty⟩,
              placed.calls, placed.begun, placed.unheard, placed.unasked⟩
            simp [empty]
          have rested := left.rests (fun _ never => by cases never)
            (fun _ _ never => by cases never) empty (placed.calls.2 (by simp))
          exact ⟨_, rested.call begun wanted _⟩
        · rw [placed.refusals.2 refused] at small
          cases small
  | notice index sends => exact placed.notice heeded
  | client event next =>
      cases event with
      | act k act launch => exact placed.act heeded
      | notice index => exact ⟨phase, placed⟩
      | connectAsync launch => exact ⟨phase, placed.stepped (.connectAsync launch)⟩
      | connection launch => exact ⟨phase, placed.stepped (.connection launch)⟩
      | pickUp => exact ⟨phase, placed.stepped .pickUp⟩
      | abort k => exact ⟨phase, placed.stepped (.abort k)⟩

/-- What is left of the sequence is accounted for. -/
def Accounted (s : Reading) : Prop := ∃ phase, Placed s phase

theorem requested_enter (maxLength : Nat) (s : Reading) (stage : Stage) (launch : Launch) :
    (s.enter maxLength stage launch).requested = s.requested := by
  cases stage <;> rfl

theorem requested_act (s : Reading) (k : Nat) (act : Act) (launch next : Launch) :
    (s.act maxLength cap read k act launch next).requested = s.requested := by
  unfold Reading.act
  simp only
  split
  · unfold Reading.reply
    split
    · split
      · rw [requested_enter]
      · rfl
    · rfl
  · rfl

theorem unrequested_step (unrequested : s.Unrequested) (event : ReadEvent)
    (wanted : Wanted s event) : (s.step maxLength cap read event).Unrequested := by
  cases event with
  | start knownOffset knownDev knownIno launch =>
      simp only [Reading.step]
      split
      · exact unrequested
      · rw [Unrequested, requested_enter]
        exact unrequested
  | cancel =>
      simp only [Reading.step]
      split <;> exact unrequested
  | refusal index =>
      simp only [Reading.step]
      split <;> exact unrequested
  | notice index sends =>
      simp only [Reading.step]
      split
      · exact unrequested
      · rename_i notice found
        split
        · exact unrequested
        · rename_i loop mine
          split
          · rename_i ready
            unfold Reading.onReady
            simp only
            split
            · rename_i supports
              have same : (s.client.step maxLength (.notice index)).attempts =
                  s.client.attempts := by
                simp only [Client.step, found]
                split <;> rfl
              rw [same] at supports
              have token := wanted notice found (by rw [mine]; rfl) ready supports
              intro member
              rcases List.mem_append.mp member with earlier | new
              · exact unrequested earlier
              · rw [token] at new
                cases List.mem_singleton.mp new
            · exact unrequested
          · exact unrequested
  | client event next =>
      cases event with
      | act k act launch =>
          rw [Unrequested, Reading.step, requested_act]
          exact unrequested
      | _ => exact unrequested

end Phases

end Reading

/-- In every run in which the hello of each connection that a chunk makes can be sent, and no chunk
fails once the token is cancelled, the caller hears of a sequence at most once, and of none that is
cancelled, and no chunk is asked for then. Nor is a request made, where no connection becomes ready
for a cancelled chunk. -/
theorem cancelled_read_silent (maxLength cap : Nat) (read : Reply → Option TailRead) :
    (∀ s, Reading.Reached maxLength cap read (Reading.Heeded maxLength cap read) s →
      s.Silent) ∧
    (∀ s, Reading.Reached maxLength cap read Reading.Wanted s → s.Unrequested) := by
  constructor
  · intro s reached
    have accounted : Reading.Accounted s := by
      refine reached.invariant ⟨.resting, Reading.placed_start⟩ ?_
      intro before event there heeded
      obtain ⟨phase, placed⟩ := there
      exact placed.step event heeded
    obtain ⟨phase, placed⟩ := accounted
    exact placed.silent
  · intro s reached
    refine reached.invariant (fun never => by cases never) ?_
    intro before event unrequested wanted
    exact Reading.unrequested_step unrequested event wanted

/-- The hello of a server with tail reads. -/
def tailHello : Message :=
  { goodHello with capabilities := ["revisions-v1", "tail-read-v1"] }

/-- A sequence is cancelled while its first request is in flight, which then ends so. -/
def cancelledInFlight (ok : Bool) : List ReadEvent :=
  [.start 0 none none {}, .client (.act 0 (.message tailHello) {}) {},
    .client (.act 0 (.timer 1) {}) {}, .client (.act 0 (.finish false) {}) {}, .notice 0 true,
    .cancel, .client (.act 0 (.message { id := some 2, ok := ok }) {}) {},
    .client (.act 0 (.timer 1) {}) {}]

/-- A reply with all of a file of one byte. -/
def wholeReply (_ : Reply) : Option TailRead := some ⟨[97], 0, 1, 1, 1, 10, false, false⟩

def afterCancel (ok : Bool) : Reading :=
  (cancelledInFlight ok).foldl (Reading.step 10000 1000 wholeReply) {}

theorem heeded_unanswered {maxLength cap : Nat} {read : Reply → Option TailRead} {s : Reading}
    {k : Nat} {act : Act} {launch next : Launch}
    (none : s.answered k ((s.client.step maxLength (.act k act launch)).attempts k).conn = none) :
    Reading.Heeded maxLength cap read s (.client (.act k act launch) next) := by
  intro i acted launched same loop reply found
  obtain ⟨rfl, rfl, rfl⟩ := ClientEvent.act.inj same
  rw [none] at found
  cases found

theorem cancelled_read_silent_inFlight :
    (afterCancel true).requested = [false] ∧ (afterCancel true).calls = [] ∧
      (afterCancel true).Silent ∧ (afterCancel true).Unrequested := by
  have silent := cancelled_read_silent 10000 1000 wholeReply
  refine ⟨by decide, by decide, silent.1 _ ?_, silent.2 _ ?_⟩
  · apply Reaches.of_along .refl
    refine ⟨fun _ _ _ _ => rfl, heeded_unanswered (by decide), heeded_unanswered (by decide),
      heeded_unanswered (by decide), ?_, trivial, heeded_unanswered (by decide), ?_, trivial⟩
    · intro notice found _ failed
      have first : (((cancelledInFlight true).take 4).foldl
          (Reading.step 10000 1000 wholeReply) {}).client.notices[0]? = some ⟨0, true, 0⟩ := by
        decide
      rw [← Option.some.inj (first.symm.trans found)] at failed
      cases failed
    · intro k act launch same loop reply found
      obtain ⟨rfl, rfl, rfl⟩ := ClientEvent.act.inj same
      refine ⟨fun failed => ?_, fun _ result _ again waits => by cases waits⟩
      have ok := congrArg (Option.map fun given => given.2.ok) found
      have first : (Reading.answered (((cancelledInFlight true).take 7).foldl
          (Reading.step 10000 1000 wholeReply) {}) 0
          ((afterCancel true).client.attempts 0).conn).map (fun given => given.2.ok) =
            some true := by decide
      rw [Option.map_some, failed] at ok
      cases first.symm.trans ok
  · apply Reaches.of_along .refl
    exact ⟨trivial, trivial, trivial, trivial, fun _ _ _ _ _ => by decide, trivial, trivial,
      trivial, trivial⟩

/-- A request that is in flight when the token is cancelled fails, and the caller hears of it. -/
theorem cancelled_read_heard :
    ¬ ∀ s, Reading.Reached 10000 1000 wholeReply (fun _ _ => True) s → s.Silent := by
  intro all
  have reached : Reading.Reached 10000 1000 wholeReply (fun _ _ => True) (afterCancel false) := by
    apply Reaches.of_along .refl
    exact ⟨trivial, trivial, trivial, trivial, trivial, trivial, trivial, trivial, trivial⟩
  have heard : (afterCancel false).calls =
      [⟨.error (.refused (.message { id := some 2 })), true⟩] := by decide
  have unheard := (all _ reached).unheard
  rw [heard] at unheard
  cases unheard _ (List.mem_singleton_self _)

end EmacsRelay.RelayTailRead

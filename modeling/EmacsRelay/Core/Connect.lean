import EmacsRelay.Core.Delivery

set_option autoImplicit false

/- Connections to one authority, `lisp/relay-core.el`: establishing them by waiting or by
callbacks, who is told, and what is sent on them. -/
namespace EmacsRelay.RelayCore

/-- `relay-protocol-version`. -/
def relayProtocolVersion : Int := 1

/-- `relay--require-protocol-version` does not signal. -/
def protocolVersionOk (hello : Message) : Bool := hello.protocolVersion == some relayProtocolVersion

/-- `relay--require-revision-capability` does not signal. -/
def revisionCapabilityOk (hello : Message) : Bool := hello.capabilities.contains "revisions-v1"

/-- A hello that passes both checks. -/
def verifiedHello (hello : Message) : Bool := protocolVersionOk hello && revisionCapabilityOk hello

/-- The id of `hello`, the first request of every connection. It is given to nobody. -/
def helloId : Nat := 1

/-- A `relay-conn`: its requests, who started it, and the fields that concern its hello. The
waiters are in reverse order, as pushed. -/
structure Attempt where
  conn : Conn := {}
  async : Bool := false
  ready : Bool := false
  hello : Option Message := none
  waiters : List Nat := []

/-- A timer that calls a waiter's on-ready with connection `conn`, or its on-error. -/
structure Notice where
  waiter : Nat
  ready : Bool
  conn : Nat
deriving DecidableEq, Repr

/-- The connections to one authority, numbered in the order of their creation; `table` is its
entry of `relay--connections`. From `notified` on it records what happened: the functions called,
the connection a waiter was attached to, who has been given which connection, and what was sent on
it besides hello, with whether its hello had been verified by then. -/
structure Client where
  table : Option Nat := none
  created : Nat := 0
  attempts : Nat → Attempt := fun _ => {}
  notices : List Notice := []
  nextWaiter : Nat := 0
  notified : List Notice := []
  home : Nat → Option Nat := fun _ => none
  held : List Nat := []
  sends : List (Nat × Bool) := []

/-- What surrounds an event: whether the process can be launched, whether its hello can be sent,
and whether rewarming and rewatching signal once it is ready. -/
structure Launch where
  starts : Bool := true
  sends : Bool := true
  rewarms : Bool := true
deriving DecidableEq, Repr

namespace Client

@[simps] def set (c : Client) (k : Nat) (attempt : Attempt) : Client :=
  { c with attempts := fun i => if i = k then attempt else c.attempts i }

/-- The entry of the authority is removed, if it is connection `k`. -/
@[simps] def forget (c : Client) (k : Nat) : Client :=
  { c with table := if c.table = some k then none else c.table }

/-- `delete-process`. -/
@[simps!] def kill (c : Client) (k : Nat) : Client :=
  c.set k { c.attempts k with conn := (c.attempts k).conn.deleteProcess }

/-- Every waiter's function is called from a timer. -/
@[simps] def notify (c : Client) (waiters : List Nat) (ready : Bool) (k : Nat) : Client :=
  { c with notices := c.notices ++ waiters.map (⟨·, ready, k⟩) }

/-- Code is given connection `k`. -/
@[simps] def hold (c : Client) (k : Nat) : Client := { c with held := k :: c.held }

/-- The connection in the table, when its process is live. -/
def liveEntry (c : Client) : Option Nat := c.table.filter fun k => (c.attempts k).conn.live

/-- A hello reply that is acceptable. -/
def accepts (reply : Reply) : Option Message :=
  match reply with
  | .message m => if m.ok && verifiedHello m then some m else none
  | _ => none

/-- `relay--connect-async-hello-done`. -/
def connectAsyncHelloDone (c : Client) (k : Nat) (reply : Reply) (launch : Launch) : Client :=
  let waiters := (c.attempts k).waiters.reverse
  let c := c.set k { c.attempts k with waiters := [] }
  match accepts reply with
  | none => ((c.forget k).kill k).notify waiters false k
  | some hello =>
      let c := (c.set k { c.attempts k with hello := some hello, ready := true }).hold k
      if launch.rewarms then c.notify waiters true k else c

/-- `relay--connect`, once its hello has a result: the connection is rewarmed and returned, or an
error is signalled. -/
def connectDone (c : Client) (k : Nat) (result : Result) : Client :=
  match result with
  | .reply (some (.message m)) =>
      if m.ok then
        let c := c.set k { c.attempts k with hello := some m }
        if verifiedHello m then (c.set k { c.attempts k with ready := true }).hold k
        else (c.forget k).kill k
      else (c.forget k).kill k
  | _ => (c.forget k).kill k

/-- A new connection, started by waiting or by callbacks, is put in the table. -/
@[simps!] def create (c : Client) (async : Bool) (waiters : List Nat) : Client :=
  { c.set c.created { async := async, waiters := waiters } with
    table := some c.created
    created := c.created + 1 }

variable (maxLength : Nat)

/-- An event of the requests of connection `k`, and what follows when it ends the hello. -/
def deliver (c : Client) (k : Nat) (act : Act) (launch : Launch) : Client :=
  let before := (c.attempts k).conn
  let after := before.step maxLength act
  let c := c.set k { c.attempts k with conn := after }
  if (c.attempts k).async then
    match (after.calls.drop before.calls.length).head? with
    | some (id, reply) => if id = helloId then c.connectAsyncHelloDone k reply launch else c
    | none => c
  else
    match (after.results.drop before.results.length).head? with
    | some (id, result) => if id = helloId then c.connectDone k result else c
    | none => c

/-- `relay--connect-async-start`. -/
def connectAsyncStart (c : Client) (waiters : List Nat) (launch : Launch) : Client :=
  if ¬ launch.starts then c.notify waiters false c.created
  else
    let k := c.created
    let c := (c.create true waiters).deliver maxLength k (.requestAsync true launch.sends) launch
    if launch.sends then c else ((c.forget k).kill k).notify waiters false k

/-- `relay-connect-async`, called with a new waiter. -/
def connectAsync (c : Client) (launch : Launch) : Client :=
  let waiter := c.nextWaiter
  let attach (k : Option Nat) : Client :=
    { c with
      nextWaiter := waiter + 1
      home := fun w => if w = waiter then k else c.home w }
  match c.liveEntry with
  | some k =>
      if (c.attempts k).ready then (attach (some k)).notify [waiter] true k
      else
        (attach (some k)).set k { c.attempts k with waiters := waiter :: (c.attempts k).waiters }
  | none => (attach (if launch.starts then some c.created else none)).connectAsyncStart maxLength [waiter] launch

/-- `relay--connection`, up to the wait for hello where a connection has to be made. -/
def connection (c : Client) (launch : Launch) : Client :=
  match c.liveEntry with
  | some k => c.hold k
  | none =>
      if ¬ launch.starts then c
      else (c.create false []).deliver maxLength c.created (.request launch.sends) launch

end Client

inductive ClientEvent where
  | connectAsync (launch : Launch)
  | connection (launch : Launch)
  /-- Prefetch or file-notify code looks the connection up and finds its process live. -/
  | pickUp
  /-- A timer calls a waiter's function. -/
  | notice (index : Nat)
  /-- An event of the requests of a connection. -/
  | act (conn : Nat) (act : Act) (launch : Launch)
  /-- `relay--exec-abort-connection`. -/
  | abort (conn : Nat)

/-- One event. A request is made by code that was given the connection; the id of hello is
cancelled by nobody. -/
def Client.step (maxLength : Nat) (c : Client) : ClientEvent → Client
  | .connectAsync launch => c.connectAsync maxLength launch
  | .connection launch => c.connection maxLength launch
  | .pickUp =>
      match c.liveEntry with
      | some k => c.hold k
      | none => c
  | .notice index =>
      match c.notices[index]? with
      | none => c
      | some notice =>
          let c :=
            { c with
              notices := c.notices.eraseIdx index
              notified := c.notified ++ [notice] }
          if notice.ready then c.hold notice.conn else c
  | .act k act launch =>
      if c.created ≤ k then c
      else if act.takesId then
        if k ∈ c.held then
          let verified := (c.attempts k).hello.any verifiedHello
          { c with sends := c.sends ++ [(k, verified)] }.deliver maxLength k act launch
        else c
      else
        match act with
        | .cancel id => if id = helloId then c else c.deliver maxLength k act launch
        | .sentinel error =>
            let dead := !(c.attempts k).conn.live
            let c := c.deliver maxLength k (.sentinel error) launch
            if dead then c.forget k else c
        | act => c.deliver maxLength k act launch
  | .abort k => (c.kill k).forget k

/-- States reached by events that are all permitted where they happen. -/
abbrev Client.Reached (maxLength : Nat) (permitted : Client → ClientEvent → Prop) (c : Client) :
    Prop :=
  Reaches (Client.step maxLength) permitted {} c

section Ends

variable {maxLength : Nat}

open Routine

/-- At most one callback is entered, and at most one synchronous request concludes. -/
structure Follows (c c' : Conn) : Prop where
  calls : c'.calls = c.calls ∨ ∃ call, c'.calls = c.calls ++ [call]
  results : c'.results = c.results ∨ ∃ result, c'.results = c.results ++ [result]

theorem scheduled_calls (c : Conn) : c.scheduled.calls = c.calls := by
  unfold Conn.scheduled
  split <;> rfl

theorem enqueueCallback_calls (thunk : Thunk) (c : Conn) :
    ((enqueueCallback maxLength thunk).after c).calls = c.calls := by
  rw [enqueueCallback_after]
  split
  · rfl
  · exact scheduled_calls _

theorem enter_calls (c : Conn) (thunk : Thunk) (rest : List Thunk) :
    (c.enter thunk rest).calls = c.calls ∨
      ∃ call, (c.enter thunk rest).calls = c.calls ++ [call] := by
  cases final : thunk.final with
  | false => exact .inl (by simp [final])
  | true => exact .inr ⟨(thunk.id, thunk.reply), by simp [final]⟩

theorem dispatch_calls (c : Conn) (m : Message) :
    ((dispatch maxLength m).after c).calls = c.calls := by
  unfold dispatch
  cases m.repliesTo with
  | none => rfl
  | some id =>
      simp only [dispatchReply, after_fetch_bind]
      cases c.pending id with
      | none => rfl
      | some entry =>
          cases entry with
          | waiting => rfl
          | replied reply => rfl
          | callback => exact enqueueCallback_calls _ _
          | stream =>
              simp only [after_ite, after_update_bind]
              split
              · exact enqueueCallback_calls _ _
              · exact enqueueCallback_calls _ _

theorem timer_calls (c : Conn) (index : Nat) :
    ((runTimer maxLength index).after c).calls = c.calls ∨
      ∃ call, ((runTimer maxLength index).after c).calls = c.calls ++ [call] := by
  simp only [runTimer, after_fetch_bind]
  cases c.timers[index]? with
  | none => exact .inl rfl
  | some timer =>
      simp only [after_update_bind]
      cases timer with
      | drain =>
          simp only [drainCallbackQueue, after_update_bind, after_fetch_bind]
          split
          · exact .inl rfl
          · simp only [after_ite, after_update_bind, after_update, maybeScheduleDrain_after]
            split
            · exact .inl (scheduled_calls _)
            · exact enter_calls _ _ _
      | timeout id =>
          simp only [timeoutRequest, after_fetch_bind, after_whenever, after_update_bind]
          split
          · exact .inl (enqueueCallback_calls _ _)
          · exact .inl rfl
      | call id reply => exact enter_calls _ _ _

theorem finish_calls (c : Conn) (signals : Bool) :
    ((finishCallback signals).after c).calls = c.calls ∨
      ∃ call, ((finishCallback signals).after c).calls = c.calls ++ [call] := by
  simp only [finishCallback, after_fetch_bind]
  split
  · cases signals with
    | true => exact .inl rfl
    | false => exact enter_calls _ _ _
  · exact .inl rfl
  · exact .inl rfl

theorem awake_follows (c : Conn) (id : Nat) (expired : Bool) :
    Follows c ((awake id expired).after c) := by
  have calls := (noticed_rest c id).2.2.2
  have results := (kept_noticed c id).results
  have concluded : ∀ result,
      Follows c ((((c.noticed id).remove id).leave).conclude id result) := fun result =>
    ⟨.inl calls, .inr ⟨(id, result), congrArg (· ++ [(id, result)]) results⟩⟩
  rw [awake_after]
  split
  · exact concluded _
  · split
    · exact ⟨.inl calls, .inl results⟩
    · exact concluded _

theorem step_follows (maxLength : Nat) (c : Conn) (act : Act) :
    Follows c (c.step maxLength act) := by
  unfold Conn.step
  cases act with
  | requestAsync timeout sends =>
      cases timeout <;> cases sends <;> exact ⟨.inl rfl, .inl rfl⟩
  | requestStream timeout sends =>
      cases timeout <;> cases sends <;> exact ⟨.inl rfl, .inl rfl⟩
  | request sends =>
      cases sends with
      | false => exact ⟨.inl rfl, .inr ⟨_, rfl⟩⟩
      | true => exact ⟨.inl rfl, .inl rfl⟩
  | awake expired =>
      simp only [perform, after_fetch_bind]
      split
      · rename_i id _ _
        have woken := awake_follows (c.record (c.ends (.awake expired))) id expired
        exact ⟨woken.calls, woken.results⟩
      · exact ⟨.inl rfl, .inl rfl⟩
  | cancel id => exact ⟨.inl rfl, .inl rfl⟩
  | message m => exact ⟨.inl (dispatch_calls _ m), .inl (kept_dispatch _ _ m).results⟩
  | timer index => exact ⟨timer_calls _ index, .inl (kept_timer _ _ index).results⟩
  | finish signals => exact ⟨finish_calls _ signals, .inl (kept_finish _ signals).results⟩
  | die => exact ⟨.inl rfl, .inl rfl⟩
  | sentinel error =>
      have kept := kept_sentinel (c.record (c.ends (.sentinel error))) error
      refine ⟨.inl ?_, .inl kept.results⟩
      simp only [perform, sentinel, after_fetch_bind, after_whenever]
      split <;> rfl

namespace Client

variable (c : Client) (k : Nat)

@[simp] theorem set_set (first second : Attempt) :
    (c.set k first).set k second = c.set k second := by
  have attempts : ((c.set k first).set k second).attempts = (c.set k second).attempts := by
    funext i
    by_cases same : i = k <;> simp [same]
  simp only [set] at attempts ⊢
  rw [attempts]

theorem forget_kill :
    (c.forget k).kill k =
      (c.set k { c.attempts k with conn := (c.attempts k).conn.deleteProcess }).forget k := rfl

theorem notify_nil (ready : Bool) : c.notify [] ready k = c := by
  simp [notify]

/-- An event ends the hello of its connection, or only concerns its requests. -/
theorem deliver_cases (maxLength : Nat) (act : Act) (launch : Launch) {after : Conn}
    (steps : after = (c.attempts k).conn.step maxLength act) :
    (c.deliver maxLength k act launch = c.set k { c.attempts k with conn := after } ∧
      ((c.attempts k).async = true → after.done helloId = (c.attempts k).conn.done helloId)) ∨
    ((c.attempts k).async = true ∧ ∃ reply,
      after.calls = (c.attempts k).conn.calls ++ [(helloId, reply)] ∧
      c.deliver maxLength k act launch =
        (c.set k { c.attempts k with conn := after }).connectAsyncHelloDone k reply launch) ∨
    ((c.attempts k).async = false ∧ ∃ result,
      after.results = (c.attempts k).conn.results ++ [(helloId, result)] ∧
      c.deliver maxLength k act launch =
        (c.set k { c.attempts k with conn := after }).connectDone k result) := by
  have follows : Follows (c.attempts k).conn after := by
    rw [steps]
    exact step_follows maxLength _ act
  have split : c.deliver maxLength k act launch =
      if (c.attempts k).async then
        match (after.calls.drop (c.attempts k).conn.calls.length).head? with
        | some (id, reply) =>
            if id = helloId then
              (c.set k { c.attempts k with conn := after }).connectAsyncHelloDone k reply launch
            else c.set k { c.attempts k with conn := after }
        | none => c.set k { c.attempts k with conn := after }
      else
        match (after.results.drop (c.attempts k).conn.results.length).head? with
        | some (id, result) =>
            if id = helloId then
              (c.set k { c.attempts k with conn := after }).connectDone k result
            else c.set k { c.attempts k with conn := after }
        | none => c.set k { c.attempts k with conn := after } := by
    rw [steps]
    simp [deliver]
  cases async : (c.attempts k).async with
  | true =>
      rw [split, async, if_pos rfl]
      rcases follows.calls with same | ⟨⟨id, reply⟩, new⟩
      · left
        simp [same, Conn.done]
      · by_cases hello : id = helloId
        · right
          left
          subst hello
          refine ⟨rfl, reply, new, ?_⟩
          simp [new]
        · left
          simp [new, hello, Conn.done]
  | false =>
      rw [split, async, if_neg Bool.false_ne_true]
      rcases follows.results with same | ⟨⟨id, result⟩, new⟩
      · left
        simp [same]
      · by_cases hello : id = helloId
        · right
          right
          subst hello
          refine ⟨rfl, result, new, ?_⟩
          simp [new]
        · left
          simp [new, hello]

/-- The connection is ready, or it is given up. -/
theorem connectAsyncHelloDone_cases (reply : Reply) (launch : Launch) :
    (∃ hello, verifiedHello hello = true ∧
      c.connectAsyncHelloDone k reply launch =
        ((c.set k { c.attempts k with waiters := [], hello := some hello, ready := true }).hold
          k).notify (if launch.rewarms then (c.attempts k).waiters.reverse else []) true k) ∨
    c.connectAsyncHelloDone k reply launch =
      ((c.set k { c.attempts k with
          waiters := [], conn := (c.attempts k).conn.deleteProcess }).forget k).notify
        (c.attempts k).waiters.reverse false k := by
  cases accepted : accepts reply with
  | none =>
      right
      simp only [connectAsyncHelloDone, accepted, forget_kill, set_set, set_attempts, if_true]
  | some hello =>
      left
      have verified : verifiedHello hello = true := by
        unfold accepts at accepted
        split at accepted
        · split at accepted
          · rename_i passes
            rw [← Option.some.inj accepted]
            exact (Bool.and_eq_true_iff.mp passes).2
          · cases accepted
        · cases accepted
      refine ⟨hello, verified, ?_⟩
      simp only [connectAsyncHelloDone, accepted, set_set, set_attempts, if_true]
      split
      · rfl
      · rw [notify_nil]

theorem connectDone_cases (result : Result) :
    (∃ hello, verifiedHello hello = true ∧
      c.connectDone k result =
        (c.set k { c.attempts k with hello := some hello, ready := true }).hold k) ∨
    ∃ hello, c.connectDone k result =
      (c.set k { c.attempts k with
        hello := hello, conn := (c.attempts k).conn.deleteProcess }).forget k := by
  unfold connectDone
  split
  · rename_i m
    split
    · by_cases passes : verifiedHello m = true
      · left
        refine ⟨m, passes, ?_⟩
        simp [passes]
      · right
        refine ⟨some m, ?_⟩
        simp only [if_neg passes, forget_kill, set_set, set_attempts, if_true]
    · exact .inr ⟨(c.attempts k).hello, c.forget_kill k⟩
  · exact .inr ⟨(c.attempts k).hello, c.forget_kill k⟩

end Client

end Ends

end EmacsRelay.RelayCore

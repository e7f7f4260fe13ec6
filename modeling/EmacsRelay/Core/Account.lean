import EmacsRelay.Core.Requests
import Mathlib.Data.List.Nodup
import Mathlib.Data.List.Perm.Basic

set_option autoImplicit false

/- The account of one asynchronous request: it is pending, or its completion is on the way, or
the completion has been run. -/
namespace EmacsRelay.RelayCore

open Routine

def Thunk.completes (id : Nat) (thunk : Thunk) : Bool := thunk.final && thunk.id == id

def Timer.completes (id : Nat) : Timer → Bool
  | .call other _ => other == id
  | _ => false

/-- The event is an asynchronous request. -/
def Act.opensAsync : Act → Bool
  | .requestAsync _ _ => true
  | .requestStream _ _ => true
  | _ => false

namespace Conn

variable (c : Conn) (id : Nat)

/-- Completions of request `id` that are on the way: queued, taken by a drain, or in a timer. -/
def due : Nat :=
  c.queue.countP (Thunk.completes id) + (c.frames.flatMap Frame.rest).countP (Thunk.completes id) +
    c.timers.countP (Timer.completes id)

/-- Completions of request `id` that have been run. -/
def done : Nat := c.calls.countP (·.1 == id)

/-- All that is left of request `id`. -/
def account : Nat := (c.isAsync id).toNat + c.due id + c.done id

/-- The event opens request `id`. -/
def opens (act : Act) : Nat := if act.opensAsync = true ∧ id = c.nextId + 1 then 1 else 0

/-- Completions that an event drops: by cancelling; because the queue is full; or because a
callback signals, with those that its drain would have run next. -/
def drops (maxLength : Nat) (act : Act) : Nat :=
  match act with
  | .cancel other => if other = id then (c.isAsync id).toNat else 0
  | .message _ => if id ∈ c.ends act ∧ maxLength ≤ c.queue.length then 1 else 0
  | .timer _ => if id ∈ c.ends act ∧ maxLength ≤ c.queue.length then 1 else 0
  | .finish true => (c.frames.head?.map Frame.rest).getD [] |>.countP (Thunk.completes id)
  | _ => 0

/-- The table holds only ids that have been handed out. -/
def Bounded : Prop := ∀ id, c.nextId < id → c.pending id = none

end Conn

section Account

variable {maxLength : Nat} {c : Conn} {id other : Nat}

@[simp] theorem isAsync_remove :
    (c.remove other).isAsync id = if id = other then false else c.isAsync id := by
  by_cases same : id = other <;> simp [Conn.isAsync, same]

@[simp] theorem isAsync_put (entry : Entry) :
    (c.put other entry).isAsync id = if id = other then entry.isAsync else c.isAsync id := by
  by_cases same : id = other <;> simp [Conn.isAsync, same]

/-- The state with a drain timer, if none was there. -/
def Conn.scheduled (c : Conn) : Conn :=
  if c.drainScheduled then c
  else { c with drainScheduled := true, timers := c.timers ++ [.drain] }

theorem maybeScheduleDrain_after (c : Conn) : maybeScheduleDrain.after c = c.scheduled := by
  cases scheduled : c.drainScheduled <;> simp [maybeScheduleDrain, Conn.scheduled, scheduled, Conn.runAtTime]

theorem enqueueCallback_after (maxLength : Nat) (thunk : Thunk) (c : Conn) :
    (enqueueCallback maxLength thunk).after c =
      if maxLength ≤ c.queue.length then c.deleteProcess else (c.enqueue thunk).scheduled := by
  simp [enqueueCallback, maybeScheduleDrain_after]

@[simp] theorem account_scheduled (id : Nat) : c.scheduled.account id = c.account id := by
  unfold Conn.scheduled
  split
  · rfl
  · simp [Conn.account, Conn.isAsync, Conn.due, Conn.done, Timer.completes]

@[simp] theorem account_deleteProcess (id : Nat) : c.deleteProcess.account id = c.account id := rfl

theorem account_enqueue (thunk : Thunk) :
    (c.enqueue thunk).account id = c.account id + (thunk.completes id).toNat := by
  cases completes : thunk.completes id <;>
    simp [Conn.account, Conn.isAsync, Conn.due, Conn.done, completes]
  omega

theorem account_remove :
    (c.remove other).account id + (if id = other then (c.isAsync id).toNat else 0) =
      c.account id := by
  have unmoved : (c.remove other).due id = c.due id ∧ (c.remove other).done id = c.done id :=
    ⟨rfl, rfl⟩
  rw [Conn.account, unmoved.1, unmoved.2, Conn.account]
  by_cases same : id = other
  · simp [same]
    omega
  · simp [same]

/-- A request is taken from the table and its completion is queued, or dropped. -/
theorem account_complete (async : c.isAsync other = true) (reply : Reply) :
    ((enqueueCallback maxLength ⟨other, true, reply⟩).after (c.remove other)).account id +
      (if id = other ∧ maxLength ≤ c.queue.length then 1 else 0) = c.account id := by
  have removed : (c.remove other).account id + (if id = other then 1 else 0) = c.account id := by
    have parts : (c.remove other).account id + _ = c.account id := account_remove
    by_cases same : id = other
    · simpa [same, async] using parts
    · simpa [same] using parts
  rw [enqueueCallback_after, Conn.remove_queue]
  by_cases full : maxLength ≤ c.queue.length
  · simp only [full, if_true, and_true]
    exact removed
  · simp only [full, if_false, and_false, account_scheduled, account_enqueue]
    by_cases same : id = other
    · simp [Thunk.completes, same] at removed ⊢
      omega
    · have apart : (⟨other, true, reply⟩ : Thunk).completes id = false := by
        simp [Thunk.completes, Ne.symm same]
      simp [apart, same] at removed ⊢
      omega

@[simp] theorem isAsync_scheduled : c.scheduled.isAsync id = c.isAsync id := by
  unfold Conn.scheduled
  split <;> rfl

@[simp] theorem isAsync_enqueueCallback (thunk : Thunk) :
    ((enqueueCallback maxLength thunk).after c).isAsync id = c.isAsync id := by
  rw [enqueueCallback_after]
  split
  · rfl
  · rw [isAsync_scheduled]
    rfl

/-- A request is entered in the table, and its timer is set once it has been sent. -/
def Conn.opened (c : Conn) (entry : Entry) (timeout sends : Bool) : Conn :=
  let asked := { c with nextId := c.nextId + 1 }.put (c.nextId + 1) entry
  if sends then
    let timed := if timeout then asked.runAtTime (.timeout (c.nextId + 1)) else asked
    { timed with sent := c.sent ++ [c.nextId + 1] }
  else asked

theorem requestAsync_after (timeout sends : Bool) (c : Conn) :
    (perform maxLength (.requestAsync timeout sends)).after c = c.opened .callback timeout sends := by
  cases timeout <;> cases sends <;> rfl

theorem requestStream_after (timeout sends : Bool) (c : Conn) :
    (perform maxLength (.requestStream timeout sends)).after c = c.opened .stream timeout sends := by
  cases timeout <;> cases sends <;> rfl

theorem isAsync_opened {entry : Entry} (async : entry.isAsync = true) (timeout sends : Bool) :
    (c.opened entry timeout sends).isAsync id =
      if id = c.nextId + 1 then true else c.isAsync id := by
  cases timeout <;> cases sends <;>
    by_cases new : id = c.nextId + 1 <;> simp [Conn.opened, Conn.isAsync, async, new]

theorem account_opened {entry : Entry} (async : entry.isAsync = true) (timeout sends : Bool)
    (bounded : c.Bounded) :
    (c.opened entry timeout sends).account id =
      c.account id + if id = c.nextId + 1 then 1 else 0 := by
  have table : (c.opened entry timeout sends).isAsync id =
      if id = c.nextId + 1 then true else c.isAsync id := isAsync_opened async timeout sends
  have timers : (c.opened entry timeout sends).timers.countP (Timer.completes id) =
      c.timers.countP (Timer.completes id) := by
    cases timeout <;> cases sends <;> simp [Conn.opened, Timer.completes]
  have others : (c.opened entry timeout sends).due id = c.due id ∧
      (c.opened entry timeout sends).done id = c.done id := by
    constructor
    · unfold Conn.due
      rw [timers]
      cases timeout <;> cases sends <;> rfl
    · cases timeout <;> cases sends <;> rfl
  rw [Conn.account, table, others.1, others.2, Conn.account]
  by_cases new : id = c.nextId + 1
  · have absent : c.isAsync id = false := by
      simp [Conn.isAsync, bounded id (by omega)]
    simp [new, new ▸ absent]
    omega
  · simp [new]

/-- Only the table, the lists of completions and the calls matter to an account. -/
theorem account_congr {c c' : Conn} (table : c'.isAsync id = c.isAsync id)
    (queue : c'.queue = c.queue) (frames : c'.frames.flatMap Frame.rest = c.frames.flatMap Frame.rest)
    (timers : c'.timers = c.timers) (calls : c'.calls = c.calls) :
    c'.account id = c.account id := by
  simp only [Conn.account, Conn.due, Conn.done, table, queue, frames, timers, calls]

theorem isAsync_request (bounded : c.Bounded) (sends : Bool) :
    ((perform maxLength (.request sends)).after c).isAsync id = c.isAsync id := by
  by_cases new : id = c.nextId + 1
  · have absent : c.isAsync id = false := by
      simp [Conn.isAsync, bounded id (by omega)]
    rw [absent, new]
    cases sends <;>
      simp [perform, request, sendRequest, after, bind, fetch, update, rescue, signal, pure,
        Conn.isAsync, Entry.isAsync]
  · cases sends <;>
      simp [perform, request, sendRequest, after, bind, fetch, update, rescue, signal, pure,
        Conn.isAsync, new]

theorem account_request (bounded : c.Bounded) (sends : Bool) :
    ((perform maxLength (.request sends)).after c).account id = c.account id := by
  have table : ((perform maxLength (.request sends)).after c).isAsync id = c.isAsync id :=
    isAsync_request bounded sends
  cases sends with
  | true => exact account_congr table rfl rfl rfl rfl
  | false => exact account_congr table rfl rfl rfl rfl

/-- A waiting request is given the transport's failure when the process is gone. -/
def Conn.noticed (c : Conn) (id : Nat) : Conn :=
  if c.pending id = some .waiting && !c.live then
    c.put id (.replied (.transport "transport exited"))
  else c

theorem awake_after (c : Conn) (id : Nat) (expired : Bool) :
    (awake id expired).after c =
      if expired then (((c.noticed id).remove id).leave).conclude id .timedOut
      else if (c.noticed id).pending id = some .waiting then c.noticed id
      else (((c.noticed id).remove id).leave).conclude id (.reply
        (match (c.noticed id).pending id with
        | some (.replied reply) => some reply
        | _ => none)) := by
  simp only [awake, after_fetch_bind, after_whenever_update_bind, after_ite, after_update_bind,
    after_update, after_pure, Conn.noticed]
  rfl

theorem isAsync_noticed : (c.noticed other).isAsync id = c.isAsync id := by
  unfold Conn.noticed
  split
  · rename_i gone
    by_cases same : id = other
    · subst same
      simp only [Bool.and_eq_true, decide_eq_true_eq] at gone
      simp [Conn.isAsync, gone.1, Entry.isAsync]
    · simp [same]
  · rfl

theorem noticed_rest (c : Conn) (id : Nat) :
    (c.noticed id).queue = c.queue ∧ (c.noticed id).frames = c.frames ∧
      (c.noticed id).timers = c.timers ∧ (c.noticed id).calls = c.calls := by
  unfold Conn.noticed
  split <;> exact ⟨rfl, rfl, rfl, rfl⟩

theorem isAsync_awake (waits : c.isAsync other = false) (expired : Bool) :
    ((awake other expired).after c).isAsync id = c.isAsync id := by
  have left : ∀ result,
      ((((c.noticed other).remove other).leave).conclude other result).isAsync id =
        c.isAsync id := by
    intro result
    show ((c.noticed other).remove other).isAsync id = c.isAsync id
    rw [isAsync_remove, isAsync_noticed]
    by_cases same : id = other
    · rw [same, waits, if_pos rfl]
    · rw [if_neg same]
  rw [awake_after]
  split
  · exact left _
  · split
    · exact isAsync_noticed
    · exact left _

theorem account_awake {frames : List Frame} (top : c.frames = .waiting other :: frames)
    (waits : c.isAsync other = false) (expired : Bool) :
    ((awake other expired).after c).account id = c.account id := by
  obtain ⟨queue, kept, timers, calls⟩ := noticed_rest c other
  have table : ((awake other expired).after c).isAsync id = c.isAsync id :=
    isAsync_awake waits expired
  have left : ((c.noticed other).frames.tail).flatMap Frame.rest = c.frames.flatMap Frame.rest := by
    rw [kept, top]
    rfl
  rw [awake_after] at table ⊢
  split
  · rw [if_pos ‹_›] at table
    exact account_congr table queue left timers calls
  · rw [if_neg ‹_›] at table
    split
    · rw [if_pos ‹_›] at table
      exact account_congr table queue (by rw [kept]) timers calls
    · rw [if_neg ‹_›] at table
      exact account_congr table queue left timers calls

theorem account_put {entry entry' : Entry} (found : c.pending other = some entry)
    (same : entry'.isAsync = entry.isAsync) : (c.put other entry').account id = c.account id := by
  apply account_congr <;> try rfl
  rw [isAsync_put]
  by_cases here : id = other
  · subst here
    simp [Conn.isAsync, found, same]
  · rw [if_neg here]

theorem le_of_isAsync (bounded : c.Bounded) (async : c.isAsync id = true) : id ≤ c.nextId := by
  apply Classical.byContradiction
  intro far
  simp [Conn.isAsync, bounded id (by omega)] at async

theorem isAsync_of_finalFor {m : Message} (final : c.finalFor m id = true) :
    c.isAsync id = true := by
  unfold Conn.finalFor at final
  unfold Conn.isAsync
  cases found : c.pending id with
  | none => simp [found] at final
  | some entry => cases entry <;> simp_all [Entry.isAsync]

theorem mem_ends_message {m : Message} (bounded : c.Bounded) :
    id ∈ c.ends (.message m) ↔ c.finalFor m id = true := by
  simp only [Conn.ends, List.mem_filter, List.mem_range, and_iff_right_iff_imp]
  exact fun final => Nat.lt_succ_of_le (le_of_isAsync bounded (isAsync_of_finalFor final))

theorem mem_ends_sentinel {error : String} (bounded : c.Bounded) (dead : c.live = false) :
    id ∈ c.ends (.sentinel error) ↔ c.isAsync id = true := by
  simp only [Conn.ends, dead, Bool.false_eq_true, if_false, List.mem_filter, List.mem_range,
    and_iff_right_iff_imp]
  exact fun async => Nat.lt_succ_of_le (le_of_isAsync bounded async)

/-- A dispatched message moves the completion it brings from the table to the queue. -/
theorem account_dispatch (bounded : c.Bounded) (m : Message) :
    ((dispatch maxLength m).after c).account id + c.drops id maxLength (.message m) =
      c.account id := by
  unfold dispatch
  cases named : m.repliesTo with
  | none => simp [Conn.drops, mem_ends_message bounded, Conn.finalFor, named]
  | some key =>
      have drops : c.drops id maxLength (.message m) =
          if id = key ∧ c.finalFor m key = true ∧ maxLength ≤ c.queue.length then 1 else 0 := by
        simp only [Conn.drops, mem_ends_message bounded]
        by_cases same : id = key
        · simp [same]
        · simp [same, Conn.finalFor, named, Ne.symm same]
      rw [drops]
      simp only [dispatchReply, after_fetch_bind]
      have finishes : ∀ entry, entry.isAsync = true → c.pending key = some entry →
          c.finalFor m key = true →
          ((enqueueCallback maxLength ⟨key, true, .message m⟩).after (c.remove key)).account id +
            (if id = key ∧ c.finalFor m key = true ∧ maxLength ≤ c.queue.length then 1 else 0) =
          c.account id := by
        intro entry async found final
        have here : c.isAsync key = true := by simp [Conn.isAsync, found, async]
        simpa [final] using account_complete here (.message m)
      cases found : c.pending key with
      | none => simp [Conn.finalFor, found]
      | some entry =>
          cases entry with
          | waiting =>
              have put : (c.put key (.replied (.message m))).account id = c.account id :=
                account_put found rfl
              simp [Conn.finalFor, found, put]
          | replied reply => simp [Conn.finalFor, found]
          | callback => exact finishes _ rfl found (by simp [Conn.finalFor, found, named])
          | stream =>
              by_cases more : m.more = true
              · have chunk : (⟨key, false, .message m⟩ : Thunk).completes id = false := rfl
                simp only [more, if_true, enqueueCallback_after, Conn.finalFor, found]
                split
                · simp
                · simp [account_enqueue, chunk]
              · simp only [more, Bool.false_eq_true, if_false, after_update_bind]
                exact finishes _ rfl found (by simp [Conn.finalFor, found, named, more])

/-- Entering a callback moves its completion from those taken by the drain to those run. -/
theorem account_enter (thunk : Thunk) (rest : List Thunk) :
    (c.enter thunk rest).account id = c.account id + (thunk :: rest).countP (Thunk.completes id) := by
  have entered : (c.enter thunk rest).done id = c.done id + (thunk.completes id).toNat := by
    cases final : thunk.final
    · simp [Conn.done, Thunk.completes, final]
    · by_cases same : thunk.id = id <;> simp [Conn.done, Thunk.completes, final, same]
  have taken : (c.enter thunk rest).due id = c.due id + rest.countP (Thunk.completes id) := by
    simp only [Conn.due, Conn.enter_queue, Conn.enter_frames, Conn.enter_timers,
      List.flatMap_cons, Frame.rest, List.countP_append]
    omega
  have table : (c.enter thunk rest).isAsync id = c.isAsync id := rfl
  rw [Conn.account, table, taken, entered, Conn.account, List.countP_cons]
  cases completes : thunk.completes id <;> simp <;> omega

theorem account_drain : (drainCallbackQueue.after c).account id = c.account id := by
  have reset : ({ c with drainScheduled := false } : Conn).account id = c.account id := rfl
  simp only [drainCallbackQueue, after_update_bind, after_fetch_bind]
  cases thunks : c.queue.reverse with
  | nil => simpa using reset
  | cons thunk rest =>
      simp only [after_ite, after_update_bind, after_update, maybeScheduleDrain_after]
      split
      · rw [account_scheduled, reset]
      · have counts : (thunk :: rest).countP (Thunk.completes id) =
            c.queue.countP (Thunk.completes id) := by
          rw [← thunks, List.countP_reverse]
        rw [account_enter, counts]
        simp only [Conn.account, Conn.isAsync, Conn.due, Conn.done, List.countP_nil]
        omega

theorem drain_pending (c : Conn) : (drainCallbackQueue.after c).pending = c.pending := by
  simp only [drainCallbackQueue, after_update_bind, after_fetch_bind]
  split
  · rfl
  · simp only [after_ite, after_update_bind, after_update, maybeScheduleDrain_after,
      Conn.scheduled]
    split <;> rfl

theorem account_eraseTimer {timer : Timer} {index : Nat} (found : c.timers[index]? = some timer) :
    ({ c with timers := c.timers.eraseIdx index } : Conn).account id +
      (timer.completes id).toNat = c.account id := by
  obtain ⟨small, rfl⟩ := List.getElem?_eq_some_iff.mp found
  have parts := (List.getElem_cons_eraseIdx_perm small).countP_eq (Timer.completes id)
  rw [List.countP_cons] at parts
  simp only [Conn.account, Conn.isAsync, Conn.due, Conn.done]
  cases completes : c.timers[index].completes id <;> simp [completes] at parts ⊢ <;> omega

theorem account_timer (index : Nat) :
    ((runTimer maxLength index).after c).account id + c.drops id maxLength (.timer index) =
      c.account id := by
  cases found : c.timers[index]? with
  | none => simp [runTimer, Conn.drops, Conn.ends, found]
  | some timer =>
      simp only [runTimer, after_fetch_bind, Conn.drops, Conn.ends, found]
      have erased : ({ c with timers := c.timers.eraseIdx index } : Conn).account id +
          (timer.completes id).toNat = c.account id := account_eraseTimer found
      cases timer with
      | drain =>
          simp only [after_update_bind, account_drain]
          simpa [Timer.completes] using erased
      | timeout key =>
          simp only [after_update_bind, timeoutRequest, after_fetch_bind, after_whenever]
          have table : ({ c with timers := c.timers.eraseIdx index } : Conn).isAsync key =
              c.isAsync key := rfl
          rw [table]
          by_cases async : c.isAsync key = true
          · have completed : _ + (if id = key ∧ maxLength ≤ c.queue.length then 1 else 0) =
                ({ c with timers := c.timers.eraseIdx index } : Conn).account id :=
              account_complete (table.trans async) .timeout
            simp only [if_pos async, List.mem_singleton, completed]
            simpa [Timer.completes] using erased
          · simpa [if_neg async, Timer.completes] using erased
      | call key reply =>
          simp only [after_update_bind, after_update, account_enter]
          cases same : key == id <;> simpa [Timer.completes, Thunk.completes, same] using erased

theorem account_finish (signals : Bool) :
    ((finishCallback signals).after c).account id + c.drops id maxLength (.finish signals) =
      c.account id := by
  have leaves : ∀ rest frames, c.frames = .running rest :: frames →
      c.leave.account id + rest.countP (Thunk.completes id) = c.account id := by
    intro rest frames top
    simp only [Conn.account, Conn.isAsync, Conn.due, Conn.done, Conn.leave, top, List.tail_cons,
      List.flatMap_cons, List.countP_append, Frame.rest]
    omega
  simp only [finishCallback, after_fetch_bind]
  match top : c.frames with
  | [] => cases signals <;> simp [Conn.drops, top]
  | .waiting key :: frames => cases signals <;> simp [Conn.drops, top, Frame.rest]
  | .running [] :: frames =>
      have left := leaves [] frames top
      cases signals <;> simpa [Conn.drops, top, Frame.rest] using left
  | .running (thunk :: rest) :: frames =>
      have left := leaves (thunk :: rest) frames top
      cases signals with
      | true => simpa [Conn.drops, top, Frame.rest] using left
      | false => simpa [Conn.drops, account_enter] using left

theorem finish_pending (c : Conn) (signals : Bool) :
    ((finishCallback signals).after c).pending = c.pending := by
  simp only [finishCallback, after_fetch_bind]
  split
  · cases signals <;> rfl
  · rfl
  · rfl

theorem countP_failures (failure : Reply) (ids : List Nat) :
    (ids.map (Timer.call · failure)).countP (Timer.completes id) = ids.count id := by
  rw [List.countP_map, List.count]
  rfl

theorem isAsync_failPending (failure : Reply) :
    ((failPending failure).after c).isAsync id = false := by
  simp only [failPending, after_update, Conn.isAsync]
  cases found : c.pending id with
  | none => rfl
  | some entry => cases entry <;> rfl

theorem account_sentinel (bounded : c.Bounded) (error : String) :
    ((sentinel error).after c).account id = c.account id := by
  simp only [sentinel, after_fetch_bind, after_whenever]
  split
  · have members : id ∈ (List.range (c.nextId + 1)).reverse.filter c.isAsync ↔
        c.isAsync id = true := by
      simp only [List.mem_filter, List.mem_reverse, List.mem_range, and_iff_right_iff_imp]
      exact fun async => Nat.lt_succ_of_le (le_of_isAsync bounded async)
    have distinct : ((List.range (c.nextId + 1)).reverse.filter c.isAsync).Nodup :=
      (List.nodup_reverse.mpr List.nodup_range).filter _
    have failures : (((List.range (c.nextId + 1)).reverse.filter c.isAsync).map
        (Timer.call · (.transport error))).countP (Timer.completes id) = (c.isAsync id).toNat := by
      rw [countP_failures, distinct.count]
      cases async : c.isAsync id with
      | true =>
          rw [if_pos (members.mpr async)]
          rfl
      | false =>
          rw [if_neg fun member => nomatch async.symm.trans (members.mp member)]
          rfl
    rw [Conn.account, isAsync_failPending]
    simp only [Conn.account, Conn.due, Conn.done, failPending, after_update, List.countP_append,
      failures, Bool.toNat_false]
    omega
  · rfl

end Account

end EmacsRelay.RelayCore

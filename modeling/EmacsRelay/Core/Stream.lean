import EmacsRelay.Core.Completion

set_option autoImplicit false

/- The order in which the functions of a stream request are called. A record of arrivals and calls
is kept beside the connection; where callbacks wait for one another, calls follow arrivals. -/
namespace EmacsRelay.RelayCore

open Routine

namespace Conn

/-- Callbacks still to be run, those of the innermost drain first. -/
def ahead (c : Conn) : List Thunk := c.frames.flatMap Frame.rest ++ c.queue.reverse

/-- The callbacks that an event makes due: a reply arrives, a request times out, or the failure of
one is delivered from its timer. -/
def brings (c : Conn) : Act → List Thunk
  | .message m =>
      match m.repliesTo with
      | none => []
      | some id =>
          match c.pending id with
          | some .stream => [⟨id, !m.more, .message m⟩]
          | some .callback => [⟨id, true, .message m⟩]
          | _ => []
  | .timer index =>
      match c.timers[index]? with
      | some (.timeout id) => if c.isAsync id then [⟨id, true, .timeout⟩] else []
      | some (.call id reply) => [⟨id, true, reply⟩]
      | _ => []
  | _ => []

/-- The callback that an event enters. -/
def enters (c : Conn) : Act → List Thunk
  | .timer index =>
      match c.timers[index]? with
      | some .drain =>
          match c.queue.reverse with
          | [] => []
          | thunk :: _ => if c.hasBlockedWaiter then [] else [thunk]
      | some (.call id reply) => [⟨id, true, reply⟩]
      | _ => []
  | .finish false =>
      match c.frames with
      | .running (thunk :: _) :: _ => [thunk]
      | _ => []
  | _ => []

end Conn

/-- A connection, with the callbacks that became due and those that were entered, in order. -/
structure Recorded where
  conn : Conn := {}
  arrived : List Thunk := []
  entered : List Thunk := []

namespace Recorded

def step (maxLength : Nat) (r : Recorded) (act : Act) : Recorded where
  conn := r.conn.step maxLength act
  arrived := r.arrived ++ r.conn.brings act
  entered := r.entered ++ r.conn.enters act

abbrev Reached (maxLength : Nat) (permitted : Recorded → Act → Prop) (r : Recorded) : Prop :=
  Reaches (step maxLength) permitted {} r

/-- The chunks among callbacks of request `id`. -/
def chunksOf (id : Nat) (thunks : List Thunk) : List Thunk :=
  thunks.filter fun t => t.id == id && !t.final

/-- The chunk function of every stream was called in the order in which chunks arrived, and not
after the done function. -/
structure InOrder (r : Recorded) : Prop where
  chunks : ∀ id, (chunksOf id r.entered).Sublist (chunksOf id r.arrived)
  done : ∀ before after id reply, r.entered = before ++ ⟨id, true, reply⟩ :: after →
    chunksOf id after = []

end Recorded

/-- No drain takes callbacks of request `id` while another drain under way has some. -/
def DrainsInTurn (c : Conn) (id : Nat) : Act → Prop
  | .timer index => c.timers[index]? = some .drain → c.hasBlockedWaiter = false →
      (∀ t ∈ c.queue, t.id ≠ id) ∨ ∀ t ∈ c.frames.flatMap Frame.rest, t.id ≠ id
  | _ => True

/-- A failure of request `id` is delivered from its timer once no callback of it is left. -/
def FailsInTurn (c : Conn) (id : Nat) : Act → Prop
  | .timer index => ∀ reply, c.timers[index]? = some (.call id reply) → ∀ t ∈ c.ahead, t.id ≠ id
  | _ => True

/-- Callbacks of a request are entered one after the other. -/
def Orderly (c : Conn) (act : Act) : Prop :=
  ∀ id, DrainsInTurn c id act ∧ FailsInTurn c id act

/-- The event drops no callback of request `id`: there is room in the queue, and a callback that
signals has none of them behind it. -/
def Intact (maxLength : Nat) (c : Conn) (id : Nat) : Act → Prop
  | .message m => (∃ t ∈ c.brings (.message m), t.id = id) → c.queue.length < maxLength
  | .timer index => (∃ t ∈ c.brings (.timer index), t.id = id) → c.queue.length < maxLength
  | .finish true => ∀ rest frames, c.frames = .running rest :: frames → ∀ t ∈ rest, t.id ≠ id
  | _ => True

section Ahead

variable {maxLength : Nat} {c c' : Conn} {id : Nat} {act : Act}

theorem ahead_congr (queue : c'.queue = c.queue)
    (frames : c'.frames.flatMap Frame.rest = c.frames.flatMap Frame.rest) : c'.ahead = c.ahead := by
  unfold Conn.ahead
  rw [queue, frames]

@[simp] theorem ahead_scheduled : c.scheduled.ahead = c.ahead := by
  unfold Conn.scheduled
  split <;> rfl

theorem ahead_enqueueCallback (thunk : Thunk) :
    ((enqueueCallback maxLength thunk).after c).ahead =
      if maxLength ≤ c.queue.length then c.ahead else c.ahead ++ [thunk] := by
  rw [enqueueCallback_after]
  split
  · rfl
  · rw [ahead_scheduled]
    simp [Conn.ahead]

theorem ahead_enter (thunk : Thunk) (rest : List Thunk) :
    (c.enter thunk rest).ahead = rest ++ c.ahead := by
  simp [Conn.ahead, Frame.rest]

/-- What is due for a request after an event, with what the event enters, is what was due and what
the event brings; or less, when something is dropped. -/
def InTurn (c : Conn) (id : Nat) (entered ahead brought : List Thunk) (intact : Prop) : Prop :=
  ((entered ++ ahead).filter (·.id == id)).Sublist ((c.ahead ++ brought).filter (·.id == id)) ∧
    (intact → (entered ++ ahead).filter (·.id == id) = (c.ahead ++ brought).filter (·.id == id))

theorem InTurn.of_eq {entered ahead brought : List Thunk} {intact : Prop}
    (same : entered ++ ahead = c.ahead ++ brought) : InTurn c id entered ahead brought intact := by
  rw [InTurn, same]
  exact ⟨.refl _, fun _ => rfl⟩

theorem InTurn.kept (intact : Prop) (same : c'.ahead = c.ahead) :
    InTurn c id [] c'.ahead [] intact := by
  apply InTurn.of_eq
  rw [same, List.nil_append, List.append_nil]

/-- One callback becomes due, unless the queue is full. -/
theorem InTurn.enqueue {intact : Prop} {thunk : Thunk} (from_c : c'.ahead = c.ahead)
    (queue : c'.queue = c.queue)
    (room : intact → thunk.id = id → c.queue.length < maxLength) :
    InTurn c id [] ((enqueueCallback maxLength thunk).after c').ahead [thunk] intact := by
  unfold InTurn
  rw [ahead_enqueueCallback, queue, from_c, List.nil_append]
  by_cases full : maxLength ≤ c.queue.length
  · rw [if_pos full]
    constructor
    · apply List.Sublist.filter
      exact List.sublist_append_left _ _
    · intro intact
      by_cases same : thunk.id = id
      · have := room intact same
        omega
      · simp [same]
  · rw [if_neg full]
    exact ⟨.refl _, fun _ => rfl⟩

theorem inTurn_message (m : Message) :
    InTurn c id [] ((dispatch maxLength m).after c).ahead (c.brings (.message m))
      (Intact maxLength c id (.message m)) := by
  unfold dispatch
  cases named : m.repliesTo with
  | none =>
      simp only [Conn.brings, named]
      exact .kept _ rfl
  | some key =>
      simp only [dispatchReply, after_fetch_bind]
      have completed : ∀ final, c.brings (.message m) = [⟨key, final, .message m⟩] →
          Intact maxLength c id (.message m) → key = id → c.queue.length < maxLength := by
        intro final brings intact same
        apply intact
        exact ⟨_, by rw [brings]; exact List.mem_singleton_self _, same⟩
      cases found : c.pending key with
      | none =>
          simp only [Conn.brings, named, found]
          exact .kept _ rfl
      | some entry =>
          cases entry with
          | waiting =>
              simp only [Conn.brings, named, found]
              exact .kept _ rfl
          | replied reply =>
              simp only [Conn.brings, named, found]
              exact .kept _ rfl
          | callback =>
              have brings : c.brings (.message m) = [⟨key, true, .message m⟩] := by
                simp only [Conn.brings, named, found]
              rw [brings]
              exact .enqueue rfl rfl (completed true brings)
          | stream =>
              have brings : c.brings (.message m) = [⟨key, !m.more, .message m⟩] := by
                simp only [Conn.brings, named, found]
              rw [brings]
              simp only [after_ite, after_update_bind]
              cases more : m.more with
              | true =>
                  rw [more] at brings
                  exact .enqueue rfl rfl (completed false brings)
              | false =>
                  rw [more] at brings
                  exact .enqueue rfl rfl (completed true brings)

/-- A drain takes the queue, which holds no callback of a request that another drain still has. -/
theorem inTurn_drain {index : Nat} (found : c.timers[index]? = some .drain)
    (drains : DrainsInTurn c id (.timer index)) (intact : Prop) :
    InTurn c id (c.enters (.timer index))
      (drainCallbackQueue.after { c with timers := c.timers.eraseIdx index }).ahead [] intact := by
  simp only [Conn.enters, found, drainCallbackQueue, after_update_bind, after_fetch_bind]
  cases thunks : c.queue.reverse with
  | nil => exact .kept _ rfl
  | cons thunk rest =>
      simp only [after_ite, after_update_bind, after_update, maybeScheduleDrain_after]
      cases blocked : c.hasBlockedWaiter with
      | true =>
          have still : ({ c with drainScheduled := false, timers := c.timers.eraseIdx index } :
              Conn).hasBlockedWaiter = true := blocked
          rw [if_pos still]
          exact .kept _ ahead_scheduled
      | false =>
          have still : ¬ ({ c with drainScheduled := false, timers := c.timers.eraseIdx index } :
              Conn).hasBlockedWaiter = true := by
            intro waits
            have running : c.hasBlockedWaiter = true := waits
            rw [blocked] at running
            cases running
          rw [if_neg still]
          -- one of the two lists that change places has none of the request's callbacks
          have apart : (c.frames.flatMap Frame.rest).filter (·.id == id) = [] ∨
              (thunk :: rest).filter (·.id == id) = [] := by
            rcases drains found blocked with queued | under
            · right
              apply List.filter_eq_nil_iff.mpr
              intro t member
              rw [← thunks, List.mem_reverse] at member
              simp [queued t member]
            · left
              apply List.filter_eq_nil_iff.mpr
              intro t member
              simp [under t member]
          have moved : (({ c with
                drainScheduled := false, timers := c.timers.eraseIdx index,
                queue := [] } : Conn).enter thunk rest).ahead =
              rest ++ c.frames.flatMap Frame.rest := by
            rw [ahead_enter]
            simp [Conn.ahead]
          have same : ([thunk] ++ (rest ++ c.frames.flatMap Frame.rest)).filter (·.id == id) =
              (c.ahead ++ []).filter (·.id == id) := by
            rw [Conn.ahead, thunks, List.append_nil, ← List.append_assoc, List.singleton_append,
              List.filter_append, List.filter_append]
            rcases apart with none | none
            · rw [none, List.nil_append, List.append_nil]
            · rw [none, List.nil_append, List.append_nil]
          rw [moved]
          exact ⟨same ▸ .refl _, fun _ => same⟩

theorem inTurn_timer (index : Nat) (drains : DrainsInTurn c id (.timer index))
    (fails : FailsInTurn c id (.timer index)) :
    InTurn c id (c.enters (.timer index)) ((runTimer maxLength index).after c).ahead
      (c.brings (.timer index)) (Intact maxLength c id (.timer index)) := by
  cases found : c.timers[index]? with
  | none =>
      simp only [runTimer, after_fetch_bind, found, Conn.enters, Conn.brings]
      exact .kept _ rfl
  | some timer =>
      simp only [runTimer, after_fetch_bind, found, after_update_bind]
      cases timer with
      | drain =>
          rw [show c.brings (.timer index) = [] by simp [Conn.brings, found]]
          exact inTurn_drain found drains _
      | timeout key =>
          have table : ({ c with timers := c.timers.eraseIdx index } : Conn).isAsync key =
              c.isAsync key := rfl
          simp only [timeoutRequest, after_fetch_bind, after_whenever, after_update_bind, table,
            Conn.enters, found]
          by_cases async : c.isAsync key = true
          · have brings : c.brings (.timer index) = [⟨key, true, .timeout⟩] := by
              simp [Conn.brings, found, async]
            rw [if_pos async, brings]
            apply InTurn.enqueue rfl rfl
            intro intact same
            apply intact
            exact ⟨_, by rw [brings]; exact List.mem_singleton_self _, same⟩
          · rw [if_neg async, show c.brings (.timer index) = [] by simp [Conn.brings, found, async]]
            exact .kept _ rfl
      | call key reply =>
          simp only [Conn.enters, Conn.brings, found, after_update, ahead_enter, List.nil_append]
          have kept : ({ c with timers := c.timers.eraseIdx index } : Conn).ahead = c.ahead := rfl
          have same : ([(⟨key, true, reply⟩ : Thunk)] ++ c.ahead).filter (·.id == id) =
              (c.ahead ++ [(⟨key, true, reply⟩ : Thunk)]).filter (·.id == id) := by
            rw [List.filter_append, List.filter_append]
            by_cases here : key = id
            · have none : c.ahead.filter (·.id == id) = [] := by
                apply List.filter_eq_nil_iff.mpr
                intro t member
                simp [fails reply (here ▸ found) t member]
              rw [none, List.append_nil, List.nil_append]
            · simp [here]
          rw [kept]
          exact ⟨same ▸ .refl _, fun _ => same⟩

theorem inTurn_finish (signals : Bool) :
    InTurn c id (c.enters (.finish signals)) ((finishCallback signals).after c).ahead []
      (Intact maxLength c id (.finish signals)) := by
  simp only [finishCallback, after_fetch_bind]
  cases top : c.frames with
  | nil =>
      cases signals <;> simp only [Conn.enters, top] <;> exact .kept _ rfl
  | cons frame frames =>
      cases frame with
      | waiting key =>
          cases signals <;> simp only [Conn.enters, top] <;> exact .kept _ rfl
      | running rest =>
          cases rest with
          | nil =>
              have left : c.leave.ahead = c.ahead := ahead_congr rfl (by simp [top, Frame.rest])
              cases signals <;> simp only [Conn.enters, top] <;> exact .kept _ left
          | cons thunk rest =>
              have parts : c.ahead = thunk :: rest ++ c.leave.ahead := by
                simp [Conn.ahead, top, Frame.rest]
              cases signals with
              | false =>
                  simp only [Conn.enters, top, Bool.false_eq_true, if_false, after_update_bind,
                    after_update, ahead_enter]
                  apply InTurn.of_eq
                  rw [parts, List.append_nil]
                  rfl
              | true =>
                  simp only [Conn.enters, if_true, after_update]
                  unfold InTurn
                  rw [parts, List.nil_append, List.append_nil]
                  constructor
                  · apply List.Sublist.filter
                    exact List.sublist_append_right _ _
                  · intro intact
                    have none : (thunk :: rest).filter (·.id == id) = [] := by
                      apply List.filter_eq_nil_iff.mpr
                      intro t member
                      simp [intact (thunk :: rest) frames top t member]
                    rw [List.filter_append, none, List.nil_append]

theorem ahead_awake {frames : List Frame} {other : Nat} (top : c.frames = .waiting other :: frames)
    (expired : Bool) : ((awake other expired).after c).ahead = c.ahead := by
  obtain ⟨queue, kept, -, -⟩ := noticed_rest c other
  have left : ((c.noticed other).frames.tail).flatMap Frame.rest = c.frames.flatMap Frame.rest := by
    rw [kept, top]
    rfl
  rw [awake_after]
  split
  · exact ahead_congr queue left
  · split
    · exact ahead_congr queue (by rw [kept])
    · exact ahead_congr queue left

/-- Every event moves callbacks along in order. -/
theorem inTurn_step (maxLength : Nat) (c : Conn) (id : Nat) {act : Act}
    (drains : DrainsInTurn c id act) (fails : FailsInTurn c id act) :
    InTurn c id (c.enters act) (c.step maxLength act).ahead (c.brings act)
      (Intact maxLength c id act) := by
  unfold Conn.step
  cases act with
  | requestAsync timeout sends =>
      cases timeout <;> cases sends <;> exact .kept _ rfl
  | requestStream timeout sends =>
      cases timeout <;> cases sends <;> exact .kept _ rfl
  | request sends => cases sends <;> exact .kept _ rfl
  | awake expired =>
      simp only [perform, after_fetch_bind]
      split
      · rename_i key frames top
        exact .kept _ (ahead_awake top expired)
      · exact .kept _ rfl
  | cancel key => exact .kept _ rfl
  | message m => exact inTurn_message (c := c.record _) m
  | timer index => exact inTurn_timer (c := c.record _) index drains fails
  | finish signals => exact inTurn_finish (c := c.record _) signals
  | die => exact .kept _ rfl
  | sentinel error =>
      simp only [perform, sentinel, after_fetch_bind, after_whenever]
      split
      · exact .kept _ rfl
      · exact .kept _ rfl

/-- The connection's lists of calls grow by the callbacks entered. -/
structure Logs (c : Conn) (entered : List Thunk) (c' : Conn) : Prop where
  calls : c'.calls = c.calls ++ (entered.filter Thunk.final).map fun t => (t.id, t.reply)
  chunks : c'.chunks = c.chunks ++ (entered.filter (!·.final)).map fun t => (t.id, t.reply)

theorem Logs.none (calls : c'.calls = c.calls) (chunks : c'.chunks = c.chunks) : Logs c [] c' :=
  ⟨by simp [calls], by simp [chunks]⟩

theorem Logs.one {before : Conn} (thunk : Thunk) (rest : List Thunk)
    (calls : before.calls = c.calls) (chunks : before.chunks = c.chunks) : Logs c [thunk] (before.enter thunk rest) := by
  constructor
  · cases final : thunk.final <;> simp [final, calls]
  · cases final : thunk.final <;> simp [final, chunks]

theorem logs_enqueueCallback {before : Conn} (thunk : Thunk) (calls : before.calls = c.calls)
    (chunks : before.chunks = c.chunks) :
    Logs c [] ((enqueueCallback maxLength thunk).after before) := by
  have scheduled : ∀ c : Conn, c.scheduled.calls = c.calls ∧ c.scheduled.chunks = c.chunks := by
    intro c
    unfold Conn.scheduled
    split <;> exact ⟨rfl, rfl⟩
  rw [enqueueCallback_after]
  split
  · exact .none calls chunks
  · exact .none ((scheduled _).1.trans calls) ((scheduled _).2.trans chunks)

theorem logs_message (maxLength : Nat) (c : Conn) (m : Message) :
    Logs c [] ((dispatch maxLength m).after c) := by
  unfold dispatch
  cases m.repliesTo with
  | none => exact .none rfl rfl
  | some key =>
      simp only [dispatchReply, after_fetch_bind]
      cases c.pending key with
      | none => exact .none rfl rfl
      | some entry =>
          cases entry with
          | waiting => exact .none rfl rfl
          | replied reply => exact .none rfl rfl
          | callback => exact logs_enqueueCallback _ rfl rfl
          | stream =>
              simp only [after_ite, after_update_bind]
              split <;> exact logs_enqueueCallback _ rfl rfl

theorem logs_timer (maxLength : Nat) (c : Conn) (index : Nat) :
    Logs c (c.enters (.timer index)) ((runTimer maxLength index).after c) := by
  simp only [runTimer, after_fetch_bind, Conn.enters]
  cases c.timers[index]? with
  | none => exact .none rfl rfl
  | some timer =>
      simp only [after_update_bind]
      cases timer with
      | drain =>
          simp only [drainCallbackQueue, after_update_bind, after_fetch_bind]
          cases c.queue.reverse with
          | nil => exact .none rfl rfl
          | cons thunk rest =>
              simp only [after_ite, after_update_bind, after_update, maybeScheduleDrain_after]
              by_cases blocked : c.hasBlockedWaiter = true
              · have still : ({ c with
                    drainScheduled := false, timers := c.timers.eraseIdx index } :
                    Conn).hasBlockedWaiter = true := blocked
                rw [if_pos still, if_pos blocked]
                exact .none rfl rfl
              · have still : ¬ ({ c with
                    drainScheduled := false, timers := c.timers.eraseIdx index } :
                    Conn).hasBlockedWaiter = true := blocked
                rw [if_neg still, if_neg blocked]
                exact .one thunk rest rfl rfl
      | timeout key =>
          simp only [timeoutRequest, after_fetch_bind, after_whenever, after_update_bind]
          split
          · exact logs_enqueueCallback _ rfl rfl
          · exact .none rfl rfl
      | call key reply => exact .one ⟨key, true, reply⟩ [] rfl rfl

theorem logs_finish (c : Conn) (signals : Bool) :
    Logs c (c.enters (.finish signals)) ((finishCallback signals).after c) := by
  simp only [finishCallback, after_fetch_bind, Conn.enters]
  cases c.frames with
  | nil => cases signals <;> exact .none rfl rfl
  | cons frame frames =>
      cases frame with
      | waiting key => cases signals <;> exact .none rfl rfl
      | running rest =>
          cases rest with
          | nil => cases signals <;> exact .none rfl rfl
          | cons thunk rest =>
              cases signals with
              | true => exact .none rfl rfl
              | false => exact .one thunk rest rfl rfl

theorem logs_step (maxLength : Nat) (c : Conn) (act : Act) :
    Logs c (c.enters act) (c.step maxLength act) := by
  unfold Conn.step
  cases act with
  | requestAsync timeout sends => cases timeout <;> cases sends <;> exact .none rfl rfl
  | requestStream timeout sends => cases timeout <;> cases sends <;> exact .none rfl rfl
  | request sends => cases sends <;> exact .none rfl rfl
  | awake expired =>
      simp only [perform, after_fetch_bind]
      split
      · rename_i key frames top
        have noticed : ∀ c : Conn, (c.noticed key).calls = c.calls ∧
            (c.noticed key).chunks = c.chunks := by
          intro c
          unfold Conn.noticed
          split <;> exact ⟨rfl, rfl⟩
        rw [awake_after]
        split
        · exact .none (noticed _).1 (noticed _).2
        · split
          · exact .none (noticed _).1 (noticed _).2
          · exact .none (noticed _).1 (noticed _).2
      · exact .none rfl rfl
  | cancel key => exact .none rfl rfl
  | message m =>
      have logs := logs_message maxLength (c.record (c.ends (.message m))) m
      exact ⟨logs.calls, logs.chunks⟩
  | timer index =>
      have logs := logs_timer maxLength (c.record (c.ends (.timer index))) index
      exact ⟨logs.calls, logs.chunks⟩
  | finish signals =>
      have logs := logs_finish (c.record (c.ends (.finish signals))) signals
      exact ⟨logs.calls, logs.chunks⟩
  | die => exact .none rfl rfl
  | sentinel error =>
      simp only [perform, sentinel, after_fetch_bind, after_whenever]
      split <;> exact .none rfl rfl

end Ahead

namespace Recorded

variable {maxLength : Nat} {r : Recorded}

/-- What was entered of a request and what is due, in order. -/
def trace (r : Recorded) (id : Nat) : List Thunk :=
  (r.entered ++ r.conn.ahead).filter (·.id == id)

def arrivals (r : Recorded) (id : Nat) : List Thunk := r.arrived.filter (·.id == id)

/-- The callbacks entered are those the connection has called. -/
theorem entered_calls {permitted : Recorded → Act → Prop}
    (reached : Reached maxLength permitted r) : Logs {} r.entered r.conn := by
  apply Reaches.invariant _ _ reached
  · exact .none rfl rfl
  · intro r act logs _
    have now := logs_step maxLength r.conn act
    constructor
    · show (r.conn.step maxLength act).calls = _
      rw [now.calls, logs.calls]
      simp [step]
    · show (r.conn.step maxLength act).chunks = _
      rw [now.chunks, logs.chunks]
      simp [step]

theorem trace_step {act : Act} {id : Nat} (drains : DrainsInTurn r.conn id act)
    (fails : FailsInTurn r.conn id act) :
    ((r.step maxLength act).trace id).Sublist
        (r.trace id ++ (r.conn.brings act).filter (·.id == id)) ∧
      (Intact maxLength r.conn id act →
        (r.step maxLength act).trace id =
          r.trace id ++ (r.conn.brings act).filter (·.id == id)) := by
  have inTurn : InTurn r.conn id (r.conn.enters act) (r.conn.step maxLength act).ahead
      (r.conn.brings act) (Intact maxLength r.conn id act) :=
    inTurn_step maxLength r.conn id drains fails
  have after : (r.step maxLength act).trace id = r.entered.filter (·.id == id) ++
      (r.conn.enters act ++ (r.conn.step maxLength act).ahead).filter (·.id == id) := by
    simp only [trace, step, List.append_assoc, List.filter_append]
  have before : r.trace id ++ (r.conn.brings act).filter (·.id == id) =
      r.entered.filter (·.id == id) ++
        (r.conn.ahead ++ r.conn.brings act).filter (·.id == id) := by
    simp only [trace, List.append_assoc, List.filter_append]
  rw [after, before]
  constructor
  · exact (List.Sublist.refl _).append inTurn.1
  · intro intact
    rw [inTurn.2 intact]

theorem arrivals_step (maxLength : Nat) (r : Recorded) (act : Act) (id : Nat) :
    (r.step maxLength act).arrivals id =
      r.arrivals id ++ (r.conn.brings act).filter (·.id == id) := by
  simp only [arrivals, step, List.filter_append]

/-- An event brings at most one callback: a chunk of a stream that is pending, or the completion of
a request that is over after the event. -/
theorem brings_cases (maxLength : Nat) {c : Conn} (single : Single c) (act : Act) :
    c.brings act = [] ∨ ∃ t, c.brings act = [t] ∧
      (t.final = false → c.isAsync t.id = true) ∧
      (t.final = true → t.id ≤ c.nextId ∧ (c.step maxLength act).isAsync t.id = false) := by
  have past : ∀ id, id ∈ c.ends act →
      id ≤ c.nextId ∧ (c.step maxLength act).isAsync id = false := by
    intro id ended
    have known : id ≤ c.nextId := le_of_isAsync single.sound.bounded (ends_isAsync ended)
    refine ⟨known, ?_⟩
    rw [isAsync_step single.sound]
    rcases opens_cases c id act with closed | ⟨_, new, _⟩
    · simp [closed, ended]
    · omega
  cases act with
  | message m =>
      cases named : m.repliesTo with
      | none =>
          left
          simp [Conn.brings, named]
      | some key =>
          have brought : ∀ final, c.brings (.message m) = [⟨key, final, .message m⟩] →
              c.isAsync key = true → (final = true → c.finalFor m key = true) → ∃ t,
                c.brings (.message m) = [t] ∧ (t.final = false → c.isAsync t.id = true) ∧
                (t.final = true → t.id ≤ c.nextId ∧
                  (c.step maxLength (.message m)).isAsync t.id = false) := by
            intro final brings async ends
            refine ⟨_, brings, fun _ => async, fun final => past key ?_⟩
            exact (mem_ends_message single.sound.bounded).mpr (ends final)
          cases found : c.pending key with
          | none => simp [Conn.brings, named, found]
          | some entry =>
              cases entry with
              | waiting => simp [Conn.brings, named, found]
              | replied reply => simp [Conn.brings, named, found]
              | callback =>
                  right
                  apply brought true
                  · simp only [Conn.brings, named, found]
                  · simp [Conn.isAsync, found, Entry.isAsync]
                  · intro _
                    simp [Conn.finalFor, named, found]
              | stream =>
                  right
                  apply brought (!m.more)
                  · simp only [Conn.brings, named, found]
                  · simp [Conn.isAsync, found, Entry.isAsync]
                  · intro last
                    simpa [Conn.finalFor, named, found] using last
  | timer index =>
      cases found : c.timers[index]? with
      | none => simp [Conn.brings, found]
      | some timer =>
          cases timer with
          | drain => simp [Conn.brings, found]
          | timeout key =>
              by_cases async : c.isAsync key = true
              · right
                refine ⟨⟨key, true, .timeout⟩, by simp [Conn.brings, found, async],
                  (fun unfinished => by cases unfinished),
                  fun _ => past key ?_⟩
                simp [Conn.ends, found, async]
              · simp [Conn.brings, found, async]
          | call key reply =>
              right
              refine ⟨⟨key, true, reply⟩, by simp [Conn.brings, found],
                (fun unfinished => by cases unfinished), fun _ => ?_⟩
              -- the timer holds the completion, so that the request is not pending
              have due : 0 < c.due key := by
                have member := List.mem_of_getElem? found
                have counted : 0 < c.timers.countP (Timer.completes key) :=
                  List.countP_pos_iff.mpr ⟨_, member, by simp [Timer.completes]⟩
                unfold Conn.due
                omega
              have ended := single.ended key (single.moved key (by omega))
              refine ⟨ended.1, ?_⟩
              rw [isAsync_step single.sound, ended.2]
              rcases opens_cases c key (.timer index) with closed | ⟨_, new, _⟩
              · simp [closed]
              · have := ended.1
                omega
  | _ => exact .inl rfl

/-- A request is over when its completion has arrived: what arrives of it later is a completion. -/
structure Closed (r : Recorded) : Prop where
  single : Single r.conn
  ended : ∀ t ∈ r.arrived, t.final = true → t.id ≤ r.conn.nextId ∧ r.conn.isAsync t.id = false
  closed : r.arrived.Pairwise fun t u => t.id = u.id → t.final = true → u.final = true

theorem closed_start : Closed {} := ⟨single_start, nofun, .nil⟩

theorem closed_step (closed : Closed r) (act : Act) : Closed (r.step maxLength act) := by
  have single := closed.single
  have still : ∀ t ∈ r.arrived, t.final = true →
      t.id ≤ r.conn.nextId ∧ (r.conn.step maxLength act).isAsync t.id = false := by
    intro t member final
    obtain ⟨known, past⟩ := closed.ended t member final
    refine ⟨known, ?_⟩
    rw [isAsync_step single.sound, past]
    rcases opens_cases r.conn t.id act with none | ⟨_, new, _⟩
    · simp [none]
    · omega
  have grows : r.conn.nextId ≤ (r.conn.step maxLength act).nextId := by
    rw [(step_history maxLength r.conn act).1]
    omega
  constructor
  case single => exact single_step maxLength single act
  case ended =>
    intro t member final
    rcases List.mem_append.mp member with before | brought
    · exact (still t before final).imp_left fun known => Nat.le_trans known grows
    · rcases brings_cases maxLength single act with none | ⟨u, same, -, past⟩
      · rw [none] at brought
        cases brought
      · rw [same, List.mem_singleton] at brought
        rw [brought] at final ⊢
        exact (past final).imp_left fun known => Nat.le_trans known grows
  case closed =>
    show (r.arrived ++ r.conn.brings act).Pairwise _
    rcases brings_cases maxLength single act with none | ⟨u, same, pending, -⟩
    · rw [none, List.append_nil]
      exact closed.closed
    · rw [same, List.pairwise_append]
      refine ⟨closed.closed, List.pairwise_singleton _ _, ?_⟩
      intro t member v is_u ids final
      rw [List.mem_singleton.mp is_u] at ids ⊢
      cases last : u.final with
      | true => rfl
      | false =>
          have async := pending last
          rw [← ids, (closed.ended t member final).2] at async
          cases async

theorem closed_reached {permitted : Recorded → Act → Prop}
    (reached : Reached maxLength permitted r) : Closed r :=
  reached.invariant closed_start fun _ act closed _ => closed_step closed act

/-- Where callbacks of a request are entered one after the other, calls follow arrivals. -/
theorem trace_sublist (reached : Reached maxLength (fun r => Orderly r.conn) r) (id : Nat) :
    (r.trace id).Sublist (r.arrivals id) := by
  apply Reaches.invariant _ _ reached
  · exact .refl _
  · intro r act sublist orderly
    rw [arrivals_step]
    exact (trace_step (orderly id).1 (orderly id).2).1.trans (sublist.append_right _)

/-- In every run in which the callbacks of a request wait for one another, the chunks of a stream
are handed over in the order of their arrival, and none after its completion. -/
theorem stream_callbacks_ordered (reached : Reached maxLength (fun r => Orderly r.conn) r) :
    InOrder r := by
  have closed := closed_reached reached
  have entered : ∀ id, (r.entered.filter (·.id == id)).Sublist (r.arrivals id) := by
    intro id
    apply List.Sublist.trans _ (trace_sublist reached id)
    rw [trace, List.filter_append]
    exact List.sublist_append_left _ _
  constructor
  case chunks =>
    intro id
    have chunks := (entered id).filter fun t => !t.final
    rw [arrivals, List.filter_filter, List.filter_filter] at chunks
    simpa only [chunksOf, Bool.and_comm] using chunks
  case done =>
    intro before after id reply parts
    have closed : (r.entered.filter (·.id == id)).Pairwise
        fun t u => t.id = u.id → t.final = true → u.final = true :=
      (closed.closed.filter _).sublist (entered id)
    rw [parts, List.filter_append, List.pairwise_append, List.filter_cons_of_pos (by simp),
      List.pairwise_cons] at closed
    apply List.filter_eq_nil_iff.mpr
    intro t member
    simp only [Bool.and_eq_true, beq_iff_eq, Bool.not_eq_true', not_and, Bool.not_eq_false]
    intro same
    exact closed.2.1.1 t (List.mem_filter.mpr ⟨member, by simp [same]⟩) same.symm rfl

/-- Two chunks and the final reply, in batches, around a request that blocks. -/
def delayed : List Act :=
  [.requestStream true true, .message { id := some 1, more := true }, .request true, .timer 1,
    .message { id := some 1, more := true }, .message { id := some 2 }, .awake false, .timer 1,
    .message { id := some 1 }, .finish false, .finish false, .timer 1]

theorem stream_callbacks_ordered_delayed :
    (delayed.foldl (step 10000) {}).entered.map Thunk.final = [false, false, true] ∧
    InOrder (delayed.foldl (step 10000) {}) := by
  have reached : Reached 10000 (fun r => Orderly r.conn) (delayed.foldl (step 10000) {}) := by
    apply Reaches.of_along .refl
    have other : ∀ {c : Conn} {act : Act}, (∀ index, act ≠ .timer index) → Orderly c act := by
      intro c act event id
      cases act <;> simp [DrainsInTurn, FailsInTurn] at event ⊢
    have drained : ∀ {c : Conn} {index : Nat}, c.timers[index]? = some .drain →
        c.frames.flatMap Frame.rest = [] → Orderly c (.timer index) := by
      intro c index drain idle id
      simp [DrainsInTurn, FailsInTurn, drain, idle]
    exact ⟨other nofun, other nofun, other nofun, drained (by decide) (by decide), other nofun,
      other nofun, other nofun, drained (by decide) (by decide), other nofun, other nofun,
      other nofun, drained (by decide) (by decide), trivial⟩
  exact ⟨by decide, stream_callbacks_ordered reached⟩

/-- A chunk is queued, a request blocks the drain, and the process exits. -/
def overtaken : List Act :=
  [.requestStream false true, .message { id := some 1, more := true }, .request true, .timer 0,
    .die, .sentinel "exited", .timer 1, .finish false, .awake false, .timer 0]

/-- The failure of a stream overtakes a chunk that the drain has put off. -/
theorem chunk_after_done :
    ¬ ∀ (maxLength : Nat) (r : Recorded), Reached maxLength (fun _ _ => True) r → InOrder r := by
  intro always
  have reached : Reached 10000 (fun _ _ => True) (overtaken.foldl (step 10000) {}) := by
    apply Reaches.of_along .refl
    exact ⟨trivial, trivial, trivial, trivial, trivial, trivial, trivial, trivial, trivial,
      trivial, trivial⟩
  have closed := (always 10000 _ reached).done []
    [⟨1, false, .message { id := some 1, more := true }⟩] 1 (.transport "exited") (by decide)
  revert closed
  decide

end Recorded

end EmacsRelay.RelayCore

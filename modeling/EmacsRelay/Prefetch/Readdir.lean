import EmacsRelay.Core.Stream
import EmacsRelay.Server.Readdir

set_option autoImplicit false

/- `relay--readdir-stream`, on the replies of one `readdir` as they come through the connection. -/
namespace EmacsRelay.RelayPrefetch

open RelayCore Server
open Routine

/-- Replies to `readdir` as JSON messages, and what `plist-get` finds in a parsed one. The server's
serializer and the client's parser agree on them. -/
structure ReaddirWire (ε α : Type) where
  message : Nat → ReaddirReply ε α → Message
  entries : Message → List ε
  selfAttrs : Message → α
  repliesTo : ∀ id reply, 0 < id → (message id reply).repliesTo = some id
  more_message : ∀ id reply, (message id reply).more = reply.more
  ok_message : ∀ id reply, (message id reply).ok = true ↔ ∀ text, reply ≠ .error text
  entries_message : ∀ id reply, entries (message id reply) = reply.entries
  selfAttrs_message : ∀ id rest attrs, selfAttrs (message id (.last rest attrs)) = attrs

section Client

variable {ε α : Type}

/-- What the done function is given: a listing, or a reply that is passed through. -/
inductive Handed (ε α : Type) where
  | listing (entries : List ε) (selfAttrs : α)
  | failure (reply : Reply)

/-- The variable `acc` of `relay--readdir-stream`, and the calls of its done function. -/
structure Reading (ε α : Type) where
  acc : List ε := []
  done : List (Handed ε α) := []

variable (wire : ReaddirWire ε α)

/-- `(plist-get msg :entries)`, of a reply that may be made up by the client. -/
def replyEntries : Reply → List ε
  | .message m => wire.entries m
  | _ => []

/-- One of the two functions `relay--readdir-stream` hands to `relay--request-stream`. -/
def Reading.call (s : Reading ε α) (thunk : Thunk) : Reading ε α :=
  let acc := s.acc ++ replyEntries wire thunk.reply
  if thunk.final then
    match thunk.reply with
    | .message m =>
        if m.ok then { acc := acc, done := s.done ++ [.listing acc (wire.selfAttrs m)] }
        else { s with done := s.done ++ [.failure thunk.reply] }
    | _ => { s with done := s.done ++ [.failure thunk.reply] }
  else { s with acc := acc }

/-- `relay--readdir-stream`, after the calls that were made for its request. -/
def readdirStream (id : Nat) (entered : List Thunk) : Reading ε α :=
  (entered.filter (·.id == id)).foldl (Reading.call wire) {}

end Client

/-- The reply is a message, not a failure made up by the client. -/
def isMessage : Reply → Bool
  | .message _ => true
  | _ => false

/-- A connection, with the messages that have come in reply to one request. -/
structure Streamed where
  record : Recorded := {}
  delivered : List Message := []

namespace Streamed

def step (maxLength id : Nat) (s : Streamed) (act : Act) : Streamed where
  record := s.record.step maxLength act
  delivered :=
    match act with
    | .message m => if m.repliesTo = some id then s.delivered ++ [m] else s.delivered
    | _ => s.delivered

/-- Request `id` is a stream, and the server's replies to it are `sent`, which come in order to a
process that runs. -/
def Served (id : Nat) (sent : List Message) (s : Streamed) : Act → Prop
  | .message m => s.record.conn.live = true ∧
      (m.repliesTo = some id → id ≤ s.record.conn.nextId ∧ s.delivered ++ [m] <+: sent)
  | .requestAsync _ _ => s.record.conn.nextId + 1 ≠ id
  | .request _ => s.record.conn.nextId + 1 ≠ id
  | _ => True

/-- No drain takes callbacks of the stream while another one has some, and a callback that signals
has none of them behind it. -/
def Undisturbed (id : Nat) (c : Conn) (act : Act) : Prop :=
  DrainsInTurn c id act ∧
    (act = .finish true → ∀ rest frames, c.frames = .running rest :: frames → ∀ t ∈ rest, t.id ≠ id)

abbrev Reached (maxLength id : Nat) (sent : List Message) (s : Streamed) : Prop :=
  Reaches (step maxLength id)
    (fun s act => Served id sent s act ∧ Undisturbed id s.record.conn act) {} s

end Streamed

section Step

variable {maxLength id : Nat} {c : Conn} {act : Act}

/-- The table has no other entry for request `id` than a stream. -/
def Streams (c : Conn) (id : Nat) : Prop := ∀ entry, c.pending id = some entry → entry = .stream

/-- Timers deliver failures only. -/
def Failures (c : Conn) : Prop :=
  ∀ key reply, .call key reply ∈ c.timers → isMessage reply = false

/-- The callback a reply to the stream makes due. -/
def thunkOf (id : Nat) (m : Message) : Thunk := ⟨id, !m.more, .message m⟩

theorem Streams.isAsync (streams : Streams c id) (async : c.isAsync id = true) :
    c.pending id = some .stream := by
  cases found : c.pending id with
  | none => simp [Conn.isAsync, found] at async
  | some entry => rw [streams entry found]

theorem brings_message (streams : Streams c id) (m : Message) :
    (c.brings (.message m)).filter (·.id == id) =
      if m.repliesTo = some id ∧ c.isAsync id = true then [thunkOf id m] else [] := by
  by_cases named : m.repliesTo = some id
  · by_cases async : c.isAsync id = true
    · simp [Conn.brings, named, streams.isAsync async, async, thunkOf]
    · have absent : c.pending id = none := by
        cases found : c.pending id with
        | none => rfl
        | some entry =>
            rw [streams entry found] at found
            simp [Conn.isAsync, found, Entry.isAsync] at async
      simp [Conn.brings, named, absent, async]
  · rw [if_neg fun both => named both.1]
    apply List.filter_eq_nil_iff.mpr
    intro t member
    cases other : m.repliesTo with
    | none => simp [Conn.brings, other] at member
    | some key =>
        have apart : key ≠ id := fun same => named (same ▸ other)
        cases found : c.pending key with
        | none => simp [Conn.brings, other, found] at member
        | some entry => cases entry <;> simp_all [Conn.brings]

theorem brings_failure (failures : Failures c) (event : ∀ m, act ≠ .message m) :
    ∀ t ∈ c.brings act, t.final = true ∧ isMessage t.reply = false := by
  intro t member
  cases act with
  | message m => exact absurd rfl (event m)
  | timer index =>
      cases found : c.timers[index]? with
      | none => simp [Conn.brings, found] at member
      | some timer =>
          cases timer with
          | drain => simp [Conn.brings, found] at member
          | timeout key =>
              simp only [Conn.brings, found] at member
              split at member
              · rw [List.mem_singleton.mp member]
                exact ⟨rfl, rfl⟩
              · cases member
          | call key reply =>
              simp only [Conn.brings, found, List.mem_singleton] at member
              rw [member]
              exact ⟨rfl, failures key reply (List.mem_of_getElem? found)⟩
  | _ => cases member

/-- A process stays gone, timers deliver failures only, and request `id` remains a stream. -/
structure Ages (id : Nat) (c c' : Conn) : Prop where
  live : c.live = false → c'.live = false
  failures : Failures c → Failures c'
  streams : Streams c id → Streams c' id

theorem Ages.trans {c' c'' : Conn} (first : Ages id c c') (second : Ages id c' c'') :
    Ages id c c'' where
  live := fun gone => second.live (first.live gone)
  failures := fun failures => second.failures (first.failures failures)
  streams := fun streams => second.streams (first.streams streams)

theorem Ages.of_same {c' : Conn} (live : c'.live = c.live)
    (timers : ∀ key reply, .call key reply ∈ c'.timers → .call key reply ∈ c.timers)
    (pending : c'.pending = c.pending) : Ages id c c' where
  live := by rw [live]; exact fun gone => gone
  failures := fun failures key reply member => failures key reply (timers key reply member)
  streams := by rw [Streams, Streams, pending]; exact fun streams => streams

theorem Ages.refl (c : Conn) : Ages id c c := .of_same rfl (fun _ _ member => member) rfl

theorem ages_remove (other : Nat) : Ages id c (c.remove other) where
  live := fun gone => gone
  failures := fun failures => failures
  streams := by
    intro streams entry found
    simp only [Conn.remove_pending] at found
    split at found
    · cases found
    · exact streams entry found

theorem ages_scheduled : Ages id c c.scheduled := by
  unfold Conn.scheduled
  split
  · exact .refl c
  · refine .of_same rfl ?_ rfl
    intro key reply member
    simpa using member

theorem ages_enqueueCallback (thunk : Thunk) :
    Ages id c ((enqueueCallback maxLength thunk).after c) := by
  rw [enqueueCallback_after]
  split
  · exact ⟨fun _ => rfl, fun failures => failures, fun streams => streams⟩
  · have queued : Ages id c (c.enqueue thunk) := .of_same rfl (fun _ _ member => member) rfl
    exact queued.trans ages_scheduled

theorem ages_dispatch (maxLength : Nat) (c : Conn) (m : Message) :
    Ages id c ((dispatch maxLength m).after c) := by
  unfold dispatch
  cases m.repliesTo with
  | none => exact .refl c
  | some key =>
      simp only [dispatchReply, after_fetch_bind]
      have completed : Ages id c
          ((enqueueCallback maxLength ⟨key, true, .message m⟩).after (c.remove key)) :=
        (ages_remove key).trans (ages_enqueueCallback _)
      cases found : c.pending key with
      | none => exact .refl c
      | some entry =>
          cases entry with
          | waiting =>
              refine ⟨fun gone => gone, fun failures => failures, ?_⟩
              intro streams entry stored
              simp only [after_update, Conn.put_pending] at stored
              split at stored
              · rename_i same
                cases streams .waiting (same ▸ found)
              · exact streams entry stored
          | replied reply => exact .refl c
          | callback => exact completed
          | stream =>
              simp only [after_ite, after_update_bind]
              split
              · exact ages_enqueueCallback _
              · exact completed

theorem ages_timer (maxLength : Nat) (c : Conn) (index : Nat) :
    Ages id c ((runTimer maxLength index).after c) := by
  simp only [runTimer, after_fetch_bind]
  cases c.timers[index]? with
  | none => exact .refl c
  | some timer =>
      simp only [after_update_bind]
      have erased : Ages id c { c with timers := c.timers.eraseIdx index } :=
        .of_same rfl (fun _ _ => List.mem_of_mem_eraseIdx) rfl
      apply erased.trans
      cases timer with
      | drain =>
          simp only [drainCallbackQueue, after_update_bind, after_fetch_bind]
          split
          · exact .of_same rfl (fun _ _ member => member) rfl
          · simp only [after_ite, after_update_bind, after_update, maybeScheduleDrain_after]
            split
            · refine Ages.trans ?_ ages_scheduled
              exact .of_same rfl (fun _ _ member => member) rfl
            · exact .of_same rfl (fun _ _ member => member) rfl
      | timeout key =>
          simp only [timeoutRequest, after_fetch_bind, after_whenever, after_update_bind]
          split
          · exact (ages_remove key).trans (ages_enqueueCallback _)
          · exact .refl _
      | call key reply => exact .of_same rfl (fun _ _ member => member) rfl

theorem ages_finish (c : Conn) (signals : Bool) :
    Ages id c ((finishCallback signals).after c) := by
  simp only [finishCallback, after_fetch_bind]
  split
  · cases signals <;> exact .of_same rfl (fun _ _ member => member) rfl
  · exact .of_same rfl (fun _ _ member => member) rfl
  · exact .refl c

theorem ages_sentinel (c : Conn) (error : String) : Ages id c ((sentinel error).after c) := by
  simp only [sentinel, after_fetch_bind, after_whenever]
  split
  · refine ⟨fun gone => gone, ?_, ?_⟩
    · intro failures key reply member
      rcases List.mem_append.mp member with before | failed
      · exact failures key reply before
      · obtain ⟨_, _, same⟩ := List.mem_map.mp failed
        injection same with _ same
        rw [← same]
        rfl
    · intro streams entry found
      simp only [failPending, after_update] at found
      cases before : c.pending id with
      | none => simp [before] at found
      | some kind =>
          rw [streams kind before] at before
          simp [before] at found
  · exact .refl c

theorem ages_awake (c : Conn) (other : Nat) (expired : Bool) :
    Ages id c ((awake other expired).after c) := by
  have noticed : Ages id c (c.noticed other) := by
    unfold Conn.noticed
    split
    · rename_i waits
      rw [Bool.and_eq_true, decide_eq_true_eq] at waits
      refine ⟨fun gone => gone, fun failures => failures, ?_⟩
      intro streams entry found
      simp only [Conn.put_pending] at found
      split at found
      · rename_i same
        cases streams .waiting (same ▸ waits.1)
      · exact streams entry found
    · exact .refl c
  have concluded : ∀ result,
      Ages id c ((((c.noticed other).remove other).leave).conclude other result) := by
    intro result
    apply (noticed.trans (ages_remove other)).trans
    exact .of_same rfl (fun _ _ member => member) rfl
  rw [awake_after]
  split
  · exact concluded _
  · split
    · exact noticed
    · exact concluded _

theorem ages_opened (entry : Entry) (timeout sends : Bool)
    (stream : c.nextId + 1 = id → entry = .stream) : Ages id c (c.opened entry timeout sends) := by
  have table : Streams c id → Streams (c.opened entry timeout sends) id := by
    intro streams kind found
    have stored : (if id = c.nextId + 1 then some entry else c.pending id) = some kind := by
      cases timeout <;> cases sends <;> exact found
    split at stored
    · rename_i new
      rw [← Option.some.inj stored]
      exact stream new.symm
    · exact streams kind stored
  refine ⟨?_, ?_, table⟩
  · cases timeout <;> cases sends <;> exact fun gone => gone
  · intro failures key reply member
    apply failures key reply
    cases timeout <;> cases sends <;> simpa [Conn.opened] using member

theorem ages_step (maxLength : Nat) (c : Conn) {act : Act}
    (async : ∀ timeout sends, act = .requestAsync timeout sends → c.nextId + 1 ≠ id)
    (sync : ∀ sends, act = .request sends → c.nextId + 1 ≠ id) :
    Ages id c (c.step maxLength act) := by
  have recorded : Ages id c (c.record (c.ends act)) := .of_same rfl (fun _ _ member => member) rfl
  apply recorded.trans
  unfold Conn.step
  cases act with
  | requestAsync timeout sends =>
      rw [requestAsync_after]
      exact ages_opened _ _ _ fun same => absurd same (async _ _ rfl)
  | requestStream timeout sends =>
      rw [requestStream_after]
      exact ages_opened _ _ _ fun _ => rfl
  | request sends =>
      have other := sync sends rfl
      refine ⟨?_, ?_, ?_⟩
      · cases sends <;> exact fun gone => gone
      · cases sends <;> exact fun failures => failures
      · intro streams entry found
        cases sends <;>
          simp [perform, request, sendRequest, after, bind, fetch, update, rescue, signal, pure,
            Ne.symm other] at found <;>
          exact streams entry found
  | awake expired =>
      simp only [perform, after_fetch_bind]
      split
      · exact ages_awake _ _ _
      · exact .refl _
  | cancel other =>
      refine Ages.trans ?_ (ages_remove other)
      exact .of_same rfl (fun _ _ member => member) rfl
  | message m => exact ages_dispatch _ _ m
  | timer index => exact ages_timer _ _ index
  | finish signals => exact ages_finish _ signals
  | die => exact ⟨fun _ => rfl, fun failures => failures, fun streams => streams⟩
  | sentinel error => exact ages_sentinel _ error

/-- A callback that finds the queue full is dropped, and the process with it. -/
theorem spill_enqueueCallback (before : Conn) (thunk : Thunk) (ahead : before.ahead = c.ahead)
    (queue : before.queue = c.queue) (full : maxLength ≤ c.queue.length) :
    ((enqueueCallback maxLength thunk).after before).ahead = c.ahead ∧
      ((enqueueCallback maxLength thunk).after before).live = false := by
  rw [enqueueCallback_after, queue, if_pos full]
  exact ⟨ahead, rfl⟩

theorem spill_message {m : Message} (brought : ∃ t ∈ c.brings (.message m), t.id = id)
    (full : maxLength ≤ c.queue.length) :
    ((dispatch maxLength m).after c).ahead = c.ahead ∧
      ((dispatch maxLength m).after c).live = false ∧ c.isAsync id = true := by
  obtain ⟨t, member, same⟩ := brought
  unfold dispatch
  cases named : m.repliesTo with
  | none => simp [Conn.brings, named] at member
  | some key =>
      simp only [Conn.brings, named] at member
      simp only [dispatchReply, after_fetch_bind]
      cases found : c.pending key with
      | none => simp [found] at member
      | some entry =>
          cases entry with
          | waiting => simp [found] at member
          | replied reply => simp [found] at member
          | callback =>
              simp only [found, List.mem_singleton] at member
              have key_id : key = id := by rw [← same, member]
              have async : c.isAsync id = true := by
                simp [Conn.isAsync, ← key_id, found, Entry.isAsync]
              have spilt := spill_enqueueCallback (c.remove key)
                ⟨key, true, .message m⟩ rfl rfl full
              exact ⟨spilt.1, spilt.2, async⟩
          | stream =>
              simp only [found, List.mem_singleton] at member
              have key_id : key = id := by rw [← same, member]
              have async : c.isAsync id = true := by
                simp [Conn.isAsync, ← key_id, found, Entry.isAsync]
              simp only [after_ite, after_update_bind]
              split
              · have spilt := spill_enqueueCallback c
                  ⟨key, false, .message m⟩ rfl rfl full
                exact ⟨spilt.1, spilt.2, async⟩
              · have spilt := spill_enqueueCallback (c.remove key)
                  ⟨key, true, .message m⟩ rfl rfl full
                exact ⟨spilt.1, spilt.2, async⟩

theorem spill_timeout {index : Nat} (found : c.timers[index]? = some (.timeout id))
    (async : c.isAsync id = true) (full : maxLength ≤ c.queue.length) :
    ((runTimer maxLength index).after c).ahead = c.ahead ∧
      ((runTimer maxLength index).after c).live = false := by
  have table : ({ c with timers := c.timers.eraseIdx index } : Conn).isAsync id = c.isAsync id := rfl
  simp only [runTimer, after_fetch_bind, found, after_update_bind, timeoutRequest, after_whenever,
    table, async, if_true]
  exact spill_enqueueCallback _ _ rfl rfl full

/-- What is due for a request moves along with what arrives, is dropped with the process, or is
overtaken by a failure. -/
theorem trace_cases (maxLength : Nat) (r : Recorded) {act : Act} (drains : DrainsInTurn r.conn id act)
    (signals : act = .finish true → ∀ rest frames, r.conn.frames = .running rest :: frames →
      ∀ t ∈ rest, t.id ≠ id) :
    (r.step maxLength act).trace id = r.trace id ++ (r.conn.brings act).filter (·.id == id) ∨
    ((r.step maxLength act).trace id = r.trace id ∧ (r.conn.step maxLength act).live = false ∧
      r.conn.isAsync id = true) ∨
    ∃ index reply, act = .timer index ∧ r.conn.timers[index]? = some (.call id reply) ∧
      (r.step maxLength act).trace id =
        r.entered.filter (·.id == id) ++ ⟨id, true, reply⟩ :: r.conn.ahead.filter (·.id == id) := by
  have spilt : (r.conn.enters act = []) → (r.conn.step maxLength act).ahead = r.conn.ahead →
      (r.step maxLength act).trace id = r.trace id := by
    intro none same
    simp only [Recorded.trace, Recorded.step, none, same, List.append_nil]
  cases act with
  | message m =>
      by_cases intact : Intact maxLength r.conn id (.message m)
      · exact .inl ((Recorded.trace_step drains trivial).2 intact)
      · obtain ⟨brought, full⟩ := Classical.not_imp.mp intact
        obtain ⟨same, gone, async⟩ :=
          spill_message (c := r.conn.record (r.conn.ends (.message m))) brought
            (by show maxLength ≤ r.conn.queue.length; omega)
        exact .inr (.inl ⟨spilt rfl same, gone, async⟩)
  | timer index =>
      by_cases overtakes : ∃ reply, r.conn.timers[index]? = some (.call id reply)
      · obtain ⟨reply, found⟩ := overtakes
        right
        right
        refine ⟨index, reply, rfl, found, ?_⟩
        have same : (r.conn.step maxLength (.timer index)).ahead = r.conn.ahead := by
          show ((runTimer maxLength index).after (r.conn.record _)).ahead = _
          simp only [runTimer, after_fetch_bind, Conn.record_timers, found, after_update_bind,
            after_update, ahead_enter]
          rfl
        simp only [Recorded.trace, Recorded.step, same, Conn.enters, found, List.filter_append,
          List.append_assoc]
        simp
      · have fails : FailsInTurn r.conn id (.timer index) :=
          fun reply found => absurd ⟨reply, found⟩ overtakes
        by_cases intact : Intact maxLength r.conn id (.timer index)
        · exact .inl ((Recorded.trace_step drains fails).2 intact)
        · obtain ⟨⟨t, member, same⟩, full⟩ := Classical.not_imp.mp intact
          right
          left
          cases found : r.conn.timers[index]? with
          | none => simp [Conn.brings, found] at member
          | some timer =>
              cases timer with
              | drain => simp [Conn.brings, found] at member
              | call key reply =>
                  simp only [Conn.brings, found, List.mem_singleton] at member
                  rw [member] at same
                  exact absurd ⟨reply, same ▸ found⟩ overtakes
              | timeout key =>
                  simp only [Conn.brings, found] at member
                  by_cases async : r.conn.isAsync key = true
                  · rw [if_pos async, List.mem_singleton] at member
                    rw [member] at same
                    have same : key = id := same
                    subst same
                    obtain ⟨kept, gone⟩ :=
                      spill_timeout (c := r.conn.record (r.conn.ends (.timer index)))
                        found async (by show maxLength ≤ r.conn.queue.length; omega)
                    refine ⟨spilt ?_ kept, gone, async⟩
                    simp [Conn.enters, found]
                  · rw [if_neg async] at member
                    cases member
  | finish failed =>
      cases failed with
      | false => exact .inl ((Recorded.trace_step drains trivial).2 trivial)
      | true => exact .inl ((Recorded.trace_step drains trivial).2 (signals rfl))
  | _ => exact .inl ((Recorded.trace_step drains trivial).2 trivial)

end Step

/-- The callback completes a request with a message of the server. -/
def Answer (t : Thunk) : Prop := t.final = true ∧ isMessage t.reply = true

namespace Streamed

variable {maxLength id : Nat} {sent : List Message} {s : Streamed} {act : Act}

/-- The messages among arrivals of the stream. -/
def taken (id : Nat) (s : Streamed) : List Thunk :=
  (s.record.arrivals id).filter fun t => isMessage t.reply

/-- The listing is lost: nothing completes the stream with a message of the server any more. -/
structure Lost (id : Nat) (s : Streamed) : Prop where
  trace : ∀ t ∈ s.record.trace id, ¬ Answer t
  known : id ≤ s.record.conn.nextId
  past : s.record.conn.live = false ∨
    s.record.conn.isAsync id = false ∧ ∀ t ∈ s.record.arrivals id, ¬ Answer t

/-- Replies that came for the stream have arrived in order; they are handed over in order, unless
the listing is lost. -/
structure Level (id : Nat) (sent : List Message) (s : Streamed) : Prop where
  closed : s.record.Closed
  logs : Logs {} s.record.entered s.record.conn
  streams : Streams s.record.conn id
  failures : Failures s.record.conn
  served : s.delivered <+: sent
  fresh : s.record.conn.nextId < id → s.delivered = [] ∧ s.record.arrivals id = []
  taken : s.taken id <+: s.delivered.map (thunkOf id)
  level : s.record.conn.isAsync id = true → s.taken id = s.delivered.map (thunkOf id)
  whole : s.record.trace id = s.record.arrivals id ∨ s.Lost id

theorem level_start : Level id sent {} where
  closed := Recorded.closed_start
  logs := .none rfl rfl
  streams := nofun
  failures := nofun
  served := List.nil_prefix
  fresh _ := ⟨rfl, rfl⟩
  taken := List.nil_prefix
  level _ := rfl
  whole := .inl rfl

/-- What an event brings for the stream: its message, or failures. -/
theorem brings_stream (level : Level id sent s) (act : Act) :
    (∃ m, act = .message m ∧ (s.record.conn.brings act).filter (·.id == id) =
      if m.repliesTo = some id ∧ s.record.conn.isAsync id = true then [thunkOf id m] else []) ∨
    (∀ m, act ≠ .message m) ∧
      ∀ t ∈ (s.record.conn.brings act).filter (·.id == id),
        t.final = true ∧ isMessage t.reply = false := by
  by_cases event : ∃ m, act = .message m
  · obtain ⟨m, rfl⟩ := event
    exact .inl ⟨m, rfl, brings_message level.streams m⟩
  · have other : ∀ m, act ≠ .message m := fun m same => event ⟨m, same⟩
    refine .inr ⟨other, fun t member => ?_⟩
    exact brings_failure level.failures other t (List.mem_filter.mp member).1

/-- An event that is no message does not add to the messages that came. -/
theorem delivered_other (other : ∀ m, act ≠ .message m) :
    (s.step maxLength id act).delivered = s.delivered := by
  cases act with
  | message m => exact absurd rfl (other m)
  | _ => rfl

theorem taken_step (act : Act) : (s.step maxLength id act).taken id =
    s.taken id ++ ((s.record.conn.brings act).filter (·.id == id)).filter
      fun t => isMessage t.reply := by
  unfold taken
  rw [← List.filter_append]
  exact congrArg _ (Recorded.arrivals_step _ _ act id)

/-- A completion on its way and one in a timer are two of one request. -/
theorem no_answer_beside (level : Level id sent s) {reply : Reply}
    (timer : .call id reply ∈ s.record.conn.timers) : ∀ t ∈ s.record.trace id, t.final = false := by
  intro t member
  apply Classical.byContradiction
  intro final
  have final : t.final = true := by simpa using final
  obtain ⟨member, same⟩ := List.mem_filter.mp member
  have same : t.id = id := by simpa using same
  have once := level.closed.single.once id
  have timed : 0 < s.record.conn.timers.countP (Timer.completes id) :=
    List.countP_pos_iff.mpr ⟨_, timer, by simp [Timer.completes]⟩
  have completes : Thunk.completes id t = true := by simp [Thunk.completes, final, same]
  unfold Conn.account Conn.due at once
  rcases List.mem_append.mp member with called | ahead
  · have called : 0 < s.record.conn.done id := by
      apply List.countP_pos_iff.mpr
      refine ⟨(t.id, t.reply), ?_, by simp [same]⟩
      rw [level.logs.calls, List.nil_append]
      exact List.mem_map.mpr ⟨t, List.mem_filter.mpr ⟨called, final⟩, rfl⟩
    omega
  · rcases List.mem_append.mp ahead with under | queued
    · have := List.countP_pos_iff.mpr ⟨t, under, completes⟩
      omega
    · have := List.countP_pos_iff.mpr ⟨t, List.mem_reverse.mp queued, completes⟩
      omega

theorem isAsync_kept (level : Level id sent s) (known : id ≤ s.record.conn.nextId)
    (past : s.record.conn.isAsync id = false) (act : Act) :
    (s.record.conn.step maxLength act).isAsync id = false := by
  rw [isAsync_step level.closed.single.sound, past]
  rcases opens_cases s.record.conn id act with none | ⟨_, new, _⟩
  · simp [none]
  · omega

/-- A lost listing stays lost. -/
theorem lost_step (level : Level id sent s) (lost : s.Lost id) (served : Served id sent s act)
    (drains : DrainsInTurn s.record.conn id act)
    (signals : act = .finish true → ∀ rest frames, s.record.conn.frames = .running rest :: frames →
      ∀ t ∈ rest, t.id ≠ id)
    (ages : Ages id s.record.conn (s.record.conn.step maxLength act)) :
    (s.step maxLength id act).Lost id := by
  have brought : ∀ t ∈ (s.record.conn.brings act).filter (·.id == id), ¬ Answer t := by
    intro t member answer
    rcases brings_stream level act with ⟨m, rfl, brings⟩ | ⟨_, failures⟩
    · rw [brings] at member
      split at member
      · rename_i both
        rcases lost.past with gone | past
        · rw [served.1] at gone
          cases gone
        · rw [both.2] at past
          cases past.1
      · cases member
    · have answered := answer.2
      rw [(failures t member).2] at answered
      cases answered
  have grows : s.record.conn.nextId ≤ (s.record.conn.step maxLength act).nextId := by
    rw [(step_history maxLength s.record.conn act).1]
    omega
  constructor
  case trace =>
    intro t member
    rcases trace_cases maxLength s.record drains signals with
      moved | ⟨same, -, -⟩ | ⟨index, reply, rfl, found, overtaken⟩
    · rcases List.mem_append.mp (moved ▸ member) with before | new
      · exact lost.trace t before
      · exact brought t new
    · exact lost.trace t (same ▸ member)
    · rcases List.mem_append.mp (overtaken ▸ member) with called | later
      · apply lost.trace t
        rw [Recorded.trace, List.filter_append]
        exact List.mem_append_left _ called
      · rcases List.mem_cons.mp later with rfl | ahead
        · apply brought
          simp [Conn.brings, found]
        · apply lost.trace t
          rw [Recorded.trace, List.filter_append]
          exact List.mem_append_right _ ahead
  case known => exact Nat.le_trans lost.known grows
  case past =>
    rcases lost.past with gone | ⟨past, none⟩
    · exact .inl (ages.live gone)
    · right
      refine ⟨isAsync_kept level lost.known past act, ?_⟩
      intro t member
      have member : t ∈ s.record.arrivals id ++ _ :=
        s.record.arrivals_step maxLength act id ▸ member
      rcases List.mem_append.mp member with before | new
      · exact none t before
      · exact brought t new

theorem whole_step (level : Level id sent s) (served : Served id sent s act)
    (undisturbed : Undisturbed id s.record.conn act)
    (ages : Ages id s.record.conn (s.record.conn.step maxLength act)) :
    (s.step maxLength id act).record.trace id = (s.step maxLength id act).record.arrivals id ∨
      (s.step maxLength id act).Lost id := by
  obtain ⟨drains, signals⟩ := undisturbed
  rcases level.whole with whole | lost
  · have unanswered : (∀ t ∈ s.record.arrivals id, t.final = false) →
        ∀ t ∈ s.record.arrivals id, ¬ Answer t := by
      intro unfinished t member answer
      have final := answer.1
      rw [unfinished t member] at final
      cases final
    rcases trace_cases maxLength s.record drains signals with
      moved | ⟨same, gone, async⟩ | ⟨index, reply, rfl, found, overtaken⟩
    · left
      show (s.record.step maxLength act).trace id = (s.record.step maxLength act).arrivals id
      rw [moved, Recorded.arrivals_step, whole]
    · right
      have pending : ∀ t ∈ s.record.arrivals id, t.final = false := by
        intro t member
        obtain ⟨member, named⟩ := List.mem_filter.mp member
        have named : t.id = id := by simpa using named
        apply Classical.byContradiction
        intro final
        have ended := (level.closed.ended t member (by simpa using final)).2
        rw [named, async] at ended
        cases ended
      have known := le_of_isAsync level.closed.single.sound.bounded async
      refine ⟨?_, ?_, .inl gone⟩
      · intro t member
        exact unanswered pending t (whole ▸ same ▸ member)
      · show id ≤ (s.record.conn.step maxLength act).nextId
        rw [(step_history maxLength s.record.conn act).1]
        omega
    · right
      have timer := List.mem_of_getElem? found
      have pending := no_answer_beside level timer
      have failed : ∀ t : RelayCore.Thunk, t = ⟨id, true, reply⟩ → ¬ Answer t := by
        intro t same answer
        have answered := answer.2
        rw [same, level.failures id reply timer] at answered
        cases answered
      have due : 0 < s.record.conn.due id + s.record.conn.done id := by
        have counted : 0 < s.record.conn.timers.countP (Timer.completes id) :=
          List.countP_pos_iff.mpr ⟨_, timer, by simp [Timer.completes]⟩
        unfold Conn.due
        omega
      have ended := level.closed.single.ended id (level.closed.single.moved id due)
      constructor
      case trace =>
        intro t member
        have earlier : t ∈ s.record.trace id → ¬ Answer t :=
          fun before => unanswered (whole ▸ pending) t (whole ▸ before)
        rcases List.mem_append.mp (overtaken ▸ member) with called | later
        · apply earlier
          rw [Recorded.trace, List.filter_append]
          exact List.mem_append_left _ called
        · rcases List.mem_cons.mp later with same | ahead
          · exact failed t same
          · apply earlier
            rw [Recorded.trace, List.filter_append]
            exact List.mem_append_right _ ahead
      case known =>
        show id ≤ (s.record.conn.step maxLength _).nextId
        rw [(step_history maxLength s.record.conn _).1]
        have := ended.1
        omega
      case past =>
        right
        refine ⟨isAsync_kept level ended.1 ended.2 _, ?_⟩
        intro t member
        have member : t ∈ s.record.arrivals id ++ _ :=
          s.record.arrivals_step maxLength (.timer index) id ▸ member
        rcases List.mem_append.mp member with before | new
        · exact unanswered (whole ▸ pending) t before
        · apply failed
          simpa [Conn.brings, found] using new
  · exact .inr (lost_step level lost served drains signals ages)

theorem logs_level (level : Level id sent s) (act : Act) :
    Logs {} (s.step maxLength id act).record.entered (s.step maxLength id act).record.conn := by
  have logs := logs_step maxLength s.record.conn act
  constructor
  · show (s.record.conn.step maxLength act).calls = _
    rw [logs.calls, level.logs.calls]
    simp [step, Recorded.step]
  · show (s.record.conn.step maxLength act).chunks = _
    rw [logs.chunks, level.logs.chunks]
    simp [step, Recorded.step]

theorem served_level (level : Level id sent s) (served : Served id sent s act) :
    (s.step maxLength id act).delivered <+: sent := by
  cases act with
  | message m =>
      show (if m.repliesTo = some id then s.delivered ++ [m] else s.delivered) <+: sent
      split
      · rename_i named
        exact (served.2 named).2
      · exact level.served
  | _ => exact level.served

/-- Nothing comes for a request that has yet to be made. -/
theorem brings_fresh (maxLength : Nat) (level : Level id sent s)
    (unopened : s.record.conn.nextId < id) (act : Act) :
    (s.record.conn.brings act).filter (·.id == id) = [] := by
  apply List.filter_eq_nil_iff.mpr
  intro t member same
  have same : t.id = id := by simpa using same
  rcases Recorded.brings_cases maxLength level.closed.single act with
    none | ⟨u, only, unfinished, past⟩
  · rw [none] at member
    cases member
  · rw [only, List.mem_singleton] at member
    have known : t.id ≤ s.record.conn.nextId := by
      cases final : t.final with
      | true => exact member ▸ (past (member ▸ final)).1
      | false =>
          exact le_of_isAsync level.closed.single.sound.bounded (member ▸ unfinished (member ▸ final))
    omega

theorem fresh_level (level : Level id sent s) (served : Served id sent s act)
    (unopened : (s.step maxLength id act).record.conn.nextId < id) :
    (s.step maxLength id act).delivered = [] ∧ (s.step maxLength id act).record.arrivals id = [] := by
  have unopened : (s.record.conn.step maxLength act).nextId < id := unopened
  have grows : s.record.conn.nextId ≤ (s.record.conn.step maxLength act).nextId := by
    rw [(step_history maxLength s.record.conn act).1]
    omega
  have arrivals : (s.step maxLength id act).record.arrivals id =
      s.record.arrivals id ++ (s.record.conn.brings act).filter (·.id == id) :=
    Recorded.arrivals_step _ _ act id
  obtain ⟨undelivered, absent⟩ := level.fresh (by omega)
  rw [arrivals, brings_fresh maxLength level (by omega) act, absent]
  refine ⟨?_, rfl⟩
  cases act with
  | message m =>
      show (if m.repliesTo = some id then s.delivered ++ [m] else s.delivered) = []
      split
      · rename_i named
        have := (served.2 named).1
        omega
      · exact undelivered
  | _ => exact undelivered

/-- Failures are no messages. -/
theorem taken_other (maxLength : Nat) (other : ∀ m, act ≠ .message m)
    (failures : ∀ t ∈ (s.record.conn.brings act).filter (·.id == id),
      t.final = true ∧ isMessage t.reply = false) :
    (s.step maxLength id act).taken id = s.taken id ∧
      (s.step maxLength id act).delivered = s.delivered := by
  have none : ((s.record.conn.brings act).filter (·.id == id)).filter
      (fun t => isMessage t.reply) = [] := by
    apply List.filter_eq_nil_iff.mpr
    intro t member
    simp [(failures t member).2]
  rw [taken_step, none, List.append_nil]
  exact ⟨rfl, delivered_other other⟩

theorem taken_level (level : Level id sent s) (act : Act) :
    (s.step maxLength id act).taken id <+:
      (s.step maxLength id act).delivered.map (thunkOf id) := by
  rcases brings_stream level act with ⟨m, rfl, brings⟩ | ⟨other, failures⟩
  · rw [taken_step, brings]
    show _ <+: (if m.repliesTo = some id then s.delivered ++ [m] else s.delivered).map (thunkOf id)
    by_cases named : m.repliesTo = some id
    · by_cases async : s.record.conn.isAsync id = true
      · rw [if_pos ⟨named, async⟩, if_pos named, level.level async, List.map_append]
        exact List.prefix_rfl
      · rw [if_neg fun both => async both.2, if_pos named, List.map_append]
        simpa using level.taken.trans (List.prefix_append _ _)
    · rw [if_neg fun both => named both.1, if_neg named]
      simpa using level.taken
  · obtain ⟨taken, delivered⟩ := taken_other maxLength other failures
    rw [taken, delivered]
    exact level.taken

/-- As long as the entry is there, all messages have been taken. -/
theorem level_level (level : Level id sent s)
    (async : (s.step maxLength id act).record.conn.isAsync id = true) :
    (s.step maxLength id act).taken id =
      (s.step maxLength id act).delivered.map (thunkOf id) := by
  have sound := level.closed.single.sound
  have async : (s.record.conn.step maxLength act).isAsync id = true := async
  rcases brings_stream level act with ⟨m, rfl, brings⟩ | ⟨other, failures⟩
  · have before : s.record.conn.isAsync id = true := by
      rw [isAsync_step sound] at async
      simp [Conn.opens, Act.opensAsync] at async
      exact async.1
    rw [taken_step, brings]
    show _ = (if m.repliesTo = some id then s.delivered ++ [m] else s.delivered).map (thunkOf id)
    by_cases named : m.repliesTo = some id
    · rw [if_pos ⟨named, before⟩, if_pos named, level.level before, List.map_append]
      rfl
    · rw [if_neg fun both => named both.1, if_neg named, level.level before]
      simp
  · obtain ⟨same, delivered⟩ := taken_other maxLength other failures
    rw [same, delivered]
    by_cases before : s.record.conn.isAsync id = true
    · exact level.level before
    · have new : s.record.conn.nextId < id := by
        rw [isAsync_step sound] at async
        rcases opens_cases s.record.conn id act with none | ⟨_, new, _⟩
        · simp [none, before] at async
        · omega
      obtain ⟨undelivered, absent⟩ := level.fresh new
      simp [taken, undelivered, absent]

theorem level_step (level : Level id sent s) (served : Served id sent s act)
    (undisturbed : Undisturbed id s.record.conn act) :
    Level id sent (s.step maxLength id act) := by
  have ages : Ages id s.record.conn (s.record.conn.step maxLength act) := by
    apply ages_step
    · rintro timeout sends rfl
      exact served
    · rintro sends rfl
      exact served
  exact {
    closed := Recorded.closed_step level.closed act
    logs := logs_level level act
    streams := ages.streams level.streams
    failures := ages.failures level.failures
    served := served_level level served
    fresh := fresh_level level served
    taken := taken_level level act
    level := level_level level
    whole := whole_step level served undisturbed ages }

theorem level_reached (reached : Reached maxLength id sent s) : Level id sent s := by
  apply Reaches.invariant _ _ reached
  · exact level_start
  · intro s act level allowed
    exact level_step level allowed.1 allowed.2

end Streamed

section Calls

variable {ε α : Type} {wire : ReaddirWire ε α}

theorem acc_calls (s : Reading ε α) (thunks : List RelayCore.Thunk)
    (unanswered : ∀ t ∈ thunks, ¬ Answer t) :
    (thunks.foldl (Reading.call wire) s).acc =
      s.acc ++ (thunks.filter fun t => isMessage t.reply).flatMap (replyEntries wire ·.reply) := by
  induction thunks generalizing s with
  | nil => simp
  | cons t thunks ih =>
      have first := unanswered t List.mem_cons_self
      rw [List.foldl_cons, ih _ fun u later => unanswered u (List.mem_cons_of_mem _ later)]
      cases final : t.final with
      | true =>
          have failure : isMessage t.reply = false := by
            simpa [Answer, final] using first
          cases reply : t.reply with
          | message m => simp [reply, isMessage] at failure
          | transport error => simp [Reading.call, final, reply, isMessage]
          | timeout => simp [Reading.call, final, reply, isMessage]
      | false =>
          cases reply : t.reply with
          | message m => simp [Reading.call, final, reply, isMessage]
          | transport error => simp [Reading.call, final, reply, isMessage, replyEntries]
          | timeout => simp [Reading.call, final, reply, isMessage, replyEntries]

/-- A listing is handed over by a completion that is a message with `ok`. -/
theorem mem_done_calls {s : Reading ε α} {thunks : List RelayCore.Thunk} {entries : List ε}
    {attrs : α} (handed : .listing entries attrs ∈ (thunks.foldl (Reading.call wire) s).done) :
    .listing entries attrs ∈ s.done ∨ ∃ before t after m, thunks = before ++ t :: after ∧
      t.final = true ∧ t.reply = .message m ∧ m.ok = true ∧ attrs = wire.selfAttrs m ∧
      entries = (before.foldl (Reading.call wire) s).acc ++ wire.entries m := by
  induction thunks generalizing s with
  | nil => exact .inl handed
  | cons t thunks ih =>
      rcases ih handed with here | ⟨before, u, after, m, parts, call⟩
      · by_cases answer : ∃ m, t.final = true ∧ t.reply = .message m ∧ m.ok = true
        · obtain ⟨m, final, reply, ok⟩ := answer
          simp only [Reading.call, final, reply, ok, if_true, List.mem_append,
            List.mem_singleton] at here
          rcases here with earlier | same
          · exact .inl earlier
          · injection same with entries_eq attrs_eq
            exact .inr ⟨[], t, thunks, m, rfl, final, reply, ok, attrs_eq, entries_eq⟩
        · left
          unfold Reading.call at here
          split at here
          · rename_i final
            split at here
            · rename_i m reply
              split at here
              · rename_i ok
                exact absurd ⟨m, final, reply, ok⟩ answer
              · simpa using here
            · simpa using here
          · exact here
      · exact .inr ⟨t :: before, u, after, m, by rw [parts]; rfl, call⟩

theorem done_calls {s : Reading ε α} {thunks : List RelayCore.Thunk} {handed : Handed ε α}
    (earlier : handed ∈ s.done) : handed ∈ (thunks.foldl (Reading.call wire) s).done := by
  induction thunks generalizing s with
  | nil => exact earlier
  | cons t thunks ih =>
      apply ih
      unfold Reading.call
      split
      · split
        · split <;> exact List.mem_append_left _ earlier
        · exact List.mem_append_left _ earlier
      · exact earlier

theorem done_of_mem (s : Reading ε α) {thunks : List RelayCore.Thunk} {t : RelayCore.Thunk}
    {m : Message} (member : t ∈ thunks) (final : t.final = true) (reply : t.reply = .message m)
    (ok : m.ok = true) :
    ∃ entries attrs, .listing entries attrs ∈ (thunks.foldl (Reading.call wire) s).done := by
  obtain ⟨before, after, rfl⟩ := List.append_of_mem member
  rw [List.foldl_append, List.foldl_cons]
  refine ⟨(before.foldl (Reading.call wire) s).acc ++ wire.entries m, wire.selfAttrs m, ?_⟩
  apply done_calls
  simp only [Reading.call, final, reply, ok, if_true, List.mem_append, List.mem_singleton]
  exact .inr rfl

/-- What has arrived of a stream whose last callback is `t` are the replies up to its own. -/
theorem replies_before {id : Nat} {replies : List (ReaddirReply ε α)} {before : List RelayCore.Thunk}
    {t : RelayCore.Thunk} {after : List RelayCore.Thunk}
    (arrived : before ++ t :: after <+: (replies.map (wire.message id)).map (thunkOf id)) :
    ∃ front reply back, replies = front ++ reply :: back ∧
      before = front.map (fun r => thunkOf id (wire.message id r)) ∧
      t = thunkOf id (wire.message id reply) := by
  obtain ⟨rest, parts⟩ := arrived
  rw [List.map_map, List.append_assoc, List.cons_append] at parts
  obtain ⟨front, others, rfl, before_eq, others_eq⟩ := List.map_eq_append_iff.mp parts.symm
  obtain ⟨reply, back, rfl, reply_eq, _⟩ := List.map_eq_cons_iff.mp others_eq
  exact ⟨front, reply, back, rfl, before_eq.symm, reply_eq.symm⟩

end Calls

section Listing

variable {ε α : Type} {wire : ReaddirWire ε α} {size : ReaddirReply ε α → Nat}
  {accepts : Nat → Bool} {selfAttrs : α} {opened : Except String (List (Option ε))}
  {maxLength id : Nat} {s : Streamed}

open Streamed

theorem listing_entries {entries : List ε} {attrs : α}
    (reached : Reached maxLength id
      ((Server.readdirStream size accepts selfAttrs opened).map (wire.message id)) s)
    (handed : .listing entries attrs ∈ (readdirStream wire id s.record.entered).done) :
    ∃ rd, opened = .ok rd ∧ entries = readable rd ∧ attrs = selfAttrs := by
  have level := level_reached reached
  rcases mem_done_calls handed with none | ⟨before, t, after, m, called, final, reply, ok, attrs_eq,
    entries_eq⟩
  · cases none
  · have answer : Answer t := ⟨final, by rw [reply]; rfl⟩
    have trace : s.record.trace id =
        before ++ t :: (after ++ s.record.conn.ahead.filter (·.id == id)) := by
      rw [Recorded.trace, List.filter_append, called, List.append_assoc, List.cons_append]
    have whole : s.record.trace id = s.record.arrivals id := by
      rcases level.whole with whole | lost
      · exact whole
      · exact absurd answer (lost.trace t (by rw [trace]; simp))
    have arrived : before.filter (fun t => isMessage t.reply) ++ t ::
        (after ++ s.record.conn.ahead.filter (·.id == id)).filter (fun t => isMessage t.reply) <+:
        ((Server.readdirStream size accepts selfAttrs opened).map (wire.message id)).map
          (thunkOf id) := by
      have taken : s.taken id <+: _ := level.taken.trans (level.served.map (thunkOf id))
      rw [Streamed.taken, ← whole, trace, List.filter_append,
        List.filter_cons_of_pos (by exact answer.2)] at taken
      exact taken
    obtain ⟨front, last, back, replies, front_eq, last_eq⟩ := replies_before arrived
    have message : m = wire.message id last := by
      have same : t.reply = (thunkOf id (wire.message id last)).reply := by rw [last_eq]
      rw [reply] at same
      exact Reply.message.inj same
    have unfinished : last.more = false := by
      have same : t.final = !(wire.message id last).more := by rw [last_eq]; rfl
      rw [final, wire.more_message] at same
      simpa using same.symm
    have no_error : ∀ text, last ≠ .error text := by
      rw [message] at ok
      exact (wire.ok_message id last).mp ok
    cases last with
    | chunk entries => cases unfinished
    | error text => exact absurd rfl (no_error text)
    | last rest own =>
        obtain ⟨rd, rfl, own_eq, more, total, -⟩ := readdirStream_last replies
        refine ⟨rd, rfl, ?_, ?_⟩
        · have unanswered : ∀ t ∈ before, ¬ Answer t := by
            intro t member answer
            have kept : t ∈ before.filter fun t => isMessage t.reply :=
              List.mem_filter.mpr ⟨member, answer.2⟩
            rw [front_eq] at kept
            obtain ⟨r, chunk, rfl⟩ := List.mem_map.mp kept
            have final := answer.1
            simp [thunkOf, wire.more_message, more r chunk] at final
          rw [entries_eq, acc_calls _ _ unanswered, front_eq, message, wire.entries_message,
            ← total, List.nil_append, List.flatMap_map]
          congr 1
          apply List.flatMap_congr
          intro r _
          exact wire.entries_message id r
        · rw [attrs_eq, message, wire.selfAttrs_message, own_eq]

/-- In every run whose drains do not disturb the stream, the replies of the server are full chunks
and a last reply exactly when nothing stops that one; a listing handed to the done function has the
directory's entries in order, with its attributes; and a listing is handed over once the last reply
has been taken and the callbacks have run. -/
theorem listing_reassembled
    (reached : Reached maxLength id
      ((Server.readdirStream size accepts selfAttrs opened).map (wire.message id)) s) :
    (WellShaped (Server.readdirStream size accepts selfAttrs opened) ↔
      Server.Completes size accepts selfAttrs opened) ∧
    (∀ entries attrs, .listing entries attrs ∈ (readdirStream wire id s.record.entered).done →
      ∃ rd, opened = .ok rd ∧ entries = readable rd ∧ attrs = selfAttrs) ∧
    ∀ m, ⟨id, true, .message m⟩ ∈ s.record.arrived → m.ok = true → s.record.conn.live = true →
      (∀ t ∈ s.record.conn.ahead, t.id ≠ id) →
      ∃ entries attrs, .listing entries attrs ∈ (readdirStream wire id s.record.entered).done := by
  refine ⟨readdirStream_wellShaped opened, fun _ _ => listing_entries reached, ?_⟩
  intro m arrived ok live ran
  have level := level_reached reached
  have member : ⟨id, true, .message m⟩ ∈ s.record.arrivals id :=
    List.mem_filter.mpr ⟨arrived, by simp⟩
  have whole : s.record.trace id = s.record.arrivals id := by
    rcases level.whole with whole | lost
    · exact whole
    · rcases lost.past with gone | ⟨_, none⟩
      · rw [live] at gone
        cases gone
      · exact absurd ⟨rfl, rfl⟩ (none _ member)
  have ended : s.record.conn.ahead.filter (·.id == id) = [] := by
    apply List.filter_eq_nil_iff.mpr
    intro t due
    simp [ran t due]
  rw [← whole, Recorded.trace, List.filter_append, ended, List.append_nil] at member
  exact done_of_mem _ member rfl rfl ok

end Listing

/-- Entries and attributes of one character, as text. -/
def charWire : ReaddirWire Char Char where
  message id reply :=
    { id := some id
      more := reply.more
      ok := match reply with
        | .error _ => false
        | _ => true
      body := match reply with
        | .chunk entries => .ofList entries
        | .last entries attrs => .ofList (attrs :: entries)
        | .error text => text }
  entries m := if m.more then m.body.toList else if m.ok then m.body.toList.drop 1 else []
  selfAttrs m := m.body.toList.headD ' '
  repliesTo id reply positive := by
    cases id with
    | zero => cases positive
    | succ n => rfl
  more_message _ _ := rfl
  ok_message id reply := by cases reply <;> simp
  entries_message id reply := by
    cases reply <;> simp [ReaddirReply.more, ReaddirReply.entries]
  selfAttrs_message id rest attrs := by simp

/-- The replies for a directory of 2000 entries. -/
def fullDirectory : List (ReaddirReply Char Char) :=
  [.chunk (List.replicate readdirChunkSize 'a'), .last [] 'd']

theorem fullDirectory_sent :
    Server.readdirStream (fun _ => 0) (fun _ => true) 'd'
      (.ok ((List.replicate readdirChunkSize 'a').map some)) = fullDirectory := by
  rw [← List.append_nil (List.replicate readdirChunkSize 'a')]
  exact readdirStream_full List.length_replicate (Nat.zero_lt_succ _) (fun _ => rfl) (Nat.zero_le _)

/-- A listing in two replies, with a reply to another request between them. -/
def interleaved : List Act :=
  [.requestStream true true, .requestAsync false true,
    .message (charWire.message 1 (.chunk (List.replicate readdirChunkSize 'a'))),
    .message { id := some 2 }, .timer 1, .finish false, .finish false,
    .message (charWire.message 1 (.last [] 'd')), .timer 1]

theorem listing_reassembled_interleaved :
    ∃ attrs, .listing (List.replicate readdirChunkSize 'a') attrs ∈
      (readdirStream charWire 1
        (interleaved.foldl (Streamed.step 10000 1) {}).record.entered).done := by
  have reached : Streamed.Reached 10000 1
      ((Server.readdirStream (fun _ => 0) (fun _ => true) 'd'
        (.ok ((List.replicate readdirChunkSize 'a').map some))).map (charWire.message 1))
      (interleaved.foldl (Streamed.step 10000 1) {}) := by
    rw [fullDirectory_sent]
    apply Reaches.of_along .refl
    refine ⟨⟨trivial, trivial, nofun⟩, ⟨?_, trivial, nofun⟩, ⟨⟨rfl, ?_⟩, trivial, nofun⟩,
      ⟨⟨rfl, ?_⟩, trivial, nofun⟩, ⟨trivial, ?_, nofun⟩, ⟨trivial, trivial, nofun⟩,
      ⟨trivial, trivial, nofun⟩, ⟨⟨rfl, ?_⟩, trivial, nofun⟩, ⟨trivial, ?_, nofun⟩, trivial⟩
    · exact nofun
    · intro _
      exact ⟨Nat.succ_le_succ (Nat.zero_le _), ⟨_, rfl⟩⟩
    · exact nofun
    · exact fun _ _ => .inr nofun
    · intro _
      exact ⟨Nat.succ_le_succ (Nat.zero_le _), ⟨_, rfl⟩⟩
    · exact fun _ _ => .inr nofun
  obtain ⟨-, right, given⟩ := listing_reassembled reached
  have arrived : (interleaved.foldl (Streamed.step 10000 1) {}).record.arrived =
      [thunkOf 1 (charWire.message 1 (.chunk (List.replicate readdirChunkSize 'a'))),
        ⟨2, true, .message { id := some 2 }⟩,
        ⟨1, true, .message (charWire.message 1 (.last [] 'd'))⟩] := rfl
  have ran : (interleaved.foldl (Streamed.step 10000 1) {}).record.conn.ahead = [] := rfl
  obtain ⟨entries, attrs, handed⟩ := given (charWire.message 1 (.last [] 'd'))
    (by rw [arrived]; simp) rfl rfl (by rw [ran]; exact nofun)
  obtain ⟨rd, same, entries_eq, -⟩ := right entries attrs handed
  have whole : entries = List.replicate readdirChunkSize 'a' := by
    rw [entries_eq, ← Except.ok.inj same]
    simp [readable]
  exact ⟨attrs, whole ▸ handed⟩

/-- The callback of another request signals before a chunk that came in the same drain. -/
def truncated : List Act :=
  [.requestStream true true, .requestAsync false true, .message { id := some 2 },
    .message (charWire.message 1 (.chunk (List.replicate readdirChunkSize 'a'))), .timer 1,
    .finish true, .message (charWire.message 1 (.last [] 'd')), .timer 1]

/-- A listing without the entries of that chunk is handed over as complete. -/
theorem listing_truncated :
    ¬ ∀ (maxLength id : Nat) (rd : List (Option Char)) (s : Streamed),
      Reaches (Streamed.step maxLength id)
        (Streamed.Served id ((Server.readdirStream (fun _ => 0) (fun _ => true) 'd' (.ok rd)).map
          (charWire.message id))) {} s →
      ∀ entries attrs, .listing entries attrs ∈ (readdirStream charWire id s.record.entered).done →
        entries = readable rd := by
  intro always
  have reached : Reaches (Streamed.step 10000 1)
      (Streamed.Served 1 ((Server.readdirStream (fun _ => 0) (fun _ => true) 'd'
        (.ok ((List.replicate readdirChunkSize 'a').map some))).map (charWire.message 1)))
      {} (truncated.foldl (Streamed.step 10000 1) {}) := by
    rw [fullDirectory_sent]
    apply Reaches.of_along .refl
    refine ⟨trivial, ?_, ⟨rfl, ?_⟩, ⟨rfl, ?_⟩, trivial, trivial, ⟨rfl, ?_⟩, trivial, trivial⟩
    · exact nofun
    · exact nofun
    · exact fun _ => ⟨Nat.succ_le_succ (Nat.zero_le _), ⟨_, rfl⟩⟩
    · exact fun _ => ⟨Nat.succ_le_succ (Nat.zero_le _), ⟨_, rfl⟩⟩
  have handed : (readdirStream charWire 1
      (truncated.foldl (Streamed.step 10000 1) {}).record.entered).done = [.listing [] 'd'] := rfl
  have empty := always 10000 1 _ _ reached [] 'd' (by rw [handed]; simp)
  have full : readable ((List.replicate readdirChunkSize 'a').map some) =
      List.replicate readdirChunkSize 'a' := by simp [readable]
  rw [full] at empty
  have lengths := congrArg List.length empty
  rw [List.length_replicate] at lengths
  cases lengths

end EmacsRelay.RelayPrefetch

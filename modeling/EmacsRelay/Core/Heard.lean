import EmacsRelay.Core.Stream

set_option autoImplicit false

/- Where the messages come from that a connection hands to requesters: each was dispatched, as a
reply to the request that it is handed to. -/
namespace EmacsRelay.RelayCore

open Routine

/-- If the callback is given a message, then one that answers its request. -/
def Thunk.Carries (P : Nat → Message → Prop) (t : Thunk) : Prop := ∀ m, t.reply = .message m → P t.id m

/-- Every message that is kept for a requester, or was given to it, is one that `P` allows it; and
failures that wait for a timer are no messages. -/
structure Told (P : Nat → Message → Prop) (c : Conn) : Prop where
  stored : ∀ id m, c.pending id = some (.replied (.message m)) → P id m
  given : ∀ id m, (id, .reply (some (.message m))) ∈ c.results → P id m
  failing : ∀ id reply, .call id reply ∈ c.timers → ∃ error, reply = .transport error
  ahead : ∀ t ∈ c.ahead, t.Carries P
  called : ∀ id m, (id, .message m) ∈ c.calls → P id m
  chunked : ∀ id m, (id, .message m) ∈ c.chunks → P id m

section Told

variable {P : Nat → Message → Prop} {maxLength : Nat} {c c' : Conn} {id other : Nat}

theorem told_start : Told P {} := ⟨nofun, nofun, nofun, nofun, nofun, nofun⟩

theorem Told.mono {Q : Nat → Message → Prop} (told : Told P c) (weaken : ∀ id m, P id m → Q id m) :
    Told Q c where
  stored id m found := weaken id m (told.stored id m found)
  given id m member := weaken id m (told.given id m member)
  failing := told.failing
  ahead t member m same := weaken t.id m (told.ahead t member m same)
  called id m member := weaken id m (told.called id m member)
  chunked id m member := weaken id m (told.chunked id m member)

/-- A step that changes the table and the timers only. -/
theorem Told.of_table (told : Told P c)
    (stored : ∀ id m, c'.pending id = some (.replied (.message m)) →
      c.pending id = some (.replied (.message m)) ∨ P id m)
    (timers : ∀ id reply, .call id reply ∈ c'.timers →
      .call id reply ∈ c.timers ∨ ∃ error, reply = .transport error)
    (results : c'.results = c.results) (ahead : c'.ahead = c.ahead) (calls : c'.calls = c.calls)
    (chunks : c'.chunks = c.chunks) : Told P c' where
  stored id m found := by
    rcases stored id m found with earlier | allowed
    · exact told.stored id m earlier
    · exact allowed
  given := by
    rw [results]
    exact told.given
  failing id reply member := by
    rcases timers id reply member with earlier | failure
    · exact told.failing id reply earlier
    · exact failure
  ahead := by
    rw [ahead]
    exact told.ahead
  called := by
    rw [calls]
    exact told.called
  chunked := by
    rw [chunks]
    exact told.chunked

theorem Told.remove (told : Told P c) : Told P (c.remove other) := by
  refine told.of_table ?_ (fun _ _ => .inl) rfl rfl rfl rfl
  intro id m
  simp only [Conn.remove_pending]
  split
  · exact nofun
  · exact .inl

/-- An entry is written that is no message, or one that the request may have. -/
theorem Told.put (told : Told P c) {entry : Entry}
    (allowed : ∀ m, entry = .replied (.message m) → P other m) : Told P (c.put other entry) := by
  refine told.of_table ?_ (fun _ _ => .inl) rfl rfl rfl rfl
  intro id m
  simp only [Conn.put_pending]
  split
  · rename_i same
    intro found
    exact .inr (same ▸ allowed m (Option.some.inj found))
  · exact .inl

theorem Told.scheduled (told : Told P c) : Told P c.scheduled := by
  unfold Conn.scheduled
  split
  · exact told
  · refine told.of_table (fun _ _ => .inl) ?_ rfl rfl rfl rfl
    intro id reply member
    rcases List.mem_append.mp member with earlier | new
    · exact .inl earlier
    · cases List.mem_singleton.mp new

theorem Told.enqueueCallback (told : Told P c) {thunk : Thunk} (carries : thunk.Carries P) :
    Told P ((enqueueCallback maxLength thunk).after c) := by
  rw [enqueueCallback_after]
  split
  · exact told.of_table (fun _ _ => .inl) (fun _ _ => .inl) rfl rfl rfl rfl
  · apply Told.scheduled
    constructor
    case stored => exact told.stored
    case given => exact told.given
    case failing => exact told.failing
    case ahead =>
      intro t member
      have parts : (c.enqueue thunk).ahead = c.ahead ++ [thunk] := by simp [Conn.ahead]
      rw [parts] at member
      rcases List.mem_append.mp member with earlier | new
      · exact told.ahead t earlier
      · rw [List.mem_singleton.mp new]
        exact carries
    case called => exact told.called
    case chunked => exact told.chunked

/-- A callback is entered, whose drain goes on with `rest`. -/
theorem Told.enter (told : Told P c) {thunk : Thunk} {rest : List Thunk} (carries : thunk.Carries P)
    (others : ∀ t ∈ rest, t.Carries P) : Told P (c.enter thunk rest) where
  stored := told.stored
  given := told.given
  failing := told.failing
  ahead t member := by
    rw [ahead_enter] at member
    rcases List.mem_append.mp member with later | earlier
    · exact others t later
    · exact told.ahead t earlier
  called id m member := by
    rw [Conn.enter_calls] at member
    split at member
    · rcases List.mem_append.mp member with earlier | new
      · exact told.called id m earlier
      · obtain ⟨rfl, same⟩ := Prod.mk.inj (List.mem_singleton.mp new)
        exact carries m same.symm
    · exact told.called id m member
  chunked id m member := by
    rw [Conn.enter_chunks] at member
    split at member
    · exact told.chunked id m member
    · rcases List.mem_append.mp member with earlier | new
      · exact told.chunked id m earlier
      · obtain ⟨rfl, same⟩ := Prod.mk.inj (List.mem_singleton.mp new)
        exact carries m same.symm

/-- Some of the callbacks that were due are dropped. -/
theorem Told.fewer (told : Told P c) (fewer : ∀ t ∈ c'.ahead, t ∈ c.ahead)
    (pending : c'.pending = c.pending) (results : c'.results = c.results)
    (timers : ∀ id reply, .call id reply ∈ c'.timers → .call id reply ∈ c.timers)
    (calls : c'.calls = c.calls) (chunks : c'.chunks = c.chunks) : Told P c' where
  stored := by
    rw [pending]
    exact told.stored
  given := by
    rw [results]
    exact told.given
  failing id reply member := told.failing id reply (timers id reply member)
  ahead t member := told.ahead t (fewer t member)
  called := by
    rw [calls]
    exact told.called
  chunked := by
    rw [chunks]
    exact told.chunked

theorem Told.conclude (told : Told P c) {result : Result}
    (allowed : ∀ m, result = .reply (some (.message m)) → P other m) :
    Told P (c.conclude other result) where
  stored := told.stored
  given id m member := by
    rcases List.mem_append.mp member with earlier | new
    · exact told.given id m earlier
    · cases List.mem_singleton.mp new
      exact allowed m rfl
  failing := told.failing
  ahead := told.ahead
  called := told.called
  chunked := told.chunked

theorem Told.leave (told : Told P c) : Told P c.leave := by
  refine told.fewer ?_ rfl rfl (fun _ _ member => member) rfl rfl
  intro t member
  unfold Conn.ahead at member ⊢
  rcases List.mem_append.mp member with under | queued
  · obtain ⟨frame, there, inside⟩ := List.mem_flatMap.mp under
    exact List.mem_append_left _ (List.mem_flatMap.mpr ⟨frame, List.mem_of_mem_tail there, inside⟩)
  · exact List.mem_append_right _ queued

theorem Told.drain (told : Told P c) : Told P (drainCallbackQueue.after c) := by
  have reset : Told P { c with drainScheduled := false } :=
    told.fewer (fun _ member => member) rfl rfl (fun _ _ member => member) rfl rfl
  simp only [drainCallbackQueue, after_update_bind, after_fetch_bind]
  cases thunks : c.queue.reverse with
  | nil => exact reset
  | cons thunk rest =>
      have carried : ∀ t ∈ thunk :: rest, t.Carries P := by
        intro t member
        apply told.ahead
        unfold Conn.ahead
        rw [thunks]
        exact List.mem_append_right _ member
      simp only [after_ite, after_update_bind, after_update, maybeScheduleDrain_after]
      split
      · exact reset.scheduled
      · refine Told.enter ?_ (carried thunk List.mem_cons_self)
          fun t member => carried t (List.mem_cons_of_mem _ member)
        refine reset.fewer ?_ rfl rfl (fun _ _ member => member) rfl rfl
        intro t member
        simp only [Conn.ahead, List.reverse_nil, List.append_nil] at member
        exact List.mem_append_left _ member

theorem Told.dispatch (told : Told P c) {m : Message} (allowed : ∀ id, m.repliesTo = some id → P id m) :
    Told P ((dispatch maxLength m).after c) := by
  unfold RelayCore.dispatch
  cases named : m.repliesTo with
  | none => exact told
  | some key =>
      have carries : ∀ final, (⟨key, final, .message m⟩ : Thunk).Carries P := by
        rintro final _ ⟨⟩
        exact allowed key named
      simp only [dispatchReply, after_fetch_bind]
      cases found : c.pending key with
      | none => exact told
      | some entry =>
          cases entry with
          | waiting =>
              apply told.put
              rintro _ ⟨⟩
              exact allowed key named
          | replied reply => exact told
          | callback => exact told.remove.enqueueCallback (carries true)
          | stream =>
              simp only [after_ite, after_update_bind]
              split
              · exact told.enqueueCallback (carries false)
              · exact told.remove.enqueueCallback (carries true)

theorem Told.timer (told : Told P c) (index : Nat) : Told P ((runTimer maxLength index).after c) := by
  have erased : Told P { c with timers := c.timers.eraseIdx index } := by
    refine told.fewer (fun _ member => member) rfl rfl ?_ rfl rfl
    exact fun _ _ member => List.mem_of_mem_eraseIdx member
  simp only [runTimer, after_fetch_bind]
  cases found : c.timers[index]? with
  | none => exact told
  | some timer =>
      simp only [after_update_bind]
      cases timer with
      | drain => exact erased.drain
      | timeout key =>
          simp only [timeoutRequest, after_fetch_bind, after_whenever, after_update_bind]
          split
          · apply erased.remove.enqueueCallback
            intro m same
            cases same
          · exact erased
      | call key reply =>
          obtain ⟨error, rfl⟩ := told.failing key reply (List.mem_of_getElem? found)
          have silent : (⟨key, true, .transport error⟩ : Thunk).Carries P := by
            intro m same
            cases same
          exact erased.enter silent fun t member => absurd member (List.not_mem_nil)

theorem Told.finish (told : Told P c) (signals : Bool) : Told P ((finishCallback signals).after c) := by
  simp only [finishCallback, after_fetch_bind]
  cases top : c.frames with
  | nil => exact told
  | cons frame frames =>
      cases frame with
      | waiting key => exact told
      | running rest =>
          cases rest with
          | nil => exact told.leave
          | cons thunk rest =>
              have carried : ∀ t ∈ thunk :: rest, t.Carries P := by
                intro t member
                apply told.ahead
                simp only [Conn.ahead, top, List.flatMap_cons, Frame.rest]
                exact List.mem_append_left _ (List.mem_append_left _ member)
              cases signals with
              | true => exact told.leave
              | false =>
                  exact told.leave.enter (carried thunk List.mem_cons_self)
                    fun t member => carried t (List.mem_cons_of_mem _ member)

theorem Told.failPending (told : Told P c) (error : String) :
    Told P ((failPending (.transport error)).after c) := by
  refine told.of_table ?_ ?_ rfl rfl rfl rfl
  · intro id m
    simp only [RelayCore.failPending, after_update]
    cases found : c.pending id with
    | none =>
        intro same
        cases same
    | some entry =>
        cases entry with
        | replied reply => exact .inl
        | _ =>
            intro same
            cases same
  · intro id reply member
    rcases List.mem_append.mp member with earlier | new
    · exact .inl earlier
    · obtain ⟨key, -, same⟩ := List.mem_map.mp new
      cases same
      exact .inr ⟨error, rfl⟩

theorem Told.noticed (told : Told P c) : Told P (c.noticed other) := by
  unfold Conn.noticed
  split
  · exact told.put nofun
  · exact told

theorem Told.awake (told : Told P c) (expired : Bool) : Told P ((awake other expired).after c) := by
  rw [awake_after]
  split
  · exact told.noticed.remove.leave.conclude nofun
  · split
    · exact told.noticed
    · apply told.noticed.remove.leave.conclude
      intro m same
      split at same
      · rename_i reply found
        cases same
        exact told.noticed.stored other m found
      · cases same

/-- A request takes the next id, and an entry that is no message. -/
theorem Told.opened (told : Told P c) {entry : Entry} (timeout sends : Bool)
    (unanswered : ∀ m, entry ≠ .replied (.message m)) : Told P (c.opened entry timeout sends) := by
  have counted : Told P { c with nextId := c.nextId + 1 } :=
    told.fewer (fun _ member => member) rfl rfl (fun _ _ member => member) rfl rfl
  have entered : Told P (Conn.put { c with nextId := c.nextId + 1 } (c.nextId + 1) entry) :=
    counted.put fun m same => absurd same (unanswered m)
  cases sends with
  | false => exact entered
  | true =>
      cases timeout with
      | false => exact entered.fewer (fun _ member => member) rfl rfl (fun _ _ member => member) rfl rfl
      | true =>
          refine entered.of_table (fun _ _ => .inl) ?_ rfl rfl rfl rfl
          intro id reply member
          rcases List.mem_append.mp member with earlier | new
          · exact .inl earlier
          · cases List.mem_singleton.mp new

theorem Told.request (told : Told P c) (sends : Bool) :
    Told P ((perform maxLength (.request sends)).after c) := by
  have counted : Told P { c with asked := c.asked ++ [c.nextId + 1], nextId := c.nextId + 1 } :=
    told.fewer (fun _ member => member) rfl rfl (fun _ _ member => member) rfl rfl
  have waiting : Told P (Conn.put { c with asked := c.asked ++ [c.nextId + 1], nextId := c.nextId + 1 }
      (c.nextId + 1) .waiting) := counted.put nofun
  cases sends with
  | true => exact waiting.fewer (fun _ member => member) rfl rfl (fun _ _ member => member) rfl rfl
  | false => exact waiting.remove.conclude nofun

/-- Every event keeps to what was dispatched. -/
theorem told_step (maxLength : Nat) (told : Told P c) {act : Act}
    (allowed : ∀ m id, act = .message m → m.repliesTo = some id → P id m) :
    Told P (c.step maxLength act) := by
  have recorded : Told P (c.record (c.ends act)) :=
    told.fewer (fun _ member => member) rfl rfl (fun _ _ member => member) rfl rfl
  unfold Conn.step
  cases act with
  | requestAsync timeout sends =>
      rw [requestAsync_after]
      exact recorded.opened timeout sends nofun
  | requestStream timeout sends =>
      rw [requestStream_after]
      exact recorded.opened timeout sends nofun
  | request sends => exact recorded.request sends
  | awake expired =>
      simp only [perform, after_fetch_bind]
      split
      · exact recorded.awake expired
      · exact recorded
  | cancel key =>
      exact recorded.remove.fewer (fun _ member => member) rfl rfl (fun _ _ member => member) rfl rfl
  | message m => exact recorded.dispatch fun id named => allowed m id rfl named
  | timer index => exact recorded.timer index
  | finish signals => exact recorded.finish signals
  | die => exact recorded.fewer (fun _ member => member) rfl rfl (fun _ _ member => member) rfl rfl
  | sentinel error =>
      simp only [perform, sentinel, after_fetch_bind, after_whenever]
      split
      · exact recorded.failPending error
      · exact recorded

end Told

end EmacsRelay.RelayCore

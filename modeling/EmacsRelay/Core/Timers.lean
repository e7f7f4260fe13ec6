import EmacsRelay.Core.Waiters

set_option autoImplicit false

/- Timers of the requests of a connection: they are set when a request is made, and are there
until they go off. -/
namespace EmacsRelay.RelayCore

open Routine

section Timers

variable {maxLength : Nat} {c : Conn} {id : Nat}

theorem mem_timers_scheduled {timer : Timer} :
    timer ∈ c.timers → timer ∈ c.scheduled.timers := by
  unfold Conn.scheduled
  split
  · exact fun member => member
  · exact List.mem_append_left _

theorem mem_timers_enqueueCallback (thunk : Thunk) {timer : Timer} (member : timer ∈ c.timers) :
    timer ∈ ((enqueueCallback maxLength thunk).after c).timers := by
  rw [enqueueCallback_after]
  split
  · exact member
  · exact mem_timers_scheduled member

theorem of_mem_timers_scheduled (member : .timeout id ∈ c.scheduled.timers) :
    .timeout id ∈ c.timers := by
  unfold Conn.scheduled at member
  split at member
  · exact member
  · rcases List.mem_append.mp member with earlier | new
    · exact earlier
    · cases List.mem_singleton.mp new

theorem of_mem_timers_enqueueCallback {thunk : Thunk}
    (member : .timeout id ∈ ((enqueueCallback maxLength thunk).after c).timers) :
    .timeout id ∈ c.timers := by
  rw [enqueueCallback_after] at member
  split at member
  · exact member
  · exact of_mem_timers_scheduled (c := c.enqueue thunk) member

theorem dispatch_timers (m : Message) :
    (∀ timer ∈ c.timers, timer ∈ ((dispatch maxLength m).after c).timers) ∧
      (.timeout id ∈ ((dispatch maxLength m).after c).timers → .timeout id ∈ c.timers) := by
  unfold dispatch
  cases m.repliesTo with
  | none => exact ⟨fun _ member => member, fun member => member⟩
  | some key =>
      simp only [dispatchReply, after_fetch_bind]
      cases c.pending key with
      | none => exact ⟨fun _ member => member, fun member => member⟩
      | some entry =>
          have queued : ∀ thunk : Thunk, ∀ before : Conn, before.timers = c.timers →
              (∀ timer ∈ c.timers,
                timer ∈ ((enqueueCallback maxLength thunk).after before).timers) ∧
              (.timeout id ∈ ((enqueueCallback maxLength thunk).after before).timers →
                .timeout id ∈ c.timers) := by
            intro thunk before same
            rw [← same]
            exact ⟨fun _ => mem_timers_enqueueCallback thunk, of_mem_timers_enqueueCallback⟩
          cases entry with
          | waiting => exact ⟨fun _ member => member, fun member => member⟩
          | replied reply => exact ⟨fun _ member => member, fun member => member⟩
          | callback => exact queued _ _ rfl
          | stream =>
              simp only [after_ite, after_update_bind]
              split
              · exact queued _ _ rfl
              · exact queued _ _ rfl

/-- A timer that goes off is gone, and the others stay. -/
theorem runTimer_timers (index : Nat) :
    (∀ timer ∈ c.timers.eraseIdx index, timer ∈ ((runTimer maxLength index).after c).timers) ∧
      (.timeout id ∈ ((runTimer maxLength index).after c).timers → .timeout id ∈ c.timers) := by
  cases found : c.timers[index]? with
  | none =>
      simp only [runTimer, after_fetch_bind, found, after_pure]
      exact ⟨fun _ member => List.mem_of_mem_eraseIdx member, fun member => member⟩
  | some timer =>
      simp only [runTimer, after_fetch_bind, found, after_update_bind]
      have erased : .timeout id ∈ c.timers.eraseIdx index → .timeout id ∈ c.timers :=
        List.mem_of_mem_eraseIdx
      cases timer with
      | drain =>
          simp only [drainCallbackQueue, after_update_bind, after_fetch_bind]
          split
          · exact ⟨fun _ member => member, erased⟩
          · simp only [after_ite, after_update_bind, after_update, maybeScheduleDrain_after]
            split
            · exact ⟨fun _ => mem_timers_scheduled (c := { c with
                timers := c.timers.eraseIdx index, drainScheduled := false }),
                fun member => erased (of_mem_timers_scheduled member)⟩
            · exact ⟨fun _ member => member, erased⟩
      | timeout key =>
          simp only [timeoutRequest, after_fetch_bind, after_whenever, after_update_bind]
          split
          · exact ⟨fun _ => mem_timers_enqueueCallback (c := Conn.remove { c with
              timers := c.timers.eraseIdx index } key) _,
              fun member => erased (of_mem_timers_enqueueCallback member)⟩
          · exact ⟨fun _ member => member, erased⟩
      | call key reply => exact ⟨fun _ member => member, erased⟩

/-- Timers are set and go off; those of a request in the table are set when it is made. -/
theorem step_timers (maxLength : Nat) (c : Conn) (act : Act) (id : Nat) :
    (∀ timer ∈ c.timers, timer ∈ (c.step maxLength act).timers ∨
      ∃ index, act = .timer index ∧ c.timers[index]? = some timer) ∧
    (.timeout id ∈ (c.step maxLength act).timers →
      .timeout id ∈ c.timers ∨ act.takesId = true ∧ id = c.nextId + 1) := by
  have kept : ∀ c' : Conn, c'.timers = c.timers →
      (∀ timer ∈ c.timers, timer ∈ c'.timers ∨
        ∃ index, act = .timer index ∧ c.timers[index]? = some timer) ∧
      (.timeout id ∈ c'.timers →
        .timeout id ∈ c.timers ∨ act.takesId = true ∧ id = c.nextId + 1) := by
    intro c' same
    rw [same]
    exact ⟨fun _ => .inl, .inl⟩
  have opened : act.takesId = true → ∀ entry timeout sends,
      (∀ timer ∈ c.timers,
        timer ∈ ((c.record (c.ends act)).opened entry timeout sends).timers) ∧
      (.timeout id ∈ ((c.record (c.ends act)).opened entry timeout sends).timers →
        .timeout id ∈ c.timers ∨ act.takesId = true ∧ id = c.nextId + 1) := by
    intro takes entry timeout sends
    cases timeout with
    | false => cases sends <;> exact ⟨fun _ member => member, .inl⟩
    | true =>
        cases sends with
        | false => exact ⟨fun _ member => member, .inl⟩
        | true =>
            refine ⟨fun _ => List.mem_append_left _, fun member => ?_⟩
            rcases List.mem_append.mp member with earlier | new
            · exact .inl earlier
            · exact .inr ⟨takes, Timer.timeout.inj (List.mem_singleton.mp new)⟩
  unfold Conn.step
  cases act with
  | requestAsync timeout sends =>
      rw [requestAsync_after]
      have timers := opened rfl .callback timeout sends
      exact ⟨fun timer member => .inl (timers.1 timer member), timers.2⟩
  | requestStream timeout sends =>
      rw [requestStream_after]
      have timers := opened rfl .stream timeout sends
      exact ⟨fun timer member => .inl (timers.1 timer member), timers.2⟩
  | request sends => cases sends <;> exact kept _ rfl
  | awake expired =>
      simp only [perform, after_fetch_bind]
      split
      · rename_i key _ _
        apply kept
        have same := (noticed_rest (c.record (c.ends (.awake expired))) key).2.2.1
        rw [awake_after]
        split
        · exact same
        · split <;> exact same
      · exact kept _ rfl
  | cancel key => exact kept _ rfl
  | message m =>
      have timers :
          (∀ timer ∈ c.timers, timer ∈ ((dispatch maxLength m).after (c.record _)).timers) ∧
            (.timeout id ∈ ((dispatch maxLength m).after (c.record _)).timers →
              .timeout id ∈ c.timers) :=
        dispatch_timers (c := c.record (c.ends (.message m))) m
      exact ⟨fun timer member => .inl (timers.1 timer member), fun member => .inl (timers.2 member)⟩
  | timer index =>
      have timers :
          (∀ timer ∈ c.timers.eraseIdx index,
            timer ∈ ((runTimer maxLength index).after (c.record _)).timers) ∧
            (.timeout id ∈ ((runTimer maxLength index).after (c.record _)).timers →
              .timeout id ∈ c.timers) :=
        runTimer_timers (c := c.record (c.ends (.timer index))) index
      refine ⟨fun timer member => ?_, fun member => .inl (timers.2 member)⟩
      cases found : c.timers[index]? with
      | none =>
          have small : c.timers.length ≤ index := List.getElem?_eq_none_iff.mp found
          have same : c.timers.eraseIdx index = c.timers := List.eraseIdx_of_length_le small
          exact .inl (timers.1 timer (same.symm ▸ member))
      | some gone =>
          obtain ⟨small, rfl⟩ := List.getElem?_eq_some_iff.mp found
          have parts := (List.getElem_cons_eraseIdx_perm small).mem_iff.mpr member
          rcases List.mem_cons.mp parts with same | other
          · exact .inr ⟨index, rfl, by rw [same, found]⟩
          · exact .inl (timers.1 timer other)
  | finish signals =>
      simp only [perform, finishCallback, after_fetch_bind]
      split
      · cases signals <;> exact kept _ rfl
      · exact kept _ rfl
      · exact kept _ rfl
  | die => exact kept _ rfl
  | sentinel error =>
      simp only [perform, sentinel, after_fetch_bind, after_whenever]
      split
      · refine ⟨fun _ member => .inl (List.mem_append_left _ member), fun member => ?_⟩
        rcases List.mem_append.mp member with earlier | new
        · exact .inl earlier
        · obtain ⟨_, _, same⟩ := List.mem_map.mp new
          cases same
      · exact kept _ rfl

/-- A request in the table has its timer. -/
def Timed (id : Nat) (c : Conn) : Prop := c.isAsync id = true → .timeout id ∈ c.timers

theorem unopened (act : Act) (known : id ≤ c.nextId) : c.opens id act = 0 := by
  rcases opens_cases c id act with closed | ⟨-, new, -⟩
  · exact closed
  · omega

theorem timed_step (single : Single c) (known : id ≤ c.nextId) (timed : Timed id c) (act : Act) :
    Timed id (c.step maxLength act) := by
  intro async
  have table : (c.step maxLength act).isAsync id = _ := isAsync_step single.sound act
  rw [unopened act known, async] at table
  simp only [Nat.lt_irrefl, decide_false, Bool.false_or] at table
  have parts := Bool.and_eq_true_iff.mp table.symm
  have before := (Bool.and_eq_true_iff.mp parts.1).1
  have unended := of_decide_eq_true (Bool.and_eq_true_iff.mp parts.1).2
  rcases (step_timers maxLength c act id).1 _ (timed before) with stays | ⟨index, rfl, gone⟩
  · exact stays
  · apply absurd _ unended
    simp [Conn.ends, gone, before]

/-- Timers are set for requests that have been made. -/
def Clocked (c : Conn) : Prop := ∀ id, .timeout id ∈ c.timers → id ≤ c.nextId

theorem clocked_step (clocked : Clocked c) (act : Act) : Clocked (c.step maxLength act) := by
  intro key set
  have grows := (step_history maxLength c act).1
  rcases (step_timers maxLength c act key).2 set with earlier | ⟨takes, new⟩
  · have before := clocked key earlier
    omega
  · rw [takes, Bool.toNat_true] at grows
    omega

end Timers

end EmacsRelay.RelayCore

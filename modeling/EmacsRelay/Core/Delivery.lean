import EmacsRelay.Core.Completion

set_option autoImplicit false

/- Completions reach their callbacks: queued callbacks have a timer, and where nothing is dropped
every request keeps its account. -/
namespace EmacsRelay.RelayCore

open Routine

/-- Queued callbacks have a drain scheduled. -/
structure Scheduled (c : Conn) : Prop where
  flag : c.queue ≠ [] → c.drainScheduled = true
  timer : c.drainScheduled = true → .drain ∈ c.timers

section Schedule

variable {maxLength : Nat} {c c' : Conn}

theorem Scheduled.congr (scheduled : Scheduled c) (queue : c'.queue = c.queue)
    (flag : c'.drainScheduled = c.drainScheduled) (timers : ∀ t ∈ c.timers, t ∈ c'.timers) :
    Scheduled c' where
  flag waiting := by
    rw [flag]
    exact scheduled.flag (queue ▸ waiting)
  timer set := timers _ (scheduled.timer (flag ▸ set))

theorem scheduled_scheduled (timer : c.drainScheduled = true → .drain ∈ c.timers) :
    Scheduled c.scheduled := by
  unfold Conn.scheduled
  split
  · rename_i set
    exact ⟨fun _ => set, fun _ => timer set⟩
  · exact ⟨fun _ => rfl, fun _ => by simp⟩

theorem scheduled_enqueueCallback (thunk : Thunk) (scheduled : Scheduled c) :
    Scheduled ((enqueueCallback maxLength thunk).after c) := by
  rw [enqueueCallback_after]
  split
  · exact scheduled.congr rfl rfl fun _ => id
  · exact scheduled_scheduled scheduled.timer

theorem scheduled_drain (c : Conn) (index : Nat) :
    Scheduled (drainCallbackQueue.after { c with timers := c.timers.eraseIdx index }) := by
  simp only [drainCallbackQueue, after_update_bind, after_fetch_bind]
  cases thunks : c.queue.reverse with
  | nil =>
      have empty : c.queue = [] := List.reverse_eq_nil_iff.mp thunks
      exact ⟨fun waiting => absurd empty waiting, fun set => by cases set⟩
  | cons thunk rest =>
      simp only [after_ite, after_update_bind, after_update, maybeScheduleDrain_after]
      split
      · exact scheduled_scheduled fun set => by cases set
      · exact ⟨fun waiting => absurd rfl waiting, fun set => by cases set⟩

theorem scheduled_dispatch (scheduled : Scheduled c) (m : Message) :
    Scheduled ((dispatch maxLength m).after c) := by
  unfold dispatch
  cases m.repliesTo with
  | none => exact scheduled
  | some key =>
      have removed : Scheduled (c.remove key) := scheduled.congr rfl rfl fun _ => id
      simp only [dispatchReply, after_fetch_bind]
      cases c.pending key with
      | none => exact scheduled
      | some entry =>
          cases entry with
          | waiting => exact scheduled.congr rfl rfl fun _ => id
          | replied reply => exact scheduled
          | callback => exact scheduled_enqueueCallback _ removed
          | stream =>
              simp only [after_ite, after_update_bind]
              split
              · exact scheduled_enqueueCallback _ scheduled
              · exact scheduled_enqueueCallback _ removed

theorem scheduled_timer (scheduled : Scheduled c) (index : Nat) :
    Scheduled ((runTimer maxLength index).after c) := by
  cases found : c.timers[index]? with
  | none => simpa [runTimer, found] using scheduled
  | some timer =>
      simp only [runTimer, after_fetch_bind, found, after_update_bind]
      have others : timer ≠ .drain → Scheduled { c with timers := c.timers.eraseIdx index } := by
        intro other
        refine ⟨scheduled.flag, fun set => ?_⟩
        obtain ⟨small, rfl⟩ := List.getElem?_eq_some_iff.mp found
        have member := (List.getElem_cons_eraseIdx_perm small).mem_iff.mpr (scheduled.timer set)
        exact (List.mem_cons.mp member).resolve_left (Ne.symm other)
      cases timer with
      | drain => exact scheduled_drain c index
      | timeout key =>
          have erased := others fun same => by cases same
          simp only [timeoutRequest, after_fetch_bind, after_whenever, after_update_bind]
          split
          · exact scheduled_enqueueCallback _ (erased.congr rfl rfl fun _ => id)
          · exact erased
      | call key reply => exact (others fun same => by cases same).congr rfl rfl fun _ => id

theorem scheduled_opened (scheduled : Scheduled c) (entry : Entry) (timeout sends : Bool) :
    Scheduled (c.opened entry timeout sends) := by
  have timers : ∀ t ∈ c.timers, t ∈ (c.opened entry timeout sends).timers := by
    intro t member
    cases timeout <;> cases sends <;> simp [Conn.opened, member]
  cases timeout <;> cases sends <;> exact scheduled.congr rfl rfl timers

theorem scheduled_awake (scheduled : Scheduled c) (id : Nat) (expired : Bool) :
    Scheduled ((awake id expired).after c) := by
  have noticed : Scheduled (c.noticed id) := by
    unfold Conn.noticed
    split
    · exact scheduled.congr rfl rfl fun _ member => member
    · exact scheduled
  rw [awake_after]
  split
  · exact noticed.congr rfl rfl fun _ member => member
  · split
    · exact noticed
    · exact noticed.congr rfl rfl fun _ member => member

theorem scheduled_finish (scheduled : Scheduled c) (signals : Bool) :
    Scheduled ((finishCallback signals).after c) := by
  simp only [finishCallback, after_fetch_bind]
  split
  · cases signals <;> exact scheduled.congr rfl rfl fun _ member => member
  · exact scheduled.congr rfl rfl fun _ member => member
  · exact scheduled

theorem scheduled_sentinel (scheduled : Scheduled c) (error : String) :
    Scheduled ((sentinel error).after c) := by
  simp only [sentinel, after_fetch_bind, after_whenever]
  split
  · exact scheduled.congr rfl rfl fun t member => List.mem_append_left _ member
  · exact scheduled

theorem scheduled_step (maxLength : Nat) (scheduled : Scheduled c) (act : Act) :
    Scheduled (c.step maxLength act) := by
  have start : Scheduled (c.record (c.ends act)) :=
    scheduled.congr rfl rfl fun _ member => member
  unfold Conn.step
  cases act with
  | requestAsync timeout sends =>
      rw [requestAsync_after]
      exact scheduled_opened start _ _ _
  | requestStream timeout sends =>
      rw [requestStream_after]
      exact scheduled_opened start _ _ _
  | request sends => cases sends <;> exact start.congr rfl rfl fun _ member => member
  | awake expired =>
      simp only [perform, after_fetch_bind]
      split
      · exact scheduled_awake start _ expired
      · exact start
  | cancel key => exact start.congr rfl rfl fun _ member => member
  | message m => exact scheduled_dispatch start m
  | timer index => exact scheduled_timer start index
  | finish signals => exact scheduled_finish start signals
  | die => exact start.congr rfl rfl fun _ member => member
  | sentinel error => exact scheduled_sentinel start error

end Schedule

/-- The event drops no completion: there is room in the queue for the one it brings, and a
callback that signals has no completion waiting behind it. -/
def Lossless (maxLength : Nat) (c : Conn) : Act → Prop
  | .message m => c.ends (.message m) ≠ [] → c.queue.length < maxLength
  | .timer index => c.ends (.timer index) ≠ [] → c.queue.length < maxLength
  | .finish true => ∀ rest frames, c.frames = .running rest :: frames → ∀ t ∈ rest, t.final = false
  | _ => True

section Delivery

variable {maxLength : Nat} {c : Conn}

theorem lossless_drops {id : Nat} {act : Act} (lossless : Lossless maxLength c act)
    (kept : act ≠ .cancel id) : c.drops id maxLength act = 0 := by
  cases act with
  | message m =>
      apply if_neg
      intro dropped
      have room := lossless (List.ne_nil_of_mem dropped.1)
      omega
  | timer index =>
      apply if_neg
      intro dropped
      have room := lossless (List.ne_nil_of_mem dropped.1)
      omega
  | cancel other =>
      apply if_neg
      intro same
      exact kept (same ▸ rfl)
  | finish signals =>
      cases signals with
      | false => rfl
      | true =>
          match top : c.frames with
          | [] => simp [Conn.drops, top]
          | .waiting key :: frames => simp [Conn.drops, top, Frame.rest]
          | .running rest :: frames =>
              have chunks := lossless rest frames top
              simp only [Conn.drops, top, List.head?_cons, Option.map_some, Option.getD_some,
                Frame.rest, List.countP_eq_zero, Thunk.completes]
              intro t member
              simp [chunks t member]
  | _ => rfl

/-- A request that was sent keeps its account until it is cancelled in time. -/
def Delivered (c : Conn) : Prop := ∀ id ∈ c.sent, id ∉ c.cancelled → c.account id = 1

theorem cancel_recorded {id : Nat} (known : id ≤ c.nextId) (early : id ∉ c.processed) :
    id ∈ (c.step maxLength (.cancel id)).cancelled := by
  simp [Conn.step, perform, Conn.recordCancel, cancelRequest, Conn.ends, known, early]

theorem delivered_step (single : Single c) (delivered : Delivered c) {act : Act}
    (lossless : Lossless maxLength c act) : Delivered (c.step maxLength act) := by
  obtain ⟨_, _, sent, cancelled⟩ := step_history maxLength c act
  intro id member kept
  have balance : (c.step maxLength act).account id + c.drops id maxLength act =
      c.account id + c.opens id act := account_step single.sound act
  have known : c.account id = 1 → id ≤ c.nextId := by
    intro one
    apply Classical.byContradiction
    intro far
    have := single.fresh id (by omega)
    omega
  have unharmed : c.account id + c.opens id act = 1 → c.drops id maxLength act = 0 := by
    intro one
    by_cases cancels : act = .cancel id
    · -- only a request that has ended can be cancelled and stay off the record
      have closed : c.opens id act = 0 := by simp [cancels, Conn.opens, Act.opensAsync]
      have late : id ∈ c.processed := by
        apply Classical.byContradiction
        intro early
        rw [cancels] at kept
        exact kept (cancel_recorded (known (by omega)) early)
      have ended := (single.ended id late).2
      simp [Conn.drops, cancels, ended]
    · exact lossless_drops lossless cancels
  have earlier : id ∈ c.sent → (c.step maxLength act).account id = 1 := by
    intro before
    have still : id ∉ c.cancelled := by
      rcases cancelled with same | ⟨key, _, _, _, grown⟩
      · exact same ▸ kept
      · rw [grown] at kept
        exact fun member => kept (List.mem_append_left _ member)
    have one := delivered id before still
    have old : c.opens id act = 0 := by
      have := known one
      rcases opens_cases c id act with closed | ⟨_, new, _⟩
      · exact closed
      · omega
    have nothing := unharmed (by omega)
    omega
  rcases sent with same | ⟨opens, grown⟩
  · exact earlier (same ▸ member)
  · rw [grown, List.mem_append, List.mem_singleton] at member
    rcases member with before | new
    · exact earlier before
    · have fresh := single.fresh id (by omega)
      have opened : c.opens id act = 1 := if_pos ⟨opens, new⟩
      have nothing := unharmed (by omega)
      omega

/-- All timers have run, and no drain is under way. -/
structure Settled (c : Conn) : Prop where
  timers : c.timers = []
  frames : ∀ frame ∈ c.frames, frame.rest = []

theorem settled_due (scheduled : Scheduled c) (settled : Settled c) (id : Nat) : c.due id = 0 := by
  have queue : c.queue = [] := by
    apply Classical.byContradiction
    intro waiting
    have timer := scheduled.timer (scheduled.flag waiting)
    rw [settled.timers] at timer
    cases timer
  have frames : c.frames.flatMap Frame.rest = [] := List.flatMap_eq_nil_iff.mpr settled.frames
  simp [Conn.due, queue, frames, settled.timers]

theorem delivered_reached (reached : Conn.Reached maxLength (Lossless maxLength) c) :
    Single c ∧ Scheduled c ∧ Delivered c := by
  induction reached with
  | refl => exact ⟨single_start, ⟨nofun, nofun⟩, nofun⟩
  | @next c act _ lossless ih =>
      obtain ⟨single, scheduled, delivered⟩ := ih
      exact ⟨single_step maxLength single act, scheduled_step maxLength scheduled act,
        delivered_step single delivered lossless⟩

/-- Every completion that is due has been run, once. -/
def AllRun (c : Conn) : Prop :=
  ∀ id ∈ c.sent, id ∉ c.cancelled → id ∈ c.processed → c.calls.countP (·.1 == id) = 1

/-- In every run that drops nothing, a request that was sent, not cancelled in time, and taken for
ended has had its completion run once, when all timers have run. -/
theorem no_completion_lost (reached : Conn.Reached maxLength (Lossless maxLength) c)
    (settled : Settled c) : AllRun c := by
  obtain ⟨single, scheduled, delivered⟩ := delivered_reached reached
  intro id sent kept ended
  have account := delivered id sent kept
  have nothing := settled_due scheduled settled id
  have gone := (single.ended id ended).2
  rw [Conn.account, gone, nothing] at account
  simpa [Conn.done] using account

end Delivery

/-- Two requests are answered before either callback is run; the first one ends as told. -/
def answeredTogether (signals : Bool) : List Act :=
  [.requestAsync false true, .requestAsync false true, .message { id := some 1 },
    .message { id := some 2 }, .timer 0, .finish signals, .finish false]

theorem no_completion_lost_together :
    (2 ∈ ((answeredTogether false).foldl (Conn.step 10000) {}).processed) ∧
    ((answeredTogether false).foldl (Conn.step 10000) {}).calls.countP (·.1 == 2) = 1 := by
  have reached : Conn.Reached 10000 (Lossless 10000) ((answeredTogether false).foldl (Conn.step 10000) {}) := by
    apply Reaches.of_along .refl
    exact ⟨trivial, trivial, fun _ => by decide, fun _ => by decide, fun _ => by decide, trivial,
      trivial, trivial⟩
  have settled : Settled ((answeredTogether false).foldl (Conn.step 10000) {}) :=
    ⟨by decide, by decide⟩
  exact ⟨by decide, no_completion_lost reached settled 2 (by decide) (by decide) (by decide)⟩

/-- The first callback signals, and the second is never run. -/
theorem signal_drops_completion :
    ¬ ∀ c, Conn.Reached 10000 AnyAct c → Settled c → AllRun c := by
  intro delivers
  have reached : Conn.Reached 10000 AnyAct ((answeredTogether true).foldl (Conn.step 10000) {}) := by
    apply Reaches.of_along .refl
    exact ⟨trivial, trivial, trivial, trivial, trivial, trivial, trivial, trivial⟩
  have settled : Settled ((answeredTogether true).foldl (Conn.step 10000) {}) :=
    ⟨by decide, by decide⟩
  have run := delivers _ reached settled 2 (by decide) (by decide) (by decide)
  exact absurd run (by decide)

end EmacsRelay.RelayCore

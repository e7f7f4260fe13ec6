import EmacsRelay.Core.Account

set_option autoImplicit false

/- At most one completion of each asynchronous request, and one result of each synchronous one. -/
namespace EmacsRelay.RelayCore

open Routine

/-- A reply to request `id`, or news of the transport. -/
def Reply.Concerns (id : Nat) : Reply → Prop
  | .message m => m.repliesTo = some id
  | .transport _ => True
  | .timeout => False

/-- What holds of the synchronous requests: each of them waits or has one result, and what is
stored for it or given to it concerns it. -/
structure Sound (c : Conn) : Prop where
  bounded : c.Bounded
  waiters : ∀ id, .waiting id ∈ c.frames → c.isAsync id = false
  known : ∀ id ∈ c.asked, id ≤ c.nextId
  distinct : c.asked.Nodup
  answers : ∀ id, c.frames.count (.waiting id) + c.results.countP (·.1 == id) = c.asked.count id
  stored : ∀ id reply, c.pending id = some (.replied reply) → reply.Concerns id
  given : ∀ id reply, (id, .reply (some reply)) ∈ c.results → reply.Concerns id

/-- What was recorded of asynchronous requests: taken for ended, cancelled in time, sent. -/
def Conn.recorded (c : Conn) : List Nat × List Nat × List Nat := (c.processed, c.cancelled, c.sent)

/-- Nothing happened to synchronous requests but that replies were stored, and no id was added. -/
structure Kept (c c' : Conn) : Prop where
  nextId : c'.nextId = c.nextId
  asked : c'.asked = c.asked
  results : c'.results = c.results
  history : c'.recorded = c.recorded
  waits : ∀ id, c'.frames.count (.waiting id) = c.frames.count (.waiting id)
  table : ∀ id, c.pending id = none → c'.pending id = none
  async : ∀ id, c'.isAsync id = true → c.isAsync id = true
  stored : ∀ id reply, c'.pending id = some (.replied reply) →
    c.pending id = some (.replied reply) ∨ reply.Concerns id

section Sync

variable {maxLength : Nat} {c c' c'' : Conn} {id other : Nat}

theorem Kept.refl (c : Conn) : Kept c c :=
  ⟨rfl, rfl, rfl, rfl, fun _ => rfl, fun _ => id, fun _ => id, fun _ _ => .inl⟩

theorem Kept.trans (first : Kept c c') (second : Kept c' c'') : Kept c c'' where
  nextId := second.nextId.trans first.nextId
  asked := second.asked.trans first.asked
  results := second.results.trans first.results
  history := second.history.trans first.history
  waits id := (second.waits id).trans (first.waits id)
  table id absent := second.table id (first.table id absent)
  async id async := first.async id (second.async id async)
  stored id reply found := by
    rcases second.stored id reply found with earlier | concerns
    · exact first.stored id reply earlier
    · exact .inr concerns

/-- The table and the synchronous requests are as they were. -/
theorem Kept.of_same (nextId : c'.nextId = c.nextId) (asked : c'.asked = c.asked)
    (results : c'.results = c.results) (history : c'.recorded = c.recorded)
    (waits : ∀ id, c'.frames.count (.waiting id) = c.frames.count (.waiting id))
    (table : c'.pending = c.pending) : Kept c c' where
  nextId := nextId
  asked := asked
  results := results
  history := history
  waits := waits
  table id absent := by rw [table, absent]
  async id := by simp only [Conn.isAsync, table, imp_self]
  stored id reply found := .inl (table ▸ found)

theorem kept_remove : Kept c (c.remove other) where
  nextId := rfl
  asked := rfl
  results := rfl
  history := rfl
  waits _ := rfl
  table id absent := by simp [absent]
  async id := by
    rw [isAsync_remove]
    split
    · exact nofun
    · exact fun async => async
  stored id reply := by
    simp only [Conn.remove_pending]
    split
    · exact nofun
    · exact .inl

theorem kept_put {reply : Reply} (found : c.pending other = some .waiting)
    (concerns : reply.Concerns other) : Kept c (c.put other (.replied reply)) where
  nextId := rfl
  asked := rfl
  results := rfl
  history := rfl
  waits _ := rfl
  table id absent := by
    have apart : id ≠ other := by
      intro same
      rw [same, found] at absent
      cases absent
    simp [apart, absent]
  async id := by
    rw [isAsync_put]
    split
    · exact nofun
    · exact fun async => async
  stored id reply' := by
    simp only [Conn.put_pending]
    split
    · rename_i same
      intro stored
      rw [Entry.replied.inj (Option.some.inj stored)] at concerns
      exact .inr (same ▸ concerns)
    · exact .inl

theorem kept_scheduled : Kept c c.scheduled := by
  unfold Conn.scheduled
  split
  · exact .refl c
  · exact .of_same rfl rfl rfl rfl (fun _ => rfl) rfl

theorem kept_enqueueCallback (thunk : Thunk) :
    Kept c ((enqueueCallback maxLength thunk).after c) := by
  rw [enqueueCallback_after]
  split
  · exact .of_same rfl rfl rfl rfl (fun _ => rfl) rfl
  · have queued : Kept c (c.enqueue thunk) := .of_same rfl rfl rfl rfl (fun _ => rfl) rfl
    exact queued.trans kept_scheduled

theorem kept_enter (thunk : Thunk) (rest : List Thunk) : Kept c (c.enter thunk rest) :=
  .of_same rfl rfl rfl rfl (fun id => by simp) rfl

theorem kept_drain : Kept c (drainCallbackQueue.after c) := by
  have reset : Kept c { c with drainScheduled := false } := .of_same rfl rfl rfl rfl (fun _ => rfl) rfl
  simp only [drainCallbackQueue, after_update_bind, after_fetch_bind]
  split
  · exact reset
  · simp only [after_ite, after_update_bind, after_update, maybeScheduleDrain_after]
    split
    · exact reset.trans kept_scheduled
    · have emptied : Kept c { c with drainScheduled := false, queue := [] } :=
        .of_same rfl rfl rfl rfl (fun _ => rfl) rfl
      exact emptied.trans (kept_enter _ _)

theorem kept_dispatch (maxLength : Nat) (c : Conn) (m : Message) : Kept c ((dispatch maxLength m).after c) := by
  unfold dispatch
  cases named : m.repliesTo with
  | none => exact .refl c
  | some key =>
      simp only [dispatchReply, after_fetch_bind]
      have completed : Kept c
          ((enqueueCallback maxLength ⟨key, true, .message m⟩).after (c.remove key)) :=
        kept_remove.trans (kept_enqueueCallback _)
      cases found : c.pending key with
      | none => exact .refl c
      | some entry =>
          cases entry with
          | waiting =>
              exact kept_put found named
          | replied reply => exact .refl c
          | callback => exact completed
          | stream =>
              simp only [after_ite, after_update_bind]
              split
              · exact kept_enqueueCallback _
              · exact completed

theorem kept_timer (maxLength : Nat) (c : Conn) (index : Nat) : Kept c ((runTimer maxLength index).after c) := by
  simp only [runTimer, after_fetch_bind]
  cases found : c.timers[index]? with
  | none => exact .refl c
  | some timer =>
      simp only [after_update_bind]
      have erased : Kept c { c with timers := c.timers.eraseIdx index } :=
        .of_same rfl rfl rfl rfl (fun _ => rfl) rfl
      cases timer with
      | drain => exact erased.trans kept_drain
      | timeout key =>
          simp only [timeoutRequest, after_fetch_bind, after_whenever, after_update_bind]
          split
          · exact erased.trans (kept_remove.trans (kept_enqueueCallback _))
          · exact erased
      | call key reply => exact erased.trans (kept_enter _ _)

theorem kept_leave {rest : List Thunk} {frames : List Frame}
    (top : c.frames = .running rest :: frames) : Kept c c.leave :=
  .of_same rfl rfl rfl rfl (fun id => by simp [top]) rfl

theorem kept_finish (c : Conn) (signals : Bool) : Kept c ((finishCallback signals).after c) := by
  simp only [finishCallback, after_fetch_bind]
  cases top : c.frames with
  | nil => exact .refl c
  | cons frame frames =>
      cases frame with
      | waiting key => exact .refl c
      | running rest =>
          cases rest with
          | nil => exact kept_leave top
          | cons thunk rest =>
              cases signals with
              | true => exact kept_leave top
              | false => exact (kept_leave top).trans (kept_enter _ _)

theorem kept_failPending (error : String) :
    Kept c ((failPending (.transport error)).after c) where
  nextId := rfl
  asked := rfl
  results := rfl
  history := rfl
  waits _ := rfl
  table id absent := by simp [failPending, absent]
  async id := by
    simp only [failPending, after_update, Conn.isAsync]
    cases found : c.pending id with
    | none =>
        intro async
        cases async
    | some entry =>
        intro async
        cases entry <;> cases async
  stored id reply := by
    simp only [failPending, after_update]
    cases found : c.pending id with
    | none =>
        intro stored
        cases stored
    | some entry =>
        cases entry with
        | waiting =>
            intro stored
            rw [← Entry.replied.inj (Option.some.inj stored)]
            exact .inr trivial
        | replied earlier => exact .inl
        | callback =>
            intro stored
            cases stored
        | stream =>
            intro stored
            cases stored

theorem kept_sentinel (c : Conn) (error : String) : Kept c ((sentinel error).after c) := by
  simp only [sentinel, after_fetch_bind, after_whenever]
  split
  · exact kept_failPending error
  · exact .refl c

theorem Sound.kept (sound : Sound c) (kept : Kept c c') : Sound c' where
  bounded id far := kept.table id (sound.bounded id (kept.nextId ▸ far))
  waiters id waiting := by
    have earlier : .waiting id ∈ c.frames := by
      rw [← List.count_pos_iff, ← kept.waits id, List.count_pos_iff]
      exact waiting
    have sync := sound.waiters id earlier
    cases async : c'.isAsync id with
    | false => rfl
    | true => exact nomatch sync.symm.trans (kept.async id async)
  known id member := by
    rw [kept.nextId]
    exact sound.known id (kept.asked ▸ member)
  distinct := kept.asked ▸ sound.distinct
  answers id := by rw [kept.waits, kept.results, kept.asked, sound.answers]
  stored id reply found := by
    rcases kept.stored id reply found with earlier | concerns
    · exact sound.stored id reply earlier
    · exact concerns
  given id reply member := sound.given id reply (kept.results ▸ member)

theorem Sound.unasked (sound : Sound c) (id : Nat) (new : c.nextId < id) :
    c.frames.count (.waiting id) = 0 ∧ c.results.countP (·.1 == id) = 0 ∧ c.asked.count id = 0 := by
  have unknown : id ∉ c.asked := fun member => by
    have := sound.known id member
    omega
  have answers := sound.answers id
  rw [List.count_eq_zero_of_not_mem unknown] at answers
  exact ⟨by omega, by omega, List.count_eq_zero_of_not_mem unknown⟩

theorem Sound.opened (sound : Sound c) (entry : Entry) (timeout sends : Bool)
    (async : entry.isAsync = true) : Sound (c.opened entry timeout sends) := by
  have table : (c.opened entry timeout sends).pending =
      fun id => if id = c.nextId + 1 then some entry else c.pending id := by
    cases timeout <;> cases sends <;> rfl
  have next : (c.opened entry timeout sends).nextId = c.nextId + 1 := by
    cases timeout <;> cases sends <;> rfl
  have rest : (c.opened entry timeout sends).frames = c.frames ∧
      (c.opened entry timeout sends).asked = c.asked ∧
      (c.opened entry timeout sends).results = c.results := by
    cases timeout <;> cases sends <;> exact ⟨rfl, rfl, rfl⟩
  constructor
  case bounded =>
    intro id far
    have apart : id ≠ c.nextId + 1 := by omega
    rw [table]
    simp only [if_neg apart]
    exact sound.bounded id (by omega)
  case waiters =>
    intro id waiting
    rw [rest.1] at waiting
    have apart : id ≠ c.nextId + 1 := by
      intro new
      have := sound.unasked id (by omega)
      have := List.count_pos_iff.mpr waiting
      omega
    have sync := sound.waiters id waiting
    simp only [Conn.isAsync, table, if_neg apart]
    exact sync
  case known =>
    intro id member
    have := sound.known id (rest.2.1 ▸ member)
    omega
  case distinct => exact rest.2.1 ▸ sound.distinct
  case answers =>
    intro id
    rw [rest.1, rest.2.1, rest.2.2]
    exact sound.answers id
  case stored =>
    intro id reply found
    rw [table] at found
    by_cases new : id = c.nextId + 1
    · simp only [if_pos new] at found
      rw [Option.some.inj found] at async
      cases async
    · simp only [if_neg new] at found
      exact sound.stored id reply found
  case given =>
    intro id reply member
    exact sound.given id reply (rest.2.2 ▸ member)

theorem Sound.request (sound : Sound c) (sends : Bool) :
    Sound ((perform maxLength (.request sends)).after c) := by
  have unasked := sound.unasked (c.nextId + 1) (Nat.lt_succ_self _)
  have known : ∀ id ∈ c.asked ++ [c.nextId + 1], id ≤ c.nextId + 1 := by
    intro id member
    rcases List.mem_append.mp member with earlier | new
    · have := sound.known id earlier
      omega
    · have := List.mem_singleton.mp new
      omega
  have distinct : (c.asked ++ [c.nextId + 1]).Nodup := by
    apply List.Nodup.append sound.distinct (by simp)
    intro id earlier new
    have := sound.known id earlier
    have := List.mem_singleton.mp new
    omega
  cases sends with
  | true =>
      have sent : (perform maxLength (.request true)).after c =
          { c with
            asked := c.asked ++ [c.nextId + 1]
            nextId := c.nextId + 1
            frames := .waiting (c.nextId + 1) :: c.frames }.put (c.nextId + 1) .waiting := rfl
      rw [sent]
      constructor
      case known => exact known
      case distinct => exact distinct
      case bounded =>
        intro id far
        have apart : id ≠ c.nextId + 1 := Nat.ne_of_gt far
        rw [Conn.put_pending, if_neg apart]
        exact sound.bounded id (Nat.lt_of_succ_lt far)
      case waiters =>
        intro id waiting
        rw [isAsync_put]
        split
        · rfl
        · rename_i apart
          rcases List.mem_cons.mp waiting with new | earlier
          · exact absurd (Frame.waiting.inj new) apart
          · exact sound.waiters id earlier
      case answers =>
        intro id
        have answers := sound.answers id
        by_cases new : id = c.nextId + 1
        · subst new
          simp [unasked]
        · have apart : c.nextId + 1 ≠ id := Ne.symm new
          simpa [List.count_cons, apart] using answers
      case stored =>
        intro id reply found
        rw [Conn.put_pending] at found
        split at found
        · cases found
        · exact sound.stored id reply found
      case given => exact sound.given
  | false =>
      have unsent : (perform maxLength (.request false)).after c =
          ((({ c with
            asked := c.asked ++ [c.nextId + 1]
            nextId := c.nextId + 1 }.put (c.nextId + 1) .waiting).remove
              (c.nextId + 1)).conclude (c.nextId + 1) .unsent) := rfl
      rw [unsent]
      constructor
      case known => exact known
      case distinct => exact distinct
      case bounded =>
        intro id far
        have apart : id ≠ c.nextId + 1 := Nat.ne_of_gt far
        simp only [Conn.conclude_pending, Conn.remove_pending, Conn.put_pending, if_neg apart]
        exact sound.bounded id (Nat.lt_of_succ_lt far)
      case waiters =>
        intro id waiting
        have sync := sound.waiters id waiting
        show Conn.isAsync _ id = false
        simp only [Conn.isAsync, Conn.conclude_pending, Conn.remove_pending, Conn.put_pending]
        split
        · rfl
        · exact sync
      case answers =>
        intro id
        have answers := sound.answers id
        by_cases new : id = c.nextId + 1
        · subst new
          simp [unasked]
        · have apart : c.nextId + 1 ≠ id := Ne.symm new
          simpa [List.count_cons, apart] using answers
      case stored =>
        intro id reply found
        simp only [Conn.conclude_pending, Conn.remove_pending, Conn.put_pending] at found
        split at found
        · cases found
        · exact sound.stored id reply found
      case given =>
        intro id reply member
        rcases List.mem_append.mp member with earlier | new
        · exact sound.given id reply earlier
        · cases List.mem_singleton.mp new

theorem Sound.concluded (sound : Sound c) {frames : List Frame} {result : Result}
    (top : c.frames = .waiting other :: frames)
    (own : ∀ reply, result = .reply (some reply) → reply.Concerns other) :
    Sound (((c.remove other).leave).conclude other result) := by
  have removed : Sound (c.remove other) := sound.kept kept_remove
  constructor
  case bounded => exact removed.bounded
  case known => exact sound.known
  case distinct => exact sound.distinct
  case stored => exact removed.stored
  case waiters =>
    intro id waiting
    exact removed.waiters id (List.mem_of_mem_tail waiting)
  case answers =>
    intro id
    have answers := sound.answers id
    rw [top] at answers
    by_cases same : other = id
    · subst same
      simp [top, List.countP_append] at answers ⊢
      omega
    · simpa [top, List.countP_append, List.count_cons, same] using answers
  case given =>
    intro id reply member
    rcases List.mem_append.mp member with earlier | new
    · exact sound.given id reply earlier
    · have parts := Prod.mk.inj (List.mem_singleton.mp new)
      exact parts.1 ▸ own reply parts.2.symm

theorem kept_noticed (c : Conn) (id : Nat) : Kept c (c.noticed id) := by
  unfold Conn.noticed
  split
  · rename_i gone
    simp only [Bool.and_eq_true, decide_eq_true_eq] at gone
    exact kept_put gone.1 trivial
  · exact .refl c

theorem Sound.awake (sound : Sound c) {frames : List Frame}
    (top : c.frames = .waiting other :: frames) (expired : Bool) :
    Sound ((awake other expired).after c) := by
  have noticed := sound.kept (kept_noticed c other)
  have still : (c.noticed other).frames = .waiting other :: frames :=
    (noticed_rest c other).2.1.trans top
  rw [awake_after]
  split
  · exact noticed.concluded still nofun
  · split
    · exact noticed
    · apply noticed.concluded still
      intro reply given
      have found : (c.noticed other).pending other = some (.replied reply) := by
        cases stored : (c.noticed other).pending other with
        | none => simp [stored] at given
        | some entry => cases entry <;> simp_all
      exact noticed.stored other reply found

theorem awake_record (c : Conn) (other : Nat) (expired : Bool) :
    ((awake other expired).after c).nextId = c.nextId ∧
      ((awake other expired).after c).recorded = c.recorded := by
  have noticed := kept_noticed c other
  rw [awake_after]
  split
  · exact ⟨noticed.nextId, noticed.history⟩
  · split <;> exact ⟨noticed.nextId, noticed.history⟩

theorem sound_step (maxLength : Nat) (sound : Sound c) (act : Act) :
    Sound (c.step maxLength act) := by
  have start : Sound (c.record (c.ends act)) :=
    ⟨sound.bounded, sound.waiters, sound.known, sound.distinct, sound.answers, sound.stored,
      sound.given⟩
  unfold Conn.step
  cases act with
  | requestAsync timeout sends =>
      rw [requestAsync_after]
      exact start.opened _ _ _ rfl
  | requestStream timeout sends =>
      rw [requestStream_after]
      exact start.opened _ _ _ rfl
  | request sends => exact start.request sends
  | awake expired =>
      simp only [perform, after_fetch_bind]
      split
      · rename_i top
        exact start.awake top expired
      · exact start
  | cancel id =>
      have noted : Sound ((c.record (c.ends (.cancel id))).recordCancel id) :=
        ⟨start.bounded, start.waiters, start.known, start.distinct, start.answers, start.stored,
          start.given⟩
      exact noted.kept kept_remove
  | message m => exact start.kept (kept_dispatch _ _ m)
  | timer index => exact start.kept (kept_timer _ _ index)
  | finish signals => exact start.kept (kept_finish _ signals)
  | die => exact start.kept (.of_same rfl rfl rfl rfl (fun _ => rfl) rfl)
  | sentinel error => exact start.kept (kept_sentinel _ error)

end Sync

section Balance

variable {maxLength : Nat} {c : Conn} {id : Nat}

/-- The account of a request changes when it is opened and when a completion is dropped. -/
theorem account_step (sound : Sound c) (act : Act) :
    (c.step maxLength act).account id + c.drops id maxLength act =
      c.account id + c.opens id act := by
  have bounded : (c.record (c.ends act)).Bounded := sound.bounded
  unfold Conn.step
  cases act with
  | requestAsync timeout sends =>
      rw [requestAsync_after, account_opened rfl timeout sends bounded]
      simp [Conn.opens, Conn.drops, Act.opensAsync]
      rfl
  | requestStream timeout sends =>
      rw [requestStream_after, account_opened rfl timeout sends bounded]
      simp [Conn.opens, Conn.drops, Act.opensAsync]
      rfl
  | request sends => exact account_request bounded sends
  | awake expired =>
      simp only [perform, after_fetch_bind]
      split
      · rename_i key frames top
        have waits : c.isAsync key = false := sound.waiters key (by
          rw [show c.frames = _ from top]
          simp)
        exact account_awake top waits expired
      · rfl
  | cancel key =>
      have removed : ((c.recordCancel key).remove key).account id +
          (if id = key then (c.isAsync id).toNat else 0) = c.account id := account_remove
      simp only [Conn.drops, Conn.opens, Act.opensAsync, Bool.false_eq_true, false_and, if_false,
        eq_comm]
      exact removed.symm
  | message m => exact account_dispatch bounded m
  | timer index => exact account_timer index
  | finish signals => exact account_finish signals
  | die => rfl
  | sentinel error => exact account_sentinel bounded error

theorem isAsync_dispatch (m : Message) :
    ((dispatch maxLength m).after c).isAsync id = (c.isAsync id && !c.finalFor m id) := by
  unfold dispatch
  cases named : m.repliesTo with
  | none => simp [Conn.finalFor, named]
  | some key =>
      have elsewhere : id ≠ key → c.finalFor m id = false := fun apart => by
        simp [Conn.finalFor, named, Ne.symm apart]
      have completed : c.finalFor m key = true →
          ((enqueueCallback maxLength ⟨key, true, .message m⟩).after (c.remove key)).isAsync id =
            (c.isAsync id && !c.finalFor m id) := by
        intro final
        rw [isAsync_enqueueCallback, isAsync_remove]
        by_cases same : id = key
        · simp [same, final]
        · simp [same, elsewhere same]
      have unfinished : c.finalFor m key = false →
          c.isAsync id = (c.isAsync id && !c.finalFor m id) := by
        intro open_
        by_cases same : id = key
        · simp [same, open_]
        · simp [elsewhere same]
      simp only [dispatchReply, after_fetch_bind]
      cases found : c.pending key with
      | none => exact unfinished (by simp [Conn.finalFor, found])
      | some entry =>
          cases entry with
          | waiting =>
              have sync : c.isAsync key = false := by simp [Conn.isAsync, found, Entry.isAsync]
              rw [after_update, isAsync_put, ← unfinished (by simp [Conn.finalFor, found])]
              by_cases same : id = key
              · rw [if_pos same, same, sync]
                rfl
              · rw [if_neg same]
          | replied reply => exact unfinished (by simp [Conn.finalFor, found])
          | callback => exact completed (by simp [Conn.finalFor, found, named])
          | stream =>
              by_cases more : m.more = true
              · simp only [more, if_true, isAsync_enqueueCallback]
                exact unfinished (by simp [Conn.finalFor, found, more])
              · simp only [more, Bool.false_eq_true, if_false, after_update_bind]
                exact completed (by simp [Conn.finalFor, found, named, more])

theorem isAsync_timer (index : Nat) :
    ((runTimer maxLength index).after c).isAsync id =
      (c.isAsync id && decide (id ∉ c.ends (.timer index))) := by
  cases found : c.timers[index]? with
  | none => simp [runTimer, Conn.ends, found]
  | some timer =>
      simp only [runTimer, after_fetch_bind, found, after_update_bind]
      cases timer with
      | drain => simp [Conn.ends, found, Conn.isAsync, drain_pending]
      | timeout key =>
          have table : ∀ id, ({ c with timers := c.timers.eraseIdx index } : Conn).isAsync id =
              c.isAsync id := fun _ => rfl
          simp only [timeoutRequest, after_fetch_bind, after_whenever, after_update_bind, table]
          by_cases async : c.isAsync key = true
          · by_cases same : id = key
            · simp [Conn.ends, found, async, same]
            · simp [Conn.ends, found, async, same, table]
          · simp [Conn.ends, found, async, table]
      | call key reply => simp [Conn.ends, found, Conn.isAsync]

/-- An asynchronous request is pending from when it is opened to when it is taken for ended or
cancelled. -/
theorem isAsync_step (sound : Sound c) (act : Act) :
    (c.step maxLength act).isAsync id =
      (decide (0 < c.opens id act) ||
        (c.isAsync id && decide (id ∉ c.ends act) && decide (act ≠ .cancel id))) := by
  have bounded : (c.record (c.ends act)).Bounded := sound.bounded
  have table : (c.record (c.ends act)).isAsync id = c.isAsync id := rfl
  unfold Conn.step
  cases act with
  | requestAsync timeout sends =>
      rw [requestAsync_after, isAsync_opened rfl]
      by_cases new : id = c.nextId + 1 <;> simp [Conn.opens, Act.opensAsync, Conn.ends, new, Conn.isAsync]
  | requestStream timeout sends =>
      rw [requestStream_after, isAsync_opened rfl]
      by_cases new : id = c.nextId + 1 <;> simp [Conn.opens, Act.opensAsync, Conn.ends, new, Conn.isAsync]
  | request sends =>
      rw [isAsync_request bounded, table]
      simp [Conn.opens, Act.opensAsync, Conn.ends]
  | awake expired =>
      simp only [perform, after_fetch_bind]
      split
      · rename_i key frames top
        have waits : (c.record (c.ends (.awake expired))).isAsync key = false :=
          sound.waiters key (by
            rw [show c.frames = _ from top]
            simp)
        rw [isAsync_awake waits, table]
        simp [Conn.opens, Act.opensAsync, Conn.ends]
      · simp [Conn.opens, Act.opensAsync, Conn.ends, Conn.isAsync]
  | cancel key =>
      show ((c.recordCancel key).remove key).isAsync id = _
      have noted : (c.recordCancel key).isAsync id = c.isAsync id := rfl
      rw [isAsync_remove, noted]
      by_cases same : id = key
      · simp [Conn.opens, Act.opensAsync, same]
      · simp [Conn.opens, Act.opensAsync, Conn.ends, same, Ne.symm same]
  | message m =>
      show ((dispatch maxLength m).after _).isAsync id = _
      have final : (c.record (c.ends (.message m))).finalFor m id = c.finalFor m id := rfl
      rw [isAsync_dispatch, table, final]
      simp [Conn.opens, Act.opensAsync, mem_ends_message sound.bounded]
  | timer index =>
      show ((runTimer maxLength index).after _).isAsync id = _
      have ends : (c.record (c.ends (.timer index))).ends (.timer index) =
          c.ends (.timer index) := rfl
      rw [isAsync_timer, table, ends]
      simp [Conn.opens, Act.opensAsync]
  | finish signals =>
      have kept := finish_pending (c.record (c.ends (.finish signals))) signals
      simp only [perform, Conn.isAsync, kept]
      simp [Conn.opens, Act.opensAsync, Conn.ends]
  | die => simp [perform, Conn.opens, Act.opensAsync, Conn.ends, Conn.isAsync]
  | sentinel error =>
      show ((sentinel error).after _).isAsync id = _
      simp only [sentinel, after_fetch_bind, after_whenever]
      cases dead : c.live with
      | true => simp [Conn.opens, Act.opensAsync, Conn.ends, dead, Conn.isAsync]
      | false =>
          simp [dead, isAsync_failPending, Conn.opens, Act.opensAsync,
            mem_ends_sentinel sound.bounded dead]

/-- The id a request is given. -/
def Act.takesId : Act → Bool
  | .requestAsync _ _ => true
  | .requestStream _ _ => true
  | .request _ => true
  | _ => false

/-- The ids handed out, and those recorded as ended, as sent and as cancelled, after an event. -/
theorem step_history (maxLength : Nat) (c : Conn) (act : Act) :
    (c.step maxLength act).nextId = c.nextId + act.takesId.toNat ∧
    (c.step maxLength act).processed = c.processed ++ c.ends act ∧
    ((c.step maxLength act).sent = c.sent ∨
      act.opensAsync = true ∧ (c.step maxLength act).sent = c.sent ++ [c.nextId + 1]) ∧
    ((c.step maxLength act).cancelled = c.cancelled ∨
      ∃ id, act = .cancel id ∧ id ≤ c.nextId ∧ id ∉ c.processed ∧
        (c.step maxLength act).cancelled = c.cancelled ++ [id]) := by
  have kept : ∀ c' : Conn, c'.nextId = c.nextId ∧
      c'.recorded = (c.record (c.ends act)).recorded →
      c'.nextId = c.nextId ∧ c'.processed = c.processed ++ c.ends act ∧
        (c'.sent = c.sent ∨ act.opensAsync = true ∧ c'.sent = c.sent ++ [c.nextId + 1]) ∧
        (c'.cancelled = c.cancelled ∨ ∃ id, act = .cancel id ∧ id ≤ c.nextId ∧ id ∉ c.processed ∧
          c'.cancelled = c.cancelled ++ [id]) := by
    intro c' ⟨nextId, history⟩
    simp only [Conn.recorded, Prod.mk.injEq] at history
    exact ⟨nextId, history.1, .inl history.2.2, .inl history.2.1⟩
  unfold Conn.step
  cases act with
  | requestAsync timeout sends =>
      cases sends with
      | false => cases timeout <;> exact ⟨rfl, rfl, .inl rfl, .inl rfl⟩
      | true => cases timeout <;> exact ⟨rfl, rfl, .inr ⟨rfl, rfl⟩, .inl rfl⟩
  | requestStream timeout sends =>
      cases sends with
      | false => cases timeout <;> exact ⟨rfl, rfl, .inl rfl, .inl rfl⟩
      | true => cases timeout <;> exact ⟨rfl, rfl, .inr ⟨rfl, rfl⟩, .inl rfl⟩
  | request sends => cases sends <;> exact ⟨rfl, rfl, .inl rfl, .inl rfl⟩
  | awake expired =>
      simp only [perform, after_fetch_bind]
      split
      · exact kept _ (awake_record _ _ _)
      · exact ⟨rfl, rfl, .inl rfl, .inl rfl⟩
  | cancel key =>
      refine ⟨rfl, rfl, .inl rfl, ?_⟩
      by_cases early : key ≤ c.nextId ∧ key ∉ c.processed
      · right
        refine ⟨key, rfl, early.1, early.2, ?_⟩
        simp [perform, Conn.recordCancel, cancelRequest, Conn.ends, early]
      · left
        simp [perform, Conn.recordCancel, cancelRequest, Conn.ends, early]
  | message m =>
      have same := kept_dispatch maxLength (c.record (c.ends (.message m))) m
      exact kept _ ⟨same.nextId, same.history⟩
  | timer index =>
      have same := kept_timer maxLength (c.record (c.ends (.timer index))) index
      exact kept _ ⟨same.nextId, same.history⟩
  | finish signals =>
      have same := kept_finish (c.record (c.ends (.finish signals))) signals
      exact kept _ ⟨same.nextId, same.history⟩
  | die => exact ⟨rfl, rfl, .inl rfl, .inl rfl⟩
  | sentinel error =>
      have same := kept_sentinel (c.record (c.ends (.sentinel error))) error
      exact kept _ ⟨same.nextId, same.history⟩

theorem opens_cases (c : Conn) (id : Nat) (act : Act) :
    c.opens id act = 0 ∨
      c.opens id act = 1 ∧ id = c.nextId + 1 ∧ act.takesId = true ∧ act ≠ .cancel id := by
  by_cases new : act.opensAsync = true ∧ id = c.nextId + 1
  · right
    refine ⟨if_pos new, new.2, ?_⟩
    cases act <;> simp_all [Act.takesId, Act.opensAsync]
  · left
    exact if_neg new

theorem ends_isAsync {act : Act} (ended : id ∈ c.ends act) : c.isAsync id = true := by
  cases act with
  | message m => exact isAsync_of_finalFor (List.mem_filter.mp ended).2
  | timer index =>
      simp only [Conn.ends] at ended
      split at ended
      · split at ended
        · rw [List.mem_singleton.mp ended]
          assumption
        · cases ended
      · cases ended
  | sentinel error =>
      simp only [Conn.ends] at ended
      split at ended
      · cases ended
      · exact (List.mem_filter.mp ended).2
  | _ => cases ended

end Balance

/-- Each request has at most one completion, which exists only once the request was taken for
ended; a request that was cancelled in time has none. -/
structure Single (c : Conn) : Prop where
  sound : Sound c
  fresh : ∀ id, c.nextId < id → c.account id = 0
  once : ∀ id, c.account id ≤ 1
  moved : ∀ id, 0 < c.due id + c.done id → id ∈ c.processed
  ended : ∀ id ∈ c.processed, id ≤ c.nextId ∧ c.isAsync id = false
  cancelled : ∀ id ∈ c.cancelled, id ≤ c.nextId ∧ c.account id = 0

theorem single_start : Single {} where
  sound := ⟨fun _ _ => rfl, nofun, nofun, .nil, fun _ => rfl, nofun, nofun⟩
  fresh _ _ := rfl
  once _ := Nat.zero_le 1
  moved _ := nofun
  ended := nofun
  cancelled := nofun

theorem single_step (maxLength : Nat) {c : Conn} (single : Single c) (act : Act) :
    Single (c.step maxLength act) := by
  have balance : ∀ id, (c.step maxLength act).account id + c.drops id maxLength act =
      c.account id + c.opens id act := fun id => account_step single.sound act
  have table : ∀ id, (c.step maxLength act).isAsync id =
      (decide (0 < c.opens id act) ||
        (c.isAsync id && decide (id ∉ c.ends act) && decide (act ≠ .cancel id))) := fun id =>
    isAsync_step single.sound act
  obtain ⟨nextId, processed, _, cancelled⟩ := step_history maxLength c act
  have grows : c.nextId ≤ (c.step maxLength act).nextId := by omega
  have old : ∀ id, id ≤ c.nextId → c.opens id act = 0 := by
    intro id known
    rcases opens_cases c id act with closed | ⟨_, new, _⟩
    · exact closed
    · omega
  constructor
  case sound => exact sound_step maxLength single.sound act
  case fresh =>
    intro id far
    have before := single.fresh id (by omega)
    have := balance id
    rcases opens_cases c id act with closed | ⟨_, new, takes, _⟩
    · omega
    · rw [takes, Bool.toNat_true] at nextId
      omega
  case once =>
    intro id
    have := balance id
    have := single.once id
    rcases opens_cases c id act with closed | ⟨_, new, _⟩
    · omega
    · have := single.fresh id (by omega)
      omega
  case moved =>
    intro id there
    rw [processed, List.mem_append]
    by_cases before : 0 < c.due id + c.done id
    · exact .inl (single.moved id before)
    · right
      apply Classical.byContradiction
      intro unended
      have balanced := balance id
      have shown := table id
      unfold Conn.account at balanced
      by_cases cancels : act = .cancel id
      · -- the entry is dropped, so nothing can have moved
        have dropped : c.drops id maxLength act = (c.isAsync id).toNat := by
          simp [cancels, Conn.drops]
        have closed : c.opens id act = 0 := by simp [cancels, Conn.opens, Act.opensAsync]
        omega
      · rcases opens_cases c id act with closed | ⟨opens, new, _⟩
        · have stays : (c.step maxLength act).isAsync id = c.isAsync id := by
            simpa [closed, unended, cancels] using shown
          rw [stays] at balanced
          omega
        · have entered : (c.step maxLength act).isAsync id = true := by
            simpa [opens] using shown
          have nothing := single.fresh id (by omega)
          unfold Conn.account at nothing
          rw [entered, Bool.toNat_true] at balanced
          omega
  case ended =>
    intro id member
    rw [processed, List.mem_append] at member
    rcases member with earlier | now
    · have before := single.ended id earlier
      refine ⟨by omega, ?_⟩
      rw [table id, old id before.1, before.2]
      rfl
    · have known := le_of_isAsync single.sound.bounded (ends_isAsync now)
      refine ⟨by omega, ?_⟩
      rw [table id, old id known]
      simp [now]
  case cancelled =>
    intro id member
    have dropped : id ≤ c.nextId → c.account id = c.drops id maxLength act →
        id ≤ (c.step maxLength act).nextId ∧ (c.step maxLength act).account id = 0 := by
      intro known gone
      have := balance id
      have := old id known
      exact ⟨by omega, by omega⟩
    have earlier : id ∈ c.cancelled →
        id ≤ (c.step maxLength act).nextId ∧ (c.step maxLength act).account id = 0 := by
      intro member
      have before := single.cancelled id member
      have := balance id
      have := old id before.1
      exact ⟨by omega, by omega⟩
    rcases cancelled with same | ⟨key, cancels, known, early, grown⟩
    · exact earlier (same ▸ member)
    · rw [grown, List.mem_append, List.mem_singleton] at member
      rcases member with before | rfl
      · exact earlier before
      · apply dropped known
        have unmoved : c.due id + c.done id = 0 := by
          apply Nat.eq_zero_of_not_pos
          intro moved
          exact early (single.moved id moved)
        simp only [Conn.drops, cancels, if_true, Conn.account]
        omega

abbrev AnyAct : Conn → Act → Prop := fun _ _ => True

theorem single_reached {maxLength : Nat} {permitted : Conn → Act → Prop} {c : Conn}
    (reached : Conn.Reached maxLength permitted c) : Single c :=
  reached.invariant single_start fun _ act single _ => single_step maxLength single act

/-- A reply that nobody waits for is dropped. -/
theorem unawaited_reply {maxLength : Nat} {c : Conn} {m : Message}
    (unawaited : ∀ id entry, m.repliesTo = some id → c.pending id = some entry →
      ∃ reply, entry = .replied reply) : c.step maxLength (.message m) = c := by
  have unfinished : ∀ id, c.finalFor m id = false := by
    intro id
    unfold Conn.finalFor
    cases found : c.pending id with
    | none => simp
    | some entry =>
        by_cases named : m.repliesTo = some id
        · obtain ⟨reply, rfl⟩ := unawaited id entry named found
          simp
        · simp [named]
  have nothing : c.ends (.message m) = [] := by
    simp [Conn.ends, unfinished]
  have same : c.record [] = c := by simp [Conn.record]
  rw [Conn.step, nothing, same]
  show (dispatch maxLength m).after c = c
  unfold dispatch
  cases named : m.repliesTo with
  | none => rfl
  | some id =>
      simp only [dispatchReply, after_fetch_bind]
      cases found : c.pending id with
      | none => rfl
      | some entry =>
          obtain ⟨reply, rfl⟩ := unawaited id entry named found
          rfl

/-- In every run, a completion is run at most once, and never for a request cancelled in time; a
reply nobody waits for changes nothing; and a synchronous request waits or has one result, which
concerns it. -/
theorem at_most_one_completion {maxLength : Nat} {c : Conn}
    (reached : Conn.Reached maxLength AnyAct c) :
    (∀ id, c.calls.countP (·.1 == id) ≤ 1) ∧
    (∀ id ∈ c.cancelled, ∀ reply, (id, reply) ∉ c.calls) ∧
    (∀ m : Message, (∀ id entry, m.repliesTo = some id → c.pending id = some entry →
        ∃ reply, entry = .replied reply) → c.step maxLength (.message m) = c) ∧
    (∀ id ∈ c.asked,
      c.frames.count (.waiting id) = 1 ∧ c.results.countP (·.1 == id) = 0 ∨
      c.frames.count (.waiting id) = 0 ∧ c.results.countP (·.1 == id) = 1) ∧
    ∀ id reply, (id, .reply (some reply)) ∈ c.results → reply.Concerns id := by
  have single := single_reached reached
  refine ⟨?_, ?_, fun m => unawaited_reply, ?_, single.sound.given⟩
  · intro id
    have once := single.once id
    unfold Conn.account Conn.done at once
    omega
  · intro id member reply called
    have none := (single.cancelled id member).2
    have some : 0 < c.done id := List.countP_pos_iff.mpr ⟨_, called, by simp⟩
    unfold Conn.account at none
    omega
  · intro id member
    have answers := single.sound.answers id
    rw [List.count_eq_one_of_mem single.sound.distinct member] at answers
    omega

/-- A request is answered twice and timed out, another is cancelled and answered, and a third
one is waited for while its process exits. -/
def contended : List Act :=
  [.requestAsync true true, .requestStream false true, .cancel 2, .message { id := some 1 },
    .message { id := some 1 }, .timer 0, .timer 0, .message { id := some 2 }, .finish false,
    .request true, .die, .sentinel "exited", .awake false]

theorem at_most_one_completion_contended :
    (contended.foldl (Conn.step 10000) {}).calls = [(1, .message { id := some 1 })] ∧
    (contended.foldl (Conn.step 10000) {}).results = [(3, .reply (some (.transport "exited")))] ∧
    (contended.foldl (Conn.step 10000) {}).calls.countP (·.1 == 1) ≤ 1 := by
  have reached : Conn.Reached 10000 AnyAct (contended.foldl (Conn.step 10000) {}) := by
    apply Reaches.of_along .refl
    exact ⟨trivial, trivial, trivial, trivial, trivial, trivial, trivial, trivial, trivial, trivial,
      trivial, trivial, trivial, trivial⟩
  exact ⟨by decide, by decide, (at_most_one_completion reached).1 1⟩

end EmacsRelay.RelayCore

import EmacsRelay.Core.Moves

set_option autoImplicit false

/- `relay-conflict--rpc-async` of `lisp/relay-conflict.el` over the connections of one authority:
the ways in which the callback of a call is reached. -/
namespace EmacsRelay.RelayConflict

open RelayCore Routine

/-- Calls of `relay-conflict--rpc-async`, numbered in order, with the connections they use.
`failures` are the timers of calls that could not be prepared; `waiters` and `requests` tell whose
functions a waiter and an entry of a pending table are. From `calls` on it records what happened:
the callbacks called, and the connections whose process was found dead by its sentinel. -/
structure Rpcs where
  client : Client := {}
  made : Nat := 0
  failures : List Nat := []
  waiters : Nat → Option Nat := fun _ => none
  requests : Nat → Nat → Option Nat := fun _ _ => none
  calls : List Nat := []
  reported : List Nat := []

inductive RpcEvent where
  /-- `relay-conflict--rpc-async` is called. -/
  | rpc (prepares : Bool) (launch : Launch)
  /-- The timer of a call that could not be prepared goes off. -/
  | failure (index : Nat)
  /-- A timer calls a waiter's function; `sends` tells whether a request can be sent by it. -/
  | notice (index : Nat) (sends : Bool)
  /-- Whatever else happens to the connections. -/
  | client (event : ClientEvent)

namespace Rpcs

variable (maxLength : Nat)

/-- The callback of call `rpc` is called. -/
@[simps] def callBack (s : Rpcs) (rpc : Nat) : Rpcs := { s with calls := s.calls ++ [rpc] }

/-- The function given to `relay-connect-async` for a connection that is ready: a request with the
callback wrapped, or the callback at once if the request cannot be sent. -/
def onReady (s : Rpcs) (rpc k : Nat) (sends : Bool) : Rpcs :=
  let id := (s.client.attempts k).conn.nextId + 1
  let s :=
    { s with
      client := s.client.deliver maxLength k (.requestAsync true sends) {}
      requests := fun i key => if i = k ∧ key = id then some rpc else s.requests i key }
  if sends then s else s.callBack rpc

/-- The requests of a connection whose callbacks an event runs. -/
def ran (before after : Conn) : List Nat :=
  (after.calls.drop before.calls.length).map Prod.fst

/-- An event of the requests of a connection. Nobody cancels the request of a call, and a process
whose sentinel has found it dead is not heard of again. -/
def act (s : Rpcs) (k : Nat) (act : Act) (launch : Launch) : Rpcs :=
  let client := s.client.step maxLength (.act k act launch)
  let ran := ran (s.client.attempts k).conn (client.attempts k).conn
  let heard := { s with client := client, calls := s.calls ++ ran.filterMap (s.requests k) }
  match act with
  | .cancel id => if (s.requests k id).isSome then s else heard
  | .message _ => if k ∈ s.reported then s else heard
  | .sentinel _ =>
      if k ∈ s.reported then s
      else if (s.client.attempts k).conn.live then heard
      else { heard with reported := k :: s.reported }
  | _ => heard

def step (s : Rpcs) : RpcEvent → Rpcs
  | .rpc false _ => { s with made := s.made + 1, failures := s.failures ++ [s.made] }
  | .rpc true launch =>
      { s with
        made := s.made + 1
        waiters := fun w => if w = s.client.nextWaiter then some s.made else s.waiters w
        client := s.client.step maxLength (.connectAsync launch) }
  | .failure index =>
      match s.failures[index]? with
      | none => s
      | some rpc => { s with failures := s.failures.eraseIdx index }.callBack rpc
  | .notice index sends =>
      match s.client.notices[index]? with
      | none => s
      | some notice =>
          let told := { s with client := s.client.step maxLength (.notice index) }
          match s.waiters notice.waiter with
          | none => told
          | some rpc =>
              if notice.ready then told.onReady maxLength rpc notice.conn sends
              else told.callBack rpc
  | .client (.act k act launch) => s.act maxLength k act launch
  | .client (.notice _) => s
  | .client event => { s with client := s.client.step maxLength event }

/-- States reached by events that are all permitted where they happen. -/
abbrev Reached (permitted : Rpcs → RpcEvent → Prop) (s : Rpcs) : Prop :=
  Reaches (step maxLength) permitted {} s

/-- No timer is left, and no drain is under way. -/
structure Quiet (s : Rpcs) : Prop where
  failures : s.failures = []
  notices : s.client.notices = []
  settled : ∀ k < s.client.created, Settled (s.client.attempts k).conn

/-- The callback of every call has been called once, when all timers have run. -/
def CalledOnce (s : Rpcs) : Prop := s.Quiet → ∀ rpc < s.made, s.calls.count rpc = 1

/-- No waiter and no completion is lost, and the request of a call is sent unless its connection
has been found dead. -/
def Heeded (s : Rpcs) : RpcEvent → Prop
  | .rpc prepares launch => prepares = true → Attended maxLength s.client (.connectAsync launch)
  | .failure _ => True
  | .notice index sends => ∀ notice, s.client.notices[index]? = some notice →
      (s.waiters notice.waiter).isSome = true → notice.ready = true →
        sends = true ∨ notice.conn ∈ s.reported
  | .client event => Attended maxLength s.client event ∧
      ∀ k act launch, event = .act k act launch → ∀ id, (s.requests k id).isSome = true →
        (s.client.attempts k).conn.drops id maxLength act = 0

end Rpcs

section Requests

variable {maxLength : Nat} {c c' : Conn} {id : Nat}

/-- A request whose callback is run once, or is still to be. -/
structure Asked (id : Nat) (c : Conn) : Prop where
  known : id ≤ c.nextId
  account : c.account id = 1
  timed : Timed id c

/-- An entry of the table that is left when its connection is heard of no more. -/
structure Unanswered (id : Nat) (c : Conn) : Prop where
  known : id ≤ c.nextId
  untimed : .timeout id ∉ c.timers
  due : c.due id = 0

theorem Asked.congr (asked : Asked id c) (same : Resembles c' c) : Asked id c' := by
  obtain ⟨live, rfl⟩ := same
  exact ⟨asked.known, asked.account, asked.timed⟩

theorem Unanswered.congr (unanswered : Unanswered id c) (same : Resembles c' c) :
    Unanswered id c' := by
  obtain ⟨live, rfl⟩ := same
  exact ⟨unanswered.known, unanswered.untimed, unanswered.due⟩

theorem Asked.step (asked : Asked id c) (single : Single c) {act : Act}
    (kept : c.drops id maxLength act = 0) : Asked id (c.step maxLength act) where
  known := by
    have grows := (step_history maxLength c act).1
    have before := asked.known
    omega
  account := by
    have balance : (c.step maxLength act).account id + c.drops id maxLength act =
        c.account id + c.opens id act := account_step single.sound act
    have one := asked.account
    rw [kept, unopened act asked.known] at balance
    omega
  timed := timed_step single asked.known asked.timed act

/-- Nothing is left that could answer the entry. -/
theorem Unanswered.unended (unanswered : Unanswered id c) {act : Act}
    (unheard : ∀ m, act ≠ .message m) (unreported : ∀ error, act ≠ .sentinel error) :
    id ∉ c.ends act := by
  intro ended
  cases act with
  | message m => exact unheard m rfl
  | sentinel error => exact unreported error rfl
  | timer index =>
      simp only [Conn.ends] at ended
      split at ended
      · rename_i key found
        split at ended
        · rw [List.mem_singleton.mp ended] at unanswered
          exact unanswered.untimed (List.mem_of_getElem? found)
        · cases ended
      · cases ended
  | _ => cases ended

theorem Unanswered.step (unanswered : Unanswered id c) (single : Single c) {act : Act}
    (unheard : ∀ m, act ≠ .message m) (unreported : ∀ error, act ≠ .sentinel error)
    (kept : act ≠ .cancel id) :
    Unanswered id (c.step maxLength act) ∧ (c.step maxLength act).done id = c.done id := by
  have table : (c.step maxLength act).isAsync id = c.isAsync id := by
    have formula : (c.step maxLength act).isAsync id = _ := isAsync_step single.sound act
    rw [unopened act unanswered.known] at formula
    simpa [unanswered.unended unheard unreported, kept] using formula
  have balance : (c.step maxLength act).account id + c.drops id maxLength act =
      c.account id + c.opens id act := account_step single.sound act
  have grows : c.done id ≤ (c.step maxLength act).done id := by
    rcases (step_follows maxLength c act).calls with same | ⟨call, new⟩
    · exact Nat.le_of_eq (by rw [Conn.done, Conn.done, same])
    · rw [Conn.done, Conn.done, new, List.countP_append]
      omega
  have nothing := unanswered.due
  rw [unopened act unanswered.known, Conn.account, Conn.account, table] at balance
  refine ⟨⟨?_, ?_, by omega⟩, by omega⟩
  · have nextId := (step_history maxLength c act).1
    have known := unanswered.known
    omega
  · intro set
    rcases (step_timers maxLength c act id).2 set with earlier | ⟨-, new⟩
    · exact unanswered.untimed earlier
    · have known := unanswered.known
      omega

/-- Which callbacks were run is told by the record of the calls. -/
theorem done_ran {act : Act} (same : Resembles c' (c.step maxLength act)) (id : Nat) :
    c'.done id = c.done id + (Rpcs.ran c c').count id := by
  obtain ⟨live, rfl⟩ := same
  rcases (step_follows maxLength c act).calls with same | ⟨call, new⟩
  · simp [Rpcs.ran, Conn.done, same]
  · simp [Rpcs.ran, Conn.done, new, List.countP_append, List.count_singleton, List.countP_singleton]

theorem count_filterMap {f : Nat → Option Nat} {keys : List Nat} {key value : Nat}
    (found : f key = some value) (only : ∀ other ∈ keys, f other = some value → other = key) :
    (keys.filterMap f).count value = keys.count key := by
  rw [List.count_filterMap, List.count]
  apply List.countP_congr
  intro other member
  constructor
  · intro same
    exact beq_iff_eq.mpr (only other member (beq_iff_eq.mp same))
  · intro same
    rw [beq_iff_eq.mp same, found]
    exact beq_self_eq_true _

theorem ran_still (same : Resembles c' c) : Rpcs.ran c c' = [] := by
  obtain ⟨live, rfl⟩ := same
  simp [Rpcs.ran]

end Requests

/-- How far a call has come. -/
inductive Stage where
  | unprepared
  | waiting (waiter : Nat)
  | told
  | asked (k id : Nat)
  | called
deriving DecidableEq

namespace Rpcs

/-- What holds of a call at a stage: its callback has not been called, or has been once. -/
def Stands (s : Rpcs) (rpc : Nat) : Stage → Prop
  | .unprepared => s.failures.count rpc = 1 ∧ s.calls.count rpc = 0
  | .waiting w => s.waiters w = some rpc ∧ w < s.client.nextWaiter ∧
      s.client.notified.countP (·.waiter == w) = 0 ∧ s.calls.count rpc = 0
  | .told => s.calls.count rpc = 0
  | .asked k id => s.requests k id = some rpc ∧ k < s.client.created ∧
      Asked id (s.client.attempts k).conn ∧
      s.calls.count rpc = (s.client.attempts k).conn.done id
  | .called => s.calls.count rpc = 1

/-- Each function that belongs to a call can be run at one stage of it only. -/
structure Staged (s : Rpcs) (stage : Nat → Stage) : Prop where
  attentive : Attentive s.client
  punctual : Punctual s.client
  failing : ∀ rpc ∈ s.failures, rpc < s.made ∧ stage rpc = .unprepared
  waiters : ∀ w rpc, s.waiters w = some rpc → rpc < s.made ∧ w < s.client.nextWaiter ∧
    (stage rpc = .waiting w ∨ 0 < s.client.notified.countP (·.waiter == w))
  requests : ∀ k id rpc, s.requests k id = some rpc → rpc < s.made ∧ k < s.client.created ∧
    (stage rpc = .asked k id ∧ id ≤ (s.client.attempts k).conn.nextId ∨
      k ∈ s.reported ∧ Unanswered id (s.client.attempts k).conn)
  calls : ∀ rpc ∈ s.calls, rpc < s.made
  stands : ∀ rpc < s.made, s.Stands rpc (stage rpc)

section Stages

variable {maxLength : Nat} {s : Rpcs} {stage stage' : Nat → Stage}

/-- A waiter whose function is still to be called by a timer has not been told. -/
theorem Staged.untold (staged : Staged s stage) {notice : Notice}
    (noticed : notice ∈ s.client.notices) :
    s.client.notified.countP (·.waiter == notice.waiter) = 0 := by
  have owed := staged.attentive.owed notice.waiter
  have there : 0 < s.client.notices.countP (·.waiter == notice.waiter) :=
    List.countP_pos_iff.mpr ⟨notice, noticed, by simp⟩
  simp only [Client.owed] at owed
  split at owed
  · omega
  · omega

theorem Staged.waiting (staged : Staged s stage) {notice : Notice} {rpc : Nat}
    (noticed : notice ∈ s.client.notices) (mine : s.waiters notice.waiter = some rpc) :
    rpc < s.made ∧ stage rpc = .waiting notice.waiter := by
  obtain ⟨made, -, still⟩ := staged.waiters _ rpc mine
  have untold := staged.untold noticed
  rcases still with waits | told
  · exact ⟨made, waits⟩
  · omega

/-- Connection `k` moves, and timers tell waiters. -/
structure Motion (maxLength : Nat) (s : Rpcs) (stage stage' : Nat → Stage) (c' : Client)
    (acts : Nat → Option Act) (notices : List Notice) (k : Nat) : Prop where
  moves : Moves maxLength s.client c' acts notices
  only : ∀ i, i ≠ k → acts i = none
  kept : ∀ act, acts k = some act → ∀ id rpc, s.requests k id = some rpc →
    (s.client.attempts k).conn.drops id maxLength act = 0 ∧ act ≠ .cancel id ∧
    (k ∈ s.reported → (∀ m, act ≠ .message m) ∧ ∀ error, act ≠ .sentinel error)
  noticed : ∀ notice ∈ notices, notice ∈ s.client.notices
  told : ∀ notice ∈ notices, ∀ rpc, s.waiters notice.waiter = some rpc → stage' rpc = .told
  untold : ∀ rpc, stage' rpc = stage rpc ∨ ∃ notice ∈ notices, s.waiters notice.waiter = some rpc

/-- The calls after the callbacks that the move of connection `k` runs. -/
def callsAfter (s : Rpcs) (c' : Client) (k : Nat) : List Nat :=
  s.calls ++ (Rpcs.ran (s.client.attempts k).conn (c'.attempts k).conn).filterMap (s.requests k)

section Moving

variable {c' : Client} {acts : Nat → Option Act} {notices : List Notice} {k rpc : Nat}

theorem Motion.acts_some (motion : Motion maxLength s stage stage' c' acts notices k) {i : Nat}
    {act : Act} (acting : acts i = some act) : i = k := by
  apply Classical.byContradiction
  intro other
  rw [motion.only i other] at acting
  cases acting

/-- A callback that an event of connection `k` runs belongs to a call whose request is there. -/
theorem Staged.ran (staged : Staged s stage)
    (motion : Motion maxLength s stage stage' c' acts notices k) {id : Nat}
    (mine : s.requests k id = some rpc)
    (run : id ∈ Rpcs.ran (s.client.attempts k).conn (c'.attempts k).conn) :
    stage rpc = .asked k id := by
  obtain ⟨-, known, asked | ⟨reported, unanswered⟩⟩ := staged.requests k id rpc mine
  · exact asked.1
  · have same := motion.moves.conns k known
    cases acting : acts k with
    | none =>
        simp only [acting, Option.elim_none] at same
        rw [ran_still same] at run
        cases run
    | some act =>
        simp only [acting, Option.elim_some] at same
        obtain ⟨-, other, unheard⟩ := motion.kept act acting id rpc mine
        have done : ((s.client.attempts k).conn.step maxLength act).done id =
            (s.client.attempts k).conn.done id :=
          (unanswered.step (staged.attentive.single k) (unheard reported).1 (unheard reported).2
            other).2
        have counted := done_ran same id
        have moved : (c'.attempts k).conn.done id =
            ((s.client.attempts k).conn.step maxLength act).done id := by
          obtain ⟨live, conn⟩ := same
          rw [conn]
          rfl
        have member := List.count_pos_iff.mpr run
        omega

/-- Only calls that wait are told. -/
theorem Staged.unmoved (staged : Staged s stage)
    (motion : Motion maxLength s stage stage' c' acts notices k)
    (settled : ∀ w, stage rpc ≠ .waiting w) : stage' rpc = stage rpc := by
  rcases motion.untold rpc with same | ⟨notice, member, waits⟩
  · exact same
  · exact absurd (staged.waiting (motion.noticed notice member) waits).2 (settled _)

/-- Only calls with a request on connection `k` are called back. -/
theorem Staged.calls_move (staged : Staged s stage)
    (motion : Motion maxLength s stage stage' c' acts notices k)
    (elsewhere : ∀ id, stage rpc ≠ .asked k id) :
    (s.callsAfter c' k).count rpc = s.calls.count rpc := by
  have absent : rpc ∉ (Rpcs.ran (s.client.attempts k).conn (c'.attempts k).conn).filterMap
      (s.requests k) := by
    intro member
    obtain ⟨id, run, requested⟩ := List.mem_filterMap.mp member
    exact elsewhere id (staged.ran motion requested run)
  rw [callsAfter, List.count_append, List.count_eq_zero.mpr absent, Nat.add_zero]

theorem Staged.waiters_move (staged : Staged s stage)
    (motion : Motion maxLength s stage stage' c' acts notices k) {w : Nat}
    (waits : s.waiters w = some rpc) : rpc < s.made ∧ w < c'.nextWaiter ∧
      (stage' rpc = .waiting w ∨ 0 < c'.notified.countP (·.waiter == w)) := by
  obtain ⟨made, known, still⟩ := staged.waiters w rpc waits
  refine ⟨made, Nat.lt_of_lt_of_le known motion.moves.nextWaiter, ?_⟩
  rw [motion.moves.notified, List.countP_append]
  rcases still with waiting | before
  · rcases motion.untold rpc with unmoved | ⟨notice, member, told⟩
    · exact .inl (unmoved.trans waiting)
    · have here := (staged.waiting (motion.noticed notice member) told).2
      rw [waiting] at here
      have counted : 0 < notices.countP (·.waiter == w) :=
        List.countP_pos_iff.mpr ⟨notice, member, by simp [Stage.waiting.inj here]⟩
      right
      omega
  · right
    omega

theorem Staged.requests_move (staged : Staged s stage)
    (motion : Motion maxLength s stage stage' c' acts notices k) {reported : List Nat}
    (grows : ∀ i ∈ s.reported, i ∈ reported) {i id : Nat} (requested : s.requests i id = some rpc) :
    rpc < s.made ∧ i < c'.created ∧
      (stage' rpc = .asked i id ∧ id ≤ (c'.attempts i).conn.nextId ∨
        i ∈ reported ∧ Unanswered id (c'.attempts i).conn) := by
  obtain ⟨made, known, state⟩ := staged.requests i id rpc requested
  refine ⟨made, Nat.lt_of_lt_of_le known motion.moves.created, ?_⟩
  have conn := motion.moves.conns i known
  rcases state with ⟨asked, old⟩ | ⟨found, unanswered⟩
  · left
    refine ⟨(staged.unmoved motion (by simp [asked])).trans asked, ?_⟩
    obtain ⟨live, conn⟩ := conn
    rw [conn]
    cases acts i with
    | none => exact old
    | some act =>
        have history := (step_history maxLength (s.client.attempts i).conn act).1
        show id ≤ ((s.client.attempts i).conn.step maxLength act).nextId
        omega
  · right
    refine ⟨grows i found, ?_⟩
    cases acting : acts i with
    | none =>
        rw [acting] at conn
        exact unanswered.congr conn
    | some act =>
        obtain rfl := motion.acts_some acting
        obtain ⟨-, other, unheard⟩ := motion.kept act acting id rpc requested
        rw [acting] at conn
        exact (unanswered.step (staged.attentive.single i) (unheard found).1 (unheard found).2
          other).1.congr conn

/-- A call that waits and is not told now goes on waiting. -/
theorem Staged.waiting_move (staged : Staged s stage)
    (motion : Motion maxLength s stage stage' c' acts notices k) {w : Nat}
    (unmoved : stage' rpc = stage rpc) (there : stage rpc = .waiting w)
    (stands : s.Stands rpc (.waiting w)) :
    s.waiters w = some rpc ∧ w < c'.nextWaiter ∧ c'.notified.countP (·.waiter == w) = 0 ∧
      (s.callsAfter c' k).count rpc = 0 := by
  obtain ⟨waits, known, untold, none⟩ := stands
  refine ⟨waits, Nat.lt_of_lt_of_le known motion.moves.nextWaiter, ?_, ?_⟩
  · rw [motion.moves.notified, List.countP_append, untold, Nat.zero_add, List.countP_eq_zero]
    intro notice member same
    have here := motion.told notice member rpc (by rw [beq_iff_eq.mp same, waits])
    rw [here, there] at unmoved
    cases unmoved
  · rw [← none]
    exact staged.calls_move motion (by simp [there])

/-- A call whose request is there has been called back if its request has been answered. -/
theorem Staged.asked_move (staged : Staged s stage)
    (motion : Motion maxLength s stage stage' c' acts notices k) {i id : Nat}
    (there : stage rpc = .asked i id) (stands : s.Stands rpc (.asked i id)) :
    s.requests i id = some rpc ∧ i < c'.created ∧ Asked id (c'.attempts i).conn ∧
      (s.callsAfter c' k).count rpc = (c'.attempts i).conn.done id := by
  obtain ⟨requested, known, asked, counted⟩ := stands
  have conn := motion.moves.conns i known
  refine ⟨requested, Nat.lt_of_lt_of_le known motion.moves.created, ?_, ?_⟩
  · cases acting : acts i with
    | none =>
        rw [acting] at conn
        exact asked.congr conn
    | some act =>
        obtain rfl := motion.acts_some acting
        rw [acting] at conn
        have nothing := (motion.kept act acting id rpc requested).1
        exact (asked.step (staged.attentive.single i) nothing).congr conn
  · by_cases here : i = k
    · subst here
      have called : ((Rpcs.ran (s.client.attempts i).conn (c'.attempts i).conn).filterMap
          (s.requests i)).count rpc =
            (Rpcs.ran (s.client.attempts i).conn (c'.attempts i).conn).count id := by
        apply count_filterMap requested
        intro key run other
        have both := staged.ran motion other run
        rw [there] at both
        exact (Stage.asked.inj both).2.symm
      have done : (c'.attempts i).conn.done id = (s.client.attempts i).conn.done id +
          (Rpcs.ran (s.client.attempts i).conn (c'.attempts i).conn).count id := by
        cases acting : acts i with
        | none =>
            simp only [acting, Option.elim_none] at conn
            rw [ran_still conn]
            obtain ⟨live, same⟩ := conn
            rw [same]
            rfl
        | some act =>
            rw [acting] at conn
            exact done_ran conn id
      unfold callsAfter
      rw [List.count_append, called, counted, done]
    · rw [staged.calls_move motion (by simp [there, here]), counted]
      rw [motion.only i here] at conn
      obtain ⟨live, same⟩ := conn
      rw [same]
      rfl

theorem Staged.stands_move (staged : Staged s stage)
    (motion : Motion maxLength s stage stage' c' acts notices k) (made : rpc < s.made)
    (reported : List Nat) :
    Stands { s with client := c', calls := s.callsAfter c' k, reported := reported } rpc
      (stage' rpc) := by
  have stands := staged.stands rpc made
  rcases motion.untold rpc with unmoved | ⟨notice, member, waits⟩
  · rw [unmoved]
    cases there : stage rpc with
    | unprepared =>
        rw [there] at stands
        exact ⟨stands.1, (staged.calls_move motion (by simp [there])).trans stands.2⟩
    | waiting w =>
        rw [there] at stands
        exact staged.waiting_move motion unmoved there stands
    | told =>
        rw [there] at stands
        exact (staged.calls_move motion (by simp [there])).trans stands
    | called =>
        rw [there] at stands
        exact (staged.calls_move motion (by simp [there])).trans stands
    | asked i id =>
        rw [there] at stands
        exact staged.asked_move motion there stands
  · -- its waiter is told now, so that its callback has not been called
    rw [motion.told notice member rpc waits]
    have waiting := (staged.waiting (motion.noticed notice member) waits).2
    rw [waiting] at stands
    exact (staged.calls_move motion (by simp [waiting])).trans stands.2.2.2

end Moving

/-- The connections move, timers tell waiters, and callbacks are run. -/
theorem Staged.moves (staged : Staged s stage) {c' : Client} {acts : Nat → Option Act}
    {notices : List Notice} {k : Nat} (motion : Motion maxLength s stage stage' c' acts notices k)
    (attentive : Attentive c') (punctual : Punctual c') {reported : List Nat}
    (grows : ∀ i ∈ s.reported, i ∈ reported) :
    Staged { s with client := c', calls := s.callsAfter c' k, reported := reported } stage' where
  attentive := attentive
  punctual := punctual
  failing rpc fails := by
    obtain ⟨made, unprepared⟩ := staged.failing rpc fails
    exact ⟨made, (staged.unmoved motion (by simp [unprepared])).trans unprepared⟩
  waiters _ _ waits := staged.waiters_move motion waits
  requests _ _ _ requested := staged.requests_move motion grows requested
  calls rpc member := by
    rcases List.mem_append.mp member with earlier | new
    · exact staged.calls rpc earlier
    · obtain ⟨id, -, requested⟩ := List.mem_filterMap.mp new
      exact (staged.requests k id rpc requested).1
  stands _ made := staged.stands_move motion made reported

/-- One call goes on to another stage, and the others stay where they are. -/
theorem Staged.update (staged : Staged s stage) {rpc : Nat} {next : Stage} (made : rpc < s.made)
    (idle : stage rpc = .unprepared ∨ stage rpc = .told) {failures calls : List Nat}
    {requests : Nat → Nat → Option Nat}
    (failing : ∀ other ∈ failures, other ∈ s.failures ∧ other ≠ rpc)
    (requested : ∀ k id other, requests k id = some other → s.requests k id = some other ∨
      other = rpc ∧ k < s.client.created ∧
        (next = .asked k id ∧ id ≤ (s.client.attempts k).conn.nextId ∨
          k ∈ s.reported ∧ Unanswered id (s.client.attempts k).conn))
    (called : ∀ other ∈ calls, other ∈ s.calls ∨ other = rpc)
    (stands : Stands { s with failures := failures, requests := requests, calls := calls } rpc next)
    (frame : ∀ other, other ≠ rpc → failures.count other = s.failures.count other ∧
      calls.count other = s.calls.count other ∧
      ∀ k id, s.requests k id = some other → requests k id = some other) :
    Staged { s with failures := failures, requests := requests, calls := calls }
      (Function.update stage rpc next) := by
  have others : ∀ other, other ≠ rpc → Function.update stage rpc next other = stage other :=
    fun other apart => Function.update_of_ne apart _ _
  have moved : ∀ other, stage other ≠ .unprepared → stage other ≠ .told → other ≠ rpc := by
    intro other prepared elsewhere same
    rw [same] at prepared elsewhere
    exact idle.elim prepared elsewhere
  constructor
  · exact staged.attentive
  · exact staged.punctual
  · intro other fails
    obtain ⟨before, apart⟩ := failing other fails
    obtain ⟨known, unprepared⟩ := staged.failing other before
    exact ⟨known, by rw [others other apart, unprepared]⟩
  · intro w other waits
    obtain ⟨known, before, still⟩ := staged.waiters w other waits
    refine ⟨known, before, ?_⟩
    rcases still with waiting | notified
    · left
      rw [others other (moved other (by simp [waiting]) (by simp [waiting])), waiting]
    · exact .inr notified
  · intro k id other there
    rcases requested k id other there with before | ⟨rfl, known, state⟩
    · obtain ⟨known, created, still⟩ := staged.requests k id other before
      refine ⟨known, created, ?_⟩
      rcases still with ⟨asked, old⟩ | unanswered
      · left
        exact ⟨by rw [others other (moved other (by simp [asked]) (by simp [asked])), asked], old⟩
      · exact .inr unanswered
    · rw [Function.update_self]
      exact ⟨made, known, state⟩
  · intro other member
    rcases called other member with earlier | here
    · exact staged.calls other earlier
    · rw [here]
      exact made
  · intro other known
    by_cases here : other = rpc
    · rw [here, Function.update_self]
      exact stands
    · have before := staged.stands other known
      obtain ⟨failures, calls, table⟩ := frame other here
      rw [others other here]
      cases there : stage other with
      | unprepared =>
          rw [there] at before
          exact ⟨failures.trans before.1, calls.trans before.2⟩
      | waiting w =>
          rw [there] at before
          exact ⟨before.1, before.2.1, before.2.2.1, calls.trans before.2.2.2⟩
      | told =>
          rw [there] at before
          exact calls.trans before
      | asked k id =>
          rw [there] at before
          exact ⟨table k id before.1, before.2.1, before.2.2.1, calls.trans before.2.2.2⟩
      | called =>
          rw [there] at before
          exact calls.trans before

theorem Staged.uncalled (staged : Staged s stage) {rpc : Nat} (made : rpc < s.made)
    (told : stage rpc = .told) : s.calls.count rpc = 0 := by
  have stands := staged.stands rpc made
  rw [told] at stands
  exact stands

theorem Staged.prepared (staged : Staged s stage) {rpc : Nat} (told : stage rpc = .told) :
    ∀ other ∈ s.failures, other ∈ s.failures ∧ other ≠ rpc := by
  intro other fails
  refine ⟨fails, fun same => ?_⟩
  have unprepared := (staged.failing other fails).2
  rw [same, told] at unprepared
  cases unprepared

/-- A call that a timer told is called back. -/
theorem Staged.callBack (staged : Staged s stage) {rpc : Nat} (made : rpc < s.made)
    (told : stage rpc = .told) :
    Staged (s.callBack rpc) (Function.update stage rpc .called) := by
  apply staged.update made (.inr told) (staged.prepared told) fun _ _ _ => .inl
  · intro other member
    exact (List.mem_append.mp member).imp_right List.mem_singleton.mp
  · show (s.calls ++ [rpc]).count rpc = 1
    rw [List.count_append, staged.uncalled made told, List.count_singleton_self]
  · intro other apart
    have absent : [rpc].count other = 0 := List.count_eq_zero.mpr (by simpa using apart)
    refine ⟨rfl, ?_, fun _ _ => id⟩
    rw [List.count_append, absent, Nat.add_zero]

/-- A callback is put in the table for the request of a call that a timer told. -/
theorem Staged.request (staged : Staged s stage) {rpc k id : Nat} (made : rpc < s.made)
    (told : stage rpc = .told) (unused : s.requests k id = none) (known : k < s.client.created)
    (next : Stage)
    (state : next = .asked k id ∧ Asked id (s.client.attempts k).conn ∧
        (s.client.attempts k).conn.done id = 0 ∨
      next = .told ∧ k ∈ s.reported ∧ Unanswered id (s.client.attempts k).conn) :
    Staged { s with requests := fun i key => if i = k ∧ key = id then some rpc else s.requests i key }
      (Function.update stage rpc next) := by
  have none := staged.uncalled made told
  apply staged.update made (.inr told) (staged.prepared told)
  · intro i key other there
    split at there
    · rename_i here
      rw [here.1, here.2]
      refine .inr ⟨(Option.some.inj there).symm, known, ?_⟩
      rcases state with ⟨asked, request, -⟩ | ⟨-, dead⟩
      · exact .inl ⟨asked, request.known⟩
      · exact .inr dead
    · exact .inl there
  · exact fun _ => .inl
  · rcases state with ⟨asked, request, fresh⟩ | ⟨still, -⟩
    · rw [asked]
      exact ⟨by simp, known, request, none.trans fresh.symm⟩
    · rw [still]
      exact none
  · intro other apart
    refine ⟨rfl, rfl, fun i key there => ?_⟩
    have different : ¬ (i = k ∧ key = id) := by
      intro same
      rw [same.1, same.2, unused] at there
      cases there
    rw [if_neg different, there]

/-- The timer of a call that could not be prepared goes off. -/
theorem Staged.failed (staged : Staged s stage) {index rpc : Nat}
    (found : s.failures[index]? = some rpc) :
    rpc < s.made ∧
      Staged { s with failures := s.failures.eraseIdx index } (Function.update stage rpc .told) := by
  obtain ⟨made, unprepared⟩ := staged.failing rpc (List.mem_of_getElem? found)
  have stands := staged.stands rpc made
  rw [unprepared] at stands
  obtain ⟨small, same⟩ := List.getElem?_eq_some_iff.mp found
  have erased : ∀ other, (s.failures.eraseIdx index).count other +
      (if other = rpc then 1 else 0) = s.failures.count other := by
    intro other
    have parts := (List.getElem_cons_eraseIdx_perm small).count_eq other
    rw [← parts, List.count_cons, same]
    by_cases here : other = rpc
    · simp [here]
    · simp [here, Ne.symm here]
  have gone : (s.failures.eraseIdx index).count rpc = 0 := by
    have parts := erased rpc
    have one : s.failures.count rpc = 1 := stands.1
    rw [if_pos rfl] at parts
    omega
  refine ⟨made, staged.update made (.inl unprepared) ?_ (fun _ _ _ => .inl) (fun _ => .inl)
    stands.2 ?_⟩
  · intro other fails
    refine ⟨List.mem_of_mem_eraseIdx fails, fun here => ?_⟩
    rw [here] at fails
    exact List.count_eq_zero.mp gone fails
  · intro other apart
    have parts := erased other
    rw [if_neg apart, Nat.add_zero] at parts
    exact ⟨parts, rfl, fun _ _ => id⟩

/-- A new call has a timer of its failure, or a waiter. -/
theorem Staged.add (staged : Staged s stage) {next : Stage} {failures : List Nat}
    {waiters : Nat → Option Nat}
    (failing : ∀ rpc ∈ failures, rpc ∈ s.failures ∨ rpc = s.made ∧ next = .unprepared)
    (waits : ∀ w rpc, waiters w = some rpc → s.waiters w = some rpc ∨
      rpc = s.made ∧ next = .waiting w ∧ w < s.client.nextWaiter)
    (stands : Stands { s with made := s.made + 1, failures := failures, waiters := waiters }
      s.made next)
    (frame : ∀ rpc, rpc ≠ s.made → failures.count rpc = s.failures.count rpc ∧
      ∀ w, s.waiters w = some rpc → waiters w = some rpc) :
    Staged { s with made := s.made + 1, failures := failures, waiters := waiters }
      (Function.update stage s.made next) := by
  have others : ∀ rpc, rpc < s.made → Function.update stage s.made next rpc = stage rpc :=
    fun rpc older => Function.update_of_ne (Nat.ne_of_lt older) _ _
  constructor
  · exact staged.attentive
  · exact staged.punctual
  · intro rpc fails
    rcases failing rpc fails with before | ⟨rfl, unprepared⟩
    · obtain ⟨older, there⟩ := staged.failing rpc before
      exact ⟨Nat.lt_succ_of_lt older, by rw [others rpc older, there]⟩
    · exact ⟨Nat.lt_succ_self _, by rw [Function.update_self, unprepared]⟩
  · intro w rpc there
    rcases waits w rpc there with before | ⟨rfl, waiting, known⟩
    · obtain ⟨older, known, still⟩ := staged.waiters w rpc before
      exact ⟨Nat.lt_succ_of_lt older, known, by rw [others rpc older]; exact still⟩
    · exact ⟨Nat.lt_succ_self _, known, .inl (by rw [Function.update_self, waiting])⟩
  · intro k id rpc there
    obtain ⟨older, known, still⟩ := staged.requests k id rpc there
    exact ⟨Nat.lt_succ_of_lt older, known, by rw [others rpc older]; exact still⟩
  · intro rpc member
    exact Nat.lt_succ_of_lt (staged.calls rpc member)
  · intro rpc made
    by_cases new : rpc = s.made
    · rw [new, Function.update_self]
      exact stands
    · have older : rpc < s.made := Nat.lt_of_le_of_ne (Nat.le_of_lt_succ made) new
      have before := staged.stands rpc older
      obtain ⟨failures, waiters⟩ := frame rpc new
      rw [others rpc older]
      cases there : stage rpc with
      | unprepared =>
          rw [there] at before
          exact ⟨failures.trans before.1, before.2⟩
      | waiting w =>
          rw [there] at before
          exact ⟨waiters w before.1, before.2⟩
      | _ =>
          rw [there] at before
          exact before

theorem Staged.unmade (staged : Staged s stage) :
    s.failures.count s.made = 0 ∧ s.calls.count s.made = 0 := by
  constructor
  · apply List.count_eq_zero.mpr
    intro member
    exact Nat.lt_irrefl _ (staged.failing _ member).1
  · apply List.count_eq_zero.mpr
    intro member
    exact Nat.lt_irrefl _ (staged.calls _ member)

/-- Ids are not used again. -/
theorem Staged.unused (staged : Staged s stage) (k : Nat) :
    s.requests k ((s.client.attempts k).conn.nextId + 1) = none := by
  cases there : s.requests k ((s.client.attempts k).conn.nextId + 1) with
  | none => rfl
  | some rpc =>
      obtain ⟨-, -, still⟩ := staged.requests k _ rpc there
      rcases still with ⟨-, old⟩ | ⟨-, unanswered⟩
      · omega
      · have old := unanswered.known
        omega

/-- A request is pending once it has been made, whether it could be sent or not. -/
theorem pending_requestAsync {conn : Conn} (single : Single conn) (sends : Bool) :
    ((conn.step maxLength (.requestAsync true sends)).isAsync (conn.nextId + 1) = true ∧
      (conn.step maxLength (.requestAsync true sends)).account (conn.nextId + 1) = 1) ∧
    (conn.step maxLength (.requestAsync true sends)).nextId = conn.nextId + 1 := by
  have fresh := single.fresh (conn.nextId + 1) (Nat.lt_succ_self _)
  have opens : conn.opens (conn.nextId + 1) (.requestAsync true sends) = 1 := if_pos ⟨rfl, rfl⟩
  have balance : (conn.step maxLength (.requestAsync true sends)).account (conn.nextId + 1) +
      conn.drops (conn.nextId + 1) maxLength (.requestAsync true sends) = _ :=
    account_step single.sound _
  have table : (conn.step maxLength (.requestAsync true sends)).isAsync (conn.nextId + 1) = _ :=
    isAsync_step single.sound _
  have kept : conn.drops (conn.nextId + 1) maxLength (.requestAsync true sends) = 0 := rfl
  refine ⟨⟨?_, by omega⟩, (step_history maxLength conn _).1⟩
  rw [table, opens]
  rfl

/-- The request of a call is made on a connection that is ready. -/
theorem Staged.onReady (staged : Staged s stage) {rpc k : Nat} (made : rpc < s.made)
    (told : stage rpc = .told) (known : k < s.client.created) {sends : Bool}
    (sent : sends = true ∨ k ∈ s.reported) :
    ∃ next, next ≠ .told ∧
      Staged (s.onReady maxLength rpc k sends) (Function.update stage rpc next) := by
  obtain ⟨conn, is_conn⟩ : ∃ conn, conn = (s.client.attempts k).conn := ⟨_, rfl⟩
  obtain ⟨c', is_c'⟩ : ∃ c', c' = s.client.deliver maxLength k (.requestAsync true sends) {} :=
    ⟨_, rfl⟩
  have single : Single conn := is_conn ▸ staged.attentive.single k
  have handed : Handed maxLength k (.requestAsync true sends) s.client c' :=
    is_c' ▸ handed maxLength s.client k _ _
  have same : Resembles (c'.attempts k).conn (conn.step maxLength (.requestAsync true sends)) :=
    is_conn ▸ handed.conn
  have nothing : Rpcs.ran conn (c'.attempts k).conn = [] := by
    obtain ⟨live, after⟩ := same
    rw [after]
    cases sends <;> simp [Rpcs.ran, Conn.step, requestAsync_after, Conn.opened, Conn.record]
  have moved : Staged { s with client := c' } stage := by
    have attentive : Attentive c' := by
      rw [is_c']
      exact staged.attentive.deliver maxLength k _ _ fun _ => ⟨rfl, rfl⟩
    have punctual : Punctual c' := by
      rw [is_c']
      exact staged.punctual.deliver staged.attentive known _ _
    have motion : Motion maxLength s stage stage c' _ [] k :=
      { moves := handed.moves
        only := fun i other => if_neg other
        kept := by
          intro act acting id other requested
          simp only [if_true, Option.some.injEq] at acting
          rw [← acting]
          exact ⟨rfl, by simp, fun _ => ⟨by simp, by simp⟩⟩
        noticed := fun _ member => by cases member
        told := fun _ member => by cases member
        untold := fun _ => .inl rfl }
    have both := staged.moves motion attentive punctual fun _ => id
    have uncalled : s.callsAfter c' k = s.calls := by
      rw [callsAfter, ← is_conn, nothing, List.filterMap_nil, List.append_nil]
    rw [uncalled] at both
    exact both
  have unused : s.requests k (conn.nextId + 1) = none := is_conn ▸ staged.unused k
  have created : k < c'.created := handed.created ▸ known
  obtain ⟨⟨async, account⟩, nextId⟩ : _ ∧
      (conn.step maxLength (.requestAsync true sends)).nextId = conn.nextId + 1 :=
    pending_requestAsync single sends
  have still : (conn.step maxLength (.requestAsync true sends)).due (conn.nextId + 1) = 0 ∧
      (conn.step maxLength (.requestAsync true sends)).done (conn.nextId + 1) = 0 := by
    rw [Conn.account, async, Bool.toNat_true] at account
    omega
  unfold Rpcs.onReady
  simp only
  rw [← is_conn, ← is_c']
  cases sends with
  | true =>
      have asked : Asked (conn.nextId + 1) (conn.step maxLength (.requestAsync true true)) := by
        refine ⟨by omega, account, fun _ => ?_⟩
        simp [Conn.step, requestAsync_after, Conn.opened, Conn.record]
      refine ⟨.asked k (conn.nextId + 1), by simp, ?_⟩
      apply moved.request made told unused created
      left
      refine ⟨rfl, asked.congr same, ?_⟩
      obtain ⟨live, after⟩ := same
      show (c'.attempts k).conn.done _ = 0
      rw [after]
      exact still.2
  | false =>
      have found : k ∈ s.reported := sent.resolve_left fun same => by cases same
      have unanswered : Unanswered (conn.nextId + 1)
          (conn.step maxLength (.requestAsync true false)) := by
        refine ⟨by omega, fun set => ?_, still.1⟩
        have clocked : Clocked conn := is_conn ▸ staged.punctual.clocked k
        have old := clocked (conn.nextId + 1) (by
          simpa [Conn.step, requestAsync_after, Conn.opened, Conn.record] using set)
        omega
      have entered := moved.request made told unused created .told
        (.inr ⟨rfl, found, unanswered.congr same⟩)
      refine ⟨.called, by simp, ?_⟩
      have again := entered.callBack made (Function.update_self rpc .told stage)
      rw [Function.update_idem] at again
      exact again

/-- The connections move without running a callback. -/
theorem Staged.still (staged : Staged s stage) {c' : Client} {acts : Nat → Option Act}
    {notices : List Notice} (moves : Moves maxLength s.client c' acts notices)
    (attentive : Attentive c') (punctual : Punctual c') (none : ∀ k, acts k = none)
    (noticed : ∀ notice ∈ notices, notice ∈ s.client.notices)
    (told : ∀ notice ∈ notices, ∀ rpc, s.waiters notice.waiter = some rpc → stage' rpc = .told)
    (untold : ∀ rpc, stage' rpc = stage rpc ∨
      ∃ notice ∈ notices, s.waiters notice.waiter = some rpc) :
    Staged { s with client := c' } stage' := by
  have motion : Motion maxLength s stage stage' c' acts notices 0 :=
    { moves, noticed, told, untold
      only := fun k _ => none k
      kept := by
        intro act acting
        rw [none 0] at acting
        cases acting }
  have moved := staged.moves motion attentive punctual fun _ => id
  have nothing : (Rpcs.ran (s.client.attempts 0).conn (c'.attempts 0).conn).filterMap
      (s.requests 0) = [] := by
    apply List.filterMap_eq_nil_iff.mpr
    intro id run
    cases there : s.requests 0 id with
    | none => rfl
    | some rpc =>
        have conn := moves.conns 0 (staged.requests 0 id rpc there).2.1
        rw [none 0, Option.elim_none] at conn
        rw [ran_still conn] at run
        cases run
  rw [callsAfter, nothing, List.append_nil] at moved
  exact moved

/-- An event of the requests of a connection that no call's callback is lost by. -/
theorem Staged.act (staged : Staged s stage) {k : Nat} {act : Act} {launch : Launch}
    (attended : Attended maxLength s.client (.act k act launch))
    (kept : ∀ id, (s.requests k id).isSome = true →
      (s.client.attempts k).conn.drops id maxLength act = 0) :
    Staged (s.act maxLength k act launch) stage := by
  have attentive := staged.attentive.step (.act k act launch) attended
  have punctual := staged.punctual.step staged.attentive (.act k act launch) attended
  have only : ∀ i, i ≠ k → acts s.client (.act k act launch) i = none := by
    intro i other
    simp [acts, other]
  have heard : ∀ reported, (∀ i ∈ s.reported, i ∈ reported) →
      (∀ id rpc, s.requests k id = some rpc → act ≠ .cancel id) →
      (k ∈ s.reported → (∀ m, act ≠ .message m) ∧ ∀ error, act ≠ .sentinel error) →
      Staged { s with
        client := s.client.step maxLength (.act k act launch)
        calls := s.callsAfter (s.client.step maxLength (.act k act launch)) k
        reported := reported } stage := by
    intro reported grows uncancelled unheard
    have motion : Motion maxLength s stage stage (s.client.step maxLength (.act k act launch)) _ []
        k :=
      { moves := moves_act maxLength s.client k act launch
        only := only
        kept := by
          intro other acting id rpc requested
          have same : other = act := by
            simp only [acts] at acting
            split at acting
            · exact (Option.some.inj acting).symm
            · cases acting
          rw [same]
          exact ⟨kept id (by rw [requested]; rfl), uncancelled id rpc requested, unheard⟩
        noticed := fun _ member => by cases member
        told := fun _ member => by cases member
        untold := fun _ => .inl rfl }
    exact staged.moves motion attentive punctual grows
  cases act with
  | cancel id =>
      simp only [Rpcs.act]
      split
      · exact staged
      · rename_i foreign
        refine heard _ (fun _ same => same) (fun other rpc requested same => ?_) (by simp)
        rw [Act.cancel.inj same, requested] at foreign
        exact foreign rfl
  | message m =>
      simp only [Rpcs.act]
      split
      · exact staged
      · rename_i live
        exact heard _ (fun _ same => same) (by simp) fun found => absurd found live
  | sentinel error =>
      simp only [Rpcs.act]
      split
      · exact staged
      · rename_i unreported
        split
        · exact heard _ (fun _ same => same) (by simp) fun found => absurd found unreported
        · exact heard _ (fun _ => List.mem_cons_of_mem k) (by simp)
            fun found => absurd found unreported
  | _ => exact heard _ (fun _ same => same) (by simp) (by simp)

/-- A timer calls a waiter's function. -/
theorem Staged.notice (staged : Staged s stage) (before : ∀ rpc, stage rpc ≠ .told) {index : Nat}
    {sends : Bool} (heeded : Heeded maxLength s (.notice index sends)) :
    ∃ stage', Staged (s.step maxLength (.notice index sends)) stage' ∧
      ∀ rpc, stage' rpc ≠ .told := by
  cases found : s.client.notices[index]? with
  | none =>
      simp only [Rpcs.step, found]
      exact ⟨stage, staged, before⟩
  | some notice =>
      have noticed := List.mem_of_getElem? found
      have moves := moves_step maxLength s.client (.notice index)
      have attentive : Attentive (s.client.step maxLength (.notice index)) :=
        staged.attentive.step (.notice index) trivial
      have punctual : Punctual (s.client.step maxLength (.notice index)) :=
        staged.punctual.step staged.attentive (.notice index) trivial
      simp only [tells, found, Option.toList_some] at moves
      simp only [Rpcs.step, found]
      cases mine : s.waiters notice.waiter with
      | none =>
          refine ⟨stage, ?_, before⟩
          apply staged.still moves attentive punctual (fun _ => rfl)
          · intro other member
            rw [List.mem_singleton.mp member]
            exact noticed
          · intro other member rpc waits
            rw [List.mem_singleton.mp member, mine] at waits
            cases waits
          · exact fun _ => .inl rfl
      | some rpc =>
          have told : Staged { s with client := s.client.step maxLength (.notice index) }
              (Function.update stage rpc .told) := by
            apply staged.still moves attentive punctual (fun _ => rfl)
            · intro other member
              rw [List.mem_singleton.mp member]
              exact noticed
            · intro other member another waits
              rw [List.mem_singleton.mp member, mine] at waits
              rw [← Option.some.inj waits, Function.update_self]
            · intro other
              by_cases here : other = rpc
              · exact .inr ⟨notice, List.mem_singleton_self _, by rw [here, mine]⟩
              · exact .inl (Function.update_of_ne here _ _)
          have made := (staged.waiting noticed mine).1
          have settled : ∀ next, next ≠ .told →
              ∀ other, Function.update stage rpc next other ≠ .told := by
            intro next done other
            by_cases here : other = rpc
            · rw [here, Function.update_self]
              exact done
            · rw [Function.update_of_ne here]
              exact before other
          simp only
          split
          · rename_i ready
            have known := staged.punctual.known notice noticed ready
            have sent := heeded notice found (by rw [mine]; rfl) ready
            obtain ⟨next, done, asked⟩ : ∃ next, next ≠ .told ∧ Staged (Rpcs.onReady maxLength
                { s with client := s.client.step maxLength (.notice index) } rpc notice.conn sends)
                (Function.update (Function.update stage rpc .told) rpc next) :=
              told.onReady made (Function.update_self _ _ _)
                (Nat.lt_of_lt_of_le known moves.created) sent
            rw [Function.update_idem] at asked
            exact ⟨_, asked, settled next done⟩
          · have called := told.callBack made (Function.update_self _ _ _)
            rw [Function.update_idem] at called
            exact ⟨_, called, settled .called (by simp)⟩

/-- A call is made: a timer is set for its failure, or it waits for a connection. -/
theorem Staged.rpc (staged : Staged s stage) {prepares : Bool} {launch : Launch}
    (heeded : Heeded maxLength s (.rpc prepares launch)) :
    ∃ next, next ≠ .told ∧ Staged (s.step maxLength (.rpc prepares launch))
      (Function.update stage s.made next) := by
  obtain ⟨failures, calls⟩ := staged.unmade
  cases prepares with
  | false =>
      refine ⟨.unprepared, by simp, ?_⟩
      apply staged.add
      · intro rpc member
        rcases List.mem_append.mp member with earlier | new
        · exact .inl earlier
        · exact .inr ⟨List.mem_singleton.mp new, rfl⟩
      · exact fun _ _ => .inl
      · refine ⟨?_, calls⟩
        rw [List.count_append, failures, List.count_singleton_self]
      · intro rpc other
        have absent : [s.made].count rpc = 0 := List.count_eq_zero.mpr (by simpa using other)
        refine ⟨?_, fun _ => id⟩
        rw [List.count_append, absent, Nat.add_zero]
  | true =>
      have attended : Attended maxLength s.client (.connectAsync launch) := heeded rfl
      have attentive := staged.attentive.step (.connectAsync launch) attended
      have punctual := staged.punctual.step staged.attentive (.connectAsync launch) attended
      have moved := staged.still (moves_step maxLength s.client (.connectAsync launch)) attentive
        punctual (fun _ => rfl) (fun _ member => by cases member) (fun _ member => by cases member)
        fun _ => .inl rfl
      have joined := connectAsync_nextWaiter maxLength s.client launch
      have same : (s.client.step maxLength (.connectAsync launch)).notified = s.client.notified := by
        have notified : (s.client.step maxLength (.connectAsync launch)).notified =
            s.client.notified ++ [] :=
          (moves_step maxLength s.client (.connectAsync launch)).notified
        rw [notified, List.append_nil]
      refine ⟨.waiting s.client.nextWaiter, by simp, ?_⟩
      refine moved.add (fun _ => .inl) (fun w rpc there => ?_) ⟨if_pos rfl, ?_, ?_, calls⟩ ?_
      · split at there
        · rename_i here
          refine .inr ⟨(Option.some.inj there).symm, by rw [here], ?_⟩
          show w < (s.client.connectAsync maxLength launch).nextWaiter
          omega
        · exact .inl there
      · show s.client.nextWaiter < (s.client.connectAsync maxLength launch).nextWaiter
        omega
      · show (s.client.step maxLength (.connectAsync launch)).notified.countP _ = 0
        rw [same]
        exact staged.attentive.untold.2
      · intro rpc _
        refine ⟨rfl, fun w there => ?_⟩
        have known := (staged.waiters w rpc there).2.1
        have apart : w ≠ s.client.nextWaiter := by omega
        simpa [apart] using there

/-- Every function that could call the callback of a call is accounted for. -/
def Answerable (s : Rpcs) : Prop := ∃ stage, Staged s stage ∧ ∀ rpc, stage rpc ≠ .told

theorem Answerable.step (answerable : Answerable s) (event : RpcEvent)
    (heeded : Heeded maxLength s event) : Answerable (s.step maxLength event) := by
  obtain ⟨stage, staged, before⟩ := answerable
  have settled : ∀ rpc next, next ≠ .told →
      ∀ other, Function.update stage rpc next other ≠ .told := by
    intro rpc next done other
    by_cases here : other = rpc
    · rw [here, Function.update_self]
      exact done
    · rw [Function.update_of_ne here]
      exact before other
  cases event with
  | rpc prepares launch =>
      obtain ⟨next, done, made⟩ := staged.rpc heeded
      exact ⟨_, made, settled _ next done⟩
  | failure index =>
      cases found : s.failures[index]? with
      | none =>
          simp only [Rpcs.step, found]
          exact ⟨stage, staged, before⟩
      | some rpc =>
          obtain ⟨made, told⟩ := staged.failed found
          have called := told.callBack made (Function.update_self _ _ _)
          rw [Function.update_idem] at called
          simp only [Rpcs.step, found]
          exact ⟨_, called, settled rpc .called (by simp)⟩
  | notice index sends => exact staged.notice before heeded
  | client event =>
      obtain ⟨attended, kept⟩ := heeded
      have attentive := staged.attentive.step event attended
      have punctual := staged.punctual.step staged.attentive event attended
      have moves := moves_step maxLength s.client event
      have unmoved : (∀ k, acts s.client event k = none) → tells s.client event = [] →
          Answerable { s with client := s.client.step maxLength event } := by
        intro none nobody
        rw [nobody] at moves
        refine ⟨stage, ?_, before⟩
        exact staged.still moves attentive punctual none (fun _ member => by cases member)
          (fun _ member => by cases member) fun _ => .inl rfl
      cases event with
      | act k act launch =>
          exact ⟨stage, staged.act attended (kept k act launch rfl), before⟩
      | notice index => exact ⟨stage, staged, before⟩
      | connectAsync launch => exact unmoved (fun _ => rfl) rfl
      | connection launch => exact unmoved (fun _ => rfl) rfl
      | pickUp => exact unmoved (fun _ => rfl) rfl
      | abort k => exact unmoved (fun _ => rfl) rfl

theorem answerable_start : Answerable {} := by
  have attentive : Attentive {} :=
    { single := fun _ => single_start
      scheduled := fun _ => ⟨fun waiting => absurd rfl waiting, fun set => by cases set⟩
      entry := fun _ entry => by cases entry
      awaited := fun _ waiting => absurd rfl waiting
      greeted := fun _ known => absurd known (Nat.not_lt_zero _)
      ready := fun _ entry => by cases entry
      homes := fun _ _ member => by cases member
      owed := fun _ => rfl }
  have punctual : Punctual {} :=
    { known := fun _ member => by cases member
      timed := fun _ waiting => absurd rfl waiting
      clocked := fun _ _ set => by cases set }
  refine ⟨fun _ => .called, ?_, by simp⟩
  exact
    { attentive := attentive
      punctual := punctual
      failing := fun _ member => by cases member
      waiters := fun _ _ waits => by cases waits
      requests := fun _ _ _ requested => by cases requested
      calls := fun _ member => by cases member
      stands := fun rpc made => absurd made (Nat.not_lt_zero rpc) }

end Stages

/-- In every run in which no waiter or completion is lost, and the request of a call is sent unless
its connection was found dead before, the callback of each call is called once. -/
theorem callback_called_once {maxLength : Nat} {s : Rpcs}
    (reached : Rpcs.Reached maxLength (Heeded maxLength) s) : s.CalledOnce := by
  obtain ⟨stage, staged, settled⟩ : Answerable s :=
    reached.invariant answerable_start fun _ event answerable heeded => answerable.step event heeded
  intro quiet rpc made
  have stands := staged.stands rpc made
  have rested : ∀ k id, k < s.client.created → (s.client.attempts k).conn.account id = 1 →
      Timed id (s.client.attempts k).conn → (s.client.attempts k).conn.done id = 1 := by
    intro k id known one timed
    have nothing := settled_due (staged.attentive.scheduled k) (quiet.settled k known) id
    have gone : (s.client.attempts k).conn.isAsync id = false := by
      apply Bool.eq_false_iff.mpr
      intro async
      have timer := timed async
      rw [(quiet.settled k known).timers] at timer
      cases timer
    rw [Conn.account, gone, nothing, Bool.toNat_false] at one
    omega
  cases there : stage rpc with
  | unprepared =>
      rw [there] at stands
      have one := stands.1
      rw [quiet.failures] at one
      cases one
  | waiting w =>
      rw [there] at stands
      obtain ⟨-, known, untold, -⟩ := stands
      have owed := staged.attentive.owed w
      simp only [Client.owed, quiet.notices, List.countP_nil, untold, known, if_true] at owed
      cases home : s.client.home w with
      | none =>
          simp only [home, Option.elim_none] at owed
          omega
      | some k =>
          simp only [home, Option.elim_some] at owed
          have waiting : (s.client.attempts k).waiters ≠ [] := by
            intro empty
            rw [empty] at owed
            cases owed
          obtain ⟨created, -, one, none⟩ := staged.attentive.awaited k waiting
          have done := rested k helloId created one (staged.punctual.timed k waiting)
          omega
  | told => exact absurd there (settled rpc)
  | asked k id =>
      rw [there] at stands
      obtain ⟨-, known, asked, counted⟩ := stands
      rw [counted]
      exact rested k id known asked.account asked.timed
  | called =>
      rw [there] at stands
      exact stands

end Rpcs

/-- A connection is used after its sentinel has found the process dead; another call could not be
prepared. -/
def usedWhenFound : List RpcEvent :=
  [.rpc true {}, .client (.act 0 (.message goodHello) {}), .client (.act 0 (.timer 1) {}),
    .client (.act 0 (.finish false) {}), .client (.act 0 (.timer 0) {}), .client (.act 0 .die {}),
    .client (.act 0 (.sentinel "exited") {}), .notice 0 false, .rpc false {}, .failure 0]

theorem callback_called_once_found :
    (usedWhenFound.foldl (Rpcs.step 10000) {}).calls = [0, 1] ∧
    (usedWhenFound.foldl (Rpcs.step 10000) {}).calls.count 0 = 1 := by
  have reached : Rpcs.Reached 10000 (Rpcs.Heeded 10000)
      (usedWhenFound.foldl (Rpcs.step 10000) {}) := by
    apply Reaches.of_along .refl
    have idle : ∀ {p : Prop}, (none : Option Nat).isSome = true → p := fun never => by cases never
    refine ⟨?_, ⟨fun _ => ⟨by decide, rfl⟩, ?_⟩, ⟨fun _ => ⟨by decide, rfl⟩, ?_⟩,
      ⟨fun _ => ⟨by decide, rfl⟩, ?_⟩, ⟨fun _ => ⟨by decide, rfl⟩, ?_⟩,
      ⟨fun _ => ⟨by decide, rfl⟩, ?_⟩, ⟨fun _ => ⟨by decide, rfl⟩, ?_⟩, ?_, ?_, trivial, trivial⟩
    · intro _
      refine ⟨fun k live => ?_, fun _ _ => rfl⟩
      cases live
    all_goals try exact fun _ _ _ _ _ => idle
    · intro notice found _ _
      right
      have first : ((usedWhenFound.take 7).foldl (Rpcs.step 10000) {}).client.notices[0]? =
          some ⟨0, true, 0⟩ := by decide
      rw [Option.some.inj (found.symm.trans first)]
      decide
    · intro never
      cases never
  have quiet : (usedWhenFound.foldl (Rpcs.step 10000) {}).Quiet := by
    refine ⟨by decide, by decide, ?_⟩
    intro k known
    have only : (usedWhenFound.foldl (Rpcs.step 10000) {}).client.created = 1 := by decide
    have first : k = 0 := by omega
    rw [first]
    exact ⟨by decide, by decide⟩
  exact ⟨by decide, Rpcs.callback_called_once reached quiet 0 (by decide)⟩

/-- A process dies, and its connection is used before its sentinel has run. -/
def usedWhenDead : List RpcEvent :=
  [.rpc true {}, .client (.act 0 (.message goodHello) {}), .client (.act 0 (.timer 1) {}),
    .client (.act 0 (.finish false) {}), .client (.act 0 (.timer 0) {}), .client (.act 0 .die {}),
    .notice 0 false, .client (.act 0 (.sentinel "exited") {}), .client (.act 0 (.timer 0) {}),
    .client (.act 0 (.finish false) {})]

/-- The callback is called by the handler of the send, and again by the sentinel. -/
theorem callback_called_twice :
    ¬ ∀ s, Rpcs.Reached 10000 (fun _ _ => True) s → s.CalledOnce := by
  intro once
  have reached : Rpcs.Reached 10000 (fun _ _ => True) (usedWhenDead.foldl (Rpcs.step 10000) {}) := by
    apply Reaches.of_along .refl
    exact ⟨trivial, trivial, trivial, trivial, trivial, trivial, trivial, trivial, trivial, trivial,
      trivial⟩
  have quiet : (usedWhenDead.foldl (Rpcs.step 10000) {}).Quiet := by
    refine ⟨by decide, by decide, ?_⟩
    intro k known
    have only : (usedWhenDead.foldl (Rpcs.step 10000) {}).client.created = 1 := by decide
    have first : k = 0 := by omega
    rw [first]
    exact ⟨by decide, by decide⟩
  have called := once _ reached quiet 0 (by decide)
  exact absurd called (by decide)

end EmacsRelay.RelayConflict

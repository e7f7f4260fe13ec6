import EmacsRelay.Core.Connect

set_option autoImplicit false

/- What is sent on a connection: where code takes only connections that are ready from the table,
nothing but hello is sent before the hello has been verified. -/
namespace EmacsRelay.RelayCore

/-- The hello of connection `k` has been verified. -/
def Client.verified (c : Client) (k : Nat) : Bool := (c.attempts k).hello.any verifiedHello

/-- Connections that code was given, or will be given by a timer, are verified. -/
structure Vetted (c : Client) : Prop where
  single : ∀ k, Single (c.attempts k).conn
  table : ∀ k, c.table = some k → k < c.created
  ready : ∀ k, (c.attempts k).ready = true → c.verified k = true
  greeted : ∀ k, (c.attempts k).async = false → (c.attempts k).hello.isSome = true →
    0 < (c.attempts k).conn.results.countP (·.1 == helloId)
  held : ∀ k ∈ c.held, k < c.created ∧ c.verified k = true
  notices : ∀ notice ∈ c.notices, notice.ready = true →
    notice.conn < c.created ∧ c.verified notice.conn = true
  sends : ∀ send ∈ c.sends, send.2 = true

/-- Code takes a connection from the table only when it is ready. -/
def TakesReady (c : Client) : ClientEvent → Prop
  | .connection _ => ∀ k, c.liveEntry = some k → (c.attempts k).ready = true
  | .pickUp => ∀ k, c.liveEntry = some k → (c.attempts k).ready = true
  | _ => True

section Vetting

variable {maxLength : Nat} {c : Client} {k : Nat}

theorem liveEntry_table (live : c.liveEntry = some k) : c.table = some k :=
  (Option.filter_eq_some_iff.mp live).1

theorem Vetted.set (vetted : Vetted c) (k : Nat) (attempt : Attempt) (single : Single attempt.conn)
    (ready : attempt.ready = true → attempt.hello.any verifiedHello = true)
    (greeted : attempt.async = false → attempt.hello.isSome = true →
      0 < attempt.conn.results.countP (·.1 == helloId))
    (keeps : c.verified k = true → attempt.hello.any verifiedHello = true) :
    Vetted (c.set k attempt) := by
  have still : ∀ i, c.verified i = true → (c.set k attempt).verified i = true := by
    intro i verified
    by_cases same : i = k
    · subst same
      simpa [Client.verified] using keeps verified
    · simpa [Client.verified, same] using verified
  constructor
  · intro i
    by_cases same : i = k
    · simpa [same] using single
    · simpa [same] using vetted.single i
  · exact vetted.table
  · intro i
    by_cases same : i = k
    · simpa [Client.verified, same] using ready
    · simpa [Client.verified, same] using vetted.ready i
  · intro i
    by_cases same : i = k
    · simpa [same] using greeted
    · simpa [same] using vetted.greeted i
  · intro i held
    have earlier := vetted.held i held
    exact ⟨earlier.1, still i earlier.2⟩
  · intro notice member isReady
    have earlier := vetted.notices notice member isReady
    exact ⟨earlier.1, still _ earlier.2⟩
  · exact vetted.sends

theorem Vetted.forget (vetted : Vetted c) (k : Nat) : Vetted (c.forget k) where
  single := vetted.single
  table i entry := by
    simp only [Client.forget_table] at entry
    split at entry
    · cases entry
    · exact vetted.table i entry
  ready := vetted.ready
  greeted := vetted.greeted
  held := vetted.held
  notices := vetted.notices
  sends := vetted.sends

theorem Vetted.hold (vetted : Vetted c) (known : k < c.created) (verified : c.verified k = true) :
    Vetted (c.hold k) where
  single := vetted.single
  table := vetted.table
  ready := vetted.ready
  greeted := vetted.greeted
  held i held := by
    rcases List.mem_cons.mp held with rfl | earlier
    · exact ⟨known, verified⟩
    · exact vetted.held i earlier
  notices := vetted.notices
  sends := vetted.sends

theorem Vetted.notify (vetted : Vetted c) (waiters : List Nat) (ready : Bool)
    (verified : ready = true → k < c.created ∧ c.verified k = true) :
    Vetted (c.notify waiters ready k) where
  single := vetted.single
  table := vetted.table
  ready := vetted.ready
  greeted := vetted.greeted
  held := vetted.held
  notices notice member isReady := by
    rcases List.mem_append.mp member with earlier | new
    · exact vetted.notices notice earlier isReady
    · obtain ⟨waiter, -, rfl⟩ := List.mem_map.mp new
      exact verified isReady
  sends := vetted.sends

/-- A hello is answered once. -/
theorem results_le_one {conn : Conn} (single : Single conn) (id : Nat) :
    conn.results.countP (·.1 == id) ≤ 1 := by
  have answers := single.sound.answers id
  have distinct := List.nodup_iff_count_le_one.mp single.sound.distinct id
  omega

theorem single_deleteProcess {conn : Conn} (single : Single conn) : Single conn.deleteProcess := by
  have exited : conn.step 0 .die = conn.deleteProcess := by
    simp [Conn.step, perform, Conn.ends, Conn.record]
  rw [← exited]
  exact single_step 0 single .die

theorem Vetted.deliver (maxLength : Nat) (vetted : Vetted c) (known : k < c.created) (act : Act) (launch : Launch) :
    Vetted (c.deliver maxLength k act launch) := by
  obtain ⟨after, steps⟩ : ∃ after, after = (c.attempts k).conn.step maxLength act := ⟨_, rfl⟩
  have single : Single after := by
    rw [steps]
    exact single_step maxLength (vetted.single k) act
  have grows : (c.attempts k).conn.results.countP (·.1 == helloId) ≤
      after.results.countP (·.1 == helloId) := by
    have follows := (step_follows maxLength (c.attempts k).conn act).results
    rw [← steps] at follows
    rcases follows with same | ⟨result, new⟩
    · simp [same]
    · rw [new, List.countP_append]
      omega
  have greeted : (c.attempts k).async = false → (c.attempts k).hello.isSome = true →
      0 < after.results.countP (·.1 == helloId) := by
    intro sync answered
    have earlier := vetted.greeted k sync answered
    omega
  rcases c.deliver_cases k maxLength act launch steps with
    ⟨same, -⟩ | ⟨async, reply, -, done⟩ | ⟨sync, result, new, done⟩
  · rw [same]
    exact vetted.set k _ single (vetted.ready k) greeted id
  · rw [done]
    have vacuous : ∀ p : Prop, (c.attempts k).async = false → p := by
      intro p sync
      rw [async] at sync
      cases sync
    rcases Client.connectAsyncHelloDone_cases _ k reply launch with
      ⟨hello, passes, ready⟩ | given_up
    · rw [ready]
      simp only [Client.set_set, Client.set_attempts, if_true]
      have vetted' := vetted.set k
        { c.attempts k with conn := after, waiters := [], hello := some hello, ready := true }
        single (fun _ => passes) (vacuous _) (fun _ => passes)
      have verified : (c.set k { c.attempts k with
          conn := after, waiters := [], hello := some hello, ready := true }).verified k = true := by
        simp [Client.verified, passes]
      exact (vetted'.hold known verified).notify _ _ fun _ => ⟨known, verified⟩
    · rw [given_up]
      simp only [Client.set_set, Client.set_attempts, if_true]
      have vetted' := vetted.set k
        { c.attempts k with conn := after.deleteProcess, waiters := [] }
        (single_deleteProcess single) (vetted.ready k) (vacuous _) id
      exact (vetted'.forget k).notify _ _ fun ready => by cases ready
  · rw [done]
    have unanswered : (c.attempts k).hello = none := by
      apply Classical.byContradiction
      intro answered
      have earlier := vetted.greeted k sync (Option.isSome_iff_ne_none.mpr answered)
      have once := results_le_one single helloId
      rw [new, List.countP_append] at once
      have last : [(helloId, result)].countP (·.1 == helloId) = 1 := by simp
      omega
    have answered : 0 < after.results.countP (·.1 == helloId) := by
      simp [new]
    have unverified : c.verified k = true → False := by
      simp [Client.verified, unanswered]
    rcases Client.connectDone_cases _ k result with ⟨hello, passes, ready⟩ | ⟨hello, given_up⟩
    · rw [ready]
      simp only [Client.set_set, Client.set_attempts, if_true]
      have vetted' := vetted.set k
        { c.attempts k with conn := after, hello := some hello, ready := true } single (fun _ => passes) (fun _ _ => answered) fun _ => passes
      apply vetted'.hold known
      simp [Client.verified, passes]
    · rw [given_up]
      simp only [Client.set_set, Client.set_attempts, if_true]
      have vetted' := vetted.set k
        { c.attempts k with conn := after.deleteProcess, hello := hello }
        (single_deleteProcess single) (fun ready => (unverified (vetted.ready k ready)).elim)
        (fun _ _ => answered) fun verified => (unverified verified).elim
      exact vetted'.forget k

theorem Vetted.create (vetted : Vetted c) (async : Bool) (waiters : List Nat) :
    Vetted (c.create async waiters) := by
  have older : ∀ i, i < c.created → c.verified i = true →
      i < c.created + 1 ∧ (c.create async waiters).verified i = true := by
    intro i known verified
    refine ⟨by omega, ?_⟩
    simpa [Client.verified, show i ≠ c.created by omega] using verified
  constructor
  · intro i
    by_cases same : i = c.created
    · simpa [same] using single_start
    · simpa [same] using vetted.single i
  · intro i entry
    simp at entry ⊢
    omega
  · intro i
    by_cases same : i = c.created
    · simp [same]
    · simpa [Client.verified, same] using vetted.ready i
  · intro i
    by_cases same : i = c.created
    · simp [same]
    · simpa [same] using vetted.greeted i
  · intro i held
    exact older i (vetted.held i held).1 (vetted.held i held).2
  · intro notice member ready
    have earlier := vetted.notices notice member ready
    exact older _ earlier.1 earlier.2
  · exact vetted.sends

theorem Vetted.kill (vetted : Vetted c) (k : Nat) : Vetted (c.kill k) :=
  vetted.set k _ (single_deleteProcess (vetted.single k)) (vetted.ready k) (vetted.greeted k) id

theorem Vetted.connectAsync (vetted : Vetted c) (launch : Launch) :
    Vetted (c.connectAsync maxLength launch) := by
  have attached : ∀ k, Vetted
      { c with
        nextWaiter := c.nextWaiter + 1
        home := fun w => if w = c.nextWaiter then k else c.home w } := fun k =>
    ⟨vetted.single, vetted.table, vetted.ready, vetted.greeted, vetted.held, vetted.notices,
      vetted.sends⟩
  unfold Client.connectAsync
  simp only
  split
  · rename_i k live
    split
    · rename_i ready
      exact (attached _).notify _ _ fun _ =>
        ⟨vetted.table k (liveEntry_table live), vetted.ready k ready⟩
    · exact (attached _).set k _ (vetted.single k) (vetted.ready k) (vetted.greeted k) id
  · unfold Client.connectAsyncStart
    split
    · exact (attached _).notify _ _ nofun
    · simp only
      have created :=
        (attached (if launch.starts then some c.created else none)).create true [c.nextWaiter]
      have started :=
        created.deliver maxLength (Nat.lt_succ_self _) (.requestAsync true launch.sends) launch
      split
      · exact started
      · exact ((started.forget _).kill _).notify _ _ nofun

theorem Vetted.step (vetted : Vetted c) (event : ClientEvent) (takes : TakesReady c event) :
    Vetted (c.step maxLength event) := by
  cases event with
  | connectAsync launch => exact vetted.connectAsync launch
  | connection launch =>
      simp only [Client.step, Client.connection]
      split
      · rename_i k live
        exact vetted.hold (vetted.table k (liveEntry_table live))
          (vetted.ready k (takes k live))
      · split
        · exact vetted
        · exact (vetted.create false []).deliver maxLength (Nat.lt_succ_self _) _ _
  | pickUp =>
      simp only [Client.step]
      split
      · rename_i k live
        exact vetted.hold (vetted.table k (liveEntry_table live))
          (vetted.ready k (takes k live))
      · exact vetted
  | notice index =>
      simp only [Client.step]
      split
      · exact vetted
      · rename_i notice found
        have called : Vetted { c with
            notices := c.notices.eraseIdx index
            notified := c.notified ++ [notice] } :=
          ⟨vetted.single, vetted.table, vetted.ready, vetted.greeted, vetted.held,
            fun n member => vetted.notices n (List.mem_of_mem_eraseIdx member), vetted.sends⟩
        split
        · rename_i ready
          have verified := vetted.notices notice (List.mem_of_getElem? found) ready
          exact called.hold verified.1 verified.2
        · exact called
  | act k act launch =>
      simp only [Client.step]
      split
      · exact vetted
      · rename_i created
        have known : k < c.created := by omega
        split
        · split
          · rename_i held
            have sent : Vetted { c with sends := c.sends ++ [(k, c.verified k)] } := by
              refine ⟨vetted.single, vetted.table, vetted.ready, vetted.greeted, vetted.held,
                vetted.notices, ?_⟩
              intro send member
              rcases List.mem_append.mp member with earlier | new
              · exact vetted.sends send earlier
              · rw [List.mem_singleton.mp new]
                exact (vetted.held k held).2
            exact sent.deliver maxLength known act launch
          · exact vetted
        · split
          · split
            · exact vetted
            · exact vetted.deliver maxLength known _ launch
          · split
            · exact (vetted.deliver maxLength known _ launch).forget k
            · exact vetted.deliver maxLength known _ launch
          · exact vetted.deliver maxLength known act launch
  | abort k => exact (vetted.kill k).forget k

/-- In every run in which code takes only connections that are ready from the table, whatever is
sent besides hello is sent on a connection whose hello has been verified. -/
theorem sends_verified (reached : Client.Reached maxLength TakesReady c) :
    ∀ send ∈ c.sends, send.2 = true := by
  have start : Vetted {} :=
    ⟨fun _ => single_start, nofun, nofun, nofun, nofun, nofun, nofun⟩
  have vetted : Vetted c :=
    reached.invariant start fun _ event vetted takes => vetted.step event takes
  exact vetted.sends

end Vetting

/-- The reply of a server that enforces revisions. -/
def goodHello : Message :=
  { id := some 1, ok := true, protocolVersion := some 1, capabilities := ["revisions-v1"] }

/-- A connection is made by callbacks, and a request is sent once the waiter has been told. -/
def sentWhenReady : List ClientEvent :=
  [.connectAsync {}, .act 0 (.message goodHello) {}, .act 0 (.timer 1) {}, .notice 0,
    .act 0 (.requestAsync true true) {}]

theorem sends_verified_when_ready :
    (sentWhenReady.foldl (Client.step 10000) {}).sends = [(0, true)] ∧
    ∀ send ∈ (sentWhenReady.foldl (Client.step 10000) {}).sends, send.2 = true := by
  have reached : Client.Reached 10000 TakesReady (sentWhenReady.foldl (Client.step 10000) {}) := by
    apply Reaches.of_along .refl
    exact ⟨trivial, trivial, trivial, trivial, trivial, trivial⟩
  exact ⟨by decide, sends_verified reached⟩

/-- `relay--connection` returns a connection whose hello is still awaited. -/
def sentBeforeHello : List ClientEvent :=
  [.connectAsync {}, .connection {}, .act 0 (.request true) {}]

theorem sends_unverified_before_hello :
    ¬ ∀ c, Client.Reached 10000 (fun _ _ => True) c → ∀ send ∈ c.sends, send.2 = true := by
  intro verified
  have reached :
      Client.Reached 10000 (fun _ _ => True) (sentBeforeHello.foldl (Client.step 10000) {}) := by
    apply Reaches.of_along .refl
    exact ⟨trivial, trivial, trivial, trivial⟩
  have early : (0, false) ∈ (sentBeforeHello.foldl (Client.step 10000) {}).sends := by decide
  exact absurd (verified _ reached (0, false) early) (by decide)

end EmacsRelay.RelayCore

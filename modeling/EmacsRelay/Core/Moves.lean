import EmacsRelay.Core.Timers

set_option autoImplicit false

/- What an event does to the connections of a client: at most one of them moves, by one event of
its requests, and waiters are told. -/
namespace EmacsRelay.RelayCore

section Clients

variable {maxLength : Nat} {c : Client}

/-- The two differ at most in whether the process is live. -/
def Resembles (conn other : Conn) : Prop := ∃ live, conn = { other with live := live }

theorem Resembles.refl (conn : Conn) : Resembles conn conn := ⟨conn.live, rfl⟩

theorem Resembles.deleteProcess (conn : Conn) : Resembles conn.deleteProcess conn := ⟨false, rfl⟩

/-- What a client does to its connections: their requests move by at most one event, and no
connection or waiter is forgotten. -/
structure Moves (maxLength : Nat) (c c' : Client) (acts : Nat → Option Act)
    (tells : List Notice) : Prop where
  created : c.created ≤ c'.created
  nextWaiter : c.nextWaiter ≤ c'.nextWaiter
  notified : c'.notified = c.notified ++ tells
  conns : ∀ k < c.created, Resembles (c'.attempts k).conn
    ((acts k).elim (c.attempts k).conn ((c.attempts k).conn.step maxLength))

/-- The waiters of connection `k` stay, or all of them are to be told the same, or none. -/
def Resolves (k : Nat) (c c' : Client) : Prop :=
  (c'.attempts k).waiters = (c.attempts k).waiters ∧ c'.notices = c.notices ∨
  (c'.attempts k).waiters = [] ∧ ∃ told ready,
    c'.notices = c.notices ++ told.map (Notice.mk · ready k) ∧
    (told = (c.attempts k).waiters.reverse ∨ told = [])

/-- The parts of a client that an event of the requests of connection `k` leaves alone, and what
it makes of the connection. -/
structure Handed (maxLength k : Nat) (act : Act) (c c' : Client) : Prop where
  created : c'.created = c.created
  nextWaiter : c'.nextWaiter = c.nextWaiter
  notified : c'.notified = c.notified
  home : c'.home = c.home
  table : ∀ i, c'.table = some i → c.table = some i
  others : ∀ i, i ≠ k → c'.attempts i = c.attempts i
  conn : Resembles (c'.attempts k).conn ((c.attempts k).conn.step maxLength act)
  resolves : Resolves k c c'

theorem Handed.waiters {k : Nat} {act : Act} {c' : Client} (handed : Handed maxLength k act c c') :
    (c'.attempts k).waiters = (c.attempts k).waiters ∨ (c'.attempts k).waiters = [] := by
  rcases handed.resolves with stay | resolved
  · exact .inl stay.1
  · exact .inr resolved.1

theorem Handed.notices {k : Nat} {act : Act} {c' : Client} (handed : Handed maxLength k act c c')
    (notice : Notice) (member : notice ∈ c'.notices) : notice ∈ c.notices ∨ notice.conn = k := by
  rcases handed.resolves with stay | ⟨-, told, ready, grown, -⟩
  · rw [stay.2] at member
    exact .inl member
  · rw [grown] at member
    rcases List.mem_append.mp member with earlier | new
    · exact .inl earlier
    · obtain ⟨_, -, rfl⟩ := List.mem_map.mp new
      exact .inr rfl

theorem entry_kept {table : Option Nat} {k i : Nat}
    (entry : (if table = some k then none else table) = some i) : table = some i := by
  split at entry
  · cases entry
  · exact entry

theorem handed (maxLength : Nat) (c : Client) (k : Nat) (act : Act) (launch : Launch) :
    Handed maxLength k act c (c.deliver maxLength k act launch) := by
  obtain ⟨after, steps⟩ : ∃ after, after = (c.attempts k).conn.step maxLength act := ⟨_, rfl⟩
  rcases c.deliver_cases k maxLength act launch steps with
    ⟨same, -⟩ | ⟨-, reply, -, done⟩ | ⟨-, result, -, done⟩
  · rw [same]
    refine ⟨rfl, rfl, rfl, rfl, fun _ => id, fun i other => by simp [other], ?_,
      .inl ⟨by simp, rfl⟩⟩
    simpa [steps] using Resembles.refl _
  · rw [done]
    rcases Client.connectAsyncHelloDone_cases _ k reply launch with ⟨hello, -, ready⟩ | given_up
    · rw [ready]
      refine ⟨rfl, rfl, rfl, rfl, fun _ => id, fun i other => by simp [other], ?_,
        .inr ⟨by simp, _, _, rfl, ?_⟩⟩
      · simpa [steps] using Resembles.refl _
      · cases launch.rewarms
        · exact .inr rfl
        · exact .inl (by simp)
    · rw [given_up]
      refine ⟨rfl, rfl, rfl, rfl, fun _ => entry_kept,
        fun i other => by simp [other], ?_, .inr ⟨by simp, _, _, rfl, .inl (by simp)⟩⟩
      simpa [steps] using Resembles.deleteProcess _
  · rw [done]
    rcases Client.connectDone_cases _ k result with ⟨hello, -, ready⟩ | ⟨hello, given_up⟩
    · rw [ready]
      refine ⟨rfl, rfl, rfl, rfl, fun _ => id, fun i other => by simp [other], ?_,
        .inl ⟨by simp, rfl⟩⟩
      simpa [steps] using Resembles.refl _
    · rw [given_up]
      refine ⟨rfl, rfl, rfl, rfl, fun _ => entry_kept,
        fun i other => by simp [other], ?_, .inl ⟨by simp, rfl⟩⟩
      simpa [steps] using Resembles.deleteProcess _

theorem Handed.of_sends {k : Nat} {act : Act} {c' : Client} {sends : List (Nat × Bool)}
    (handed : Handed maxLength k act { c with sends := sends } c') :
    Handed maxLength k act c c' :=
  ⟨handed.created, handed.nextWaiter, handed.notified, handed.home, handed.table, handed.others,
    handed.conn, handed.resolves⟩

theorem Handed.forget {k : Nat} {act : Act} {c' : Client}
    (handed : Handed maxLength k act c c') : Handed maxLength k act c (c'.forget k) :=
  ⟨handed.created, handed.nextWaiter, handed.notified, handed.home,
    fun i entry => handed.table i (entry_kept entry), handed.others, handed.conn,
    handed.resolves⟩

theorem Resembles.clocked {conn other : Conn} (same : Resembles conn other)
    (clocked : Clocked other) : Clocked conn := by
  obtain ⟨live, rfl⟩ := same
  exact clocked

/-- Whoever is told of a connection is told of one that exists; while there are waiters the hello
has its timer, and there are timers for requests only. -/
structure Punctual (c : Client) : Prop where
  known : ∀ notice ∈ c.notices, notice.ready = true → notice.conn < c.created
  timed : ∀ k, (c.attempts k).waiters ≠ [] → Timed helloId (c.attempts k).conn
  clocked : ∀ k, Clocked (c.attempts k).conn

theorem Punctual.congr {c' : Client} (punctual : Punctual c)
    (notices : ∀ notice ∈ c'.notices, notice ∈ c.notices ∨
      (notice.ready = true → notice.conn < c'.created))
    (created : c.created ≤ c'.created)
    (attempts : ∀ k, (c'.attempts k).waiters ≠ [] →
      (c.attempts k).waiters ≠ [] ∧ Resembles (c'.attempts k).conn (c.attempts k).conn)
    (clocked : ∀ k, Clocked (c'.attempts k).conn) : Punctual c' where
  known notice member ready := by
    rcases notices notice member with earlier | new
    · have before := punctual.known notice earlier ready
      omega
    · exact new ready
  timed k waiting := by
    obtain ⟨before, live, same⟩ := attempts k waiting
    rw [same]
    exact punctual.timed k before
  clocked := clocked

theorem Handed.clocked {k : Nat} {act : Act} {c' : Client}
    (handed : Handed maxLength k act c c') (clocked : ∀ i, Clocked (c.attempts i).conn)
    (i : Nat) : Clocked (c'.attempts i).conn := by
  by_cases here : i = k
  · rw [here]
    exact handed.conn.clocked (clocked_step (clocked k) act)
  · rw [handed.others i here]
    exact clocked i

theorem clocked_create (clocked : ∀ i, Clocked (c.attempts i).conn) (async : Bool)
    (waiters : List Nat) (i : Nat) : Clocked ((c.create async waiters).attempts i).conn := by
  by_cases here : i = c.created
  · intro id set
    simp [here] at set
  · simpa [here] using clocked i

theorem Punctual.deliver (punctual : Punctual c) (attentive : Attentive c) {k : Nat}
    (known : k < c.created) (act : Act) (launch : Launch) :
    Punctual (c.deliver maxLength k act launch) := by
  have handed : Handed maxLength k act c (c.deliver maxLength k act launch) :=
    handed maxLength c k act launch
  constructor
  · intro notice member ready
    rw [handed.created]
    rcases handed.notices notice member with earlier | here
    · exact punctual.known notice earlier ready
    · rw [here]
      exact known
  · intro i waiting
    by_cases here : i = k
    · rw [here] at waiting ⊢
      rcases handed.waiters with same | none
      · rw [same] at waiting
        obtain ⟨live, conn⟩ := handed.conn
        have one := (attentive.awaited k waiting).2.2.1
        have asked : helloId ≤ (c.attempts k).conn.nextId := by
          apply Classical.byContradiction
          intro early
          have nothing := (attentive.single k).fresh helloId (by omega)
          omega
        rw [conn]
        exact timed_step (attentive.single k) asked (punctual.timed k waiting) act
      · exact absurd none waiting
    · rw [handed.others i here] at waiting ⊢
      exact punctual.timed i waiting
  · exact handed.clocked punctual.clocked

/-- The event of the requests of a connection that an event is, if it takes place. -/
def acts (c : Client) : ClientEvent → Nat → Option Act
  | .act k act _, i =>
      if i = k ∧ k < c.created ∧ (act.takesId = true → k ∈ c.held) ∧ act ≠ .cancel helloId then
        some act
      else none
  | _, _ => none

/-- The notices that an event takes. -/
def tells (c : Client) : ClientEvent → List Notice
  | .notice index => c.notices[index]?.toList
  | _ => []

theorem Handed.moves {c' : Client} {k : Nat} {act : Act}
    (handed : Handed maxLength k act c c') :
    Moves maxLength c c' (fun i => if i = k then some act else none) [] where
  created := Nat.le_of_eq handed.created.symm
  nextWaiter := Nat.le_of_eq handed.nextWaiter.symm
  notified := by rw [handed.notified, List.append_nil]
  conns i _ := by
    by_cases here : i = k
    · simpa [here] using handed.conn
    · rw [handed.others i here]
      simpa [here] using Resembles.refl _

/-- Nothing happens to the requests of the connections there are. -/
theorem Moves.still {c' : Client} {acts : Nat → Option Act} (none : ∀ k, acts k = none)
    (created : c.created ≤ c'.created) (nextWaiter : c.nextWaiter ≤ c'.nextWaiter)
    (notified : c'.notified = c.notified)
    (conns : ∀ k < c.created, Resembles (c'.attempts k).conn (c.attempts k).conn) :
    Moves maxLength c c' acts [] where
  created := created
  nextWaiter := nextWaiter
  notified := by rw [notified, List.append_nil]
  conns k known := by
    rw [none k]
    exact conns k known

/-- What is made of a new connection concerns no other. -/
theorem Moves.created_only {c' : Client} {acts : Nat → Option Act} (none : ∀ k, acts k = none)
    (created : c.created ≤ c'.created) (nextWaiter : c.nextWaiter ≤ c'.nextWaiter)
    (notified : c'.notified = c.notified)
    (others : ∀ k, k ≠ c.created → c'.attempts k = c.attempts k) :
    Moves maxLength c c' acts [] := by
  apply Moves.still none created nextWaiter notified
  intro k known
  rw [others k (by omega)]
  exact .refl _

theorem moves_act (maxLength : Nat) (c : Client) (k : Nat) (act : Act) (launch : Launch) :
    Moves maxLength c (c.step maxLength (.act k act launch)) (acts c (.act k act launch)) [] := by
  have unmoved : (∀ i, acts c (.act k act launch) i = none) →
      Moves maxLength c c (acts c (.act k act launch)) [] := fun none =>
    .still none (Nat.le_refl _) (Nat.le_refl _) rfl fun _ _ => .refl _
  have moved : (∀ i, acts c (.act k act launch) i = if i = k then some act else none) →
      ∀ c', Handed maxLength k act c c' →
        Moves maxLength c c' (acts c (.act k act launch)) [] := by
    intro takes c' handed
    rw [funext takes]
    exact handed.moves
  simp only [Client.step]
  split
  · rename_i unknown
    apply unmoved
    intro i
    have no : ¬ k < c.created := by omega
    simp [acts, no]
  · rename_i created
    have known : k < c.created := by omega
    split
    · rename_i takes
      split
      · rename_i held
        apply moved _ _ (handed maxLength _ k act launch).of_sends
        intro i
        have other : act ≠ .cancel helloId := by
          intro cancels
          rw [cancels] at takes
          cases takes
        simp [acts, known, held, other]
      · rename_i unheld
        apply unmoved
        intro i
        simp [acts, takes, unheld]
    · rename_i takes
      have allowed : act ≠ .cancel helloId →
          ∀ i, acts c (.act k act launch) i = if i = k then some act else none := by
        intro other i
        simp [acts, known, takes, other]
      split
      · split
        · rename_i hello
          apply unmoved
          intro i
          simp [acts, hello]
        · rename_i other
          exact moved (allowed fun same => other (Act.cancel.inj same)) _
            (handed maxLength c k _ launch)
      · have heard := allowed fun same => by cases same
        split
        · exact moved heard _ (handed maxLength c k _ launch).forget
        · exact moved heard _ (handed maxLength c k _ launch)
      · rename_i others _
        exact moved (allowed fun same => others helloId same) _ (handed maxLength c k _ launch)

theorem moves_step (maxLength : Nat) (c : Client) (event : ClientEvent) :
    Moves maxLength c (c.step maxLength event) (acts c event) (tells c event) := by
  have same : ∀ k < c.created, Resembles (c.attempts k).conn (c.attempts k).conn :=
    fun _ _ => .refl _
  cases event with
  | connectAsync launch =>
      simp only [Client.step, Client.connectAsync]
      split
      · rename_i k _
        split
        · exact .still (fun _ => rfl) (Nat.le_refl _) (Nat.le_succ _) rfl same
        · refine .still (fun _ => rfl) (Nat.le_refl _) (Nat.le_succ _) rfl fun i known => ?_
          refine ⟨(c.attempts i).conn.live, ?_⟩
          by_cases here : i = k <;> simp [here]
      · simp only [Client.connectAsyncStart]
        split
        · exact .still (fun _ => rfl) (Nat.le_refl _) (Nat.le_succ _) rfl same
        · obtain ⟨started, is_started⟩ : ∃ started, started = Client.create { c with
              nextWaiter := c.nextWaiter + 1
              home := fun w => if w = c.nextWaiter then
                (if launch.starts then some c.created else none) else c.home w } true
              [c.nextWaiter] := ⟨_, rfl⟩
          have handed := handed maxLength started c.created
            (.requestAsync true launch.sends) launch
          have created : c.created ≤ started.created := by
            rw [is_started]
            exact Nat.le_succ _
          have nextWaiter : c.nextWaiter ≤ started.nextWaiter := by
            rw [is_started]
            exact Nat.le_succ _
          have others : ∀ i, i ≠ c.created → started.attempts i = c.attempts i := by
            intro i other
            simp [is_started, other]
          rw [← is_started]
          rw [← handed.created] at created
          rw [← handed.nextWaiter] at nextWaiter
          have notified : (started.deliver maxLength c.created
              (.requestAsync true launch.sends) launch).notified = c.notified := by
            rw [handed.notified, is_started]
            rfl
          have elsewhere : ∀ i, i ≠ c.created → (started.deliver maxLength c.created
              (.requestAsync true launch.sends) launch).attempts i = c.attempts i := by
            intro i other
            rw [handed.others i other, others i other]
          split
          · exact .created_only (fun _ => rfl) created nextWaiter notified elsewhere
          · refine .created_only (fun _ => rfl) created nextWaiter notified fun i other => ?_
            simp [other, elsewhere i other]
  | connection launch =>
      simp only [Client.step, Client.connection]
      split
      · exact .still (fun _ => rfl) (Nat.le_refl _) (Nat.le_refl _) rfl same
      · split
        · exact .still (fun _ => rfl) (Nat.le_refl _) (Nat.le_refl _) rfl same
        · have handed := handed maxLength (c.create false []) c.created
            (.request launch.sends) launch
          apply Moves.created_only (fun _ => rfl)
          · rw [handed.created]
            exact Nat.le_succ _
          · exact Nat.le_of_eq handed.nextWaiter.symm
          · exact handed.notified
          · intro i other
            rw [handed.others i other]
            simp [other]
  | pickUp =>
      simp only [Client.step]
      split <;> exact .still (fun _ => rfl) (Nat.le_refl _) (Nat.le_refl _) rfl same
  | notice index =>
      cases found : c.notices[index]? with
      | none =>
          simp only [Client.step, tells, found, Option.toList_none]
          exact .still (fun _ => rfl) (Nat.le_refl _) (Nat.le_refl _) rfl same
      | some notice =>
          simp only [Client.step, tells, found, Option.toList_some]
          split <;> exact ⟨Nat.le_refl _, Nat.le_refl _, rfl, same⟩
  | act k act launch => exact moves_act maxLength c k act launch
  | abort k =>
      refine .still (fun _ => rfl) (Nat.le_refl _) (Nat.le_refl _) rfl fun i known => ?_
      by_cases here : i = k
      · rw [here]
        exact ⟨false, by simp [Client.step, Conn.deleteProcess]⟩
      · exact ⟨(c.attempts i).conn.live, by simp [Client.step, here]⟩

theorem connectAsync_nextWaiter (maxLength : Nat) (c : Client) (launch : Launch) :
    (c.connectAsync maxLength launch).nextWaiter = c.nextWaiter + 1 := by
  unfold Client.connectAsync
  simp only
  split
  · split <;> rfl
  · unfold Client.connectAsyncStart
    split
    · rfl
    · simp only
      split
      · rw [(handed maxLength _ _ _ _).nextWaiter]
        rfl
      · rw [Client.notify_nextWaiter, Client.kill_nextWaiter, Client.forget_nextWaiter,
          (handed maxLength _ _ _ _).nextWaiter]
        rfl

/-- The hello of a new connection is sent, with its timer. -/
theorem Punctual.start (punctual : Punctual c) (attempts : Nat) (launch : Launch) :
    Punctual ((c.create true [attempts]).deliver maxLength c.created (.requestAsync true true)
      launch) := by
  have handed := handed maxLength (c.create true [attempts]) c.created
    (.requestAsync true true) launch
  constructor
  · intro notice member ready
    rw [handed.created, Client.create_created]
    rcases handed.notices notice member with earlier | here
    · have before : notice.conn < c.created := punctual.known notice earlier ready
      omega
    · omega
  · intro i waiting
    by_cases here : i = c.created
    · obtain ⟨live, conn⟩ := handed.conn
      rw [here, conn]
      intro _
      simp [Conn.step, requestAsync_after, Conn.opened, Conn.record, helloId]
    · rw [handed.others i here] at waiting ⊢
      simp only [Client.create_attempts, here, if_false] at waiting ⊢
      exact punctual.timed i waiting
  · exact handed.clocked (clocked_create punctual.clocked true [attempts])

theorem Punctual.connectAsync (punctual : Punctual c) (attentive : Attentive c) (launch : Launch)
    (attended : Attended maxLength c (.connectAsync launch)) :
    Punctual (c.connectAsync maxLength launch) := by
  have still : ∀ k, (c.attempts k).waiters ≠ [] →
      (c.attempts k).waiters ≠ [] ∧ Resembles (c.attempts k).conn (c.attempts k).conn :=
    fun k waiting => ⟨waiting, .refl _⟩
  have told : ∀ ready k, (ready = true → k < c.created) → ∀ notice ∈ c.notices ++
      [c.nextWaiter].map (Notice.mk · ready k),
      notice ∈ c.notices ∨ (notice.ready = true → notice.conn < c.created) := by
    intro ready k known notice member
    rcases List.mem_append.mp member with earlier | new
    · exact .inl earlier
    · obtain ⟨_, -, rfl⟩ := List.mem_map.mp new
      exact .inr known
  unfold Client.connectAsync
  simp only
  split
  · rename_i k live
    have known := attentive.entry k (liveEntry_table live)
    split
    · exact punctual.congr (told true k fun _ => known) (Nat.le_refl _) still
        punctual.clocked
    · rename_i unready
      have waiting := attentive.awaits launch attended live unready
      refine punctual.congr (fun _ => .inl) (Nat.le_refl _) (fun i there => ?_) fun i => ?_
      · by_cases here : i = k
        · rw [here]
          exact ⟨waiting, by simpa using Resembles.refl _⟩
        · simp only [Client.set_attempts, here, if_false] at there ⊢
          exact ⟨there, .refl _⟩
      · by_cases here : i = k
        · simpa [here] using punctual.clocked k
        · simpa [here] using punctual.clocked i
  · rename_i idle
    unfold Client.connectAsyncStart
    split
    · exact punctual.congr (told false c.created fun never => by cases never) (Nat.le_refl _)
        still punctual.clocked
    · rename_i launches
      have starts : launch.starts = true := by simpa using launches
      have sends : launch.sends = true := attended.2 idle starts
      simp only [sends, if_true, starts]
      exact Punctual.start (c := { c with
        nextWaiter := c.nextWaiter + 1
        home := fun w => if w = c.nextWaiter then some c.created else c.home w })
        ⟨punctual.known, punctual.timed, punctual.clocked⟩ c.nextWaiter launch

theorem Punctual.step (punctual : Punctual c) (attentive : Attentive c) (event : ClientEvent)
    (attended : Attended maxLength c event) : Punctual (c.step maxLength event) := by
  have still : ∀ k, (c.attempts k).waiters ≠ [] →
      (c.attempts k).waiters ≠ [] ∧ Resembles (c.attempts k).conn (c.attempts k).conn :=
    fun k waiting => ⟨waiting, .refl _⟩
  have forgotten : ∀ c' : Client, Punctual c' → ∀ k, Punctual (c'.forget k) := fun c' before k =>
    ⟨before.known, before.timed, before.clocked⟩
  cases event with
  | connectAsync launch => exact punctual.connectAsync attentive launch attended
  | connection launch =>
      simp only [Client.step, Client.connection]
      split
      · exact ⟨punctual.known, punctual.timed, punctual.clocked⟩
      · split
        · exact punctual
        · have handed := handed maxLength (c.create false []) c.created
            (.request launch.sends) launch
          apply punctual.congr
          · intro notice member
            rw [handed.created, Client.create_created]
            rcases handed.notices notice member with earlier | here
            · exact .inl earlier
            · exact .inr fun _ => by omega
          · rw [handed.created]
            exact Nat.le_succ _
          · intro i waiting
            by_cases here : i = c.created
            · rw [here] at waiting
              apply absurd _ waiting
              rcases handed.waiters with same | none
              · simp [same]
              · exact none
            · rw [handed.others i here] at waiting ⊢
              simp only [Client.create_attempts, here, if_false] at waiting ⊢
              exact still i waiting
          · exact handed.clocked (clocked_create punctual.clocked false [])
  | pickUp =>
      simp only [Client.step]
      split
      · exact ⟨punctual.known, punctual.timed, punctual.clocked⟩
      · exact punctual
  | notice index =>
      simp only [Client.step]
      split
      · exact punctual
      · have called : ∀ notice ∈ c.notices.eraseIdx index, notice.ready = true →
            notice.conn < c.created := fun notice member =>
          punctual.known notice (List.mem_of_mem_eraseIdx member)
        split <;> exact ⟨called, punctual.timed, punctual.clocked⟩
  | act k act launch =>
      simp only [Client.step]
      split
      · exact punctual
      · rename_i created
        have known : k < c.created := by omega
        split
        · split
          · have noted : Attentive { c with sends := c.sends ++ [(k, c.verified k)] } :=
              ⟨attentive.single, attentive.scheduled, attentive.entry, attentive.awaited,
                attentive.greeted, attentive.ready, attentive.homes, attentive.owed⟩
            have before : Punctual { c with sends := c.sends ++ [(k, c.verified k)] } :=
              ⟨punctual.known, punctual.timed, punctual.clocked⟩
            exact before.deliver noted known act launch
          · exact punctual
        · split
          · split
            · exact punctual
            · exact punctual.deliver attentive known _ launch
          · split
            · exact forgotten _ (punctual.deliver attentive known _ launch) k
            · exact punctual.deliver attentive known _ launch
          · exact punctual.deliver attentive known _ launch
  | abort k =>
      have same : ∀ i, ((c.step maxLength (.abort k)).attempts i).waiters =
          (c.attempts i).waiters ∧
          Resembles ((c.step maxLength (.abort k)).attempts i).conn (c.attempts i).conn := by
        intro i
        by_cases here : i = k
        · rw [here]
          exact ⟨by simp [Client.step], by simpa [Client.step] using Resembles.deleteProcess _⟩
        · exact ⟨by simp [Client.step, here], by simpa [Client.step, here] using Resembles.refl _⟩
      refine punctual.congr (fun _ => .inl) (Nat.le_refl _) (fun i waiting => ?_) fun i => ?_
      · rw [(same i).1] at waiting
        exact ⟨waiting, (same i).2⟩
      · exact (same i).2.clocked (punctual.clocked i)

end Clients

end EmacsRelay.RelayCore

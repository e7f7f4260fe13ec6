import EmacsRelay.Core.Moves

set_option autoImplicit false

/- The places of a waiter in a client: the connections it waits for, and the timers that are to
tell it. Whatever happens, it is only moved from one to the other. -/
namespace EmacsRelay.RelayCore

/-- How often waiter `w` waits for connection `k`. -/
def Client.waits (c : Client) (w k : Nat) : Nat := (c.attempts k).waiters.count w

/-- How often waiter `w` is to be told. -/
def Client.noticed (c : Client) (w : Nat) : Nat := c.notices.countP (·.waiter == w)

/-- A waiter has at most so many places, none or one. -/
def Within (n w : Nat) (c : Client) : Prop :=
  ∀ i k, i ≠ k → c.waits w i + c.waits w k + c.noticed w ≤ n

/-- A waiter keeps its places, but that it may be moved from connection `k` to the timers. -/
structure Shifts (w k : Nat) (c c' : Client) : Prop where
  others : ∀ i, i ≠ k → c'.waits w i = c.waits w i
  total : c'.waits w k + c'.noticed w ≤ c.waits w k + c.noticed w

section Places

variable {maxLength w k n : Nat} {c c' c'' : Client}

theorem Within.untold (within : Within 0 w c) : c.noticed w = 0 := by
  have none := within 0 1 (by omega)
  omega

theorem Within.unawaited (within : Within 0 w c) (i : Nat) : c.waits w i = 0 := by
  have none := within i (i + 1) (by omega)
  omega

theorem Within.most (within : Within n w c) (i : Nat) : c.waits w i + c.noticed w ≤ n := by
  have most := within i (i + 1) (by omega)
  omega

/-- A waiter that has its place at connection `k` or with a timer. -/
theorem Within.place (k : Nat) (others : ∀ i, i ≠ k → c.waits w i = 0)
    (total : c.waits w k + c.noticed w ≤ 1) : Within 1 w c := by
  intro i j apart
  by_cases first : i = k
  · have second := others j (by omega)
    rw [first]
    omega
  · have one := others i first
    by_cases second : j = k
    · rw [second]
      omega
    · have two := others j second
      omega

theorem Within.shifts (within : Within n w c) (few : n ≤ 1) (shifts : Shifts w k c c') :
    Within n w c' := by
  intro i j apart
  have total := shifts.total
  have before := within i j apart
  by_cases first : i = k
  · have second := shifts.others j (by omega)
    rw [first] at before ⊢
    omega
  · have one := shifts.others i first
    by_cases second : j = k
    · rw [second] at before ⊢
      omega
    · have two := shifts.others j second
      have left := within i k first
      have right := within j k second
      omega

theorem Shifts.same (waits : ∀ i, c'.waits w i = c.waits w i)
    (noticed : c'.noticed w ≤ c.noticed w) : Shifts w k c c' where
  others i _ := waits i
  total := by
    rw [waits k]
    omega

theorem Shifts.still (attempts : c'.attempts = c.attempts) (notices : c'.notices = c.notices) :
    Shifts w k c c' := by
  apply Shifts.same
  · intro i
    rw [Client.waits, Client.waits, attempts]
  · exact Nat.le_of_eq (by rw [Client.noticed, Client.noticed, notices])

theorem Shifts.trans (first : Shifts w k c c') (second : Shifts w k c' c'') :
    Shifts w k c c'' where
  others i other := (second.others i other).trans (first.others i other)
  total := Nat.le_trans second.total first.total

theorem Shifts.since (shifts : Shifts w k c' c'') (attempts : c'.attempts = c.attempts)
    (notices : c'.notices = c.notices) : Shifts w k c c'' :=
  (Shifts.still attempts notices).trans shifts

theorem noticed_told (told : List Nat) (ready : Bool) :
    (told.map (Notice.mk · ready k)).countP (·.waiter == w) = told.count w := by
  rw [List.countP_map]
  rfl

theorem Handed.shifts {act : Act} (handed : Handed maxLength k act c c') : Shifts w k c c' where
  others i other := by
    unfold Client.waits
    rw [handed.others i other]
  total := by
    unfold Client.waits Client.noticed
    rcases handed.resolves with ⟨waiters, notices⟩ | ⟨waiters, told, ready, notices, who⟩
    · exact Nat.le_of_eq (by rw [waiters, notices])
    · rw [waiters, notices, List.countP_append, noticed_told]
      rcases who with all | none
      · rw [all, List.count_reverse, List.count_nil]
        omega
      · rw [none, List.count_nil]
        omega

theorem shifts_deliver (c : Client) (k : Nat) (act : Act) (launch : Launch) :
    Shifts w k c (c.deliver maxLength k act launch) :=
  (handed maxLength c k act launch).shifts

theorem shifts_create (c : Client) (async : Bool) {waiters : List Nat} (absent : w ∉ waiters) :
    Shifts w c.created c (c.create async waiters) where
  others i other := by simp [Client.waits, other]
  total := by simp [Client.waits, Client.noticed, List.count_eq_zero.mpr absent]

theorem shifts_notify (c : Client) {waiters : List Nat} (ready : Bool) (i : Nat)
    (absent : w ∉ waiters) : Shifts w k c (c.notify waiters ready i) := by
  have none := List.count_eq_zero.mpr absent
  refine .same (fun _ => rfl) ?_
  simp only [Client.noticed, Client.notify_notices, List.countP_append, noticed_told, none]
  omega

theorem shifts_kill (c : Client) (i : Nat) : Shifts w k c (c.kill i) := by
  apply Shifts.same
  · intro j
    by_cases here : j = i <;> simp [Client.waits, here]
  · exact Nat.le_refl _

/-- Only the waiter that a call brings gets a new place. -/
theorem shifts_connectAsync (launch : Launch) (other : w ≠ c.nextWaiter) :
    ∃ k, Shifts w k c (c.connectAsync maxLength launch) := by
  have absent : w ∉ [c.nextWaiter] := by simpa using other
  unfold Client.connectAsync
  simp only
  split
  · rename_i k live
    refine ⟨k, ?_⟩
    split
    · exact (shifts_notify _ true k absent).since rfl rfl
    · apply Shifts.same
      · intro i
        by_cases here : i = k
        · simp [Client.waits, here, Ne.symm other]
        · simp [Client.waits, here]
      · exact Nat.le_refl _
  · unfold Client.connectAsyncStart
    refine ⟨c.created, ?_⟩
    split
    · exact (shifts_notify _ false c.created absent).since rfl rfl
    · obtain ⟨joined, is_joined⟩ : ∃ joined, joined = { c with
          nextWaiter := c.nextWaiter + 1
          home := fun v => if v = c.nextWaiter then
            (if launch.starts then some c.created else none) else c.home v } := ⟨_, rfl⟩
      have same : Shifts w c.created c joined := by
        rw [is_joined]
        exact .still rfl rfl
      have created : joined.created = c.created := by rw [is_joined]
      have started : Shifts w c.created joined ((joined.create true [c.nextWaiter]).deliver
          maxLength c.created (.requestAsync true launch.sends) launch) := by
        rw [← created]
        exact (shifts_create joined true absent).trans (shifts_deliver _ _ _ _)
      simp only [← is_joined]
      split
      · exact same.trans started
      · refine ((same.trans started).trans (shifts_kill _ c.created)).trans ?_
        exact (shifts_notify _ false c.created absent).since rfl rfl

/-- An event moves a waiter at most from one connection to the timers. -/
theorem shifts_step (event : ClientEvent)
    (other : w < c.nextWaiter ∨ (c.step maxLength event).nextWaiter ≤ w) :
    ∃ k, Shifts w k c (c.step maxLength event) := by
  cases event with
  | connectAsync launch =>
      apply shifts_connectAsync launch
      have joined : (c.step maxLength (.connectAsync launch)).nextWaiter = c.nextWaiter + 1 :=
        connectAsync_nextWaiter maxLength c launch
      omega
  | connection launch =>
      refine ⟨c.created, ?_⟩
      simp only [Client.step, Client.connection]
      split
      · exact .still rfl rfl
      · split
        · exact .still rfl rfl
        · exact (shifts_create c false (by simp)).trans (shifts_deliver _ _ _ _)
  | pickUp =>
      refine ⟨0, ?_⟩
      simp only [Client.step]
      split <;> exact .still rfl rfl
  | notice index =>
      refine ⟨0, ?_⟩
      simp only [Client.step]
      split
      · exact .still rfl rfl
      · have fewer : (c.notices.eraseIdx index).countP (·.waiter == w) ≤
            c.notices.countP (·.waiter == w) := (List.eraseIdx_sublist _ _).countP_le
        split <;> exact .same (fun _ => rfl) fewer
  | act k act launch =>
      refine ⟨k, ?_⟩
      simp only [Client.step]
      split
      · exact .still rfl rfl
      · split
        · split
          · exact (shifts_deliver _ k act launch).since rfl rfl
          · exact .still rfl rfl
        · split
          · split
            · exact .still rfl rfl
            · exact shifts_deliver c k _ launch
          · split
            · exact (shifts_deliver c k _ launch).trans (.still rfl rfl)
            · exact shifts_deliver c k _ launch
          · exact shifts_deliver c k _ launch
  | abort k => exact ⟨k, (shifts_kill c k).trans (.still rfl rfl)⟩

/-- A waiter that had one place has none once it is told. -/
theorem Within.told {index : Nat} {notice : Notice} (within : Within 1 notice.waiter c)
    (found : c.notices[index]? = some notice) :
    Within 0 notice.waiter (c.step maxLength (.notice index)) := by
  obtain ⟨small, here⟩ := List.getElem?_eq_some_iff.mp found
  have parts := (List.getElem_cons_eraseIdx_perm small).countP_eq (·.waiter == notice.waiter)
  rw [here, List.countP_cons, beq_self_eq_true, if_pos rfl] at parts
  have waits : ∀ i, (c.step maxLength (.notice index)).waits notice.waiter i =
      c.waits notice.waiter i := by
    intro i
    simp only [Client.step, found]
    split <;> rfl
  have noticed : (c.step maxLength (.notice index)).noticed notice.waiter =
      (c.notices.eraseIdx index).countP (·.waiter == notice.waiter) := by
    simp only [Client.step, found]
    split <;> rfl
  intro i j apart
  have before := within i j apart
  rw [waits i, waits j, noticed]
  unfold Client.noticed at before
  omega

theorem Resembles.single {conn other : Conn} (same : Resembles conn other)
    (single : Single other) : Single conn := by
  obtain ⟨live, rfl⟩ := same
  have sound : Sound { other with live := live } :=
    ⟨single.sound.bounded, single.sound.waiters, single.sound.known, single.sound.distinct,
      single.sound.answers, single.sound.stored, single.sound.given⟩
  exact ⟨sound, single.fresh, single.once, single.moved, single.ended, single.cancelled⟩

/-- The connections that are spoken of exist, and each callback of a request is called once. -/
structure Founded (c : Client) : Prop where
  single : ∀ k, Single (c.attempts k).conn
  table : ∀ k, c.table = some k → k < c.created
  known : ∀ notice ∈ c.notices, notice.ready = true → notice.conn < c.created

theorem Founded.deliver (founded : Founded c) (known : k < c.created) (act : Act)
    (launch : Launch) : Founded (c.deliver maxLength k act launch) := by
  have handed : Handed maxLength k act c (c.deliver maxLength k act launch) :=
    handed maxLength c k act launch
  constructor
  · intro i
    by_cases here : i = k
    · rw [here]
      exact handed.conn.single (single_step maxLength (founded.single k) act)
    · rw [handed.others i here]
      exact founded.single i
  · intro i entry
    rw [handed.created]
    exact founded.table i (handed.table i entry)
  · intro notice member ready
    rw [handed.created]
    rcases handed.notices notice member with earlier | here
    · exact founded.known notice earlier ready
    · omega

theorem Founded.create (founded : Founded c) (async : Bool) (waiters : List Nat) :
    Founded (c.create async waiters) where
  single i := by
    by_cases here : i = c.created
    · simpa [here] using single_start
    · simpa [here] using founded.single i
  table i entry := by
    simp only [Client.create_table, Option.some.injEq] at entry
    simp only [Client.create_created]
    omega
  known notice member ready := by
    have before := founded.known notice member ready
    simp only [Client.create_created]
    omega

theorem Founded.kill (founded : Founded c) (k : Nat) : Founded (c.kill k) where
  single i := by
    by_cases here : i = k
    · simpa [here] using single_deleteProcess (founded.single k)
    · simpa [here] using founded.single i
  table := founded.table
  known := founded.known

theorem Founded.forget (founded : Founded c) (k : Nat) : Founded (c.forget k) :=
  ⟨founded.single, fun i entry => founded.table i (entry_kept entry), founded.known⟩

theorem Founded.notify (founded : Founded c) (waiters : List Nat) (ready : Bool)
    (known : ready = true → k < c.created) : Founded (c.notify waiters ready k) where
  single := founded.single
  table := founded.table
  known notice member isReady := by
    rcases List.mem_append.mp member with earlier | new
    · exact founded.known notice earlier isReady
    · obtain ⟨_, -, rfl⟩ := List.mem_map.mp new
      exact known isReady

theorem Founded.connectAsync (founded : Founded c) (launch : Launch) :
    Founded (c.connectAsync maxLength launch) := by
  have joined : ∀ home, Founded { c with nextWaiter := c.nextWaiter + 1, home := home } :=
    fun _ => ⟨founded.single, founded.table, founded.known⟩
  unfold Client.connectAsync
  simp only
  split
  · rename_i k live
    split
    · exact (joined _).notify _ true fun _ => founded.table k (liveEntry_table live)
    · refine ⟨fun i => ?_, founded.table, founded.known⟩
      by_cases here : i = k
      · simpa [here] using founded.single k
      · simpa [here] using founded.single i
  · unfold Client.connectAsyncStart
    cases starts : launch.starts with
    | false => exact (joined _).notify _ false fun never => by cases never
    | true =>
        have made := (joined fun w => if w = c.nextWaiter then some c.created else c.home w).create
          true [c.nextWaiter]
        have started : Founded (Client.deliver maxLength _ c.created _ _) :=
          made.deliver (Nat.lt_succ_self c.created) (.requestAsync true launch.sends) launch
        simp only [not_true_eq_false, if_false, if_true]
        split
        · exact started
        · exact ((started.forget _).kill _).notify _ false fun never => by cases never

theorem Founded.step (founded : Founded c) (event : ClientEvent) :
    Founded (c.step maxLength event) := by
  cases event with
  | connectAsync launch => exact founded.connectAsync launch
  | connection launch =>
      simp only [Client.step, Client.connection]
      split
      · exact ⟨founded.single, founded.table, founded.known⟩
      · split
        · exact founded
        · exact (founded.create false []).deliver (Nat.lt_succ_self c.created) _ launch
  | pickUp =>
      simp only [Client.step]
      split
      · exact ⟨founded.single, founded.table, founded.known⟩
      · exact founded
  | notice index =>
      simp only [Client.step]
      split
      · exact founded
      · have called : ∀ notice ∈ c.notices.eraseIdx index, notice.ready = true →
            notice.conn < c.created := fun notice member =>
          founded.known notice (List.mem_of_mem_eraseIdx member)
        split <;> exact ⟨founded.single, founded.table, called⟩
  | act k act launch =>
      simp only [Client.step]
      split
      · exact founded
      · rename_i created
        have known : k < c.created := by omega
        have noted : Founded { c with sends := c.sends ++ [(k, c.verified k)] } :=
          ⟨founded.single, founded.table, founded.known⟩
        split
        · split
          · exact noted.deliver known act launch
          · exact founded
        · split
          · split
            · exact founded
            · exact founded.deliver known _ launch
          · split
            · exact (founded.deliver known _ launch).forget k
            · exact founded.deliver known _ launch
          · exact founded.deliver known _ launch
  | abort k => exact (founded.kill k).forget k

/-- Waiters that are still to come have no place yet. -/
structure Housed (c : Client) : Prop where
  founded : Founded c
  fresh : ∀ w, c.nextWaiter ≤ w → Within 0 w c

theorem Housed.step (housed : Housed c) (event : ClientEvent) :
    Housed (c.step maxLength event) where
  founded := housed.founded.step event
  fresh w later := by
    obtain ⟨k, shifts⟩ := shifts_step event (.inr later)
    have before := (moves_step maxLength c event).nextWaiter
    exact (housed.fresh w (by omega)).shifts (Nat.zero_le 1) shifts

theorem Housed.deliver (housed : Housed c) (known : k < c.created) (act : Act)
    (launch : Launch) : Housed (c.deliver maxLength k act launch) where
  founded := housed.founded.deliver known act launch
  fresh w later := by
    rw [(handed maxLength c k act launch).nextWaiter] at later
    exact (housed.fresh w later).shifts (Nat.zero_le 1) (shifts_deliver c k act launch)

theorem housed_start : Housed {} where
  founded :=
    { single := fun _ => single_start
      table := fun _ entry => by cases entry
      known := fun _ member => by cases member }
  fresh _ _ _ _ _ := Nat.le_refl 0

/-- The hello of a connection that the call makes can be sent. -/
def Sent (c : Client) (launch : Launch) : Prop :=
  c.liveEntry = none → launch.starts = true → launch.sends = true

/-- The waiter that a call brings has one place. -/
theorem within_connectAsync (housed : Housed c) {launch : Launch} (sent : Sent c launch) :
    Within 1 c.nextWaiter (c.connectAsync maxLength launch) := by
  have absent := housed.fresh c.nextWaiter (Nat.le_refl _)
  have unawaited := absent.unawaited
  have untold := absent.untold
  simp only [Client.waits, Client.noticed] at unawaited untold
  have told : ∀ joined : Client, joined.attempts = c.attempts → joined.notices = c.notices →
      ∀ ready k, Within 1 c.nextWaiter (joined.notify [c.nextWaiter] ready k) := by
    intro joined attempts notices ready k
    apply Within.place k
    · intro i _
      simp [Client.waits, attempts, unawaited i]
    · simp [Client.waits, Client.noticed, attempts, notices, unawaited k, untold]
  unfold Client.connectAsync
  simp only
  split
  · rename_i k live
    split
    · exact told _ rfl rfl true k
    · apply Within.place k
      · intro i other
        simp [Client.waits, other, unawaited i]
      · simp [Client.waits, Client.noticed, unawaited k, untold]
  · rename_i idle
    unfold Client.connectAsyncStart
    cases starts : launch.starts with
    | false => exact told _ rfl rfl false c.created
    | true =>
        have sends : launch.sends = true := sent idle starts
        simp only [not_true_eq_false, if_false, sends, if_true]
        refine Within.shifts ?_ (Nat.le_refl 1) (shifts_deliver _ c.created _ launch)
        apply Within.place c.created
        · intro i other
          simp [Client.waits, other, unawaited i]
        · simp [Client.waits, Client.noticed, untold]

end Places

end EmacsRelay.RelayCore

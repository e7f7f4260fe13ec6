import EmacsRelay.Core.Verified

set_option autoImplicit false

/- The waiters of a connection attempt: where each is attached to an attempt whose hello ends in
the callback, each is told once. -/
namespace EmacsRelay.RelayCore

/-- The attempt has succeeded or failed, and its timers have run. -/
def Client.Ended (c : Client) (k : Nat) : Prop :=
  match (c.attempts k).async with
  | true => (c.attempts k).conn.isAsync helloId = false ∧ Settled (c.attempts k).conn
  | false => 0 < (c.attempts k).conn.results.countP (·.1 == helloId)

/-- The times that waiter `w` has been told, is to be told, or is waiting to be. -/
def Client.owed (c : Client) (w : Nat) : Nat :=
  ((c.home w).elim 0 fun k => (c.attempts k).waiters.count w) +
    c.notices.countP (·.waiter == w) + c.notified.countP (·.waiter == w)

/-- No waiter joins an attempt that somebody blocks on; hello is sent by whoever launches; its
completion is not dropped; and rewarming does not signal while there are waiters. -/
def Attended (maxLength : Nat) (c : Client) : ClientEvent → Prop
  | .connectAsync launch =>
      (∀ k, c.liveEntry = some k → (c.attempts k).ready = true ∨ (c.attempts k).async = true) ∧
      (c.liveEntry = none → launch.starts = true → launch.sends = true)
  | .act k act launch =>
      (c.attempts k).waiters ≠ [] →
        (c.attempts k).conn.drops helloId maxLength act = 0 ∧ launch.rewarms = true
  | _ => True

/-- Waiters stand where the hello callback is still to come, and each is owed one call. -/
structure Attentive (c : Client) : Prop where
  single : ∀ k, Single (c.attempts k).conn
  scheduled : ∀ k, Scheduled (c.attempts k).conn
  entry : ∀ k, c.table = some k → k < c.created
  awaited : ∀ k, (c.attempts k).waiters ≠ [] → k < c.created ∧ (c.attempts k).async = true ∧
    (c.attempts k).conn.account helloId = 1 ∧ (c.attempts k).conn.done helloId = 0
  greeted : ∀ k, k < c.created → (c.attempts k).async = true → (c.attempts k).waiters = [] →
    0 < (c.attempts k).conn.done helloId
  ready : ∀ k, c.table = some k → (c.attempts k).async = true →
    0 < (c.attempts k).conn.done helloId → (c.attempts k).ready = true
  homes : ∀ k, ∀ w ∈ (c.attempts k).waiters, c.home w = some k
  owed : ∀ w, c.owed w = if w < c.nextWaiter then 1 else 0

section Attention

variable {maxLength : Nat} {c c' : Client} {k : Nat}

theorem Attentive.fresh (attentive : Attentive c) (k : Nat) :
    c.nextWaiter ∉ (c.attempts k).waiters := by
  intro member
  have owed := attentive.owed c.nextWaiter
  have counted := List.count_pos_iff.mpr member
  simp only [Client.owed, attentive.homes k _ member, Option.elim_some, Nat.lt_irrefl, if_false] at owed
  omega

theorem Attentive.untold (attentive : Attentive c) :
    c.notices.countP (·.waiter == c.nextWaiter) = 0 ∧
      c.notified.countP (·.waiter == c.nextWaiter) = 0 := by
  have owed := attentive.owed c.nextWaiter
  simp only [Client.owed, Nat.lt_irrefl, if_false] at owed
  omega

theorem owed_congr (c c' : Client) (home : c'.home = c.home) (notices : c'.notices = c.notices)
    (notified : c'.notified = c.notified)
    (waiters : ∀ k, (c'.attempts k).waiters = (c.attempts k).waiters) (w : Nat) :
    c'.owed w = c.owed w := by
  simp only [Client.owed, home, notices, notified, waiters]

/-- The requests of an attempt move on, with its waiters as they are. -/
theorem Attentive.set (attentive : Attentive c) (k : Nat) (attempt : Attempt)
    (waiters : attempt.waiters = (c.attempts k).waiters)
    (async : attempt.async = (c.attempts k).async) (single : Single attempt.conn)
    (scheduled : Scheduled attempt.conn)
    (awaited : (c.attempts k).waiters ≠ [] →
      attempt.conn.account helloId = 1 ∧ attempt.conn.done helloId = 0)
    (greeted : (c.attempts k).async = true → 0 < (c.attempts k).conn.done helloId →
      0 < attempt.conn.done helloId)
    (ready : c.table = some k → (c.attempts k).async = true → 0 < attempt.conn.done helloId →
      attempt.ready = true) :
    Attentive (c.set k attempt) := by
  have same : ∀ i, ((c.set k attempt).attempts i).waiters = (c.attempts i).waiters ∧
      ((c.set k attempt).attempts i).async = (c.attempts i).async := by
    intro i
    by_cases here : i = k
    · simp [here, waiters, async]
    · simp [here]
  constructor
  · intro i
    by_cases here : i = k
    · simpa [here] using single
    · simpa [here] using attentive.single i
  · intro i
    by_cases here : i = k
    · simpa [here] using scheduled
    · simpa [here] using attentive.scheduled i
  · exact attentive.entry
  · intro i waiting
    rw [(same i).1] at waiting
    have before := attentive.awaited i waiting
    rw [(same i).2]
    by_cases here : i = k
    · subst here
      simp only [Client.set_attempts, if_true]
      exact ⟨before.1, before.2.1, awaited waiting⟩
    · simpa [here] using before
  · intro i known isAsync empty
    rw [(same i).1] at empty
    rw [(same i).2] at isAsync
    have before := attentive.greeted i known isAsync empty
    by_cases here : i = k
    · subst here
      simpa using greeted isAsync before
    · simpa [here] using before
  · intro i entry isAsync
    rw [(same i).2] at isAsync
    by_cases here : i = k
    · subst here
      simpa using ready entry isAsync
    · simpa [here] using attentive.ready i entry isAsync
  · intro i w member
    rw [(same i).1] at member
    exact attentive.homes i w member
  · intro w
    have unmoved : (c.set k attempt).owed w = c.owed w :=
      owed_congr c (c.set k attempt) rfl rfl rfl (fun i => (same i).1) w
    rw [unmoved]
    exact attentive.owed w

theorem countP_told (waiters : List Nat) (ready : Bool) (w : Nat) :
    (waiters.map (Notice.mk · ready k)).countP (·.waiter == w) = waiters.count w := by
  rw [List.countP_map]
  rfl

/-- The hello callback of an attempt has run: it has no waiters left, and each of them is to be
told. -/
theorem Attentive.resolved (attentive : Attentive c) (k : Nat) (attempt : Attempt) (told : Bool)
    (emptied : attempt.waiters = []) (single : Single attempt.conn)
    (scheduled : Scheduled attempt.conn)
    (done : 0 < attempt.conn.done helloId)
    (attempts : c'.attempts = (c.set k attempt).attempts)
    (created : c'.created = c.created) (nextWaiter : c'.nextWaiter = c.nextWaiter)
    (home : c'.home = c.home) (notified : c'.notified = c.notified)
    (notices : c'.notices =
      c.notices ++ (c.attempts k).waiters.reverse.map (Notice.mk · told k))
    (table : ∀ i, c'.table = some i → c.table = some i ∧ (i = k → attempt.ready = true)) :
    Attentive c' := by
  constructor
  · intro i
    rw [attempts]
    by_cases here : i = k
    · simpa [here] using single
    · simpa [here] using attentive.single i
  · intro i
    rw [attempts]
    by_cases here : i = k
    · simpa [here] using scheduled
    · simpa [here] using attentive.scheduled i
  · intro i entry
    rw [created]
    exact attentive.entry i (table i entry).1
  · intro i
    rw [attempts, created]
    by_cases here : i = k
    · simp [here, emptied]
    · simpa [here] using attentive.awaited i
  · intro i
    rw [attempts, created]
    by_cases here : i = k
    · intro _ _ _
      simpa [here] using done
    · simpa [here] using attentive.greeted i
  · intro i entry
    have before := table i entry
    rw [attempts]
    by_cases here : i = k
    · intro _ _
      simpa [here] using before.2 here
    · simpa [here] using attentive.ready i before.1
  · intro i
    rw [attempts, home]
    by_cases here : i = k
    · simp [here, emptied]
    · simpa [here] using attentive.homes i
  · intro w
    rw [nextWaiter, ← attentive.owed w]
    simp only [Client.owed, attempts, home, notified, notices, List.countP_append, countP_told,
      List.count_reverse]
    by_cases here : c.home w = some k
    · simp [here, emptied]
      omega
    · have absent : (c.attempts k).waiters.count w = 0 :=
        List.count_eq_zero.mpr fun member => here (attentive.homes k w member)
      rw [absent]
      cases elsewhere : c.home w with
      | none => simp
      | some i =>
          have apart : i ≠ k := by
            intro same
            exact here (same ▸ elsewhere)
          simp [apart]

theorem Attentive.forget (attentive : Attentive c) (k : Nat) : Attentive (c.forget k) := by
  have kept : ∀ i, (c.forget k).table = some i → c.table = some i := by
    intro i entry
    simp only [Client.forget_table] at entry
    split at entry
    · cases entry
    · exact entry
  exact ⟨attentive.single, attentive.scheduled, fun i entry => attentive.entry i (kept i entry),
    attentive.awaited, attentive.greeted, fun i entry => attentive.ready i (kept i entry),
    attentive.homes, attentive.owed⟩

theorem Attentive.hold (attentive : Attentive c) (k : Nat) : Attentive (c.hold k) :=
  ⟨attentive.single, attentive.scheduled, attentive.entry, attentive.awaited, attentive.greeted,
    attentive.ready, attentive.homes, attentive.owed⟩

theorem scheduled_deleteProcess {conn : Conn} (scheduled : Scheduled conn) :
    Scheduled conn.deleteProcess :=
  scheduled.congr rfl rfl fun _ => id

theorem Attentive.kill (attentive : Attentive c) (k : Nat) : Attentive (c.kill k) :=
  attentive.set k _ rfl rfl (single_deleteProcess (attentive.single k))
    (scheduled_deleteProcess (attentive.scheduled k)) (fun waiting => (attentive.awaited k waiting).2.2)
    (fun _ => id) (attentive.ready k)

theorem done_append {conn after : Conn} {reply : Reply}
    (new : after.calls = conn.calls ++ [(helloId, reply)]) : 0 < after.done helloId := by
  simp [Conn.done, new]

theorem Attentive.deliver (maxLength : Nat) (attentive : Attentive c) (k : Nat) (act : Act)
    (launch : Launch)
    (attended : (c.attempts k).waiters ≠ [] →
      (c.attempts k).conn.drops helloId maxLength act = 0 ∧ launch.rewarms = true) :
    Attentive (c.deliver maxLength k act launch) := by
  obtain ⟨after, steps⟩ : ∃ after, after = (c.attempts k).conn.step maxLength act := ⟨_, rfl⟩
  have single : Single after := by
    rw [steps]
    exact single_step maxLength (attentive.single k) act
  have scheduled : Scheduled after := by
    rw [steps]
    exact scheduled_step maxLength (attentive.scheduled k) act
  rcases c.deliver_cases k maxLength act launch steps with
    ⟨same, unfinished⟩ | ⟨async, reply, new, done⟩ | ⟨sync, result, new, done⟩
  · rw [same]
    apply attentive.set k { c.attempts k with conn := after } rfl rfl single scheduled
    · intro waiting
      obtain ⟨-, async, one, none⟩ := attentive.awaited k waiting
      -- The hello has been asked for, so that the event opens another request if any.
      have asked : helloId ≤ (c.attempts k).conn.nextId := by
        apply Classical.byContradiction
        intro early
        have nothing := (attentive.single k).fresh helloId (by omega)
        omega
      have unopened : (c.attempts k).conn.opens helloId act = 0 := if_neg (by omega)
      have balance : ((c.attempts k).conn.step maxLength act).account helloId +
          (c.attempts k).conn.drops helloId maxLength act =
            (c.attempts k).conn.account helloId + (c.attempts k).conn.opens helloId act :=
        account_step (attentive.single k).sound act
      have kept := (attended waiting).1
      rw [← steps] at balance
      constructor
      · show after.account helloId = 1
        omega
      · exact (unfinished async).trans none
    · intro async earlier
      show 0 < after.done helloId
      rw [unfinished async]
      exact earlier
    · intro entry async ended
      have earlier : 0 < (c.attempts k).conn.done helloId := by
        rw [← unfinished async]
        exact ended
      exact attentive.ready k entry async earlier
  · rw [done]
    rcases Client.connectAsyncHelloDone_cases _ k reply launch with
      ⟨hello, passes, ready⟩ | given_up
    · rw [ready]
      simp only [Client.set_set, Client.set_attempts, if_true]
      have told : (if launch.rewarms then (c.attempts k).waiters.reverse else []) =
          (c.attempts k).waiters.reverse := by
        by_cases waiting : (c.attempts k).waiters = []
        · simp [waiting]
        · rw [(attended waiting).2, if_pos rfl]
      rw [told]
      exact attentive.resolved k
        { c.attempts k with conn := after, waiters := [], hello := some hello, ready := true } true
        rfl single scheduled (done_append new) rfl rfl rfl rfl rfl rfl
        fun _ entry => ⟨entry, fun _ => rfl⟩
    · rw [given_up]
      simp only [Client.set_set, Client.set_attempts, if_true]
      refine attentive.resolved k
        { c.attempts k with conn := after.deleteProcess, waiters := [] } false
        rfl (single_deleteProcess single) (scheduled_deleteProcess scheduled) (done_append new)
        rfl rfl rfl rfl rfl rfl ?_
      intro i entry
      simp only [Client.notify_table, Client.forget_table, Client.set_table] at entry
      split at entry
      · cases entry
      · rename_i other
        exact ⟨entry, fun here => absurd (here ▸ entry) other⟩
  · rw [done]
    have alone : ∀ p : Prop, (c.attempts k).async = true → p := by
      intro p async
      rw [sync] at async
      cases async
    have unattended : ∀ p : Prop, (c.attempts k).waiters ≠ [] → p := fun p waiting =>
      alone p (attentive.awaited k waiting).2.1
    rcases Client.connectDone_cases _ k result with ⟨hello, passes, ready⟩ | ⟨hello, given_up⟩
    · rw [ready]
      simp only [Client.set_set, Client.set_attempts, if_true]
      have attentive' := attentive.set k
        { c.attempts k with conn := after, hello := some hello, ready := true } rfl rfl single
        scheduled (unattended _) (alone _) fun _ => alone _
      exact attentive'.hold k
    · rw [given_up]
      simp only [Client.set_set, Client.set_attempts, if_true]
      have attentive' := attentive.set k
        { c.attempts k with conn := after.deleteProcess, hello := hello } rfl rfl
        (single_deleteProcess single) (scheduled_deleteProcess scheduled) (unattended _) (alone _)
        fun _ => alone _
      exact attentive'.forget k

/-- A waiter is attached to an attempt whose hello callback is to come. -/
theorem Attentive.join (attentive : Attentive c) (k : Nat) (waiting : (c.attempts k).waiters ≠ []) :
    Attentive (Client.set { c with
      nextWaiter := c.nextWaiter + 1
      home := fun w => if w = c.nextWaiter then some k else c.home w } k
      { c.attempts k with waiters := c.nextWaiter :: (c.attempts k).waiters }) := by
  constructor
  · intro i
    by_cases here : i = k
    · simpa [here] using attentive.single k
    · simpa [here] using attentive.single i
  · intro i
    by_cases here : i = k
    · simpa [here] using attentive.scheduled k
    · simpa [here] using attentive.scheduled i
  · exact attentive.entry
  · intro i
    by_cases here : i = k
    · intro _
      simpa [here] using attentive.awaited k waiting
    · simpa [here] using attentive.awaited i
  · intro i
    by_cases here : i = k
    · simp [here]
    · simpa [here] using attentive.greeted i
  · intro i
    by_cases here : i = k
    · simpa [here] using attentive.ready k
    · simpa [here] using attentive.ready i
  · intro i w member
    by_cases new : w = c.nextWaiter
    · by_cases here : i = k
      · simp [new, here]
      · simp only [Client.set_attempts, here, if_false, new] at member
        exact absurd member (attentive.fresh i)
    · have earlier : w ∈ (c.attempts i).waiters := by
        by_cases here : i = k
        · simpa [here, new] using member
        · simpa [here] using member
      simpa [new] using attentive.homes i w earlier
  · intro w
    by_cases new : w = c.nextWaiter
    · subst new
      have absent : (c.attempts k).waiters.count c.nextWaiter = 0 :=
        List.count_eq_zero.mpr (attentive.fresh k)
      simp only [Client.owed, Client.set_home, if_true, Option.elim_some, Client.set_attempts,
        List.count_cons_self, absent, Client.set_notices, Client.set_notified, attentive.untold,
        Client.set_nextWaiter, Nat.lt_succ_self]
    · have counts : ∀ i, (((c.set k { c.attempts k with
          waiters := c.nextWaiter :: (c.attempts k).waiters }).attempts i).waiters).count w =
            ((c.attempts i).waiters).count w := by
        intro i
        by_cases here : i = k
        · simp [here, Ne.symm new]
        · simp [here]
      have less : w < c.nextWaiter + 1 ↔ w < c.nextWaiter := by omega
      have before := attentive.owed w
      simp only [Client.owed, Client.set_home, Client.set_notices, Client.set_notified, new,
        if_false, less, Client.set_nextWaiter] at before ⊢
      rw [← before]
      cases home : c.home w with
      | none => rfl
      | some i =>
          have same := counts i
          simp only [Client.set_attempts] at same
          simp only [Option.elim_some, Client.set_attempts, same]

/-- A new waiter is told at once, whether there is a connection or none could be launched. -/
theorem Attentive.tell (attentive : Attentive c) (home : Option Nat) (ready : Bool) (k : Nat) :
    Attentive (Client.notify { c with
      nextWaiter := c.nextWaiter + 1
      home := fun w => if w = c.nextWaiter then home else c.home w } [c.nextWaiter] ready k) := by
  refine ⟨attentive.single, attentive.scheduled, attentive.entry, attentive.awaited,
    attentive.greeted, attentive.ready, ?_, ?_⟩
  · intro i w member
    have old : w ≠ c.nextWaiter := by
      intro new
      exact attentive.fresh i (new ▸ member)
    simpa [old] using attentive.homes i w member
  · intro w
    by_cases new : w = c.nextWaiter
    · subst new
      have absent : (home.elim 0 fun k => (c.attempts k).waiters.count c.nextWaiter) = 0 := by
        cases home with
        | none => rfl
        | some i => exact List.count_eq_zero.mpr (attentive.fresh i)
      simp only [Client.owed, Client.notify_home, if_true, Client.notify_attempts, absent,
        Client.notify_notices, List.countP_append, countP_told, Client.notify_notified,
        attentive.untold, List.count_singleton_self, Client.notify_nextWaiter, Nat.lt_succ_self]
    · have less : w < c.nextWaiter + 1 ↔ w < c.nextWaiter := by omega
      have untouched : [c.nextWaiter].count w = 0 :=
        List.count_eq_zero.mpr fun member => new (List.mem_singleton.mp member)
      simp only [Client.owed, Client.notify_home, new, if_false, Client.notify_attempts,
        Client.notify_notices, List.countP_append, countP_told, untouched, Nat.add_zero,
        Client.notify_notified, Client.notify_nextWaiter, less]
      exact attentive.owed w

/-- Attempts not yet created have no waiters. -/
theorem Attentive.empty (attentive : Attentive c) (far : c.created ≤ k) :
    (c.attempts k).waiters = [] := by
  apply Classical.byContradiction
  intro waiting
  have known := (attentive.awaited k waiting).1
  omega

/-- An attempt is started: nobody blocks on it and its hello is sent, or somebody does. -/
theorem Attentive.create (attentive : Attentive c) (attempt : Attempt)
    (single : Single attempt.conn) (scheduled : Scheduled attempt.conn)
    (unheard : attempt.conn.done helloId = 0)
    (waits : attempt.async = true → attempt.waiters = [c.nextWaiter] ∧
      attempt.conn.account helloId = 1)
    (blocks : attempt.async = false → attempt.waiters = [])
    (nextWaiter : c'.nextWaiter = c.nextWaiter + attempt.waiters.length)
    (home : c'.home = fun w => if w ∈ attempt.waiters then some c.created else c.home w)
    (attempts : c'.attempts = (c.set c.created attempt).attempts)
    (created : c'.created = c.created + 1) (table : c'.table = some c.created)
    (notices : c'.notices = c.notices) (notified : c'.notified = c.notified) :
    Attentive c' := by
  have members : ∀ w ∈ attempt.waiters, w = c.nextWaiter := by
    intro w member
    cases async : attempt.async with
    | true =>
        rw [(waits async).1] at member
        exact List.mem_singleton.mp member
    | false =>
        rw [blocks async] at member
        cases member
  constructor
  · intro i
    rw [attempts]
    by_cases here : i = c.created
    · simpa [here] using single
    · simpa [here] using attentive.single i
  · intro i
    rw [attempts]
    by_cases here : i = c.created
    · simpa [here] using scheduled
    · simpa [here] using attentive.scheduled i
  · intro i entry
    rw [table] at entry
    rw [created, ← Option.some.inj entry]
    exact Nat.lt_succ_self _
  · intro i
    rw [attempts, created]
    by_cases here : i = c.created
    · intro waiting
      simp only [Client.set_attempts, here, if_true] at waiting ⊢
      cases async : attempt.async with
      | true => exact ⟨Nat.lt_succ_self _, rfl, (waits async).2, unheard⟩
      | false => exact absurd (blocks async) waiting
    · intro waiting
      simp only [Client.set_attempts, here, if_false] at waiting ⊢
      have before := attentive.awaited i waiting
      exact ⟨by omega, before.2⟩
  · intro i known async empty
    rw [attempts] at async empty ⊢
    by_cases here : i = c.created
    · simp only [Client.set_attempts, here, if_true] at async empty
      rw [(waits async).1] at empty
      cases empty
    · simp only [Client.set_attempts, here, if_false] at async empty ⊢
      exact attentive.greeted i (by omega) async empty
  · intro i entry
    rw [table] at entry
    rw [attempts, ← Option.some.inj entry]
    intro _ heard
    simp [unheard] at heard
  · intro i w member
    rw [attempts] at member
    rw [home]
    by_cases here : i = c.created
    · simp only [Client.set_attempts, here, if_true] at member
      simp [member, here]
    · simp only [Client.set_attempts, here, if_false] at member
      have old : w ∉ attempt.waiters := by
        intro new
        exact attentive.fresh i (members w new ▸ member)
      simpa [old] using attentive.homes i w member
  · intro w
    have before := attentive.owed w
    simp only [Client.owed] at before
    simp only [Client.owed, attempts, home, notices, notified, nextWaiter]
    by_cases new : w ∈ attempt.waiters
    · have async : attempt.async = true := by
        apply Classical.byContradiction
        intro sync
        rw [blocks (Bool.not_eq_true _ ▸ sync)] at new
        cases new
      have only := (waits async).1
      have named := members w new
      subst named
      simp [only, attentive.untold, -List.countP_eq_zero]
    · have less : w < c.nextWaiter + attempt.waiters.length ↔ w < c.nextWaiter := by
        cases async : attempt.async with
        | true =>
            have only := (waits async).1
            rw [only] at new ⊢
            simp at new ⊢
            omega
        | false => simp [blocks async]
      simp only [new, if_false, less, ← before]
      cases place : c.home w with
      | none => rfl
      | some i =>
          by_cases here : i = c.created
          · subst here
            have empty : (c.attempts c.created).waiters = [] := attentive.empty (Nat.le_refl _)
            simp [List.count_eq_zero.mpr new, empty]
          · simp [here]

/-- A new attempt with its waiter, once its hello has been sent. -/
theorem Attentive.start (attentive : Attentive c) (launch : Launch) :
    Attentive ((Client.create { c with
      nextWaiter := c.nextWaiter + 1
      home := fun w => if w = c.nextWaiter then some c.created else c.home w } true
      [c.nextWaiter]).deliver maxLength c.created (.requestAsync true true) launch) := by
  obtain ⟨started, is_started⟩ : ∃ started, started = Client.create { c with
      nextWaiter := c.nextWaiter + 1
      home := fun w => if w = c.nextWaiter then some c.created else c.home w } true
      [c.nextWaiter] := ⟨_, rfl⟩
  have attempt : started.attempts c.created = { async := true, waiters := [c.nextWaiter] } := by
    simp [is_started]
  have idle : Scheduled {} := ⟨nofun, nofun⟩
  rw [← is_started]
  rcases started.deliver_cases c.created maxLength (.requestAsync true true) launch rfl with
    ⟨same, -⟩ | ⟨-, reply, new, -⟩ | ⟨sync, -⟩
  · rw [same, attempt]
    apply attentive.create
      { conn := ({} : Conn).step maxLength (.requestAsync true true), async := true,
        waiters := [c.nextWaiter] }
      (single_step maxLength single_start _) (scheduled_step maxLength idle _) rfl
      (fun _ => ⟨rfl, rfl⟩) nofun
    · simp [is_started]
    · funext w
      simp [is_started]
    · funext i
      by_cases here : i = c.created <;> simp [is_started, here]
    · simp [is_started]
    · simp [is_started]
    · simp [is_started]
    · simp [is_started]
  · rw [attempt] at new
    cases new
  · rw [attempt] at sync
    cases sync

/-- A connection that is still to be made has somebody waiting for it. -/
theorem Attentive.awaits (attentive : Attentive c) (launch : Launch)
    (attended : Attended maxLength c (.connectAsync launch)) (live : c.liveEntry = some k)
    (unready : ¬ (c.attempts k).ready = true) : (c.attempts k).waiters ≠ [] := by
  -- With no waiters its hello has ended, and then it is ready or not in the table.
  intro nobody
  have entry := liveEntry_table live
  have async : (c.attempts k).async = true := (attended.1 k live).resolve_left unready
  have heard := attentive.greeted k (attentive.entry k entry) async nobody
  exact unready (attentive.ready k entry async heard)

theorem Attentive.connectAsync (attentive : Attentive c) (launch : Launch)
    (attended : Attended maxLength c (.connectAsync launch)) :
    Attentive (c.connectAsync maxLength launch) := by
  unfold Client.connectAsync
  simp only
  split
  · rename_i k live
    split
    · exact attentive.tell _ _ _
    · rename_i unready
      exact attentive.join k (attentive.awaits launch attended live unready)
  · rename_i idle
    unfold Client.connectAsyncStart
    split
    · exact attentive.tell _ _ _
    · rename_i launches
      have starts : launch.starts = true := by simpa using launches
      have sends : launch.sends = true := attended.2 idle starts
      simp only [sends, if_true, starts]
      exact attentive.start launch

theorem Attentive.step (attentive : Attentive c) (event : ClientEvent)
    (attended : Attended maxLength c event) : Attentive (c.step maxLength event) := by
  cases event with
  | connectAsync launch => exact attentive.connectAsync launch attended
  | connection launch =>
      simp only [Client.step, Client.connection]
      split
      · exact attentive.hold _
      · split
        · exact attentive
        · have scheduled : Scheduled ({} : Attempt).conn :=
            ⟨fun waiting => absurd rfl waiting, fun set => by cases set⟩
          have waits : ({} : Attempt).async = true → ({} : Attempt).waiters = [c.nextWaiter] ∧
              ({} : Attempt).conn.account helloId = 1 := fun async => by cases async
          have started : Attentive (c.create false []) :=
            attentive.create {} single_start scheduled rfl waits (fun _ => rfl) rfl rfl rfl rfl
              rfl rfl rfl
          apply started.deliver
          intro waiting
          simp at waiting
  | pickUp =>
      simp only [Client.step]
      split
      · exact attentive.hold _
      · exact attentive
  | notice index =>
      simp only [Client.step]
      split
      · exact attentive
      · rename_i notice found
        have called : Attentive { c with
            notices := c.notices.eraseIdx index
            notified := c.notified ++ [notice] } := by
          refine ⟨attentive.single, attentive.scheduled, attentive.entry, attentive.awaited,
            attentive.greeted, attentive.ready, attentive.homes, ?_⟩
          intro w
          obtain ⟨small, rfl⟩ := List.getElem?_eq_some_iff.mp found
          have parts := (List.getElem_cons_eraseIdx_perm small).countP_eq (·.waiter == w)
          have before := attentive.owed w
          simp only [Client.owed] at before
          simp only [Client.owed, List.countP_append, ← before, ← parts, List.countP_cons,
            List.countP_nil]
          omega
        split
        · exact called.hold _
        · exact called
  | act k act launch =>
      simp only [Client.step]
      split
      · exact attentive
      · split
        · split
          · have sent : Attentive { c with sends := c.sends ++ [(k, c.verified k)] } :=
              ⟨attentive.single, attentive.scheduled, attentive.entry, attentive.awaited,
                attentive.greeted, attentive.ready, attentive.homes, attentive.owed⟩
            exact sent.deliver maxLength k act launch attended
          · exact attentive
        · split
          · split
            · exact attentive
            · exact attentive.deliver maxLength k _ launch attended
          · split
            · exact (attentive.deliver maxLength k _ launch attended).forget k
            · exact attentive.deliver maxLength k _ launch attended
          · exact attentive.deliver maxLength k act launch attended
  | abort k => exact (attentive.kill k).forget k

/-- Every waiter whose attempt has ended has been told, once, when no call is left to be made. -/
def ToldOnce (c : Client) : Prop :=
  c.notices = [] → ∀ w < c.nextWaiter, (∀ k, c.home w = some k → c.Ended k) →
    c.notified.countP (·.waiter == w) = 1

/-- In every run whose events are all attended, each waiter whose attempt has succeeded or failed
is told once that it is ready or that it failed. -/
theorem waiters_told_once (reached : Client.Reached maxLength (Attended maxLength) c) :
    ToldOnce c := by
  have start : Attentive {} :=
    ⟨fun _ => single_start, fun _ => ⟨nofun, nofun⟩, nofun, fun _ waiting => absurd rfl waiting,
      nofun, nofun, nofun, fun _ => rfl⟩
  have attentive : Attentive c :=
    reached.invariant start fun _ event attentive attended => attentive.step event attended
  intro quiet w known ended
  have owed := attentive.owed w
  simp only [Client.owed, quiet, List.countP_nil, known, if_true] at owed
  cases home : c.home w with
  | none =>
      simp only [home, Option.elim_none] at owed
      omega
  | some k =>
      have nobody : (c.attempts k).waiters = [] := by
        apply Classical.byContradiction
        intro waiting
        obtain ⟨-, async, one, none⟩ := attentive.awaited k waiting
        have past := ended k home
        simp only [Client.Ended, async] at past
        have nothing := settled_due (attentive.scheduled k) past.2 helloId
        rw [Conn.account, past.1, nothing, none] at one
        cases one
      simp only [home, Option.elim_some, nobody, List.count_nil] at owed
      omega

end Attention

/-- A waiter is attached to an attempt by callbacks, and its hello is accepted. -/
def joinedCallbacks : List ClientEvent :=
  [.connectAsync {}, .connectAsync {}, .act 0 (.message goodHello) {}, .act 0 (.timer 1) {},
    .act 0 (.timer 0) {}, .act 0 (.finish false) {}, .notice 1, .notice 0]

theorem waiters_told_once_joined :
    (joinedCallbacks.foldl (Client.step 10000) {}).nextWaiter = 2 ∧
    (joinedCallbacks.foldl (Client.step 10000) {}).notified.countP (·.waiter == 1) = 1 := by
  have reached : Client.Reached 10000 (Attended 10000)
      (joinedCallbacks.foldl (Client.step 10000) {}) := by
    apply Reaches.of_along .refl
    refine ⟨⟨nofun, fun _ _ => rfl⟩, ⟨?_, fun _ _ => rfl⟩, ?_, ?_, ?_, ?_, trivial, trivial, trivial⟩
    · intro k live
      have first : (Client.step 10000 {} (.connectAsync {})).liveEntry = some 0 := by decide
      rw [first] at live
      rw [← Option.some.inj live]
      exact .inr (by decide)
    all_goals exact fun _ => ⟨by decide, rfl⟩
  have attached : (joinedCallbacks.foldl (Client.step 10000) {}).home 1 = some 0 := by decide
  refine ⟨by decide, waiters_told_once reached (by decide) 1 (by decide) ?_⟩
  intro k home
  rw [attached] at home
  rw [← Option.some.inj home]
  exact ⟨by decide, by decide, by decide⟩

/-- A timer attaches a waiter to an attempt that somebody blocks on. -/
def joinedBlocked : List ClientEvent :=
  [.connection {}, .connectAsync {}, .act 0 (.message goodHello) {}, .act 0 (.awake false) {}]

theorem blocked_attempt_tells_nobody :
    ¬ ∀ c, Client.Reached 10000 (fun _ _ => True) c → ToldOnce c := by
  intro told
  have reached :
      Client.Reached 10000 (fun _ _ => True) (joinedBlocked.foldl (Client.step 10000) {}) := by
    apply Reaches.of_along .refl
    exact ⟨trivial, trivial, trivial, trivial, trivial⟩
  have attached : (joinedBlocked.foldl (Client.step 10000) {}).home 0 = some 0 := by decide
  have ended : (joinedBlocked.foldl (Client.step 10000) {}).Ended 0 :=
    show 0 < ((joinedBlocked.foldl (Client.step 10000) {}).attempts 0).conn.results.countP
      (·.1 == helloId) by decide
  have once := told _ reached (by decide) 0 (by decide) fun k home => by
    rw [attached] at home
    rw [← Option.some.inj home]
    exact ended
  exact absurd once (by decide)

end EmacsRelay.RelayCore

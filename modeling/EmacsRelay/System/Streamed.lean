import EmacsRelay.System.Answered

set_option autoImplicit false

/- A stream from the server's thread to the functions of the client: the chunks come in order, and
with the last reply they are the whole of one answer. -/
namespace EmacsRelay.Conversation

open Server (Handles isChunk messageId requestId shaped_answers written)
open RelayCore

/-- Callbacks of request `id` are entered one after the other, and none of them is dropped. -/
def Unhurried (maxLength : Nat) (id : Nat) (r : Recorded) (act : Act) : Prop :=
  DrainsInTurn r.conn id act ∧ FailsInTurn r.conn id act ∧ Intact maxLength r.conn id act

/-- No reply to request `id` is dispatched again. -/
def Once (c : Conversation) (id : Nat) (turn : Turn) : Prop :=
  ∀ index m, turn = .rehear index → c.server.output[index]? = some m → messageId m ≠ some (id : Int)

/-- The replies to request `id` that the client's filter has dispatched. -/
def replies (c : Conversation) (id : Nat) : List Json :=
  c.dispatched.filter fun m => decide (messageId m = some (id : Int))

def told (m : Json) : Reply := .message (messageOf m)

/-- What the chunk function of request `id` has been called with. -/
def given (c : Conversation) (id : Nat) : List Reply :=
  (c.client.conn.chunks.filter (·.1 == id)).map Prod.snd

/-- The callback is a completion that the client makes up. -/
def IsFailure (t : Thunk) : Prop := t.final = true ∧ ∀ m, t.reply ≠ .message m

/-- What has arrived of request `id` is what has been dispatched of the replies to it, up to where the
request was over, and after that failures. -/
structure Arrived (c : Conversation) (id : Nat) (thunks failures : List Thunk) (part : List Json) :
    Prop where
  arrivals : c.client.arrivals id = thunks ++ failures
  heard : part <+: c.replies id
  replies : thunks.map Thunk.reply = part.map told
  failed : ∀ t ∈ failures, IsFailure t
  pending : c.client.conn.isAsync id = true → part = c.replies id ∧ failures = []
  known : c.client.conn.nextId < id → c.client.arrivals id = []

section Arrivals

variable {maxLength : Nat} {c : Conversation} {turn : Turn} {id : Nat}

theorem isAsync_before {conn : Conn} {act : Act} (sound : Sound conn)
    (after : (conn.step maxLength act).isAsync id = true) :
    conn.isAsync id = true ∨ conn.nextId < id := by
  rw [isAsync_step sound] at after
  rcases opens_cases conn id act with closed | ⟨-, new, -, -⟩
  · left
    simp only [closed, Nat.lt_irrefl, decide_false, Bool.false_or, Bool.and_eq_true] at after
    exact after.1.1
  · right
    omega

/-- Only messages bring anything but failures, and a failure comes of a request that is over. -/
theorem brings_failure {conn : Conn} {P : Nat → Message → Prop} {act : Act} (single : Single conn)
    (told : Told P conn) (silent : ∀ m, act ≠ .message m) {t : Thunk} (brought : t ∈ conn.brings act) :
    IsFailure t ∧ t.id ≤ conn.nextId ∧ (conn.step maxLength act).isAsync t.id = false := by
  have failure : IsFailure t := by
    cases act with
    | message m => exact absurd rfl (silent m)
    | timer index =>
        simp only [Conn.brings] at brought
        split at brought
        · split at brought
          · rw [List.mem_singleton.mp brought]
            refine ⟨rfl, ?_⟩
            intro m same
            cases same
          · cases brought
        · rename_i key reply found
          obtain ⟨error, rfl⟩ := told.failing key reply (List.mem_of_getElem? found)
          rw [List.mem_singleton.mp brought]
          refine ⟨rfl, ?_⟩
          intro m same
          cases same
        · cases brought
    | _ => cases brought
  refine ⟨failure, ?_⟩
  rcases Recorded.brings_cases maxLength single act with none | ⟨u, same, -, past⟩
  · rw [none] at brought
    cases brought
  · rw [same] at brought
    rw [List.mem_singleton.mp brought] at failure ⊢
    exact past failure.1

/-- A message brings one callback to the request that it replies to, if that is pending. -/
theorem brings_message (conn : Conn) (m : Message) (id : Nat) :
    ((conn.brings (.message m)).filter (·.id == id)).map Thunk.reply =
      if m.repliesTo = some id ∧ conn.isAsync id = true then [.message m] else [] := by
  unfold Conn.isAsync
  cases named : m.repliesTo with
  | none => simp [Conn.brings, named]
  | some key =>
      cases found : conn.pending key with
      | none =>
          by_cases own : key = id
          · simp [Conn.brings, named, found, own ▸ found]
          · simp [Conn.brings, named, found, own]
      | some entry =>
          by_cases own : key = id
          · rw [← own, found]
            cases entry <;> simp [Conn.brings, named, found, Entry.isAsync]
          · cases entry <;> simp [Conn.brings, named, found, own]

theorem step_replies (joined : Joined c) (turn : Turn) (id : Nat) :
    (c.step maxLength turn).replies id =
      c.replies id ++ (c.hears turn).filter fun m => decide (messageId m = some (id : Int)) := by
  unfold replies
  rw [step_dispatched joined, List.filter_append]

theorem replies_fresh (joined : Joined c) (new : c.client.conn.nextId < id) : c.replies id = [] := by
  apply List.filter_eq_nil_iff.mpr
  intro m member
  have other : messageId m ≠ some (id : Int) := by
    intro named
    have known := joined.asked_of_written ((dispatched_output c).subset member) named
    omega
  simpa using other

theorem Arrived.none_known {thunks failures : List Thunk} {part : List Json}
    (arrived : Arrived c id thunks failures part) (joined : Joined c)
    (new : c.client.conn.nextId < id) : part = c.replies id ∧ failures = [] := by
  have nothing := arrived.known new
  rw [arrived.arrivals] at nothing
  have none := replies_fresh joined new
  have heard := arrived.heard
  rw [none] at heard ⊢
  exact ⟨List.prefix_nil.mp heard, (List.append_eq_nil_iff.mp nothing).2⟩

/-- The client does something, and no reply to the request is heard. -/
theorem Arrived.quiet {thunks failures : List Thunk} {part : List Json} {act : Act}
    (arrived : Arrived c id thunks failures part) (joined : Joined c) (single : Single c.client.conn)
    (happens : c.deed turn = some act)
    (silent : (c.hears turn).filter (fun m => decide (messageId m = some (id : Int))) = [])
    (failing : ∀ t ∈ c.client.conn.brings act, t.id = id → IsFailure t ∧ id ≤ c.client.conn.nextId ∧
      (c.client.conn.step maxLength act).isAsync id = false) :
    ∃ thunks failures part, Arrived (c.step maxLength turn) id thunks failures part := by
  have same : (c.step maxLength turn).replies id = c.replies id := by
    rw [step_replies joined, silent, List.append_nil]
  have client : (c.step maxLength turn).client = c.client.step maxLength act := by
    rw [step_client, happens]
    rfl
  have brought : ∀ t ∈ (c.client.conn.brings act).filter (·.id == id), IsFailure t ∧
      id ≤ c.client.conn.nextId ∧ (c.client.conn.step maxLength act).isAsync id = false := by
    intro t member
    obtain ⟨there, own⟩ := List.mem_filter.mp member
    exact failing t there (by simpa using own)
  have grows : c.client.conn.nextId ≤ (c.client.conn.step maxLength act).nextId := by
    rw [(step_history maxLength c.client.conn act).1]
    omega
  refine ⟨thunks, failures ++ (c.client.conn.brings act).filter (·.id == id), part, ?_⟩
  constructor
  case arrivals => rw [client, Recorded.arrivals_step, arrived.arrivals, List.append_assoc]
  case heard =>
    rw [same]
    exact arrived.heard
  case replies => exact arrived.replies
  case failed =>
    intro t member
    rcases List.mem_append.mp member with before | now
    · exact arrived.failed t before
    · exact (brought t now).1
  case pending =>
    rw [client, same]
    intro async
    have nothing : (c.client.conn.brings act).filter (·.id == id) = [] := by
      apply List.eq_nil_iff_forall_not_mem.mpr
      intro t member
      have async : (c.client.conn.step maxLength act).isAsync id = true := async
      rw [(brought t member).2.2] at async
      cases async
    rw [nothing, List.append_nil]
    rcases isAsync_before single.sound async with before | new
    · exact arrived.pending before
    · exact arrived.none_known joined new
  case known =>
    rw [client]
    intro new
    have new : (c.client.conn.step maxLength act).nextId < id := new
    have nothing : (c.client.conn.brings act).filter (·.id == id) = [] := by
      apply List.eq_nil_iff_forall_not_mem.mpr
      intro t member
      have known := (brought t member).2.1
      omega
    rw [Recorded.arrivals_step, nothing, List.append_nil]
    exact arrived.known (Nat.lt_of_le_of_lt grows new)

/-- A reply to the request is heard. -/
theorem Arrived.reply {thunks failures : List Thunk} {part : List Json} {m : Json}
    (arrived : Arrived c id thunks failures part) (joined : Joined c) (single : Single c.client.conn)
    (happens : c.deed turn = some (.message (messageOf m))) (hears : c.hears turn = [m])
    (named : messageId m = some (id : Int)) (written : m ∈ c.server.output) :
    ∃ thunks failures part, Arrived (c.step maxLength turn) id thunks failures part := by
  obtain ⟨positive, known⟩ := joined.asked_of_written written named
  have more : (c.step maxLength turn).replies id = c.replies id ++ [m] := by
    rw [step_replies joined, hears]
    simp [named]
  have client : (c.step maxLength turn).client = c.client.step maxLength (.message (messageOf m)) := by
    rw [step_client, happens]
    rfl
  have replies := repliesTo_of_messageId named positive
  have brings := brings_message c.client.conn (messageOf m) id
  have before : (c.client.conn.step maxLength (.message (messageOf m))).isAsync id = true →
      c.client.conn.isAsync id = true := by
    intro after
    exact (isAsync_before single.sound after).resolve_right (by omega)
  have grows : c.client.conn.nextId ≤ (c.client.conn.step maxLength (.message (messageOf m))).nextId := by
    rw [(step_history maxLength c.client.conn _).1]
    omega
  by_cases async : c.client.conn.isAsync id = true
  · obtain ⟨whole, none⟩ := arrived.pending async
    rw [if_pos ⟨replies, async⟩] at brings
    refine ⟨thunks ++ (c.client.conn.brings (.message (messageOf m))).filter (·.id == id), [],
      part ++ [m], ?_⟩
    constructor
    case arrivals =>
      rw [client, Recorded.arrivals_step, arrived.arrivals, none, List.append_nil, List.append_nil]
    case heard =>
      rw [more, whole]
    case replies =>
      rw [List.map_append, List.map_append, arrived.replies, brings]
      rfl
    case failed => exact nofun
    case pending =>
      intro _
      rw [more, whole]
      exact ⟨rfl, rfl⟩
    case known =>
      rw [client]
      intro new
      have new : (c.client.conn.step maxLength (.message (messageOf m))).nextId < id := new
      omega
  · rw [if_neg fun both => async both.2] at brings
    refine ⟨thunks, failures, part, ?_⟩
    constructor
    case arrivals =>
      rw [client, Recorded.arrivals_step, List.map_eq_nil_iff.mp brings, List.append_nil]
      exact arrived.arrivals
    case heard =>
      rw [more]
      exact arrived.heard.trans (List.prefix_append _ _)
    case replies => exact arrived.replies
    case failed => exact arrived.failed
    case pending =>
      rw [client]
      exact fun after => absurd (before after) async
    case known =>
      rw [client]
      intro new
      have new : (c.client.conn.step maxLength (.message (messageOf m))).nextId < id := new
      omega

/-- A message that is no reply to the request brings nothing to it. -/
theorem Arrived.other {thunks failures : List Thunk} {part : List Json} {m : Json}
    (arrived : Arrived c id thunks failures part) (joined : Joined c) (single : Single c.client.conn)
    (happens : c.deed turn = some (.message (messageOf m))) (hears : ∀ j ∈ c.hears turn, j = m)
    (named : messageId m ≠ some (id : Int)) :
    ∃ thunks failures part, Arrived (c.step maxLength turn) id thunks failures part := by
  apply arrived.quiet joined single happens
  · apply List.filter_eq_nil_iff.mpr
    intro j heard
    rw [hears j heard]
    simpa using named
  · intro t brought same
    exfalso
    have nothing := brings_message c.client.conn (messageOf m) id
    rw [if_neg fun both => named (messageId_of_repliesTo both.1).1] at nothing
    have member : t ∈ (c.client.conn.brings (.message (messageOf m))).filter (·.id == id) :=
      List.mem_filter.mpr ⟨brought, by simpa using same⟩
    rw [List.map_eq_nil_iff.mp nothing] at member
    cases member

theorem arrived_step {thunks failures : List Thunk} {part : List Json}
    (arrived : Arrived c id thunks failures part) (joined : Joined c) (single : Single c.client.conn)
    (talks : Talks c turn) (once : Once c id turn) :
    ∃ thunks failures part, Arrived (c.step maxLength turn) id thunks failures part := by
  cases happens : c.deed turn with
  | none =>
      have client : (c.step maxLength turn).client = c.client := by
        rw [step_client, happens]
        rfl
      have silent : c.hears turn = [] := by
        apply List.eq_nil_iff_forall_not_mem.mpr
        intro m member
        rw [(hears_of_mem member).2] at happens
        cases happens
      have same : (c.step maxLength turn).replies id = c.replies id := by
        rw [step_replies joined, silent, List.filter_nil, List.append_nil]
      refine ⟨thunks, failures, part, ?_⟩
      constructor
      case arrivals => rw [client, arrived.arrivals]
      case heard =>
        rw [same]
        exact arrived.heard
      case replies => exact arrived.replies
      case failed => exact arrived.failed
      case pending =>
        rw [client, same]
        exact arrived.pending
      case known =>
        rw [client]
        exact arrived.known
  | some act =>
      cases turn with
      | act own op args =>
          cases happens
          apply arrived.quiet joined single rfl rfl
          intro t brought same
          have failure : IsFailure t ∧ t.id ≤ c.client.conn.nextId ∧
              (c.client.conn.step maxLength act).isAsync t.id = false :=
            brings_failure single joined.told talks.1 brought
          rwa [same] at failure
      | serve event => cases happens
      | hear =>
          obtain ⟨m, next, rfl⟩ := Option.map_eq_some_iff.mp happens
          have hears : c.hears .hear = [m] := by
            simp only [Conversation.hears, next, Option.toList_some]
          by_cases named : messageId m = some (id : Int)
          · exact arrived.reply joined single happens hears named (List.mem_of_getElem? next)
          · exact arrived.other joined single happens (by simp [hears]) named
      | rehear index =>
          obtain ⟨m, again, rfl⟩ := Option.map_eq_some_iff.mp happens
          have silent : c.hears (.rehear index) = [] := rfl
          exact arrived.other joined single happens (by simp [silent]) (once index m rfl again)

theorem within_of_once {permitted : Recorded → Act → Prop}
    (reached : Reached maxLength (fun c turn => Within permitted c turn ∧ Once c id turn) c) :
    Reached maxLength (Within permitted) c :=
  reached.mono fun _ _ allowed => allowed.1

theorem arrived_reached {permitted : Recorded → Act → Prop}
    (reached : Reached maxLength (fun c turn => Within permitted c turn ∧ Once c id turn) c) :
    ∃ thunks failures part, Arrived c id thunks failures part := by
  induction reached with
  | refl =>
      refine ⟨[], [], [], ?_⟩
      exact ⟨rfl, List.prefix_rfl, rfl, nofun, nofun, fun _ => rfl⟩
  | @next c turn before allowed ih =>
      obtain ⟨thunks, failures, part, arrived⟩ := ih
      have within := within_of_once before
      have closed := Recorded.closed_reached (client_reached within)
      exact arrived_step arrived (within_joined within) closed.single allowed.1.1 allowed.2

end Arrivals

section Whole

variable {maxLength : Nat} {c : Conversation} {id : Nat}

theorem trace_eq {r : Recorded} (reached : Recorded.Reached maxLength (Unhurried maxLength id) r) :
    r.trace id = r.arrivals id := by
  apply Reaches.invariant _ _ reached
  · rfl
  · rintro r act same ⟨drains, fails, intact⟩
    rw [Recorded.arrivals_step, (Recorded.trace_step drains fails).2 intact, same]

/-- What is filtered is the beginning of a list in which nothing that passes follows what does not. -/
theorem filter_begins {α : Type} {p : α → Bool} {l : List α}
    (closed : l.Pairwise fun a b => p a = false → p b = false) : l.filter p <+: l := by
  induction closed with
  | nil => exact List.prefix_rfl
  | @cons a l after _ ih =>
      cases first : p a with
      | true =>
          rw [List.filter_cons_of_pos first]
          exact (List.prefix_cons_inj a).mpr ih
      | false =>
          have none : (a :: l).filter p = [] := by
            apply List.filter_eq_nil_iff.mpr
            intro b member
            rcases List.mem_cons.mp member with rfl | later
            · simp [first]
            · simp [after b later first]
          rw [none]
          exact List.nil_prefix

theorem arrivals_closed {r : Recorded} (closed : Recorded.Closed r) :
    (r.arrivals id).Pairwise fun t u => t.final = true → u.final = true := by
  rw [Recorded.arrivals, List.pairwise_filter]
  apply closed.closed.imp
  intro t u follows first second
  exact follows (by simp_all)

/-- At most one completion arrives. -/
theorem countP_trace {r : Recorded} (single : Single r.conn) (logs : Logs {} r.entered r.conn) :
    (r.trace id).countP Thunk.final ≤ 1 := by
  have once := single.once id
  have done : r.conn.done id = (r.entered.filter (·.id == id)).countP Thunk.final := by
    rw [Conn.done, logs.calls, List.nil_append, List.countP_map, List.countP_filter, List.countP_filter]
    apply List.countP_congr
    intro t _
    simp [Bool.and_comm]
  have due : (r.conn.ahead.filter (·.id == id)).countP Thunk.final ≤ r.conn.due id := by
    have same : (r.conn.ahead.filter (·.id == id)).countP Thunk.final =
        r.conn.ahead.countP (Thunk.completes id) := List.countP_filter
    rw [same, Conn.ahead, List.countP_append, List.countP_reverse, Conn.due]
    omega
  rw [Recorded.trace, List.filter_append, List.countP_append, ← done]
  unfold Conn.account at once
  omega

theorem given_eq (logs : Logs {} c.client.entered c.client.conn) :
    c.given id = ((c.client.entered.filter (·.id == id)).filter (!·.final)).map Thunk.reply := by
  have same : ((fun call : Nat × Reply => call.1 == id) ∘ fun t : Thunk => (t.id, t.reply)) =
      fun t => t.id == id := rfl
  rw [given, logs.chunks, List.nil_append, List.filter_map, List.map_map, same, List.filter_filter,
    List.filter_filter]
  simp only [Bool.and_comm]
  rfl

/-- The completion of a request comes last. -/
theorem trace_ends {r : Recorded} {t : Thunk} (single : Single r.conn)
    (logs : Logs {} r.entered r.conn)
    (closed : (r.trace id).Pairwise fun t u => t.final = true → u.final = true)
    (entered : t ∈ r.entered.filter (·.id == id)) (final : t.final = true) :
    ∃ before, r.trace id = before ++ [t] ∧ r.entered.filter (·.id == id) = before ++ [t] ∧
      ∀ u ∈ before, u.final = false := by
  have once : (r.trace id).countP Thunk.final ≤ 1 := countP_trace single logs
  obtain ⟨before, after, parts⟩ := List.append_of_mem entered
  have whole : r.trace id = before ++ t :: (after ++ r.conn.ahead.filter (·.id == id)) := by
    rw [Recorded.trace, List.filter_append, parts, List.append_assoc, List.cons_append]
  rw [whole] at closed once
  have later : ∀ u ∈ after ++ r.conn.ahead.filter (·.id == id), u.final = true := by
    intro u member
    exact (List.pairwise_cons.mp (List.pairwise_append.mp closed).2.1).1 u member final
  rw [List.countP_append, List.countP_cons_of_pos final, List.countP_eq_length.mpr later] at once
  have none : after ++ r.conn.ahead.filter (·.id == id) = [] := List.eq_nil_of_length_eq_zero (by omega)
  refine ⟨before, ?_, ?_, ?_⟩
  · rw [whole, none]
  · rw [parts, (List.append_eq_nil_iff.mp none).1]
  · have nothing : before.countP Thunk.final = 0 := by omega
    intro u member
    simpa using List.countP_eq_zero.mp nothing u member

/-- What the functions of a stream are given, where its callbacks wait for one another, none of them
is dropped and no reply to it is dispatched again, is at every time the beginning of one answer of the server to the request, in order; and
when its completion is called with a last reply, that and the chunks are the whole answer. -/
theorem streams_whole {req : Json}
    (reached : Reached maxLength
      (fun c turn => Within (Unhurried maxLength id) c turn ∧ Once c id turn) c)
    (asked : c.asked id = some req) :
    ∃ answers, Handles req answers ∧ c.given id <+: answers.map told ∧
      ∀ m, (id, .message m) ∈ c.client.conn.calls → m.more = false →
        c.given id ++ [.message m] = answers.map told := by
  have joined := within_joined (within_of_once reached)
  have client := client_reached (within_of_once reached)
  have closed := Recorded.closed_reached client
  have logs := Recorded.entered_calls client
  have same := trace_eq client
  obtain ⟨thunks, failures, part, arrived⟩ := arrived_reached reached
  obtain ⟨sent, own⟩ := joined.asked id req asked
  obtain ⟨answers, proper, begins⟩ := Server.written_begins joined.accounted sent
  have part_begins : part <+: answers := by
    rw [own] at begins
    exact (arrived.heard.trans ((dispatched_output c).filter _)).trans begins
  have turns : (c.client.arrivals id).Pairwise fun t u => t.final = true → u.final = true :=
    arrivals_closed closed
  refine ⟨answers, proper, ?_, ?_⟩
  · have entered : c.client.entered.filter (·.id == id) <+: thunks ++ failures := by
      rw [← arrived.arrivals, ← same, Recorded.trace, List.filter_append]
      exact List.prefix_append _ _
    have none : failures.filter (!·.final) = [] := by
      apply List.filter_eq_nil_iff.mpr
      intro t member
      simp [(arrived.failed t member).1]
    have chunks : thunks.filter (!·.final) <+: thunks := by
      apply filter_begins
      rw [arrived.arrivals] at turns
      refine (List.pairwise_append.mp turns).1.imp ?_
      intro t u follows first
      simp_all
    have inside := entered.filter (!·.final)
    rw [List.filter_append, none, List.append_nil] at inside
    rw [given_eq logs]
    have replies := (inside.trans chunks).map Thunk.reply
    rw [arrived.replies] at replies
    exact replies.trans (part_begins.map told)
  · intro m called last
    rw [logs.calls, List.nil_append] at called
    obtain ⟨t, there, is⟩ := List.mem_map.mp called
    obtain ⟨entered, final⟩ := List.mem_filter.mp there
    obtain ⟨named, reply⟩ := Prod.mk.inj is
    have entered : t ∈ c.client.entered.filter (·.id == id) :=
      List.mem_filter.mpr ⟨entered, by simpa using named⟩
    obtain ⟨before, whole, parts, chunks⟩ := trace_ends closed.single logs (same ▸ turns) entered final
    have got : c.given id = before.map Thunk.reply := by
      have all : before.filter (!·.final) = before := by
        apply List.filter_eq_self.mpr
        intro u member
        simp [chunks u member]
      rw [given_eq logs, parts, List.filter_append, all]
      simp [final]
    rw [same, arrived.arrivals] at whole
    -- the completion is a message, so that no failure has arrived
    have none : failures = [] := by
      rcases List.eq_nil_or_concat failures with none | ⟨others, u, ends⟩
      · exact none
      · rw [ends, List.concat_eq_append, ← List.append_assoc] at whole
        have is_u : u = t := by simpa using (List.append_inj' whole rfl).2
        have failed := arrived.failed u (by simp [ends])
        exact absurd (is_u ▸ reply) (failed.2 m)
    rw [none, List.append_nil] at whole
    have told_all : before.map Thunk.reply ++ [.message m] = part.map told := by
      rw [← arrived.replies, whole, List.map_append, List.map_singleton, reply]
    rw [got, told_all]
    have member : Reply.message m ∈ part.map told := by
      rw [← told_all]
      exact List.mem_append_right _ (List.mem_singleton_self _)
    obtain ⟨j, there, message⟩ := List.mem_map.mp member
    have ends : isChunk j = false := by
      cases message
      exact last
    rw [(shaped_answers proper).whole part_begins there ends]

end Whole

/-- A stream is asked for, and answered in two replies. -/
def servedTwice (first last : Json) : List Turn :=
  [.act (.requestStream false true) "readdir" [], .serve (.read [first, last]), .serve .hand,
    .serve (.take oneWorker [first, last]), .serve (.put (some oneWorker)),
    .serve (.put (some oneWorker)), .serve (.finish (some oneWorker)), .serve .write, .serve .write]

def servedListing (first last : Json) : Conversation :=
  (servedTwice first last).foldl (step 10000) {}

section Listed

open Server

variable {first last : Json} {body rest : String}

/-- A chunk and a last reply as the client parses them. -/
def chunkHeard (body : String) : Message := { id := some 1, more := true, ok := true, body := body }

def lastHeard (body : String) : Message := { id := some 1, ok := true, body := body }

/-- The client that has heard both, and has run one callback and then the other. -/
def bothHeard (body rest : String) : Recorded :=
  [Act.requestStream false true, .message (chunkHeard body), .message (lastHeard rest)].foldl
    (Recorded.step 10000) {}

def chunkRun (body rest : String) : Recorded := (bothHeard body rest).step 10000 (.timer 0)

def bothRun (body rest : String) : Recorded :=
  [Act.finish false, .finish false].foldl (Recorded.step 10000) (chunkRun body rest)

theorem bothRun_calls : (bothRun body rest).conn.calls = [(1, .message (lastHeard rest))] := rfl

theorem bothRun_chunks : (bothRun body rest).conn.chunks = [(1, .message (chunkHeard body))] := rfl

theorem given_bothRun {c : Conversation} (client : c.client = bothRun body rest) :
    c.given 1 = [.message (chunkHeard body)] := by
  simp [Conversation.given, client, bothRun_chunks]

theorem servedListing_output : (servedListing first last).server.output = [first, last] := rfl

theorem servedListing_heard : (servedListing first last).heard = 0 := rfl

theorem servedListing_client : (servedListing first last).client =
    Recorded.step 10000 {} (.requestStream false true) := rfl

theorem hear_first {c : Conversation} (output : c.server.output = [first, last])
    (heard : c.heard = 0) (parsed : messageOf first = chunkHeard body) :
    c.step 10000 .hear =
      ⟨c.client.step 10000 (.message (chunkHeard body)), c.asked, c.server, 1⟩ := by
  simp only [step, output, heard, List.getElem?_cons_zero, parsed]

theorem hear_last {client : Recorded} {asked : Nat → Option Json} {server : Serving}
    (output : server.output = [first, last]) (parsed : messageOf last = lastHeard rest) :
    step 10000 ⟨client, asked, server, 1⟩ .hear =
      ⟨client.step 10000 (.message (lastHeard rest)), asked, server, 2⟩ := by
  simp only [step, output, List.getElem?_cons_succ, List.getElem?_cons_zero, parsed]

/-- Callbacks wait for one another, none is dropped, and nothing is dispatched again. -/
abbrev Smooth (c : Conversation) (turn : Turn) : Prop :=
  Within (Unhurried 10000 1) c turn ∧ Once c 1 turn

theorem smooth_hear {c : Conversation} (room : c.client.conn.queue.length < 10000) :
    Smooth c .hear := by
  refine ⟨⟨trivial, ?_⟩, nofun⟩
  intro act happens
  obtain ⟨m, -, rfl⟩ := Option.map_eq_some_iff.mp happens
  exact ⟨trivial, trivial, fun _ => room⟩

theorem reached_act {client : Recorded} {asked : Nat → Option Json} {server : Serving}
    {heard : Nat} {act : Act} (reached : Reached 10000 Smooth ⟨client, asked, server, heard⟩)
    (silent : ∀ m, act ≠ .message m) (sending : sends act = false) (one : client.conn.nextId = 1)
    (unhurried : Unhurried 10000 1 client act) :
    Reached 10000 Smooth ⟨client.step 10000 act, asked, server, heard⟩ := by
  have small : client.conn.nextId + 1 < 2 ^ 63 := by omega
  have allowed : Smooth ⟨client, asked, server, heard⟩ (.act act "" []) := by
    refine ⟨⟨⟨silent, small, nofun⟩, ?_⟩, nofun⟩
    rintro _ ⟨⟩
    exact unhurried
  have next := reached.next allowed
  simp only [step, sending, Bool.false_eq_true, if_false] at next
  exact next

theorem reached_served (handles : Handles (requestOf 1 "readdir" []) [first, last]) :
    Reached 10000 Smooth (servedListing first last) := by
  apply Reaches.of_along .refl
  refine ⟨⟨⟨⟨nofun, by decide, nofun⟩, ?_⟩, nofun⟩, ⟨⟨⟨?_, nofun⟩, nofun⟩, nofun⟩,
    ⟨⟨⟨trivial, nofun⟩, nofun⟩, nofun⟩, ⟨⟨⟨?_, nofun⟩, nofun⟩, nofun⟩,
    ⟨⟨⟨trivial, nofun⟩, nofun⟩, nofun⟩, ⟨⟨⟨trivial, nofun⟩, nofun⟩, nofun⟩,
    ⟨⟨⟨trivial, nofun⟩, nofun⟩, nofun⟩, ⟨⟨⟨trivial, nofun⟩, nofun⟩, nofun⟩,
    ⟨⟨⟨trivial, nofun⟩, nofun⟩, nofun⟩, trivial⟩
  · rintro _ ⟨⟩
    exact ⟨trivial, trivial, trivial⟩
  · rintro request rest ⟨⟩
    exact handles
  · rintro request rest ⟨⟩
    exact handles

/-- The client hears both replies and runs their callbacks. -/
theorem reached_listing {c : Conversation} (reached : Reached 10000 Smooth c)
    (output : c.server.output = [first, last]) (heard : c.heard = 0)
    (client : c.client = Recorded.step 10000 {} (.requestStream false true))
    (one : messageOf first = chunkHeard body) (two : messageOf last = lastHeard rest) :
    Reached 10000 Smooth ⟨bothRun body rest, c.asked, c.server, 2⟩ := by
  have room : c.client.conn.queue.length < 10000 := by
    rw [client]
    decide
  have first_heard := reached.next (smooth_hear room)
  rw [hear_first output heard one, client] at first_heard
  have both_heard := first_heard.next (smooth_hear (by exact (by decide : 1 < 10000)))
  rw [hear_last output two] at both_heard
  have idle : (bothHeard body rest).conn.frames = [] := rfl
  have scheduled : (bothHeard body rest).conn.timers = [.drain] := rfl
  have chunk_run : Reached 10000 Smooth ⟨chunkRun body rest, c.asked, c.server, 2⟩ := by
    apply reached_act both_heard
    · exact nofun
    · rfl
    · rfl
    refine ⟨fun _ _ => .inr ?_, ?_, fun _ => ?_⟩
    · show ∀ t ∈ (bothHeard body rest).conn.frames.flatMap Frame.rest, t.id ≠ 1
      rw [idle]
      exact nofun
    · show ∀ reply, (bothHeard body rest).conn.timers[0]? = some (.call 1 reply) → _
      rw [scheduled]
      exact nofun
    · show (bothHeard body rest).conn.queue.length < 10000
      have two_queued : (bothHeard body rest).conn.queue.length = 2 := rfl
      rw [two_queued]
      decide
  have finishes : ∀ m, Act.finish false ≠ .message m := nofun
  have last_run : Reached 10000 Smooth
      ⟨(chunkRun body rest).step 10000 (.finish false), c.asked, c.server, 2⟩ :=
    reached_act chunk_run finishes rfl rfl ⟨trivial, trivial, trivial⟩
  exact reached_act last_run finishes rfl rfl ⟨trivial, trivial, trivial⟩

theorem messageOf_chunk (entries : List Server.Entry) : ∃ body,
    messageOf ((ReaddirReply.chunk entries).toJson 1) = chunkHeard body := ⟨_, rfl⟩

theorem messageOf_last (entries : List Server.Entry) : ∃ body,
    messageOf ((ReaddirReply.last entries none).toJson 1) = lastHeard body := ⟨_, rfl⟩

/-- A file of a directory that has many. -/
def manyEntry (k : Nat) : Server.DirEntry where
  fileName := utf8Bytes ("f" ++ toString k).toList
  metadata := none

def firstEntries : List Server.Entry := (List.range readdirChunkSize).map fun k => (manyEntry k).value

def lastEntries : List Server.Entry := [manyEntry readdirChunkSize].map Server.DirEntry.value

theorem handles_many : Handles (requestOf 1 "readdir" [])
    [(ReaddirReply.chunk firstEntries).toJson 1, (ReaddirReply.last lastEntries none).toJson 1] := by
  have listed := Handles.listed none ((firstEntries ++ lastEntries).map some)
    (by decide : requestOp (requestOf 1 "readdir" []) = "readdir")
  rw [readdirStream_full] at listed
  · exact listed
  · rw [firstEntries, List.length_map, List.length_range]
  · exact (by decide : 1 < 2000)
  · exact fun _ => rfl
  · have size := length_last 1 none [manyEntry readdirChunkSize]
    apply Nat.le_trans (Nat.le_of_eq size)
    decide

/-- A directory of 2001 files: the chunk function is given the first 2000, and the reply with the
last one makes the answer whole. -/
theorem streams_whole_many : ∃ c, Reached 10000 Smooth c ∧
    c.given 1 = [told ((ReaddirReply.chunk firstEntries).toJson 1)] ∧
      ∃ answers, Handles (requestOf 1 "readdir" []) answers ∧
        c.given 1 ++ [told ((ReaddirReply.last lastEntries none).toJson 1)] = answers.map told := by
  obtain ⟨body, one⟩ := messageOf_chunk firstEntries
  obtain ⟨rest, two⟩ := messageOf_last lastEntries
  have reached := reached_listing (reached_served handles_many) servedListing_output
    servedListing_heard servedListing_client one two
  obtain ⟨answers, proper, -, whole⟩ := streams_whole reached rfl
  refine ⟨_, reached, ?_, answers, proper, ?_⟩
  · rw [given_bothRun rfl, told, one]
  · have called : (1, Reply.message (lastHeard rest)) ∈ (bothRun body rest).conn.calls := by
      rw [bothRun_calls]
      exact List.mem_singleton_self _
    rw [told, two]
    exact whole _ called rfl

end Listed

end EmacsRelay.Conversation

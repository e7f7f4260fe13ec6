import EmacsRelay.System.Conversation

set_option autoImplicit false

/- What becomes of a request in a conversation that drops nothing: at rest it has been answered, once,
and a stream has been given the whole of one answer. -/
namespace EmacsRelay.Conversation

open Server (Handles Final Serves isChunk messageId requestId serving shaped_answers written)
open RelayCore

section Client

variable {maxLength : Nat} {c : Conversation} {turn : Turn}

/-- What happens at the client in a turn. -/
def deed (c : Conversation) : Turn → Option Act
  | .act act _ _ => some act
  | .serve _ => none
  | .hear => c.server.output[c.heard]?.map fun m => .message (messageOf m)
  | .rehear index => c.server.output[index]?.map fun m => .message (messageOf m)

/-- What the client hears in a turn, and had not heard before. -/
def hears (c : Conversation) : Turn → List Json
  | .hear => c.server.output[c.heard]?.toList
  | _ => []

/-- Both ends keep to the protocol, and what happens at the client is permitted. -/
def Within (permitted : Recorded → Act → Prop) (c : Conversation) (turn : Turn) : Prop :=
  Talks c turn ∧ ∀ act, c.deed turn = some act → permitted c.client act

theorem step_client (maxLength : Nat) (c : Conversation) (turn : Turn) :
    (c.step maxLength turn).client = (c.deed turn).elim c.client (c.client.step maxLength) := by
  cases turn with
  | act act op args =>
      simp only [step, deed, Option.elim_some]
      split <;> rfl
  | serve event => rfl
  | hear =>
      simp only [step, deed]
      split
      · rename_i m next
        rw [next]
        rfl
      · rename_i none
        rw [none]
        rfl
  | rehear index =>
      simp only [step, deed]
      split
      · rename_i m again
        rw [again]
        rfl
      · rename_i none
        rw [none]
        rfl

theorem client_reached {permitted : Recorded → Act → Prop}
    (reached : Reached maxLength (Within permitted) c) :
    Recorded.Reached maxLength permitted c.client := by
  induction reached with
  | refl => exact .refl
  | @next c turn _ allowed ih =>
      rw [step_client]
      cases happens : c.deed turn with
      | none => exact ih
      | some act => exact ih.next (allowed.2 act happens)

theorem conn_reached {permitted : Conn → Act → Prop} {r : Recorded}
    (reached : Recorded.Reached maxLength (fun r => permitted r.conn) r) :
    Conn.Reached maxLength permitted r.conn := by
  induction reached with
  | refl => exact .refl
  | next _ allowed ih => exact ih.next allowed

theorem within_joined {permitted : Recorded → Act → Prop}
    (reached : Reached maxLength (Within permitted) c) : Joined c :=
  joined_reached (fun _ _ within => within.1) reached

theorem step_output (maxLength : Nat) (c : Conversation) (turn : Turn) :
    c.server.output <+: (c.step maxLength turn).server.output := by
  cases turn with
  | act act op args =>
      simp only [step]
      split
      · exact output_grows c.server _
      · exact List.prefix_rfl
  | serve event => exact output_grows c.server event
  | hear =>
      simp only [step]
      split <;> exact List.prefix_rfl
  | rehear index =>
      simp only [step]
      split <;> exact List.prefix_rfl

theorem step_dispatched (joined : Joined c) (turn : Turn) :
    (c.step maxLength turn).dispatched = c.dispatched ++ c.hears turn := by
  obtain ⟨more, output⟩ := step_output maxLength c turn
  have same : (c.step maxLength turn).server.output.take c.heard = c.dispatched := by
    rw [← output, List.take_append_of_le_length joined.heard]
    rfl
  cases turn with
  | act act op args =>
      have still : (c.step maxLength (.act act op args)).heard = c.heard := by
        simp only [step]
        split <;> rfl
      rw [dispatched, still, same]
      exact (List.append_nil _).symm
  | serve event => exact same.trans (List.append_nil _).symm
  | hear =>
      simp only [step, hears]
      split
      · rename_i m next
        rw [next]
        obtain ⟨inside, own⟩ := List.getElem?_eq_some_iff.mp next
        show c.server.output.take (c.heard + 1) = _
        rw [List.take_succ_eq_append_getElem inside, own]
        rfl
      · rename_i none
        rw [none]
        exact (List.append_nil _).symm
  | rehear index =>
      simp only [step]
      split <;> exact (List.append_nil _).symm

theorem dispatched_output (c : Conversation) : c.dispatched <+: c.server.output :=
  List.take_prefix _ _

/-- What has been written under an id was asked for under it. -/
theorem Joined.asked_of_written (joined : Joined c) {m : Json} {id : Nat}
    (member : m ∈ c.server.output) (named : messageId m = some (id : Int)) :
    0 < id ∧ id ≤ c.client.conn.nextId := by
  obtain ⟨b, begun, own⟩ := joined.accounted.known m (List.mem_append_left _ member) _ named
  have sent : b.1 ∈ c.server.sent :=
    joined.accounted.requests.mem_iff.mpr (List.mem_append_left _ (List.mem_map_of_mem begun))
  obtain ⟨n, -, numbered, positive, known⟩ := joined.sent b.1 sent
  rw [own] at numbered
  omega

theorem hears_of_mem {m : Json} (member : m ∈ c.hears turn) :
    m ∈ c.server.output ∧ c.deed turn = some (.message (messageOf m)) := by
  cases turn with
  | hear =>
      have next : c.server.output[c.heard]? = some m := Option.mem_toList.mp member
      refine ⟨List.mem_of_getElem? next, ?_⟩
      simp only [deed, next, Option.map_some]
  | _ => cases member

end Client

section Rest

variable {maxLength : Nat} {c : Conversation}

/-- The client drops no completion. -/
abbrev Careful (maxLength : Nat) (r : Recorded) (act : Act) : Prop := Lossless maxLength r.conn act

/-- A request that was sent, and not cancelled in time, is over once its last reply has been
dispatched. -/
def Attended (c : Conversation) : Prop :=
  ∀ id ∈ c.client.conn.sent, id ∉ c.client.conn.cancelled → ∀ m ∈ c.dispatched, Final id m →
    id ∈ c.client.conn.processed

/-- The requests that the client has sent have come to the server. -/
def Posted (c : Conversation) : Prop := ∀ id ∈ c.client.conn.sent, (c.asked id).isSome = true

theorem finalFor_of_final {conn : Conn} {id : Nat} {m : Json} (final : Final id m) (positive : 0 < id)
    (async : conn.isAsync id = true) : conn.finalFor (messageOf m) id = true := by
  have replies := repliesTo_of_messageId final.1 positive
  have last : (messageOf m).more = false := final.2
  unfold Conn.isAsync at async
  unfold Conn.finalFor
  cases found : conn.pending id with
  | none => simp [found] at async
  | some entry => cases entry <;> simp_all [Entry.isAsync]

theorem attended_step (attended : Attended c) (joined : Joined c) (single : Single c.client.conn)
    (delivered : Delivered c.client.conn) (turn : Turn) :
    Attended (c.step maxLength turn) := by
  unfold Attended
  rw [step_dispatched joined, step_client]
  cases happens : c.deed turn with
  | none =>
      have silent : c.hears turn = [] := by
        apply List.eq_nil_iff_forall_not_mem.mpr
        intro m member
        rw [(hears_of_mem member).2] at happens
        cases happens
      rw [silent, List.append_nil]
      exact attended
  | some act =>
      obtain ⟨-, processed, sent, cancelled⟩ := step_history maxLength c.client.conn act
      intro id opened kept m member final
      show id ∈ (c.client.conn.step maxLength act).processed
      rw [processed, List.mem_append]
      have still : id ∉ c.client.conn.cancelled := by
        rcases cancelled with same | ⟨key, -, -, -, grown⟩
        · exact same ▸ kept
        · intro member
          apply kept
          show id ∈ (c.client.conn.step maxLength act).cancelled
          rw [grown]
          exact List.mem_append_left _ member
      have written : m ∈ c.server.output := by
        rcases List.mem_append.mp member with before | now
        · exact (dispatched_output c).subset before
        · exact (hears_of_mem now).1
      obtain ⟨positive, known⟩ := joined.asked_of_written written final.1
      have before : id ∈ c.client.conn.sent := by
        have opened : id ∈ (c.client.conn.step maxLength act).sent := opened
        rcases sent with same | ⟨-, grown⟩
        · exact same ▸ opened
        · rw [grown, List.mem_append, List.mem_singleton] at opened
          exact opened.resolve_right (by omega)
      rcases List.mem_append.mp member with earlier | now
      · exact .inl (attended id before still m earlier final)
      · have heard := (hears_of_mem now).2
        rw [heard] at happens
        cases happens
        have account := delivered id before still
        by_cases async : c.client.conn.isAsync id = true
        · right
          exact (mem_ends_message single.sound.bounded).mpr (finalFor_of_final final positive async)
        · left
          apply single.moved
          simp only [Conn.account, async] at account
          exact Nat.lt_of_lt_of_eq Nat.one_pos (by simpa using account.symm)

theorem opens_sends {act : Act} {id : Nat}
    (sent : (c.client.conn.step maxLength act).sent = c.client.conn.sent ++ [id]) :
    sends act = true := by
  have kept : (c.client.conn.step maxLength act).sent = c.client.conn.sent → False := by
    intro same
    rw [same] at sent
    simpa using congrArg List.length sent
  cases act with
  | requestAsync timeout sending =>
      cases sending with
      | true => rfl
      | false =>
          exfalso
          apply kept
          cases timeout <;> rfl
  | requestStream timeout sending =>
      cases sending with
      | true => rfl
      | false =>
          exfalso
          apply kept
          cases timeout <;> rfl
  | _ =>
      exfalso
      apply kept
      rcases (step_history maxLength c.client.conn _).2.2.1 with same | ⟨opens, -⟩
      · exact same
      · cases opens

theorem posted_step (posted : Posted c) (turn : Turn) : Posted (c.step maxLength turn) := by
  have kept : ∀ id, (c.asked id).isSome = true → ((c.step maxLength turn).asked id).isSome = true := by
    intro id asked
    cases turn with
    | act act op args =>
        simp only [step]
        split
        · dsimp only
          by_cases new : id = c.client.conn.nextId + 1
          · rw [new, Function.update_self]
            rfl
          · rwa [Function.update_of_ne new]
        · exact asked
    | serve event => exact asked
    | hear =>
        simp only [step]
        split <;> exact asked
    | rehear index =>
        simp only [step]
        split <;> exact asked
  intro id opened
  rw [step_client] at opened
  cases happens : c.deed turn with
  | none =>
      rw [happens] at opened
      exact kept id (posted id opened)
  | some act =>
      rw [happens] at opened
      rcases (step_history maxLength c.client.conn act).2.2.1 with same | ⟨opens, grown⟩
      · have opened : id ∈ (c.client.conn.step maxLength act).sent := opened
        exact kept id (posted id (same ▸ opened))
      · have opened : id ∈ (c.client.conn.step maxLength act).sent := opened
        rw [grown, List.mem_append, List.mem_singleton] at opened
        rcases opened with before | new
        · exact kept id (posted id before)
        · -- only an act of the client's own opens a request
          cases turn with
          | act own op args =>
              cases happens
              have sending : sends act = true := opens_sends grown
              simp only [step, sending, if_true]
              rw [new, Function.update_self]
              rfl
          | serve event => cases happens
          | hear =>
              obtain ⟨m, -, same⟩ := Option.map_eq_some_iff.mp happens
              rw [← same] at opens
              cases opens
          | rehear index =>
              obtain ⟨m, -, same⟩ := Option.map_eq_some_iff.mp happens
              rw [← same] at opens
              cases opens

/-- What holds in a conversation that drops nothing. -/
theorem attended_reached (reached : Reached maxLength (Within (Careful maxLength)) c) :
    Attended c ∧ Posted c := by
  induction reached with
  | refl => exact ⟨nofun, nofun⟩
  | @next c turn before within ih =>
      obtain ⟨single, -, delivered⟩ := delivered_reached (conn_reached (client_reached before))
      exact ⟨attended_step ih.1 (within_joined before) single delivered turn, posted_step ih.2 turn⟩

/-- In every conversation whose client drops no completion, once the server has nothing left to do,
all that it wrote has been heard, and the client's timers have run, each asynchronous request that was
sent, and not cancelled in time, has had its completion run exactly once; unless what the server wrote
under its id is an answer without a last reply. -/
theorem answered_once (reached : Reached maxLength (Within (Careful maxLength)) c)
    (drained : c.server.Drained) (heard : c.heard = c.server.output.length)
    (settled : RelayCore.Settled c.client.conn) (id : Nat) (opened : id ∈ c.client.conn.sent)
    (kept : id ∉ c.client.conn.cancelled) :
    c.client.conn.calls.countP (·.1 == id) = 1 ∨
      ∃ req, c.asked id = some req ∧ Handles req (written c.server id) ∧
        ∀ m ∈ written c.server id, isChunk m = true := by
  have joined := within_joined reached
  obtain ⟨attended, posted⟩ := attended_reached reached
  obtain ⟨req, asked⟩ := Option.isSome_iff_exists.mp (posted id opened)
  obtain ⟨sent, own⟩ := joined.asked id req asked
  have whole := joined.accounted.told_all drained sent
  have told : c.server.told messageId (requestId req) = written c.server id := by
    rw [Pool.told, drained.outbox, List.append_nil, own]
    rfl
  rw [told] at whole
  by_cases ends : ∃ m ∈ written c.server id, isChunk m = false
  · left
    obtain ⟨m, member, last⟩ := ends
    obtain ⟨there, named⟩ := List.mem_filter.mp member
    have dispatched : m ∈ c.dispatched := by
      rw [dispatched, heard, List.take_length]
      exact there
    have answered := attended id opened kept m dispatched ⟨by simpa using named, last⟩
    exact no_completion_lost (conn_reached (client_reached reached)) settled id opened kept answered
  · right
    refine ⟨req, asked, whole, ?_⟩
    intro m member
    cases more : isChunk m with
    | true => rfl
    | false => exact absurd ⟨m, member, more⟩ ends

end Rest

theorem answered_once_stat : afterStat.client.conn.calls.countP (·.1 == 1) = 1 ∨
    ∃ req, afterStat.asked 1 = some req ∧ Handles req (written afterStat.server 1) ∧
      ∀ m ∈ written afterStat.server 1, isChunk m = true := by
  have careful : Reaches.Along (step 10000)
      (fun c turn => ∀ act, c.deed turn = some act → Careful 10000 c.client act) {} statExchange := by
    refine ⟨?_, nofun, nofun, nofun, nofun, nofun, nofun, ?_, ?_, ?_, trivial⟩
    · rintro _ ⟨⟩
      trivial
    · rintro _ ⟨⟩
      exact fun _ => by decide
    · rintro _ ⟨⟩
      exact fun _ => by decide
    · rintro _ ⟨⟩
      trivial
  have reached : Reached 10000 (Within (Careful 10000)) afterStat :=
    Reaches.of_along .refl (talks_statExchange.and careful)
  have idle : ∀ thread, afterStat.server.tasks thread = none := by
    intro thread
    cases thread with
    | none => rfl
    | some worker =>
        revert worker
        decide
  have drained : afterStat.server.Drained := ⟨rfl, rfl, rfl, idle, rfl⟩
  have settled : RelayCore.Settled afterStat.client.conn := ⟨by decide, by decide⟩
  exact answered_once reached drained rfl settled 1 (by decide) (by decide)

end EmacsRelay.Conversation

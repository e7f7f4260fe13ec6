import EmacsRelay.Core.Delivery
import EmacsRelay.Core.Heard
import EmacsRelay.Server.Serving

set_option autoImplicit false

/- A connection of the client and the server process at its other end: requests go one way, replies
and events the other, in the order in which they were written. -/
namespace EmacsRelay

open Server (Handles Serves Serving isChunk messageId present requestId serving written)
open RelayCore

/-- A message as the client parses it. -/
def messageOf (m : Json) : Message where
  id :=
    match m.get "id" with
    | some (.int id) => some id
    | _ => none
  event := present (m.get "event")
  more := isChunk m
  ok := present (m.get "ok")
  protocolVersion :=
    match m.get "protocol_version" with
    | some (.int version) => some version
    | _ => none
  capabilities :=
    match m.get "capabilities" with
    | some (.arr items) => items.filterMap Json.asStr
    | _ => []
  body := ((m.get "error").bind Json.asStr).getD (.ofList m.text)

/-- What `relay--request` and the others send. -/
def requestOf (id : Nat) (op : String) (args : List (String × Json)) : Json :=
  .obj (("id", .int id) :: ("op", .str op) :: args)

/-- The client, with the requests that it has sent by their ids; the server; and how many of the
messages that the server has written the client's filter has dispatched. -/
structure Conversation where
  client : Recorded := {}
  asked : Nat → Option Json := fun _ => none
  server : Serving := {}
  heard : Nat := 0

namespace Conversation

inductive Turn where
  /-- Anything happens at the client but that a message comes; a request is about OP. -/
  | act (act : Act) (op : String) (args : List (String × Json))
  | serve (event : Pool.Event Json Json (Fin Server.fsWorkerCount))
  | hear
  /-- The filter dispatches a message again, after the handling of one behind it has signalled. -/
  | rehear (index : Nat)

/-- A request goes out. -/
def sends : Act → Bool
  | .requestAsync _ sends => sends
  | .requestStream _ sends => sends
  | .request sends => sends
  | _ => false

def step (maxLength : Nat) (c : Conversation) : Turn → Conversation
  | .act act op args =>
      let client := c.client.step maxLength act
      if sends act then
        let id := c.client.conn.nextId + 1
        { c with
          client := client
          asked := Function.update c.asked id (some (requestOf id op args))
          server := c.server.step serving (.send (requestOf id op args)) }
      else { c with client := client }
  | .serve event => { c with server := c.server.step serving event }
  | .hear =>
      match c.server.output[c.heard]? with
      | some m =>
          { c with client := c.client.step maxLength (.message (messageOf m)), heard := c.heard + 1 }
      | none => c
  | .rehear index =>
      match c.server.output[index]? with
      | some m => { c with client := c.client.step maxLength (.message (messageOf m)) }
      | none => c

/-- Messages come from the server alone, requests from the client alone, and an id is a number of
64 bits. -/
def Talks (c : Conversation) : Turn → Prop
  | .act act _ args => (∀ m, act ≠ .message m) ∧ c.client.conn.nextId + 1 < 2 ^ 63 ∧
      "id" ∉ args.map Prod.fst
  | .serve event => Serves c.server event ∧ ∀ req, event ≠ .send req
  | .hear => True
  | .rehear index => index < c.heard

abbrev Reached (maxLength : Nat) (permitted : Conversation → Turn → Prop) (c : Conversation) : Prop :=
  Reaches (step maxLength) permitted {} c

/-- The messages that the client's filter has dispatched. -/
def dispatched (c : Conversation) : List Json := c.server.output.take c.heard

/-- The server has written the message, as a reply to request `id`. -/
def Wrote (c : Conversation) (id : Nat) (m : Message) : Prop :=
  ∃ j ∈ c.server.output, messageOf j = m ∧ messageId j = some (id : Int)

/-- Both ends agree on who asked what. -/
structure Joined (c : Conversation) : Prop where
  accounted : c.server.Accounted Handles requestId messageId
  sent : ∀ req ∈ c.server.sent, ∃ n, c.asked n = some req ∧ requestId req = (n : Int) ∧ 0 < n ∧
    n ≤ c.client.conn.nextId
  asked : ∀ n req, c.asked n = some req → req ∈ c.server.sent ∧ requestId req = (n : Int)
  told : Told c.Wrote c.client.conn
  heard : c.heard ≤ c.server.output.length

section Joined

variable {maxLength : Nat} {c : Conversation} {turn : Turn}

theorem messageId_of_repliesTo {m : Json} {id : Nat} (replies : (messageOf m).repliesTo = some id) :
    messageId m = some (id : Int) ∧ 0 < id := by
  unfold Message.repliesTo messageOf at replies
  dsimp only at replies
  unfold messageId
  split at replies
  · cases replies
  · rename_i calm
    rw [if_neg calm]
    cases found : m.get "id" with
    | none =>
        rw [found] at replies
        cases replies
    | some value =>
        rw [found] at replies
        cases value with
        | int n =>
            cases n with
            | ofNat k =>
                cases k with
                | zero => cases replies
                | succ k =>
                    cases replies
                    exact ⟨rfl, Nat.succ_pos k⟩
            | negSucc k => cases replies
        | _ => cases replies

theorem repliesTo_of_messageId {m : Json} {id : Nat} (named : messageId m = some (id : Int))
    (positive : 0 < id) : (messageOf m).repliesTo = some id := by
  unfold messageId at named
  unfold Message.repliesTo messageOf
  dsimp only
  split at named
  · cases named
  · rename_i calm
    rw [if_neg calm]
    cases found : m.get "id" with
    | none =>
        rw [found] at named
        cases named
    | some value =>
        rw [found] at named
        cases value with
        | int n =>
            cases named
            cases id with
            | zero => cases positive
            | succ k => rfl
        | _ => cases named

theorem asI64_natCast {id : Nat} (small : id < 9223372036854775808) :
    Json.asI64 (.int id) = some (id : Int) := by
  apply Json.asI64_eq_some.mpr
  refine ⟨rfl, ?_, ?_⟩
  · omega
  · omega

theorem requestId_requestOf {id : Nat} (small : id < 2 ^ 63) (op : String)
    (args : List (String × Json)) : requestId (requestOf id op args) = id := by
  have named : (requestOf id op args).get "id" = some (.int id) := by
    simp [requestOf, Server.get_obj]
  have ranged : Json.asI64 (.int id) = some (id : Int) := asI64_natCast (by omega)
  rw [requestId, named, Option.bind_some, ranged, Option.getD_some]

theorem takesId_of_sends {act : Act} (sending : sends act = true) : act.takesId = true := by
  cases act <;> first | rfl | cases sending

/-- What the server has written stays. -/
theorem output_grows (p : Serving) (event : Pool.Event Json Json (Fin Server.fsWorkerCount)) :
    p.output <+: (p.step serving event).output := by
  unfold Pool.step
  cases moved : p.advance serving event with
  | none => exact List.prefix_rfl
  | some q =>
      cases Pool.move_of_advance moved with
      | write next => exact List.prefix_append _ _
      | _ => exact List.prefix_rfl

theorem sent_step (p : Serving) {event : Pool.Event Json Json (Fin Server.fsWorkerCount)}
    (silent : ∀ req, event ≠ .send req) : (p.step serving event).sent = p.sent := by
  unfold Pool.step
  cases moved : p.advance serving event with
  | none => rfl
  | some q =>
      cases Pool.move_of_advance moved with
      | send req => exact absurd rfl (silent req)
      | _ => rfl

theorem keyed (req : Json) (answers : List Json) (proper : Handles req answers) :
    ∀ m ∈ answers, messageId m = some (requestId req) := (Server.shaped_answers proper).named

theorem joined_start : Joined {} where
  accounted := Pool.accounted_start
  sent := nofun
  asked := nofun
  told := told_start
  heard := Nat.le_refl 0

/-- A message that the server has written is dispatched. -/
theorem joined_hears (joined : Joined c) {index heard : Nat} {m : Json}
    (written : c.server.output[index]? = some m) (within : heard ≤ c.server.output.length) :
    Joined { c with client := c.client.step maxLength (.message (messageOf m)), heard := heard } := by
  constructor
  case accounted => exact joined.accounted
  case sent =>
    intro req member
    obtain ⟨n, asked, named, positive, known⟩ := joined.sent req member
    refine ⟨n, asked, named, positive, ?_⟩
    show n ≤ (c.client.conn.step maxLength _).nextId
    rw [(step_history maxLength c.client.conn _).1]
    omega
  case asked => exact joined.asked
  case told =>
    apply told_step maxLength joined.told
    intro other id same replies
    cases same
    exact ⟨m, List.mem_of_getElem? written, rfl, (messageId_of_repliesTo replies).1⟩
  case heard => exact within

theorem joined_step (joined : Joined c) (talks : Talks c turn) : Joined (c.step maxLength turn) := by
  cases turn with
  | act act op args =>
      obtain ⟨own, small, -⟩ := talks
      have told : Told c.Wrote (c.client.step maxLength act).conn :=
        told_step maxLength joined.told fun m id same => absurd same (own m)
      have grows : c.client.conn.nextId ≤ (c.client.step maxLength act).conn.nextId := by
        show _ ≤ (c.client.conn.step maxLength act).nextId
        rw [(step_history maxLength c.client.conn act).1]
        omega
      by_cases sending : sends act = true
      · have takes : (c.client.step maxLength act).conn.nextId = c.client.conn.nextId + 1 := by
          have history := (step_history maxLength c.client.conn act).1
          rwa [takesId_of_sends sending] at history
        have named := requestId_requestOf small op args
        have fresh : Serves c.server (.send (requestOf (c.client.conn.nextId + 1) op args)) := by
          show requestId _ ∉ _
          rw [named]
          intro member
          obtain ⟨req, there, same⟩ := List.mem_map.mp member
          obtain ⟨n, -, own, -, known⟩ := joined.sent req there
          omega
        simp only [step, sending, if_true]
        constructor
        case accounted =>
          exact Pool.accounted_step (d := serving) keyed joined.accounted fresh
        case sent =>
          intro req member
          rw [takes]
          have there : req ∈ c.server.sent ++ [requestOf (c.client.conn.nextId + 1) op args] := member
          rcases List.mem_append.mp there with before | new
          · obtain ⟨n, asked, own, positive, known⟩ := joined.sent req before
            refine ⟨n, ?_, own, positive, by omega⟩
            have other : n ≠ c.client.conn.nextId + 1 := by omega
            exact (Function.update_of_ne other _ _).trans asked
          · rw [List.mem_singleton.mp new]
            exact ⟨_, Function.update_self _ _ _, named, Nat.succ_pos _, Nat.le_refl _⟩
        case asked =>
          intro n req asked
          show req ∈ c.server.sent ++ [_] ∧ _
          dsimp only at asked
          by_cases new : n = c.client.conn.nextId + 1
          · rw [new, Function.update_self] at asked
            cases asked
            rw [new]
            exact ⟨List.mem_append_right _ (List.mem_singleton_self _), named⟩
          · rw [Function.update_of_ne new] at asked
            exact (joined.asked n req asked).imp_left (List.mem_append_left _)
        case told => exact told
        case heard => exact joined.heard
      · simp only [step, sending]
        constructor
        case accounted => exact joined.accounted
        case sent =>
          intro req member
          obtain ⟨n, asked, own, positive, known⟩ := joined.sent req member
          exact ⟨n, asked, own, positive, Nat.le_trans known grows⟩
        case asked => exact joined.asked
        case told => exact told
        case heard => exact joined.heard
  | serve event =>
      obtain ⟨serves, silent⟩ := talks
      obtain ⟨more, output⟩ := output_grows c.server event
      have sent := sent_step c.server silent
      constructor
      case accounted => exact Pool.accounted_step keyed joined.accounted serves
      case sent =>
        intro req member
        exact joined.sent req (sent ▸ member)
      case asked =>
        intro n req asked
        show req ∈ (c.server.step serving event).sent ∧ _
        rw [sent]
        exact joined.asked n req asked
      case told =>
        apply joined.told.mono
        rintro id m ⟨j, member, same, named⟩
        refine ⟨j, ?_, same, named⟩
        show j ∈ (c.server.step serving event).output
        rw [← output]
        exact List.mem_append_left _ member
      case heard =>
        have known := joined.heard
        show c.heard ≤ (c.server.step serving event).output.length
        rw [← output, List.length_append]
        omega
  | hear =>
      simp only [step]
      split
      · rename_i m next
        exact joined_hears joined next (List.getElem?_eq_some_iff.mp next).1
      · exact joined
  | rehear index =>
      simp only [step]
      split
      · rename_i m again
        exact joined_hears joined again joined.heard
      · exact joined

theorem joined_reached {permitted : Conversation → Turn → Prop}
    (talks : ∀ c turn, permitted c turn → Talks c turn) (reached : Reached maxLength permitted c) :
    Joined c :=
  reached.invariant joined_start fun c turn joined allowed => joined_step joined (talks c turn allowed)

/-- What the server has written under the id of a request belongs to an answer to it. -/
theorem Joined.answer (joined : Joined c) {id : Nat} {m : Message} (wrote : c.Wrote id m) :
    ∃ req answers, c.asked id = some req ∧ Handles req answers ∧
      ∃ j ∈ answers, j ∈ c.server.output ∧ messageOf j = m := by
  obtain ⟨j, member, same, named⟩ := wrote
  obtain ⟨b, begun, own⟩ := joined.accounted.known j (List.mem_append_left _ member) _ named
  have sent : b.1 ∈ c.server.sent :=
    joined.accounted.requests.mem_iff.mpr (List.mem_append_left _ (List.mem_map_of_mem begun))
  obtain ⟨n, asked, numbered, -, -⟩ := joined.sent b.1 sent
  have one : n = id := by
    rw [own] at numbered
    omega
  have said : j ∈ c.server.told messageId (requestId b.1) := by
    rw [own]
    exact List.mem_filter.mpr ⟨List.mem_append_left _ member, by simpa using named⟩
  rcases joined.accounted.told_begins sent with untold | ⟨answers, rest, proper, whole⟩
  · rw [untold] at said
    cases said
  · refine ⟨b.1, answers, one ▸ asked, proper, j, ?_, member, same⟩
    rw [whole]
    exact List.mem_append_left _ said

end Joined

/-- Whatever happens at either end, a message that a requester is given, be it the callback of a
request, the chunk function of a stream or a call that blocks, belongs to an answer of the server to
the very request that was sent under the requester's id, and the server has written it. -/
theorem own_replies {maxLength : Nat} {c : Conversation} (reached : Reached maxLength Talks c)
    (id : Nat) (m : Message)
    (given : (id, .message m) ∈ c.client.conn.calls ∨ (id, .message m) ∈ c.client.conn.chunks ∨
      (id, .reply (some (.message m))) ∈ c.client.conn.results) :
    ∃ req answers, c.asked id = some req ∧ Handles req answers ∧
      ∃ j ∈ answers, j ∈ c.server.output ∧ messageOf j = m := by
  have joined := joined_reached (fun _ _ talks => talks) reached
  apply joined.answer
  rcases given with called | chunked | returned
  · exact joined.told.called id m called
  · exact joined.told.chunked id m chunked
  · exact joined.told.given id m returned

def oneWorker : Fin Server.fsWorkerCount := ⟨0, Nat.zero_lt_succ 7⟩

/-- A request is sent, served and answered, and its callback is run. -/
def exchanged (act : Act) (op : String) (answers : List Json) : List Turn :=
  [.act act op [], .serve (.read answers), .serve .hand, .serve (.take oneWorker answers),
    .serve (.put (some oneWorker)), .serve (.finish (some oneWorker)), .serve .write, .hear,
    .act (.timer 0) "" [], .act (.finish false) "" []]

def statExchange : List Turn := exchanged (.requestAsync false true) "stat" Server.notThere

def afterStat : Conversation := statExchange.foldl (step 10000) {}

theorem talks_statExchange : Reaches.Along (step 10000) Talks {} statExchange := by
  refine ⟨⟨nofun, by decide, nofun⟩, ⟨?_, nofun⟩, ⟨trivial, nofun⟩, ⟨?_, nofun⟩, ⟨trivial, nofun⟩,
    ⟨trivial, nofun⟩, ⟨trivial, nofun⟩, trivial, ⟨nofun, by decide, nofun⟩, ⟨nofun, by decide, nofun⟩,
    trivial⟩
  · rintro request rest ⟨⟩
    exact .finished (.error "not there") (by decide) nofun
  · rintro request rest ⟨⟩
    exact .finished (.error "not there") (by decide) nofun

theorem own_replies_stat : ∃ m, (1, .message m) ∈ afterStat.client.conn.calls ∧
    ∃ req answers, afterStat.asked 1 = some req ∧ Handles req answers ∧
      ∃ j ∈ answers, j ∈ afterStat.server.output ∧ messageOf j = m := by
  refine ⟨_, List.mem_singleton_self _, ?_⟩
  exact own_replies (Reaches.of_along .refl talks_statExchange) 1 _ (.inl (List.mem_singleton_self _))

end Conversation

end EmacsRelay

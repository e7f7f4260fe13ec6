import EmacsRelay.Lib.Pool
import EmacsRelay.Server.Payload
import EmacsRelay.Server.Shutdown
import EmacsRelay.Server.Wire

set_option autoImplicit false

/- The threads of `server/src/main.rs` between a request and its reply: the reader, which answers
control operations itself, the workers, and the writer. -/
namespace EmacsRelay.Server

/-- `FS_JOB_QUEUE_CAPACITY`. -/
def fsJobQueueCapacity : Nat := 64

/-- `WRITER_QUEUE_CAPACITY`. -/
def writerQueueCapacity : Nat := 64

def requestId (req : Json) : Int := ((req.get "id").bind Json.asI64).getD 0

def requestOp (req : Json) : String := ((req.get "op").bind Json.asStr).getD ""

/-- The operations that `main` has `handle_ctl` answer. -/
def isControl (req : Json) : Bool := requestOp req ∈ ["hello", "watch", "unwatch"]

/-- `Map::insert`, in the order of keys. -/
def insertField (name : String) (value : Json) : List (String × Json) → List (String × Json)
  | [] => [(name, value)]
  | (other, old) :: fields =>
      if other = name then (name, value) :: fields
      else if name < other then (name, value) :: (other, old) :: fields
      else (other, old) :: insertField name value fields

/-- `framing::send`. -/
def send (v : Json) : List Json := if v.size ≤ maxFrameBytes then [v] else []

/-- `framing::finish`: the value with the two fields that every reply has. -/
def finish (id : Int) : Except String Json → List Json
  | .ok (.obj fields) =>
      send (.obj (insertField "ok" (.bool true) (insertField "id" (.int id) fields)))
  | .ok v => send v
  | .error e => send (.obj [("error", .str e), ("id", .int id), ("ok", .bool false)])

/-- The text of `error_code` in `wire_error`. -/
def codeText : ErrorCode → String
  | .conflict => "conflict"
  | .unstableRead => "unstable_read"
  | .unsupportedFileType => "unsupported_file_type"
  | .unsupportedEncoding => "unsupported_encoding"
  | .fileTooLarge => "file_too_large"
  | .io => "io"

/-- `revisions::wire_error`. -/
def wireError (error : RevisionError) : List (String × Json) :=
  let common := [("error", Json.str error.readable), ("error_code", .str (codeText error.code)),
    ("ok", .bool false)]
  match error with
  | .conflict kind currentRevision =>
      ("conflict", .obj [("current_revision", (currentRevision.map Revision.toValue).getD .null),
        ("kind", .str kind.wireName)]) :: common
  | _ => common

/-- `framing::finish_revision`. -/
def finishRevision (id : Int) : Except RevisionError Json → List Json
  | .ok (.obj fields) =>
      send (.obj (insertField "ok" (.bool true) (insertField "id" (.int id) fields)))
  | .ok v => send v
  | .error error => send (.obj (insertField "id" (.int id) (wireError error)))

/-- The operations, with the keys of the value that each replies with, in the order of the source. -/
def replyKeys : List (String × List String) :=
  [("hello", ["server_version", "protocol_version", "capabilities", "os", "arch"]), ("watch", []),
    ("unwatch", []), ("read", ["bytes_b64", "revision"]), ("read_range", ["bytes_b64", "start", "end"]),
    ("tail_read", ["bytes_b64", "start", "actual_end", "file_size", "dev", "ino",
      "truncated_or_rotated", "more_available"]),
    ("write", ["revision"]), ("write", ["ok"]), ("stat", ["attrs"]),
    ("resolve", ["realpath", "attrs"]), ("exec", ["exit_code", "stdout_b64", "stderr_b64"]),
    ("mkdir", []), ("rmdir", []), ("delete", []), ("rename", []), ("copy", [])]

/-- The replies to a request, whatever the operation finds: `handle_fs` and `handle_ctl` end in
`finish` or `finish_revision`, and a listing is streamed. -/
inductive Handles (req : Json) : List Json → Prop where
  | finished (result : Except String (List (String × Json))) (single : requestOp req ≠ "readdir")
      (shaped : ∀ fields, result = .ok fields →
        (requestOp req, fields.map Prod.fst) ∈ replyKeys) :
      Handles req (finish (requestId req) (result.map .obj))
  | refused (error : RevisionError) (single : requestOp req ∈ ["read", "write"]) :
      Handles req (finishRevision (requestId req) (.error error))
  | unopened (error : String) (lists : requestOp req = "readdir") :
      Handles req (finish (requestId req) (.error ("readdir: " ++ error)))
  | listed (selfAttrs : Option Attrs) (rd : List (Option Entry))
      (lists : requestOp req = "readdir") :
      Handles req ((readdirStream (fun reply => (payload (requestId req) reply).length)
        (fun _ => true) selfAttrs (.ok rd)).map (ReaddirReply.toJson (requestId req)))

/-- What the client takes for there: null, false and what is empty are nil to it. -/
def present (value : Option Json) : Bool :=
  match value.map Json.parse with
  | none => false
  | some .nil => false
  | some _ => true

/-- The id that a message replies to; those of the watcher are events, and reply to none. -/
def messageId (m : Json) : Option Int :=
  if present (m.get "event") then none
  else
    match m.get "id" with
    | some (.int id) => some id
    | _ => none

/-- The chunks of a stream before its last reply. -/
def isChunk (m : Json) : Bool := present (m.get "more")

section Replies

theorem lookup_cons_eq (name other : String) (value : Json) (fields : List (String × Json)) :
    ((name, value) :: fields).lookup other =
      if other = name then some value else fields.lookup other := by
  by_cases same : other = name
  · simp [same]
  · have apart : (other == name) = false := by simpa using same
    simp only [List.lookup_cons, apart, if_neg same]

theorem lookup_insertField (name other : String) (value : Json) (fields : List (String × Json)) :
    (insertField name value fields).lookup other =
      if other = name then some value else fields.lookup other := by
  induction fields with
  | nil => rw [insertField, lookup_cons_eq]
  | cons field fields ih =>
      obtain ⟨here, old⟩ := field
      unfold insertField
      by_cases own : here = name
      · rw [if_pos own, lookup_cons_eq, lookup_cons_eq, own]
        by_cases same : other = name
        · rw [if_pos same, if_pos same]
        · rw [if_neg same, if_neg same, if_neg same]
      · rw [if_neg own]
        split
        · rw [lookup_cons_eq]
        · rw [lookup_cons_eq, ih, lookup_cons_eq]
          by_cases same : other = here
          · rw [if_pos same, if_pos same, if_neg (same ▸ own)]
          · rw [if_neg same, if_neg same]

theorem get_obj (fields : List (String × Json)) (name : String) :
    (Json.obj fields).get name = fields.lookup name := rfl

theorem mem_send {v m : Json} (member : m ∈ send v) : m = v := by
  unfold send at member
  split at member
  · exact List.mem_singleton.mp member
  · cases member

theorem lookup_absent {name : String} {fields : List (String × Json)}
    (absent : name ∉ fields.map Prod.fst) : fields.lookup name = none := by
  induction fields with
  | nil => rfl
  | cons field fields ih =>
      obtain ⟨here, value⟩ := field
      have others : name ∉ fields.map Prod.fst := fun later => absent (List.mem_cons_of_mem _ later)
      have apart : name ≠ here := fun same => absent (same ▸ List.mem_cons_self)
      rw [lookup_cons_eq, if_neg apart, ih others]

/-- No operation replies with a value that has a field of the protocol's own, `ok` apart. -/
theorem replyKeys_apart {op : String} {keys : List String} (member : (op, keys) ∈ replyKeys) :
    "event" ∉ keys ∧ "more" ∉ keys ∧ "id" ∉ keys := by
  have all : ∀ row ∈ replyKeys, "event" ∉ row.2 ∧ "more" ∉ row.2 ∧ "id" ∉ row.2 := by decide
  exact all _ member

theorem get_reply {fields : List (String × Json)} {id : Int} (name : String) :
    (Json.obj (insertField "ok" (.bool true) (insertField "id" (.int id) fields))).get name =
      if name = "ok" then some (.bool true)
      else if name = "id" then some (.int id)
      else fields.lookup name := by
  rw [get_obj, lookup_insertField, lookup_insertField]

/-- A reply that is no chunk, under its request's id. -/
def Final (id : Int) (m : Json) : Prop := messageId m = some id ∧ isChunk m = false

theorem final_reply {fields : List (String × Json)} {id : Int}
    (event : "event" ∉ fields.map Prod.fst) (more : "more" ∉ fields.map Prod.fst) :
    Final id (.obj (insertField "ok" (.bool true) (insertField "id" (.int id) fields))) := by
  constructor
  · simp [messageId, present, get_reply, lookup_absent event]
  · simp [isChunk, present, get_reply, lookup_absent more]

theorem final_finish {id : Int} {result : Except String (List (String × Json))} {op : String}
    (shaped : ∀ fields, result = .ok fields → (op, fields.map Prod.fst) ∈ replyKeys) {m : Json}
    (member : m ∈ finish id (result.map .obj)) : Final id m := by
  cases result with
  | error e =>
      rw [mem_send member]
      exact ⟨by simp [messageId, present, get_obj, lookup_cons_eq],
        by simp [isChunk, present, get_obj, lookup_cons_eq]⟩
  | ok fields =>
      obtain ⟨event, more, -⟩ := replyKeys_apart (shaped fields rfl)
      rw [mem_send member]
      exact final_reply event more

theorem final_refused {id : Int} {error : RevisionError} {m : Json}
    (member : m ∈ finishRevision id (.error error)) : Final id m := by
  rw [mem_send member]
  constructor
  · cases error <;> simp [messageId, present, get_obj, lookup_insertField, wireError, lookup_cons_eq]
  · cases error <;> simp [isChunk, present, get_obj, lookup_insertField, wireError, lookup_cons_eq]

theorem messageId_toJson (id : Int) (reply : ReaddirReply Entry (Option Attrs)) :
    messageId (reply.toJson id) = some id := by
  cases reply <;> simp [messageId, present, ReaddirReply.toJson, get_obj, lookup_cons_eq]

theorem isChunk_toJson (id : Int) (reply : ReaddirReply Entry (Option Attrs)) :
    isChunk (reply.toJson id) = reply.more := by
  cases reply <;>
    simp [isChunk, present, ReaddirReply.toJson, get_obj, lookup_cons_eq, Json.parse,
      ReaddirReply.more]

/-- Chunks come first, and at most one reply after them. -/
structure Shaped (id : Int) (answers : List Json) : Prop where
  named : ∀ m ∈ answers, messageId m = some id
  parts : ∃ chunks last, answers = chunks ++ last ∧ (∀ m ∈ chunks, isChunk m = true) ∧
    last.length ≤ 1 ∧ ∀ m ∈ last, isChunk m = false

theorem length_send (v : Json) : (send v).length ≤ 1 := by
  unfold send
  split <;> simp

theorem shaped_single {id : Int} {answers : List Json} (single : answers.length ≤ 1)
    (final : ∀ m ∈ answers, Final id m) : Shaped id answers where
  named m member := (final m member).1
  parts := ⟨[], answers, rfl, nofun, single, fun m member => (final m member).2⟩

theorem shaped_answers {req : Json} {answers : List Json} (proper : Handles req answers) :
    Shaped (requestId req) answers := by
  cases proper with
  | finished result single shaped =>
      apply shaped_single _ fun m => final_finish shaped
      cases result <;> exact length_send _
  | refused error single => exact shaped_single (length_send _) fun m => final_refused
  | unopened error lists =>
      apply shaped_single (length_send _)
      intro m member
      have other : ∀ fields, (Except.error ("readdir: " ++ error) :
          Except String (List (String × Json))) = .ok fields →
          (requestOp req, fields.map Prod.fst) ∈ replyKeys := nofun
      exact final_finish other member
  | listed selfAttrs rd lists =>
      constructor
      · intro m member
        obtain ⟨reply, -, rfl⟩ := List.mem_map.mp member
        exact messageId_toJson _ reply
      · have mapped : ∀ replies : List (ReaddirReply Entry (Option Attrs)), ∀ b,
            (∀ reply ∈ replies, reply.more = b) →
            ∀ m ∈ replies.map (ReaddirReply.toJson (requestId req)), isChunk m = b := by
          intro replies b all m member
          obtain ⟨reply, there, rfl⟩ := List.mem_map.mp member
          rw [isChunk_toJson, all reply there]
        have chunked : ∀ chunks : List (List Entry), ∀ reply ∈
            chunks.map (ReaddirReply.chunk (α := Option Attrs)), reply.more = true := by
          intro chunks reply member
          obtain ⟨chunk, -, rfl⟩ := List.mem_map.mp member
          rfl
        unfold readdirStream
        split
        · rename_i same
          cases same
        · rename_i same
          cases same
          split
          · rename_i chunks none
            exact ⟨_, [], (List.append_nil _).symm, mapped _ _ (chunked chunks), Nat.zero_le 1, nofun⟩
          · rename_i chunks batch left
            refine ⟨_, _, List.map_append, mapped _ _ (chunked chunks), ?_, mapped _ _ ?_⟩
            · unfold sendReply
              split <;> simp
            · intro reply member
              unfold sendReply at member
              split at member
              · rw [List.mem_singleton.mp member]
                rfl
              · cases member

/-- A beginning of an answer that has a last reply is all of it. -/
theorem Shaped.whole {id : Int} {answers part : List Json} (shaped : Shaped id answers)
    (begins : part <+: answers) {m : Json} (member : m ∈ part) (last : isChunk m = false) :
    part = answers := by
  obtain ⟨chunks, ends, rfl, more, single, -⟩ := shaped.parts
  apply begins.eq_of_length_le
  rw [List.length_append]
  by_cases short : part.length ≤ chunks.length
  · have inside : part <+: chunks := List.prefix_of_prefix_length_le begins (List.prefix_append _ _) short
    rw [more m (inside.subset member)] at last
    cases last
  · omega

theorem answerable (req : Json) : ∃ answers, Handles req answers := by
  by_cases lists : requestOp req = "readdir"
  · exact ⟨_, .unopened "" lists⟩
  · exact ⟨_, .finished (.error "") lists nofun⟩

end Replies

/-- The reader, the workers, the queue between them, and that to the writer. -/
abbrev Serving := Pool Json Json (Fin fsWorkerCount)

def serving : Pool.Design Json where
  queue := fsJobQueueCapacity
  outbox := writerQueueCapacity
  inline := isControl

/-- Requests come under ids of their own, messages that are no replies have none, and threads
answer as `handle_fs` and `handle_ctl` do. -/
abbrev Serves : Serving → Pool.Event Json Json (Fin fsWorkerCount) → Prop :=
  Pool.Allows Handles requestId messageId

/-- The replies that have been written under an id. -/
def written (p : Serving) (id : Int) : List Json :=
  p.output.filter fun m => decide (messageId m = some id)

/-- What has been written under the id of a request is the beginning of one answer to it. -/
theorem written_begins {p : Serving} (accounted : p.Accounted Handles requestId messageId) {req : Json}
    (sent : req ∈ p.sent) : ∃ answers, Handles req answers ∧ written p (requestId req) <+: answers := by
  rcases accounted.told_begins sent with untold | ⟨answers, rest, proper, whole⟩
  · obtain ⟨answers, proper⟩ := answerable req
    rw [Pool.told, List.filter_append] at untold
    refine ⟨answers, proper, ?_⟩
    rw [written, (List.append_eq_nil_iff.mp untold).1]
    exact List.nil_prefix
  · refine ⟨answers, proper, ?_⟩
    rw [whole, Pool.told, List.filter_append, List.append_assoc]
    exact List.prefix_append _ _

/-- In every run of the server's threads, what has been written under the id of a request is the
beginning of one answer to it; and in whatever order the threads go on, the whole of one answer to
each request is written. -/
theorem requests_answered {p : Serving} (reached : Reaches (Pool.step serving) Serves {} p) :
    (∀ req ∈ p.sent, ∃ answers, Handles req answers ∧ written p (requestId req) <+: answers) ∧
    Inevitable (Pool.advance serving) (Pool.Works Handles requestId messageId)
      (fun q => ∀ req ∈ p.sent, Handles req (written q (requestId req))) p := by
  have keyed : ∀ req answers, Handles req answers → ∀ m ∈ answers,
      messageId m = some (requestId req) := fun req answers proper => (shaped_answers proper).named
  have accounted := Pool.accounted_reached keyed reached
  constructor
  · exact fun req sent => written_begins accounted sent
  · have worker : Nonempty (Fin fsWorkerCount) := ⟨⟨0, by decide⟩⟩
    have drains := Pool.inevitably_drained (d := serving) answerable keyed (by decide) (by decide)
      accounted
    apply drains.mono
    rintro q ⟨drained, accounted, same⟩ req sent
    have all := accounted.told_all drained (same ▸ sent)
    rwa [Pool.told, drained.outbox, List.append_nil] at all

/-- A request, and a reply that says that the file is not there. -/
def statRequest : Json := .obj [("id", .int 1), ("op", .str "stat"), ("path", .str "/gone")]

def notThere : List Json := [.obj [("error", .str "not there"), ("id", .int 1), ("ok", .bool false)]]

theorem notThere_answers : Handles statRequest notThere :=
  .finished (.error "not there") (by decide) nofun

def workedOn : List (Pool.Event Json Json (Fin fsWorkerCount)) :=
  [.send statRequest, .read notThere, .hand, .take ⟨0, by decide⟩ notThere, .put (some ⟨0, by decide⟩)]

theorem requests_answered_stat :
    Inevitable (Pool.advance serving) (Pool.Works Handles requestId messageId)
      (fun q => ∀ req ∈ [statRequest], Handles req (written q (requestId req)))
      (workedOn.foldl (Pool.step serving) {}) := by
  have reached : Reaches (Pool.step serving) Serves {} (workedOn.foldl (Pool.step serving) {}) := by
    apply Reaches.of_along .refl
    refine ⟨nofun, ?_, trivial, ?_, trivial, trivial⟩
    · rintro request rest ⟨⟩
      exact notThere_answers
    · rintro request rest ⟨⟩
      exact notThere_answers
  exact (requests_answered reached).2

end EmacsRelay.Server

import EmacsRelay.Server.Serving
import EmacsRelay.System.Exchange

set_option autoImplicit false

/- Replies to reads and writes on the wire: the messages that the server makes of what it has done,
and what the client makes of the messages. -/
namespace EmacsRelay

open Server (Handles Final finish finishRevision insertField lookup_cons_eq lookup_insertField mem_send
  requestId requestOp wireError)

/-- The reply of `handle_fs` to a write. -/
def FsReply.sent (id : Int) : FsReply → List Json
  | .revision written => finishRevision id (.ok (.obj [("revision", written.toValue)]))
  | .refused reason => finishRevision id (.error reason)
  | .failed message => finish id (.error message)
  | .ok => finish id (.ok (.obj [("ok", .bool true)]))

/-- The reply of `handle_fs` to a read. -/
def sentRead (id : Int) (result : Except RevisionError RevisionRead) : List Json :=
  finishRevision id (result.map fun read =>
    .obj [("bytes_b64", .str (.ofList (base64Encode read.bytes))), ("revision", read.revision.toValue)])

/-- `relay-conflict--reply-reason`, of a reply as it is parsed. -/
def reasonOf (reply : Datum) : Datum :=
  match (reply.get "conflict").get "kind" with
  | .nil =>
      match reply.get "error_code" with
      | .str code =>
          if code ∈ ["unsupported_file_type", "unsupported_encoding", "file_too_large"] then
            .str "type_changed"
          else .nil
      | _ => .nil
  | kind => kind

/-- The branches of `relay-save--write-done`, with what they take from the reply. -/
inductive WriteDone where
  | success (revision : Datum)
  | reconcile
  | conflict (reason : Datum)
  | failure (error : Datum)

def writeDone (reply : Datum) : WriteDone :=
  match reply.get "ok" with
  | .nil =>
      match reply.get "transport" with
      | .nil =>
          match reasonOf reply with
          | .nil =>
              match reply.get "error" with
              | .nil => .failure (.str "Relay save failed")
              | error => .failure error
          | reason => .conflict reason
      | _ => .reconcile
  | _ => .success (reply.get "revision")

/-- What the callback of `relay-conflict--fetch-async` is called with; `base64-decode-string` signals
where there are no bytes. -/
inductive FetchDone where
  | fetched (bytes : Option Bytes) (revision : Datum)
  | failed (error : Datum)

def fetchDone (reply : Datum) : FetchDone :=
  match reply.get "ok" with
  | .nil => .failed (reply.get "error")
  | _ =>
      match reply.get "bytes_b64" with
      | .str encoded => .fetched (base64Decode encoded.toList) (reply.get "revision")
      | _ => .fetched none (reply.get "revision")

/-- The branch for a reply to a write. -/
def WriteReply.done : WriteReply → WriteDone
  | .ok revision => .success (tokenDatum (some revision))
  | .transport _ => .reconcile
  | .refused code conflict error =>
      match RelayConflict.replyReason (.refused code conflict error) with
      | some (.kind kind) => .conflict (.str kind.wireName)
      | _ => .failure (.str (error.getD "Relay save failed"))

def ReadReply.done : ReadReply → FetchDone
  | .ok bytes revision => .fetched (some bytes) (tokenDatum (some revision))
  | .failed error => .failed ((error.map .str).getD .nil)

section Decoding

variable {id : Int} {m : Json}

theorem lookup_parseFields (fields : List (String × Json)) (name : String) :
    (Json.parseFields fields).lookup name = (fields.lookup name).map Json.parse := by
  induction fields with
  | nil => rfl
  | cons field fields ih =>
      obtain ⟨here, value⟩ := field
      rw [Json.parseFields, lookup_cons_eq]
      by_cases same : name = here
      · simp [same]
      · have apart : (name == here) = false := by simpa using same
        rw [if_neg same, List.lookup_cons, apart, ← ih]

/-- `plist-get` of a parsed object. -/
theorem get_parse (fields : List (String × Json)) (name : String) :
    (Json.obj fields).parse.get name = ((fields.lookup name).map Json.parse).getD .nil := by
  cases fields with
  | nil => rfl
  | cons field fields =>
      show Datum.plistGet (Json.parseFields (field :: fields)) name = _
      rw [Datum.plistGet, lookup_parseFields]

theorem get_finished (fields : List (String × Json)) (name : String) :
    (Json.obj (insertField "ok" (.bool true) (insertField "id" (.int id) fields))).parse.get name =
      if name = "ok" then .t
      else if name = "id" then .int id
      else ((fields.lookup name).map Json.parse).getD .nil := by
  rw [get_parse, lookup_insertField, lookup_insertField]
  split
  · rfl
  · split
    · rfl
    · rfl

theorem get_wireError (reason : RevisionError) (name : String) :
    (Json.obj (insertField "id" (.int id) (wireError reason))).parse.get name =
      if name = "id" then .int id else (((wireError reason).lookup name).map Json.parse).getD .nil := by
  rw [get_parse, lookup_insertField]
  split
  · rfl
  · rfl

/-- The reason that the client finds in an error of a revision, and its text. -/
theorem reasonOf_wireError (reason : RevisionError) :
    reasonOf (Json.obj (insertField "id" (.int id) (wireError reason))).parse =
      match RelayConflict.replyReason (.refused (some reason.code) reason.conflictKind
        (some reason.readable)) with
      | some (.kind kind) => .str kind.wireName
      | _ => .nil := by
  have kind : ∀ (kind : ConflictKind) (current : Json),
      (Json.obj [("current_revision", current), ("kind", .str kind.wireName)]).parse.get "kind" =
        .str kind.wireName := by
    intro kind current
    rw [get_parse]
    rfl
  unfold reasonOf
  rw [get_wireError, get_wireError]
  cases reason with
  | conflict conflictKind current =>
      simp [wireError, kind, RelayConflict.replyReason, RevisionError.conflictKind]
  | _ => rfl

theorem writeDone_refused (reason : RevisionError) :
    writeDone (Json.obj (insertField "id" (.int id) (wireError reason))).parse =
      (WriteReply.refused (some reason.code) reason.conflictKind (some reason.readable)).done := by
  have failed : (Json.obj (insertField "id" (.int id) (wireError reason))).parse.get "ok" = .nil := by
    rw [get_wireError]
    cases reason <;> rfl
  have arrived : (Json.obj (insertField "id" (.int id) (wireError reason))).parse.get "transport" =
      .nil := by
    rw [get_wireError]
    cases reason <;> rfl
  have text : (Json.obj (insertField "id" (.int id) (wireError reason))).parse.get "error" =
      .str reason.readable := by
    rw [get_wireError]
    cases reason <;> rfl
  unfold writeDone WriteReply.done
  rw [failed, arrived, text, reasonOf_wireError]
  dsimp only
  cases RelayConflict.replyReason
      (.refused (some reason.code) reason.conflictKind (some reason.readable)) with
  | none => rfl
  | some found => cases found <;> rfl

theorem send_eq_of_mem {v : Json} (member : m ∈ Server.send v) : v = m ∧ Server.send v = [m] := by
  have same := (mem_send member).symm
  unfold Server.send at member ⊢
  split at member
  · rename_i fits
    rw [if_pos fits]
    exact ⟨same, congrArg (fun v => [v]) same⟩
  · cases member

/-- A failure without a reason to ask about is told with its text. -/
theorem writeDone_failed (message : String) :
    writeDone (Json.obj [("error", .str message), ("id", .int id), ("ok", .bool false)]).parse =
      (WriteReply.refused none none (some message)).done := by
  have parsed := get_parse [("error", .str message), ("id", .int id), ("ok", .bool false)]
  unfold writeDone reasonOf
  simp only [parsed]
  rfl

theorem tokenDatum_present (revision : Revision) :
    tokenDatum (some (.present revision)) = revision.toValue.parse := rfl

theorem sent_answers {req : Json} (writes : requestOp req = "write") (reply : FsReply) :
    Handles req (reply.sent (requestId req)) := by
  have single : requestOp req ≠ "readdir" := by
    rw [writes]
    decide
  cases reply with
  | revision written =>
      apply Handles.finished (.ok [("revision", written.toValue)]) single
      rintro fields ⟨⟩
      rw [writes]
      show ("write", ["revision"]) ∈ Server.replyKeys
      decide
  | refused reason => exact .refused reason (by rw [writes]; decide)
  | failed message => exact .finished (.error message) single nofun
  | ok =>
      apply Handles.finished (.ok [("ok", .bool true)]) single
      rintro fields ⟨⟩
      rw [writes]
      decide

theorem sentRead_answers {req : Json} (reads : requestOp req = "read")
    (result : Except RevisionError RevisionRead) : Handles req (sentRead (requestId req) result) := by
  cases result with
  | ok read =>
      apply Handles.finished (.ok [("bytes_b64", .str (.ofList (base64Encode read.bytes))),
        ("revision", read.revision.toValue)])
      · rw [reads]
        decide
      · rintro fields ⟨⟩
        rw [reads]
        show ("read", ["bytes_b64", "revision"]) ∈ Server.replyKeys
        decide
  | error reason => exact .refused reason (by rw [reads]; decide)

/-- A reply to a write is one message, which the client takes for that reply. -/
theorem sent_decoded {reply : FsReply} {w : WriteReply} (told : reply.toClient = some w)
    (member : m ∈ reply.sent id) : reply.sent id = [m] ∧ writeDone m.parse = w.done := by
  cases reply with
  | revision written =>
      cases told
      obtain ⟨rfl, single⟩ := send_eq_of_mem member
      refine ⟨single, ?_⟩
      unfold writeDone
      simp only [get_finished]
      rfl
  | refused reason =>
      cases told
      obtain ⟨rfl, single⟩ := send_eq_of_mem member
      exact ⟨single, writeDone_refused reason⟩
  | failed message =>
      cases told
      obtain ⟨rfl, single⟩ := send_eq_of_mem member
      exact ⟨single, writeDone_failed message⟩
  | ok => cases told

theorem sentRead_decoded {result : Except RevisionError RevisionRead} (member : m ∈ sentRead id result) :
    sentRead id result = [m] ∧ fetchDone m.parse = (readReply result).done := by
  cases result with
  | ok read =>
      obtain ⟨rfl, single⟩ := send_eq_of_mem member
      refine ⟨single, ?_⟩
      unfold fetchDone
      simp only [get_finished]
      simp [lookup_cons_eq, Json.parse, base64Decode_encode, readReply, ReadReply.done,
        tokenDatum_present]
  | error reason =>
      obtain ⟨rfl, single⟩ := send_eq_of_mem member
      refine ⟨single, ?_⟩
      unfold fetchDone
      rw [get_wireError, get_wireError]
      cases reason <;> rfl

end Decoding

/-- What the server sends of the outcome of a read or of a write is an answer to the request, of one
message at most; and the client, which parses it, takes it for that very outcome: the revision that was
saved or the bytes and the revision that were read, a conflict of the same kind, or a failure with the
same text. -/
theorem replies_decoded (req : Json) :
    (requestOp req = "write" → ∀ reply : FsReply, Handles req (reply.sent (requestId req)) ∧
      ∀ w, reply.toClient = some w → ∀ m ∈ reply.sent (requestId req),
        reply.sent (requestId req) = [m] ∧ writeDone m.parse = w.done) ∧
    (requestOp req = "read" → ∀ result, Handles req (sentRead (requestId req) result) ∧
      ∀ m ∈ sentRead (requestId req) result, sentRead (requestId req) result = [m] ∧
        fetchDone m.parse = (readReply result).done) :=
  ⟨fun writes reply => ⟨sent_answers writes reply, fun _ told _ => sent_decoded told⟩,
    fun reads result => ⟨sentRead_answers reads result, fun _ => sentRead_decoded⟩⟩

theorem replies_decoded_deleted :
    Handles (.obj [("id", .int 7), ("op", .str "write")])
      ((FsReply.refused (.conflict .deleted none)).sent 7) ∧
    ∀ m ∈ (FsReply.refused (.conflict .deleted none)).sent 7,
      writeDone m.parse = .conflict (.str "deleted") := by
  have decoded := (replies_decoded (.obj [("id", .int 7), ("op", .str "write")])).1 rfl
    (.refused (.conflict .deleted none))
  exact ⟨decoded.1, fun m member => (decoded.2 _ rfl m member).2⟩

end EmacsRelay

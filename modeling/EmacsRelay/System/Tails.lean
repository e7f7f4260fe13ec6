import EmacsRelay.Core.Chunked
import EmacsRelay.System.Ranges

set_option autoImplicit false

/- `relay-tail-read-async` of `lisp/relay-core.el` on the wire: the request that the server gets, and
the result that the client makes of the reply. -/
namespace EmacsRelay

open FsHandlers (handleTail numberField sentTail)
open Server (Handles expandHome lookup_cons_eq requestId requestOp)

namespace RelayTailRead

/-- The arguments that `relay-tail-read-async` sends. -/
def arguments (path : String) (knownOffset : Nat) (knownDev knownIno : Option Nat) (maxBytes : Nat) :
    List (String × Datum) :=
  [("path", .str path), ("known_offset", .int knownOffset), ("max_bytes", .int maxBytes)] ++
    (knownDev.elim [] fun dev => [("known_dev", .int dev)]) ++
    knownIno.elim [] fun ino => [("known_ino", .int ino)]

/-- The callback that is called for a reply, if the bytes in it can be decoded. -/
inductive Called where
  | onSuccess (result : Datum)
  | onError (failure : Datum)
  | signalled

def tailResult (bytes : Bytes) (reply : Datum) : Datum :=
  .plist [("bytes", .bytes bytes), ("start", reply.get "start"), ("actual-end", reply.get "actual_end"),
    ("file-size", reply.get "file_size"), ("dev", reply.get "dev"), ("ino", reply.get "ino"),
    ("truncated-or-rotated", reply.get "truncated_or_rotated"),
    ("more-available", reply.get "more_available")]

/-- The callback of the request. -/
def tailDone (reply : Datum) : Called :=
  match reply.get "ok" with
  | .nil => .onError (.plist [("ok", .nil), ("error", reply.get "error")])
  | _ =>
      match reply.get "bytes_b64" with
      | .nil => .onSuccess (tailResult [] reply)
      | .str encoded =>
          match base64Decode encoded.toList with
          | some bytes => .onSuccess (tailResult bytes reply)
          | none => .signalled
      | _ => .signalled

def holds : Datum → Bool
  | .nil => false
  | _ => true

/-- What the callback of a chunk takes from its result. -/
def chunk (result : Datum) : Option TailRead :=
  match result.get "bytes", result.get "start", result.get "actual-end", result.get "file-size",
      result.get "dev", result.get "ino" with
  | .bytes bytes, .int start, .int actualEnd, .int fileSize, .int dev, .int ino =>
      some
        { bytes := bytes
          start := start.toNat
          actualEnd := actualEnd.toNat
          fileSize := fileSize.toNat
          dev := dev.toNat
          ino := ino.toNat
          truncatedOrRotated := holds (result.get "truncated-or-rotated")
          moreAvailable := holds (result.get "more-available") }
  | _, _, _, _, _, _ => none

/-- The callback that is called has the result of the read, or the text of its error. -/
def Told : Except RevisionError (Option TailRead) → Called → Prop
  | .ok (some tail), .onSuccess result => chunk result = some tail
  | .error reason, .onError failure => failure.get "error" = .str reason.readable
  | _, _ => False

section Wire

variable {path : String} {offset maxBytes : Nat} {dev ino : Option Nat} {id : Nat}

def request (id : Nat) (path : String) (offset : Nat) (dev ino : Option Nat) (maxBytes : Nat) : Json :=
  .obj ([("id", .int id), ("op", .str "tail_read"), ("path", .str path), ("known_offset", .int offset),
    ("max_bytes", .int maxBytes)] ++ (dev.elim [] fun dev => [("known_dev", .int dev)]) ++
    ino.elim [] fun ino => [("known_ino", .int ino)])

theorem request_sent : requestMessage id "tail_read" (arguments path offset dev ino maxBytes) =
    some (request id path offset dev ino maxBytes) := by
  cases dev with
  | none => cases ino <;> rfl
  | some dev => cases ino <;> rfl

theorem get_request (name : String) :
    (request id path offset dev ino maxBytes).get name =
      if name = "id" then some (.int id)
      else if name = "op" then some (.str "tail_read")
      else if name = "path" then some (.str path)
      else if name = "known_offset" then some (natural offset)
      else if name = "max_bytes" then some (natural maxBytes)
      else if name = "known_dev" then dev.map natural
      else if name = "known_ino" then ino.map natural
      else none := by
  have field : ∀ fields, (Json.obj fields).get name = fields.lookup name := fun _ => rfl
  unfold request
  rw [field]
  by_cases device : name = "known_dev"
  · cases dev <;> cases ino <;> simp [lookup_cons_eq, device, natural]
  · cases dev <;> cases ino <;> simp [lookup_cons_eq, device, natural]

theorem requestOp_request : requestOp (request id path offset dev ino maxBytes) = "tail_read" := by
  unfold requestOp
  rw [get_request]
  rfl

theorem get_arguments (id : Nat) (path : String) (offset : Nat) (dev ino : Option Nat) (maxBytes : Nat) :
    (request id path offset dev ino maxBytes).get "path" = some (.str path) ∧
      (request id path offset dev ino maxBytes).get "known_offset" = some (natural offset) ∧
      (request id path offset dev ino maxBytes).get "max_bytes" = some (natural maxBytes) ∧
      (request id path offset dev ino maxBytes).get "known_dev" = dev.map natural ∧
      (request id path offset dev ino maxBytes).get "known_ino" = ino.map natural := by
  refine ⟨?_, ?_, ?_, ?_, ?_⟩
  · rw [get_request]
    simp
  · rw [get_request]
    simp
  · rw [get_request]
    simp
  · rw [get_request]
    simp
  · rw [get_request]
    simp

/-- The server reads what a request asks for. -/
theorem handleTail_eq (r : Reader) {req knownOffset most : Json} {knownDev knownIno : Option Json}
    (located : req.get "path" = some (.str path)) (known : req.get "known_offset" = some knownOffset)
    (limit : req.get "max_bytes" = some most) (device : req.get "known_dev" = knownDev)
    (number : req.get "known_ino" = knownIno) :
    handleTail r req =
      Program.bind (tailReadOp (r.locate (expandHome r.home path)) knownOffset knownDev knownIno most)
        fun result => .done (sentTail (requestId req) result) := by
  have place := RelayFileHandler.requestPath_of_get r located
  unfold handleTail tailReadOp numberField
  rw [place, known, limit, device, number]
  rfl

theorem tailDone_error {reply : Datum} (no : reply.get "ok" = .nil) :
    tailDone reply = .onError (.plist [("ok", .nil), ("error", reply.get "error")]) := by
  unfold tailDone
  rw [no]

theorem tailDone_ok {reply : Datum} {bytes : Bytes} (ok : reply.get "ok" = .t)
    (there : reply.get "bytes_b64" = .str (.ofList (base64Encode bytes))) :
    tailDone reply = .onSuccess (tailResult bytes reply) := by
  unfold tailDone
  rw [ok, there]
  dsimp only
  rw [String.toList_ofList, base64Decode_encode]

theorem holds_flag (b : Bool) : holds (Json.bool b).parse = b := by
  cases b <;> rfl

/-- The fields of the reply are those of the result. -/
theorem chunk_result {reply : Datum} {tail : TailRead} (start : reply.get "start" = .int tail.start)
    (actualEnd : reply.get "actual_end" = .int tail.actualEnd)
    (fileSize : reply.get "file_size" = .int tail.fileSize) (dev : reply.get "dev" = .int tail.dev)
    (ino : reply.get "ino" = .int tail.ino)
    (moved : reply.get "truncated_or_rotated" = (Json.bool tail.truncatedOrRotated).parse)
    (more : reply.get "more_available" = (Json.bool tail.moreAvailable).parse) :
    chunk (tailResult tail.bytes reply) = some tail := by
  have field : ∀ fields name, (Datum.plist fields).get name = (fields.lookup name).getD .nil :=
    fun _ _ => rfl
  unfold chunk tailResult
  rw [start, actualEnd, fileSize, dev, ino, moved, more]
  simp [field, List.lookup_cons, holds_flag]

theorem sentTail_told {id : Int} (ranged : (Json.int id).size ≤ 20)
    {result : Except RevisionError (Option TailRead)}
    (sized : ∀ read, result = .ok read → ∃ tail, read = some tail ∧ tail.Sized)
    (brief : ∀ reason, result = .error reason → reason.Short) :
    ∃ m, sentTail id result = [m] ∧ Told result (tailDone m.parse) := by
  cases result with
  | ok read =>
      obtain ⟨tail, rfl, small⟩ := sized read rfl
      obtain ⟨m, single⟩ := sentTail_single ranged small
      refine ⟨m, single, ?_⟩
      obtain ⟨rfl, -⟩ := send_eq_of_mem (single ▸ List.mem_singleton_self m)
      rw [tailDone_ok (by rw [get_finished]; rfl) (by rw [get_finished]; rfl)]
      apply chunk_result
      · rw [get_finished]
        simp [lookup_cons_eq, Json.parse]
      · rw [get_finished]
        simp [lookup_cons_eq, Json.parse]
      · rw [get_finished]
        simp [lookup_cons_eq, Json.parse]
      · rw [get_finished]
        simp [lookup_cons_eq, Json.parse]
      · rw [get_finished]
        simp [lookup_cons_eq, Json.parse]
      · rw [get_finished]
        simp [lookup_cons_eq]
      · rw [get_finished]
        simp [lookup_cons_eq]
  | error reason =>
      obtain ⟨m, single⟩ := failure_single ranged (readable_short (brief reason rfl))
      refine ⟨m, single, ?_⟩
      obtain ⟨rfl, -⟩ := send_eq_of_mem (single ▸ List.mem_singleton_self m)
      rw [tailDone_error (by rw [get_parse]; rfl), get_parse]
      rfl

theorem sentTail_answers {req : Json} (reads : requestOp req = "tail_read")
    {result : Except RevisionError (Option TailRead)}
    (some_tail : ∀ read, result = .ok read → ∃ tail, read = some tail) :
    Handles req (sentTail (requestId req) result) := by
  have single : requestOp req ≠ "readdir" := by
    rw [reads]
    decide
  cases result with
  | ok read =>
      obtain ⟨tail, rfl⟩ := some_tail read rfl
      apply Handles.finished (.ok [("bytes_b64", .str (.ofList (base64Encode tail.bytes))),
        ("start", .int tail.start), ("actual_end", .int tail.actualEnd),
        ("file_size", .int tail.fileSize), ("dev", .int tail.dev), ("ino", .int tail.ino),
        ("truncated_or_rotated", .bool tail.truncatedOrRotated),
        ("more_available", .bool tail.moreAvailable)]) single
      rintro fields ⟨⟩
      rw [reads]
      show ("tail_read", ["bytes_b64", "start", "actual_end", "file_size", "dev", "ino",
        "truncated_or_rotated", "more_available"]) ∈ Server.replyKeys
      decide
  | error reason => exact .finished (.error reason.readable) single nofun

end Wire

/-- A tail read from its call to its callback: the server reads what was asked for, numbers that are not
of 64 bits apart, and whatever the system returns within its types, it replies once, and one callback is
called: with the very result of the read, from which the next chunk goes on, or with the text of its
error. -/
theorem tail_reads_understood (path : String) (offset maxBytes : Nat) (dev ino : Option Nat) (id : Nat) :
    ∃ req, requestMessage id "tail_read" (arguments path offset dev ino maxBytes) = some req ∧
      requestOp req = "tail_read" ∧
      ∀ r : Reader,
        let read := tailReadOp (r.locate (expandHome r.home path)) (natural offset) (dev.map natural)
          (ino.map natural) (natural maxBytes)
        handleTail r req = Program.bind read (fun result => .done (sentTail (requestId req) result)) ∧
        Program.wp TypedCalls read (fun result _ => ∃ m, sentTail (requestId req) result = [m] ∧
          Handles req [m] ∧ Told result (tailDone m.parse)) () := by
  have reads : requestOp (request id path offset dev ino maxBytes) = "tail_read" := requestOp_request
  have given := get_arguments id path offset dev ino maxBytes
  refine ⟨_, request_sent, reads, ?_⟩
  intro r read
  constructor
  · exact handleTail_eq r given.1 given.2.1 given.2.2.1 given.2.2.2.1 given.2.2.2.2
  · have measured : Measured (fun read => ∃ tail, read = some tail ∧ tail.Sized) read :=
      measured_tailRead _ _ _ _ _
    apply Program.wp_mono measured
    intro result t covered
    have sized : ∀ read, result = .ok read → ∃ tail, read = some tail ∧ tail.Sized := by
      rintro _ rfl
      exact covered
    have brief : ∀ reason, result = .error reason → reason.Short := by
      rintro _ rfl
      exact covered
    have answers := sentTail_answers reads fun read same => (sized read same).imp fun _ both => both.1
    obtain ⟨m, single, told⟩ := sentTail_told (size_requestId (request id path offset dev ino maxBytes))
      sized brief
    exact ⟨m, single, single ▸ answers, told⟩

end RelayTailRead

end EmacsRelay

import EmacsRelay.Server.Tail
import EmacsRelay.System.Replies

set_option autoImplicit false

/- Replies with contents are never too large for a frame: `framing::send` drops what is, and the limits
of `read`, `read_range`, `tail_read`, conditional writes and `exec` keep it from that. -/
namespace EmacsRelay

open Json (decimals decimals_le escapeChar keySize length_escapeChar_le quotedSize quotedSize_le size_obj)
open Server (finish finishRevision insertField lookup_cons_eq maxFrameBytes requestId wireError)
open Trial (wp wp_bind wp_ite wp_mono wp_ofExcept wp_guarded)

namespace FsHandlers

def numberField (req : Json) (name : String) : Option Nat := (req.get name).bind Json.asU64

/-- The reply of `handle_fs` to a `read_range`. -/
def sentRange (id : Int) (start finish : Nat) (result : Except RevisionError Bytes) : List Json :=
  Server.finish id ((result.map fun bytes =>
    .obj [("bytes_b64", .str (.ofList (base64Encode bytes))), ("start", .int start),
      ("end", .int finish)]).mapError RevisionError.readable)

/-- And to a `tail_read`; there is none when its arithmetic overflows. -/
def sentTail (id : Int) (result : Except RevisionError (Option TailRead)) : List Json :=
  match result with
  | .error reason => Server.finish id (.error reason.readable)
  | .ok none => []
  | .ok (some tail) =>
      Server.finish id (.ok (.obj [("bytes_b64", .str (.ofList (base64Encode tail.bytes))),
        ("start", .int tail.start), ("actual_end", .int tail.actualEnd),
        ("file_size", .int tail.fileSize), ("dev", .int tail.dev), ("ino", .int tail.ino),
        ("truncated_or_rotated", .bool tail.truncatedOrRotated),
        ("more_available", .bool tail.moreAvailable)]))

/-- The operations of `handle_fs` that reply with contents, and the conditional write. -/
def handleRead (r : Reader) (req : Json) : Program Call Answer (List Json) :=
  Program.bind (readWithRevision (requestPath r req)) fun result => .done (sentRead (requestId req) result)

def handleRange (r : Reader) (req : Json) : Program Call Answer (List Json) :=
  let start := (numberField req "start").getD 0
  let finish := (numberField req "end").getD start
  Program.bind (readRange (requestPath r req) start finish) fun result =>
    .done (sentRange (requestId req) start finish result)

def handleTail (r : Reader) (req : Json) : Program Call Answer (List Json) :=
  let knownOffset := (numberField req "known_offset").getD 0
  let maxBytes := (numberField req "max_bytes").getD 0
  Program.bind
    (tailRead (requestPath r req) knownOffset (numberField req "known_dev") (numberField req "known_ino")
      maxBytes)
    fun result => .done (sentTail (requestId req) result)

end FsHandlers

/-- Calls return what the types of `libc` can hold, and a `read` no more than its buffer. -/
def TypedAnswer : (request : Call) → Answer request → Prop
  | .lstat _, answer => ∀ metadata, answer = .ok metadata → metadata.Ranged
  | .fstat _, answer => ∀ metadata, answer = .ok metadata → metadata.Ranged
  | .read _ _ length, answer => ∀ bytes, answer = .ok bytes → bytes.length ≤ length
  | _, _ => True

/-- Whatever calls return, within their types. -/
abbrev TypedCalls : Rule Call Answer Unit := (Kernel.answering TypedAnswer).rule

/-- A revision of a file that is there. -/
def Revision.Issued (r : Revision) : Prop := r.Ranged ∧ r.isValidFileRevision = true

/-- The texts that an error brings into a reply are short. -/
def RevisionError.Short : RevisionError → Prop
  | .conflict _ (some revision) => revision.Issued
  | .io message => message.toList.length ≤ 100
  | _ => True

/-- The program returns what is good, and stops with short errors only. -/
def Measured {α : Type} (good : α → Prop) (body : Io α) : Prop :=
  wp TypedCalls body (fun value _ => good value) (fun reason _ => reason.Short) ()

section Sizes

/-- Nothing in it is escaped. -/
theorem base64Encode_plain (bytes : Bytes) :
    ∀ c ∈ base64Encode bytes, (utf8Bytes (escapeChar c)).length ≤ 1 := by
  have digit : ∀ n, n < 64 → (utf8Bytes (escapeChar (base64Digit n))).length ≤ 1 := by
    have all : ∀ m : Fin 64, (utf8Bytes (escapeChar (base64Digit m))).length ≤ 1 := by decide
    exact fun n small => all ⟨n, small⟩
  have padding : (utf8Bytes (escapeChar '=')).length ≤ 1 := by decide
  have bound := fun a : UInt8 => a.toNat_lt
  fun_induction base64Encode bytes with
  | case1 =>
      intro c member
      cases member
  | case2 a =>
      have := bound a
      simp only [List.forall_mem_cons, List.not_mem_nil, false_implies, implies_true, and_true]
      exact ⟨digit _ (by omega), digit _ (by omega), padding, padding⟩
  | case3 a b =>
      have := bound a
      have := bound b
      simp only [List.forall_mem_cons, List.not_mem_nil, false_implies, implies_true, and_true]
      exact ⟨digit _ (by omega), digit _ (by omega), digit _ (by omega), padding⟩
  | case4 a b c rest ih =>
      have := bound a
      have := bound b
      have := bound c
      simp only [List.forall_mem_cons]
      exact ⟨digit _ (by omega), digit _ (by omega), digit _ (by omega), digit _ (by omega), ih⟩

/-- What contents cost in a reply. -/
theorem size_contents (bytes : Bytes) {most : Nat} (small : bytes.length ≤ most) :
    (Json.str (.ofList (base64Encode bytes))).size ≤ 2 + 4 * ((most + 2) / 3) := by
  have short := quotedSize_le (base64Encode_plain bytes)
  rw [length_base64Encode] at short
  rw [Json.size_str, String.toList_ofList]
  omega

theorem size_nat {n : Nat} (small : n < 2 ^ 64) : (Json.int n).size ≤ 20 :=
  decimals_le (by omega) (by omega)

/-- A text, however it is escaped. -/
theorem size_short {text : String} {most : Nat} (short : text.toList.length ≤ most) :
    (Json.str text).size ≤ 2 + 6 * most := by
  have each : quotedSize text.toList ≤ 2 + 6 * text.toList.length :=
    quotedSize_le fun c _ => length_escapeChar_le c
  rw [Json.size_str]
  omega

/-- A field more. -/
theorem size_insertField (name : String) (value : Json) (fields : List (String × Json)) :
    (Json.obj (insertField name value fields)).size ≤
      (Json.obj fields).size + keySize name + value.size + 1 := by
  have grows : ((insertField name value fields).map fun field => keySize field.1 + field.2.size).sum ≤
      keySize name + value.size + (fields.map fun field => keySize field.1 + field.2.size).sum ∧
      (insertField name value fields).length ≤ fields.length + 1 := by
    induction fields with
    | nil => exact ⟨Nat.le_refl _, Nat.le_refl _⟩
    | cons field fields ih =>
        obtain ⟨other, old⟩ := field
        unfold insertField
        split
        · simp only [List.map_cons, List.sum_cons, List.length_cons]
          omega
        · split
          · simp only [List.map_cons, List.sum_cons, List.length_cons]
            omega
          · simp only [List.map_cons, List.sum_cons, List.length_cons] at ih ⊢
            omega
  rw [size_obj, size_obj]
  omega

theorem size_revision {r : Revision} (issued : r.Issued) : r.toValue.size ≤ 800 := by
  obtain ⟨ranged, valid⟩ := issued
  have digest : r.sha256.toList.length = 64 := by
    simp only [Revision.isValidFileRevision, Bool.and_eq_true, beq_iff_eq] at valid
    exact valid.1.2
  have keys : keySize "schema" = 9 ∧ keySize "state" = 8 ∧ keySize "kind" = 7 ∧ keySize "dev" = 6 ∧
      keySize "ino" = 6 ∧ keySize "size" = 7 ∧ keySize "mtime_sec" = 12 ∧ keySize "mtime_nsec" = 13 ∧
      keySize "ctime_sec" = 12 ∧ keySize "ctime_nsec" = 13 ∧ keySize "mode" = 7 ∧
      keySize "sha256" = 9 := by decide
  have texts : (Json.str "present").size = 9 ∧ (Json.str "file").size = 6 := by decide
  have schema := size_nat (Nat.lt_trans ranged.schema (by decide))
  have dev := size_nat ranged.dev
  have ino := size_nat ranged.ino
  have size := size_nat ranged.size
  have mode := size_nat (Nat.lt_trans ranged.mode (by decide))
  have mtimeSec := decimals_le ranged.mtimeSec.1 (by have := ranged.mtimeSec.2; omega)
  have mtimeNsec := decimals_le ranged.mtimeNsec.1 (by have := ranged.mtimeNsec.2; omega)
  have ctimeSec := decimals_le ranged.ctimeSec.1 (by have := ranged.ctimeSec.2; omega)
  have ctimeNsec := decimals_le ranged.ctimeNsec.1 (by have := ranged.ctimeNsec.2; omega)
  have sha256 := size_short (Nat.le_of_eq digest)
  rw [Json.size_int] at schema dev ino size mode
  rw [Revision.toValue, size_obj]
  simp only [Revision.fields, List.map_cons, List.map_nil, List.sum_cons, List.sum_nil,
    List.length_cons, List.length_nil, keys, texts, Json.size_int]
  omega

end Sizes

section Frames

variable {id : Int}

/-- A message that is not too large is sent. -/
theorem send_single {v : Json} (fits : v.size ≤ maxFrameBytes) : ∃ m, Server.send v = [m] :=
  ⟨v, if_pos fits⟩

theorem keys_of_replies : keySize "id" = 5 ∧ keySize "ok" = 5 ∧ keySize "error" = 8 ∧
    keySize "error_code" = 13 ∧ keySize "conflict" = 11 ∧ keySize "current_revision" = 19 ∧
    keySize "kind" = 7 ∧ keySize "bytes_b64" = 12 ∧ keySize "revision" = 11 := by decide

/-- The two fields that a reply has besides its value. -/
theorem size_finished (ranged : (Json.int id).size ≤ 20) {fields : List (String × Json)}
    (small : (Json.obj fields).size + 40 ≤ maxFrameBytes) :
    (Json.obj (insertField "ok" (.bool true) (insertField "id" (.int id) fields))).size ≤
      maxFrameBytes := by
  have outer := size_insertField "ok" (.bool true) (insertField "id" (.int id) fields)
  have inner := size_insertField "id" (.int id) fields
  have yes : (Json.bool true).size = 4 := rfl
  have keys := keys_of_replies
  omega

theorem finish_single (ranged : (Json.int id).size ≤ 20) {fields : List (String × Json)}
    (small : (Json.obj fields).size + 40 ≤ maxFrameBytes) :
    ∃ m, Server.finish id (.ok (.obj fields)) = [m] :=
  send_single (size_finished ranged small)

theorem finishRevision_single (ranged : (Json.int id).size ≤ 20) {fields : List (String × Json)}
    (small : (Json.obj fields).size + 40 ≤ maxFrameBytes) :
    ∃ m, finishRevision id (.ok (.obj fields)) = [m] :=
  send_single (size_finished ranged small)

theorem failure_single (ranged : (Json.int id).size ≤ 20) {error : String}
    (short : error.toList.length ≤ 200) : ∃ m, Server.finish id (.error error) = [m] := by
  apply send_single
  have text := size_short short
  have no : (Json.bool false).size = 5 := rfl
  have keys := keys_of_replies
  have most : maxFrameBytes = 33554432 := rfl
  rw [size_obj]
  simp only [List.map_cons, List.map_nil, List.sum_cons, List.sum_nil, List.length_cons,
    List.length_nil, no, keys]
  omega

theorem readable_short {reason : RevisionError} (short : reason.Short) :
    reason.readable.toList.length ≤ 200 := by
  cases reason with
  | conflict kind current =>
      have all : ∀ kind : ConflictKind, ("write conflict: " ++ kind.readableName).toList.length ≤ 200 := by
        intro kind
        cases kind <;> decide
      exact all kind
  | unsupportedFinalType kind =>
      have all : ∀ kind : FinalType,
          ("read: unsupported final file type: " ++ kind.text).toList.length ≤ 200 := by
        intro kind
        cases kind <;> decide
      exact all kind
  | io message => exact Nat.le_trans short (by decide)
  | unstableRead => decide
  | unsupportedEncoding => decide
  | tooLarge => decide

/-- The object of a conflict. -/
theorem size_conflict {kind : ConflictKind} {current : Option Revision}
    (short : (RevisionError.conflict kind current).Short) :
    (Json.obj [("current_revision", (current.map Revision.toValue).getD .null),
      ("kind", .str kind.wireName)]).size ≤ 900 := by
  have names : (Json.str kind.wireName).size ≤ 14 := by
    cases kind <;> decide
  have revision : ((current.map Revision.toValue).getD .null).size ≤ 800 := by
    cases current with
    | none => decide
    | some revision => exact size_revision short
  have keys := keys_of_replies
  rw [size_obj]
  simp only [List.map_cons, List.map_nil, List.sum_cons, List.sum_nil, List.length_cons,
    List.length_nil, keys]
  omega

theorem size_wireError {reason : RevisionError} (short : reason.Short) :
    (Json.obj (wireError reason)).size ≤ 3000 := by
  have text := size_short (readable_short short)
  have codes : ∀ code, (Json.str (Server.codeText code)).size ≤ 30 := by
    intro code
    cases code <;> decide
  have code := codes reason.code
  have no : (Json.bool false).size = 5 := rfl
  have keys := keys_of_replies
  have common : (Json.obj [("error", .str reason.readable),
      ("error_code", .str (Server.codeText reason.code)), ("ok", .bool false)]).size ≤ 2000 := by
    rw [size_obj]
    simp only [List.map_cons, List.map_nil, List.sum_cons, List.sum_nil, List.length_cons,
      List.length_nil, no, keys]
    omega
  cases reason with
  | conflict kind current =>
      have conflict := size_conflict short
      rw [wireError, size_obj, List.map_cons, List.sum_cons]
      rw [size_obj] at common
      simp only [List.length_cons, List.length_nil, keys] at common ⊢
      omega
  | _ => exact Nat.le_trans common (by decide)

theorem refused_single (ranged : (Json.int id).size ≤ 20) {reason : RevisionError}
    (short : reason.Short) : ∃ m, finishRevision id (.error reason) = [m] := by
  apply send_single
  have small := size_wireError short
  have inner := size_insertField "id" (.int id) (wireError reason)
  have keys := keys_of_replies
  have most : maxFrameBytes = 33554432 := rfl
  omega

/-- The id of a request is one of 64 bits. -/
theorem size_requestId (req : Json) : (Json.int (requestId req)).size ≤ 20 := by
  unfold requestId
  cases given : (req.get "id").bind Json.asI64 with
  | none => decide
  | some n =>
      obtain ⟨value, -, number⟩ := Option.bind_eq_some_iff.mp given
      obtain ⟨-, low, high⟩ := Json.asI64_eq_some.mp number
      have here : decimals n ≤ 20 := decimals_le low (by omega)
      exact here

end Frames

section Programs

variable {α β : Type}

theorem measured_bind {good : α → Prop} {better : β → Prop} {first : Io α} {next : α → Io β}
    (one : Measured good first) (rest : ∀ value, good value → Measured better (next value)) :
    Measured better (first >>= next) := by
  unfold Measured
  rw [wp_bind]
  exact wp_mono one (fun value _ holds => rest value holds) fun _ _ short => short

theorem measured_any {good : α → Prop} {body : Io α} (measured : Measured good body) :
    Measured (fun _ => True) body :=
  wp_mono measured (fun _ _ _ => trivial) fun _ _ short => short

theorem measured_ask (request : Call) : Measured (TypedAnswer request) (ask request) :=
  fun _ typed => typed

theorem measured_failed {context : String} (brief : context.toList.length ≤ 40) (e : OsError)
    {good : α → Prop} : Measured good (Trial.stop (ioError context e)) := by
  have texts : ∀ e : OsError, (": " ++ e.text).toList.length ≤ 60 := by
    intro e
    cases e <;> decide
  have text := texts e
  show (context ++ ": " ++ e.text).toList.length ≤ 100
  rw [String.append_assoc, String.toList_append, List.length_append]
  omega

theorem measured_ofExcept {context : String} (brief : context.toList.length ≤ 40)
    {result : Except OsError α} {good : α → Prop} (holds : ∀ value, result = .ok value → good value) :
    Measured good (Trial.ofExcept (ioError context) result) := by
  cases result with
  | ok value => exact holds value rfl
  | error e => exact measured_failed brief e

theorem measured_require (test : Bool) {reason : RevisionError} (short : reason.Short) :
    Measured (fun _ => test = true) (require test reason) := by
  cases test with
  | true => exact rfl
  | false => exact short

theorem measured_refuseType (metadata : Metadata) :
    Measured (fun _ => True) (refuseType metadata) := by
  unfold refuseType
  split
  · exact trivial
  · exact trivial

theorem measured_checkedLstat (path : Path) :
    Measured (fun _ => True) (checkedLstat path) := by
  apply measured_bind (measured_any (measured_ask _))
  intro result _
  cases result with
  | ok metadata => exact trivial
  | error e =>
      cases e with
      | notFound => exact trivial
      | _ => exact measured_failed (by decide) _

theorem measured_openChecked (path : Path) : Measured (fun _ => True) (openChecked path) := by
  apply measured_bind (measured_checkedLstat path)
  intro initial _
  cases initial with
  | none => show "read: file not found".toList.length ≤ 100; decide
  | some metadata =>
      apply measured_bind (measured_refuseType metadata)
      intro _ _
      apply measured_bind (measured_any (measured_ask _))
      intro opened _
      exact measured_ofExcept (by decide) fun _ _ => trivial

/-- What a read of a revision returns. -/
def RevisionRead.Sized (read : RevisionRead) : Prop :=
  read.bytes.length ≤ maxReadBytes ∧ read.revision.Issued

theorem measured_readToEnd (file : Inode) (offset limit : Nat) :
    Measured (fun _ => True) (readToEnd file offset limit) := by
  apply readOn_all
  · exact fun result => trivial
  · exact fun offset limit next rest =>
      measured_bind (measured_any (measured_ask _)) fun chunk _ => rest chunk
  · exact fun body join rest => measured_bind rest fun _ _ => trivial

theorem short_tooLarge : RevisionError.tooLarge.Short := trivial

theorem short_unsupportedEncoding : RevisionError.unsupportedEncoding.Short := trivial

theorem measured_readAttempt (path : Path) :
    Measured (fun read => ∀ found, read = some found → found.Sized) (readAttempt path) := by
  apply measured_bind (measured_openChecked path)
  intro file _
  apply measured_bind (measured_ask (.fstat file))
  intro sampled _
  apply measured_bind (measured_ofExcept (by decide) fun _ _ => trivial)
  intro before _
  apply measured_bind (measured_refuseType before)
  intro _ _
  apply measured_bind (measured_require _ short_tooLarge)
  intro _ _
  apply measured_bind (measured_readToEnd file 0 _)
  intro content _
  apply measured_bind (measured_ofExcept (by decide) fun _ _ => trivial)
  intro bytes _
  apply measured_bind (measured_require _ short_tooLarge)
  intro _ small
  apply measured_bind (measured_ask (.fstat file))
  intro sampled ranged
  apply measured_bind (measured_ofExcept (by decide) ranged)
  intro after ranged
  apply measured_bind (measured_refuseType after)
  intro _ _
  split
  · apply measured_bind (measured_require _ short_unsupportedEncoding)
    intro _ _ found same
    rw [← Option.some.inj same]
    exact ⟨of_decide_eq_true small, ranged_fromMetadata ranged _, isValidFileRevision_fromMetadata _ _⟩
  · intro found same
    cases same

theorem measured_readWithRevision (path : Path) :
    Measured RevisionRead.Sized (readWithRevision path) := by
  have attempts : ∀ n, Measured RevisionRead.Sized (readAttempts path n) := by
    intro n
    induction n with
    | zero => exact trivial
    | succ n ih =>
        apply measured_bind (measured_readAttempt path)
        intro read sized
        cases read with
        | none => exact ih
        | some found => exact sized found rfl
  exact attempts readLimit

theorem measured_missingAppearance {good : α → Prop} (path : Path) (metadata : Metadata) :
    Measured good (missingAppearanceConflict path metadata) := by
  unfold missingAppearanceConflict
  split
  · exact trivial
  · exact trivial
  · apply measured_bind (measured_readWithRevision path)
    intro current sized
    exact sized.2

theorem measured_conflictForExisting (expected : ExpectedRevision) (path : Path) :
    Measured (fun _ => True) (conflictForExisting expected path) := by
  cases expected with
  | missing =>
      apply measured_bind (measured_checkedLstat path)
      intro found _
      cases found with
      | none => exact trivial
      | some metadata => exact measured_missingAppearance path metadata
  | present revision =>
      have invalid : (RevisionError.io "write: invalid expected revision").Short := by
        show "write: invalid expected revision".toList.length ≤ 100
        decide
      apply measured_bind (measured_require _ invalid)
      intro _ _
      apply measured_bind (measured_checkedLstat path)
      intro found _
      cases found with
      | none => exact trivial
      | some metadata =>
          dsimp only
          split
          · exact trivial
          · exact trivial
          · apply measured_bind (measured_readWithRevision path)
            intro current sized
            split
            · exact trivial
            · exact sized.2

theorem measured_newTemp (process : Process) (path : Path) (tries : Nat) :
    Measured (fun _ => True) (newTemp process path tries) := by
  induction tries with
  | zero =>
      show "write(temp): exhausted unique temporary names".toList.length ≤ 100
      decide
  | succ tries ih =>
      apply measured_bind (measured_any (measured_ask _))
      intro serial _
      apply measured_bind (measured_any (measured_ask _))
      intro created _
      split
      · exact trivial
      · exact ih
      · exact measured_failed (by decide) _

theorem measured_call {context : String} (brief : context.toList.length ≤ 40)
    (request : Io (Except OsError Unit)) (asked : Measured (fun _ => True) request) :
    Measured (fun _ => True) (do
      let answer ← request
      Trial.ofExcept (ioError context) answer) :=
  measured_bind asked fun _ _ => measured_ofExcept brief fun _ _ => trivial

theorem measured_preserveMetadata (file : Inode) (original : Option Metadata) :
    Measured (fun _ => True) (preserveMetadata file original) := by
  cases original with
  | none => exact trivial
  | some metadata =>
      apply measured_bind (measured_any (measured_ask _))
      intro owned _
      apply measured_bind (measured_ofExcept (by decide) fun _ _ => trivial)
      intro _ _
      exact measured_call (by decide) _ (measured_any (measured_ask _))

theorem measured_publish (expected : ExpectedRevision) (temp path : Path) :
    Measured (fun _ => True) (publish expected temp path) := by
  cases expected with
  | present revision => exact measured_call (by decide) _ (measured_any (measured_ask _))
  | missing =>
      apply measured_bind (measured_any (measured_ask _))
      intro linked _
      split
      · exact measured_call (by decide) _ (measured_any (measured_ask _))
      · apply measured_bind (measured_checkedLstat path)
        intro found _
        cases found with
        | none =>
            show "write(publish): destination disappeared after collision".toList.length ≤ 100
            decide
        | some metadata => exact measured_missingAppearance path metadata
      · exact measured_failed (by decide) _

theorem measured_guarded {good : α → Prop} {body : Io α} (measured : Measured good body)
    (cleanup : Program Call Answer Unit) : Measured good (Trial.guarded body cleanup) := by
  unfold Measured
  rw [wp_guarded]
  refine wp_mono measured (fun _ _ holds => holds) ?_
  intro reason t short
  exact Program.wp_mono (Program.wp_true cleanup t) fun _ _ _ => short

theorem measured_conditionalWriteLocked (process : Process) (path : Path) (bytes : Bytes)
    (expected : ExpectedRevision) :
    Measured Revision.Issued (conditionalWriteLocked process path bytes expected) := by
  apply measured_bind (measured_require _ short_tooLarge)
  intro _ _
  apply measured_bind (measured_require _ short_unsupportedEncoding)
  intro _ _
  apply measured_bind (measured_conflictForExisting expected path)
  intro _ _
  apply measured_bind (measured_checkedLstat path)
  intro original _
  apply measured_bind (measured_newTemp process path 100)
  rintro ⟨temp, file⟩ _
  have written : Measured (fun _ => True) (writeTemp file bytes) :=
    measured_call (by decide) _ (measured_any (measured_ask _))
  have synced : Measured (fun _ => True) (syncTemp file) :=
    measured_call (by decide) _ (measured_any (measured_ask _))
  have staged : Measured (fun _ => True) (do
      preserveMetadata file original
      writeTemp file bytes
      syncTemp file
      conflictForExisting expected path
      publish expected temp path) := by
    apply measured_bind (measured_preserveMetadata file original)
    intro _ _
    apply measured_bind written
    intro _ _
    apply measured_bind synced
    intro _ _
    apply measured_bind (measured_conflictForExisting expected path)
    intro _ _
    exact measured_publish expected temp path
  apply measured_bind (measured_guarded staged _)
  intro _ _
  apply measured_bind (measured_readWithRevision path)
  intro published sized
  split
  · exact sized.2
  · exact sized.2

theorem measured_readOn (file : Inode) (fuel offset limit : Nat) :
    Measured (fun result => ∀ bytes, result = .ok bytes → bytes.length ≤ limit)
      (readOn file fuel offset limit) := by
  have nothing : ∀ (limit : Nat) (bytes : Bytes), (.ok [] : Except OsError Bytes) = .ok bytes →
      bytes.length ≤ limit := by
    rintro limit bytes ⟨⟩
    exact Nat.zero_le limit
  induction fuel generalizing offset limit with
  | zero => exact nothing limit
  | succ fuel ih =>
      unfold readOn
      split
      · exact nothing limit
      · apply measured_bind (measured_ask (.read file offset limit))
        intro chunk typed
        split
        · exact nofun
        · exact nothing limit
        · rename_i bytes _
          have short : bytes.length ≤ limit := typed bytes rfl
          apply measured_bind (ih (offset + bytes.length) (limit - bytes.length))
          intro rest within more joined
          cases rest with
          | error e => cases joined
          | ok others =>
              have few := within others rfl
              rw [← Except.ok.inj joined, List.length_append]
              omega

theorem measured_rangeAttempt (path : Path) {start finish : Nat}
    (narrow : finish - start ≤ maxRangeBytes) :
    Measured (fun read => ∀ bytes, read = some bytes → bytes.length ≤ maxRangeBytes)
      (rangeAttempt path start finish) := by
  apply measured_bind (measured_openChecked path)
  intro file _
  apply measured_bind (measured_any (measured_ask _))
  intro sampled _
  apply measured_bind (measured_ofExcept (by decide) fun _ _ => trivial)
  intro before _
  apply measured_bind (measured_refuseType before)
  intro _ _
  dsimp only
  split
  · intro bytes same
    rw [← Option.some.inj same]
    exact Nat.zero_le _
  · apply measured_bind (measured_readOn file _ start _)
    intro content within
    apply measured_bind (measured_ofExcept (by decide) within)
    intro bytes small
    apply measured_bind (measured_any (measured_ask _))
    intro sampled _
    apply measured_bind (measured_ofExcept (by decide) fun _ _ => trivial)
    intro after _ found same
    split at same
    · rw [← Option.some.inj same]
      have actualEnd := Nat.min_le_left finish before.size
      omega
    · cases same

theorem measured_readRange (path : Path) (start finish : Nat) :
    Measured (fun bytes => bytes.length ≤ maxRangeBytes) (readRange path start finish) := by
  unfold readRange
  split
  · exact trivial
  · rename_i within
    have narrow : finish - start ≤ maxRangeBytes := by omega
    have attempts : ∀ n, Measured (fun bytes => bytes.length ≤ maxRangeBytes)
        (rangeAttempts path start finish n) := by
      intro n
      induction n with
      | zero => exact trivial
      | succ n ih =>
          apply measured_bind (measured_rangeAttempt path narrow)
          intro read small
          cases read with
          | none => exact ih
          | some bytes => exact small bytes rfl
    exact attempts readLimit

/-- What a tail read returns: its numbers are in the ranges of their types. -/
structure TailRead.Sized (tail : TailRead) : Prop where
  bytes : tail.bytes.length ≤ maxTailBytes
  start : tail.start < 2 ^ 64
  actualEnd : tail.actualEnd < 2 ^ 64
  fileSize : tail.fileSize < 2 ^ 64
  dev : tail.dev < 2 ^ 64
  ino : tail.ino < 2 ^ 64

theorem measured_tailBytes (file : Inode) (start wantEnd : Nat) :
    Measured (fun read => ∃ bytes, read = some bytes ∧ bytes.length ≤ wantEnd - start)
      (tailBytes file start wantEnd) := by
  unfold tailBytes
  split
  · rename_i ahead
    rw [checkedSub_of_lt ahead]
    apply measured_bind (measured_readOn file _ start _)
    intro content within
    apply measured_bind (measured_ofExcept (by decide) within)
    intro bytes small
    exact ⟨bytes, rfl, small⟩
  · exact ⟨[], rfl, Nat.zero_le _⟩

theorem tailReply_sized {metadata : Metadata} (ranged : metadata.Ranged) {start : Nat} {bytes : Bytes}
    (moved : Bool) (whole : start + bytes.length ≤ metadata.size) (small : bytes.length ≤ maxTailBytes) :
    ∃ tail, (some bytes).bind (tailReply metadata start moved) = some tail ∧ tail.Sized := by
  have size := ranged.size
  have top : u64Max = 18446744073709551615 := rfl
  have fits : start + bytes.length ≤ u64Max := by omega
  refine ⟨⟨bytes, start, start + bytes.length, metadata.size, metadata.inode.dev, metadata.inode.ino,
    moved, decide (start + bytes.length < metadata.size)⟩, ?_, ?_⟩
  · rw [Option.bind_some, tailReply, checkedAdd, if_pos fits]
    rfl
  · constructor
    case bytes => exact small
    case start => show start < 2 ^ 64; omega
    case actualEnd => show start + bytes.length < 2 ^ 64; omega
    case fileSize => exact size
    case dev => exact ranged.dev
    case ino => exact ranged.ino

theorem measured_tailRead (path : Path) (knownOffset : Nat) (knownDev knownIno : Option Nat)
    (maxBytes : Nat) :
    Measured (fun read => ∃ tail, read = some tail ∧ tail.Sized)
      (tailRead path knownOffset knownDev knownIno maxBytes) := by
  apply measured_bind (measured_openChecked path)
  intro file _
  apply measured_bind (measured_ask (.fstat file))
  intro sampled ranged
  apply measured_bind (measured_ofExcept (by decide) ranged)
  intro metadata ranged
  apply measured_bind (measured_refuseType metadata)
  intro _ _
  dsimp only
  generalize moved_eq : truncatedOrRotated metadata knownOffset knownDev knownIno = moved
  have start_le : (if moved = true then 0 else knownOffset) ≤ metadata.size := by
    split
    · exact Nat.zero_le _
    · rename_i still
      rw [← moved_eq] at still
      simp only [truncatedOrRotated, Bool.or_eq_true, decide_eq_true_eq] at still
      omega
  generalize (if moved = true then 0 else knownOffset) = start at start_le ⊢
  apply measured_bind (measured_tailBytes file start _)
  rintro _ ⟨bytes, rfl, small⟩
  have capped := Nat.min_le_right maxBytes maxTailBytes
  have whole := Nat.min_le_right (saturatingAdd start (min maxBytes maxTailBytes)) metadata.size
  have wanted := Nat.min_le_left (saturatingAdd start (min maxBytes maxTailBytes)) metadata.size
  have near : saturatingAdd start (min maxBytes maxTailBytes) ≤ start + min maxBytes maxTailBytes :=
    Nat.min_le_left _ _
  exact tailReply_sized ranged moved (by omega) (by omega)

end Programs

section Replies

variable {id : Int}

theorem sentRead_single (ranged : (Json.int id).size ≤ 20) {read : RevisionRead} (sized : read.Sized) :
    ∃ m, sentRead id (.ok read) = [m] := by
  apply finishRevision_single ranged
  have contents := size_contents read.bytes sized.1
  have revision := size_revision sized.2
  have most : maxFrameBytes = 33554432 := rfl
  have limit : maxReadBytes = 16777216 := rfl
  have keys := keys_of_replies
  rw [size_obj]
  simp only [List.map_cons, List.map_nil, List.sum_cons, List.sum_nil, List.length_cons,
    List.length_nil, keys]
  omega

theorem sentRange_single (ranged : (Json.int id).size ≤ 20) {start finish : Nat} (first : start < 2 ^ 64)
    (last : finish < 2 ^ 64) {bytes : Bytes} (small : bytes.length ≤ maxRangeBytes) :
    ∃ m, FsHandlers.sentRange id start finish (.ok bytes) = [m] := by
  apply finish_single ranged
  have contents := size_contents bytes small
  have start_size := size_nat first
  have end_size := size_nat last
  have most : maxFrameBytes = 33554432 := rfl
  have limit : maxRangeBytes = 1048576 := rfl
  have keys : keySize "bytes_b64" = 12 ∧ keySize "start" = 8 ∧ keySize "end" = 6 := by decide
  rw [size_obj]
  simp only [List.map_cons, List.map_nil, List.sum_cons, List.sum_nil, List.length_cons,
    List.length_nil, keys]
  omega

theorem sentTail_single (ranged : (Json.int id).size ≤ 20) {tail : TailRead} (sized : tail.Sized) :
    ∃ m, FsHandlers.sentTail id (.ok (some tail)) = [m] := by
  apply finish_single ranged
  have contents := size_contents tail.bytes sized.bytes
  have start := size_nat sized.start
  have actualEnd := size_nat sized.actualEnd
  have fileSize := size_nat sized.fileSize
  have dev := size_nat sized.dev
  have ino := size_nat sized.ino
  have flags : ∀ b : Bool, (Json.bool b).size ≤ 5 := by decide
  have moved := flags tail.truncatedOrRotated
  have more := flags tail.moreAvailable
  have most : maxFrameBytes = 33554432 := rfl
  have limit : maxTailBytes = 1048576 := rfl
  have keys : keySize "bytes_b64" = 12 ∧ keySize "start" = 8 ∧ keySize "actual_end" = 13 ∧
      keySize "file_size" = 12 ∧ keySize "dev" = 6 ∧ keySize "ino" = 6 ∧
      keySize "truncated_or_rotated" = 23 ∧ keySize "more_available" = 17 := by decide
  rw [size_obj]
  simp only [List.map_cons, List.map_nil, List.sum_cons, List.sum_nil, List.length_cons,
    List.length_nil, keys]
  omega

theorem numberField_lt {req : Json} {name : String} {n : Nat}
    (given : FsHandlers.numberField req name = some n) : n < 2 ^ 64 := by
  obtain ⟨value, -, number⟩ := Option.bind_eq_some_iff.mp given
  exact (Json.asU64_eq_some.mp number).2

theorem numberField_getD_lt {req : Json} {name : String} {other : Nat} (small : other < 2 ^ 64) :
    (FsHandlers.numberField req name).getD other < 2 ^ 64 := by
  cases given : FsHandlers.numberField req name with
  | none => exact small
  | some n => exact numberField_lt given

/-- A handler replies to what its program returns and to the errors it stops with. -/
theorem replies_single {α : Type} {good : α → Prop} {body : Io α} (measured : Measured good body)
    {sent : Except RevisionError α → List Json}
    (value : ∀ value, good value → ∃ m, sent (.ok value) = [m])
    (error : ∀ reason : RevisionError, reason.Short → ∃ m, sent (.error reason) = [m]) :
    Program.wp TypedCalls (Program.bind body fun result => .done (sent result))
      (fun replies _ => ∃ m, replies = [m]) () := by
  apply (Program.wp_bind body _ _ _).mpr
  apply Program.wp_mono measured
  intro result t covered
  cases result with
  | ok found => exact value found covered
  | error reason => exact error reason covered

end Replies

/-- A request for contents, and a conditional write, is answered by exactly one message, whatever the
files are and whatever the system returns within its types: no reply to them is dropped because it does
not fit a frame. -/
theorem content_replies_fit (r : Reader) (process : Process) (req : Json) :
    Program.wp TypedCalls (FsHandlers.handleRead r req) (fun replies _ => ∃ m, replies = [m]) () ∧
    Program.wp TypedCalls (FsHandlers.handleRange r req) (fun replies _ => ∃ m, replies = [m]) () ∧
    Program.wp TypedCalls (FsHandlers.handleTail r req) (fun replies _ => ∃ m, replies = [m]) () ∧
    ∀ path bytes expected,
      Program.wp TypedCalls
        (FsHandlers.finishRevision (conditionalWriteLocked process path bytes expected))
        (fun reply _ => ∃ m, reply.sent (requestId req) = [m]) () := by
  have ranged := size_requestId req
  have told : ∀ reason : RevisionError, reason.Short →
      ∃ m, Server.finish (requestId req) (.error reason.readable) = [m] :=
    fun reason short => failure_single ranged (readable_short short)
  refine ⟨?_, ?_, ?_, ?_⟩
  · exact replies_single (measured_readWithRevision _) (fun read => sentRead_single ranged)
      fun reason => refused_single ranged
  · have first : (FsHandlers.numberField req "start").getD 0 < 2 ^ 64 := numberField_getD_lt (by decide)
    exact replies_single (measured_readRange _ _ _)
      (fun bytes => sentRange_single ranged first (numberField_getD_lt first)) told
  · apply replies_single (measured_tailRead _ _ _ _ _) _ told
    rintro _ ⟨tail, rfl, sized⟩
    exact sentTail_single ranged sized
  · intro path bytes expected
    apply (Program.wp_bind (conditionalWriteLocked process path bytes expected) _ _ _).mpr
    apply Program.wp_mono (measured_conditionalWriteLocked process path bytes expected)
    intro result t covered
    cases result with
    | ok revision =>
        apply finishRevision_single ranged
        have size := size_revision covered
        have most : maxFrameBytes = 33554432 := rfl
        have keys := keys_of_replies
        rw [size_obj]
        simp only [List.map_cons, List.map_nil, List.sum_cons, List.sum_nil, List.length_cons,
          List.length_nil, keys]
        omega
    | error reason => exact refused_single ranged covered

end EmacsRelay

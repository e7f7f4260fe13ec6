import EmacsRelay.System.Fitting

set_option autoImplicit false

/- `relay--h-insert-file-contents` with BEG and END: part of a file, read with `read_range` or, from an
older server, with `read`. -/
namespace EmacsRelay

open FsHandlers (handleRange handleRead numberField sentRange)
open Server (expandHome lookup_cons_eq requestId)
open Trial (wp wp_bind wp_ofExcept)

namespace RelayFileHandler

/-- What is requested for BEG and END. A server without `read-range-v1` is asked for the whole file. -/
def rangeOp (capable : Bool) : String := if capable then "read_range" else "read"

def rangeArguments (capable : Bool) (loc : String) (beg finish : Nat) : List (String × Datum) :=
  if capable then [("path", .str loc), ("start", .int beg), ("end", .int finish)]
  else [("path", .str loc)]

/-- `relay--request`, of a reply that has come: the reply, or the text of the error. Errors are texts. -/
def requested (op : String) (reply : Datum) : Except String Datum :=
  match reply.get "ok" with
  | .nil =>
      .error ("relay: " ++ op ++ ": " ++
        match reply.get "error" with
        | .str error => error
        | _ => "unknown error")
  | _ => .ok reply

/-- `base64-decode-string` of the `:bytes_b64` of a reply. -/
def contents (reply : Datum) : Except String Bytes :=
  match reply.get "bytes_b64" with
  | .str encoded =>
      match base64Decode encoded.toList with
      | some bytes => .ok bytes
      | none => .error "Invalid base64 data"
  | _ => .error "Wrong type argument: stringp"

/-- `substring`. -/
def substring (all : Bytes) (start finish : Nat) : Except String Bytes :=
  if start ≤ finish ∧ finish ≤ all.length then .ok ((all.take finish).drop start)
  else .error "Args out of range"

/-- `relay--h-insert-file-contents` with BEG and END: the bytes whose text is inserted, of the reply. -/
def insertRange (capable : Bool) (beg finish : Nat) (reply : Datum) : Except String Bytes := do
  let reply ← requested (rangeOp capable) reply
  let reply ←
    if capable then pure reply
    else do
      let all ← contents reply
      let part ← substring all (min beg all.length) (min finish all.length)
      pure (.plist [("bytes_b64", .str (.ofList (base64Encode part)))])
  contents reply

/-- The operation of the server that is asked. -/
def handleRangeOp (r : Reader) (capable : Bool) (req : Json) : Program Call Answer (List Json) :=
  if capable then handleRange r req else handleRead r req

end RelayFileHandler

/-- What a regular file at the path contains, or why it is not read. -/
def Disk.regularAt (d : Disk) (path : Path) : Except RevisionError Bytes :=
  match d.lstat path with
  | .error e => .error (missingFile e)
  | .ok metadata =>
      match finalType metadata, metadata.node.kind with
      | some kind, _ => .error (.unsupportedFinalType kind)
      | none, .file bytes => .ok bytes
      | none, _ => .error .unstableRead

/-- The bytes from one offset to another, as far as there are any. -/
def slice (content : Bytes) (start finish : Nat) : Bytes := (content.take finish).drop start

/-- `read_range`, undisturbed. -/
def Disk.rangeAt (d : Disk) (path : Path) (start finish : Nat) : Except RevisionError Bytes :=
  if finish < start ∨ maxRangeBytes < finish - start then .error .tooLarge
  else (d.regularAt path).map fun content => slice content start finish

section Slices

variable {content : Bytes} {start between finish : Nat}

theorem slice_eq (content : Bytes) (start finish : Nat) :
    slice content start finish = (content.drop start).take (finish - start) :=
  List.drop_take

theorem slice_append (first : start ≤ between) (second : between ≤ finish) :
    slice content start between ++ slice content between finish = slice content start finish := by
  have split : finish - start = (between - start) + (finish - between) := by omega
  have onward : content.drop between = (content.drop start).drop (between - start) := by
    rw [List.drop_drop, Nat.add_sub_cancel' first]
  rw [slice_eq, slice_eq, slice_eq, onward, split, List.take_add]

theorem slice_clipped (content : Bytes) (start finish : Nat) :
    slice content (min start content.length) (min finish content.length) =
      slice content start finish := by
  unfold slice
  have ends : content.take (min finish content.length) = content.take finish := by
    rw [← List.take_take, List.take_length]
  rw [ends]
  by_cases inside : start ≤ content.length
  · rw [Nat.min_eq_left inside]
  · have short : (content.take finish).length ≤ content.length := List.length_take_le' ..
    rw [List.drop_of_length_le (by omega), List.drop_of_length_le (by omega)]

theorem length_slice_le : (slice content start finish).length ≤ finish - start := by
  rw [slice_eq]
  exact List.length_take_le ..

end Slices

section Undisturbed

variable {process : Process} {h : Host} {failed : RevisionError → Host → Prop} {path : Path}

theorem regularAt_of_lstat {metadata : Metadata} (found : h.disk.lstat path = .ok metadata) {bytes : Bytes}
    (plain : finalType metadata = none) (kind : metadata.node.kind = .file bytes) :
    h.disk.regularAt path = .ok bytes := by
  simp only [Disk.regularAt, found, plain, kind]

theorem wp_rangeAttempt (start finish : Nat) (post : Option Bytes → Host → Prop) :
    wp (Host.kernel process) (rangeAttempt path start finish) post failed h ↔
      Resumes ((h.disk.regularAt path).map fun content => slice content start finish)
        (fun bytes => post (some bytes)) failed h := by
  simp only [rangeAttempt, wp_bind, wp_openChecked]
  cases found : h.disk.lstat path with
  | error e => simp [Disk.regularAt, found, Resumes, Except.map]
  | ok metadata =>
      cases type : finalType metadata with
      | some kind => simp [Disk.regularAt, found, type, Resumes, Except.map]
      | none =>
          obtain ⟨⟨bytes, kind⟩, _⟩ := finalType_none.mp type
          have size : metadata.size = bytes.length := by simp [Metadata.size, kind]
          have there : h.disk.kindOf metadata.inode = some (.file bytes) := by
            simp [Disk.kindOf, (lstat_ok found).2, kind]
          rw [regularAt_of_lstat found type kind]
          simp only [type, wp_fstat, metadata_of_lstat found, Trial.ofExcept_ok, Trial.wp_pure, wp_refuseType,
            size, true_implies, reduceCtorEq, false_implies, implies_true, and_true, Trial.wp_ite, Except.map,
            Resumes]
          by_cases beyond : min finish bytes.length < start
          · rw [← slice_clipped]
            have none_left : slice bytes (min start bytes.length) (min finish bytes.length) = [] := by
              apply List.drop_of_length_le
              rw [List.length_take]
              omega
            simp [beyond, none_left]
          · have ends : bytes.take (min finish bytes.length) = bytes.take finish := by
              rw [← List.take_take, List.take_length]
            have part : (bytes.drop start).take (min finish bytes.length - start) =
                slice bytes start finish := by
              rw [← slice_eq, slice, ends, slice]
            simp only [beyond, false_implies, not_false_eq_true, true_implies, true_and, wp_bind,
              readToEnd, wp_readOn there _ _ _ (Nat.le_refl _), part, Trial.ofExcept_ok, Trial.wp_pure,
              wp_fstat, metadata_of_lstat found, metadataEqual_self, if_true]

theorem wp_readRange (start finish : Nat) (post : Bytes → Host → Prop) :
    wp (Host.kernel process) (readRange path start finish) post failed h ↔
      Resumes (h.disk.rangeAt path start finish) post failed h := by
  unfold readRange Disk.rangeAt
  split
  · exact Iff.rfl
  · have attempts : readLimit = 2 + 1 := rfl
    rw [attempts, rangeAttempts, wp_bind, wp_rangeAttempt]
    cases h.disk.regularAt path with
    | ok content => exact Iff.rfl
    | error reason => exact Iff.rfl

end Undisturbed

namespace RelayFileHandler

/-- The server's one reply to the request, whatever its id is, makes the client take these bytes, or
fail with this text; the server's files stay as they are. -/
def Gets (r : Reader) (process : Process) (h : Host) (loc : String) (capable : Bool) (beg finish : Nat)
    (result : Except String Bytes) : Prop :=
  ∀ id, ∃ req, requestMessage id (rangeOp capable) (rangeArguments capable loc beg finish) = some req ∧
    Program.wp (Host.kernel process) (handleRangeOp r capable req)
      (fun replies t => t = h ∧ ∃ m, replies = [m] ∧ insertRange capable beg finish m.parse = result) h

section Decoding

variable {id : Int} {m : Json}

theorem requested_ok {op : String} {reply : Datum} (ok : reply.get "ok" = .t) :
    requested op reply = .ok reply := by
  unfold requested
  rw [ok]

theorem contents_encoded {reply : Datum} {bytes : Bytes}
    (there : reply.get "bytes_b64" = .str (.ofList (base64Encode bytes))) :
    contents reply = .ok bytes := by
  unfold contents
  rw [there]
  dsimp only
  rw [String.toList_ofList, base64Decode_encode]

theorem requested_error {op error : String} {reply : Datum} (no : reply.get "ok" = .nil)
    (told : reply.get "error" = .str error) :
    requested op reply = .error ("relay: " ++ op ++ ": " ++ error) := by
  unfold requested
  rw [no]
  dsimp only
  rw [told]

theorem insertRange_error {capable : Bool} {beg finish : Nat} {error : String} {reply : Datum}
    (no : reply.get "ok" = .nil) (told : reply.get "error" = .str error) :
    insertRange capable beg finish reply = .error ("relay: " ++ rangeOp capable ++ ": " ++ error) := by
  unfold insertRange
  rw [requested_error no told]
  rfl

theorem insertRange_ranged {beg finish : Nat} {bytes : Bytes} {reply : Datum} (ok : reply.get "ok" = .t)
    (there : reply.get "bytes_b64" = .str (.ofList (base64Encode bytes))) :
    insertRange true beg finish reply = .ok bytes := by
  unfold insertRange
  rw [requested_ok ok]
  exact contents_encoded there

theorem insertRange_whole {beg finish : Nat} {bytes : Bytes} {reply : Datum} (ok : reply.get "ok" = .t)
    (there : reply.get "bytes_b64" = .str (.ofList (base64Encode bytes))) :
    insertRange false beg finish reply =
      if beg ≤ finish ∨ bytes.length ≤ finish then .ok (slice bytes beg finish)
      else .error "Args out of range" := by
  have all : contents reply = .ok bytes := contents_encoded there
  have inside : (min beg bytes.length ≤ min finish bytes.length ∧ min finish bytes.length ≤ bytes.length) ↔
      (beg ≤ finish ∨ bytes.length ≤ finish) := by omega
  have part : substring bytes (min beg bytes.length) (min finish bytes.length) =
      if beg ≤ finish ∨ bytes.length ≤ finish then .ok (slice bytes beg finish)
      else .error "Args out of range" := by
    simp only [substring, inside]
    rw [← slice_clipped, slice]
  unfold insertRange
  rw [requested_ok ok]
  show (do
    let all ← contents reply
    let part ← substring all (min beg all.length) (min finish all.length)
    contents (.plist [("bytes_b64", .str (.ofList (base64Encode part)))])) = _
  rw [all]
  show (do
    let part ← substring bytes (min beg bytes.length) (min finish bytes.length)
    contents (.plist [("bytes_b64", .str (.ofList (base64Encode part)))])) = _
  rw [part]
  split
  · have again : contents (.plist [("bytes_b64", .str (.ofList (base64Encode (slice bytes beg finish))))]) =
        .ok (slice bytes beg finish) := contents_encoded rfl
    exact again
  · rfl

end Decoding

section Getting

variable {r : Reader} {process : Process} {h : Host} {loc : String} {beg finish : Nat}

/-- The requests, and what the server looks up in them. -/
def rangeRequest (id : Nat) (loc : String) (beg finish : Nat) : Json :=
  .obj [("id", .int id), ("op", .str "read_range"), ("path", .str loc), ("start", .int beg),
    ("end", .int finish)]

def wholeRequest (id : Nat) (loc : String) : Json :=
  .obj [("id", .int id), ("op", .str "read"), ("path", .str loc)]

theorem get_rangeRequest (id : Nat) (loc : String) (beg finish : Nat) :
    (rangeRequest id loc beg finish).get "path" = some (.str loc) ∧
      (rangeRequest id loc beg finish).get "start" = some (.int beg) ∧
      (rangeRequest id loc beg finish).get "end" = some (.int finish) := by
  simp [rangeRequest, Json.get, lookup_cons_eq]

theorem get_wholeRequest (id : Nat) (loc : String) :
    (wholeRequest id loc).get "path" = some (.str loc) := by
  simp [wholeRequest, Json.get, lookup_cons_eq]

theorem rangeRequest_sent (id : Nat) (loc : String) (beg finish : Nat) :
    requestMessage id (rangeOp true) (rangeArguments true loc beg finish) =
      some (rangeRequest id loc beg finish) := rfl

theorem wholeRequest_sent (id : Nat) (loc : String) (beg finish : Nat) :
    requestMessage id (rangeOp false) (rangeArguments false loc beg finish) =
      some (wholeRequest id loc) := rfl

theorem requestPath_of_get {req : Json} (r : Reader) (given : req.get "path" = some (.str loc)) :
    FsHandlers.requestPath r req = r.locate (expandHome r.home loc) := by
  simp only [FsHandlers.requestPath, FsHandlers.textField, given, Option.bind_some, Json.asStr,
    Option.getD_some]

theorem sentRange_taken {id : Int} (ranged : (Json.int id).size ≤ 20) (small : beg < 2 ^ 64)
    (last : finish < 2 ^ 64) {result : Except RevisionError Bytes}
    (short : ∀ bytes, result = .ok bytes → bytes.length ≤ maxRangeBytes)
    (brief : ∀ reason, result = .error reason → reason.Short) :
    ∃ m, sentRange id beg finish result = [m] ∧ insertRange true beg finish m.parse =
      result.mapError fun reason => "relay: read_range: " ++ reason.readable := by
  cases result with
  | ok bytes =>
      obtain ⟨m, single⟩ := sentRange_single ranged small last (short bytes rfl)
      refine ⟨m, single, ?_⟩
      obtain ⟨rfl, -⟩ := send_eq_of_mem (single ▸ List.mem_singleton_self m)
      apply insertRange_ranged
      · rw [get_finished]
        rfl
      · rw [get_finished]
        rfl
  | error reason =>
      obtain ⟨m, single⟩ := failure_single ranged (readable_short (brief reason rfl))
      refine ⟨m, single, ?_⟩
      obtain ⟨rfl, -⟩ := send_eq_of_mem (single ▸ List.mem_singleton_self m)
      exact insertRange_error (by rw [get_parse]; rfl) (by rw [get_parse]; rfl)

theorem missingFile_short (e : OsError) : (missingFile e).Short := by
  have texts : ∀ e, ∃ text, missingFile e = .io text ∧ text.toList.length ≤ 100 := by
    intro e
    cases e <;> exact ⟨_, rfl, by decide⟩
  obtain ⟨text, same, short⟩ := texts e
  rw [same]
  exact short

theorem regularAt_short {d : Disk} {path : Path} {reason : RevisionError}
    (failed : d.regularAt path = .error reason) : reason.Short := by
  unfold Disk.regularAt at failed
  split at failed
  · cases failed
    exact missingFile_short _
  · split at failed
    · cases failed
      trivial
    · cases failed
    · cases failed
      trivial

theorem rangeAt_short (d : Disk) (path : Path) (beg finish : Nat) :
    (∀ bytes, d.rangeAt path beg finish = .ok bytes → bytes.length ≤ maxRangeBytes) ∧
      ∀ reason, d.rangeAt path beg finish = .error reason → reason.Short := by
  unfold Disk.rangeAt
  split
  · exact ⟨nofun, fun reason failed => by cases failed; trivial⟩
  · rename_i within
    cases found : d.regularAt path with
    | ok content =>
        refine ⟨?_, nofun⟩
        rintro _ ⟨⟩
        have short : (slice content beg finish).length ≤ finish - beg := length_slice_le
        dsimp only
        omega
    | error reason =>
        refine ⟨nofun, ?_⟩
        rintro _ ⟨⟩
        exact regularAt_short found

/-- The reply of a handler to what its program comes to. -/
theorem replied {α : Type} {body : Io α} {result : Except RevisionError α}
    (resumes : ∀ post failed, wp (Host.kernel process) body post failed h ↔ Resumes result post failed h)
    {sent : Except RevisionError α → List Json} {good : List Json → Prop} (holds : good (sent result)) :
    Program.wp (Host.kernel process) (Program.bind body fun result => .done (sent result))
      (fun replies t => t = h ∧ good replies) h := by
  have answered : wp (Host.kernel process) body (fun value t => t = h ∧ result = .ok value)
      (fun reason t => t = h ∧ result = .error reason) h := by
    apply (resumes _ _).mpr
    cases result with
    | ok value => exact ⟨rfl, rfl⟩
    | error reason => exact ⟨rfl, rfl⟩
  apply (Program.wp_bind body _ _ _).mpr
  apply Program.wp_mono answered
  intro found t covered
  have same : t = h ∧ result = found := by
    cases found with
    | ok value => exact covered
    | error reason => exact covered
  exact ⟨same.1, same.2 ▸ holds⟩

theorem gets_range (small : beg < 2 ^ 64) (last : finish < 2 ^ 64) :
    Gets r process h loc true beg finish
      ((h.disk.rangeAt (r.locate (expandHome r.home loc)) beg finish).mapError
        fun reason => "relay: read_range: " ++ reason.readable) := by
  intro id
  refine ⟨_, rangeRequest_sent id loc beg finish, ?_⟩
  have fields := get_rangeRequest id loc beg finish
  have start : numberField (rangeRequest id loc beg finish) "start" = some beg := by
    rw [numberField, fields.2.1, Option.bind_some, Json.asU64_eq_some]
    exact ⟨rfl, small⟩
  have stop : numberField (rangeRequest id loc beg finish) "end" = some finish := by
    rw [numberField, fields.2.2, Option.bind_some, Json.asU64_eq_some]
    exact ⟨rfl, last⟩
  have bounds := rangeAt_short h.disk (r.locate (expandHome r.home loc)) beg finish
  have taken := sentRange_taken (size_requestId (rangeRequest id loc beg finish)) small last
    bounds.1 bounds.2
  show Program.wp _ (handleRange r _) _ h
  unfold handleRange
  rw [start, stop, requestPath_of_get r fields.1]
  exact replied (fun post failed => wp_readRange beg finish post) taken

/-- What `substring` leaves of a file that is read whole, and the errors of the read. -/
def wholeRange (read : Except RevisionError Bytes) (beg finish : Nat) : Except String Bytes :=
  match read with
  | .ok bytes =>
      if beg ≤ finish ∨ bytes.length ≤ finish then .ok (slice bytes beg finish)
      else .error "Args out of range"
  | .error reason => .error ("relay: read: " ++ reason.readable)

/-- A whole file is read if it is small, and a text. -/
def wholeText (content : Bytes) : Except RevisionError Bytes :=
  if content.length ≤ maxReadBytes then
    if validUtf8 content then .ok content else .error .unsupportedEncoding
  else .error .tooLarge

theorem revisionAt_bytes (d : Disk) (path : Path) :
    (d.revisionAt path).map RevisionRead.bytes = (d.regularAt path).bind wholeText := by
  unfold Disk.regularAt Disk.revisionAt
  cases d.lstat path with
  | error e => rfl
  | ok metadata =>
      dsimp only
      unfold Metadata.read
      cases type : finalType metadata with
      | some kind => rfl
      | none =>
          obtain ⟨⟨bytes, kind⟩, -⟩ := finalType_none.mp type
          rw [kind]
          dsimp only [Except.bind]
          unfold wholeText
          split
          · split
            · rfl
            · rfl
          · rfl

theorem revisionAt_sized {d : Disk} {path : Path}
    (ranged : ∀ metadata, d.lstat path = .ok metadata → metadata.Ranged) :
    (∀ read, d.revisionAt path = .ok read → read.Sized) ∧
      ∀ reason, d.revisionAt path = .error reason → reason.Short := by
  constructor
  · intro read found
    unfold Disk.revisionAt at found
    split at found
    · cases found
    · rename_i metadata there
      unfold Metadata.read at found
      split at found
      · cases found
      · split at found
        · rename_i small
          split at found
          · cases found
            exact ⟨small, ranged_fromMetadata (ranged metadata there) _,
              isValidFileRevision_fromMetadata _ _⟩
          · cases found
        · cases found
      · cases found
  · intro reason failed
    unfold Disk.revisionAt at failed
    split at failed
    · cases failed
      exact missingFile_short _
    · unfold Metadata.read at failed
      split at failed
      · cases failed
        trivial
      · split at failed
        · split at failed
          · cases failed
          · cases failed
            trivial
        · cases failed
          trivial
      · cases failed
        trivial

theorem sentRead_taken {id : Int} (ranged : (Json.int id).size ≤ 20) {result : Except RevisionError RevisionRead}
    (sized : ∀ read, result = .ok read → read.Sized)
    (brief : ∀ reason, result = .error reason → reason.Short) :
    ∃ m, sentRead id result = [m] ∧ insertRange false beg finish m.parse =
      wholeRange (result.map RevisionRead.bytes) beg finish := by
  cases result with
  | ok read =>
      obtain ⟨m, single⟩ := sentRead_single ranged (sized read rfl)
      refine ⟨m, single, ?_⟩
      obtain ⟨rfl, -⟩ := send_eq_of_mem (single ▸ List.mem_singleton_self m)
      apply insertRange_whole
      · rw [get_finished]
        rfl
      · rw [get_finished]
        rfl
  | error reason =>
      obtain ⟨m, single⟩ := refused_single ranged (brief reason rfl)
      refine ⟨m, single, ?_⟩
      obtain ⟨rfl, -⟩ := send_eq_of_mem (single ▸ List.mem_singleton_self m)
      apply insertRange_error
      · rw [get_wireError]
        cases reason <;> rfl
      · rw [get_wireError]
        cases reason <;> rfl

theorem gets_whole
    (ranged : ∀ metadata, h.disk.lstat (r.locate (expandHome r.home loc)) = .ok metadata → metadata.Ranged) :
    Gets r process h loc false beg finish
      (wholeRange ((h.disk.regularAt (r.locate (expandHome r.home loc))).bind wholeText) beg finish) := by
  intro id
  refine ⟨_, wholeRequest_sent id loc beg finish, ?_⟩
  have sized := revisionAt_sized ranged
  have path := requestPath_of_get r (get_wholeRequest id loc)
  have taken : ∃ m, sentRead (requestId (wholeRequest id loc)) _ = [m] ∧
      insertRange false beg finish m.parse = _ :=
    sentRead_taken (size_requestId (wholeRequest id loc)) sized.1 sized.2
  rw [revisionAt_bytes] at taken
  show Program.wp _ (handleRead r _) _ h
  unfold handleRead
  rw [path]
  exact replied (fun post failed => wp_readWithRevision _ post) taken

end Getting

/-- The pages from an offset to the next of these, and so on. -/
def pages (beg : Nat) : List Nat → List (Nat × Nat)
  | [] => []
  | cut :: cuts => (beg, cut) :: pages cut cuts

/-- No page is longer than a range may be. -/
def Paged (beg : Nat) : List Nat → Prop
  | [] => True
  | cut :: cuts => beg ≤ cut ∧ cut - beg ≤ maxRangeBytes ∧ cut < 2 ^ 64 ∧ Paged cut cuts

section Agreement

variable {d : Disk} {path : Path} {beg finish : Nat} {bytes : Bytes}

theorem rangeAt_of_wholeRange
    (whole : wholeRange ((d.regularAt path).bind wholeText) beg finish = .ok bytes) :
    d.rangeAt path beg finish =
      if finish < beg ∨ maxRangeBytes < finish - beg then .error .tooLarge else .ok bytes := by
  unfold Disk.rangeAt
  split
  · rfl
  · rename_i within
    have ordered : beg ≤ finish := by omega
    cases found : d.regularAt path with
    | error reason =>
        rw [found] at whole
        cases whole
    | ok content =>
        rw [found] at whole
        dsimp only [Except.bind] at whole
        cases read : wholeText content with
        | error reason =>
            rw [read] at whole
            cases whole
        | ok same =>
            have is_content : same = content := by
              unfold wholeText at read
              split at read
              · split at read
                · exact (Except.ok.inj read).symm
                · cases read
              · cases read
            rw [read, is_content] at whole
            dsimp only [wholeRange] at whole
            rw [if_pos (.inl ordered)] at whole
            rw [← Except.ok.inj whole]
            rfl

theorem wholeRange_of_rangeAt (range : d.rangeAt path beg finish = .ok bytes) :
    wholeRange ((d.regularAt path).bind wholeText) beg finish = .ok bytes ∨
      ∃ content, d.regularAt path = .ok content ∧
        (maxReadBytes < content.length ∨ validUtf8 content = false) := by
  unfold Disk.rangeAt at range
  split at range
  · cases range
  · rename_i within
    cases found : d.regularAt path with
    | error reason =>
        rw [found] at range
        cases range
    | ok content =>
        rw [found] at range
        have part : slice content beg finish = bytes := Except.ok.inj range
        by_cases small : content.length ≤ maxReadBytes
        · cases valid : validUtf8 content with
          | false => exact .inr ⟨content, rfl, .inr valid⟩
          | true =>
              left
              have ordered : beg ≤ finish := by omega
              dsimp only [Except.bind]
              rw [wholeText, if_pos small, valid, if_pos rfl]
              dsimp only [wholeRange]
              rw [if_pos (.inl ordered), part]
        · exact .inr ⟨content, rfl, .inl (by omega)⟩

/-- By induction on the pages: each of them is read, and together they are the file between. -/
theorem pages_whole {r : Reader} {process : Process} {h : Host} {loc : String} {content : Bytes}
    (found : h.disk.regularAt (r.locate (expandHome r.home loc)) = .ok content) (cuts : List Nat) (beg : Nat)
    (small : beg < 2 ^ 64) (paged : Paged beg cuts) :
    beg ≤ cuts.getLastD beg ∧ ∃ parts, parts.flatten = slice content beg (cuts.getLastD beg) ∧
      List.Forall₂ (fun page part => Gets r process h loc true page.1 page.2 (.ok part)) (pages beg cuts)
        parts := by
  induction cuts generalizing beg with
  | nil =>
      refine ⟨Nat.le_refl _, [], ?_, .nil⟩
      rw [slice_eq, List.getLastD_nil, Nat.sub_self, List.take_zero]
      rfl
  | cons cut cuts ih =>
      obtain ⟨ordered, narrow, last, others⟩ := paged
      obtain ⟨onward, parts, whole, got⟩ := ih cut last others
      rw [List.getLastD_cons]
      refine ⟨by omega, slice content beg cut :: parts, ?_, .cons ?_ got⟩
      · rw [List.flatten_cons, whole, slice_append ordered onward]
      · have range : h.disk.rangeAt (r.locate (expandHome r.home loc)) beg cut =
            .ok (slice content beg cut) := by
          have within : ¬ (cut < beg ∨ maxRangeBytes < cut - beg) := by omega
          rw [Disk.rangeAt, if_neg within, found]
          rfl
        have gets : Gets r process h loc true beg cut _ := gets_range small last
        rw [range] at gets
        exact gets

end Agreement

/-- The range of a file that is inserted, with the server's `read_range` and without it, while the
file stays as it is. Both ways have the same bytes, or fail for the same reasons, except that a range
is refused if it is too long, and a file that is read whole if it is too long or no text. So a file of any
size, whatever it holds, can be read page by page. -/
theorem ranges_agree (r : Reader) (process : Process) (h : Host) (loc : String) :
    let path := r.locate (expandHome r.home loc)
    (∀ beg finish, beg < 2 ^ 64 → finish < 2 ^ 64 →
      Gets r process h loc true beg finish ((h.disk.rangeAt path beg finish).mapError
        fun reason => "relay: read_range: " ++ reason.readable)) ∧
    ((∀ metadata, h.disk.lstat path = .ok metadata → metadata.Ranged) → ∀ beg finish,
      Gets r process h loc false beg finish
        (wholeRange ((h.disk.regularAt path).bind wholeText) beg finish)) ∧
    (∀ beg finish bytes,
      (wholeRange ((h.disk.regularAt path).bind wholeText) beg finish = .ok bytes →
        h.disk.rangeAt path beg finish =
          if finish < beg ∨ maxRangeBytes < finish - beg then .error .tooLarge else .ok bytes) ∧
      (h.disk.rangeAt path beg finish = .ok bytes →
        wholeRange ((h.disk.regularAt path).bind wholeText) beg finish = .ok bytes ∨
          ∃ content, h.disk.regularAt path = .ok content ∧
            (maxReadBytes < content.length ∨ validUtf8 content = false))) ∧
    ∀ content, h.disk.regularAt path = .ok content → ∀ cuts beg, beg < 2 ^ 64 → Paged beg cuts →
      ∃ parts, parts.flatten = slice content beg (cuts.getLastD beg) ∧
        List.Forall₂ (fun page part => Gets r process h loc true page.1 page.2 (.ok part)) (pages beg cuts)
          parts := by
  intro path
  refine ⟨fun beg finish => gets_range, fun ranged beg finish => gets_whole ranged, ?_, ?_⟩
  · exact fun beg finish bytes => ⟨rangeAt_of_wholeRange, wholeRange_of_rangeAt⟩
  · exact fun content found cuts beg small paged => (pages_whole found cuts beg small paged).2

end RelayFileHandler

end EmacsRelay

import EmacsRelay.Client.Decoding
import EmacsRelay.Client.SyncSave

set_option autoImplicit false

/- `lisp/relay-conflict.el` from the visit of a file to the resolution of its conflicts, with what
the server is asked and what it tells. BASE may be without a revision: inserting a file that is not
visited takes bytes from cache entries that have none. Functions go by their own names, without the
prefix. -/
namespace EmacsRelay.Synchronous

open RelayConflict (SyncStatus Replies classify reconcileUncertain replyReason deletedRemote
  rpcTarget noRequest)
open RelaySave (adoptedRemote)

/-- BASE: bytes, revision and coding system. -/
structure LooseBase where
  bytes : Bytes
  revision : Option Token
  coding : Coding := .utf8
deriving DecidableEq

/-- `relay-conflict--state`, or a conflict that was returned. -/
structure Dispute where
  status : Option StateStatus := none
  reason : Reason
  base : Option LooseBase
  localBytes : Bytes
  remote : Option Remote := none
  classification : Option Classification := none
  revision : Option Token := none
  error : Option String := none
  mergeRecovery : Option Nat := none
deriving DecidableEq

/-- What passes between the client and the server. -/
inductive Traffic where
  | sent (request : Request)
  | told (report : Report)
deriving DecidableEq

/-- The buffer, its recovery buffers, the traffic so far and the conflicts returned so far; no
function reads the last two. -/
structure SyncBuffer where
  fileName : Option String := none
  buffer : Buffer := .whole []
  modified : Bool := false
  base : Option LooseBase := none
  state : Option Dispute := none
  pendingRead : Option (String × Bytes × Option Token) := none
  recovery : List Text := []
  traffic : List Traffic := []
  offered : List Dispute := []

abbrev Act (α : Type) := Routine SyncBuffer LispError α

namespace SyncBuffer

variable (s : SyncBuffer)

def fileIdentity : Option Identity := RelayConflict.fileIdentity s.fileName

/-- The target of a request for the visited file, where `relay-conflict--prepare-rpc` makes it. -/
def target (path : Option String) : Option Identity := s.fileIdentity.bind (rpcTarget · path)

def bytes (codec : Codec) : Bytes := codec.encode s.buffer.visible

@[simps] def log (traffic : List Traffic) : SyncBuffer := { s with traffic := s.traffic ++ traffic }

@[simps] def setText (buffer : Buffer) : SyncBuffer := { s with buffer := buffer, modified := true }

@[simps] def recordBase (bytes : Bytes) (revision : Option Token) (coding : Coding) : SyncBuffer :=
  { s with base := some ⟨bytes, revision, coding⟩ }

@[simps] def setState (state : Option Dispute) : SyncBuffer := { s with state := state }

/-- A conflict is retained and returned. -/
@[simps] def offer (conflict : Dispute) : SyncBuffer :=
  { s with state := some conflict, offered := s.offered ++ [conflict] }

@[simps] def markClean : SyncBuffer := { s with modified := false }

@[simps] def addRecovery (text : Text) : SyncBuffer := { s with recovery := s.recovery ++ [text] }

@[simps] def claim : SyncBuffer := { s with pendingRead := none }

end SyncBuffer

/-- What a reply says about the server's files. -/
def reportsOf (request : Request) (reply : WriteReply ⊕ ReadReply) : List Traffic :=
  match request, reply with
  | .read authority path, .inr (.ok bytes revision) =>
      [.told ⟨authority, path, bytes, revision⟩]
  | .write authority path bytes _, .inl (.ok revision) =>
      [.told ⟨authority, path, bytes, revision⟩]
  | .write authority path _ _, .inl (.refused _ (some .deleted) _) =>
      [.told ⟨authority, path, [], .missing⟩]
  | _, _ => []

section Primitives

def mayFail (env : Env) (site : Site) : Act Unit :=
  if env.fails site then .signal (.signalled "step signalled") else pure ()

/-- `relay-conflict--prepare-rpc` of a request for the visited file. -/
def visitedTarget (path : Option String) : Act Identity := do
  let s ← .fetch
  match s.target path with
  | some target => pure target
  | none => .signal (noRequest s.fileIdentity)

def fetch (reply : ReadReply) : Act Remote := do
  let target ← visitedTarget none
  let request : Request := .read target.authority target.path
  .update (·.log (.sent request :: reportsOf request (.inr reply)))
  match reply with
  | .ok bytes revision => pure ⟨bytes, revision, false⟩
  | .failed error => .signal (.signalled (error.getD "unable to read remote file"))

def writeSnapshot (bytes : Bytes) (expected : Option Token) (saveAs : Option String)
    (reply : Request → WriteReply) : Act WriteReply := do
  let target ← visitedTarget saveAs
  let request : Request := .write target.authority target.path bytes expected
  .update (·.log (.sent request :: reportsOf request (.inl (reply request))))
  pure (reply request)

/-- `relay-conflict--cache`, which may signal. -/
def cache (env : Env) : Act Unit := mayFail env .cachePut

def recoveryBuffer (codec : Codec) (env : Env) (site : Site) (bytes : Bytes) : Act Nat := do
  mayFail env site
  let s ← .fetch
  .update (·.addRecovery (codec.decode bytes))
  pure s.recovery.length

def replaceLive (codec : Codec) (env : Env) (bytes : Bytes) (revision : Token) : Act Unit := do
  mayFail env .erase
  .update (·.setText (.whole []))
  mayFail env .insert
  .update (·.setText (.whole (codec.decode bytes)))
  .update (·.recordBase bytes (some revision) .utf8)
  cache env
  .update (·.setState none)
  .update (·.markClean)

def snapshot (codec : Codec) (reason : Reason) (remote : Option Remote)
    (classification : Option Classification) : Act Dispute := do
  let s ← .fetch
  pure
    { reason := reason, base := s.base, localBytes := s.bytes codec, remote := remote
      classification := classification }

end Primitives

section Save

structure SaveOutcome where
  status : SyncStatus
  reason : Option Reason := none
  revision : Option Token := none
  error : Option String := none
  remote : Option Remote := none
  conflict : Option Dispute := none

/-- BASE, claimed from a pending read of the visited file where there is none. -/
def claimPending : Act (Option LooseBase) := do
  let s ← .fetch
  match s.base, s.pendingRead with
  | some base, _ => pure (some base)
  | none, none => pure none
  | none, some (filename, bytes, revision) =>
      if s.fileName = some filename then do
        .update (·.recordBase bytes revision .utf8)
        .update (·.claim)
        pure (some ⟨bytes, revision, .utf8⟩)
      else pure none

/-- BASE, fetched where there is none. -/
def establishBase (reply : ReadReply) : Act (Option LooseBase) := do
  let base ← claimPending
  match base with
  | some base => pure (some base)
  | none =>
      .rescue
        (do
          let remote ← fetch reply
          .update (·.recordBase remote.bytes (some remote.revision) .utf8)
          pure (some ⟨remote.bytes, some remote.revision, .utf8⟩))
        fun _ => pure none

/-- The revision of REMOTE in a retained retry state, while BASE and LOCAL are its own. -/
def retryRevision (state : Option Dispute) (base : Option LooseBase) (localBytes : Bytes) :
    Option Token :=
  let retried := state.filter fun st =>
    st.status = some .retry ∧ st.base = base ∧ st.localBytes = localBytes
  retried.bind fun st => st.remote.map (·.revision)

def expectedRevision (state : Option Dispute) (base : Option LooseBase) (localBytes : Bytes) :
    Option Token :=
  retryRevision state base localBytes <|> base.bind (·.revision)

/-- The branch of `relay-conflict--save-internal` for an acknowledged write. -/
def acknowledged (env : Env) (base : Option LooseBase) (localBytes : Bytes) (revision : Token) :
    Act SaveOutcome := do
  .update (·.recordBase localBytes (some revision) ((base.map (·.coding)).getD .utf8))
  cache env
  .update (·.setState none)
  .update (·.markClean)
  pure { status := .saved, revision := some revision }

/-- The branch for a lost reply, once the remote file has been read. -/
def reconcile (codec : Codec) (env : Env) (base : Option LooseBase) (localBytes : Bytes)
    (remote : Remote) : Act SaveOutcome := do
  let outcome := reconcileUncertain (base.map (·.bytes)) (some localBytes) remote.bytes
    remote.revision
  match outcome.status with
  | .saved => do
      .update (·.recordBase localBytes (some remote.revision) ((base.map (·.coding)).getD .utf8))
      cache env
      .update (·.markClean)
      pure { status := .saved, reason := some outcome.reason, revision := some outcome.revision }
  | .conflict => do
      let conflict ← snapshot codec (.kind .changed) (some remote) none
      .update (·.offer conflict)
      pure { status := .conflict, conflict := some conflict }
  | .retry =>
      pure
        { status := .retry, reason := some outcome.reason, revision := some outcome.revision
          error := outcome.error, remote := some remote }

def lostReply (codec : Codec) (env : Env) (base : Option LooseBase) (localBytes : Bytes)
    (error : Option String) (read : ReadReply) : Act SaveOutcome :=
  .rescue
    (do
      let remote ← fetch read
      reconcile codec env base localBytes remote)
    fun _ => pure
      { status := .uncertain, reason := some .transport
        error := some ("Save outcome is uncertain; reconnect and inspect remote: " ++
          error.getD "transport failure") }

def conflictRemote (reason : Reason) (read : ReadReply) : Act (Option Remote) :=
  .rescue
    (do
      let remote ← fetch read
      pure (some remote))
    fun _ => pure (if reason = .kind .deleted then some deletedRemote else none)

/-- End of the branch for a conflict: REMOTE equal to LOCAL is adopted. -/
def settle (codec : Codec) (env : Env) (base : Option LooseBase) (localBytes : Bytes)
    (reason : Reason) (remote : Option Remote) : Act SaveOutcome := do
  let classification := remote.map fun r =>
    classify (base.map (·.bytes)) (some localBytes) r.bytes (some r.revision)
  let conflict ← snapshot codec reason remote classification
  match remote, classification with
  | some r, some (.convergent _) => do
      replaceLive codec env r.bytes r.revision
      pure { status := .saved, revision := some r.revision }
  | _, _ => do
      .update (·.offer conflict)
      pure { status := .conflict, conflict := some conflict }

/-- What `relay-conflict--save-internal` does with the reply to its write. -/
def handleReply (codec : Codec) (env : Env) (base : Option LooseBase) (localBytes : Bytes)
    (reply : WriteReply) (read : ReadReply) : Act SaveOutcome :=
  match reply with
  | .ok revision => acknowledged env base localBytes revision
  | .transport error => lostReply codec env base localBytes error read
  | .refused _ _ error =>
      match replyReason reply with
      | some reason => do
          let remote ← conflictRemote reason read
          settle codec env base localBytes reason remote
      | none =>
          pure
            { status := .uncertain, reason := some .serverError
              error := some (error.getD "Server could not verify the conditional save") }

/-- `relay-conflict--save-internal`. The form that reports a missing BASE is closed before the
write, so its value is dropped. -/
def saveInternal (codec : Codec) (env : Env) (replies : Replies) : Act SaveOutcome := do
  let s ← .fetch
  let localBytes := s.bytes codec
  let base ← establishBase replies.baseRead
  let expected := expectedRevision s.state base localBytes
  let reply ← writeSnapshot localBytes expected none replies.write
  handleReply codec env base localBytes reply replies.read

def rememberIncompleteSave (codec : Codec) (result : SaveOutcome) : Act SaveOutcome := do
  let s ← .fetch
  let remember (status : StateStatus) : Act SaveOutcome := do
    let state : Dispute :=
      { status := some status
        reason := result.reason.getD .serverError
        base := s.base
        localBytes := s.bytes codec
        remote := result.remote
        revision := result.revision
        error := result.error }
    .update (·.setState (some state))
    pure { result with conflict := some state }
  match result.status with
  | .retry => remember .retry
  | .uncertain => remember .uncertain
  | .saved => pure result
  | .conflict => pure result

def save (codec : Codec) (env : Env) (replies : Replies) : Act SaveOutcome := do
  let result ← saveInternal codec env replies
  rememberIncompleteSave codec result

end Save

section Resolutions

inductive Settlement where
  | cancelled
  | adoptedRemote
  | merge
  | savedAs
  | saved
  | conflict
  | uncertain
  | liveChanged
  | remoteChanged
deriving DecidableEq

/-- The result plist of `relay-conflict--resolve` and `relay-conflict--apply-merge`. -/
structure Resolution where
  status : Settlement
  revision : Option Token := none
  conflict : Option Dispute := none
  localRecovery : Option Nat := none
  remoteRecovery : Option Nat := none
  mergeRecovery : Option Nat := none
  error : Option String := none

def freshConflict (st : Dispute) (reply : WriteReply) (read : ReadReply) : Act Dispute :=
  let reason := (replyReason reply).getD (.kind .changed)
  .rescue
    (do
      let remote ← fetch read
      pure
        { reason := reason, base := st.base, localBytes := st.localBytes, remote := some remote
          classification := some (classify (st.base.map (·.bytes)) (some st.localBytes)
            remote.bytes (some remote.revision)) })
    fun _ => pure
      (if reason = .kind .deleted then
        { reason := reason, base := st.base, localBytes := st.localBytes
          remote := some deletedRemote }
      else st)

/-- The write of `relay-conflict--resolve` has been answered. -/
def resolveReplied (codec : Codec) (env : Env) (st : Dispute) (choice : Choice) (bytes : Bytes)
    (recovered : Option Nat × Option Nat) (reply : WriteReply) (read : ReadReply) :
    Act Resolution :=
  match reply with
  | .ok revision =>
      if choice = .saveAs then do
        .update (·.setState (some st))
        pure { status := .savedAs, conflict := some st }
      else do
        .update (·.recordBase bytes (some revision) .utf8)
        .update (·.setState none)
        if choice = .restoreBase then replaceLive codec env bytes revision
        else do
          cache env
          let s ← .fetch
          .whenever (s.bytes codec == bytes) (.update (·.markClean))
        pure { status := .saved, localRecovery := recovered.1, remoteRecovery := recovered.2 }
  | .transport error => do
      .update (·.setState (some st))
      pure { status := .uncertain, error := error, conflict := some st }
  | .refused _ _ error =>
      match replyReason reply with
      | some _ => do
          let fresh ← freshConflict st reply read
          .update (·.offer fresh)
          pure { status := .conflict, conflict := some fresh }
      | none => do
          .update (·.setState (some st))
          pure { status := .uncertain, error := error, conflict := some st }

/-- The recovery buffers of a restore-base. -/
def recoverBoth (codec : Codec) (env : Env) (st : Dispute) (choice : Choice) :
    Act (Option Nat × Option Nat) :=
  if choice = .restoreBase then do
    let first ← recoveryBuffer codec env .localRecovery st.localBytes
    let second ← recoveryBuffer codec env .remoteRecovery ((st.remote.map (·.bytes)).getD [])
    pure (some first, some second)
  else pure (none, none)

/-- The branch of `relay-conflict--resolve` that writes. -/
def resolveWrite (codec : Codec) (env : Env) (st : Dispute) (choice : Choice)
    (saveAs : Option String) (write : Request → WriteReply) (read : ReadReply) :
    Act Resolution := do
  let bytes := if choice = .restoreBase then st.base.map (·.bytes) else some st.localBytes
  let expected := if choice = .saveAs then some .missing else st.remote.map (·.revision)
  let recovered ← recoverBoth codec env st choice
  match bytes with
  | none => .signal .wrongType
  | some bytes => do
      let reply ← writeSnapshot bytes expected saveAs write
      resolveReplied codec env st choice bytes recovered reply read

def resolve (codec : Codec) (env : Env) (st : Dispute) (choice : Choice) (saveAs : Option String)
    (write : Request → WriteReply) (read : ReadReply) : Act Resolution :=
  match choice with
  | .cancel => do
      .update (·.setState (some st))
      pure { status := .cancelled, conflict := some st }
  | .keepRemote => do
      let recovery ← recoveryBuffer codec env .localRecovery st.localBytes
      let adopted := adoptedRemote st.remote
      replaceLive codec env adopted.1 adopted.2
      pure { status := .adoptedRemote, localRecovery := some recovery }
  | .merge => pure { status := .merge, conflict := some st }
  | choice => resolveWrite codec env st choice saveAs write read

def mergeRefusal (codec : Codec) (env : Env) (st : Dispute) (merged : Bytes) (status : Settlement)
    (reason : Reason) (remote : Option Remote) : Act Resolution := do
  let recovery ← recoveryBuffer codec env .mergeRecovery merged
  let s ← .fetch
  let remote := remote <|> st.remote
  let conflict : Dispute :=
    { reason := reason, base := st.base, localBytes := s.bytes codec, remote := remote
      classification := remote.map fun r =>
        classify (st.base.map (·.bytes)) (some (s.bytes codec)) r.bytes (some r.revision)
      mergeRecovery := some recovery }
  .update (·.offer conflict)
  pure { status := status, conflict := some conflict, mergeRecovery := some recovery }

/-- A read whose failure is not told apart: `(condition-case nil (relay-conflict--fetch) ...)`. -/
def tryFetch (read : ReadReply) : Act (Option Remote) :=
  .rescue
    (do
      let remote ← fetch read
      pure (some remote))
    fun _ => pure none

/-- The write of `relay-conflict--apply-merge` has been answered. -/
def mergeReplied (codec : Codec) (env : Env) (st : Dispute) (merged : Bytes) (reply : WriteReply)
    (read : ReadReply) : Act Resolution :=
  match reply with
  | .ok revision => do
      replaceLive codec env merged revision
      pure { status := .saved, revision := some revision }
  | .transport _ => do
      let seen ← tryFetch read
      match seen with
      | some remote =>
          if remote.bytes = merged then do
            replaceLive codec env merged remote.revision
            pure { status := .saved, revision := some remote.revision }
          else mergeRefusal codec env st merged .uncertain .transport (some remote)
      | none => mergeRefusal codec env st merged .uncertain .transport none
  | .refused code conflict error => do
      let fresh ← freshConflict st (.refused code conflict error) read
      mergeRefusal codec env fresh merged .conflict fresh.reason fresh.remote

/-- `relay-conflict--apply-merge`, for the live bytes at the time of the call. -/
def applyMerge (codec : Codec) (env : Env) (st : Dispute) (merged : Bytes) (verify : ReadReply)
    (write : Request → WriteReply) (read : ReadReply) : Act Resolution := do
  let s ← .fetch
  if s.bytes codec ≠ st.localBytes then
    mergeRefusal codec env st merged .liveChanged .liveChanged none
  else do
    let seen ← tryFetch verify
    match seen with
    | none => mergeRefusal codec env st merged .uncertain .transport none
    | some remote =>
        if some remote.revision ≠ st.remote.map (·.revision) then
          mergeRefusal codec env st merged .remoteChanged (.kind .changed) (some remote)
        else do
          let reply ← writeSnapshot merged (st.remote.map (·.revision)) none write
          mergeReplied codec env st merged reply read

/-- `relay-conflict-abandon-merge`, the live buffer's part. -/
def abandonMerge (st : Dispute) : Act Unit := do
  let s ← .fetch
  .whenever s.state.isNone (.update (·.setState (some st)))

end Resolutions

section Events

/-- Text inserted at point. -/
def inserted (b : Buffer) (point : Nat) (text : Text) : Buffer :=
  { b with visible := b.visible.take point ++ text ++ b.visible.drop point }

/-- A revision that comes with bytes was reported with them, now or to another part of the client;
the missing state of a path that is not found is the client's own. -/
def revisionReports (authority path : String) (bytes : Bytes) : Option Token → List Traffic
  | some (.present revision) => [.told ⟨authority, path, bytes, .present revision⟩]
  | _ => []

/-- `relay--h-insert-file-contents` of a whole file. -/
def insertFileContents (codec : Codec) (fileName : String) (point : Nat) (visit replace : Bool)
    (cached : Option CachedBytes) (reply : VisitReply) (s : SyncBuffer) : SyncBuffer :=
  match relayParse fileName, obtain visit replace cached reply with
  | some (authority, path), .ok (bytes, revision) =>
      let text := codec.decode bytes
      let s := s.log (revisionReports authority path bytes revision)
      let s := s.setText (if replace then .whole text else inserted s.buffer point text)
      if visit then
        { s with
          fileName := some fileName
          modified := false
          base := some ⟨bytes, revision, .utf8⟩ }
      else { s with pendingRead := some (fileName, bytes, revision) }
  | _, _ => s

/-- `relay--configure-auto-revert-for-current-buffer`: a file that does not exist is visited with
the missing state as its BASE. -/
def visitNewFile (fileExists : Bool) (s : SyncBuffer) : SyncBuffer :=
  if s.fileIdentity.isSome ∧ s.base = none ∧ fileExists = false then
    s.recordBase [] (some .missing) .utf8
  else s

inductive SyncEvent where
  | edit (buffer : Buffer)
  /-- Narrowing or widening. -/
  | narrow (buffer : Buffer)
  | rename (fileName : Option String)
  | insert (fileName : String) (point : Nat) (visit replace : Bool) (cached : Option CachedBytes)
      (reply : VisitReply)
  | newFile (fileExists : Bool)
  | save (env : Env) (replies : Replies)
  /-- A conflict that was returned is resolved. -/
  | resolve (conflict : Nat) (choice : Choice) (env : Env) (write : Request → WriteReply)
      (read : ReadReply)
  | applyMerge (conflict : Nat) (merged : Bytes) (env : Env) (verify : ReadReply)
      (write : Request → WriteReply) (read : ReadReply)
  | abandonMerge (conflict : Nat)

/-- One event. -/
def step (codec : Codec) (s : SyncBuffer) : SyncEvent → SyncBuffer
  | .edit buffer => s.setText buffer
  | .narrow buffer => if buffer.full = s.buffer.full then { s with buffer := buffer } else s
  | .rename fileName => { s with fileName := fileName }
  | .insert fileName point visit replace cached reply =>
      insertFileContents codec fileName point visit replace cached reply s
  | .newFile fileExists => visitNewFile fileExists s
  | .save env replies => (save codec env replies).after s
  | .resolve conflict choice env write read =>
      let saveAs := if choice = .saveAs then some env.saveAsName else none
      match s.offered[conflict]? with
      | some st => (resolve codec env st choice saveAs write read).after s
      | none => s
  | .applyMerge conflict merged env verify write read =>
      match s.offered[conflict]? with
      | some st => (applyMerge codec env st merged verify write read).after s
      | none => s
  | .abandonMerge conflict =>
      match s.offered[conflict]? with
      | some st => (abandonMerge st).after s
      | none => s

end Events

end EmacsRelay.Synchronous

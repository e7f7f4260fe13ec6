import EmacsRelay.Client.Machine

set_option autoImplicit false

/- The synchronous save of `lisp/relay-conflict.el`. Its requests are answered before it goes
on, so the replies are arguments. Functions go by their own names, without the prefix. -/
namespace EmacsRelay.RelayConflict

open Editor

/-- Replies to the requests of one save: the read that establishes a BASE where there is none,
the write, which may depend on what was sent, and the read that follows a write without
success. -/
structure Replies where
  baseRead : ReadReply
  write : Request → WriteReply
  read : ReadReply

inductive SyncStatus where
  | saved
  | conflict
  | retry
  | uncertain
deriving DecidableEq, Repr

structure SyncResult where
  status : SyncStatus
  reason : Option Reason := none
  revision : Option Token := none
  error : Option String := none
  remote : Option Remote := none
  conflict : Option ConflictState := none
deriving DecidableEq, Repr

/-- The target of a request for the visited file, where `relay-conflict--prepare-rpc` makes it. -/
def requestTarget (m : Machine) : Option Identity := m.fileIdentity.bind (rpcTarget · none)

/-- The error of `relay-conflict--prepare-rpc` where it makes none. -/
def noRequest (visited : Option Identity) : LispError :=
  if visited.isNone then .signalled "relay conflict save requires a visited relay file"
  else .signalled "Save As must use the same relay authority"

def visitedTarget : Lisp Identity := do
  let m ← .fetch
  match requestTarget m with
  | some target => pure target
  | none => .signal (noRequest m.fileIdentity)

open Routine in
@[simp] theorem wp_visitedTarget (post : Identity → Machine → Prop)
    (failed : LispError → Machine → Prop) (m : Machine) :
    wp visitedTarget post failed m ↔
      (∀ target, requestTarget m = some target → post target m) ∧
      (requestTarget m = none → failed (noRequest m.fileIdentity) m) := by
  simp only [visitedTarget, wp_bind, wp_fetch]
  cases requestTarget m <;> simp

def fetch (reply : ReadReply) : Lisp Remote := do
  let _ ← visitedTarget
  match reply with
  | .ok bytes revision => pure ⟨bytes, revision, false⟩
  | .failed error => .signal (.signalled (error.getD "unable to read remote file"))

def writeSnapshot (bytes : Bytes) (expected : Option Token) (reply : Request → WriteReply) :
    Lisp WriteReply := do
  let target ← visitedTarget
  pure (reply (.write target.authority target.path bytes expected))

def cache (env : Env) (bytes : Bytes) (revision : Token) : Lisp Unit := do
  mayFail env .cachePut
  let m ← .fetch
  .update (·.cachePut m.fileIdentity (some bytes) revision)

def replaceLive (codec : Codec) (env : Env) (bytes : Bytes) (revision : Token) : Lisp Unit := do
  eraseAndInsert codec env .reload none (some bytes)
  .update (·.recordBase (some bytes) revision .utf8)
  cache env bytes revision
  .update (·.setState none)
  let m ← .fetch
  .update (·.markClean m.fileIdentity)

def snapshot (codec : Codec) (reason : Reason) (remote : Option Remote)
    (classification : Option Classification) : Lisp ConflictState := do
  let m ← .fetch
  pure
    { reason := reason
      base := m.base
      localBytes := some (m.bytes codec)
      remote := remote
      classification := classification
      owner := m.fileIdentity }

/-- BASE, claimed from a pending read of the visited file where there is none. -/
def claimPending : Lisp (Option Base) := do
  let m ← .fetch
  match m.base, m.pendingRead with
  | some base, _ => pure (some base)
  | none, none => pure none
  | none, some pending =>
      if m.fileName = some pending.filename then do
        .update fun m =>
          { m.recordBase (some pending.bytes) pending.revision .utf8 with pendingRead := none }
        pure (some ⟨some pending.bytes, pending.revision, .utf8⟩)
      else pure none

/-- BASE, fetched where there is none. -/
def establishBase (reply : ReadReply) : Lisp (Option Base) := do
  let base ← claimPending
  match base with
  | some base => pure (some base)
  | none =>
      .rescue
        (do
          let remote ← fetch reply
          .update (·.recordBase (some remote.bytes) remote.revision .utf8)
          pure (some ⟨some remote.bytes, remote.revision, .utf8⟩))
        fun _ => pure none

/-- The precondition: a second save that changed nothing may use the revision of the read that
left the first undecided. -/
def expectedRevision (state : Option ConflictState) (base : Option Base) (localBytes : Bytes) :
    Option Token :=
  match state with
  | some st =>
      if st.status = some .retry ∧ st.base = base ∧ st.localBytes = some localBytes then
        (st.remote.map (·.revision)) <|> base.map (·.revision)
      else base.map (·.revision)
  | none => base.map (·.revision)

/-- The branch of `relay-conflict--save-internal` for an acknowledged write. -/
def acknowledged (env : Env) (base : Option Base) (localBytes : Bytes) (revision : Token) :
    Lisp SyncResult := do
  .update (·.recordBase (some localBytes) revision ((base.map (·.coding)).getD .utf8))
  cache env localBytes revision
  .update (·.setState none)
  let m ← .fetch
  .update (·.markClean m.fileIdentity)
  pure { status := .saved, revision := some revision }

/-- The branch for a lost reply, once the remote file has been read. -/
def reconcile (codec : Codec) (env : Env) (base : Option Base) (localBytes : Bytes)
    (remote : Remote) : Lisp SyncResult := do
  let outcome := reconcileUncertain (base.bind (·.bytes)) (some localBytes) remote.bytes
    remote.revision
  match outcome.status with
  | .saved => do
      .update (·.recordBase (some localBytes) remote.revision ((base.map (·.coding)).getD .utf8))
      cache env localBytes remote.revision
      let m ← .fetch
      .update (·.markClean m.fileIdentity)
      pure { status := .saved, reason := some outcome.reason, revision := some outcome.revision }
  | .conflict => do
      let conflict ← snapshot codec (.kind .changed) (some remote) none
      .update (·.setState (some conflict))
      pure { status := .conflict, conflict := some conflict }
  | .retry =>
      pure
        { status := .retry, reason := some outcome.reason, revision := some outcome.revision
          error := outcome.error, remote := some remote }

def lostReply (codec : Codec) (env : Env) (base : Option Base) (localBytes : Bytes)
    (error : Option String) (read : ReadReply) : Lisp SyncResult :=
  .rescue
    (do
      let remote ← fetch read
      reconcile codec env base localBytes remote)
    fun _ => pure
      { status := .uncertain, reason := some .transport
        error := some ("Save outcome is uncertain; reconnect and inspect remote: " ++
          error.getD "transport failure") }

/-- REMOTE of a conflict: read back, or the empty missing file when the read fails for a path
reported deleted. -/
def conflictRemote (reason : Reason) (read : ReadReply) : Lisp (Option Remote) :=
  .rescue
    (do
      let remote ← fetch read
      pure (some remote))
    fun _ => pure (if reason = .kind .deleted then some deletedRemote else none)

/-- End of the branch for a conflict: REMOTE equal to LOCAL is adopted. -/
def settle (codec : Codec) (env : Env) (base : Option Base) (localBytes : Bytes) (reason : Reason)
    (remote : Option Remote) : Lisp SyncResult := do
  let classification := remote.map fun r =>
    classify (base.bind (·.bytes)) (some localBytes) r.bytes (some r.revision)
  let conflict ← snapshot codec reason remote classification
  match remote, classification with
  | some r, some (.convergent _) => do
      replaceLive codec env r.bytes r.revision
      pure { status := .saved, revision := some r.revision }
  | _, _ => do
      .update (·.setState (some conflict))
      pure { status := .conflict, conflict := some conflict }

def conflicting (codec : Codec) (env : Env) (base : Option Base) (localBytes : Bytes)
    (reason : Reason) (read : ReadReply) : Lisp SyncResult := do
  let remote ← conflictRemote reason read
  settle codec env base localBytes reason remote

/-- What `relay-conflict--save-internal` does with the reply to its write. -/
def handleReply (codec : Codec) (env : Env) (base : Option Base) (localBytes : Bytes)
    (reply : WriteReply) (read : ReadReply) : Lisp SyncResult :=
  match reply with
  | .ok revision => acknowledged env base localBytes revision
  | .transport error => lostReply codec env base localBytes error read
  | .refused _ _ error =>
      match replyReason reply with
      | some reason => conflicting codec env base localBytes reason read
      | none =>
          pure
            { status := .uncertain, reason := some .serverError
              error := some (error.getD "Server could not verify the conditional save") }

/-- `relay-conflict--save-internal`. The form that reports a missing BASE is closed before the
write, so its value is dropped and the write goes out with a nil precondition. -/
def saveInternal (codec : Codec) (env : Env) (replies : Replies) : Lisp SyncResult := do
  let m ← .fetch
  let localBytes := m.bytes codec
  let base ← establishBase replies.baseRead
  let reply ← writeSnapshot localBytes (expectedRevision m.state base localBytes) replies.write
  handleReply codec env base localBytes reply replies.read

def rememberIncompleteSave (codec : Codec) (result : SyncResult) : Lisp SyncResult := do
  let m ← .fetch
  let remember (status : StateStatus) : Lisp SyncResult := do
    let state : ConflictState :=
      { status := some status
        reason := result.reason.getD .serverError
        base := m.base
        localBytes := some (m.bytes codec)
        remote := result.remote
        revision := result.revision
        error := result.error
        owner := m.fileIdentity }
    .update (·.setState (some state))
    pure { result with conflict := some state }
  match result.status with
  | .retry => remember .retry
  | .uncertain => remember .uncertain
  | .saved => pure result
  | .conflict => pure result

def save (codec : Codec) (env : Env) (replies : Replies) : Lisp SyncResult := do
  let result ← saveInternal codec env replies
  rememberIncompleteSave codec result

end EmacsRelay.RelayConflict

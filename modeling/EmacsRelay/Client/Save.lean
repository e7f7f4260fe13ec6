import EmacsRelay.Client.Machine
import EmacsRelay.Client.Wire

set_option autoImplicit false

/- The asynchronous save functions of `lisp/relay-save.el`, in the order a save meets them:
capture, dispatch, the callbacks of a reply, conflict resolution and merge publication. Functions go
by their own names, without the prefix. -/
namespace EmacsRelay.RelaySave

open Editor
open RelayConflict (classify replyReason reconcileUncertain deletedRemote menuChoices rpcTarget)

/-- `relay-save--cache-identity-safely`: an error in the cache is reported and dropped. -/
def cacheIdentitySafely (env : Env) (identity : Option Identity) (bytes : Option Bytes)
    (revision : Token) : Lisp Unit :=
  .rescue
    (do
      mayFail env .cachePut
      .update (·.cachePut identity bytes revision))
    fun _ => pure ()

/-- `relay-save--run-after-save-hook`: an error in a hook is reported and dropped. -/
def runAfterSaveHook (env : Env) : Lisp Unit :=
  .rescue (runHook env .afterSaveHook env.afterSave) fun _ => pure ()

open Routine in
@[simp] theorem wp_cacheIdentitySafely (env : Env) (identity : Option Identity)
    (bytes : Option Bytes) (revision : Token) (post : Unit → Machine → Prop)
    (failed : LispError → Machine → Prop) (m : Machine) :
    wp (cacheIdentitySafely env identity bytes revision) post failed m ↔
      (env.fails .cachePut = true → post () m) ∧
      (env.fails .cachePut = false → post () (m.cachePut identity bytes revision)) := by
  simp [cacheIdentitySafely]

open Routine in
@[simp] theorem wp_runAfterSaveHook (env : Env) (post : Unit → Machine → Prop)
    (failed : LispError → Machine → Prop) (m : Machine) :
    wp (runAfterSaveHook env) post failed m ↔ post () (m.hooked env.afterSave) := by
  cases fails : env.fails .afterSaveHook <;> simp [runAfterSaveHook, fails]

/-- `:coding` of an operation's BASE, `utf-8` when there is none. -/
def codingOf (base : Option Base) : Coding := (base.map (·.coding)).getD .utf8

/-- `relay-save--ensure-final-newline`, in a widened buffer. -/
def ensureFinalNewline (env : Env) : Lisp Unit := do
  let m ← .fetch
  let text := m.buffer.full
  .whenever (env.finalNewline && text ≠ [] && text.getLast? ≠ some '\n')
    (.update (·.edit { m.buffer with
      visible := if m.buffer.behind = [] then m.buffer.visible ++ ['\n'] else m.buffer.visible
      behind := if m.buffer.behind = [] then [] else m.buffer.behind ++ ['\n'] }))

/-- Local pre-save work: final newline, then `before-save-hook`. -/
def preSave (env : Env) : Lisp Unit := do
  ensureFinalNewline env
  runHook env .beforeSaveHook env.beforeSave

/-- The operation for the text as the hooks left it. The bytes are those of the whole buffer,
whatever is narrowed. -/
def captureOperation (codec : Codec) (identity : Identity) (base : Option Base)
    (expected : Option Token) : Lisp Operation := do
  let m ← .fetch
  match base <|> m.base with
  | none => .signal (.userError "Cannot save safely: no revision BASE is available")
  | some base =>
      pure
        { identity := some identity
          bytes := some (codec.encode m.buffer.full)
          base := some base
          expected := expected <|> some base.revision }

def capture (codec : Codec) (env : Env) (base : Option Base) (expected : Option Token) :
    Lisp Operation := do
  let m ← .fetch
  match m.fileIdentity with
  | none => .signal (.userError "Current buffer is not visiting a Relay file")
  | some identity => do
      preSave env
      captureOperation codec identity base expected

/-- `relay-save--same-request-p`. -/
def sameRequest (left right : Option Operation) : Bool :=
  match left, right with
  | some a, some b => identityEqual a.identity b.identity && a.bytes == b.bytes
  | _, _ => false

/-- `relay-save--snapshot-conflict`. BASE and LOCAL of the snapshot an operation resolves
take precedence over its own. -/
def snapshotConflict (operation : Operation) (reason : Reason) (remote : Remote) :
    ConflictState :=
  let prior := operation.snapshot
  let base := (prior.bind (·.base)) <|> operation.base
  let localBytes := (prior.bind (·.localBytes)) <|> operation.bytes
  { reason := reason
    base := base
    localBytes := localBytes
    remote := some remote
    classification :=
      some (classify (base.bind (·.bytes)) localBytes remote.bytes (some remote.revision))
    localRecovery := operation.localRecovery
    remoteRecovery := operation.remoteRecovery
    owner := operation.identity }

/-- `relay-save--finish-nonsuccess`. A killed buffer only gets a message. -/
def finishNonsuccess (operation : Operation) (status : Status) (result : SaveResult)
    (conflict : Option ConflictState) : Lisp Unit := do
  let m ← .fetch
  .whenever (m.live && m.operationCurrent operation) do
    .update (·.clearOperations)
    .whenever conflict.isSome (.update (·.setState conflict))
    .update (·.markModified)
    .update (·.setStatus status (some result))

/-- A write as `relay-conflict--prepare-rpc` makes it. It signals without an identity, for a target
of another authority, and for nil bytes. -/
def prepareWrite (identity : Option Identity) (bytes : Option Bytes) (expected : Option Token)
    (saveAs : Option String) : Option Request :=
  match identity, bytes with
  | some id, some bytes =>
      (rpcTarget id saveAs).map fun target => .write target.authority target.path bytes expected
  | _, _ => none

/-- A read as `relay-conflict--prepare-rpc` makes it. -/
def prepareRead (identity : Option Identity) : Option Request :=
  (identity.bind (rpcTarget · none)).map fun target => .read target.authority target.path

/-- The write has the target that `relay-conflict--prepare-rpc` computes from its arguments. -/
theorem prepareWrite_rpc (identity : Identity) (visited : Option Identity) (bytes : Bytes)
    (expected : Option Token) (revision : Datum) (saveAs : Option String) :
    prepareWrite (some identity) (some bytes) expected saveAs =
      (prepareRpc "write" (snapshotArguments bytes revision saveAs) (some identity)
        visited).toOption.map fun spec =>
          .write spec.identity.authority spec.identity.path bytes expected := by
  cases saveAs with
  | none =>
      have unnamed : Datum.plistGet (snapshotArguments bytes revision none) "path" = .nil := rfl
      simp only [prepareWrite, prepareRpc, Option.some_or, unnamed]
      cases rpcTarget identity none <;> rfl
  | some name =>
      have named : Datum.plistGet (snapshotArguments bytes revision (some name)) "path" =
          .str name := rfl
      simp only [prepareWrite, prepareRpc, Option.some_or, named]
      cases rpcTarget identity (some name) <;> rfl

theorem prepareRead_rpc (identity visited : Option Identity) :
    prepareRead (identity.or visited) =
      (prepareRpc "read" [] identity visited).toOption.map fun spec =>
        .read spec.identity.authority spec.identity.path := by
  have unnamed : Datum.plistGet [] "path" = .nil := rfl
  simp only [prepareRead, prepareRpc, unnamed]
  cases identity.or visited with
  | none => rfl
  | some identity =>
      simp only [Option.bind_some]
      cases rpcTarget identity none <;> rfl

section Prepared

variable {identity : Option Identity} {bytes : Option Bytes} {expected : Option Token}
  {saveAs : Option String} {request : Request}

theorem prepareWrite_some (prepared : prepareWrite identity bytes expected saveAs = some request) :
    ∃ id target content, identity = some id ∧ bytes = some content ∧
      rpcTarget id saveAs = some target ∧
      request = .write target.authority target.path content expected := by
  unfold prepareWrite at prepared
  split at prepared
  · rename_i id content
    obtain ⟨target, sent, same⟩ := Option.map_eq_some_iff.mp prepared
    exact ⟨id, target, content, rfl, rfl, sent, same.symm⟩
  · cases prepared

theorem prepareRead_some (prepared : prepareRead identity = some request) :
    ∃ id target, identity = some id ∧ rpcTarget id none = some target ∧
      request = .read target.authority target.path := by
  obtain ⟨target, sent, same⟩ := Option.map_eq_some_iff.mp prepared
  obtain ⟨id, there, directed⟩ := Option.bind_eq_some_iff.mp sent
  exact ⟨id, target, there, directed, same.symm⟩

theorem prepareWrite_bytes (prepared : (prepareWrite identity bytes expected saveAs).isSome = true) :
    ∃ content, bytes = some content := by
  obtain ⟨request, prepared⟩ := Option.isSome_iff_exists.mp prepared
  obtain ⟨_, _, content, _, same, _⟩ := prepareWrite_some prepared
  exact ⟨content, same⟩

end Prepared

def fetchAsync (env : Env) (identity : Option Identity) (callback : Callback) : Lisp Unit := do
  mayFail env .readRpc
  .update (·.issue ⟨prepareRead identity, callback⟩)

def writeSnapshotAsync (env : Env) (identity : Option Identity) (bytes : Option Bytes)
    (expected : Option Token) (callback : Callback) (saveAs : Option String) : Lisp Unit := do
  mayFail env .writeRpc
  .update (·.issueWrite ⟨prepareWrite identity bytes expected saveAs, callback⟩)

/-- `relay-conflict--merge-refusal`: keep MERGED in a recovery buffer and refresh the state
from the live text. -/
def conflictMergeRefusal (codec : Codec) (env : Env) (operation : Operation) (reason : Reason)
    (remote : Option Remote) : Lisp SaveResult := do
  let recovery ← recoveryBuffer codec env .mergeRecovery operation.bytes
  let m ← .fetch
  let base := operation.snapshot.bind (·.base)
  let localBytes := m.bytes codec
  let remote := remote <|> operation.snapshot.bind (·.remote)
  let conflict : ConflictState :=
    { reason := reason
      base := base
      localBytes := some localBytes
      remote := remote
      classification := remote.map fun r =>
        classify (base.bind (·.bytes)) (some localBytes) r.bytes (some r.revision)
      mergeRecovery := some recovery
      owner := operation.identity }
  .update (·.setState (some conflict))
  pure (.mergeRefused conflict recovery)

inductive MergeStatus where
  | conflict
  | uncertain
  | failed
deriving DecidableEq, Repr

def MergeStatus.status : MergeStatus → Status
  | .conflict => .conflict
  | .uncertain => .unknown
  | .failed => .failed

def touchMerge (merge : Option Nat) (merges : List MergeBuffer) : List MergeBuffer :=
  match merge with
  | none => merges
  | some index => merges.modify index fun b => { b with modified := true }

/-- `relay-conflict--close-ediff`, and the end of the merge mode. -/
def closeMerge (merge : Option Nat) (merges : List MergeBuffer) : List MergeBuffer :=
  match merge with
  | none => merges
  | some index => merges.modify index fun b => { b with active := false }

def mergeRefusal (codec : Codec) (env : Env) (operation : Operation) (status : MergeStatus)
    (reason : Reason) (remote : Option Remote) : Lisp Unit := do
  let m ← .fetch
  .whenever (m.live && (operation.generation.isNone || m.operationCurrent operation)) do
    let result ← conflictMergeRefusal codec env operation reason remote
    .update (·.clearOperations)
    .update (·.markModified)
    .update (·.setStatus status.status (some result))
  .update fun m => m.setMerges (touchMerge operation.mergeBuffer m.merges)

def callbackError (codec : Codec) (env : Env) (operation : Operation) (_error : LispError) :
    Lisp Unit :=
  if operation.mergeBuffer.isSome then
    mergeRefusal codec env.handling operation .uncertain .clientError none
  else
    let state : ConflictState :=
      { status := some .uncertain
        reason := .clientError
        base := operation.base
        localBytes := operation.bytes
        error := some "callback failed"
        owner := operation.identity }
    finishNonsuccess operation .unknown (.retained (some state)) (some state)

def dispatch (codec : Codec) (env : Env) (operation : Operation) : Lisp Unit := do
  let m ← .fetch
  let operation := operation.number (m.generation + 1)
  .update (·.activate operation)
  .update (·.setStatus .saving none)
  .update (·.markModified)
  .rescue
    (writeSnapshotAsync env operation.identity operation.bytes operation.expected
      (.writeDone operation) operation.saveAs)
    (callbackError codec env operation)

def queueOrDispatch (codec : Codec) (env : Env) (operation : Operation) : Lisp Unit := do
  let m ← .fetch
  if m.active.isSome then
    if sameRequest (some operation) m.active then .update (·.setQueued none)
    else if sameRequest (some operation) m.queued then pure ()
    else .update (·.setQueued (some operation))
  else dispatch codec env operation

/-- Clear the bit when the live bytes are the saved ones, unless `after-save-hook` edits
again. The result says whether they still are. -/
def confirmBytes (codec : Codec) (env : Env) (operation : Operation) (sameBytes : Bool) :
    Lisp Bool :=
  if sameBytes then do
    .update (·.markClean operation.identity)
    runAfterSaveHook env
    let m ← .fetch
    if some (m.bytes codec) = operation.bytes then pure true
    else do
      .update (·.markModified)
      pure false
  else do
    .update (·.markModified)
    pure false

/-- End of an ordinary success: the queued save goes out against the acknowledged revision,
or the result is displayed. -/
def dispatchQueued (codec : Codec) (env : Env) (operation : Operation) (revision : Token)
    (statusExtra sameBytes : Bool) (queued : Option Operation) : Lisp Unit :=
  match queued with
  | some next => do
      .update (·.markModified)
      dispatch codec env (next.rebase ⟨operation.bytes, revision, codingOf operation.base⟩)
  | none =>
      .update (·.setStatus (if sameBytes && !statusExtra then .saved else .savedNewer)
        (some (.saved revision (!sameBytes))))

/-- The branch of `relay-save--finish-success` for an ordinary or keep-local write. -/
def finishOrdinary (codec : Codec) (env : Env) (operation : Operation) (revision : Token)
    (statusExtra sameFile sameBytes : Bool) (queued : Option Operation) : Lisp Unit := do
  .whenever sameFile do
    .update (·.recordBase operation.bytes revision (codingOf operation.base))
    .update (·.setState none)
  let sameBytes ← confirmBytes codec env operation sameBytes
  dispatchQueued codec env operation revision statusExtra sameBytes
    (queued.filter fun next => sameFile && identityEqual operation.identity next.identity)

/-- The branch of `relay-save--finish-success` that installs the restored BASE. -/
def finishRestoreBase (codec : Codec) (env : Env) (operation : Operation) (revision : Token) :
    Lisp Unit := do
  eraseAndInsert codec env .restoreBase operation.localRecovery operation.bytes
  .update (·.recordBase operation.bytes revision (codingOf operation.base))
  .update (·.setState none)
  .update (·.markClean operation.identity)
  runAfterSaveHook env
  let m ← .fetch
  let same := some (m.bytes codec) == operation.bytes
  .update (·.setStatus (if same then .saved else .savedNewer) (some (.saved revision (!same))))

/-- The part of `relay-save--finish-success` for a live buffer whose operation is still
current. -/
def completeSuccess (codec : Codec) (env : Env) (operation : Operation) (revision : Token)
    (statusExtra : Bool) : Lisp Unit := do
  let m ← .fetch
  let sameFile := m.liveIdentityEqual operation.identity
  let sameBytes := sameFile && some (m.bytes codec) == operation.bytes
  .update (·.clearOperations)
  if operation.choice = some .saveAs then do
    .update (·.markModified)
    .update (·.setStatus .conflict (some (.savedAs revision m.state)))
  else if operation.choice = some .restoreBase ∧ sameFile = true ∧
      some (m.bytes codec) = operation.snapshot.bind (·.localBytes) then
    finishRestoreBase codec env operation revision
  else finishOrdinary codec env operation revision statusExtra sameFile sameBytes m.queued

def finishSuccess (codec : Codec) (env : Env) (operation : Operation) (revision : Token)
    (statusExtra : Bool) : Lisp Unit := do
  cacheIdentitySafely env operation.target operation.bytes revision
  let m ← .fetch
  .whenever (m.live && m.operationCurrent operation)
    (completeSuccess codec env operation revision statusExtra)

def reconcileTransport (env : Env) (operation : Operation) (failure : Option String) : Lisp Unit :=
  fetchAsync env operation.target (.reconcileRead operation failure)

/-- The state retained when REMOTE still equals BASE after a lost reply. -/
def retryState (operation : Operation) (outcome : Outcome) (remote : Remote) : ConflictState :=
  { status := some .retry
    reason := outcome.reason
    base := operation.base
    localBytes := operation.bytes
    remote := some remote
    revision := some remote.revision
    error := outcome.error
    owner := operation.identity }

/-- The read callback of `relay-save--reconcile-transport`. -/
def reconcileRead (codec : Codec) (env : Env) (operation : Operation) (failure : Option String)
    (reply : ReadReply) : Lisp Unit := do
  let m ← .fetch
  .whenever (!m.live || m.operationCurrent operation)
    (match reply with
    | .failed _ =>
        finishNonsuccess operation .unknown
          (.uncertain (failure.getD "Save outcome is unknown")) none
    | .ok bytes revision =>
        let outcome := reconcileUncertain (operation.base.bind (·.bytes)) operation.bytes bytes
          revision
        match outcome.status with
        | .saved => finishSuccess codec env operation revision false
        | .retry =>
            finishNonsuccess operation .unknown (.outcome outcome)
              (some (retryState operation outcome ⟨bytes, revision, false⟩))
        | .conflict =>
            let conflict := snapshotConflict operation (.kind .changed) ⟨bytes, revision, false⟩
            finishNonsuccess operation .conflict (.conflict conflict) (some conflict))

def handleConflict (env : Env) (operation : Operation) (reply : WriteReply) : Lisp Unit :=
  fetchAsync env operation.target
    (.conflictRead operation ((replyReason reply).getD (.kind .changed)))

/-- End of the read callback of `relay-save--handle-conflict`, once REMOTE is known. -/
def settleConflict (codec : Codec) (env : Env) (operation : Operation) (reason : Reason)
    (remote : Remote) : Lisp Unit :=
  let conflict := snapshotConflict operation reason remote
  match conflict.classification with
  | some (.convergent _) => finishSuccess codec env operation remote.revision false
  | _ => finishNonsuccess operation .conflict (.conflict conflict) (some conflict)

/-- The read callback of `relay-save--handle-conflict`. -/
def conflictRead (codec : Codec) (env : Env) (operation : Operation) (reason : Reason)
    (reply : ReadReply) : Lisp Unit := do
  let m ← .fetch
  .whenever (!m.live || m.operationCurrent operation)
    (match reply with
    | .ok bytes revision => settleConflict codec env operation reason ⟨bytes, revision, false⟩
    | .failed error =>
        if reason = .kind .deleted then settleConflict codec env operation reason deletedRemote
        else
          finishNonsuccess operation .failed
            (.failed .conflictRead (error.getD "Could not read the conflicting remote file")) none)

def writeDone (codec : Codec) (env : Env) (operation : Operation) (reply : WriteReply) :
    Lisp Unit := do
  let m ← .fetch
  .whenever (!m.live || m.operationCurrent operation)
    (match reply with
    | .ok revision => finishSuccess codec env operation revision operation.statusExtra
    | .transport error => reconcileTransport env operation error
    | .refused _ _ error =>
        if (replyReason reply).isSome then handleConflict env operation reply
        else
          finishNonsuccess operation .failed
            (.failed .serverError (error.getD "Relay save failed")) none)

def retryStateOperation (codec : Codec) (env : Env) : Lisp Operation := do
  let m ← .fetch
  let state := m.state
  let operation ← capture codec env (state.bind (·.base))
    ((state.bind (·.remote)).map (·.revision))
  if operation.bytes = state.bind (·.localBytes) then pure operation
  else pure { operation with expected := (state.bind (·.base)).map (·.revision) }

/-- The operation of an inspection, made of the retained state. -/
def inspection (identity : Option Identity) (state : Option ConflictState) : Operation :=
  { identity := identity
    bytes := state.bind (·.localBytes)
    base := state.bind (·.base) }

def inspectUnknown (codec : Codec) (env : Env) : Lisp Unit := do
  let m ← .fetch
  let operation := (inspection m.fileIdentity m.state).number (m.generation + 1)
  .update (·.activateInspection operation)
  .update (·.setStatus .saving none)
  .rescue (fetchAsync env operation.identity (.inspected operation m.state))
    (callbackError codec env operation)

/-- The state an inspection leaves when REMOTE equals BASE. -/
def inspectedRetry (state : Option ConflictState) (outcome : Outcome) (remote : Remote)
    (operation : Operation) : ConflictState :=
  match state with
  | some state => { state with status := some .retry, remote := some remote }
  | none =>
      { status := some .retry, reason := outcome.reason, base := none, localBytes := none
        remote := some remote, owner := operation.identity }

/-- The read callback of `relay-save--inspect-unknown`. -/
def inspected (codec : Codec) (env : Env) (operation : Operation) (state : Option ConflictState)
    (reply : ReadReply) : Lisp Unit :=
  match reply with
  | .failed _ => finishNonsuccess operation .unknown (.retained state) state
  | .ok bytes revision =>
      let outcome := reconcileUncertain ((state.bind (·.base)).bind (·.bytes))
        (state.bind (·.localBytes)) bytes revision
      match outcome.status with
      | .saved => finishSuccess codec env operation revision false
      | .retry =>
          finishNonsuccess operation .unknown (.outcome outcome)
            (some (inspectedRetry state outcome ⟨bytes, revision, false⟩ operation))
      | .conflict =>
          finishNonsuccess operation .conflict (.outcome outcome)
            (some (snapshotConflict operation (.kind .changed) ⟨bytes, revision, false⟩))

/-- `relay-save--read-conflict-choice`: the menu accepts what it offers, and RET when only
REMOTE changed. -/
def readConflictChoice (snapshot : Option ConflictState) (key : Key) : Option Choice :=
  match key with
  | .ret =>
      if snapshot.bind (·.classification) = some .remoteOnly then some .keepRemote else none
  | .choice choice =>
      if choice ∈ menuChoices (snapshot.map (·.reason)) then some choice else none

/-- Target of a Save As: a full Relay name, or a path on the same authority. -/
def saveAsTarget (identity : Option Identity) (name : String) : Identity :=
  match relayParse name with
  | some (authority, path) => ⟨name, authority, path⟩
  | none =>
      let authority := (identity.map (·.authority)).getD ""
      ⟨relayWrap authority name, authority, name⟩

/-- The operation that resolves a snapshot, before a target and recovery buffers are added. -/
def resolving (identity : Option Identity) (snapshot : Option ConflictState) (choice : Choice) :
    Operation :=
  let base := snapshot.bind (·.base)
  let remote := snapshot.bind (·.remote)
  { identity := identity
    bytes := if choice = .restoreBase then base.bind (·.bytes) else snapshot.bind (·.localBytes)
    base := base
    expected := if choice = .saveAs then some .missing else remote.map (·.revision)
    choice := some choice
    snapshot := snapshot }

def resolutionOperation (codec : Codec) (env : Env) (snapshot : Option ConflictState)
    (choice : Choice) (saveAs : Option String) : Lisp Operation := do
  let m ← .fetch
  let operation := resolving m.fileIdentity snapshot choice
  match choice, saveAs with
  | .saveAs, some name =>
      let target := saveAsTarget m.fileIdentity name
      if some target.authority = m.fileIdentity.map (·.authority) then
        pure { operation with
          saveAs := some name, targetIdentity := some target, statusExtra := true }
      else .signal (.userError "Save As must use the same Relay authority")
  | .restoreBase, _ => do
      let localRecovery ← recoveryBuffer codec env .localRecovery (snapshot.bind (·.localBytes))
      match snapshot.bind (·.remote) with
      | none => pure { operation with localRecovery := some localRecovery }
      | some remote => do
          let remoteRecovery ← recoveryBuffer codec env .remoteRecovery (some remote.bytes)
          pure { operation with
            localRecovery := some localRecovery, remoteRecovery := some remoteRecovery }
  | _, _ => pure operation

/-- REMOTE as `keep-remote` adopts it: the empty missing file when it is gone. -/
def adoptedRemote (remote : Option Remote) : Bytes × Token :=
  match remote with
  | some r => if r.deleted then ([], .missing) else (r.bytes, r.revision)
  | none => ([], .missing)

/-- The `keep-remote` branch of `relay-save--resolve-ready-conflict`. -/
def keepRemote (codec : Codec) (env : Env) (snapshot : Option ConflictState) : Lisp Unit := do
  let adopted := adoptedRemote (snapshot.bind (·.remote))
  let recovery ← recoveryBuffer codec env .localRecovery (snapshot.bind (·.localBytes))
  eraseAndInsert codec env .keepRemote (some recovery) (some adopted.1)
  .update (·.recordBase (some adopted.1) adopted.2 .utf8)
  let m ← .fetch
  cacheIdentitySafely env m.fileIdentity (some adopted.1) adopted.2
  .update (·.setState none)
  .update (·.markClean (snapshot.bind (·.owner)))
  .update (·.setStatus .saved (some (.adoptedRemote recovery)))

/-- `relay-conflict--start-ediff`: the three snapshots must all be there to be decoded. -/
def startEdiff (env : Env) (snapshot : Option ConflictState) : Lisp Unit := do
  mayFail env .ediff
  match snapshot.bind (·.localBytes), snapshot.bind (·.remote),
      (snapshot.bind (·.base)).bind (·.bytes) with
  | some _, some _, some _ =>
      .update fun m => m.setMerges (m.merges ++ [⟨snapshot, true, false⟩])
  | _, _, _ => .signal .wrongType

def resolveReadyConflict (codec : Codec) (env : Env) : Lisp Unit := do
  let m ← .fetch
  match readConflictChoice m.state env.key with
  | none => pure ()
  | some .cancel => pure ()
  | some .merge => startEdiff env m.state
  | some .keepRemote => keepRemote codec env m.state
  | some choice => do
      let operation ← resolutionOperation codec env m.state choice
        (if choice = .saveAs then some env.saveAsName else none)
      dispatch codec env operation

/-- MERGED replaces the live text. -/
def installMerge (codec : Codec) (env : Env) (operation : Operation) (revision : Token) :
    Lisp Unit := do
  eraseAndInsert codec env .merge none operation.bytes
  .update (·.markClean operation.identity)
  runAfterSaveHook env
  let m ← .fetch
  let newer := some (m.bytes codec) != operation.bytes
  .whenever newer (.update (·.markModified))
  .update (·.setStatus (if newer then .savedNewer else .saved) (some (.saved revision newer)))

/-- The part of `relay-save--merge-success` for a live buffer whose merge is still current. -/
def finishMerge (codec : Codec) (env : Env) (operation : Operation) (revision : Token)
    (sameFile installable : Bool) : Lisp Unit := do
  .update (·.clearOperations)
  .whenever sameFile do
    .update (·.recordBase operation.bytes revision .utf8)
    .update (·.setState none)
  if installable then installMerge codec env operation revision
  else do
    .update (·.markModified)
    .update (·.setStatus .savedNewer (some (.saved revision true)))

def mergeSuccess (codec : Codec) (env : Env) (operation : Operation) (revision : Token) :
    Lisp Unit := do
  cacheIdentitySafely env operation.identity operation.bytes revision
  let m ← .fetch
  .whenever (m.live && m.operationCurrent operation)
    (finishMerge codec env operation revision (m.liveIdentityEqual operation.identity)
      (m.liveIdentityEqual operation.identity &&
        some (m.bytes codec) == operation.snapshot.bind (·.localBytes)))
  .update fun m => m.setMerges (closeMerge operation.mergeBuffer m.merges)

/-- REMOTE of a follow-up read, when it succeeded. -/
def remoteResult : ReadReply → Option Remote
  | .ok bytes revision => some ⟨bytes, revision, false⟩
  | .failed _ => none

/-- The read callback after a merge write whose reply was lost. -/
def mergeLossRead (codec : Codec) (env : Env) (operation : Operation) (reply : ReadReply) :
    Lisp Unit :=
  match reply with
  | .ok bytes revision =>
      if operation.bytes = some bytes then mergeSuccess codec env operation revision
      else mergeRefusal codec env operation .uncertain .transport (remoteResult reply)
  | .failed _ => mergeRefusal codec env operation .uncertain .transport none

/-- The read callback after a merge write the server refused. -/
def mergeConflictRead (codec : Codec) (env : Env) (operation : Operation) (reason : Reason)
    (reply : ReadReply) : Lisp Unit :=
  mergeRefusal codec env operation .conflict reason (remoteResult reply)

def mergeWriteDone (codec : Codec) (env : Env) (operation : Operation) (reply : WriteReply) :
    Lisp Unit :=
  match reply with
  | .ok revision => mergeSuccess codec env operation revision
  | .transport _ => fetchAsync env operation.identity (.mergeLossRead operation)
  | .refused _ _ _ =>
      match replyReason reply with
      | some reason => fetchAsync env operation.identity (.mergeConflictRead operation reason)
      | none => mergeRefusal codec env operation .failed .serverError none

def mergeVerified (codec : Codec) (env : Env) (operation : Operation) (reply : ReadReply) :
    Lisp Unit := do
  let m ← .fetch
  if ¬ (m.live && m.operationCurrent operation && m.liveIdentityEqual operation.identity &&
      some (m.bytes codec) == operation.snapshot.bind (·.localBytes)) then
    mergeRefusal codec env operation .failed .liveChanged none
  else
    match reply with
    | .failed _ => mergeRefusal codec env operation .uncertain .transport none
    | .ok bytes revision =>
        if some revision ≠ (operation.snapshot.bind (·.remote)).map (·.revision) then
          mergeRefusal codec env operation .conflict (.kind .changed)
            (some ⟨bytes, revision, false⟩)
        else
          writeSnapshotAsync env operation.identity operation.bytes (some revision)
            (.mergeWriteDone operation) none

/-- The operation that publishes MERGED. -/
def merging (identity : Option Identity) (snapshot : ConflictState) (merge : Nat)
    (merged : Bytes) : Operation :=
  { identity := identity
    bytes := some merged
    base := snapshot.base
    snapshot := some snapshot
    mergeBuffer := some merge }

/-- `relay-save-apply-merge-async`, for merge buffer `merge` holding `merged`. -/
def applyMergeAsync (codec : Codec) (env : Env) (merge : Nat) (merged : Bytes) : Lisp Unit := do
  let m ← .fetch
  match m.merges[merge]?.bind (·.snapshot) with
  | none => .signal (.userError "Relay merge no longer has a live originating buffer")
  | some snapshot =>
      if ¬ m.live then
        .signal (.userError "Relay merge no longer has a live originating buffer")
      else if m.active.isSome then .signal (.userError "A Relay save is already in progress")
      else
        let operation := merging m.fileIdentity snapshot merge merged
        if some (m.bytes codec) ≠ snapshot.localBytes then
          mergeRefusal codec env operation .failed .liveChanged none
        else do
          let operation := operation.number (m.generation + 1)
          .update (·.activate operation)
          .update (·.markModified)
          .update (·.setStatus .saving none)
          .rescue (fetchAsync env operation.identity (.mergeVerified operation))
            (callbackError codec env operation)

def abandonMerge (merge : Nat) : Lisp Unit := do
  let m ← .fetch
  match m.merges[merge]? with
  | none => pure ()
  | some buffer => do
      .whenever (m.live && m.state.isNone) (.update (·.setState buffer.snapshot))
      .update fun m => m.setMerges (closeMerge (some merge) m.merges)

def saveBufferAsync (codec : Codec) (env : Env) : Lisp Unit := do
  let m ← .fetch
  if m.fileIdentity.isNone then
    .signal (.userError "Current buffer is not an asynchronous Relay save buffer")
  else if m.status = some .conflict then resolveReadyConflict codec env
  else if m.status = some .unknown ∧ m.state.bind (·.status) = some .retry then do
    let operation ← retryStateOperation codec env
    queueOrDispatch codec env operation
  else if m.status = some .unknown then inspectUnknown codec env
  else if m.active.isSome ∨ m.modified = true ∨ m.status = some .failed then do
    let operation ← capture codec env none none
    queueOrDispatch codec env operation
  else pure ()

/-- The body of each callback. A reply of the wrong kind cannot reach a callback and is
ignored. -/
def callbackBody (codec : Codec) (env : Env) (callback : Callback)
    (reply : WriteReply ⊕ ReadReply) : Lisp Unit :=
  match callback, reply with
  | .writeDone operation, .inl reply => writeDone codec env operation reply
  | .reconcileRead operation failure, .inr reply => reconcileRead codec env operation failure reply
  | .conflictRead operation reason, .inr reply => conflictRead codec env operation reason reply
  | .inspected operation state, .inr reply => inspected codec env operation state reply
  | .mergeVerified operation, .inr reply => mergeVerified codec env operation reply
  | .mergeWriteDone operation, .inl reply => mergeWriteDone codec env operation reply
  | .mergeLossRead operation, .inr reply => mergeLossRead codec env operation reply
  | .mergeConflictRead operation reason, .inr reply =>
      mergeConflictRead codec env operation reason reply
  | _, _ => pure ()

/-- `relay-save--guarded-callback` around the body of each callback. -/
def runCallback (codec : Codec) (env : Env) (callback : Callback)
    (reply : WriteReply ⊕ ReadReply) : Lisp Unit :=
  .rescue (callbackBody codec env callback reply) (callbackError codec env callback.operation)

end EmacsRelay.RelaySave

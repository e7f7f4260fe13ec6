import EmacsRelay.Client.SyncSave
import EmacsRelay.Client.Run

set_option autoImplicit false

/- Synchronous saves request by request: while one waits for a reply or for the user, timers and
callbacks run, and with them asynchronous saves of the same buffer. -/
namespace EmacsRelay.RelayConflict

open Editor RelaySave

inductive Followup where
  | lost (error : Option String)
  | refused (reason : Reason)
deriving DecidableEq, Repr

/-- What a synchronous save waits for: the reply to its write, the read that follows, the user's
answer to the menu, the reply to the write that resolves, the read that refreshes the conflict. -/
inductive Wait where
  | write (request : Request) (base : Option Base) (localBytes : Bytes)
  | read (base : Option Base) (localBytes : Bytes) (followup : Followup)
  | menu (snapshot : ConflictState)
  | resolve (request : Request) (snapshot : ConflictState) (choice : Choice) (bytes : Bytes)
  | refresh (snapshot : ConflictState) (reason : Reason)
deriving DecidableEq, Repr

/-- `relay-conflict--write-contents` up to the wait for its write. Without a BASE it leaves the
save to others. -/
def writeContents (codec : Codec) : Lisp (Option Wait) := do
  let m ← .fetch
  match m.fileIdentity, m.base with
  | some _, some base => do
      let localBytes := m.bytes codec
      let expected := expectedRevision m.state (some base) localBytes
      let target ← visitedTarget
      pure (some (.write (.write target.authority target.path localBytes expected) (some base)
        localBytes))
  | _, _ => pure none

/-- The rest of `relay-conflict--write-contents`, once the save has a result. -/
def writeContentsDone (codec : Codec) (interactive : Bool) (result : SyncResult) :
    Lisp (Option Wait) := do
  let result ← rememberIncompleteSave codec result
  match result.status with
  | .saved => pure none
  | .conflict =>
      if interactive then pure (result.conflict.map .menu)
      else .signal (.signalled "relay save conflict")
  | .retry => .signal (.signalled "relay save is uncertain")
  | .uncertain => .signal (.signalled "relay save is uncertain")

def readReplied (codec : Codec) (env : Env) (interactive : Bool) (base : Option Base)
    (localBytes : Bytes) (followup : Followup) (reply : ReadReply) : Lisp (Option Wait) := do
  let result ← (match followup with
    | .lost error =>
        let uncertain : SyncResult :=
          { status := .uncertain, reason := some .transport
            error := some ("Save outcome is uncertain; reconnect and inspect remote: " ++
              error.getD "transport failure") }
        match reply with
        | .ok bytes revision =>
            .rescue (reconcile codec env base localBytes ⟨bytes, revision, false⟩)
              fun _ => pure uncertain
        | .failed _ => pure uncertain
    | .refused reason =>
        settle codec env base localBytes reason
          (match reply with
          | .ok bytes revision => some ⟨bytes, revision, false⟩
          | .failed _ => if reason = .kind .deleted then some deletedRemote else none))
  writeContentsDone codec interactive result

/-- `relay-conflict--fetch` signals at once where no request can be made. -/
def startRead (codec : Codec) (env : Env) (interactive : Bool) (base : Option Base)
    (localBytes : Bytes) (followup : Followup) : Lisp (Option Wait) := do
  let m ← .fetch
  if (requestTarget m).isNone then
    readReplied codec env interactive base localBytes followup (.failed none)
  else pure (some (.read base localBytes followup))

def writeReplied (codec : Codec) (env : Env) (interactive : Bool) (base : Option Base)
    (localBytes : Bytes) (reply : WriteReply) : Lisp (Option Wait) :=
  match reply with
  | .ok revision => do
      let result ← acknowledged env base localBytes revision
      writeContentsDone codec interactive result
  | .transport error => startRead codec env interactive base localBytes (.lost error)
  | .refused _ _ error =>
      match replyReason reply with
      | some reason => startRead codec env interactive base localBytes (.refused reason)
      | none =>
          writeContentsDone codec interactive
            { status := .uncertain, reason := some .serverError
              error := some (error.getD "Server could not verify the conditional save") }

def unresolved : Lisp (Option Wait) := .signal (.signalled "relay conflict remains unresolved")

/-- The branch of `relay-conflict--resolve` that writes, up to the wait for its reply. -/
def resolveWrite (codec : Codec) (env : Env) (snapshot : ConflictState) (choice : Choice)
    (saveAs : Option String) : Lisp (Option Wait) := do
  let bytes := if choice = .restoreBase then snapshot.base.bind (·.bytes) else snapshot.localBytes
  let expected :=
    if choice = .saveAs then some .missing else snapshot.remote.map (·.revision)
  (match choice with
  | .restoreBase => do
      let _ ← recoveryBuffer codec env .localRecovery snapshot.localBytes
      let _ ← recoveryBuffer codec env .remoteRecovery
        (some ((snapshot.remote.map (·.bytes)).getD []))
      pure ()
  | _ => pure ())
  let m ← .fetch
  match bytes, prepareWrite m.fileIdentity bytes expected saveAs with
  | some bytes, some request => pure (some (.resolve request snapshot choice bytes))
  | _, _ => .signal (.signalled "relay conflict save requires a visited relay file")

def resolve (codec : Codec) (env : Env) (snapshot : ConflictState) (choice : Choice)
    (saveAs : Option String) : Lisp (Option Wait) :=
  match choice with
  | .cancel => do
      .update (·.setState (some snapshot))
      unresolved
  | .keepRemote => do
      let _ ← recoveryBuffer codec env .localRecovery snapshot.localBytes
      let adopted := adoptedRemote snapshot.remote
      replaceLive codec env adopted.1 adopted.2
      pure none
  | .merge => do
      startEdiff env (some snapshot)
      unresolved
  | choice => resolveWrite codec env snapshot choice saveAs

/-- `relay-conflict--interactive-menu`: a key it does not offer is asked for again. -/
def menuAnswered (codec : Codec) (env : Env) (snapshot : ConflictState) : Lisp (Option Wait) :=
  match readConflictChoice (some snapshot) env.key with
  | none => pure (some (.menu snapshot))
  | some choice =>
      resolve codec env snapshot choice (if choice = .saveAs then some env.saveAsName else none)

def freshConflict (snapshot : ConflictState) (reason : Reason) (reply : ReadReply) :
    ConflictState :=
  match reply with
  | .ok bytes revision =>
      { reason := reason
        base := snapshot.base
        localBytes := snapshot.localBytes
        remote := some ⟨bytes, revision, false⟩
        classification := some (classify (snapshot.base.bind (·.bytes)) snapshot.localBytes bytes
          (some revision))
        owner := snapshot.owner }
  | .failed _ =>
      if reason = .kind .deleted then
        { reason := reason
          base := snapshot.base
          localBytes := snapshot.localBytes
          remote := some deletedRemote
          owner := snapshot.owner }
      else snapshot

def refreshReplied (snapshot : ConflictState) (reason : Reason) (reply : ReadReply) :
    Lisp (Option Wait) := do
  let fresh := freshConflict snapshot reason reply
  .update (·.setState (some fresh))
  pure (some (.menu fresh))

def resolveReplied (codec : Codec) (env : Env) (snapshot : ConflictState) (choice : Choice)
    (bytes : Bytes) (reply : WriteReply) : Lisp (Option Wait) :=
  match reply with
  | .ok revision =>
      if choice = .saveAs then do
        .update (·.setState (some snapshot))
        unresolved
      else do
        .update (·.recordBase (some bytes) revision .utf8)
        .update (·.setState none)
        if choice = .restoreBase then replaceLive codec env bytes revision
        else do
          cache env bytes revision
          let m ← .fetch
          .whenever (m.bytes codec == bytes) (.update (·.markClean m.fileIdentity))
        pure none
  | reply =>
      match replyReason reply with
      | some reason => do
          let m ← .fetch
          if (requestTarget m).isNone then refreshReplied snapshot reason (.failed none)
          else pure (some (.refresh snapshot reason))
      | none => do
          .update (·.setState (some snapshot))
          unresolved

/-- A synchronous save goes on. A reply of another kind than it waits for cannot reach it. -/
def resume (codec : Codec) (env : Env) (interactive : Bool) (wait : Wait) (reply : AnyReply) :
    Lisp (Option Wait) :=
  match wait, reply with
  | .write _ base localBytes, .inl reply => writeReplied codec env interactive base localBytes reply
  | .read base localBytes followup, .inr reply =>
      readReplied codec env interactive base localBytes followup reply
  | .resolve _ snapshot choice bytes, .inl reply =>
      resolveReplied codec env snapshot choice bytes reply
  | .refresh snapshot reason, .inr reply => refreshReplied snapshot reason reply
  | wait, _ => pure (some wait)

section Uninterrupted

variable {codec : Codec} {env : Env} {interactive : Bool}

def follow (codec : Codec) (env : Env) (interactive : Bool) (read : ReadReply) :
    Option Wait → Lisp (Option Wait)
  | some (.read base localBytes followup) =>
      resume codec env interactive (.read base localBytes followup) (.inr read)
  | wait => pure wait

/-- A save whose requests are answered at once. -/
def uninterrupted (codec : Codec) (env : Env) (interactive : Bool) (replies : Replies) :
    Lisp (Option Wait) := do
  let wait ← writeContents codec
  match wait with
  | some (.write request base localBytes) => do
      let next ← resume codec env interactive (.write request base localBytes)
        (.inl (replies.write request))
      follow codec env interactive replies.read next
  | wait => pure wait

theorem writeContentsDone_follow (result : SyncResult) (read : ReadReply) :
    writeContentsDone codec interactive result >>= follow codec env interactive read =
      writeContentsDone codec interactive result := by
  funext m
  obtain ⟨status, reason, revision, error, remote, conflict⟩ := result
  cases status with
  | conflict =>
      cases interactive with
      | true => cases conflict <;> rfl
      | false => rfl
  | _ => rfl

section Reached

variable {m : Machine} {target : Identity}

theorem visitedTarget_some (reached : requestTarget m = some target) :
    visitedTarget m = (.ok target, m) := by
  simp only [visitedTarget, bind, Routine.fetch, reached]
  rfl

theorem fetch_ok (reached : requestTarget m = some target) (bytes : Bytes) (revision : Token) :
    fetch (.ok bytes revision) m = (.ok ⟨bytes, revision, false⟩, m) := by
  simp only [fetch, bind, visitedTarget_some reached]
  rfl

theorem fetch_failed (reached : requestTarget m = some target) (error : Option String) :
    fetch (.failed error) m = (.error (.signalled (error.getD "unable to read remote file")), m) := by
  simp only [fetch, bind, visitedTarget_some reached]
  rfl

theorem startRead_reached (reached : requestTarget m = some target) (base : Option Base)
    (localBytes : Bytes) (followup : Followup) :
    startRead codec env interactive base localBytes followup m =
      (.ok (some (.read base localBytes followup)), m) := by
  simp only [startRead, bind, Routine.fetch, reached]
  rfl

/-- The read of a save is the one that it waits for. -/
theorem readReplied_eq (reached : requestTarget m = some target) (base : Option Base)
    (localBytes : Bytes) (followup : Followup) (read : ReadReply) :
    readReplied codec env interactive base localBytes followup read m =
      ((match followup with
        | .lost error => lostReply codec env base localBytes error read
        | .refused reason => conflicting codec env base localBytes reason read) >>=
          writeContentsDone codec interactive) m := by
  cases followup with
  | lost error =>
      cases read with
      | ok bytes revision =>
          simp only [readReplied, lostReply, bind, Routine.rescue, fetch_ok reached]
      | failed error' =>
          simp only [readReplied, lostReply, bind, Routine.rescue, fetch_failed reached]
  | refused reason =>
      cases read with
      | ok bytes revision =>
          simp only [readReplied, conflicting, conflictRemote, bind, Routine.rescue,
            fetch_ok reached]
          rfl
      | failed error' =>
          simp only [readReplied, conflicting, conflictRemote, bind, Routine.rescue,
            fetch_failed reached]
          rfl

theorem writeReplied_follow (reached : requestTarget m = some target) (base : Option Base)
    (localBytes : Bytes) (reply : WriteReply) (read : ReadReply) :
    (writeReplied codec env interactive base localBytes reply >>=
        follow codec env interactive read) m =
      (handleReply codec env base localBytes reply read >>= writeContentsDone codec interactive)
        m := by
  have waits : ∀ followup : Followup,
      (startRead codec env interactive base localBytes followup >>=
        follow codec env interactive read) m =
      readReplied codec env interactive base localBytes followup read m :=
    fun followup => Routine.bind_of_runs (startRead_reached reached base localBytes followup) _
  cases reply with
  | ok revision =>
      simp only [writeReplied, handleReply, Routine.bind_assoc, writeContentsDone_follow]
  | transport error => exact (waits (.lost error)).trans (readReplied_eq reached _ _ _ _)
  | refused code conflict error =>
      simp only [writeReplied, handleReply]
      cases replyReason (.refused code conflict error) with
      | none => exact congrFun (writeContentsDone_follow _ read) m
      | some reason => exact (waits (.refused reason)).trans (readReplied_eq reached _ _ _ _)

end Reached

/-- With nothing in between, a save of a visited file with a BASE is the one without waits. -/
theorem uninterrupted_eq {m : Machine} (visited : m.fileIdentity.isSome = true)
    (based : m.base.isSome = true) (replies : Replies) :
    uninterrupted codec env interactive replies m =
      (saveInternal codec env replies >>= writeContentsDone codec interactive) m := by
  obtain ⟨identity, identified⟩ := Option.isSome_iff_exists.mp visited
  obtain ⟨base, known⟩ := Option.isSome_iff_exists.mp based
  have established : establishBase replies.baseRead m = (.ok (some base), m) := by
    simp only [establishBase, claimPending, bind, Routine.fetch, known]
    rfl
  cases reached : requestTarget m with
  | none =>
      have unsent : visitedTarget m = (.error (noRequest m.fileIdentity), m) := by
        simp only [visitedTarget, bind, Routine.fetch, reached]
        rfl
      simp only [uninterrupted, writeContents, saveInternal, writeSnapshot, bind, Routine.fetch,
        identified, known, established, unsent]
  | some target =>
      have sent := visitedTarget_some reached
      let expected := expectedRevision m.state (some base) (m.bytes codec)
      let reply := replies.write (.write target.authority target.path (m.bytes codec) expected)
      calc uninterrupted codec env interactive replies m
          = (writeReplied codec env interactive (some base) (m.bytes codec) reply >>=
              follow codec env interactive replies.read) m := by
            simp only [uninterrupted, writeContents, bind, Routine.fetch, identified, known, sent]
            rfl
        _ = (handleReply codec env (some base) (m.bytes codec) reply replies.read >>=
              writeContentsDone codec interactive) m :=
            writeReplied_follow reached _ _ reply replies.read
        _ = (saveInternal codec env replies >>= writeContentsDone codec interactive) m := by
            simp only [saveInternal, writeSnapshot, bind, Routine.fetch, established, sent]
            rfl

end Uninterrupted

end EmacsRelay.RelayConflict

namespace EmacsRelay

open RelayConflict

structure Visit where
  machine : Machine
  waits : List Wait := []

inductive VisitEvent where
  | async (event : Event)
  /-- `save-buffer` runs `relay-conflict--write-contents`. -/
  | syncSave
  | syncReply (index : Nat) (reply : AnyReply) (interactive : Bool) (env : Env)
  | syncKey (index : Nat) (env : Env)

/-- A synchronous save runs until it waits again, returns or signals. -/
def Visit.run (v : Visit) (waits : List Wait) (body : Lisp (Option Wait)) : Visit :=
  match body v.machine with
  | (.ok next, m) => ⟨m, waits ++ next.toList⟩
  | (.error _, m) => ⟨m, waits⟩

def Visit.step (codec : Codec) (v : Visit) : VisitEvent → Visit
  | .async event => { v with machine := EmacsRelay.step codec v.machine event }
  | .syncSave => v.run v.waits (writeContents codec)
  | .syncReply index reply interactive env =>
      match v.waits[index]? with
      | none => v
      | some wait => v.run (v.waits.eraseIdx index) (resume codec env interactive wait reply)
  | .syncKey index env =>
      match v.waits[index]? with
      | some (.menu snapshot) =>
          v.run (v.waits.eraseIdx index) (menuAnswered codec env snapshot)
      | _ => v

end EmacsRelay

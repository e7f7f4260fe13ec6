import EmacsRelay.Client.Coalesce
import EmacsRelay.Client.Saved

set_option autoImplicit false

/- One save of an edited buffer, made by waiting for the replies and made by callbacks. -/
namespace EmacsRelay

open Routine Editor RelaySave

inductive FinalVerdict where
  | saved
  | conflict
  | unresolved
deriving DecidableEq, Repr

/-- BASE, LOCAL and REMOTE of a retained state. -/
structure Retained where
  base : Option Base
  localBytes : Option Bytes
  remote : Option Remote
deriving DecidableEq, Repr

/-- How a save ended: the verdict, BASE, the modified bit and, when not saved, what is kept. -/
structure Ending where
  verdict : FinalVerdict
  base : Option Base
  modified : Bool
  retained : Option Retained
deriving DecidableEq, Repr

def ConflictState.retained (state : ConflictState) : Retained :=
  ⟨state.base, state.localBytes, state.remote⟩

def Ending.of (verdict : FinalVerdict) (m : Machine) : Ending :=
  ⟨verdict, m.base, m.modified,
    if verdict = .saved then none else m.state.map ConflictState.retained⟩

def RelayConflict.SyncStatus.verdict : RelayConflict.SyncStatus → FinalVerdict
  | .saved => .saved
  | .conflict => .conflict
  | .retry => .unresolved
  | .uncertain => .unresolved

/-- The verdict on display; a save still in flight has none. -/
def Status.verdict : Status → Option FinalVerdict
  | .saved => some .saved
  | .savedNewer => some .saved
  | .conflict => some .conflict
  | .unknown => some .unresolved
  | .failed => some .unresolved
  | .saving => none

/-- The end of `relay-conflict--save`. -/
def syncEnding (codec : Codec) (m : Machine) (reply : WriteReply) (read : ReadReply) :
    Option Ending :=
  match RelayConflict.save codec {} ⟨read, fun _ => reply, read⟩ m with
  | (.ok result, t) => some (.of result.status.verdict t)
  | (.error _, _) => none

/-- The end of a save that is dispatched, answered, and answered again if it asks. -/
def asyncEnding (codec : Codec) (m : Machine) (reply : WriteReply) (read : ReadReply) :
    Option Ending :=
  let t := runAll codec m
    [.save {}, .reply m.rpcs.length (.inl reply) {}, .reply (m.rpcs.length + 1) (.inr read) {}]
  (t.status.bind Status.verdict).map (Ending.of · t)

/-- A visit with BASE, no save going on, and nothing retained from an earlier one; requests for the
file can be made. -/
structure Ready (id : Identity) (base : Base) (m : Machine) : Prop where
  live : m.live = true
  visiting : m.fileIdentity = some id
  sends : (RelayConflict.rpcTarget id none).isSome = true
  base : m.base = some base
  captures : Captures m
  state : m.state = none
  active : m.active = none
  queued : m.queued = none
  calm : m.status ≠ some .conflict ∧ m.status ≠ some .unknown

/-- REMOTE as the follow-up read of a save reports it, if it does. -/
def reportedRemote (reply : WriteReply) (read : ReadReply) : Option Remote :=
  match read with
  | .ok bytes revision => some ⟨bytes, revision, false⟩
  | .failed _ =>
      if RelayConflict.replyReason reply = some (.kind .deleted) then
        some RelayConflict.deletedRemote
      else none

/-- The write was acknowledged; or its reply was lost or names a reason, and REMOTE is reported. -/
def Settles (reply : WriteReply) (read : ReadReply) : Prop :=
  match reply with
  | .ok _ => True
  | .transport _ => (reportedRemote reply read).isSome
  | .refused _ _ _ =>
      (RelayConflict.replyReason reply).isSome ∧ (reportedRemote reply read).isSome

/-- The write was acknowledged, or REMOTE is reported to be LOCAL. -/
def Confirms (localBytes : Bytes) (reply : WriteReply) (read : ReadReply) : Prop :=
  match reply with
  | .ok _ => True
  | _ => (reportedRemote reply read).map (·.bytes) = some localBytes

section Endings

variable (base : Base) (localBytes : Bytes) (clean edited : Bool)

def savedAt (revision : Token) : Ending :=
  ⟨.saved, some ⟨some localBytes, revision, base.coding⟩, !clean, none⟩

def keeping (verdict : FinalVerdict) (remote : Option Remote) : Ending :=
  ⟨verdict, some base, edited, some ⟨some base, some localBytes, remote⟩⟩

/-- The decision once REMOTE is known, after a lost reply or a conflict. -/
def decided (lost : Bool) (remote : Remote) : Ending :=
  if localBytes = remote.bytes then savedAt base localBytes clean remote.revision
  else if lost ∧ base.bytes = some remote.bytes then
    keeping base localBytes edited .unresolved (some remote)
  else keeping base localBytes edited .conflict (some remote)

/-- What both paths decide, given how each ends where it learns nothing about REMOTE. -/
def decision (unread : Ending) (reply : WriteReply) (read : ReadReply) : Ending :=
  match reply with
  | .ok revision => savedAt base localBytes clean revision
  | .transport _ =>
      match reportedRemote reply read with
      | some remote => decided base localBytes clean edited true remote
      | none => unread
  | .refused _ _ _ =>
      match RelayConflict.replyReason reply, reportedRemote reply read with
      | some _, some remote => decided base localBytes clean edited false remote
      | _, _ => unread

end Endings

/-- Where nothing is known about REMOTE, waiting keeps BASE and LOCAL. -/
def syncUnread (base : Base) (localBytes : Bytes) (edited : Bool) (reply : WriteReply) : Ending :=
  keeping base localBytes edited
    (if (RelayConflict.replyReason reply).isSome then .conflict else .unresolved) none

/-- Where nothing is known about REMOTE, the callbacks keep nothing. -/
def asyncUnread (base : Base) : Ending := ⟨.unresolved, some base, true, none⟩

variable {codec : Codec} {id : Identity} {base : Base} {m t : Machine} {reply : WriteReply}
  {read : ReadReply}

namespace RelayConflict

theorem requestTarget_ready (ready : Ready id base m) :
    ∃ target, rpcTarget id none = some target ∧ requestTarget m = some target := by
  obtain ⟨target, directed⟩ := Option.isSome_iff_exists.mp ready.sends
  refine ⟨target, directed, ?_⟩
  rw [requestTarget, ready.visiting]
  exact directed

/-- A save without surprises works with the recorded BASE. -/
theorem saveInternal_ready (ready : Ready id base m) {target : Identity}
    (directed : requestTarget m = some target) (replies : Replies) :
    saveInternal codec {} replies m =
      handleReply codec {} (some base) (m.bytes codec)
        (replies.write (.write target.authority target.path (m.bytes codec) (some base.revision)))
        replies.read m := by
  simp [saveInternal, establishBase, claimPending, writeSnapshot, visitedTarget, bind,
    Routine.fetch, ready.base, directed, ready.state, expectedRevision, pure]

/-- A lost reply is decided by comparing REMOTE with LOCAL, then with BASE. -/
theorem reconcile_ending (ready : Ready id base m) (remote : Remote) :
    wp (reconcile codec {} (some base) (m.bytes codec) remote)
      (fun result t => wp (rememberIncompleteSave codec result)
        (fun result t => Ending.of result.status.verdict t =
          decided base (m.bytes codec) true m.modified true remote)
        (fun _ _ => False) t)
      (fun _ _ => False) m := by
  by_cases same : m.bytes codec = remote.bytes
  · simp [reconcile, reconcileUncertain, cache, rememberIncompleteSave, decided, savedAt,
      Ending.of, SyncStatus.verdict, same]
  · by_cases unchanged : base.bytes = some remote.bytes
    · simp [reconcile, reconcileUncertain, rememberIncompleteSave, decided, keeping, Ending.of,
        SyncStatus.verdict, ConflictState.retained, same, unchanged, ready.base]
    · simp [reconcile, reconcileUncertain, snapshot, rememberIncompleteSave, decided, keeping,
        Ending.of, SyncStatus.verdict, ConflictState.retained, same, unchanged, ready.base]

/-- A conflict is decided by comparing REMOTE with LOCAL. -/
theorem settle_ending (ready : Ready id base m) (reason : Reason) (remote : Remote) :
    wp (settle codec {} (some base) (m.bytes codec) reason (some remote))
      (fun result t => wp (rememberIncompleteSave codec result)
        (fun result t => Ending.of result.status.verdict t =
          decided base (m.bytes codec) true m.modified false remote)
        (fun _ _ => False) t)
      (fun _ _ => False) m := by
  by_cases same : m.bytes codec = remote.bytes
  · simp [settle, snapshot, same, classify_same, replaceLive, cache, rememberIncompleteSave,
      decided, savedAt, Ending.of, SyncStatus.verdict]
  · have apart : ∀ revision, classify base.bytes (some (m.bytes codec)) remote.bytes
        (some remote.revision) ≠ .convergent revision := fun revision convergent =>
      same (Option.some.inj (classify_convergent convergent).1)
    simp only [settle, snapshot, wp_bind, wp_fetch, wp_pure, Option.map_some, Option.bind_some]
    split
    · rename_i convergent
      exact absurd (Option.some.inj convergent) (apart _)
    · simp [rememberIncompleteSave, decided, keeping, Ending.of, SyncStatus.verdict,
        ConflictState.retained, same, ready.base]

/-- The decision of the waiting path, from the reply to its write. -/
theorem handleReply_ending (codec : Codec) (ready : Ready id base m) (reply : WriteReply)
    (read : ReadReply) :
    wp (handleReply codec {} (some base) (m.bytes codec) reply read)
      (fun result t => wp (rememberIncompleteSave codec result)
        (fun result t => Ending.of result.status.verdict t =
          decision base (m.bytes codec) true m.modified
            (syncUnread base (m.bytes codec) m.modified reply) reply read)
        (fun _ _ => False) t)
      (fun _ _ => False) m := by
  obtain ⟨target, _, directed⟩ := requestTarget_ready ready
  cases reply with
  | ok revision =>
      simp [handleReply, acknowledged, cache, rememberIncompleteSave, decision, savedAt, Ending.of,
        SyncStatus.verdict]
  | transport error =>
      simp only [handleReply, lostReply, wp_bind, wp_rescue, wp_fetchVisited directed]
      constructor
      · intro bytes revision answered
        subst answered
        exact wp_mono (reconcile_ending ready ⟨bytes, revision, false⟩) (fun _ _ ends => ends)
          fun _ _ impossible => impossible.elim
      · intro error answered
        subst answered
        simp [rememberIncompleteSave, decision, reportedRemote, syncUnread, keeping, Ending.of,
          SyncStatus.verdict, ConflictState.retained, replyReason, ready.base]
  | refused code conflict error =>
      simp only [handleReply, decision]
      cases named : replyReason (.refused code conflict error) with
      | none =>
          simp [rememberIncompleteSave, syncUnread, keeping, Ending.of, SyncStatus.verdict,
            ConflictState.retained, named, ready.base]
      | some reason =>
          simp only [conflicting, conflictRemote, wp_bind, wp_rescue,
            wp_fetchVisited directed, wp_pure]
          constructor
          · intro bytes revision answered
            subst answered
            exact settle_ending ready reason ⟨bytes, revision, false⟩
          · intro error answered
            subst answered
            by_cases gone : reason = .kind .deleted
            · simp only [reportedRemote, named, gone, if_true]
              exact settle_ending ready _ deletedRemote
            · simp [settle, snapshot, rememberIncompleteSave, reportedRemote, syncUnread, keeping,
                Ending.of, SyncStatus.verdict, ConflictState.retained, named, gone, ready.base]

end RelayConflict

theorem syncEnding_eq (ready : Ready id base m) :
    syncEnding codec m reply read =
      some (decision base (m.bytes codec) true m.modified
        (syncUnread base (m.bytes codec) m.modified reply) reply read) := by
  have total : wp (RelayConflict.save codec {} ⟨read, fun _ => reply, read⟩)
      (fun result t => Ending.of result.status.verdict t =
        decision base (m.bytes codec) true m.modified
          (syncUnread base (m.bytes codec) m.modified reply) reply read)
      (fun _ _ => False) m := by
    simp only [RelayConflict.save, wp_bind]
    have handled := RelayConflict.handleReply_ending codec ready reply read
    obtain ⟨target, _, directed⟩ := RelayConflict.requestTarget_ready ready
    unfold wp at handled ⊢
    rw [RelayConflict.saveInternal_ready ready directed]
    exact handled
  obtain ⟨result, t, runs, ends⟩ := runs_of_total total
  unfold syncEnding
  rw [runs]
  exact congrArg some ends

/-- The write of a save that started in `m`, while it is on the wire. -/
structure Sailing (id : Identity) (base : Base) (op : Operation) (m t : Machine) : Prop where
  live : t.live = true
  visiting : t.fileIdentity = some id
  base : t.base = some base
  modified : t.modified = true
  buffer : t.buffer = m.buffer
  state : t.state = none
  current : t.operationCurrent op = true
  queued : t.queued = none

/-- The operation on the wire, made of the whole text. -/
def sailing (codec : Codec) (id : Identity) (base : Base) (m : Machine) : Operation :=
  (saveOf id base (codec.encode m.buffer.full)).number (m.generation + 1)

/-- The ending on display, with the calls made so far. -/
def Ends (t : Machine) (ending : Ending) (calls : Nat) : Prop :=
  (t.status.bind Status.verdict).map (Ending.of · t) = some ending ∧ t.rpcs.length = calls

/-- The accessible portion is what the whole text is, as far as bytes go. -/
def showsAll (codec : Codec) (m : Machine) : Bool := m.bytes codec == codec.encode m.buffer.full

theorem Sailing.note {op : Operation} (sailed : Sailing id base op m t) (reports : List Report) :
    Sailing id base op m (t.note reports) :=
  ⟨sailed.live, sailed.visiting, sailed.base, sailed.modified, sailed.buffer, sailed.state,
    sailed.current, sailed.queued⟩

theorem Sailing.issue {op : Operation} (sailed : Sailing id base op m t) (rpc : Rpc) :
    Sailing id base op m (t.issue rpc) :=
  ⟨sailed.live, sailed.visiting, sailed.base, sailed.modified, sailed.buffer, sailed.state,
    sailed.current, sailed.queued⟩

theorem completeSuccess_ends (sailed : Sailing id base (sailing codec id base m) m t)
    (revision : Token) :
    wp (completeSuccess codec {} (sailing codec id base m) revision false)
      (fun _ t' => Ends t' (savedAt base (codec.encode m.buffer.full) (showsAll codec m) revision)
        t.rpcs.length)
      (fun _ _ => False) t := by
  have sameFile : t.liveIdentityEqual (sailing codec id base m).identity = true := by
    simp [Machine.liveIdentityEqual, sailing, saveOf, sailed.visiting]
  have bytes : t.bytes codec = m.bytes codec := by
    simp [Machine.bytes, sailed.buffer]
  simp only [completeSuccess, wp_bind, wp_fetch, wp_update, sameFile, bytes, sailed.queued]
  by_cases all : m.bytes codec = codec.encode m.buffer.full
  · have shown : showsAll codec m = true := by simp [showsAll, all]
    have seen : codec.encode m.buffer.visible = codec.encode m.buffer.full := all
    simp [finishOrdinary, confirmBytes, dispatchQueued, Ends, savedAt, shown, seen, sailing, saveOf,
      Machine.hooked, Machine.bytes, sailed.buffer, Status.verdict, Ending.of, codingOf]
  · have shown : showsAll codec m = false := by simp [showsAll, all]
    simp [finishOrdinary, confirmBytes, dispatchQueued, Ends, savedAt, shown, all, sailing, saveOf,
      Status.verdict, Ending.of, codingOf]

theorem finishSuccess_ends (sailed : Sailing id base (sailing codec id base m) m t)
    (revision : Token) :
    wp (finishSuccess codec {} (sailing codec id base m) revision false)
      (fun _ t' => Ends t' (savedAt base (codec.encode m.buffer.full) (showsAll codec m) revision)
        t.rpcs.length)
      (fun _ _ => False) t := by
  have cached : Sailing id base (sailing codec id base m) m
      (t.cachePut (sailing codec id base m).target (sailing codec id base m).bytes revision) :=
    ⟨sailed.live, sailed.visiting, sailed.base, sailed.modified, sailed.buffer, sailed.state,
      sailed.current, sailed.queued⟩
  simp only [finishSuccess, wp_bind, wp_fetch, wp_cacheIdentitySafely, wp_whenever,
    cached.live, cached.current, reduceCtorEq, false_implies, true_and, Bool.and_self, and_true,
    forall_const]
  exact completeSuccess_ends cached revision

/-- An unsuccessful save keeps BASE; what it retains is what it is given. -/
theorem finishNonsuccess_ends (sailed : Sailing id base (sailing codec id base m) m t)
    {status : Status} {verdict : FinalVerdict} (shown : status.verdict = some verdict)
    (unsaved : verdict ≠ .saved) (result : SaveResult) (conflict : Option ConflictState) :
    wp (finishNonsuccess (sailing codec id base m) status result conflict)
      (fun _ t' => Ends t' ⟨verdict, some base, true, conflict.map ConflictState.retained⟩
        t.rpcs.length)
      (fun _ _ => False) t := by
  simp only [finishNonsuccess, wp_bind, wp_fetch, wp_whenever, wp_update, sailed.live,
    sailed.current, Bool.and_self, forall_const, reduceCtorEq, false_implies, and_true]
  cases conflict with
  | none => simp [Ends, Ending.of, shown, sailed.base, sailed.state]
  | some conflict => simp [Ends, Ending.of, shown, unsaved, sailed.base]

theorem reconcileRead_ends (sailed : Sailing id base (sailing codec id base m) m t)
    (error : Option String) (read : ReadReply) :
    wp (reconcileRead codec {} (sailing codec id base m) error read)
      (fun _ t' => Ends t' (decision base (codec.encode m.buffer.full) (showsAll codec m) true
        (asyncUnread base) (.transport error) read) t.rpcs.length)
      (fun _ _ => False) t := by
  simp only [reconcileRead, wp_bind, wp_fetch, wp_whenever, sailed.live, sailed.current,
    Bool.or_true, forall_const, reduceCtorEq, false_implies, and_true]
  cases read with
  | failed error' => exact finishNonsuccess_ends sailed rfl (by simp) _ none
  | ok bytes revision =>
      have compared : RelayConflict.reconcileUncertain
          ((sailing codec id base m).base.bind (·.bytes)) (sailing codec id base m).bytes bytes
            revision =
          RelayConflict.reconcileUncertain base.bytes (some (codec.encode m.buffer.full)) bytes
            revision := rfl
      simp only [compared, decision, reportedRemote, decided]
      by_cases same : codec.encode m.buffer.full = bytes
      · simp only [RelayConflict.reconcileUncertain, same, if_true]
        exact same ▸ finishSuccess_ends sailed revision
      · have other : some (codec.encode m.buffer.full) ≠ some bytes := fun equal =>
          same (Option.some.inj equal)
        by_cases unchanged : base.bytes = some bytes
        · simp only [RelayConflict.reconcileUncertain, if_neg other, if_neg same, unchanged,
            and_self, if_true]
          exact finishNonsuccess_ends sailed rfl (by simp) _ _
        · simp only [RelayConflict.reconcileUncertain, if_neg other, if_neg same, unchanged,
            and_false, if_false]
          exact finishNonsuccess_ends sailed rfl (by simp) _ _

theorem settleConflict_ends (sailed : Sailing id base (sailing codec id base m) m t)
    (reason : Reason) (remote : Remote) :
    wp (settleConflict codec {} (sailing codec id base m) reason remote)
      (fun _ t' => Ends t'
        (decided base (codec.encode m.buffer.full) (showsAll codec m) true false remote)
        t.rpcs.length)
      (fun _ _ => False) t := by
  have classified : (snapshotConflict (sailing codec id base m) reason remote).classification =
      some (RelayConflict.classify base.bytes (some (codec.encode m.buffer.full)) remote.bytes
        (some remote.revision)) := rfl
  simp only [settleConflict, classified, decided]
  by_cases same : codec.encode m.buffer.full = remote.bytes
  · simp only [same, RelayConflict.classify_same, if_true]
    exact same ▸ finishSuccess_ends sailed remote.revision
  · simp only [if_neg same, Bool.false_eq_true, false_and, if_false]
    split
    · rename_i convergent
      have equal := (RelayConflict.classify_convergent (Option.some.inj convergent)).1
      exact absurd (Option.some.inj equal) same
    · exact finishNonsuccess_ends sailed rfl (by simp) _ _

theorem conflictRead_ends (sailed : Sailing id base (sailing codec id base m) m t)
    {reason : Reason} (named : RelayConflict.replyReason reply = some reason) (read : ReadReply) :
    wp (conflictRead codec {} (sailing codec id base m) reason read)
      (fun _ t' => Ends t' (decision base (codec.encode m.buffer.full) (showsAll codec m) true
        (asyncUnread base) reply read) t.rpcs.length)
      (fun _ _ => False) t := by
  cases reply with
  | ok revision => cases named
  | transport error => cases named
  | refused code conflict error =>
      simp only [conflictRead, wp_bind, wp_fetch, wp_whenever, sailed.live, sailed.current,
        Bool.or_true, forall_const, reduceCtorEq, false_implies, and_true, decision, named]
      cases read with
      | ok bytes revision => exact settleConflict_ends sailed reason ⟨bytes, revision, false⟩
      | failed error' =>
          by_cases gone : reason = .kind .deleted
          · simp only [reportedRemote, named, gone, if_true]
            exact settleConflict_ends sailed _ RelayConflict.deletedRemote
          · have unreported : reportedRemote (.refused code conflict error) (.failed error') =
                none := by simp [reportedRemote, named, gone]
            simp only [unreported, if_neg gone]
            exact finishNonsuccess_ends sailed rfl (by simp) _ none

/-- The call that carries the write. -/
def sailingCall (codec : Codec) (id : Identity) (base : Base) (m : Machine) : Rpc :=
  ⟨prepareWrite (some id) (some (codec.encode m.buffer.full)) (some base.revision) none,
    .writeDone (sailing codec id base m)⟩

/-- Its calls, and the reads that follow, are sent. -/
theorem sailing_sent (codec : Codec) (ready : Ready id base m) :
    (∃ request, sailingCall codec id base m =
      ⟨some request, .writeDone (sailing codec id base m)⟩) ∧
    ∃ request, prepareRead (sailing codec id base m).target = some request := by
  obtain ⟨target, directed, _⟩ := RelayConflict.requestTarget_ready ready
  constructor
  · refine ⟨.write target.authority target.path (codec.encode m.buffer.full) (some base.revision), ?_⟩
    simp [sailingCall, prepareWrite, directed]
  · refine ⟨.read target.authority target.path, ?_⟩
    simp [prepareRead, Operation.target, sailing, saveOf, directed]

theorem capture_ready (codec : Codec) (ready : Ready id base m) :
    capture codec {} none none m = (.ok (saveOf id base (codec.encode m.buffer.full)), m) := by
  simp [capture, preSave, ensureFinalNewline, captureOperation, runHook, mayFail, Machine.hooked,
    whenever, update, bind, Routine.fetch, pure, ready.visiting, ready.base, saveOf]

theorem save_sails (codec : Codec) (ready : Ready id base m) :
    Sailing id base (sailing codec id base m) m (step codec m (.save {})) ∧
    (step codec m (.save {})).rpcs = m.rpcs ++ [sailingCall codec id base m] := by
  have smooth : ({} : Env).Smooth := fun _ => rfl
  have captured := saveBufferAsync_after ready.visiting ready.calm (capture_ready codec ready)
    ready.captures
  have runs : step codec m (.save {}) =
      (((m.activate (sailing codec id base m)).setStatus .saving none).markModified).issueWrite
        (sailingCall codec id base m) := by
    simp only [step, if_pos ready.live, stepLive, captured]
    simp only [queueOrDispatch, after, bind, Routine.fetch, ready.active, Option.isSome_none,
      Bool.false_eq_true, if_false, dispatch_runs smooth]
    rfl
  rw [runs]
  refine ⟨⟨ready.live, ready.visiting, ready.base, rfl, rfl, ready.state, ?_, ready.queued⟩, rfl⟩
  simp [Machine.operationCurrent, sailing]

/-- The decision of the callbacks. -/
def asyncDecision (codec : Codec) (base : Base) (m : Machine) (reply : WriteReply)
    (read : ReadReply) : Ending :=
  decision base (codec.encode m.buffer.full) (showsAll codec m) true (asyncUnread base) reply read

/-- The save has ended, or waits for a read whose callback will end it. -/
def Answered (codec : Codec) (id : Identity) (base : Base) (m : Machine) (reply : WriteReply)
    (calls : Nat) (t : Machine) : Prop :=
  (∀ read, Ends t (asyncDecision codec base m reply read) calls) ∨
  ∃ request callback, t.rpcs[calls]? = some ⟨some request, callback⟩ ∧
    Sailing id base (sailing codec id base m) m t ∧
    ∀ read u, Sailing id base (sailing codec id base m) m u →
      wp (callbackBody codec {} callback (.inr read))
        (fun _ v => Ends v (asyncDecision codec base m reply read) u.rpcs.length)
        (fun _ _ => False) u

theorem writeDone_answered (ready : Ready id base m)
    (sailed : Sailing id base (sailing codec id base m) m t) (reply : WriteReply) :
    wp (writeDone codec {} (sailing codec id base m) reply)
      (fun _ u => Answered codec id base m reply t.rpcs.length u) (fun _ _ => False) t := by
  obtain ⟨request, sent⟩ := (sailing_sent codec ready).2
  have asks : ∀ callback,
      (∀ read u, Sailing id base (sailing codec id base m) m u →
        wp (callbackBody codec {} callback (.inr read))
          (fun _ v => Ends v (asyncDecision codec base m reply read) u.rpcs.length)
          (fun _ _ => False) u) →
      Answered codec id base m reply t.rpcs.length
        (t.issue ⟨prepareRead (sailing codec id base m).target, callback⟩) := by
    intro callback ends
    rw [sent]
    exact .inr ⟨request, callback, by simp, sailed.issue _, ends⟩
  simp only [writeDone, wp_bind, wp_fetch, wp_whenever, sailed.live, sailed.current,
    Bool.or_true, forall_const, reduceCtorEq, false_implies, and_true]
  cases reply with
  | ok revision =>
      exact wp_mono (finishSuccess_ends sailed revision) (fun _ _ ends => .inl fun _ => ends)
        fun _ _ impossible => impossible
  | transport error =>
      simp only [reconcileTransport, fetchAsync, wp_bind, wp_mayFail, wp_update, reduceCtorEq,
        false_implies, true_and, forall_const]
      exact asks _ fun read u sailed => reconcileRead_ends sailed error read
  | refused code conflict error =>
      cases named : RelayConflict.replyReason (.refused code conflict error) with
      | none =>
          have ending : ∀ read, asyncDecision codec base m (.refused code conflict error) read =
              asyncUnread base := fun read => by simp [asyncDecision, decision, named]
          exact wp_mono (finishNonsuccess_ends sailed rfl (by simp) _ none)
            (fun _ _ ends => .inl fun read => ending read ▸ ends) fun _ _ impossible => impossible
      | some reason =>
          simp only [Option.isSome_some, if_true, handleConflict, fetchAsync, wp_bind, wp_mayFail,
            wp_update, reduceCtorEq, false_implies, true_and, forall_const, named]
          exact asks _ fun read u sailed => conflictRead_ends sailed named read

/-- A reply to a call on the wire runs its callback. -/
theorem step_reply {index : Nat} {request : Request} {callback : Callback} {answer : AnyReply}
    (post : Machine → Prop) (found : t.rpcs[index]? = some ⟨some request, callback⟩)
    (body : ∀ reports, wp (callbackBody codec {} callback answer) (fun _ => post)
      (fun _ _ => False) (t.note reports)) : post (step codec t (.reply index answer {})) := by
  simp only [step, found, Rpc.accepts, Option.isSome_some, Bool.true_or, if_true]
  apply after_of_total
  simp only [runCallback, wp_rescue]
  exact wp_mono (body _) (fun _ _ holds => holds) fun _ _ impossible => impossible.elim

theorem step_reply_absent {index : Nat} {answer : AnyReply} {env : Env}
    (absent : t.rpcs[index]? = none) : step codec t (.reply index answer env) = t := by
  simp only [step, absent]

theorem asyncEnding_eq (codec : Codec) (ready : Ready id base m) (reply : WriteReply)
    (read : ReadReply) :
    asyncEnding codec m reply read = some (asyncDecision codec base m reply read) := by
  obtain ⟨sailed, calls⟩ := save_sails codec ready
  have onWire : (step codec m (.save {})).rpcs[m.rpcs.length]? =
      some (sailingCall codec id base m) := by simp [calls]
  have count : (step codec m (.save {})).rpcs.length = m.rpcs.length + 1 := by simp [calls]
  obtain ⟨request, wire⟩ := (sailing_sent codec ready).1
  have answered : Answered codec id base m reply (m.rpcs.length + 1)
      (step codec (step codec m (.save {})) (.reply m.rpcs.length (.inl reply) {})) :=
    step_reply _ (wire ▸ onWire) fun reports =>
      count ▸ writeDone_answered ready (sailed.note reports) reply
  unfold asyncEnding
  simp only [runAll, List.foldl_cons, List.foldl_nil]
  generalize step codec (step codec m (.save {})) (.reply m.rpcs.length (.inl reply) {}) = t
    at answered ⊢
  rcases answered with ended | ⟨request, callback, waiting, sailed, ends⟩
  · have past := ended read
    -- no read was asked for, so there is no such call to answer
    have absent := List.getElem?_eq_none (Nat.le_of_eq past.2)
    rw [step_reply_absent absent]
    exact past.1
  · have past : Ends (step codec t (.reply (m.rpcs.length + 1) (.inr read) {}))
        (asyncDecision codec base m reply read) t.rpcs.length :=
      step_reply (Ends · _ _) waiting fun reports => ends read _ (sailed.note reports)
    exact past.1

theorem unread_apart {localBytes : Bytes} {edited : Bool} :
    syncUnread base localBytes edited reply ≠ asyncUnread base := fun equal =>
  nomatch congrArg Ending.retained equal

/-- LOCAL of an ending: kept, or else recorded as BASE. -/
def Ending.about (ending : Ending) : Option Bytes :=
  match ending.retained with
  | some kept => kept.localBytes
  | none => ending.base.bind (·.bytes)

theorem decided_about (localBytes : Bytes) (clean edited lost : Bool) (remote : Remote) :
    (decided base localBytes clean edited lost remote).about = some localBytes := by
  unfold decided
  split
  · rfl
  · split <;> rfl

/-- Two decisions about one REMOTE agree when they are about one LOCAL; only an unconfirmed save
shows whether the text was marked. -/
theorem decided_agree_iff {waited whole : Bytes} {edited lost : Bool} {remote : Remote} :
    decided base waited true edited lost remote =
        decided base whole (waited == whole) true lost remote ↔
      waited = whole ∧ (edited = true ∨ remote.bytes = waited) := by
  by_cases equal : waited = whole
  · subst equal
    by_cases same : waited = remote.bytes
    · simp [decided, same]
    · by_cases unchanged : lost ∧ base.bytes = some remote.bytes
      · simp [decided, keeping, same, Ne.symm same, unchanged]
      · simp [decided, keeping, same, Ne.symm same, unchanged]
  · have apart : decided base waited true edited lost remote ≠
        decided base whole (waited == whole) true lost remote := by
      intro agree
      have about := congrArg Ending.about agree
      rw [decided_about, decided_about] at about
      exact equal (Option.some.inj about)
    simp [apart, equal]

/-- Waiting for the replies and running callbacks end alike exactly when nothing is hidden by
narrowing, REMOTE is known wherever the write was not acknowledged, and the text was marked
modified or is confirmed to be on the server. -/
theorem saves_agree_iff (codec : Codec) (ready : Ready id base m) (reply : WriteReply)
    (read : ReadReply) :
    syncEnding codec m reply read = asyncEnding codec m reply read ↔
      m.bytes codec = codec.encode m.buffer.full ∧ Settles reply read ∧
        (m.modified = true ∨ Confirms (m.bytes codec) reply read) := by
  rw [syncEnding_eq ready, asyncEnding_eq codec ready, Option.some.injEq]
  unfold asyncDecision showsAll
  cases reply with
  | ok revision =>
      simp only [decision, Settles, Confirms, or_true, and_true]
      constructor
      · intro equal
        simpa [savedAt] using congrArg Ending.base equal
      · intro equal
        simp [savedAt, equal]
  | transport error =>
      simp only [decision, Settles, Confirms]
      cases reported : reportedRemote (.transport error) read with
      | none => simp [unread_apart]
      | some remote => simpa using decided_agree_iff
  | refused code conflict error =>
      simp only [decision, Settles, Confirms]
      cases named : RelayConflict.replyReason (.refused code conflict error) with
      | none => simp [unread_apart]
      | some reason =>
          cases reported : reportedRemote (.refused code conflict error) read with
          | none => simp [unread_apart]
          | some remote => simpa using decided_agree_iff

/-- A visit to a file holding "a", edited to "ab". -/
def editedFile : Machine := runAll asciiCodec visitedFile [.edit (.whole ['a', 'b'])]

theorem editedFile_ready : Ready ⟨"/relay:h:/f", "h", "/f"⟩ ⟨some [97], sampleToken 1, .utf8⟩
    editedFile :=
  ⟨rfl, by decide, by decide, rfl, .inr (.inl rfl), rfl, rfl, rfl, by decide, by decide⟩

/-- A third version is read after a lost reply, and both paths end in the same conflict. -/
theorem saves_agree_third_version :
    syncEnding asciiCodec editedFile (.transport none) (.ok [122] (sampleToken 2)) =
      asyncEnding asciiCodec editedFile (.transport none) (.ok [122] (sampleToken 2)) :=
  (saves_agree_iff asciiCodec editedFile_ready _ _).mpr ⟨by decide, rfl, .inl rfl⟩

/-- The reply is lost and so is the read: only the waiting path keeps BASE and LOCAL. -/
theorem unread_save_keeps_nothing :
    ¬ ∀ (m : Machine) (id : Identity) (base : Base) (reply : WriteReply) (read : ReadReply),
      Ready id base m → syncEnding asciiCodec m reply read = asyncEnding asciiCodec m reply read := by
  intro agree
  have ends := agree editedFile _ _ (.transport none) (.failed none) editedFile_ready
  exact absurd ends (by decide)

end EmacsRelay

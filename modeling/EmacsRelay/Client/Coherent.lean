import EmacsRelay.Client.HeldRun

set_option autoImplicit false

/- A conflict on display can be resolved: its snapshot has BASE, LOCAL and REMOTE. Every step of
the asynchronous machine keeps it so. -/
namespace EmacsRelay

open Routine Editor RelaySave

/-- A BASE that is there has bytes. -/
def Whole (base : Option Base) : Prop := ∀ b, base = some b → b.bytes.isSome = true

theorem whole_of_bytes {base : Option Base} (bytes : (base.bind (·.bytes)).isSome = true) :
    Whole base := by
  rintro b rfl
  exact bytes

/-- A still-unresolved conflict snapshot for which every choice of the menu can be carried out. -/
structure ConflictState.Complete (st : ConflictState) : Prop where
  unresolved : st.status = none
  base : (st.base.bind (·.bytes)).isSome = true
  localBytes : st.localBytes.isSome = true
  remote : st.remote.isSome = true

/-- The part of a snapshot that a refused merge hands on. -/
structure ConflictState.Mergeable (st : ConflictState) : Prop where
  base : (st.base.bind (·.bytes)).isSome = true
  remote : st.remote.isSome = true

theorem ConflictState.Complete.mergeable {st : ConflictState} (complete : st.Complete) :
    st.Mergeable :=
  ⟨complete.base, complete.remote⟩

/-- What an operation needs so that a conflict it meets is complete. -/
structure Operation.Complete (op : Operation) : Prop where
  bytes : op.bytes.isSome = true
  base : (op.base.bind (·.bytes)).isSome = true
  snapshot : ∀ st, op.snapshot = some st → st.Mergeable
  merge : op.mergeBuffer.isSome = true → op.snapshot.isSome = true

/-- The operation of an inspection is made of the state retained before it. -/
structure Operation.Inspects (op : Operation) (state : Option ConflictState) : Prop where
  plain : op.mergeBuffer = none
  snapshot : op.snapshot = none
  bytes : op.bytes = state.bind (·.localBytes)
  base : op.base = state.bind (·.base)
  whole : ∀ st, state = some st → Whole st.base

/-- A callback's operation is complete, but for an inspection's. -/
def Callback.Fit : Callback → Prop
  | .inspected op state => op.Inspects state
  | .writeDone op => op.Complete
  | .reconcileRead op _ => op.Complete
  | .conflictRead op _ => op.Complete
  | .mergeVerified op => op.Complete ∧ op.mergeBuffer.isSome = true
  | .mergeWriteDone op => op.Complete ∧ op.mergeBuffer.isSome = true
  | .mergeLossRead op => op.Complete ∧ op.mergeBuffer.isSome = true
  | .mergeConflictRead op _ => op.Complete ∧ op.mergeBuffer.isSome = true

/-- The conflict state is on display, or will be when the Save As in flight succeeds. -/
def Core.Shows (c : Core) : Prop :=
  c.status = some .conflict ∨ ∃ op, c.active = some op ∧ op.choice = some .saveAs

/-- Status and conflict state fit together. -/
structure Coherent (c : Core) : Prop where
  based : (c.base.bind (·.bytes)).isSome = true
  state : ∀ st, c.state = some st → Whole st.base
  merges : ∀ buffer ∈ c.merges, ∀ st, buffer.snapshot = some st → st.Mergeable
  queued : ∀ op, c.queued = some op → op.Complete ∧ op.Ordinary
  rpcs : ∀ rpc ∈ c.rpcs, rpc.callback.Fit
  saving : c.active.isSome = true → c.status = some .saving
  shown : c.Shows → ∃ st, c.state = some st ∧ st.Complete

/-- `body` keeps status and state together, whether it returns or signals. -/
abbrev Keeps {α : Type} (body : Lisp α) (m : Machine) : Prop :=
  wp body (fun _ t => Coherent t.core) (fun _ t => Coherent t.core) m

variable {codec : Codec} {env : Env} {m t : Machine} {op : Operation}

theorem Coherent.congr (coherent : Coherent m.core) (core : t.core = m.core) : Coherent t.core :=
  core ▸ coherent

section Updates

/-- An operation ends with a status; only a complete snapshot is shown as a conflict. -/
theorem Coherent.settle (coherent : Coherent m.core) {state : Option ConflictState}
    {status : Status} (result : Option SaveResult)
    (whole : ∀ st, state = some st → Whole st.base)
    (shown : status = .conflict → ∃ st, state = some st ∧ st.Complete) :
    Coherent ((m.clearOperations.setState state).setStatus status result).core :=
  { coherent with
    state := whole
    queued := fun _ none => nomatch none
    saving := fun some => nomatch some
    shown := by
      rintro (conflict | ⟨_, none, _⟩)
      · exact shown (Option.some.inj conflict)
      · cases none }

theorem Coherent.setStatus (coherent : Coherent m.core) (idle : m.active = none) {status : Status}
    (result : Option SaveResult) (shown : status ≠ .conflict) :
    Coherent (m.setStatus status result).core :=
  { coherent with
    saving := by
      intro active
      have none : m.core.active = none := idle
      rw [show (m.setStatus status result).core.active = m.core.active from rfl, none] at active
      cases active
    shown := by
      rintro (conflict | ⟨_, active, _⟩)
      · exact absurd (Option.some.inj conflict) shown
      · rw [show (m.setStatus status result).core.active = m.active from rfl, idle] at active
        cases active }

theorem Coherent.clearOperations (coherent : Coherent m.core)
    (shown : m.status ≠ some .conflict) : Coherent m.clearOperations.core :=
  { coherent with
    queued := fun _ none => nomatch none
    saving := fun some => nomatch some
    shown := by
      rintro (conflict | ⟨_, none, _⟩)
      · exact absurd conflict shown
      · cases none }

/-- A BASE is recorded and the conflict forgotten, with nothing on display. -/
theorem Coherent.adopt (coherent : Coherent m.core) (idle : m.active = none)
    (shown : m.status ≠ some .conflict) {bytes : Option Bytes} (there : bytes.isSome = true)
    (revision : Token) (coding : Coding) :
    Coherent ((m.recordBase bytes revision coding).setState none).core :=
  { coherent with
    based := there
    state := fun _ none => nomatch none
    shown := by
      rintro (conflict | ⟨_, active, _⟩)
      · exact absurd conflict shown
      · have none : m.active = some _ := active
        rw [idle] at none
        cases none }

/-- The conflict ends with another BASE. -/
theorem Coherent.close (coherent : Coherent m.core) (idle : m.active = none) (bytes : Bytes)
    (revision : Token) (owner : Option Identity) {result : Option SaveResult} :
    Coherent (((m.recordBase (some bytes) revision .utf8).setState none).markClean owner |>.setStatus
      .saved result).core :=
  { coherent with
    based := rfl
    state := fun _ none => nomatch none
    saving := by
      intro active
      have some : m.active.isSome = true := active
      rw [idle] at some
      cases some
    shown := by
      rintro (conflict | ⟨_, active, _⟩)
      · cases conflict
      · have some : m.active = some _ := active
        rw [idle] at some
        cases some }

theorem Coherent.cachePut (coherent : Coherent m.core) (identity : Option Identity)
    (bytes : Option Bytes) (revision : Token) :
    Coherent (m.cachePut identity bytes revision).core :=
  { coherent with }

theorem Coherent.issue (coherent : Coherent m.core) {rpc : Rpc} (fit : rpc.callback.Fit) :
    Coherent (m.issue rpc).core :=
  { coherent with
    rpcs := by
      intro other member
      rcases List.mem_append.mp member with old | fresh
      · exact coherent.rpcs other old
      · rw [List.mem_singleton.mp fresh]
        exact fit }

theorem Coherent.setQueued (coherent : Coherent m.core) {queued : Option Operation}
    (ok : ∀ op, queued = some op → op.Complete ∧ op.Ordinary) :
    Coherent (m.setQueued queued).core :=
  { coherent with queued := ok }

/-- An operation becomes active; a Save As only while a complete conflict is retained. -/
theorem Coherent.activate (coherent : Coherent m.core)
    (kept : op.choice = some .saveAs → ∃ st, m.state = some st ∧ st.Complete) :
    Coherent ((m.activate op).setStatus .saving none).core :=
  { coherent with
    saving := fun _ => rfl
    shown := by
      rintro (conflict | ⟨_, ⟨⟩, saveAs⟩)
      · cases conflict
      · exact kept saveAs }

theorem Coherent.setMerges (coherent : Coherent m.core) {merges : List MergeBuffer}
    (from_old : ∀ buffer ∈ merges, ∃ old ∈ m.merges, old.snapshot = buffer.snapshot) :
    Coherent (m.setMerges merges).core :=
  { coherent with
    merges := by
      intro buffer member st snapshot
      obtain ⟨old, there, same⟩ := from_old buffer member
      exact coherent.merges old there st (same.trans snapshot) }

end Updates

theorem finishNonsuccess_coherent (coherent : Coherent m.core) (status : Status)
    (result : SaveResult) (conflict : Option ConflictState)
    (whole : ∀ st, conflict = some st → Whole st.base)
    (shown : (m.live && m.operationCurrent op) = true → status = .conflict →
      ∃ st, conflict = some st ∧ st.Complete) :
    Keeps (finishNonsuccess op status result conflict) m := by
  simp only [finishNonsuccess, wp_bind, wp_fetch, wp_whenever, wp_update]
  refine ⟨fun current => ⟨fun _ => ?_, fun absent => ?_⟩, fun _ => coherent⟩
  · exact coherent.settle (some result) whole (shown current)
  · have none : conflict = none := by simpa using absent
    have kept : Coherent ((m.clearOperations.setState m.state).setStatus status
        (some result)).core := by
      apply coherent.settle (some result) coherent.state
      intro conflicted
      obtain ⟨st, some, _⟩ := shown current conflicted
      rw [none] at some
      cases some
    exact kept

/-- A conflict met by a complete operation is complete. -/
theorem snapshotConflict_complete (complete : op.Complete) (reason : Reason) (remote : Remote) :
    (snapshotConflict op reason remote).Complete where
  unresolved := rfl
  base := by
    cases snapshot : op.snapshot with
    | none => simpa [snapshotConflict, snapshot] using complete.base
    | some st =>
        have its := (complete.snapshot st snapshot).base
        obtain ⟨b, there⟩ : ∃ b, st.base = some b := by
          cases base : st.base with
          | none => rw [base] at its; cases its
          | some b => exact ⟨b, rfl⟩
        simpa [snapshotConflict, snapshot, there] using its
  localBytes := by
    cases its : op.snapshot.bind (·.localBytes) with
    | none => simpa [snapshotConflict, its] using complete.bytes
    | some bytes => simp [snapshotConflict, its]
  remote := rfl

/-- The state of a refused merge has BASE and REMOTE of the merged snapshot and the live text. -/
theorem conflictMergeRefusal_coherent (coherent : Coherent m.core) (complete : op.Complete)
    (merge : op.mergeBuffer.isSome = true) (reason : Reason) (remote : Option Remote)
    (status : MergeStatus) :
    wp (conflictMergeRefusal codec env op reason remote)
      (fun result t => Coherent (((t.clearOperations).markModified).setStatus status.status
        (some result)).core)
      (fun _ t => Coherent t.core) m := by
  obtain ⟨bytes, captured⟩ := Option.isSome_iff_exists.mp complete.bytes
  obtain ⟨prior, snapshot⟩ := Option.isSome_iff_exists.mp (complete.merge merge)
  have mergeable := complete.snapshot prior snapshot
  simp only [conflictMergeRefusal, captured, snapshot, wp_bind, wp_recoveryBuffer, wp_fetch,
    wp_update, wp_pure, Option.bind_some]
  refine ⟨fun _ => coherent, fun _ => ?_⟩
  have recovered : Coherent (m.addRecovery (codec.decode bytes)).core := coherent.congr rfl
  refine recovered.settle none ?_ fun _ => ⟨_, rfl, rfl, mergeable.base, rfl, ?_⟩
  · rintro st ⟨⟩
    exact whole_of_bytes mergeable.base
  · cases remote with
    | none => exact mergeable.remote
    | some r => rfl

theorem mergeRefusal_coherent (coherent : Coherent m.core) (complete : op.Complete)
    (merge : op.mergeBuffer.isSome = true) (status : MergeStatus) (reason : Reason)
    (remote : Option Remote) :
    Keeps (mergeRefusal codec env op status reason remote) m := by
  simp only [mergeRefusal, wp_bind, wp_fetch, wp_whenever, wp_update]
  refine ⟨fun _ => ?_, fun _ => coherent.setMerges (touchMerge_old _ _)⟩
  refine wp_mono (conflictMergeRefusal_coherent coherent complete merge reason remote status) ?_
    fun _ _ kept => kept
  intro result t kept
  exact kept.setMerges (touchMerge_old _ _)

theorem callbackError_coherent (coherent : Coherent m.core) (whole : Whole op.base)
    (merging : op.mergeBuffer.isSome = true → op.Complete) (error : LispError) :
    Keeps (callbackError codec env op error) m := by
  unfold callbackError
  split
  · rename_i merge
    exact mergeRefusal_coherent coherent (merging merge) merge _ _ _
  · apply finishNonsuccess_coherent coherent
    · rintro st ⟨⟩
      exact whole
    · intro _ unknown
      cases unknown

theorem Operation.Complete.error (complete : op.Complete) (coherent : Coherent m.core)
    (error : LispError) : Keeps (callbackError codec env op error) m :=
  callbackError_coherent coherent (whole_of_bytes complete.base) (fun _ => complete) error

theorem fetchAsync_coherent (coherent : Coherent m.core) {identity : Option Identity}
    {callback : Callback} (fit : callback.Fit) :
    Keeps (fetchAsync env identity callback) m := by
  simp only [fetchAsync, wp_bind, wp_mayFail, wp_update]
  exact ⟨fun _ => coherent, fun _ => coherent.issue fit⟩

theorem writeSnapshotAsync_coherent (coherent : Coherent m.core) {identity : Option Identity}
    {bytes : Option Bytes} {expected : Option Token} {callback : Callback}
    {saveAs : Option String} (fit : callback.Fit) :
    Keeps (writeSnapshotAsync env identity bytes expected callback saveAs) m := by
  simp only [writeSnapshotAsync, wp_bind, wp_mayFail, wp_update]
  exact ⟨fun _ => coherent, fun _ => coherent.issue fit⟩

theorem Operation.Complete.number (complete : op.Complete) (generation : Nat) :
    (op.number generation).Complete :=
  ⟨complete.bytes, complete.base, complete.snapshot, complete.merge⟩

theorem dispatch_coherent (coherent : Coherent m.core) (complete : op.Complete)
    (kept : op.choice = some .saveAs → ∃ st, m.state = some st ∧ st.Complete) :
    Keeps (dispatch codec env op) m := by
  simp only [dispatch, wp_bind, wp_fetch, wp_update, wp_rescue]
  have numbered := complete.number (m.generation + 1)
  have activated : Coherent
      ((m.activate (op.number (m.generation + 1))).setStatus .saving none).markModified.core :=
    coherent.activate kept
  have fit : (Callback.writeDone (op.number (m.generation + 1))).Fit := numbered
  apply wp_mono (writeSnapshotAsync_coherent activated fit) (fun _ _ done => done)
  intro error t failed
  exact numbered.error failed error

theorem queueOrDispatch_coherent (coherent : Coherent m.core) (complete : op.Complete)
    (ordinary : op.Ordinary) : Keeps (queueOrDispatch codec env op) m := by
  simp only [queueOrDispatch, wp_bind, wp_fetch, wp_ite, wp_update, wp_pure]
  refine ⟨fun _ => ⟨fun _ => ?_, fun _ => ⟨fun _ => coherent, fun _ => ?_⟩⟩, fun _ => ?_⟩
  · exact coherent.setQueued (by simp)
  · apply coherent.setQueued
    rintro _ ⟨⟩
    exact ⟨complete, ordinary⟩
  · exact dispatch_coherent coherent complete (by simp [ordinary.choice])

section Success

variable (bytes : op.bytes.isSome = true)

include bytes

theorem dispatchQueued_coherent (coherent : Coherent m.core) (idle : m.active = none)
    (revision : Token) (statusExtra sameBytes : Bool) {queued : Option Operation}
    (next : ∀ q, queued = some q → q.Complete ∧ q.Ordinary) :
    Keeps (dispatchQueued codec env op revision statusExtra sameBytes queued) m := by
  cases queued with
  | none =>
      apply coherent.setStatus idle
      split <;> simp
  | some q =>
      obtain ⟨complete, ordinary⟩ := next q rfl
      simp only [dispatchQueued, wp_bind, wp_update]
      have rebased : (q.rebase ⟨op.bytes, revision, codingOf op.base⟩).Complete :=
        ⟨complete.bytes, bytes, complete.snapshot, complete.merge⟩
      exact dispatch_coherent (coherent.congr rfl) rebased (by simp [ordinary.choice])

theorem finishOrdinary_coherent (coherent : Coherent m.core) (idle : m.active = none)
    (shown : m.status ≠ some .conflict) (revision : Token) (statusExtra sameFile : Bool)
    (sameBytes : Bool) {queued : Option Operation}
    (next : ∀ q, queued = some q → q.Complete ∧ q.Ordinary) :
    Keeps (finishOrdinary codec env op revision statusExtra sameFile sameBytes queued) m := by
  have chosen : ∀ q, (queued.filter fun next =>
      sameFile && identityEqual op.identity next.identity) = some q →
      q.Complete ∧ q.Ordinary :=
    fun q found => next q (Option.eq_some_of_filter_eq_some found)
  have continues : ∀ t, Coherent t.core → t.active = none →
      wp (confirmBytes codec env op sameBytes)
        (fun sameBytes => wp (dispatchQueued codec env op revision statusExtra sameBytes
          (queued.filter fun next => sameFile && identityEqual op.identity next.identity))
          (fun _ u => Coherent u.core) (fun _ u => Coherent u.core))
        (fun _ u => Coherent u.core) t := by
    intro t here none
    apply wp_mono (confirmBytes_core sameBytes) ?_ fun _ _ => False.elim
    intro sameBytes u core
    exact dispatchQueued_coherent bytes (here.congr core)
      ((congrArg Core.active core).trans none) revision statusExtra sameBytes chosen
  simp only [finishOrdinary, wp_bind, wp_whenever, wp_update]
  refine ⟨fun _ => continues _ ?_ idle, fun _ => continues m coherent idle⟩
  exact coherent.adopt idle shown bytes revision _

theorem finishRestoreBase_coherent (coherent : Coherent m.core) (idle : m.active = none)
    (shown : m.status ≠ some .conflict) (revision : Token) :
    Keeps (finishRestoreBase codec env op revision) m := by
  simp only [finishRestoreBase, wp_bind, wp_update, wp_runAfterSaveHook, wp_fetch]
  apply wp_mono (eraseAndInsert_core _ _ _) ?_ fun _ u core => coherent.congr core
  intro _ t core
  have here : Coherent t.core := coherent.congr core
  have none : t.active = none := (congrArg Core.active core).trans idle
  have quiet : t.status ≠ some .conflict := by
    rw [show t.status = m.status from congrArg Core.status core]
    exact shown
  have adopted := here.adopt none quiet bytes revision (codingOf op.base)
  have hooked : Coherent ((((t.recordBase op.bytes revision (codingOf op.base)).setState
      Option.none).markClean op.identity).hooked env.afterSave).core :=
    Coherent.congr adopted (core_hooked _ _)
  refine hooked.setStatus ?_ _ ?_
  · exact (congrArg Core.active (core_hooked _ _)).trans none
  · split <;> simp

theorem completeSuccess_coherent (coherent : Coherent m.core) (active : m.active = some op)
    (revision : Token) (statusExtra : Bool) :
    Keeps (completeSuccess codec env op revision statusExtra) m := by
  have saving : m.status = some .saving := coherent.saving (by
    rw [show m.core.active = some op from active]
    rfl)
  have quiet : m.clearOperations.status ≠ some .conflict := by
    rw [show m.clearOperations.status = some .saving from saving]
    simp
  have cleared : Coherent m.clearOperations.core := coherent.clearOperations quiet
  simp only [completeSuccess, wp_bind, wp_fetch, wp_update, wp_ite]
  refine ⟨fun saveAs => ?_, fun _ => ⟨fun _ => ?_, fun _ => ?_⟩⟩
  · -- the conflict stays on display, and its state was kept while the Save As was in flight
    have kept : Coherent ((m.clearOperations.setState m.state).setStatus .conflict
        (some (.savedAs revision m.state))).core :=
      coherent.settle _ coherent.state fun _ => coherent.shown (.inr ⟨op, active, saveAs⟩)
    exact kept
  · exact finishRestoreBase_coherent bytes cleared rfl quiet revision
  · exact finishOrdinary_coherent bytes cleared rfl quiet revision _ _ _ coherent.queued

theorem finishSuccess_coherent (coherent : Coherent m.core) (revision : Token)
    (statusExtra : Bool) : Keeps (finishSuccess codec env op revision statusExtra) m := by
  have continues : ∀ t : Machine, Coherent t.core →
      ((t.live && t.operationCurrent op) = true →
        Keeps (completeSuccess codec env op revision statusExtra) t) ∧
      ((t.live && t.operationCurrent op) = false → Coherent t.core) := by
    intro t here
    refine ⟨fun current => ?_, fun _ => here⟩
    exact completeSuccess_coherent bytes here (current_active current) revision statusExtra
  simp only [finishSuccess, wp_bind, wp_cacheIdentitySafely, wp_fetch, wp_whenever]
  refine ⟨fun _ => continues m coherent, fun _ => continues _ ?_⟩
  exact { coherent with }

end Success

section Replies

theorem reconcileRead_coherent (coherent : Coherent m.core) (complete : op.Complete)
    (failure : Option String) (reply : ReadReply) :
    Keeps (reconcileRead codec env op failure reply) m := by
  simp only [reconcileRead, wp_bind, wp_fetch, wp_whenever]
  refine ⟨fun _ => ?_, fun _ => coherent⟩
  cases reply with
  | failed error => exact finishNonsuccess_coherent coherent _ _ _ (by simp) (by simp)
  | ok bytes revision =>
      dsimp only
      split
      · exact finishSuccess_coherent complete.bytes coherent revision false
      · apply finishNonsuccess_coherent coherent
        · rintro st ⟨⟩
          exact whole_of_bytes complete.base
        · intro _ unknown
          cases unknown
      · have conflict := snapshotConflict_complete complete (.kind .changed) ⟨bytes, revision, false⟩
        apply finishNonsuccess_coherent coherent
        · rintro st ⟨⟩
          exact whole_of_bytes conflict.base
        · exact fun _ _ => ⟨_, rfl, conflict⟩

theorem settleConflict_coherent (coherent : Coherent m.core) (complete : op.Complete)
    (reason : Reason) (remote : Remote) :
    Keeps (settleConflict codec env op reason remote) m := by
  have conflict := snapshotConflict_complete complete reason remote
  dsimp only [settleConflict]
  split
  · exact finishSuccess_coherent complete.bytes coherent remote.revision false
  · apply finishNonsuccess_coherent coherent
    · rintro st ⟨⟩
      exact whole_of_bytes conflict.base
    · exact fun _ _ => ⟨_, rfl, conflict⟩

theorem conflictRead_coherent (coherent : Coherent m.core) (complete : op.Complete)
    (reason : Reason) (reply : ReadReply) :
    Keeps (conflictRead codec env op reason reply) m := by
  simp only [conflictRead, wp_bind, wp_fetch, wp_whenever]
  refine ⟨fun _ => ?_, fun _ => coherent⟩
  cases reply with
  | ok bytes revision => exact settleConflict_coherent coherent complete reason _
  | failed error =>
      simp only [wp_ite]
      refine ⟨fun _ => settleConflict_coherent coherent complete reason _, fun _ => ?_⟩
      exact finishNonsuccess_coherent coherent _ _ _ (by simp) (by simp)

theorem writeDone_coherent (coherent : Coherent m.core) (complete : op.Complete)
    (reply : WriteReply) : Keeps (writeDone codec env op reply) m := by
  simp only [writeDone, wp_bind, wp_fetch, wp_whenever]
  refine ⟨fun _ => ?_, fun _ => coherent⟩
  cases reply with
  | ok revision => exact finishSuccess_coherent complete.bytes coherent revision _
  | transport error =>
      have fit : (Callback.reconcileRead op error).Fit := complete
      exact fetchAsync_coherent coherent fit
  | refused code conflict error =>
      simp only [wp_ite]
      refine ⟨fun _ => ?_, fun _ => ?_⟩
      · apply fetchAsync_coherent coherent
        exact complete
      · exact finishNonsuccess_coherent coherent _ _ _ (by simp) (by simp)

/-- Verdict of an inspection: the read is compared with LOCAL and BASE of the retained state. -/
def inspectionVerdict (state : Option ConflictState) (bytes : Bytes) (revision : Token) : Verdict :=
  (RelayConflict.reconcileUncertain ((state.bind (·.base)).bind (·.bytes))
    (state.bind (·.localBytes)) bytes revision).status

/-- A state from which an inspection can make a complete conflict. -/
def Inspectable (state : Option ConflictState) : Prop :=
  (state.bind (·.base)).isSome = true ∧ (state.bind (·.localBytes)).isSome = true

theorem Operation.Inspects.complete {state : Option ConflictState} (inspects : op.Inspects state)
    (whole : Inspectable state) : op.Complete where
  bytes := by
    rw [inspects.bytes]
    exact whole.2
  base := by
    rw [inspects.base]
    obtain ⟨b, base⟩ := Option.isSome_iff_exists.mp whole.1
    obtain ⟨st, there, its⟩ := Option.bind_eq_some_iff.mp base
    rw [base]
    exact inspects.whole st there b its
  snapshot := by simp [inspects.snapshot]
  merge := by simp [inspects.plain]

theorem inspected_coherent (coherent : Coherent m.core) {state : Option ConflictState}
    (inspects : op.Inspects state) {reply : ReadReply}
    (sound : ∀ bytes revision, reply = .ok bytes revision →
      (m.live && m.operationCurrent op) = true →
      inspectionVerdict state bytes revision = .conflict → Inspectable state) :
    Keeps (inspected codec env op state reply) m := by
  cases reply with
  | failed error => exact finishNonsuccess_coherent coherent _ _ _ inspects.whole (by simp)
  | ok bytes revision =>
      dsimp only [inspected]
      split
      · rename_i saved
        have same := RelayConflict.reconcileUncertain_saved saved
        apply finishSuccess_coherent _ coherent
        rw [inspects.bytes, same]
        rfl
      · apply finishNonsuccess_coherent coherent
        · rintro st ⟨⟩
          cases retained : state with
          | none => exact fun b none => nomatch none
          | some st => exact inspects.whole st retained
        · intro _ unknown
          cases unknown
      · rename_i conflict
        apply finishNonsuccess_coherent coherent
        · rintro st ⟨⟩
          intro b base
          rw [snapshotConflict, inspects.snapshot] at base
          have its : state.bind (·.base) = some b := inspects.base ▸ base
          obtain ⟨st, there, same⟩ := Option.bind_eq_some_iff.mp its
          exact inspects.whole st there b same
        · intro current _
          have whole := sound bytes revision rfl current conflict
          exact ⟨_, rfl, snapshotConflict_complete (inspects.complete whole) _ _⟩

end Replies

section Merge

theorem installMerge_coherent (coherent : Coherent m.core) (idle : m.active = none)
    (revision : Token) : Keeps (installMerge codec env op revision) m := by
  simp only [installMerge, wp_bind, wp_update, wp_runAfterSaveHook, wp_fetch, wp_whenever]
  apply wp_mono (eraseAndInsert_core _ _ _) ?_ fun _ t core => coherent.congr core
  intro _ t core
  have hooked : ((t.markClean op.identity).hooked env.afterSave).core = m.core := by
    rw [core_hooked, core_markClean, core]
  have here : Coherent ((t.markClean op.identity).hooked env.afterSave).core :=
    coherent.congr hooked
  have none : ((t.markClean op.identity).hooked env.afterSave).active = none :=
    (congrArg Core.active hooked).trans idle
  refine ⟨fun _ => ?_, fun _ => ?_⟩
  · have marked : Coherent ((t.markClean op.identity).hooked env.afterSave).markModified.core :=
      here.congr rfl
    apply marked.setStatus none
    split <;> simp
  · apply here.setStatus none
    split <;> simp

theorem finishMerge_coherent (coherent : Coherent m.core) (bytes : op.bytes.isSome = true)
    (shown : m.status ≠ some .conflict) (revision : Token) (sameFile installable : Bool) :
    Keeps (finishMerge codec env op revision sameFile installable) m := by
  have cleared : Coherent m.clearOperations.core := coherent.clearOperations shown
  have ends : ∀ t : Machine, Coherent t.core → t.active = none →
      (installable = true → Keeps (installMerge codec env op revision) t) ∧
      (¬ installable = true → Coherent
        (t.markModified.setStatus .savedNewer (some (.saved revision true))).core) := by
    intro t here idle
    refine ⟨fun _ => installMerge_coherent here idle revision, fun _ => ?_⟩
    have marked : Coherent t.markModified.core := here.congr rfl
    exact marked.setStatus idle _ (by simp)
  simp only [finishMerge, wp_bind, wp_update, wp_whenever, wp_ite]
  refine ⟨fun _ => ends _ ?_ rfl, fun _ => ends _ cleared rfl⟩
  exact cleared.adopt rfl shown bytes revision .utf8

variable (complete : op.Complete)

include complete

theorem mergeSuccess_coherent (coherent : Coherent m.core) (revision : Token) :
    Keeps (mergeSuccess codec env op revision) m := by
  have continues : ∀ t : Machine, Coherent t.core →
      ((t.live && t.operationCurrent op) = true →
        wp (finishMerge codec env op revision (t.liveIdentityEqual op.identity)
          (t.liveIdentityEqual op.identity &&
            some (t.bytes codec) == op.snapshot.bind (·.localBytes)))
          (fun _ u => Coherent (u.setMerges (closeMerge op.mergeBuffer u.merges)).core)
          (fun _ u => Coherent u.core) t) ∧
      ((t.live && t.operationCurrent op) = false →
        Coherent (t.setMerges (closeMerge op.mergeBuffer t.merges)).core) := by
    intro t here
    refine ⟨fun current => ?_, fun _ => here.setMerges (closeMerge_old _ _)⟩
    have active : t.active = some op := current_active current
    have saving : t.status = some .saving := here.saving (by
      rw [show t.core.active = some op from active]
      rfl)
    apply wp_mono (finishMerge_coherent here complete.bytes (by simp [saving]) revision _ _) ?_
      fun _ _ failed => failed
    exact fun _ u done => done.setMerges (closeMerge_old _ _)
  simp only [mergeSuccess, wp_bind, wp_cacheIdentitySafely, wp_fetch, wp_whenever, wp_update]
  refine ⟨fun _ => continues m coherent, fun _ => continues _ ?_⟩
  exact { coherent with }

variable (coherent : Coherent m.core) (merge : op.mergeBuffer.isSome = true)

include coherent merge

theorem mergeLossRead_coherent (reply : ReadReply) :
    Keeps (mergeLossRead codec env op reply) m := by
  cases reply with
  | failed error => exact mergeRefusal_coherent coherent complete merge _ _ _
  | ok bytes revision =>
      simp only [mergeLossRead, wp_ite]
      refine ⟨fun _ => mergeSuccess_coherent complete coherent revision, fun _ => ?_⟩
      exact mergeRefusal_coherent coherent complete merge _ _ _

theorem mergeWriteDone_coherent (reply : WriteReply) :
    Keeps (mergeWriteDone codec env op reply) m := by
  cases reply with
  | ok revision => exact mergeSuccess_coherent complete coherent revision
  | transport error =>
      have fit : (Callback.mergeLossRead op).Fit := ⟨complete, merge⟩
      exact fetchAsync_coherent coherent fit
  | refused code conflict error =>
      dsimp only [mergeWriteDone]
      split
      · rename_i reason _
        have fit : (Callback.mergeConflictRead op reason).Fit := ⟨complete, merge⟩
        exact fetchAsync_coherent coherent fit
      · exact mergeRefusal_coherent coherent complete merge _ _ _

theorem mergeVerified_coherent (reply : ReadReply) :
    Keeps (mergeVerified codec env op reply) m := by
  simp only [mergeVerified, wp_bind, wp_fetch, wp_ite]
  refine ⟨fun _ => mergeRefusal_coherent coherent complete merge _ _ _, fun _ => ?_⟩
  cases reply with
  | failed error => exact mergeRefusal_coherent coherent complete merge _ _ _
  | ok bytes revision =>
      simp only [wp_ite]
      refine ⟨fun _ => mergeRefusal_coherent coherent complete merge _ _ _, fun _ => ?_⟩
      have fit : (Callback.mergeWriteDone op).Fit := ⟨complete, merge⟩
      exact writeSnapshotAsync_coherent coherent fit

end Merge

/-- Which reply would turn an inspection of a state without BASE or LOCAL into a conflict. -/
def Callback.Hollow (m : Machine) : Callback → AnyReply → Prop
  | .inspected op state, .inr (.ok bytes revision) =>
      (m.live && m.operationCurrent op) = true ∧ ¬ Inspectable state ∧
        inspectionVerdict state bytes revision = .conflict
  | _, _ => False

theorem callbackBody_coherent (coherent : Coherent m.core) {callback : Callback}
    (fit : callback.Fit) {reply : AnyReply} (sound : ¬ callback.Hollow m reply) :
    Keeps (callbackBody codec env callback reply) m := by
  cases callback with
  | writeDone op =>
      cases reply with
      | inr reply => exact coherent
      | inl reply => exact writeDone_coherent coherent fit reply
  | reconcileRead op failure =>
      cases reply with
      | inl reply => exact coherent
      | inr reply => exact reconcileRead_coherent coherent fit failure reply
  | conflictRead op reason =>
      cases reply with
      | inl reply => exact coherent
      | inr reply => exact conflictRead_coherent coherent fit reason reply
  | inspected op state =>
      cases reply with
      | inl reply => exact coherent
      | inr reply =>
          apply inspected_coherent coherent fit
          rintro bytes revision rfl current conflict
          apply Classical.byContradiction
          intro hollow
          exact sound ⟨current, hollow, conflict⟩
  | mergeVerified op =>
      cases reply with
      | inl reply => exact coherent
      | inr reply => exact mergeVerified_coherent fit.1 coherent fit.2 reply
  | mergeWriteDone op =>
      cases reply with
      | inr reply => exact coherent
      | inl reply => exact mergeWriteDone_coherent fit.1 coherent fit.2 reply
  | mergeLossRead op =>
      cases reply with
      | inl reply => exact coherent
      | inr reply => exact mergeLossRead_coherent fit.1 coherent fit.2 reply
  | mergeConflictRead op reason =>
      cases reply with
      | inl reply => exact coherent
      | inr reply => exact mergeRefusal_coherent coherent fit.1 fit.2 _ _ _

/-- The handler of a callback's error finds what it needs in the operation. -/
theorem Callback.Fit.error {callback : Callback} (fit : callback.Fit) (coherent : Coherent m.core)
    (error : LispError) : Keeps (callbackError codec env callback.operation error) m := by
  cases callback with
  | inspected op state =>
      apply callbackError_coherent coherent
      · intro b base
        have its : state.bind (·.base) = some b := fit.base ▸ base
        obtain ⟨st, there, same⟩ := Option.bind_eq_some_iff.mp its
        exact fit.whole st there b same
      · intro merge
        rw [show (Callback.inspected op state).operation.mergeBuffer = none from fit.plain] at merge
        cases merge
  | writeDone op => exact Operation.Complete.error fit coherent error
  | reconcileRead op failure => exact Operation.Complete.error fit coherent error
  | conflictRead op reason => exact Operation.Complete.error fit coherent error
  | mergeVerified op => exact Operation.Complete.error fit.1 coherent error
  | mergeWriteDone op => exact Operation.Complete.error fit.1 coherent error
  | mergeLossRead op => exact Operation.Complete.error fit.1 coherent error
  | mergeConflictRead op reason => exact Operation.Complete.error fit.1 coherent error

theorem runCallback_coherent (coherent : Coherent m.core) {callback : Callback}
    (fit : callback.Fit) {reply : AnyReply} (sound : ¬ callback.Hollow m reply) :
    Keeps (runCallback codec env callback reply) m := by
  rw [runCallback, Keeps, wp_rescue]
  apply wp_mono (callbackBody_coherent coherent fit sound) (fun _ _ done => done)
  intro error t failed
  exact fit.error failed error

end EmacsRelay

import EmacsRelay.Client.Synchronous
import Mathlib.Data.Option.Defs

set_option autoImplicit false

/- The synchronous save on the state that it shares with the asynchronous ones, and the same save
with its traffic: from the same buffer they do the same. -/
namespace EmacsRelay.Synchronous

open Routine
open RelayConflict (SyncStatus SyncResult Replies classify reconcileUncertain replyReason
  deletedRemote rpcTarget noRequest requestTarget)

/-- The same BASE. -/
structure Loose (b : Base) (l : LooseBase) : Prop where
  bytes : b.bytes = some l.bytes
  revision : l.revision = some b.revision
  coding : b.coding = l.coding

/-- The same conflict. -/
structure Contested (c : ConflictState) (d : Dispute) : Prop where
  status : c.status = d.status
  reason : c.reason = d.reason
  base : Option.Rel Loose c.base d.base
  localBytes : c.localBytes = some d.localBytes
  remote : c.remote = d.remote
  classification : c.classification = d.classification
  revision : c.revision = d.revision
  error : c.error = d.error
  mergeRecovery : c.mergeRecovery = d.mergeRecovery

/-- The same visited buffer. -/
structure Loosens (m : Machine) (s : SyncBuffer) : Prop where
  fileName : m.fileName = s.fileName
  buffer : m.buffer = s.buffer
  modified : m.modified = s.modified
  base : Option.Rel Loose m.base s.base
  state : Option.Rel Contested m.state s.state
  pendingRead : m.pendingRead.map (fun pending =>
    (pending.filename, pending.bytes, some pending.revision)) = s.pendingRead

/-- The same result. -/
structure SameResult (r : SyncResult) (o : SaveOutcome) : Prop where
  status : r.status = o.status
  reason : r.reason = o.reason
  revision : r.revision = o.revision
  error : r.error = o.error
  remote : r.remote = o.remote
  conflict : Option.Rel Contested r.conflict o.conflict

section Bases

variable {b b' : Base} {l l' : LooseBase} {base base' : Option Base} {loose loose' : Option LooseBase}

theorem Loose.eq_iff (one : Loose b l) (two : Loose b' l') : b = b' ↔ l = l' := by
  obtain ⟨_, _, _⟩ := l
  obtain ⟨_, _, _⟩ := l'
  constructor
  · rintro rfl
    exact LooseBase.mk.injEq .. ▸ ⟨Option.some.inj (one.bytes.symm.trans two.bytes),
      one.revision.trans two.revision.symm, one.coding.symm.trans two.coding⟩
  · intro same
    obtain ⟨_, _, _⟩ := b
    obtain ⟨_, _, _⟩ := b'
    cases same
    exact Base.mk.injEq .. ▸ ⟨one.bytes.trans two.bytes.symm,
      Option.some.inj (one.revision.symm.trans two.revision), one.coding.trans two.coding.symm⟩

theorem base_eq_iff (one : Option.Rel Loose base loose) (two : Option.Rel Loose base' loose') :
    base = base' ↔ loose = loose' := by
  cases one with
  | none => cases two <;> simp
  | some one =>
      cases two with
      | none => simp
      | some two => simp [one.eq_iff two]

theorem base_bytes (same : Option.Rel Loose base loose) :
    base.bind (·.bytes) = loose.map (·.bytes) := by
  cases same with
  | none => rfl
  | some same => exact same.bytes

theorem base_revision (same : Option.Rel Loose base loose) :
    base.map (·.revision) = loose.bind (·.revision) := by
  cases same with
  | none => rfl
  | some same => exact same.revision.symm

theorem base_coding (same : Option.Rel Loose base loose) :
    (base.map (·.coding)).getD .utf8 = (loose.map (·.coding)).getD .utf8 := by
  cases same with
  | none => rfl
  | some same => exact same.coding

end Bases

section Primitives

variable {m : Machine} {s : SyncBuffer} {codec : Codec} {env : Env}

theorem Loosens.fileIdentity (same : Loosens m s) : m.fileIdentity = s.fileIdentity :=
  congrArg RelayConflict.fileIdentity same.fileName

theorem Loosens.bytes (same : Loosens m s) : m.bytes codec = s.bytes codec :=
  congrArg (fun buffer : Buffer => codec.encode buffer.visible) same.buffer

theorem Loosens.target (same : Loosens m s) : requestTarget m = s.target none :=
  congrArg (·.bind (rpcTarget · none)) same.fileIdentity

theorem Loosens.log (same : Loosens m s) (traffic : List Traffic) : Loosens m (s.log traffic) :=
  ⟨same.fileName, same.buffer, same.modified, same.base, same.state, same.pendingRead⟩

theorem Loosens.recordBase (same : Loosens m s) {bytes : Bytes} {revision : Token} {coding : Coding} :
    Loosens (m.recordBase (some bytes) revision coding)
      (s.recordBase bytes (some revision) coding) :=
  ⟨same.fileName, same.buffer, same.modified, .some ⟨rfl, rfl, rfl⟩, same.state, same.pendingRead⟩

theorem Loosens.setState (same : Loosens m s) {state : Option ConflictState}
    {dispute : Option Dispute} (alike : Option.Rel Contested state dispute) :
    Loosens (m.setState state) (s.setState dispute) :=
  ⟨same.fileName, same.buffer, same.modified, same.base, alike, same.pendingRead⟩

theorem Loosens.markClean (same : Loosens m s) (owner : Option Identity) :
    Loosens (m.markClean owner) s.markClean :=
  ⟨same.fileName, same.buffer, rfl, same.base, same.state, same.pendingRead⟩

theorem Loosens.edit (same : Loosens m s) (buffer : Buffer) :
    Loosens (m.edit buffer) (s.setText buffer) :=
  ⟨same.fileName, rfl, rfl, same.base, same.state, same.pendingRead⟩

theorem alike_mayFail (site : Site) :
    Alike Loosens (fun _ _ => True) (Editor.mayFail env site) (mayFail env site) := by
  unfold Editor.mayFail mayFail
  split
  · exact alike_signal _
  · exact alike_pure trivial

theorem alike_visitedTarget :
    Alike Loosens Eq RelayConflict.visitedTarget (visitedTarget none) := by
  apply alike_bind alike_fetch
  intro m s same
  rw [same.target, same.fileIdentity]
  cases s.target none with
  | none => exact alike_signal _
  | some target => exact alike_pure rfl

theorem alike_fetch_remote (reply : ReadReply) :
    Alike Loosens Eq (RelayConflict.fetch reply) (fetch reply) := by
  apply alike_bind alike_visitedTarget
  intro target _ _
  apply alike_update_right (fun _ _ same => same.log _)
  cases reply with
  | ok bytes revision => exact alike_pure rfl
  | failed error => exact alike_signal _

theorem alike_writeSnapshot (bytes : Bytes) (expected : Option Token)
    (reply : Request → WriteReply) :
    Alike Loosens Eq (RelayConflict.writeSnapshot bytes expected reply)
      (writeSnapshot bytes expected none reply) := by
  apply alike_bind alike_visitedTarget
  intro target _ same
  cases same
  exact alike_update_right (fun _ _ same => same.log _) (alike_pure rfl)

/-- Only the machine has the cache. -/
theorem alike_cache (bytes : Bytes) (revision : Token) :
    Alike Loosens (fun _ _ => True) (RelayConflict.cache env bytes revision) (cache env) := by
  unfold RelayConflict.cache cache Editor.mayFail mayFail
  split
  · exact alike_signal _
  · intro m s same
    exact ⟨trivial, same.fileName, same.buffer, same.modified, same.base, same.state,
      same.pendingRead⟩

end Primitives

section Save

variable {codec : Codec} {env : Env} {base : Option Base} {loose : Option LooseBase}
  {localBytes : Bytes} {remote : Remote}

theorem alike_replaceLive (bytes : Bytes) (revision : Token) :
    Alike Loosens (fun _ _ => True) (RelayConflict.replaceLive codec env bytes revision)
      (replaceLive codec env bytes revision) := by
  unfold RelayConflict.replaceLive replaceLive Editor.eraseAndInsert
  simp only [bind_assoc]
  apply alike_bind (alike_mayFail _)
  intro _ _ _
  apply alike_bind (alike_update ?_)
  · intro _ _ _
    apply alike_bind (alike_mayFail _)
    intro _ _ _
    apply alike_bind (alike_update fun _ _ same => same.edit _)
    intro _ _ _
    apply alike_bind (alike_update fun _ _ same => same.recordBase)
    intro _ _ _
    apply alike_bind (alike_cache _ _)
    intro _ _ _
    apply alike_bind (alike_update fun _ _ same => same.setState .none)
    intro _ _ _
    exact alike_fetch_left fun m => alike_update fun _ _ same => same.markClean _
  · exact fun m s same =>
      ⟨same.fileName, rfl, rfl, same.base, same.state, same.pendingRead⟩

theorem alike_snapshot (reason : Reason) (remote : Option Remote)
    (classification : Option Classification) :
    Alike Loosens Contested (RelayConflict.snapshot codec reason remote classification)
      (snapshot codec reason remote classification) := by
  apply alike_bind alike_fetch
  intro m s same
  apply alike_pure
  exact ⟨rfl, rfl, same.base, congrArg some same.bytes, rfl, rfl, rfl, rfl, rfl⟩

/-- A conflict is retained, and returned. -/
theorem alike_offered {c : ConflictState} {d : Dispute} (contested : Contested c d) :
    Alike Loosens SameResult
      (do
        .update (·.setState (some c))
        pure { status := .conflict, conflict := some c } : Lisp SyncResult)
      (do
        .update (·.offer d)
        pure { status := .conflict, conflict := some d } : Act SaveOutcome) := by
  apply alike_bind (alike_update ?_)
  · intro _ _ _
    exact alike_pure ⟨rfl, rfl, rfl, rfl, rfl, .some contested⟩
  · exact fun m s same => ⟨same.fileName, same.buffer, same.modified, same.base, .some contested,
      same.pendingRead⟩

theorem alike_claimPending :
    Alike Loosens (Option.Rel Loose) RelayConflict.claimPending claimPending := by
  apply alike_bind alike_fetch
  intro m s same
  rw [← same.pendingRead, ← same.fileName]
  have based := same.base
  generalize m.base = base at based ⊢
  generalize s.base = loose at based ⊢
  cases based with
  | some based => exact alike_pure (.some based)
  | none =>
      cases m.pendingRead with
      | none => exact alike_pure .none
      | some pending =>
          dsimp only [Option.map_some]
          split
          · intro m s same
            exact ⟨.some ⟨rfl, rfl, rfl⟩, same.fileName, same.buffer, same.modified,
              .some ⟨rfl, rfl, rfl⟩, same.state, rfl⟩
          · exact alike_pure .none

theorem alike_establishBase (reply : ReadReply) :
    Alike Loosens (Option.Rel Loose) (RelayConflict.establishBase reply) (establishBase reply) := by
  apply alike_bind alike_claimPending
  intro base loose same
  cases same with
  | some loose => exact alike_pure (.some loose)
  | none =>
      apply alike_rescue
      · apply alike_bind (alike_fetch_remote reply)
        rintro remote _ rfl
        apply alike_bind (alike_update fun _ _ same => same.recordBase)
        intro _ _ _
        exact alike_pure (.some ⟨rfl, rfl, rfl⟩)
      · exact fun _ => alike_pure .none

theorem expectedRevision_eq {state : Option ConflictState} {dispute : Option Dispute}
    (contested : Option.Rel Contested state dispute) (same : Option.Rel Loose base loose)
    (localBytes : Bytes) :
    RelayConflict.expectedRevision state base localBytes =
      expectedRevision dispute loose localBytes := by
  unfold RelayConflict.expectedRevision expectedRevision retryRevision
  rw [base_revision same]
  cases contested with
  | none => rfl
  | @some c d alike =>
      have test : c.status = some .retry ∧ c.base = base ∧ c.localBytes = some localBytes ↔
          d.status = some .retry ∧ d.base = loose ∧ d.localBytes = localBytes := by
        rw [alike.status, base_eq_iff alike.base same, alike.localBytes, Option.some_inj]
      by_cases holds : c.status = some .retry ∧ c.base = base ∧ c.localBytes = some localBytes
      · simp only [holds, test.mp holds, and_self, if_true, Option.filter_some, decide_true,
          Option.bind_some, alike.remote]
      · have other := fun held => holds (test.mpr held)
        simp only [if_neg holds, Option.filter_some, decide_eq_true_eq, if_neg other,
          Option.bind_none]
        rfl

theorem alike_acknowledged (same : Option.Rel Loose base loose) (revision : Token) :
    Alike Loosens SameResult (RelayConflict.acknowledged env base localBytes revision)
      (acknowledged env loose localBytes revision) := by
  unfold RelayConflict.acknowledged acknowledged
  rw [base_coding same]
  apply alike_bind (alike_update fun _ _ same => same.recordBase)
  intro _ _ _
  apply alike_bind (alike_cache _ _)
  intro _ _ _
  apply alike_bind (alike_update fun _ _ same => same.setState .none)
  intro _ _ _
  apply alike_fetch_left
  intro m
  apply alike_bind (alike_update fun _ _ same => same.markClean _)
  intro _ _ _
  exact alike_pure ⟨rfl, rfl, rfl, rfl, rfl, .none⟩

theorem alike_reconcile (same : Option.Rel Loose base loose) :
    Alike Loosens SameResult (RelayConflict.reconcile codec env base localBytes remote)
      (reconcile codec env loose localBytes remote) := by
  unfold RelayConflict.reconcile reconcile
  rw [base_coding same, base_bytes same]
  generalize reconcileUncertain _ _ _ _ = outcome
  obtain ⟨status, reason, revision, error⟩ := outcome
  cases status with
  | saved =>
      apply alike_bind (alike_update fun _ _ same => same.recordBase)
      intro _ _ _
      apply alike_bind (alike_cache _ _)
      intro _ _ _
      apply alike_fetch_left
      intro m
      apply alike_bind (alike_update fun _ _ same => same.markClean _)
      intro _ _ _
      exact alike_pure ⟨rfl, rfl, rfl, rfl, rfl, .none⟩
  | conflict =>
      apply alike_bind (alike_snapshot _ _ _)
      intro c d contested
      exact alike_offered contested
  | retry => exact alike_pure ⟨rfl, rfl, rfl, rfl, rfl, .none⟩

theorem alike_settle (same : Option.Rel Loose base loose) (reason : Reason)
    (remote : Option Remote) :
    Alike Loosens SameResult (RelayConflict.settle codec env base localBytes reason remote)
      (settle codec env loose localBytes reason remote) := by
  unfold RelayConflict.settle settle
  rw [base_bytes same]
  apply alike_bind (alike_snapshot _ _ _)
  intro c d contested
  cases remote with
  | none => exact alike_offered contested
  | some r =>
      dsimp only [Option.map_some]
      cases classify (loose.map (·.bytes)) (some localBytes) r.bytes (some r.revision) with
      | convergent revision =>
          apply alike_bind (alike_replaceLive _ _)
          intro _ _ _
          exact alike_pure ⟨rfl, rfl, rfl, rfl, rfl, .none⟩
      | _ => exact alike_offered contested

theorem alike_conflictRemote (reason : Reason) (read : ReadReply) :
    Alike Loosens Eq (RelayConflict.conflictRemote reason read) (conflictRemote reason read) := by
  apply alike_rescue
  · apply alike_bind (alike_fetch_remote read)
    rintro remote _ rfl
    exact alike_pure rfl
  · exact fun _ => alike_pure rfl

theorem alike_lostReply (same : Option.Rel Loose base loose) (error : Option String)
    (read : ReadReply) :
    Alike Loosens SameResult (RelayConflict.lostReply codec env base localBytes error read)
      (lostReply codec env loose localBytes error read) := by
  apply alike_rescue
  · apply alike_bind (alike_fetch_remote read)
    rintro remote _ rfl
    exact alike_reconcile same
  · exact fun _ => alike_pure ⟨rfl, rfl, rfl, rfl, rfl, .none⟩

theorem alike_handleReply (same : Option.Rel Loose base loose) (reply : WriteReply)
    (read : ReadReply) :
    Alike Loosens SameResult (RelayConflict.handleReply codec env base localBytes reply read)
      (handleReply codec env loose localBytes reply read) := by
  unfold RelayConflict.handleReply handleReply
  cases reply with
  | ok revision => exact alike_acknowledged same revision
  | transport error => exact alike_lostReply same error read
  | refused code conflict error =>
      dsimp only
      cases replyReason (.refused code conflict error) with
      | none => exact alike_pure ⟨rfl, rfl, rfl, rfl, rfl, .none⟩
      | some reason =>
          apply alike_bind (alike_conflictRemote reason read)
          rintro remote _ rfl
          exact alike_settle same reason remote

theorem alike_saveInternal (replies : Replies) :
    Alike Loosens SameResult (RelayConflict.saveInternal codec env replies)
      (saveInternal codec env replies) := by
  apply alike_bind alike_fetch
  intro m s same
  apply alike_bind (alike_establishBase replies.baseRead)
  intro base loose based
  rw [← same.bytes, ← expectedRevision_eq same.state based]
  apply alike_bind (alike_writeSnapshot _ _ _)
  rintro reply _ rfl
  exact alike_handleReply based reply replies.read

theorem alike_rememberIncompleteSave {r : SyncResult} {o : SaveOutcome} (same : SameResult r o) :
    Alike Loosens SameResult (RelayConflict.rememberIncompleteSave codec r)
      (rememberIncompleteSave codec o) := by
  apply alike_bind alike_fetch
  intro m s buffers
  have remembered : ∀ status : StateStatus, Contested
      { status := some status
        reason := r.reason.getD .serverError
        base := m.base
        localBytes := some (m.bytes codec)
        remote := r.remote
        revision := r.revision
        error := r.error
        owner := m.fileIdentity }
      { status := some status
        reason := o.reason.getD .serverError
        base := s.base
        localBytes := s.bytes codec
        remote := o.remote
        revision := o.revision
        error := o.error } := by
    intro status
    exact ⟨rfl, congrArg (·.getD .serverError) same.reason, buffers.base,
      congrArg some buffers.bytes, same.remote, rfl, same.revision, same.error, rfl⟩
  dsimp only
  rw [same.status]
  cases o.status with
  | saved => exact alike_pure same
  | conflict => exact alike_pure same
  | retry =>
      apply alike_bind (alike_update fun _ _ same => same.setState (.some (remembered .retry)))
      intro _ _ _
      exact alike_pure ⟨rfl, same.reason, same.revision, same.error, same.remote,
        .some (remembered .retry)⟩
  | uncertain =>
      apply alike_bind (alike_update fun _ _ same => same.setState (.some (remembered .uncertain)))
      intro _ _ _
      exact alike_pure ⟨rfl, same.reason, same.revision, same.error, same.remote,
        .some (remembered .uncertain)⟩

/-- From the same buffer both saves end alike, with the same result or the same error, and leave
the same buffer. -/
theorem alike_save (codec : Codec) (env : Env) (replies : Replies) :
    Alike Loosens SameResult (RelayConflict.save codec env replies) (save codec env replies) := by
  apply alike_bind (alike_saveInternal replies)
  intro r o same
  exact alike_rememberIncompleteSave same

end Save

end EmacsRelay.Synchronous

import EmacsRelay.Client.HeldRun
import EmacsRelay.Client.SyncSave

set_option autoImplicit false

/- What a save that ends as saved says about the file on the server. -/
namespace EmacsRelay

open Routine Editor

/-- The files of every server at one moment, `none` where there is no file. -/
abbrev Files := CacheKey → Option Bytes

/-- A reply is true of the file it is about, at the moment it is given. -/
def Shows (files : Files) : Request → AnyReply → Prop
  | .write authority path bytes _, .inl (.ok _) => files (authority, path) = some bytes
  | .write authority path _ _, .inl (.refused _ (some .deleted) _) => files (authority, path) = none
  | .write authority path _ _, .inl (.refused _ (some .changed) _) =>
      files (authority, path) ≠ none
  | .write authority path _ _, .inl (.refused _ (some .appeared) _) =>
      files (authority, path) ≠ none
  | .read authority path, .inr (.ok bytes _) => files (authority, path) = some bytes
  | _, _ => True

namespace RelayConflict

/-- The BASE a save works with, established or not. -/
def workingBase (replies : Replies) (m : Machine) : Option Base :=
  match establishBase replies.baseRead m with
  | (.ok base, _) => base
  | (.error _, _) => none

/-- The write of a save. -/
def writeRequest (codec : Codec) (replies : Replies) (id : Identity) (m : Machine) : Request :=
  .write id.authority id.path (m.bytes codec)
    (expectedRevision m.state (workingBase replies m) (m.bytes codec))

/-- The reply to the write of a save. -/
def writeReply (codec : Codec) (replies : Replies) (id : Identity) (m : Machine) : WriteReply :=
  replies.write (writeRequest codec replies id m)

/-- The files when the write and the follow-up read are answered. -/
structure Moments where
  atWrite : Files
  atRead : Files

/-- The files at the reply that decides: an acknowledgement, or else the follow-up read. -/
def Moments.decisive (moments : Moments) : WriteReply → Files
  | .ok _ => moments.atWrite
  | _ => moments.atRead

/-- The replies are true of the files when they are given. -/
structure Truthful (codec : Codec) (replies : Replies) (id : Identity) (moments : Moments)
    (m : Machine) : Prop where
  write : Shows moments.atWrite (writeRequest codec replies id m)
    (.inl (writeReply codec replies id m))
  read : Shows moments.atRead (.read id.authority id.path) (.inr replies.read)

/-- The steps that install REMOTE in the live buffer do not signal. -/
structure Installs (env : Env) : Prop where
  erase : env.fails .erase = false
  insert : env.fails .insert = false
  cachePut : env.fails .cachePut = false

/-- LOCAL is empty, the path was reported deleted and could not be read after that, and no empty
file is there; the empty snapshot that stands for it can be installed. -/
def EmptyDeletion (codec : Codec) (env : Env) (replies : Replies) (id : Identity)
    (moments : Moments) (m : Machine) : Prop :=
  (requestTarget m).isSome = true ∧
  m.bytes codec = [] ∧
  replyReason (writeReply codec replies id m) = some (.kind .deleted) ∧
  (∃ error, replies.read = .failed error) ∧
  moments.atRead (id.authority, id.path) ≠ some [] ∧
  Installs env

variable {codec : Codec} {env : Env} {replies : Replies} {id : Identity} {m : Machine}
  {base : Option Base}

/-- A read of a visited file ends as its reply does. -/
theorem wp_fetchVisited (directed : requestTarget m = some id) (reply : ReadReply)
    (post : Remote → Machine → Prop) (failed : LispError → Machine → Prop) :
    wp (RelayConflict.fetch reply) post failed m ↔
      (∀ bytes revision, reply = .ok bytes revision → post ⟨bytes, revision, false⟩ m) ∧
      ∀ error, reply = .failed error →
        failed (.signalled (error.getD "unable to read remote file")) m := by
  simp only [RelayConflict.fetch, wp_bind, wp_visitedTarget, directed]
  cases reply <;> simp

theorem claimPending_total (m : Machine) :
    wp claimPending (fun _ t => t.buffer = m.buffer ∧ t.fileName = m.fileName)
      (fun _ _ => False) m := by
  simp only [claimPending, wp_bind, wp_fetch]
  cases m.base with
  | some base => exact ⟨rfl, rfl⟩
  | none =>
      cases m.pendingRead with
      | none => exact ⟨rfl, rfl⟩
      | some pending =>
          simp

/-- Establishing BASE touches neither the text nor the file name. -/
theorem establishBase_runs (reply : ReadReply) (m : Machine) :
    ∃ base t, establishBase reply m = (.ok base, t) ∧ t.buffer = m.buffer ∧
      t.fileName = m.fileName := by
  have total : wp (establishBase reply)
      (fun _ t => t.buffer = m.buffer ∧ t.fileName = m.fileName) (fun _ _ => False) m := by
    simp only [establishBase, wp_bind]
    refine wp_mono (claimPending_total m) ?_ (fun _ _ impossible => impossible)
    rintro base t kept
    cases base with
    | some base => exact kept
    | none =>
        simp only [wp_rescue, RelayConflict.fetch, wp_bind, wp_visitedTarget]
        refine ⟨fun _ _ => ?_, fun _ => kept⟩
        cases reply with
        | ok bytes revision => exact kept
        | failed error => exact kept
  obtain ⟨base, t, runs, kept⟩ := runs_of_total total
  exact ⟨base, t, runs, kept⟩

section Branches

variable {localBytes : Bytes} {read : ReadReply} {truth : Prop}

/-- The lost reply: only a read of LOCAL itself ends as saved. -/
theorem lostReply_wp (directed : requestTarget m = some id) {error : Option String}
    (shown : ∀ revision, read = .ok localBytes revision → truth) :
    wp (lostReply codec env base localBytes error read)
      (fun result _ => result.status = .saved → truth) (fun _ _ => True) m := by
  simp only [lostReply, wp_rescue, wp_bind, wp_fetchVisited directed, wp_pure]
  refine ⟨?_, fun _ _ saved => by cases saved⟩
  intro bytes revision reply
  simp only [reconcile]
  split
  · rename_i saved
    have same : localBytes = bytes := Option.some.inj (reconcileUncertain_saved saved)
    have decided : truth := shown revision (same ▸ reply)
    exact wp_of_forall (fun _ _ _ => decided) (fun _ _ _ => decided) m
  · simp [snapshot]
  · simp

theorem conflictRemote_wp (directed : requestTarget m = some id) (reason : Reason)
    (post : Option Remote → Machine → Prop) (failed : LispError → Machine → Prop) :
    wp (conflictRemote reason read) post failed m ↔
      (∀ bytes revision, read = .ok bytes revision → post (some ⟨bytes, revision, false⟩) m) ∧
      ∀ error, read = .failed error →
        post (if reason = .kind .deleted then some deletedRemote else none) m := by
  simp only [conflictRemote, wp_rescue, wp_bind, wp_fetchVisited directed, wp_pure]

/-- Only REMOTE equal to LOCAL is adopted. -/
theorem settle_wp {reason : Reason} {remote : Option Remote}
    (shown : ∀ r, remote = some r → r.bytes = localBytes → Installs env → truth) :
    wp (settle codec env base localBytes reason remote)
      (fun result _ => result.status = .saved → truth) (fun _ _ => True) m := by
  simp only [settle, snapshot, wp_bind, wp_fetch, wp_pure]
  cases remote with
  | none => simp
  | some r =>
      simp only [Option.map_some]
      split
      · rename_i r' revision' same convergent
        have adopted : r' = r := (Option.some.inj same).symm
        obtain ⟨equal, _⟩ := classify_convergent (Option.some.inj convergent)
        have decided : Installs env → truth := shown r rfl (Option.some.inj equal).symm
        simp only [replaceLive, cache, wp_bind, wp_eraseAndInsert, wp_mayFail, wp_update, wp_fetch,
          wp_pure, implies_true, true_and]
        exact fun erases inserts caches _ => decided ⟨erases, inserts, caches⟩
      · simp

/-- A conflict: only a read of LOCAL, or an empty LOCAL of a deleted file, ends as saved. -/
theorem conflicting_wp (directed : requestTarget m = some id) {reason : Reason}
    (shown : ∀ revision, read = .ok localBytes revision → truth)
    (gone : ∀ error, read = .failed error → reason = .kind .deleted → localBytes = [] →
      Installs env → truth) :
    wp (conflicting codec env base localBytes reason read)
      (fun result _ => result.status = .saved → truth) (fun _ _ => True) m := by
  simp only [conflicting, wp_bind, conflictRemote_wp directed]
  refine ⟨?_, ?_⟩
  · intro bytes revision reply
    apply settle_wp
    rintro r ⟨⟩ rfl _
    exact shown revision reply
  · intro error reply
    apply settle_wp
    intro r remote same installs
    by_cases deleted : reason = .kind .deleted
    · rw [if_pos deleted] at remote
      cases remote
      exact gone error reply deleted same.symm installs
    · rw [if_neg deleted] at remote
      cases remote

/-- An empty LOCAL of a deleted file does end as saved. -/
theorem conflicting_empty (directed : requestTarget m = some id) {error : Option String}
    (installs : Installs env) :
    wp (conflicting codec env base [] (.kind .deleted) (.failed error))
      (fun result _ => result.status = .saved) (fun _ _ => False) m := by
  simp [conflicting, conflictRemote_wp directed, settle, snapshot, deletedRemote, classify,
    replaceLive, cache, installs.erase, installs.insert, installs.cachePut]

theorem rememberIncompleteSave_wp {result : SyncResult} :
    wp (rememberIncompleteSave codec result) (fun final _ => final.status = result.status)
      (fun _ _ => False) m := by
  cases status : result.status <;> simp [rememberIncompleteSave, status]

end Branches

/-- The rest of a save, once BASE is settled, works on the same text and file. -/
theorem saveInternal_from (directed : requestTarget m = some id)
    (post : SyncResult → Machine → Prop) (failed : LispError → Machine → Prop)
    (rest : ∀ t base, requestTarget t = some id →
      wp (handleReply codec env base (m.bytes codec) (writeReply codec replies id m) replies.read)
        post failed t) :
    wp (saveInternal codec env replies) post failed m := by
  obtain ⟨base, t, runs, _, file⟩ := establishBase_runs replies.baseRead m
  have directed' : requestTarget t = some id := by
    rw [requestTarget, Machine.fileIdentity, file]
    exact directed
  have working : workingBase replies m = base := by simp [workingBase, runs]
  simp only [saveInternal, wp_bind, wp_fetch]
  refine wp_of_runs runs ?_
  simp only [writeSnapshot, wp_bind, wp_visitedTarget, wp_pure, directed', Option.some.injEq,
    forall_eq', reduceCtorEq, false_implies, and_true]
  have goes := rest t base directed'
  rw [writeReply, writeRequest, working] at goes
  exact goes

theorem save_wp {truth : Prop}
    (internal : wp (saveInternal codec env replies)
      (fun result _ => result.status = .saved → truth) (fun _ _ => True) m) :
    wp (save codec env replies) (fun result _ => result.status = .saved → truth)
      (fun _ _ => True) m := by
  simp only [save, wp_bind]
  refine wp_mono internal ?_ (fun _ _ _ => trivial)
  intro result t holds
  refine wp_mono rememberIncompleteSave_wp ?_ (fun _ _ impossible => impossible.elim)
  intro final _ same saved
  exact holds (same.symm.trans saved)

variable {moments : Moments}

theorem save_shows (directed : requestTarget m = some id)
    (truthful : Truthful codec replies id moments m)
    (sound : ¬ EmptyDeletion codec env replies id moments m) :
    wp (save codec env replies)
      (fun result _ => result.status = .saved →
        moments.decisive (writeReply codec replies id m) (id.authority, id.path) =
          some (m.bytes codec)) (fun _ _ => True) m := by
  apply save_wp
  apply saveInternal_from directed
  intro t base directed'
  have written := truthful.write
  have read : ∀ revision, replies.read = .ok (m.bytes codec) revision →
      moments.atRead (id.authority, id.path) = some (m.bytes codec) := by
    intro revision reply
    have shown := truthful.read
    rw [reply] at shown
    exact shown
  cases reply : writeReply codec replies id m with
  | ok revision =>
      rw [reply] at written
      exact wp_of_forall (fun _ _ _ => written) (fun _ _ => trivial) t
  | transport error => exact lostReply_wp directed' read
  | refused code kind error =>
      simp only [handleReply]
      cases reason : replyReason (.refused code kind error) with
      | none => simp
      | some reason =>
          apply conflicting_wp directed' read
          rintro lost failed rfl empty installs
          refine Classical.byContradiction fun absent => ?_
          refine sound ⟨by rw [directed]; rfl, empty, by rw [reply, reason], ⟨lost, failed⟩, ?_, installs⟩
          exact empty ▸ absent

/-- An empty LOCAL of a deleted file does end as saved. -/
theorem save_empty (directed : requestTarget m = some id)
    (deleted : EmptyDeletion codec env replies id moments m) :
    ∃ result t, save codec env replies m = (.ok result, t) ∧ result.status = .saved := by
  obtain ⟨_, empty, refused, ⟨error, failed⟩, _, installs⟩ := deleted
  have internal : wp (saveInternal codec env replies) (fun result _ => result.status = .saved)
      (fun _ _ => False) m := by
    apply saveInternal_from directed
    intro t base directed'
    cases reply : writeReply codec replies id m with
    | ok revision => simp [reply, replyReason] at refused
    | transport error => simp [reply, replyReason] at refused
    | refused code kind text =>
        rw [reply] at refused
        simp only [handleReply, refused, empty, failed]
        exact conflicting_empty directed' installs
  apply runs_of_total
  simp only [save, wp_bind]
  refine wp_mono internal ?_ (fun _ _ impossible => impossible)
  intro result t saved
  refine wp_mono rememberIncompleteSave_wp ?_ (fun _ _ impossible => impossible)
  intro final _ same
  exact same.trans saved

/-- An acknowledged write ends as saved. -/
theorem save_acknowledged (directed : requestTarget m = some id) (caches : env.fails .cachePut = false)
    {revision : Token} (acknowledges : writeReply codec replies id m = .ok revision) :
    ∃ result t, save codec env replies m = (.ok result, t) ∧ result.status = .saved := by
  have internal : wp (saveInternal codec env replies) (fun result _ => result.status = .saved)
      (fun _ _ => False) m := by
    apply saveInternal_from directed
    intro t base _
    rw [acknowledges]
    simp [handleReply, acknowledged, cache, caches]
  apply runs_of_total
  simp only [save, wp_bind]
  refine wp_mono internal ?_ (fun _ _ impossible => impossible)
  intro result t saved
  refine wp_mono rememberIncompleteSave_wp ?_ (fun _ _ impossible => impossible)
  intro final _ same
  exact same.trans saved

/-- Where no request is made for the visited file, a save signals. -/
theorem save_unsent (nowhere : requestTarget m = none) (result : SyncResult) (t : Machine) :
    save codec env replies m ≠ (.ok result, t) := by
  have signals : wp (save codec env replies) (fun _ _ => False) (fun _ _ => True) m := by
    obtain ⟨base, s, runs, _, file⟩ := establishBase_runs replies.baseRead m
    have nowhere' : requestTarget s = none := by
      rw [requestTarget, Machine.fileIdentity, file]
      exact nowhere
    simp only [save, saveInternal, wp_bind, wp_fetch]
    apply wp_of_runs runs
    simp [writeSnapshot, nowhere']
  exact post_of_wp signals

end RelayConflict

open RelaySave

/-- The active operation is over and ended as saved: the result is on display, or the queued save
has taken its place. -/
structure FinishedSaved (m t : Machine) (op : Operation) : Prop where
  current : m.operationCurrent op = true
  past : t.active ≠ some op
  saved : t.status = some .saved ∨ t.status = some .savedNewer ∨ t.generation ≠ m.generation

/-- The file an operation is for holds its bytes. -/
def HoldsSaved (files : Files) (op : Operation) : Prop :=
  ∃ id bytes, op.identity = some id ∧ op.bytes = some bytes ∧
    files (id.authority, id.path) = some bytes

/-- An empty save of a path reported deleted, which could not be read after that and where no
empty file is. -/
def LostEmpty (files : Files) (callback : Callback) (reply : AnyReply) : Prop :=
  (∃ op, callback = .conflictRead op (.kind .deleted)) ∧ (∃ error, reply = .inr (.failed error)) ∧
  callback.operation.bytes = some [] ∧ ¬ HoldsSaved files callback.operation

/-- The callbacks and replies that end an ordinary save as saved. -/
def Succeeds : Callback → AnyReply → Prop
  | .writeDone _, .inl (.ok _) => True
  | .reconcileRead op _, .inr (.ok bytes _) => op.bytes = some bytes
  | .conflictRead op _, .inr (.ok bytes _) => op.bytes = some bytes
  | .conflictRead op reason, .inr (.failed _) => reason = .kind .deleted ∧ op.bytes = some []
  | .inspected _ state, .inr (.ok bytes _) => state.bind (·.localBytes) = some bytes
  | _, _ => False

variable {codec : Codec} {env : Env} {m t : Machine} {op : Operation}

/-- The operation is still the active one of a live buffer. -/
structure Pending (m : Machine) (op : Operation) : Prop where
  live : m.live = true
  current : m.operationCurrent op = true

theorem Pending.active (pending : Pending m op) : m.active = some op := by
  have current := pending.current
  simp only [Machine.operationCurrent, Bool.and_eq_true, beq_iff_eq] at current
  exact current.1

theorem Pending.generation (pending : Pending m op) : op.generation = some m.generation := by
  have current := pending.current
  simp only [Machine.operationCurrent, Bool.and_eq_true, beq_iff_eq] at current
  exact current.2

theorem Pending.note (pending : Pending m op) (reports : List Report) :
    Pending (m.note reports) op :=
  ⟨pending.live, pending.current⟩

theorem finishedSaved_note (reports : List Report) :
    FinishedSaved (m.note reports) t op ↔ FinishedSaved m t op :=
  ⟨fun finished => ⟨finished.current, finished.past, finished.saved⟩,
    fun finished => ⟨finished.current, finished.past, finished.saved⟩⟩

theorem finishNonsuccess_unsaved {status : Status} {result : SaveResult}
    {conflict : Option ConflictState} {failed : LispError → Machine → Prop}
    (pending : Pending m op) (bad : status ≠ .saved ∧ status ≠ .savedNewer) :
    wp (finishNonsuccess op status result conflict)
      (fun _ t => ¬ FinishedSaved m t op) failed m := by
  have unsaved : ∀ t : Machine, t.status = some status → t.generation = m.generation →
      ¬ FinishedSaved m t op := by
    intro t shown same finished
    rcases finished.saved with saved | newer | moved
    · exact bad.1 (Option.some.inj (shown.symm.trans saved))
    · exact bad.2 (Option.some.inj (shown.symm.trans newer))
    · exact moved same
  simp only [finishNonsuccess, wp_bind, wp_fetch, wp_whenever, wp_update, pending.live,
    pending.current, Bool.and_self, forall_const, reduceCtorEq, false_implies, and_true]
  exact ⟨fun _ => unsaved _ rfl rfl, fun _ => unsaved _ rfl rfl⟩

theorem callbackError_unsaved (pending : Pending m op) (plain : op.mergeBuffer = none)
    (error : LispError) :
    wp (callbackError codec env op error)
      (fun _ t => ¬ FinishedSaved m t op) (fun _ _ => False) m := by
  simp only [callbackError, plain, Option.isSome_none, Bool.false_eq_true, if_false]
  exact finishNonsuccess_unsaved pending (by simp)

/-- A follow-up read leaves the operation active, or fails. -/
theorem fetchAsync_unsaved (pending : Pending m op) (identity : Option Identity)
    (callback : Callback) :
    wp (fetchAsync env identity callback) (fun _ t => ¬ FinishedSaved m t op)
      (fun _ t => t = m) m := by
  simp only [fetchAsync, wp_bind, wp_mayFail, wp_update, implies_true, true_and]
  intro _ finished
  exact finished.past pending.active

theorem writeDone_unsaved (pending : Pending m op) {reply : WriteReply}
    (lost : ∀ revision, reply ≠ .ok revision) :
    wp (writeDone codec env op reply) (fun _ t => ¬ FinishedSaved m t op) (fun _ t => t = m) m := by
  simp only [writeDone, wp_bind, wp_fetch, wp_whenever, pending.live, pending.current,
    Bool.or_true, forall_const, reduceCtorEq, false_implies, and_true]
  cases reply with
  | ok revision => exact absurd rfl (lost revision)
  | transport error => exact fetchAsync_unsaved pending _ _
  | refused code kind error =>
      simp only [wp_ite]
      exact ⟨fun _ => fetchAsync_unsaved pending _ _,
        fun _ => finishNonsuccess_unsaved pending (by simp)⟩

theorem reconcileRead_unsaved (pending : Pending m op) {failure : Option String}
    {reply : ReadReply} (other : ¬ Succeeds (.reconcileRead op failure) (.inr reply)) :
    wp (reconcileRead codec env op failure reply) (fun _ t => ¬ FinishedSaved m t op)
      (fun _ t => t = m) m := by
  simp only [reconcileRead, wp_bind, wp_fetch, wp_whenever, pending.live, pending.current,
    Bool.or_true, forall_const, reduceCtorEq, false_implies, and_true]
  cases reply with
  | failed error => exact finishNonsuccess_unsaved pending (by simp)
  | ok bytes revision =>
      dsimp only
      split
      · rename_i saved
        exact absurd (RelayConflict.reconcileUncertain_saved saved) other
      · exact finishNonsuccess_unsaved pending (by simp)
      · exact finishNonsuccess_unsaved pending (by simp)

theorem settleConflict_unsaved (pending : Pending m op) (ordinary : op.Ordinary) {reason : Reason}
    {remote : Remote} (other : op.bytes ≠ some remote.bytes) :
    wp (settleConflict codec env op reason remote) (fun _ t => ¬ FinishedSaved m t op)
      (fun _ t => t = m) m := by
  simp only [settleConflict]
  split
  · rename_i convergent
    have classified := RelayConflict.classify_convergent (Option.some.inj convergent)
    simp only [ordinary.snapshot, Option.bind_none] at classified
    exact absurd classified.1 other
  · exact finishNonsuccess_unsaved pending (by simp)

theorem conflictRead_unsaved (pending : Pending m op) (ordinary : op.Ordinary) {reason : Reason}
    {reply : ReadReply} (other : ¬ Succeeds (.conflictRead op reason) (.inr reply)) :
    wp (conflictRead codec env op reason reply) (fun _ t => ¬ FinishedSaved m t op)
      (fun _ t => t = m) m := by
  simp only [conflictRead, wp_bind, wp_fetch, wp_whenever, pending.live, pending.current,
    Bool.or_true, forall_const, reduceCtorEq, false_implies, and_true]
  cases reply with
  | ok bytes revision => exact settleConflict_unsaved pending ordinary other
  | failed error =>
      simp only [wp_ite]
      refine ⟨fun deleted => ?_, fun _ => finishNonsuccess_unsaved pending (by simp)⟩
      exact settleConflict_unsaved pending ordinary fun empty => other ⟨deleted, empty⟩

theorem inspected_unsaved (pending : Pending m op) {state : Option ConflictState}
    {reply : ReadReply} (other : ¬ Succeeds (.inspected op state) (.inr reply)) :
    wp (inspected codec env op state reply) (fun _ t => ¬ FinishedSaved m t op)
      (fun _ t => t = m) m := by
  cases reply with
  | failed error => exact finishNonsuccess_unsaved pending (by simp)
  | ok bytes revision =>
      simp only [inspected]
      split
      · rename_i saved
        exact absurd (RelayConflict.reconcileUncertain_saved saved) other
      · exact finishNonsuccess_unsaved pending (by simp)
      · exact finishNonsuccess_unsaved pending (by simp)

/-- An ordinary save that does not succeed is not finished as saved. -/
theorem runCallback_unsaved {rpc : Rpc} {reply : AnyReply}
    (pending : Pending m rpc.callback.operation) (ordinary : rpc.callback.operation.Ordinary)
    (formed : rpc.Formed) (other : ¬ Succeeds rpc.callback reply) :
    wp (runCallback codec env rpc.callback reply)
      (fun _ t => ¬ FinishedSaved m t rpc.callback.operation) (fun _ _ => False) m := by
  have ignored : ¬ FinishedSaved m m rpc.callback.operation :=
    fun finished => finished.past pending.active
  have body : wp (callbackBody codec env rpc.callback reply)
      (fun _ t => ¬ FinishedSaved m t rpc.callback.operation) (fun _ t => t = m) m := by
    have plain := ordinary.plain
    unfold Rpc.Formed at formed
    cases callback : rpc.callback with
    | writeDone op =>
        rw [callback] at ignored pending other
        cases reply with
        | inl reply =>
            apply writeDone_unsaved pending
            rintro revision rfl
            exact other trivial
        | inr reply => exact ignored
    | reconcileRead op failure =>
        rw [callback] at ignored pending other
        cases reply with
        | inl reply => exact ignored
        | inr reply => exact reconcileRead_unsaved pending other
    | conflictRead op reason =>
        rw [callback] at ignored pending other ordinary
        cases reply with
        | inl reply => exact ignored
        | inr reply => exact conflictRead_unsaved pending ordinary other
    | inspected op state =>
        rw [callback] at ignored pending other
        cases reply with
        | inl reply => exact ignored
        | inr reply => exact inspected_unsaved pending other
    | mergeVerified op | mergeWriteDone op | mergeLossRead op | mergeConflictRead op reason =>
        rw [callback] at plain formed
        have merging := formed.1
        rw [show op.mergeBuffer = none from plain] at merging
        cases merging
  simp only [runCallback, wp_rescue]
  refine wp_mono body (fun _ _ => id) ?_
  rintro error t rfl
  exact callbackError_unsaved pending ordinary.plain error

/-- A save of the next generation has taken over. -/
theorem FinishedSaved.taken (pending : Pending m op) (moved : t.generation = m.generation + 1)
    (fresh : ∀ next, t.active = some next → next.generation = some (m.generation + 1)) :
    FinishedSaved m t op where
  current := pending.current
  past := by
    intro still
    have number := (fresh op still).symm.trans pending.generation
    simp at number
  saved := by
    right; right
    omega

theorem callbackError_taken {next : Operation} (pending : Pending m op)
    (moved : t.generation = m.generation + 1) (plain : next.mergeBuffer = none)
    (fresh : ∀ next, t.active = some next → next.generation = some (m.generation + 1))
    (error : LispError) :
    wp (callbackError codec env next error) (fun _ t => FinishedSaved m t op)
      (fun _ _ => False) t := by
  simp only [callbackError, plain, Option.isSome_none, Bool.false_eq_true, if_false,
    finishNonsuccess, wp_bind, wp_fetch, wp_whenever, wp_update, Option.isSome_some, forall_const,
    reduceCtorEq, false_implies, and_true]
  refine ⟨fun _ => ?_, fun _ => .taken pending moved fresh⟩
  exact .taken pending moved fun _ none => by cases none

theorem dispatch_taken {next : Operation} (pending : Pending m op)
    (same : t.generation = m.generation) (plain : next.mergeBuffer = none) :
    wp (dispatch codec env next) (fun _ t => FinishedSaved m t op) (fun _ _ => False) t := by
  simp only [dispatch, writeSnapshotAsync, wp_bind, wp_fetch, wp_update, wp_rescue, wp_mayFail]
  have moved : t.generation + 1 = m.generation + 1 := congrArg (· + 1) same
  have fresh : ∀ op', some (next.number (t.generation + 1)) = some op' →
      op'.generation = some (m.generation + 1) := by
    rintro _ ⟨⟩
    exact congrArg some moved
  refine ⟨fun _ => ?_, fun _ => .taken pending moved fresh⟩
  refine callbackError_taken pending ?_ ?_ ?_ _
  · exact moved
  · exact plain
  · exact fresh

/-- The queued save takes the place of the finished one, or the result is displayed. -/
theorem dispatchQueued_finishes {revision : Token} {extra same : Bool} {queued : Option Operation}
    (pending : Pending m op) (inactive : t.active = none) (unmoved : t.generation = m.generation)
    (plain : ∀ next, queued = some next → next.mergeBuffer = none) :
    wp (dispatchQueued codec env op revision extra same queued)
      (fun _ t => FinishedSaved m t op) (fun _ _ => False) t := by
  cases queued with
  | none =>
      simp only [dispatchQueued, wp_update]
      refine ⟨pending.current, ?_, ?_⟩
      · change t.active ≠ some op
        simp [inactive]
      · cases same <;> cases extra <;> simp
  | some next =>
      simp only [dispatchQueued, wp_bind, wp_update]
      exact dispatch_taken pending unmoved (plain next rfl)

/-- Confirming the bytes touches neither the operations nor the generation. -/
theorem confirmBytes_kept (same : Bool) :
    wp (confirmBytes codec env op same)
      (fun _ u => u.active = t.active ∧ u.generation = t.generation) (fun _ _ => False) t := by
  have hooked : ∀ u : Machine, (u.hooked env.afterSave).active = u.active ∧
      (u.hooked env.afterSave).generation = u.generation := by
    intro u
    cases env.afterSave <;> exact ⟨rfl, rfl⟩
  cases same with
  | true => simp [confirmBytes, hooked]
  | false => simp [confirmBytes]

theorem completeSuccess_saved (pending : Pending m op) (ordinary : op.Ordinary) (revision : Token)
    (extra : Bool) (plain : ∀ next, m.queued = some next → next.mergeBuffer = none) :
    wp (completeSuccess codec env op revision extra) (fun _ t => FinishedSaved m t op)
      (fun _ _ => False) m := by
  have last : ∀ (filter : Operation → Bool) (same : Bool) (t : Machine),
      t.active = none ∧ t.generation = m.generation →
      wp (dispatchQueued codec env op revision extra same (m.queued.filter filter))
        (fun _ t => FinishedSaved m t op) (fun _ _ => False) t := by
    intro filter same t kept
    refine dispatchQueued_finishes pending kept.1 kept.2 ?_
    intro next queued
    exact plain next (Option.filter_eq_some_iff.mp queued).1
  simp only [completeSuccess, finishOrdinary, wp_bind, wp_fetch, wp_update, ordinary.choice,
    reduceCtorEq, false_and, if_false, wp_whenever]
  refine ⟨fun _ => ?_, fun _ => ?_⟩
  · exact wp_mono (confirmBytes_kept _) (fun _ _ => last _ _ _) fun _ _ => id
  · exact wp_mono (confirmBytes_kept _) (fun _ _ => last _ _ _) fun _ _ => id

/-- The success exit finishes an ordinary save as saved. -/
theorem finishSuccess_finishes (pending : Pending m op) (ordinary : op.Ordinary) (revision : Token)
    (extra : Bool) (plain : ∀ next, m.queued = some next → next.mergeBuffer = none) :
    wp (finishSuccess codec env op revision extra) (fun _ t => FinishedSaved m t op)
      (fun _ _ => False) m := by
  have finishes : ∀ t : Machine, t.live = m.live → t.active = m.active →
      t.generation = m.generation → t.queued = m.queued →
      ((t.live && t.operationCurrent op) = true →
        wp (completeSuccess codec env op revision extra) (fun _ t => FinishedSaved m t op)
          (fun _ _ => False) t) ∧
      ((t.live && t.operationCurrent op) = false → FinishedSaved m t op) := by
    intro t live active generation queued
    have pending' : Pending t op := by
      refine ⟨live.trans pending.live, ?_⟩
      rw [Machine.operationCurrent, active, generation]
      exact pending.current
    refine ⟨fun _ => ?_, fun stale => by simp [pending'.live, pending'.current] at stale⟩
    refine wp_mono (completeSuccess_saved pending' ordinary revision extra (queued ▸ plain)) ?_
      (fun _ _ => id)
    intro _ u finished
    exact ⟨pending.current, finished.past, generation ▸ finished.saved⟩
  simp only [finishSuccess, wp_bind, wp_fetch, wp_cacheIdentitySafely, wp_whenever]
  exact ⟨fun _ => finishes m rfl rfl rfl rfl, fun _ => finishes _ rfl rfl rfl rfl⟩

/-- A path that was reported deleted and cannot be read counts as an empty file. -/
theorem conflictRead_saved {error : Option String} (pending : Pending m op)
    (ordinary : op.Ordinary) (empty : op.bytes = some [])
    (plain : ∀ next, m.queued = some next → next.mergeBuffer = none) :
    wp (conflictRead codec env op (.kind .deleted) (.failed error))
      (fun _ t => FinishedSaved m t op) (fun _ _ => False) m := by
  simp only [conflictRead, wp_bind, wp_fetch, wp_whenever, pending.live, pending.current,
    Bool.or_true, forall_const, reduceCtorEq, false_implies, and_true, if_true]
  have classified : (snapshotConflict op (.kind .deleted)
      RelayConflict.deletedRemote).classification = some (.convergent .missing) := by
    simp [snapshotConflict, ordinary.snapshot, empty, RelayConflict.classify,
      RelayConflict.deletedRemote]
  simp only [settleConflict, classified]
  exact finishSuccess_finishes pending ordinary _ _ plain

variable {files : Files} {rpc : Rpc} {reply : AnyReply} {p : Policy} {reports : List Report}

/-- An ordinary save is for the file it was captured from. -/
theorem ordinary_target (ok : p.OpOk reports op) (ordinary : op.Ordinary) :
    op.target = op.identity ∧ op.saveAs = none := by
  have none_target : op.targetIdentity = none := by
    cases target : op.targetIdentity with
    | none => rfl
    | some id =>
        have choice := ok.target (by simp [target])
        rw [ordinary.choice] at choice
        cases choice
  refine ⟨by simp [Operation.target, none_target], ?_⟩
  have same := ok.saveAs
  rw [none_target] at same
  exact Option.map_eq_none_iff.mp same.symm

/-- A read that brings an operation's own bytes. -/
theorem read_holds {bytes : Bytes} {revision : Token}
    (direct : ∀ id, op.identity = some id → RelayConflict.Direct id)
    (asked : rpc.request = prepareRead op.identity)
    (accepted : rpc.accepts (.inr (.ok bytes revision)) = true)
    (shows : ∀ request, rpc.request = some request →
      Shows files request (.inr (.ok bytes revision)))
    (same : op.bytes = some bytes) : HoldsSaved files op := by
  have sent : rpc.request.isSome = true := by simpa [Rpc.accepts] using accepted
  obtain ⟨request, sent⟩ := Option.isSome_iff_exists.mp sent
  obtain ⟨id, target, identity, directed, read⟩ := prepareRead_some (asked.symm.trans sent)
  have shown := shows request sent
  rw [read] at shown
  have here : files (target.authority, target.path) = some bytes := shown
  rw [RelayConflict.rpcTarget_direct (direct id identity) directed] at here
  exact ⟨id, bytes, identity, same, here⟩

theorem write_holds {revision : Token}
    (direct : ∀ id, op.identity = some id → RelayConflict.Direct id)
    (asked : rpc.request = prepareWrite op.identity op.bytes op.expected none)
    (accepted : rpc.accepts (.inl (.ok revision)) = true)
    (shows : ∀ request, rpc.request = some request → Shows files request (.inl (.ok revision))) :
    HoldsSaved files op := by
  have sent : rpc.request.isSome = true := by simpa [Rpc.accepts] using accepted
  obtain ⟨request, sent⟩ := Option.isSome_iff_exists.mp sent
  obtain ⟨id, target, bytes, identity, same, directed, write⟩ :=
    prepareWrite_some (asked.symm.trans sent)
  have shown := shows request sent
  rw [write] at shown
  have here : files (target.authority, target.path) = some bytes := shown
  rw [RelayConflict.rpcTarget_direct (direct id identity) directed] at here
  exact ⟨id, bytes, identity, same, here⟩

/-- A succeeding reply shows the saved bytes, unless it is the failed read of a deleted path. -/
theorem succeeds_holds (ok : p.RpcOk reports rpc) (ordinary : rpc.callback.operation.Ordinary)
    (direct : ∀ id, rpc.callback.operation.identity = some id → RelayConflict.Direct id)
    (accepted : rpc.accepts reply = true)
    (shows : ∀ request, rpc.request = some request → Shows files request reply)
    (sound : ¬ LostEmpty files rpc.callback reply) (succeeds : Succeeds rpc.callback reply) :
    HoldsSaved files rpc.callback.operation := by
  have target := ordinary_target ok.operation ordinary
  have formed := ok.formed
  unfold Rpc.Formed at formed
  cases callback : rpc.callback with
  | writeDone op =>
      rw [callback] at target formed succeeds direct
      match reply, succeeds with
      | .inl (.ok revision), _ =>
          have asked := formed.2
          rw [show op.saveAs = none from target.2] at asked
          exact write_holds direct asked accepted shows
  | reconcileRead op failure =>
      rw [callback] at target formed succeeds direct
      match reply, succeeds with
      | .inr (.ok bytes revision), same =>
          exact read_holds direct (formed.2.trans (congrArg prepareRead target.1)) accepted shows same
  | conflictRead op reason =>
      rw [callback] at target formed succeeds sound direct
      match reply, succeeds with
      | .inr (.ok bytes revision), same =>
          exact read_holds direct (formed.2.2.trans (congrArg prepareRead target.1)) accepted shows same
      | .inr (.failed error), ⟨deleted, empty⟩ =>
          refine Classical.byContradiction fun absent => sound ?_
          exact ⟨⟨op, by rw [deleted]⟩, ⟨error, rfl⟩, empty, absent⟩
  | inspected op state =>
      rw [callback] at formed succeeds direct
      match reply, succeeds with
      | .inr (.ok bytes revision), same =>
          have bytes_eq := (ok.inspected op state callback).2.1
          exact read_holds direct formed.2.2.2 accepted shows (bytes_eq.trans same)
  | mergeVerified op | mergeWriteDone op | mergeLossRead op | mergeConflictRead op reason =>
      rw [callback] at succeeds
      exact succeeds.elim

/-- When an ordinary save finishes as saved, its file holds its bytes, except for an empty save
of a file that was reported deleted. -/
theorem reply_saved_iff {identity : Identity} {bytes : Bytes} {revision : Token} {index : Nat}
    (reached : Runs codec AnyStep (.opened codec identity bytes revision) m)
    (here : m.rpcs[index]? = some rpc) (pending : Pending m rpc.callback.operation)
    (ordinary : rpc.callback.operation.Ordinary)
    (direct : ∀ id, rpc.callback.operation.identity = some id → RelayConflict.Direct id)
    (shows : ∀ request, rpc.request = some request → Shows files request reply) :
    (FinishedSaved m (step codec m (.reply index reply env)) rpc.callback.operation →
      HoldsSaved files rpc.callback.operation) ↔ ¬ LostEmpty files rpc.callback reply := by
  have stored := (held_any reached).stored
  have ok := stored.rpcs rpc (List.mem_of_getElem? here)
  have steps : rpc.accepts reply = true → step codec m (.reply index reply env) =
      (runCallback codec env rpc.callback reply).after (m.note (rpc.reports reply)) := by
    intro accepted
    simp [step, here, accepted]
  constructor
  · rintro holds ⟨⟨op, callback⟩, ⟨error, rfl⟩, empty, absent⟩
    have accepted : rpc.accepts (.inr (.failed error)) = true := by simp [Rpc.accepts]
    refine absent (holds ?_)
    rw [steps accepted, callback]
    rw [callback] at pending ordinary empty
    have finishes : wp (runCallback codec env (.conflictRead op (.kind .deleted))
        (.inr (.failed error))) (fun _ t => FinishedSaved m t op) (fun _ _ => False)
        (m.note (rpc.reports (.inr (.failed error)))) := by
      simp only [runCallback, wp_rescue]
      refine wp_mono (conflictRead_saved (pending.note _) ordinary empty ?_) ?_ ?_
      · exact fun next queued => (stored.queued next queued).2.plain
      · exact fun _ _ => (finishedSaved_note _).mp
      · exact fun _ _ impossible => impossible.elim
    exact after_of_total finishes
  · intro sound finished
    have accepted : rpc.accepts reply = true := by
      cases refused : rpc.accepts reply with
      | true => rfl
      | false =>
          simp only [step, here, refused, Bool.false_eq_true, if_false] at finished
          exact absurd pending.active finished.past
    refine Classical.byContradiction fun absent => ?_
    have other : ¬ Succeeds rpc.callback reply := fun succeeds =>
      absent (succeeds_holds ok ordinary direct accepted shows sound succeeds)
    have unsaved : wp (runCallback codec env rpc.callback reply)
        (fun _ t => ¬ FinishedSaved m t rpc.callback.operation) (fun _ _ => False)
        (m.note (rpc.reports reply)) := by
      refine wp_mono (runCallback_unsaved (pending.note _) ordinary ok.formed other) ?_ ?_
      · exact fun _ _ unsaved finished => unsaved ((finishedSaved_note _).mpr finished)
      · exact fun _ _ impossible => impossible
    rw [steps accepted] at finished
    exact after_of_total unsaved finished

/-- Files with one key only. -/
def Files.only (key : CacheKey) (bytes : Bytes) : Files := fun other =>
  if other = key then some bytes else none

theorem only_elsewhere {key other : CacheKey} (apart : other ≠ key) (bytes : Bytes) :
    Files.only key bytes other = none := if_neg apart

/-- Requests for a name behind which there is another one on the same authority go to that one. -/
theorem target_elsewhere {id target : Identity} (named : ¬ RelayConflict.Direct id)
    (directed : RelayConflict.rpcTarget id none = some target) :
    (id.authority, id.path) ≠ (target.authority, target.path) := by
  intro same
  obtain ⟨unparsed, _⟩ | ⟨localName, parsed, there⟩ := RelayConflict.rpcTarget_cases directed
  · exact named (RelayConflict.direct_of_unparsed unparsed)
  · rw [← same, Prod.mk.injEq] at there
    have shorter := relayParse_shorter parsed
    rw [← there.2] at shorter
    exact Nat.lt_irrefl _ shorter

/-- Such a name has a target. -/
theorem target_exists {id : Identity} (named : ¬ RelayConflict.Direct id) :
    ∃ target, RelayConflict.rpcTarget id none = some target := by
  cases directed : RelayConflict.rpcTarget id none with
  | some target => exact ⟨target, rfl⟩
  | none =>
      apply absurd _ named
      intro localName parsed
      obtain ⟨authority, other, parsed', apart⟩ := RelayConflict.rpcTarget_none directed
      rw [Option.getD_none, parsed] at parsed'
      cases parsed'
      exact apart rfl

/-- An acknowledged write finishes an ordinary save as saved. -/
theorem reply_acknowledged {identity : Identity} {bytes : Bytes} {revision token : Token}
    {index : Nat} {request : Option Request}
    (reached : Runs codec AnyStep (.opened codec identity bytes revision) m)
    (here : m.rpcs[index]? = some ⟨request, .writeDone op⟩) (sent : request.isSome = true)
    (pending : Pending m op) (ordinary : op.Ordinary) :
    FinishedSaved m (step codec m (.reply index (.inl (.ok token)) env)) op := by
  have stored := (held_any reached).stored
  have accepted : (⟨request, .writeDone op⟩ : Rpc).accepts (.inl (.ok token)) = true := by
    simp [Rpc.accepts, sent]
  simp only [step, here, accepted, if_true]
  have finishes : ∀ reports, wp (runCallback codec env (.writeDone op) (.inl (.ok token)))
      (fun _ t => FinishedSaved m t op) (fun _ _ => False) (m.note reports) := by
    intro reports
    have pending' := pending.note reports
    simp only [runCallback, callbackBody, writeDone, wp_rescue, wp_bind, wp_fetch, wp_whenever,
      pending'.live, pending'.current, Bool.or_true, forall_const, reduceCtorEq, false_implies,
      and_true]
    refine wp_mono (finishSuccess_finishes pending' ordinary token _ ?_) ?_ ?_
    · exact fun next queued => (stored.queued next queued).2.plain
    · exact fun _ _ => (finishedSaved_note _).mp
    · exact fun _ _ impossible => impossible.elim
  exact after_of_total (finishes _)

/-- A synchronous save that ends as saved left its bytes in the visited file, except for an empty
save of a file that was reported deleted. -/
theorem save_saved_iff {replies : RelayConflict.Replies} {id : Identity}
    {moments : RelayConflict.Moments} (visiting : m.fileIdentity = some id)
    (direct : RelayConflict.Direct id)
    (truthful : RelayConflict.Truthful codec replies id moments m) :
    (∀ result t, RelayConflict.save codec env replies m = (.ok result, t) →
        result.status = .saved →
        moments.decisive (RelayConflict.writeReply codec replies id m) (id.authority, id.path) =
          some (m.bytes codec)) ↔
      ¬ RelayConflict.EmptyDeletion codec env replies id moments m := by
  cases directed : RelayConflict.requestTarget m with
  | none =>
      constructor
      · intro _ deleted
        have sent := deleted.1
        rw [directed] at sent
        cases sent
      · intro _ result t runs
        exact absurd runs (RelayConflict.save_unsent directed result t)
  | some target =>
      have there : RelayConflict.rpcTarget id none = some target := by
        rw [RelayConflict.requestTarget, visiting] at directed
        exact directed
      have same := RelayConflict.rpcTarget_direct direct there
      obtain ⟨filename, authority, path⟩ := target
      obtain ⟨rfl, rfl⟩ := Prod.mk.inj same
      constructor
      · intro present deleted
        obtain ⟨result, t, runs, saved⟩ := RelayConflict.save_empty directed deleted
        have holds := present result t runs saved
        obtain ⟨_, empty, refused, _, absent, _⟩ := deleted
        rw [empty] at holds
        cases reply : RelayConflict.writeReply codec replies id m with
        | ok revision => simp [reply, RelayConflict.replyReason] at refused
        | transport error => simp [reply, RelayConflict.replyReason] at refused
        | refused code kind text =>
            rw [reply] at holds
            exact absent holds
      · intro sound result t runs
        have shown := RelayConflict.save_shows directed ⟨truthful.write, truthful.read⟩ sound
        exact post_of_wp shown runs

/-- Where the visited path is itself a Relay name of its authority, an acknowledged save left
nothing there. -/
theorem save_elsewhere {id : Identity} (visiting : m.fileIdentity = some id)
    (named : ¬ RelayConflict.Direct id) (caches : env.fails .cachePut = false) :
    ∃ replies moments target result t, RelayConflict.requestTarget m = some target ∧
      RelayConflict.Truthful codec replies target moments m ∧
      RelayConflict.save codec env replies m = (.ok result, t) ∧ result.status = .saved ∧
      moments.decisive (RelayConflict.writeReply codec replies target m) (id.authority, id.path) =
        none := by
  obtain ⟨target, directed⟩ := target_exists named
  have asked : RelayConflict.requestTarget m = some target := by
    rw [RelayConflict.requestTarget, visiting]
    exact directed
  let files := Files.only (target.authority, target.path) (m.bytes codec)
  let replies : RelayConflict.Replies := ⟨.failed none, fun _ => .ok .missing, .failed none⟩
  have acknowledges : RelayConflict.writeReply codec replies target m = .ok .missing := rfl
  obtain ⟨result, t, runs, saved⟩ := RelayConflict.save_acknowledged asked caches acknowledges
  refine ⟨replies, ⟨files, files⟩, target, result, t, asked, ⟨if_pos rfl, True.intro⟩, runs,
    saved, ?_⟩
  exact only_elsewhere (target_elsewhere named directed) (m.bytes codec)

/-- The same for an acknowledged write of an ordinary operation. -/
theorem reply_elsewhere {identity : Identity} {bytes : Bytes} {revision token : Token}
    {index : Nat} {request : Request}
    (reached : Runs codec AnyStep (.opened codec identity bytes revision) m)
    (here : m.rpcs[index]? = some ⟨some request, .writeDone op⟩) (pending : Pending m op)
    (ordinary : op.Ordinary)
    (named : ∀ id, op.identity = some id → ¬ RelayConflict.Direct id) :
    ∃ files, Shows files request (.inl (.ok token)) ∧
      FinishedSaved m (step codec m (.reply index (.inl (.ok token)) env)) op ∧
      ¬ HoldsSaved files op := by
  have ok := (held_any reached).stored.rpcs _ (List.mem_of_getElem? here)
  have prepared : some request = prepareWrite op.identity op.bytes op.expected op.saveAs :=
    ok.formed.2
  obtain ⟨id, target, content, there, _, directed, write⟩ := prepareWrite_some prepared.symm
  rw [show op.saveAs = none from (ordinary_target ok.operation ordinary).2] at directed
  refine ⟨Files.only (target.authority, target.path) content, ?_,
    reply_acknowledged reached here rfl pending ordinary, ?_⟩
  · rw [write]
    exact if_pos rfl
  · rintro ⟨id', bytes', there', _, holds⟩
    have same : id' = id := Option.some.inj (there'.symm.trans there)
    rw [same, only_elsewhere (target_elsewhere (named id there) directed)] at holds
    cases holds

/-- A save that ends as saved left its bytes in its file, whether it waited for the replies or
not, except for an empty save of a file that was reported deleted. Where the path of the file is
itself a Relay name of the same authority, the bytes go to the file of that name. -/
theorem saved_means_present (codec : Codec) (env : Env) :
    (∀ (replies : RelayConflict.Replies) (id : Identity) (moments : RelayConflict.Moments)
        (m : Machine), m.fileIdentity = some id → RelayConflict.Direct id →
      RelayConflict.Truthful codec replies id moments m →
      ((∀ result t, RelayConflict.save codec env replies m = (.ok result, t) →
          result.status = .saved →
          moments.decisive (RelayConflict.writeReply codec replies id m) (id.authority, id.path) =
            some (m.bytes codec)) ↔
        ¬ RelayConflict.EmptyDeletion codec env replies id moments m)) ∧
    (∀ (identity : Identity) (bytes : Bytes) (revision : Token) (m : Machine) (index : Nat)
        (rpc : Rpc) (reply : AnyReply) (files : Files),
      Runs codec AnyStep (.opened codec identity bytes revision) m →
      m.rpcs[index]? = some rpc → Pending m rpc.callback.operation →
      rpc.callback.operation.Ordinary →
      (∀ id, rpc.callback.operation.identity = some id → RelayConflict.Direct id) →
      (∀ request, rpc.request = some request → Shows files request reply) →
      ((FinishedSaved m (step codec m (.reply index reply env)) rpc.callback.operation →
          HoldsSaved files rpc.callback.operation) ↔ ¬ LostEmpty files rpc.callback reply)) ∧
    (∀ (id : Identity) (m : Machine), m.fileIdentity = some id → ¬ RelayConflict.Direct id →
      env.fails .cachePut = false →
      ∃ replies moments target result t, RelayConflict.requestTarget m = some target ∧
        RelayConflict.Truthful codec replies target moments m ∧
        RelayConflict.save codec env replies m = (.ok result, t) ∧ result.status = .saved ∧
        moments.decisive (RelayConflict.writeReply codec replies target m)
          (id.authority, id.path) = none) ∧
    ∀ (identity : Identity) (bytes : Bytes) (revision token : Token) (m : Machine) (index : Nat)
        (request : Request) (op : Operation),
      Runs codec AnyStep (.opened codec identity bytes revision) m →
      m.rpcs[index]? = some ⟨some request, .writeDone op⟩ → Pending m op → op.Ordinary →
      (∀ id, op.identity = some id → ¬ RelayConflict.Direct id) →
      ∃ files, Shows files request (.inl (.ok token)) ∧
        FinishedSaved m (step codec m (.reply index (.inl (.ok token)) env)) op ∧
        ¬ HoldsSaved files op := by
  refine ⟨?_, ?_, ?_, ?_⟩
  · intro replies id moments m visiting direct truthful
    exact save_saved_iff visiting direct truthful
  · intro identity bytes revision m index rpc reply files reached here pending ordinary direct shows
    exact reply_saved_iff reached here pending ordinary direct shows
  · intro id m visiting named caches
    exact save_elsewhere visiting named caches
  · intro identity bytes revision token m index request op reached here pending ordinary named
    exact reply_elsewhere reached here pending ordinary named

/-- Only "/f" on "h" may exist. -/
def onlyFile (bytes : Option Bytes) : Files := fun key => if key = ("h", "/f") then bytes else none

def onlyIdentity : Identity := ⟨"/relay:h:/f", "h", "/f"⟩

/-- A file "a", edited, and its save on the way. -/
def edited (text : Text) : Machine := runAll asciiCodec visitedFile [.edit (.whole text)]

def underway (text : Text) : Machine :=
  runAll asciiCodec visitedFile [.edit (.whole text), .save {}]

/-- The first save of that file. -/
def firstSave (bytes : Bytes) : Operation :=
  { identity := some onlyIdentity
    bytes := some bytes
    base := some ⟨some [97], sampleToken 1, .utf8⟩
    expected := some (sampleToken 1)
    generation := some 1 }

/-- Every write is acknowledged. -/
def acknowledging : RelayConflict.Replies :=
  ⟨.failed none, fun _ => .ok (sampleToken 2), .failed none⟩

theorem onlyIdentity_direct : RelayConflict.Direct onlyIdentity :=
  RelayConflict.direct_of_unparsed (by decide)

/-- A visit to the file "/relay:h:/f" of "h". -/
def nested : Machine := .opened asciiCodec ⟨"/relay:h:/relay:h:/f", "h", "/relay:h:/f"⟩ [97]
  (sampleToken 1)

theorem saved_means_present_acknowledged :
    (∃ result t, RelayConflict.save asciiCodec {} acknowledging (edited ['b']) = (.ok result, t) ∧
      result.status = .saved ∧ onlyFile (some [98]) ("h", "/f") =
        some ((edited ['b']).bytes asciiCodec)) ∧
    HoldsSaved (onlyFile (some [98])) (firstSave [98]) ∧
    ∃ replies result t, RelayConflict.save asciiCodec {} replies nested = (.ok result, t) ∧
      result.status = .saved := by
  obtain ⟨sync, async, elsewhere, _⟩ := saved_means_present asciiCodec {}
  have saved : (RelayConflict.save asciiCodec {} acknowledging (edited ['b'])).1 =
      .ok { status := .saved, revision := some (sampleToken 2) } := rfl
  refine ⟨⟨_, _, Prod.ext saved rfl, rfl, ?_⟩, ?_, ?_⟩
  · have truthful : RelayConflict.Truthful asciiCodec acknowledging onlyIdentity
        ⟨onlyFile (some [98]), onlyFile none⟩ (edited ['b']) := ⟨rfl, True.intro⟩
    refine (sync _ _ _ _ (by decide) onlyIdentity_direct truthful).mpr ?_ _ _ (Prod.ext saved rfl)
      rfl
    exact fun deleted => absurd deleted.2.1 (by decide)
  · refine (async onlyIdentity [97] (sampleToken 1) (underway ['b']) 0
      ⟨some (.write "h" "/f" [98] (some (sampleToken 1))), .writeDone (firstSave [98])⟩
      (.inl (.ok (sampleToken 2))) (onlyFile (some [98])) (runs_any _ _ _) (by decide)
      ⟨by decide, by decide⟩ ⟨rfl, rfl, rfl⟩ ?_ ?_).mpr ?_ ⟨by decide, by decide, .inl (by decide)⟩
    · rintro _ ⟨⟩
      exact onlyIdentity_direct
    · rintro _ ⟨⟩
      rfl
    · rintro ⟨⟨op, other⟩, _⟩
      cases other
  · have named : ¬ RelayConflict.Direct ⟨"/relay:h:/relay:h:/f", "h", "/relay:h:/f"⟩ :=
      fun direct => direct "/f" (by decide)
    obtain ⟨replies, _, _, result, t, _, _, runs, saved, _⟩ :=
      elsewhere _ nested (by decide) named rfl
    exact ⟨replies, result, t, runs, saved⟩

/-- An empty save is refused because the file is gone, which then cannot be read. -/
def emptied : Machine :=
  runAll asciiCodec visitedFile
    [.edit (.whole []), .save {}, .reply 0 (.inl (.refused (some .conflict) (some .deleted) none)) {}]

/-- It ends as saved although the file does not exist. -/
theorem deleted_file_saved :
    (¬ ∀ (replies : RelayConflict.Replies) (moments : RelayConflict.Moments) (m : Machine),
      m.fileIdentity = some onlyIdentity →
      RelayConflict.Truthful asciiCodec replies onlyIdentity moments m →
      ∀ result t, RelayConflict.save asciiCodec {} replies m = (.ok result, t) →
        result.status = .saved →
        moments.decisive (RelayConflict.writeReply asciiCodec replies onlyIdentity m) ("h", "/f") =
          some (m.bytes asciiCodec)) ∧
    ¬ ∀ (m : Machine) (index : Nat) (rpc : Rpc) (reply : AnyReply) (files : Files),
      Runs asciiCodec AnyStep visitedFile m → m.rpcs[index]? = some rpc →
      Pending m rpc.callback.operation → rpc.callback.operation.Ordinary →
      (∀ request, rpc.request = some request → Shows files request reply) →
      FinishedSaved m (step asciiCodec m (.reply index reply {})) rpc.callback.operation →
      HoldsSaved files rpc.callback.operation := by
  refine ⟨?_, ?_⟩
  · intro present
    let replies : RelayConflict.Replies :=
      ⟨.failed none, fun _ => .refused (some .conflict) (some .deleted) none, .failed none⟩
    have holds := present replies ⟨onlyFile none, onlyFile none⟩ (edited []) (by decide)
      ⟨rfl, True.intro⟩ ⟨.saved, none, some .missing, none, none, none⟩ _ rfl rfl
    exact absurd holds (by decide)
  · intro present
    have holds := present emptied 1 ⟨some (.read "h" "/f"),
      .conflictRead (firstSave []) (.kind .deleted)⟩ (.inr (.failed none)) (onlyFile none)
      (runs_any _ _ _) (by decide) ⟨by decide, by decide⟩ ⟨rfl, rfl, rfl⟩
      (fun _ asked => by cases asked; exact True.intro)
      ⟨by decide, by decide, .inl (by decide)⟩
    obtain ⟨id, bytes, identity, _, here⟩ := holds
    cases identity
    exact absurd here (by simp [onlyFile])

end EmacsRelay

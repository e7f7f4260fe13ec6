import EmacsRelay.Client.HeldRun

set_option autoImplicit false

/- Properties of the text, the snapshots and the status that survive every step. The moves the
save functions are made of are named once; a property that survives each of them survives
every callback and command. -/
namespace EmacsRelay

open Routine Editor RelaySave

/-- The part of the machine that the moves act on. -/
structure Desk where
  live : Bool
  fileName : Option String
  buffer : Buffer
  base : Option Base
  state : Option ConflictState
  active : Option Operation
  queued : Option Operation
  generation : Nat
  status : Option Status
  recovery : List Text
  erasures : List Erasure
  cleaned : Option Cleaning
  unsettled : Option Operation

def Machine.desk (m : Machine) : Desk :=
  { live := m.live, fileName := m.fileName, buffer := m.buffer, base := m.base, state := m.state
    active := m.active, queued := m.queued, generation := m.generation, status := m.status
    recovery := m.recovery, erasures := m.history.erasures, cleaned := m.history.cleaned
    unsettled := m.history.unsettled }

namespace Machine

/-- An operation ends without success; a nil conflict leaves the state as it was. -/
def nonsuccess (m : Machine) (status : Status) (result : SaveResult)
    (conflict : Option ConflictState) : Machine :=
  ((if conflict.isSome then m.clearOperations.setState conflict
    else m.clearOperations).markModified).setStatus status (some result)

/-- BASE is recorded and the conflict forgotten. -/
def record (m : Machine) (bytes : Option Bytes) (revision : Token) (coding : Coding) : Machine :=
  (m.recordBase bytes revision coding).setState none

/-- The live text is replaced by decoded bytes. -/
def install (codec : Codec) (m : Machine) (installer : Installer) (recovery : Option Nat)
    (bytes : Bytes) : Machine :=
  (m.erase installer recovery (some bytes)).edit (.whole (codec.decode bytes))

end Machine

/-- LOCAL of the snapshot an operation resolves is in its recovery buffer. -/
def Operation.LocalKept (codec : Codec) (op : Operation) (recovery : List Text) : Prop :=
  ∃ index bytes, op.localRecovery = some index ∧
    op.snapshot.bind (·.localBytes) = some bytes ∧ recovery[index]? = some (codec.decode bytes)

theorem Operation.Ordinary.kept {codec : Codec} {op : Operation} (ordinary : op.Ordinary)
    (recovery : List Text) (restore : op.choice = some .restoreBase) :
    op.LocalKept codec recovery := by
  rw [ordinary.choice] at restore
  cases restore

/-- Something the handlers of an operation do may signal. -/
def Operation.Troubled (op : Operation) (env : Env) : Prop :=
  (∃ site, env.fails site = true) ∨ op.bytes = none

/-- A property that survives the moves. `completing` is known where a success is handled,
`adopting` where REMOTE is adopted, `losing` where an operation ends unknown and the state is
left as it was, `doubting` where a merge ends unknown. -/
structure Discipline (codec : Codec) (env : Env) where
  inv : Desk → Prop
  completing : Desk → Prop
  adopting : ConflictState → Desk → Prop
  losing : Operation → Desk → Prop
  doubting : Operation → Desk → Prop
  edits : ∀ {m : Machine} (b : Buffer), inv m.desk → inv (m.edit b).desk
  dirties : ∀ {m : Machine}, inv m.desk → inv m.markModified.desk
  keeps : ∀ {m : Machine} (text : Text), inv m.desk → inv (m.addRecovery text).desk
  queues : ∀ {m : Machine} {queued : Option Operation}, inv m.desk → m.active.isSome = true →
    (∀ op, queued = some op → op.Ordinary) → inv (m.setQueued queued).desk
  starts : ∀ {m : Machine} {op : Operation}, inv m.desk →
    (op.choice = some .restoreBase → op.LocalKept codec m.recovery) →
    inv (((m.activate op).setStatus .saving none).markModified).desk
  inspects : ∀ {m : Machine}, inv m.desk → m.status = some .unknown →
    inv ((m.activateInspection
      ((inspection m.fileIdentity m.state).number (m.generation + 1))).setStatus .saving none).desk
  sends : ∀ {m : Machine} {rpc : Rpc}, inv m.desk → m.active = some rpc.callback.operation →
    (rpc.request.isSome = true → rpc.callback.operation.bytes.isSome = true) →
    inv (m.issueWrite rpc).desk
  fails : ∀ {m : Machine} {op : Operation} {status : Status} (result : SaveResult)
    (conflict : Option ConflictState), inv m.desk → m.active = some op → status ≠ .unknown →
    inv (m.nonsuccess status result conflict).desk
  retains : ∀ {m : Machine} {op : Operation} (result : SaveResult) {st : ConflictState},
    inv m.desk → m.active = some op → st.base = op.base → st.localBytes = op.bytes →
    inv (m.nonsuccess .unknown result (some st)).desk
  loses : ∀ {m : Machine} {op : Operation} (result : SaveResult), inv m.desk →
    m.active = some op → losing op m.desk → inv (m.nonsuccess .unknown result none).desk
  hollow : ∀ {m : Machine} {op : Operation}, inv m.desk → m.active = some op →
    op.bytes = none → losing op m.desk
  begins : ∀ (m : Machine) (op : Operation),
    doubting op (((m.activate op).setStatus .saving none).markModified).desk
  refuses : ∀ {m : Machine} {op : Operation} {status : MergeStatus} (text : Text)
    (result : SaveResult) {st : ConflictState}, inv m.desk → op.generation = none ∨ m.active = some op →
    (status = .uncertain → doubting op m.desk) → st.base = op.snapshot.bind (·.base) →
    st.localBytes = some (m.bytes codec) →
    inv (((((m.addRecovery text).setState (some st)).clearOperations).markModified).setStatus
      status.status (some result)).desk
  clears : ∀ {m : Machine} {op : Operation}, inv m.desk → m.active = some op →
    inv m.clearOperations.desk
  completes : ∀ {m : Machine}, completing m.desk → completing m.clearOperations.desk
  displays : ∀ {m : Machine} {status : Status} (result : Option SaveResult), inv m.desk →
    m.active = none → status ≠ .unknown → status ≠ .saving → inv (m.setStatus status result).desk
  recordsDirty : ∀ {m : Machine} (bytes : Option Bytes) (revision : Token) (coding : Coding),
    inv m.desk → m.active = none → completing m.desk →
    inv ((m.record bytes revision coding).markModified).desk
  recordsClean : ∀ {m : Machine} {op : Operation} (revision : Token) (coding : Coding),
    inv m.desk → m.active = none → completing m.desk → m.liveIdentityEqual op.identity = true →
    some (m.bytes codec) = op.bytes →
    inv ((m.record op.bytes revision coding).markClean op.identity).desk
  restores : ∀ {m : Machine} {op : Operation}, inv m.desk → m.active = some op →
    op.choice = some .restoreBase → completing m.desk →
    some (m.bytes codec) = op.snapshot.bind (·.localBytes) →
    inv (m.clearOperations.erase .restoreBase op.localRecovery op.bytes).desk
  restored : ∀ {m : Machine} {op : Operation} {bytes : Bytes} (revision : Token)
    (coding : Coding), inv m.desk → m.active = some op → op.choice = some .restoreBase →
    completing m.desk → m.liveIdentityEqual op.identity = true →
    some (m.bytes codec) = op.snapshot.bind (·.localBytes) → op.bytes = some bytes →
    inv (((m.clearOperations.install codec .restoreBase op.localRecovery bytes).record op.bytes
      revision coding).markClean op.identity).desk
  recordsOnly : ∀ {m : Machine} (bytes : Option Bytes) (revision : Token) (coding : Coding),
    inv m.desk → m.active = none → completing m.desk → env.fails .erase = true →
    inv (m.record bytes revision coding).desk
  merges : ∀ {m : Machine} (bytes : Option Bytes) (revision : Token) (coding : Coding),
    inv m.desk → m.active = none → completing m.desk →
    inv ((m.record bytes revision coding).erase .merge none bytes).desk
  merged : ∀ {m : Machine} {op : Operation} {bytes : Bytes} (revision : Token) (coding : Coding),
    inv m.desk → m.active = none → completing m.desk → m.liveIdentityEqual op.identity = true →
    op.bytes = some bytes →
    inv (((m.record op.bytes revision coding).install codec .merge none bytes).markClean
      op.identity).desk
  adopts : ∀ {m : Machine} {st : ConflictState} {bytes : Bytes}, inv m.desk →
    m.state = some st → adopting st m.desk → st.localBytes = some bytes →
    inv ((m.addRecovery (codec.decode bytes)).erase .keepRemote (some m.recovery.length)
      (some (adoptedRemote st.remote).1)).desk
  adopted : ∀ {m : Machine} {st : ConflictState} {bytes : Bytes} (result : Option SaveResult),
    inv m.desk → m.active = none → m.state = some st → adopting st m.desk →
    st.localBytes = some bytes →
    inv (((((m.addRecovery (codec.decode bytes)).install codec .keepRemote
      (some m.recovery.length) (adoptedRemote st.remote).1).record
      (some (adoptedRemote st.remote).1) (adoptedRemote st.remote).2 .utf8).markClean
      st.owner).setStatus .saved result).desk

  narrows : ∀ {m : Machine} {b : Buffer}, inv m.desk → b.full = m.buffer.full →
    inv { m with buffer := b }.desk
  renames : ∀ {m : Machine} (fileName : Option String), inv m.desk →
    inv { m with fileName := fileName }.desk
  reloads : ∀ {m : Machine} (bytes : Bytes) (revision : Token), inv m.desk →
    inv (m.reload codec bytes revision).desk
  expires : ∀ {m : Machine}, inv m.desk → m.status = some .saved →
    inv { m with status := none }.desk
  dies : ∀ {m : Machine}, inv m.desk → inv { m with live := false }.desk
  abandons : ∀ {m : Machine} (state : Option ConflictState), inv m.desk → m.state = none →
    inv (m.setState state).desk

section Desk

variable (m : Machine)

@[simp] theorem desk_issue (rpc : Rpc) : (m.issue rpc).desk = m.desk := rfl

@[simp] theorem desk_cachePut (identity : Option Identity) (bytes : Option Bytes)
    (revision : Token) : (m.cachePut identity bytes revision).desk = m.desk := rfl

@[simp] theorem desk_setMerges (merges : List MergeBuffer) : (m.setMerges merges).desk = m.desk :=
  rfl

@[simp] theorem desk_note (reports : List Report) : (m.note reports).desk = m.desk := rfl

end Desk

namespace Discipline

variable {codec : Codec} {env : Env} (d : Discipline codec env) {m : Machine} {op : Operation}

/-- `body` keeps the property, whether it returns or signals. -/
abbrev Obeys {α : Type} (body : Lisp α) (m : Machine) : Prop :=
  wp body (fun _ t => d.inv t.desk) (fun _ t => d.inv t.desk) m

/-- As `Obeys`, where an error that leaves `op` active has changed nothing and comes from the
surroundings `env'`. -/
abbrev Guards (env' : Env) (op : Operation) (body : Lisp Unit) (m : Machine) : Prop :=
  wp body (fun _ t => d.inv t.desk)
    (fun _ t => d.inv t.desk ∧ (t.active = some op → t.desk = m.desk ∧ op.Troubled env')) m

theorem hooks (inv : d.inv m.desk) (edited : Option Buffer) : d.inv (m.hooked edited).desk := by
  cases edited with
  | none => exact inv
  | some b => exact d.edits b inv

theorem finishNonsuccess_wp (status : Status) (result : SaveResult)
    (conflict : Option ConflictState) (failed : LispError → Machine → Prop)
    (inv : d.inv m.desk)
    (ended : m.active = some op → d.inv (m.nonsuccess status result conflict).desk) :
    wp (finishNonsuccess op status result conflict) (fun _ t => d.inv t.desk) failed m := by
  simp only [finishNonsuccess, wp_bind, wp_fetch, wp_whenever, wp_update]
  refine ⟨fun current => ?_, fun _ => inv⟩
  have move := ended (current_active current)
  unfold Machine.nonsuccess at move
  refine ⟨fun present => ?_, fun absent => ?_⟩
  · rwa [if_pos present] at move
  · rwa [if_neg (by simp [absent])] at move

theorem mergeRefusal_wp (inv : d.inv m.desk) {status : MergeStatus} (reason : Reason)
    (remote : Option Remote)
    (doubt : status = .uncertain → op.generation = none ∨ m.active = some op →
      d.doubting op m.desk) (env' : Env) :
    d.Guards env' op (mergeRefusal codec env' op status reason remote) m := by
  simp only [mergeRefusal, wp_bind, wp_fetch, wp_whenever, wp_update]
  refine ⟨fun permitted => ?_, fun _ => inv⟩
  have current : op.generation = none ∨ m.active = some op := by
    simp only [Bool.and_eq_true, Bool.or_eq_true, Option.isNone_iff_eq_none] at permitted
    refine permitted.2.imp id fun current => ?_
    exact current_active (by rw [permitted.1, current]; rfl)
  unfold conflictMergeRefusal
  cases captured : op.bytes with
  | none => simp [inv, Operation.Troubled, captured]
  | some bytes =>
      simp only [wp_bind, wp_recoveryBuffer, wp_fetch, wp_update, wp_pure, desk_setMerges]
      refine ⟨fun fails => ⟨inv, fun _ => ⟨trivial, .inl ⟨_, fails⟩⟩⟩, fun _ => ?_⟩
      exact d.refuses _ _ inv current (fun uncertain => doubt uncertain current) rfl rfl

theorem callbackError_wp (inv : d.inv m.desk)
    (doubt : op.mergeBuffer.isSome = true → op.generation = none ∨ m.active = some op →
      d.doubting op m.desk) (error : LispError) :
    wp (callbackError codec env op error) (fun _ t => d.inv t.desk)
      (fun _ t => d.inv t.desk ∧ op.mergeBuffer.isSome = true) m := by
  unfold callbackError
  split
  · rename_i merge
    exact wp_mono (d.mergeRefusal_wp inv _ _ (fun _ => doubt merge) _) (fun _ _ done => done)
      fun _ _ failed => ⟨failed.1, merge⟩
  · refine d.finishNonsuccess_wp _ _ _ _ inv fun active => ?_
    exact d.retains _ inv active rfl rfl

theorem fetchAsync_wp (inv : d.inv m.desk) (identity : Option Identity) (callback : Callback) :
    d.Guards env op (fetchAsync env identity callback) m := by
  simp only [fetchAsync, wp_bind, wp_mayFail, wp_update, desk_issue]
  exact ⟨fun fails => ⟨inv, fun _ => ⟨trivial, .inl ⟨_, fails⟩⟩⟩, fun _ => inv⟩

/-- Dispatching handles its own errors. -/
theorem dispatch_wp (inv : d.inv m.desk) (plain : op.mergeBuffer = none)
    (kept : op.choice = some .restoreBase → op.LocalKept codec m.recovery)
    (failed : LispError → Machine → Prop) :
    wp (dispatch codec env op) (fun _ t => d.inv t.desk) failed m := by
  have started : d.inv (((m.activate (op.number (m.generation + 1))).setStatus .saving
      none).markModified).desk := d.starts inv kept
  have unmerged : ¬ (op.number (m.generation + 1)).mergeBuffer.isSome = true := by simp [plain]
  simp only [dispatch, writeSnapshotAsync, wp_bind, wp_fetch, wp_update, wp_rescue, wp_mayFail]
  refine ⟨fun _ => ?_, fun _ => d.sends started rfl fun sent => ?_⟩
  · exact wp_mono (d.callbackError_wp started (fun merge => absurd merge unmerged) _)
      (fun _ _ done => done) fun _ _ failed => absurd failed.2 unmerged
  · exact Option.isSome_iff_exists.mpr (prepareWrite_bytes sent)

theorem queueOrDispatch_wp (inv : d.inv m.desk) (ordinary : op.Ordinary) :
    d.Obeys (queueOrDispatch codec env op) m := by
  simp only [queueOrDispatch, wp_bind, wp_fetch, wp_ite, wp_update, wp_pure]
  refine ⟨fun busy => ⟨fun _ => d.queues inv busy (by simp),
    fun _ => ⟨fun _ => inv, fun _ => d.queues inv busy ?_⟩⟩, fun _ => ?_⟩
  · rintro _ ⟨⟩
    exact ordinary
  · exact d.dispatch_wp inv ordinary.plain (ordinary.kept _) _

section Success

variable (failed : LispError → Machine → Prop)

theorem dispatchQueued_wp (inv : d.inv m.desk) (idle : m.active = none) (revision : Token)
    (statusExtra sameBytes : Bool) {queued : Option Operation}
    (next : ∀ q, queued = some q → q.Ordinary) :
    wp (dispatchQueued codec env op revision statusExtra sameBytes queued)
      (fun _ t => d.inv t.desk) failed m := by
  cases queued with
  | none =>
      refine d.displays _ inv idle ?_ ?_
      · split <;> simp
      · split <;> simp
  | some q =>
      have ordinary := (next q rfl).rebase ⟨op.bytes, revision, codingOf op.base⟩
      simp only [dispatchQueued, wp_bind, wp_update]
      exact d.dispatch_wp (d.dirties inv) ordinary.plain (ordinary.kept _) failed

/-- After the hook the bit stays clear only when the bytes are still the saved ones. -/
theorem confirmBytes_wp (sameBytes : Bool)
    (clean : sameBytes = true → d.inv (m.markClean op.identity).desk)
    (dirty : sameBytes = false → d.inv m.markModified.desk) (idle : m.active = none) :
    wp (confirmBytes codec env op sameBytes)
      (fun _ t => d.inv t.desk ∧ t.active = none) (fun _ _ => False) m := by
  cases sameBytes with
  | false => simp [confirmBytes, dirty rfl, idle]
  | true =>
      have hooked := d.hooks (clean rfl) env.afterSave
      have still : ((m.markClean op.identity).hooked env.afterSave).active = none :=
        (congrArg Core.active (core_hooked _ _)).trans idle
      have marked := d.dirties hooked
      simp only [confirmBytes, wp_bind, wp_update, wp_runAfterSaveHook, wp_fetch, wp_ite, wp_pure,
        if_true]
      exact ⟨fun _ => ⟨hooked, still⟩, fun _ => ⟨marked, still⟩⟩

theorem finishOrdinary_wp (inv : d.inv m.desk) (idle : m.active = none) (revision : Token)
    (statusExtra : Bool) (completing : d.completing m.desk) {queued : Option Operation}
    (next : ∀ q, queued = some q → q.Ordinary) :
    wp (finishOrdinary codec env op revision statusExtra (m.liveIdentityEqual op.identity)
      (m.liveIdentityEqual op.identity && some (m.bytes codec) == op.bytes) queued)
      (fun _ t => d.inv t.desk) failed m := by
  have chosen : ∀ q, (queued.filter fun next =>
      m.liveIdentityEqual op.identity && identityEqual op.identity next.identity) = some q →
      q.Ordinary :=
    fun q found => next q (Option.eq_some_of_filter_eq_some found)
  have continues : ∀ t sameBytes, t.active = none →
      (sameBytes = true → d.inv (t.markClean op.identity).desk) →
      (sameBytes = false → d.inv t.markModified.desk) →
      wp (confirmBytes codec env op sameBytes)
        (fun sameBytes => wp (dispatchQueued codec env op revision statusExtra sameBytes
          (queued.filter fun next =>
            m.liveIdentityEqual op.identity && identityEqual op.identity next.identity))
          (fun _ t => d.inv t.desk) failed) failed t := by
    intro t sameBytes ended clean dirty
    refine wp_mono (d.confirmBytes_wp sameBytes clean dirty ended) ?_ fun _ _ => False.elim
    intro sameBytes u settled
    exact d.dispatchQueued_wp failed settled.1 settled.2 revision statusExtra sameBytes chosen
  simp only [finishOrdinary, wp_bind, wp_whenever, wp_update]
  refine ⟨fun same => continues _ _ idle ?_ fun _ => d.recordsDirty _ _ _ inv idle completing,
    fun other => continues _ _ idle ?_ fun _ => d.dirties inv⟩
  · intro sameBytes
    rw [same, Bool.true_and, beq_iff_eq] at sameBytes
    exact d.recordsClean revision _ inv idle completing same sameBytes
  · intro sameBytes
    rw [other] at sameBytes
    cases sameBytes

end Success

theorem hooked_active (edited : Option Buffer) : (m.hooked edited).active = m.active :=
  congrArg Core.active (core_hooked m edited)

theorem finishRestoreBase_wp (inv : d.inv m.desk) (active : m.active = some op)
    (choice : op.choice = some .restoreBase) (completing : d.completing m.desk)
    (same : m.liveIdentityEqual op.identity = true)
    (untouched : some (m.bytes codec) = op.snapshot.bind (·.localBytes)) (revision : Token) :
    wp (finishRestoreBase codec env op revision) (fun _ t => d.inv t.desk)
      (fun _ t => d.inv t.desk ∧ t.active = none) m.clearOperations := by
  have cleared := d.clears inv active
  have torn := d.restores inv active choice completing untouched
  simp only [finishRestoreBase, wp_bind, wp_update, wp_runAfterSaveHook, wp_fetch]
  cases captured : op.bytes with
  | none =>
      rw [captured] at torn
      simp [cleared, torn]
  | some bytes =>
      have installed := d.restored revision (codingOf op.base) inv active choice completing same
        untouched captured
      rw [captured] at torn installed
      rw [wp_eraseAndInsert]
      refine ⟨fun _ => ⟨cleared, rfl⟩, fun _ => ⟨fun _ => ⟨torn, rfl⟩, fun _ => ?_⟩⟩
      refine d.displays _ (d.hooks installed _) (hooked_active _) ?_ ?_
      · split <;> simp
      · split <;> simp

theorem completeSuccess_wp (inv : d.inv m.desk) (active : m.active = some op)
    (completing : d.completing m.desk) (next : ∀ q, m.queued = some q → q.Ordinary)
    (revision : Token) (statusExtra : Bool) :
    wp (completeSuccess codec env op revision statusExtra) (fun _ t => d.inv t.desk)
      (fun _ t => d.inv t.desk ∧ t.active = none) m := by
  have cleared := d.clears inv active
  simp only [completeSuccess, wp_bind, wp_fetch, wp_update, wp_ite]
  refine ⟨fun _ => d.displays _ (d.dirties cleared) rfl (by simp) (by simp), fun _ =>
    ⟨fun restore => ?_, fun _ => ?_⟩⟩
  · exact d.finishRestoreBase_wp inv active restore.1 completing restore.2.1 restore.2.2 revision
  · exact d.finishOrdinary_wp _ cleared rfl revision statusExtra (d.completes completing) next

theorem guards_of_ended {t : Machine} (ended : d.inv t.desk ∧ t.active = none) :
    d.inv t.desk ∧ (t.active = some op → t.desk = m.desk ∧ op.Troubled env) := by
  refine ⟨ended.1, fun active => ?_⟩
  rw [ended.2] at active
  cases active

theorem finishSuccess_wp (inv : d.inv m.desk) (revision : Token) (statusExtra : Bool)
    (completing : m.active = some op → d.completing m.desk)
    (next : ∀ q, m.queued = some q → q.Ordinary) :
    d.Guards env op (finishSuccess codec env op revision statusExtra) m := by
  -- filling the cache leaves the desk alone
  have proceeds : ∀ t : Machine, t.desk = m.desk → (t.live && t.operationCurrent op) = true →
      wp (completeSuccess codec env op revision statusExtra) (fun _ t => d.inv t.desk)
        (fun _ t => d.inv t.desk ∧ (t.active = some op → t.desk = m.desk ∧ op.Troubled env)) t := by
    intro t same current
    have active : t.active = some op := current_active current
    have there : m.active = some op := (congrArg Desk.active same).symm.trans active
    refine wp_mono (d.completeSuccess_wp (same ▸ inv) active (same ▸ completing there) ?_ revision
      statusExtra) (fun _ _ done => done) fun _ _ ended => d.guards_of_ended ended
    exact fun q queued => next q ((congrArg Desk.queued same).symm.trans queued)
  simp only [finishSuccess, wp_bind, wp_cacheIdentitySafely, wp_fetch, wp_whenever]
  exact ⟨fun _ => ⟨proceeds m rfl, fun _ => inv⟩, fun _ => ⟨proceeds _ rfl, fun _ => inv⟩⟩

theorem installMerge_wp (inv : d.inv m.desk) (idle : m.active = none)
    (completing : d.completing m.desk) (same : m.liveIdentityEqual op.identity = true)
    (revision : Token) :
    wp (installMerge codec env op revision) (fun _ t => d.inv t.desk)
      (fun _ t => d.inv t.desk ∧ t.active = none) (m.record op.bytes revision .utf8) := by
  have torn := d.merges op.bytes revision .utf8 inv idle completing
  simp only [installMerge, wp_bind, wp_update, wp_runAfterSaveHook, wp_fetch, wp_whenever]
  cases captured : op.bytes with
  | none =>
      rw [captured] at torn
      simp only [wp_eraseAndInsert_none]
      exact ⟨fun fails => ⟨d.recordsOnly _ _ _ inv idle completing fails, idle⟩,
        fun _ => ⟨torn, idle⟩⟩
  | some bytes =>
      have installed := d.merged revision .utf8 inv idle completing same captured
      rw [captured] at torn installed
      rw [wp_eraseAndInsert]
      refine ⟨fun fails => ⟨d.recordsOnly _ _ _ inv idle completing fails, idle⟩,
        fun _ => ⟨fun _ => ⟨torn, idle⟩, fun _ => ?_⟩⟩
      have hooked := d.hooks installed env.afterSave
      refine ⟨fun _ => d.displays _ (d.dirties hooked) ((hooked_active _).trans idle) ?_ ?_,
        fun _ => d.displays _ hooked ((hooked_active _).trans idle) ?_ ?_⟩
      all_goals split <;> simp

theorem finishMerge_wp (inv : d.inv m.desk) (active : m.active = some op)
    (completing : d.completing m.desk) (revision : Token) :
    wp (finishMerge codec env op revision (m.liveIdentityEqual op.identity)
        (m.liveIdentityEqual op.identity &&
          some (m.bytes codec) == op.snapshot.bind (·.localBytes)))
      (fun _ t => d.inv t.desk) (fun _ t => d.inv t.desk ∧ t.active = none) m := by
  have cleared := d.clears inv active
  have shown : (.savedNewer : Status) ≠ .unknown ∧ (.savedNewer : Status) ≠ .saving := by simp
  simp only [finishMerge, wp_bind, wp_update, wp_whenever, wp_ite]
  refine ⟨fun same => ⟨fun _ => d.installMerge_wp cleared rfl (d.completes completing) same
    revision, fun _ => ?_⟩, fun other => ⟨fun installable => ?_, fun _ => ?_⟩⟩
  · exact d.displays _ (d.recordsDirty _ _ _ cleared rfl (d.completes completing)) rfl shown.1 shown.2
  · rw [other] at installable
    cases installable
  · exact d.displays _ (d.dirties cleared) rfl shown.1 shown.2

theorem mergeSuccess_wp (inv : d.inv m.desk)
    (completing : m.active = some op → d.completing m.desk) (revision : Token) :
    d.Guards env op (mergeSuccess codec env op revision) m := by
  have proceeds : ∀ t : Machine, t.desk = m.desk →
      ((t.live && t.operationCurrent op) = true →
        wp (finishMerge codec env op revision (t.liveIdentityEqual op.identity)
            (t.liveIdentityEqual op.identity &&
              some (t.bytes codec) == op.snapshot.bind (·.localBytes)))
          (fun _ t => d.inv t.desk)
          (fun _ t => d.inv t.desk ∧ (t.active = some op → t.desk = m.desk ∧ op.Troubled env))
          t) ∧
      ((t.live && t.operationCurrent op) = false → d.inv t.desk) := by
    intro t same
    refine ⟨fun current => ?_, fun _ => same ▸ inv⟩
    have active := current_active current
    have there : m.active = some op := (congrArg Desk.active same).symm.trans active
    exact wp_mono (d.finishMerge_wp (same ▸ inv) active (same ▸ completing there) revision)
      (fun _ _ done => done) fun _ _ ended => d.guards_of_ended ended
  simp only [mergeSuccess, wp_bind, wp_cacheIdentitySafely, wp_fetch, wp_whenever, wp_update,
    desk_setMerges]
  exact ⟨fun _ => proceeds m rfl, fun _ => proceeds _ rfl⟩

section Callbacks

variable (inv : d.inv m.desk) (completing : m.active = some op → d.completing m.desk)
  (next : ∀ q, m.queued = some q → q.Ordinary)

include inv completing next

theorem settleConflict_wp (reason : Reason) (remote : Remote) :
    d.Guards env op (settleConflict codec env op reason remote) m := by
  dsimp only [settleConflict]
  split
  · exact d.finishSuccess_wp inv _ _ completing next
  · refine d.finishNonsuccess_wp _ _ _ _ inv fun active => ?_
    exact d.fails _ _ inv active (by simp)

theorem reconcileRead_wp (failure : Option String) {reply : ReadReply}
    (lost : ∀ error, reply = .failed error → m.active = some op → d.losing op m.desk) :
    d.Guards env op (reconcileRead codec env op failure reply) m := by
  simp only [reconcileRead, wp_bind, wp_fetch, wp_whenever]
  refine ⟨fun _ => ?_, fun _ => inv⟩
  cases reply with
  | failed error =>
      refine d.finishNonsuccess_wp _ _ _ _ inv fun active => ?_
      exact d.loses _ inv active (lost error rfl active)
  | ok bytes revision =>
      dsimp only
      split
      · exact d.finishSuccess_wp inv _ _ completing next
      · refine d.finishNonsuccess_wp _ _ _ _ inv fun active => ?_
        exact d.retains _ inv active rfl rfl
      · refine d.finishNonsuccess_wp _ _ _ _ inv fun active => ?_
        exact d.fails _ _ inv active (by simp)

theorem conflictRead_wp (reason : Reason) (reply : ReadReply) :
    d.Guards env op (conflictRead codec env op reason reply) m := by
  simp only [conflictRead, wp_bind, wp_fetch, wp_whenever]
  refine ⟨fun _ => ?_, fun _ => inv⟩
  cases reply with
  | ok bytes revision => exact d.settleConflict_wp inv completing next _ _
  | failed error =>
      simp only [wp_ite]
      refine ⟨fun _ => d.settleConflict_wp inv completing next _ _, fun _ => ?_⟩
      refine d.finishNonsuccess_wp _ _ _ _ inv fun active => ?_
      exact d.fails _ _ inv active (by simp)

theorem writeDone_wp (reply : WriteReply) : d.Guards env op (writeDone codec env op reply) m := by
  simp only [writeDone, wp_bind, wp_fetch, wp_whenever]
  refine ⟨fun _ => ?_, fun _ => inv⟩
  cases reply with
  | ok revision => exact d.finishSuccess_wp inv _ _ completing next
  | transport error => exact d.fetchAsync_wp inv _ _
  | refused code conflict error =>
      simp only [wp_ite]
      refine ⟨fun _ => d.fetchAsync_wp inv _ _, fun _ => ?_⟩
      refine d.finishNonsuccess_wp _ _ _ _ inv fun active => ?_
      exact d.fails _ _ inv active (by simp)

theorem inspected_wp {state : Option ConflictState} (bytes : op.bytes = state.bind (·.localBytes))
    (base : op.base = state.bind (·.base)) {reply : ReadReply}
    (lost : state = none → m.active = some op → d.losing op m.desk) :
    d.Guards env op (inspected codec env op state reply) m := by
  cases reply with
  | failed error =>
      refine d.finishNonsuccess_wp _ _ _ _ inv fun active => ?_
      cases state with
      | none => exact d.loses _ inv active (lost rfl active)
      | some st => exact d.retains _ inv active base.symm bytes.symm
  | ok content revision =>
      dsimp only [inspected]
      split
      · exact d.finishSuccess_wp inv _ _ completing next
      · rename_i retry
        obtain ⟨b, there, _⟩ :=
          Option.bind_eq_some_iff.mp (RelayConflict.reconcileUncertain_retry retry)
        obtain ⟨st, known, _⟩ := Option.bind_eq_some_iff.mp there
        rw [known] at bytes base ⊢
        refine d.finishNonsuccess_wp _ _ _ _ inv fun active => ?_
        exact d.retains _ inv active base.symm bytes.symm
      · refine d.finishNonsuccess_wp _ _ _ _ inv fun active => ?_
        exact d.fails _ _ inv active (by simp)

end Callbacks

section MergeCallbacks

variable (inv : d.inv m.desk) (numbered : op.generation.isSome = true)

include numbered in
theorem current_of_numbered (current : op.generation = none ∨ m.active = some op) :
    m.active = some op := by
  refine current.resolve_left fun none => ?_
  rw [none] at numbered
  cases numbered

include inv

theorem mergeWriteDone_wp (completing : m.active = some op → d.completing m.desk)
    (reply : WriteReply) : d.Guards env op (mergeWriteDone codec env op reply) m := by
  cases reply with
  | ok revision => exact d.mergeSuccess_wp inv completing _
  | transport error => exact d.fetchAsync_wp inv _ _
  | refused code conflict error =>
      dsimp only [mergeWriteDone]
      split
      · exact d.fetchAsync_wp inv _ _
      · exact d.mergeRefusal_wp inv _ _ (by simp) _

theorem mergeVerified_wp {reply : ReadReply}
    (doubt : ∀ error, reply = .failed error → m.active = some op → d.doubting op m.desk) :
    d.Guards env op (mergeVerified codec env op reply) m := by
  simp only [mergeVerified, wp_bind, wp_fetch, wp_ite]
  refine ⟨fun _ => d.mergeRefusal_wp inv _ _ (by simp) _, fun verified => ?_⟩
  have active : m.active = some op := by
    simp only [Bool.and_eq_true, not_not] at verified
    exact current_active (by rw [verified.1.1.1, verified.1.1.2]; rfl)
  cases reply with
  | failed error => exact d.mergeRefusal_wp inv _ _ (fun _ _ => doubt error rfl active) _
  | ok bytes revision =>
      simp only [wp_ite]
      refine ⟨fun _ => d.mergeRefusal_wp inv _ _ (by simp) _, fun _ => ?_⟩
      simp only [writeSnapshotAsync, wp_bind, wp_mayFail, wp_update]
      refine ⟨fun fails => ⟨inv, fun _ => ⟨trivial, .inl ⟨_, fails⟩⟩⟩,
        fun _ => d.sends inv active fun sent => ?_⟩
      have prepared : (prepareWrite op.identity op.bytes (some revision) none).isSome = true := sent
      exact Option.isSome_iff_exists.mpr (prepareWrite_bytes prepared)

include numbered

theorem mergeLossRead_wp (completing : m.active = some op → d.completing m.desk)
    {reply : ReadReply} (doubt : (∀ bytes revision, reply = .ok bytes revision → op.bytes ≠ some bytes) →
      m.active = some op → d.doubting op m.desk) :
    d.Guards env op (mergeLossRead codec env op reply) m := by
  cases reply with
  | failed error =>
      exact d.mergeRefusal_wp inv _ _
        (fun _ current => doubt (by simp) (current_of_numbered numbered current)) _
  | ok bytes revision =>
      simp only [mergeLossRead, wp_ite]
      refine ⟨fun _ => d.mergeSuccess_wp inv completing _, fun different => ?_⟩
      refine d.mergeRefusal_wp inv _ _
        (fun _ current => doubt ?_ (current_of_numbered numbered current)) _
      rintro _ _ ⟨⟩
      exact different

end MergeCallbacks

/-- What must be known of the replies to calls of the active operation. -/
structure Answers (m : Machine) (callback : Callback) (reply : AnyReply) : Prop where
  completing : d.completing m.desk
  lost : ∀ op failure error, callback = .reconcileRead op failure → reply = .inr (.failed error) →
    d.losing op m.desk
  verified : ∀ op error, callback = .mergeVerified op → reply = .inr (.failed error) →
    d.doubting op m.desk
  settled : ∀ op, callback = .mergeLossRead op →
    (∀ bytes revision, reply = .inr (.ok bytes revision) → op.bytes ≠ some bytes) →
    d.doubting op m.desk
  troubled : callback.operation.mergeBuffer.isSome = true → callback.operation.Troubled env →
    d.doubting callback.operation m.desk

theorem callbackBody_wp {p : Policy} (held : Held p m) (inv : d.inv m.desk) {rpc : Rpc}
    (ok : p.RpcOk m.history.reports rpc) {reply : AnyReply}
    (answers : m.active = some rpc.callback.operation → d.Answers m rpc.callback reply) :
    d.Guards env rpc.callback.operation (callbackBody codec env rpc.callback reply) m := by
  obtain ⟨request, callback⟩ := rpc
  have next : ∀ q, m.queued = some q → q.Ordinary :=
    fun q queued => (held.stored.queued q queued).2
  have numbered : callback.operation.generation.isSome = true := ok.numbered
  have completing : m.active = some callback.operation → d.completing m.desk :=
    fun active => (answers active).completing
  cases callback with
  | writeDone op =>
      cases reply with
      | inr reply => exact inv
      | inl reply => exact d.writeDone_wp inv completing next reply
  | reconcileRead op failure =>
      cases reply with
      | inl reply => exact inv
      | inr reply =>
          refine d.reconcileRead_wp inv completing next failure ?_
          rintro error rfl active
          exact (answers active).lost op failure error rfl rfl
  | conflictRead op reason =>
      cases reply with
      | inl reply => exact inv
      | inr reply => exact d.conflictRead_wp inv completing next reason reply
  | inspected op state =>
      cases reply with
      | inl reply => exact inv
      | inr reply =>
          obtain ⟨_, bytes, base⟩ := ok.inspected op state rfl
          refine d.inspected_wp inv completing next bytes base ?_
          rintro rfl active
          exact d.hollow inv active bytes
  | mergeVerified op =>
      cases reply with
      | inl reply => exact inv
      | inr reply =>
          refine d.mergeVerified_wp inv ?_
          rintro error rfl active
          exact (answers active).verified op error rfl rfl
  | mergeWriteDone op =>
      cases reply with
      | inr reply => exact inv
      | inl reply => exact d.mergeWriteDone_wp inv completing reply
  | mergeLossRead op =>
      cases reply with
      | inl reply => exact inv
      | inr reply =>
          refine d.mergeLossRead_wp inv numbered completing fun different active => ?_
          refine (answers active).settled op rfl ?_
          rintro bytes revision ⟨⟩
          exact different bytes revision rfl
  | mergeConflictRead op reason =>
      cases reply with
      | inl reply => exact inv
      | inr reply => exact d.mergeRefusal_wp inv _ _ (by simp) _

theorem runCallback_wp {p : Policy} (held : Held p m) (inv : d.inv m.desk) {rpc : Rpc}
    (ok : p.RpcOk m.history.reports rpc) {reply : AnyReply}
    (answers : m.active = some rpc.callback.operation → d.Answers m rpc.callback reply) :
    d.Obeys (runCallback codec env rpc.callback reply) m := by
  rw [runCallback, Obeys, wp_rescue]
  refine wp_mono (d.callbackBody_wp held inv ok answers) (fun _ _ done => done) ?_
  rintro error t ⟨here, changed⟩
  refine wp_mono (d.callbackError_wp here ?_ error) (fun _ _ done => done)
    fun _ _ failed => failed.1
  intro merge current
  have active := current_of_numbered ok.numbered current
  obtain ⟨same, troubled⟩ := changed active
  rw [same]
  refine (answers ?_).troubled merge troubled
  rw [← active]
  exact (congrArg Desk.active same).symm

theorem preSave_wp (inv : d.inv m.desk) : d.Obeys (preSave env) m := by
  have edits : ∀ t : Machine, d.inv t.desk →
      (env.fails .beforeSaveHook = true → d.inv (t.hooked env.beforeSave).desk) ∧
      (env.fails .beforeSaveHook = false → d.inv (t.hooked env.beforeSave).desk) :=
    fun t here => ⟨fun _ => d.hooks here _, fun _ => d.hooks here _⟩
  simp only [preSave, ensureFinalNewline, wp_bind, wp_fetch, wp_whenever, wp_update, wp_runHook]
  exact ⟨fun _ => edits _ (d.edits _ inv), fun _ => edits m inv⟩

theorem captureOperation_wp (inv : d.inv m.desk) (identity : Identity) (base : Option Base)
    (expected : Option Token) :
    wp (captureOperation codec identity base expected)
      (fun op t => d.inv t.desk ∧ op.Ordinary) (fun _ t => d.inv t.desk) m := by
  simp only [captureOperation, wp_bind, wp_fetch]
  split
  · exact inv
  · exact ⟨inv, rfl, rfl, rfl⟩

theorem capture_wp (inv : d.inv m.desk) (base : Option Base) (expected : Option Token) :
    wp (capture codec env base expected)
      (fun op t => d.inv t.desk ∧ op.Ordinary) (fun _ t => d.inv t.desk) m := by
  simp only [capture, wp_bind, wp_fetch]
  split
  · exact inv
  · rw [wp_bind]
    refine wp_mono (d.preSave_wp inv) ?_ fun _ _ failed => failed
    exact fun _ t here => d.captureOperation_wp here _ base expected

theorem retryStateOperation_wp (inv : d.inv m.desk) :
    wp (retryStateOperation codec env)
      (fun op t => d.inv t.desk ∧ op.Ordinary) (fun _ t => d.inv t.desk) m := by
  simp only [retryStateOperation, wp_bind, wp_fetch]
  refine wp_mono (d.capture_wp inv _ _) ?_ fun _ _ failed => failed
  rintro op t ⟨here, ordinary⟩
  simp only [wp_ite, wp_pure]
  exact ⟨fun _ => ⟨here, ordinary⟩,
    fun _ => ⟨here, ordinary.plain, ordinary.choice, ordinary.snapshot⟩⟩

theorem inspectUnknown_wp (inv : d.inv m.desk) (unknown : m.status = some .unknown) :
    d.Obeys (inspectUnknown codec env) m := by
  have inspects := d.inspects inv unknown
  simp only [inspectUnknown, fetchAsync, wp_bind, wp_fetch, wp_update, wp_rescue, wp_mayFail,
    desk_issue]
  refine ⟨fun _ => ?_, fun _ => inspects⟩
  refine wp_mono (d.callbackError_wp inspects ?_ _) (fun _ _ done => done)
    fun _ _ failed => failed.1
  intro merge
  cases merge

theorem resolutionOperation_wp (inv : d.inv m.desk) (snapshot : Option ConflictState)
    (choice : Choice) (saveAs : Option String) :
    wp (resolutionOperation codec env snapshot choice saveAs)
      (fun op t => d.inv t.desk ∧ op.mergeBuffer = none ∧
        (op.choice = some .restoreBase → op.LocalKept codec t.recovery))
      (fun _ t => d.inv t.desk) m := by
  simp only [resolutionOperation, wp_bind, wp_fetch]
  split
  · simp only [wp_ite, wp_pure, wp_signal]
    refine ⟨fun _ => ⟨inv, rfl, fun restore => ?_⟩, fun _ => inv⟩
    cases restore
  · rw [wp_bind]
    cases recovered : snapshot.bind (·.localBytes) with
    | none => simp [inv]
    | some bytes =>
        have kept := d.keeps (codec.decode bytes) inv
        rw [wp_recoveryBuffer]
        refine ⟨fun _ => inv, fun _ => ?_⟩
        split
        · exact ⟨kept, rfl, fun _ => ⟨_, bytes, rfl, recovered, by simp⟩⟩
        · simp only [wp_bind, wp_recoveryBuffer, wp_pure]
          refine ⟨fun _ => kept, fun _ => ⟨d.keeps _ kept, rfl, fun _ => ?_⟩⟩
          exact ⟨m.recovery.length, bytes, rfl, recovered, by simp⟩
  · rename_i _ other _
    refine ⟨inv, rfl, fun restore => ?_⟩
    exact absurd (Option.some.inj restore) other

theorem keepRemote_wp (inv : d.inv m.desk) (idle : m.active = none) {st : ConflictState}
    (state : m.state = some st) (adopting : d.adopting st m.desk) :
    d.Obeys (keepRemote codec env (some st)) m := by
  simp only [keepRemote, wp_bind, wp_update, wp_fetch, Option.bind_some]
  cases recovered : st.localBytes with
  | none => simp [inv]
  | some bytes =>
      have kept := d.keeps (codec.decode bytes) inv
      have torn := d.adopts inv state adopting recovered
      rw [wp_recoveryBuffer]
      refine ⟨fun _ => inv, fun _ => ?_⟩
      rw [wp_eraseAndInsert]
      refine ⟨fun _ => kept, fun _ => ⟨fun _ => torn, fun _ => ?_⟩⟩
      have adopted := d.adopted (some (.adoptedRemote m.recovery.length)) inv idle state adopting
        recovered
      rw [wp_cacheIdentitySafely]
      exact ⟨fun _ => adopted, fun _ => adopted⟩

theorem startEdiff_wp (inv : d.inv m.desk) (snapshot : Option ConflictState) :
    d.Obeys (startEdiff env snapshot) m := by
  simp only [startEdiff, wp_bind, wp_mayFail]
  refine ⟨fun _ => inv, fun _ => ?_⟩
  split
  · exact inv
  · exact inv

/-- What must be known where REMOTE is adopted from the menu. -/
def Adopts (m : Machine) : Prop :=
  ∀ st, m.state = some st → readConflictChoice (some st) env.key = some .keepRemote →
    d.adopting st m.desk

theorem resolveReadyConflict_wp {p : Policy} (held : Held p m) (inv : d.inv m.desk)
    (conflict : m.status = some .conflict) (adopts : d.Adopts m) :
    d.Obeys (resolveReadyConflict codec env) m := by
  obtain ⟨st, state, _⟩ := held.settled.conflicted (.inl conflict)
  have idle := held.settled.idle_of_conflict conflict
  have dispatches : ∀ choice saveAs,
      wp (resolutionOperation codec env (some st) choice saveAs)
        (fun op => wp (dispatch codec env op) (fun _ t => d.inv t.desk) (fun _ t => d.inv t.desk))
        (fun _ t => d.inv t.desk) m := by
    intro choice saveAs
    refine wp_mono (d.resolutionOperation_wp inv (some st) choice saveAs) ?_
      fun _ _ failed => failed
    rintro op t ⟨here, plain, kept⟩
    exact d.dispatch_wp here plain kept _
  simp only [resolveReadyConflict, wp_bind, wp_fetch, state]
  split
  · exact inv
  · exact inv
  · exact d.startEdiff_wp inv _
  · rename_i chosen
    exact d.keepRemote_wp inv idle state (adopts st state chosen)
  · rw [wp_bind]
    exact dispatches _ _

theorem saveBufferAsync_wp {p : Policy} (held : Held p m) (inv : d.inv m.desk)
    (adopts : m.status = some .conflict → d.Adopts m) :
    d.Obeys (saveBufferAsync codec env) m := by
  simp only [saveBufferAsync, wp_bind, wp_fetch, wp_ite, wp_signal, wp_pure]
  refine ⟨fun _ => inv, fun _ => ⟨fun conflict => d.resolveReadyConflict_wp held inv conflict
    (adopts conflict), fun _ => ⟨fun _ => ?_, fun _ => ⟨fun unknown => d.inspectUnknown_wp inv
      unknown, fun _ => ⟨fun _ => ?_, fun _ => inv⟩⟩⟩⟩⟩
  · refine wp_mono (d.retryStateOperation_wp inv) ?_ fun _ _ failed => failed
    rintro op t ⟨here, ordinary⟩
    exact d.queueOrDispatch_wp here ordinary
  · refine wp_mono (d.capture_wp inv _ _) ?_ fun _ _ failed => failed
    rintro op t ⟨here, ordinary⟩
    exact d.queueOrDispatch_wp here ordinary

theorem applyMergeAsync_wp (inv : d.inv m.desk) (merge : Nat) (merged : Bytes) :
    d.Obeys (applyMergeAsync codec env merge merged) m := by
  simp only [applyMergeAsync, wp_bind, wp_fetch]
  split
  · exact inv
  · rename_i st _
    have started : d.inv (((m.activate ((merging m.fileIdentity st merge merged).number
        (m.generation + 1))).setStatus .saving none).markModified).desk :=
      d.starts inv fun restore => by cases restore
    simp only [wp_ite, wp_signal, wp_bind, wp_update, wp_rescue]
    refine ⟨fun _ => inv, fun _ => ⟨fun _ => inv, fun _ => ⟨fun _ => ?_, fun _ => ?_⟩⟩⟩
    · exact wp_mono (d.mergeRefusal_wp inv _ _ (by simp) _) (fun _ _ done => done)
        fun _ _ failed => failed.1
    · simp only [fetchAsync, wp_bind, wp_mayFail, wp_update, desk_issue]
      refine ⟨fun _ => ?_, fun _ => started⟩
      exact wp_mono (d.callbackError_wp started (fun _ _ => d.begins m _) _)
        (fun _ _ done => done) fun _ _ failed => failed.1

theorem abandonMerge_wp (inv : d.inv m.desk) (merge : Nat) : d.Obeys (abandonMerge merge) m := by
  simp only [abandonMerge, wp_bind, wp_fetch]
  split
  · exact inv
  · simp only [wp_bind, wp_whenever, wp_update, desk_setMerges]
    refine ⟨fun absent => d.abandons _ inv ?_, fun _ => inv⟩
    simp only [Bool.and_eq_true, Option.isNone_iff_eq_none] at absent
    exact absent.2

/-- What must be known of an event where it happens. -/
def Permits (m : Machine) : Event → Prop
  | .reply index reply _ => ∀ rpc, m.rpcs[index]? = some rpc → rpc.accepts reply = true →
      m.active = some rpc.callback.operation → d.Answers m rpc.callback reply
  | .save _ => m.status = some .conflict → d.Adopts m
  | _ => True

end Discipline

section Step

variable {codec : Codec} {m : Machine} {event : Event} (d : Discipline codec event.env)

theorem Discipline.stepLive {p : Policy} (held : Held p m) (inv : d.inv m.desk)
    (permits : d.Permits m event) : d.inv (EmacsRelay.stepLive codec m event).desk := by
  cases event with
  | edit buffer => exact d.edits buffer inv
  | narrow buffer =>
      simp only [EmacsRelay.stepLive]
      split
      · rename_i same
        exact d.narrows inv same
      · exact inv
  | rename fileName => exact d.renames fileName inv
  | toggleModified modified => exact d.dirties inv
  | reload bytes revision => exact d.reloads bytes revision inv
  | save env => exact after_of_wp (d.saveBufferAsync_wp held inv permits)
  | applyMerge merge merged env => exact after_of_wp (d.applyMergeAsync_wp inv merge merged)
  | expire generation =>
      simp only [EmacsRelay.stepLive]
      split
      · rename_i expired
        exact d.expires inv expired.2
      · exact inv
  | kill => exact d.dies inv
  | abandonMerge merge => exact inv
  | reply index reply env => exact inv
  | prefetch authority path bytes revision => exact inv
  | evict key => exact inv

/-- A discipline that permits an event keeps its property over it. -/
theorem Discipline.step {p : Policy} (held : Held p m) (inv : d.inv m.desk)
    (permits : d.Permits m event) : d.inv (EmacsRelay.step codec m event).desk := by
  have live : d.inv (if m.live then EmacsRelay.stepLive codec m event else m).desk := by
    split
    · exact d.stepLive held inv permits
    · exact inv
  cases event with
  | reply index reply env =>
      simp only [EmacsRelay.step]
      split
      · exact inv
      · rename_i rpc found
        split
        · rename_i accepted
          have noted : Held p (m.note (rpc.reports reply)) :=
            ⟨held.stored.note _, held.settled⟩
          have ok : p.RpcOk (m.history.reports ++ rpc.reports reply) rpc :=
            (held.stored.rpcs rpc (List.mem_of_getElem? found)).mono
          refine after_of_wp (d.runCallback_wp noted inv ok fun active => ?_)
          exact { permits rpc found accepted active with }
        · exact inv
  | abandonMerge merge => exact after_of_wp (d.abandonMerge_wp inv merge)
  | prefetch authority path bytes revision => exact inv
  | evict key => exact inv
  | edit buffer => exact live
  | narrow buffer => exact live
  | rename fileName => exact live
  | toggleModified modified => exact live
  | reload bytes revision => exact live
  | save env => exact live
  | applyMerge merge merged env => exact live
  | expire generation => exact live
  | kill => exact live

end Step

/-- A property that every permitted event has a discipline for holds after every such run. -/
theorem discipline_runs {codec : Codec} {inv : Desk → Prop} {permitted : Machine → Event → Prop}
    {identity : Identity} {bytes : Bytes} {revision : Token} {m : Machine}
    (init : inv (Machine.opened codec identity bytes revision).desk)
    (disciplined : ∀ s event, Held anyPair s → inv s.desk → permitted s event →
      ∃ d : Discipline codec event.env, d.inv = inv ∧ d.Permits s event)
    (reached : Runs codec permitted (.opened codec identity bytes revision) m) :
    inv m.desk := by
  have both : Held anyPair m ∧ inv m.desk := by
    induction reached with
    | refl => exact ⟨opened_held trivial trivial, init⟩
    | @next s event _ allowed ih =>
        obtain ⟨held, holds⟩ := ih
        obtain ⟨d, rfl, permits⟩ := disciplined s event held holds allowed
        exact ⟨held_step held (anyPair_sound s event), d.step held holds permits⟩
  exact both.2

end EmacsRelay

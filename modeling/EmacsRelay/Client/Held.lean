import EmacsRelay.Client.Provenance

set_option autoImplicit false

/- Every step of the save machine keeps what the buffer holds good, provided the replies it is
given are. -/
namespace EmacsRelay

open Routine Editor RelaySave

/-- The invariant at a fixed list of reports; no handler adds to it. -/
structure HeldAt (p : Policy) (reports : List Report) (m : Machine) : Prop extends Held p m where
  same : m.history.reports = reports

/-- `body` keeps the invariant, whether it returns or signals. -/
abbrev Preserves (p : Policy) (reports : List Report) {α : Type} (body : Lisp α) (m : Machine) :
    Prop :=
  wp body (fun _ => HeldAt p reports) (fun _ => HeldAt p reports) m

/-- The invariant looks at the core alone. -/
theorem HeldAt.congr {p : Policy} {reports : List Report} {m t : Machine}
    (held : HeldAt p reports m) (core : t.core = m.core) : HeldAt p reports t where
  stored := core ▸ held.stored
  settled := by
    have active : t.active = m.active := congrArg Core.active core
    have status : t.status = m.status := congrArg Core.status core
    have state : t.state = m.state := congrArg Core.state core
    rw [active, status, state]
    exact held.settled
  same := (congrArg Core.reports core).trans held.same

/-- With no operation in flight only a displayed conflict needs anything. -/
theorem Settled.idle {active : Option Operation} {status : Option Status}
    {state : Option ConflictState} (idle : active = none)
    (shown : status = some .conflict → ∃ st, state = some st ∧ st.remote.isSome = true) :
    Settled active status state where
  saving some := by rw [idle] at some; cases some
  conflicted conflict := by
    rcases conflict with conflict | ⟨_, active, _⟩
    · exact shown conflict
    · rw [idle] at active; cases active

theorem Settled.idle_of_conflict {active : Option Operation} {status : Option Status}
    {state : Option ConflictState} (settled : Settled active status state)
    (conflict : status = some .conflict) : active = none := by
  cases operation : active with
  | none => rfl
  | some op =>
      have saving := settled.saving (by rw [operation]; rfl)
      rw [conflict] at saving
      cases saving

variable {p : Policy} {reports : List Report} {codec : Codec} {env : Env} {m : Machine}
  {op : Operation}

theorem mem_modify_snapshot {merges : List MergeBuffer} {index : Nat}
    {f : MergeBuffer → MergeBuffer} (keep : ∀ b, (f b).snapshot = b.snapshot)
    {buffer : MergeBuffer} (member : buffer ∈ merges.modify index f) :
    ∃ old ∈ merges, old.snapshot = buffer.snapshot := by
  obtain ⟨i, found⟩ := List.mem_iff_getElem?.mp member
  rw [List.getElem?_modify] at found
  cases original : merges[i]? with
  | none => rw [original] at found; cases found
  | some old =>
      refine ⟨old, List.mem_of_getElem? original, ?_⟩
      rw [original] at found
      have renamed : (if index = i then f old else old) = buffer := Option.some.inj found
      rw [← renamed]
      split
      · exact (keep old).symm
      · rfl

/-- Merge buffers are marked and closed, never given another snapshot. -/
theorem HeldAt.modifyMerges (held : HeldAt p reports m) {merges : List MergeBuffer}
    (from_old : ∀ buffer ∈ merges, ∃ old ∈ m.merges, old.snapshot = buffer.snapshot) :
    HeldAt p reports (m.setMerges merges) where
  stored := held.stored.setMerges (by
    intro buffer member st snapshot
    obtain ⟨old, there, same⟩ := from_old buffer member
    exact held.stored.merges old there st (same.trans snapshot))
  settled := held.settled
  same := held.same

theorem touchMerge_old (merge : Option Nat) (merges : List MergeBuffer) :
    ∀ buffer ∈ touchMerge merge merges, ∃ old ∈ merges, old.snapshot = buffer.snapshot := by
  intro buffer member
  cases merge with
  | none => exact ⟨buffer, member, rfl⟩
  | some index =>
      have kept : ∀ b : MergeBuffer, ({ b with modified := true } : MergeBuffer).snapshot =
          b.snapshot := fun _ => rfl
      exact mem_modify_snapshot kept member

theorem closeMerge_old (merge : Option Nat) (merges : List MergeBuffer) :
    ∀ buffer ∈ closeMerge merge merges, ∃ old ∈ merges, old.snapshot = buffer.snapshot := by
  intro buffer member
  cases merge with
  | none => exact ⟨buffer, member, rfl⟩
  | some index =>
      have kept : ∀ b : MergeBuffer, ({ b with active := false } : MergeBuffer).snapshot =
          b.snapshot := fun _ => rfl
      exact mem_modify_snapshot kept member

theorem HeldAt.touchMerge (held : HeldAt p reports m) (merge : Option Nat) :
    HeldAt p reports (m.setMerges (touchMerge merge m.merges)) :=
  held.modifyMerges (touchMerge_old merge m.merges)

theorem HeldAt.closeMerge (held : HeldAt p reports m) (merge : Option Nat) :
    HeldAt p reports (m.setMerges (closeMerge merge m.merges)) :=
  held.modifyMerges (closeMerge_old merge m.merges)

/-- A live buffer in which `op` is current has it as its active operation. -/
theorem current_active (current : (m.live && m.operationCurrent op) = true) :
    m.active = some op := by
  simp only [Machine.operationCurrent, Bool.and_eq_true, beq_iff_eq] at current
  exact current.2.1

theorem finishNonsuccess_held (held : HeldAt p reports m) (status : Status) (result : SaveResult)
    (conflict : Option ConflictState)
    (ok : ∀ st, conflict = some st → p.SnapOk reports st)
    (shown : status = .conflict → ∃ st, conflict = some st ∧ st.remote.isSome = true) :
    Preserves p reports (finishNonsuccess op status result conflict) m := by
  simp only [finishNonsuccess, wp_bind, wp_fetch, wp_whenever, wp_update]
  refine ⟨fun _ => ⟨fun present => ?_, fun absent => ?_⟩, fun _ => held⟩
  · refine ⟨⟨((held.stored.clearOperations).setState ?_).setStatus status (some result), ?_⟩,
      held.same⟩
    · intro st same
      exact held.same.symm ▸ ok st same
    · exact Settled.idle rfl fun conflicted => shown (Option.some.inj conflicted)
  · refine ⟨⟨held.stored.clearOperations.setStatus status (some result), ?_⟩, held.same⟩
    refine Settled.idle rfl ?_
    intro conflicted
    obtain ⟨st, same, _⟩ := shown (Option.some.inj conflicted)
    rw [same] at absent
    cases absent

theorem conflictMergeRefusal_snap (ok : p.OpOk reports op) (merge : op.mergeBuffer.isSome = true)
    {remote : Option Remote}
    (fresh : ∀ r, remote = some r → p.good reports r.bytes r.revision ∧ r.deleted = false)
    (held : HeldAt p reports m) (reason : Reason) :
    wp (conflictMergeRefusal codec env op reason remote)
      (fun _ t => Stored p t.core ∧ t.history.reports = reports ∧
        ∃ st, t.state = some st ∧ st.remote.isSome = true)
      (fun _ => HeldAt p reports) m := by
  obtain ⟨prior, seen, snapshot, known⟩ := ok.merge merge
  have good := ok.snapshot prior snapshot
  cases captured : op.bytes with
  | none => simp [conflictMergeRefusal, captured, held]
  | some bytes =>
      have recovered : HeldAt p reports (m.addRecovery (codec.decode bytes)) :=
        ⟨⟨held.stored, held.settled⟩, held.same⟩
      simp only [conflictMergeRefusal, captured, snapshot, wp_bind, wp_recoveryBuffer, wp_fetch,
        wp_update, wp_pure, Option.bind_some]
      refine ⟨fun _ => held, fun _ => ⟨?_, held.same, _, rfl, ?_⟩⟩
      · refine recovered.stored.setState ?_
        rintro st ⟨⟩
        refine ⟨fun b same => held.same.symm ▸ good.base b same, ?_, fun retry => by cases retry⟩
        intro r same
        cases remote with
        | none => exact held.same.symm ▸ good.remote r same
        | some fetched =>
            cases same
            obtain ⟨pair, present⟩ := fresh _ rfl
            exact ⟨held.same.symm ▸ pair, fun deleted => by rw [present] at deleted; cases deleted⟩
      · cases remote with
        | none => simp [known]
        | some fetched => rfl

theorem mergeRefusal_held (held : HeldAt p reports m) (ok : p.OpOk reports op)
    (merge : op.mergeBuffer.isSome = true) {remote : Option Remote}
    (fresh : ∀ r, remote = some r → p.good reports r.bytes r.revision ∧ r.deleted = false)
    (status : MergeStatus) (reason : Reason) :
    Preserves p reports (mergeRefusal codec env op status reason remote) m := by
  simp only [mergeRefusal, wp_bind, wp_fetch, wp_whenever, wp_update]
  refine ⟨fun _ => ?_, fun _ => held.touchMerge _⟩
  refine wp_mono (conflictMergeRefusal_snap ok merge fresh held reason) ?_ fun _ _ kept => kept
  rintro result t ⟨stored, same, st, state, remote⟩
  have refused : HeldAt p reports
      (((t.clearOperations).markModified).setStatus status.status (some result)) := by
    refine ⟨⟨stored.clearOperations.setStatus status.status (some result), ?_⟩, same⟩
    exact Settled.idle rfl fun _ => ⟨st, state, remote⟩
  exact refused.touchMerge _

theorem callbackError_held (held : HeldAt p reports m) (ok : p.OpOk reports op)
    (error : LispError) : Preserves p reports (callbackError codec env op error) m := by
  unfold callbackError
  split
  · rename_i merge
    exact mergeRefusal_held held ok merge (by simp) _ _
  · refine finishNonsuccess_held held _ _ _ ?_ (by intro unknown; cases unknown)
    rintro st ⟨⟩
    refine ⟨ok.base, ?_, ?_⟩
    · intro r none
      cases none
    · intro retry
      cases retry

theorem fetchAsync_held (held : HeldAt p reports m) {identity : Option Identity}
    {callback : Callback} (ok : p.RpcOk reports ⟨prepareRead identity, callback⟩) :
    Preserves p reports (fetchAsync env identity callback) m := by
  simp only [fetchAsync, wp_bind, wp_mayFail, wp_update]
  refine ⟨fun _ => held, fun _ => ⟨⟨held.stored.issue ?_, held.settled⟩, held.same⟩⟩
  exact held.same.symm ▸ ok

theorem writeSnapshotAsync_held (held : HeldAt p reports m) {identity : Option Identity}
    {bytes : Option Bytes} {expected : Option Token} {callback : Callback} {saveAs : Option String}
    (ok : p.RpcOk reports ⟨prepareWrite identity bytes expected saveAs, callback⟩) :
    Preserves p reports (writeSnapshotAsync env identity bytes expected callback saveAs) m := by
  simp only [writeSnapshotAsync, wp_bind, wp_mayFail, wp_update]
  refine ⟨fun _ => held, fun _ => ⟨⟨held.stored.issueWrite ?_, held.settled⟩, held.same⟩⟩
  exact held.same.symm ▸ ok

/-- What is left of an operation once it has been given a generation. -/
theorem Policy.OpOk.number (ok : p.OpOk reports op) (generation : Nat) :
    p.OpOk reports (op.number generation) :=
  { ok with }

theorem writeDone_ok (ok : p.OpOk reports op) (numbered : op.generation.isSome = true)
    (plain : op.mergeBuffer = none) :
    p.RpcOk reports
      ⟨prepareWrite op.identity op.bytes op.expected op.saveAs, .writeDone op⟩ where
  operation := ok
  numbered := numbered
  formed := ⟨plain, rfl⟩
  inspected := by simp
  deleted := by simp

/-- An operation becomes active; a Save As only while the conflict it leaves is retained. -/
theorem HeldAt.activate (held : HeldAt p reports m) (numbered : op.generation.isSome = true)
    (kept : op.choice = some .saveAs → ∃ st, m.state = some st ∧ st.remote.isSome = true) :
    HeldAt p reports ((m.activate op).setStatus .saving none) := by
  refine ⟨⟨(held.stored.activate numbered).setStatus .saving none, fun _ => rfl, ?_⟩, held.same⟩
  rintro (conflict | ⟨_, ⟨⟩, saveAs⟩)
  · cases conflict
  · exact kept saveAs

theorem dispatch_held (held : HeldAt p reports m) (ok : p.OpOk reports op)
    (plain : op.mergeBuffer = none)
    (kept : op.choice = some .saveAs → ∃ st, m.state = some st ∧ st.remote.isSome = true) :
    Preserves p reports (dispatch codec env op) m := by
  simp only [dispatch, wp_bind, wp_fetch, wp_update, wp_rescue]
  have numbered := ok.number (m.generation + 1)
  have activated : HeldAt p reports
      ((m.activate (op.number (m.generation + 1))).setStatus .saving none) :=
    held.activate rfl kept
  have marked : HeldAt p reports
      ((m.activate (op.number (m.generation + 1))).setStatus .saving none).markModified :=
    activated.congr rfl
  refine wp_mono (writeSnapshotAsync_held marked (writeDone_ok numbered rfl plain))
    (fun _ _ done => done) ?_
  intro error t failed
  exact callbackError_held failed numbered error

theorem queueOrDispatch_held (held : HeldAt p reports m) (ok : p.OpOk reports op)
    (ordinary : op.Ordinary) : Preserves p reports (queueOrDispatch codec env op) m := by
  simp only [queueOrDispatch, wp_bind, wp_fetch, wp_ite, wp_update, wp_pure]
  refine ⟨fun _ => ⟨fun _ => ?_, fun _ => ⟨fun _ => held, fun _ => ?_⟩⟩, fun _ => ?_⟩
  · exact ⟨⟨held.stored.setQueued (by simp), held.settled⟩, held.same⟩
  · refine ⟨⟨held.stored.setQueued ?_, held.settled⟩, held.same⟩
    rintro _ ⟨⟩
    exact ⟨held.same.symm ▸ ok, ordinary⟩
  · exact dispatch_held held ok ordinary.plain (by simp [ordinary.choice])

section Editing

/-- Replacing text and making recovery buffers leaves the core alone. -/
theorem eraseAndInsert_core (installer : Installer) (recovery : Option Nat)
    (bytes : Option Bytes) :
    wp (eraseAndInsert codec env installer recovery bytes)
      (fun _ t => t.core = m.core) (fun _ t => t.core = m.core) m := by
  cases bytes <;> simp

theorem recoveryBuffer_core (site : Site) (bytes : Option Bytes) :
    wp (recoveryBuffer codec env site bytes)
      (fun _ t => t.core = m.core) (fun _ t => t.core = m.core) m := by
  cases bytes <;> simp

theorem confirmBytes_core (sameBytes : Bool) :
    wp (confirmBytes codec env op sameBytes) (fun _ t => t.core = m.core) (fun _ _ => False) m := by
  simp [confirmBytes]

theorem preSave_core :
    wp (preSave env) (fun _ t => t.core = m.core) (fun _ t => t.core = m.core) m := by
  simp [preSave, ensureFinalNewline]

end Editing

/-- A pair an operation may leave behind when it succeeds: good, or put aside. -/
def Policy.Pair (p : Policy) (reports : List Report) (op : Operation) (revision : Token) : Prop :=
  ∃ bytes, op.bytes = some bytes ∧ (p.good reports bytes revision ∨ p.Aside op)

theorem dispatchQueued_held {revision : Token} {bytes : Bytes} (statusExtra sameBytes : Bool)
    {queued : Option Operation} (held : HeldAt p reports m) (idle : m.active = none)
    (captured : op.bytes = some bytes) (good : p.good reports bytes revision)
    (next : ∀ q, queued = some q → p.OpOk reports q ∧ q.Ordinary) :
    Preserves p reports (dispatchQueued codec env op revision statusExtra sameBytes queued) m := by
  cases queued with
  | none =>
      refine ⟨⟨held.stored.setStatus _ _, Settled.idle idle ?_⟩, held.same⟩
      intro conflict
      simp only [Machine.setStatus] at conflict
      split at conflict <;> cases conflict
  | some q =>
      obtain ⟨ok, ordinary⟩ := next q rfl
      simp only [dispatchQueued, wp_bind, wp_update]
      refine dispatch_held (held.congr rfl) ?_ ordinary.plain (by simp [ordinary.choice])
      refine { ok with base := ?_, expected := ?_, merged := ?_ }
      · rintro b ⟨⟩
        exact ⟨bytes, captured, good⟩
      · rintro token ⟨⟩
        exact .inr (.inl ⟨_, bytes, rfl, captured, good⟩)
      · simp [ordinary.plain]

theorem finishOrdinary_held {revision : Token} {bytes : Bytes} (statusExtra sameFile : Bool)
    (sameBytes : Bool) {queued : Option Operation} (held : HeldAt p reports m)
    (idle : m.active = none) (shown : m.status ≠ some .conflict) (captured : op.bytes = some bytes)
    (good : p.good reports bytes revision)
    (next : ∀ q, queued = some q → p.OpOk reports q ∧ q.Ordinary) :
    Preserves p reports
      (finishOrdinary codec env op revision statusExtra sameFile sameBytes queued) m := by
  have recorded : HeldAt p reports
      ((m.recordBase op.bytes revision (codingOf op.base)).setState none) := by
    refine ⟨⟨?_, Settled.idle idle fun conflict => absurd conflict shown⟩, held.same⟩
    rw [captured]
    exact (held.stored.recordBase (held.same.symm ▸ good) _).setState (by simp)
  have chosen : ∀ q, (queued.filter fun next =>
      sameFile && identityEqual op.identity next.identity) = some q →
      p.OpOk reports q ∧ q.Ordinary :=
    fun q found => next q (Option.eq_some_of_filter_eq_some found)
  have continues : ∀ t, HeldAt p reports t → t.active = none →
      wp (confirmBytes codec env op sameBytes)
        (fun sameBytes => wp (dispatchQueued codec env op revision statusExtra sameBytes
          (queued.filter fun next => sameFile && identityEqual op.identity next.identity))
          (fun _ => HeldAt p reports) (fun _ => HeldAt p reports))
        (fun _ => HeldAt p reports) t := by
    intro t here none
    refine wp_mono (confirmBytes_core sameBytes) ?_ fun _ _ => False.elim
    intro sameBytes u core
    exact dispatchQueued_held statusExtra sameBytes (here.congr core)
      ((congrArg Core.active core).trans none) captured good chosen
  simp only [finishOrdinary, wp_bind, wp_whenever, wp_update]
  exact ⟨fun _ => continues _ recorded idle, fun _ => continues m held idle⟩

theorem finishRestoreBase_held {revision : Token} {bytes : Bytes} (held : HeldAt p reports m)
    (idle : m.active = none) (captured : op.bytes = some bytes)
    (good : p.good reports bytes revision) :
    Preserves p reports (finishRestoreBase codec env op revision) m := by
  simp only [finishRestoreBase, wp_bind, wp_update, wp_runAfterSaveHook, wp_fetch]
  refine wp_mono (eraseAndInsert_core _ _ _) ?_ fun _ u core => held.congr core
  intro _ t core
  have here : HeldAt p reports t := held.congr core
  have none : t.active = none := (congrArg Core.active core).trans idle
  refine ⟨⟨?_, ?_⟩, ?_⟩
  · refine Stored.setStatus ?_ _ _
    simp only [core_hooked, core_markClean]
    rw [captured]
    exact (here.stored.recordBase (here.same.symm ▸ good) _).setState (by simp)
  · refine Settled.idle ?_ ?_
    · exact (congrArg Core.active (core_hooked _ _)).trans none
    · intro conflict
      simp only [Machine.setStatus] at conflict
      split at conflict <;> cases conflict
  · exact (congrArg Core.reports (core_hooked _ _)).trans here.same

theorem cacheIdentitySafely_held (held : HeldAt p reports m) {identity : Option Identity}
    {bytes : Option Bytes} {revision : Token} {pair : Bytes} (captured : bytes = some pair)
    (ok : p.good reports pair revision ∨
      ∀ id, identity = some id → ¬ p.interest (id.authority, id.path))
    {post : Unit → Machine → Prop} {failed : LispError → Machine → Prop}
    (next : ∀ t, HeldAt p reports t → post () t) :
    wp (cacheIdentitySafely env identity bytes revision) post failed m := by
  rw [wp_cacheIdentitySafely]
  refine ⟨fun _ => next m held, fun _ => next _ ?_⟩
  rw [captured]
  exact ⟨⟨held.stored.cachePut _ _ _ (held.same.symm ▸ ok), held.settled⟩, held.same⟩

theorem HeldAt.clearOperations (held : HeldAt p reports m) (shown : m.status ≠ some .conflict) :
    HeldAt p reports m.clearOperations where
  stored := held.stored.clearOperations
  settled := Settled.idle rfl fun conflict => absurd conflict shown
  same := held.same

theorem completeSuccess_held (held : HeldAt p reports m) (active : m.active = some op)
    {revision : Token} (pair : p.Pair reports op revision) (statusExtra : Bool) :
    Preserves p reports (completeSuccess codec env op revision statusExtra) m := by
  obtain ⟨bytes, captured, ok⟩ := pair
  have saving : m.status = some .saving := held.settled.saving (by rw [active]; rfl)
  have cleared : HeldAt p reports m.clearOperations :=
    held.clearOperations (by rw [saving]; simp)
  simp only [completeSuccess, wp_bind, wp_fetch, wp_update, wp_ite]
  refine ⟨fun saveAs => ?_, fun elsewise => ?_⟩
  · refine ⟨⟨cleared.stored.setStatus .conflict none, Settled.idle rfl fun _ => ?_⟩, held.same⟩
    exact held.settled.conflicted (.inr ⟨op, active, saveAs⟩)
  · have good : p.good reports bytes revision :=
      ok.resolve_right fun aside => elsewise aside.1
    refine ⟨fun _ => finishRestoreBase_held cleared rfl captured good, fun _ => ?_⟩
    exact finishOrdinary_held _ _ _ cleared rfl (by simp [saving]) captured good
      fun q queued => held.same ▸ held.stored.queued q queued

theorem finishSuccess_held (held : HeldAt p reports m) {revision : Token}
    (pair : p.Pair reports op revision) (statusExtra : Bool) :
    Preserves p reports (finishSuccess codec env op revision statusExtra) m := by
  obtain ⟨bytes, captured, ok⟩ := id pair
  simp only [finishSuccess, wp_bind]
  refine cacheIdentitySafely_held held captured (ok.imp_right And.right) ?_
  intro t here
  simp only [wp_fetch, wp_whenever]
  exact ⟨fun current => completeSuccess_held here (current_active current) pair statusExtra,
    fun _ => here⟩

theorem snapshotConflict_snap (ok : p.OpOk reports op) {remote : Remote} (reason : Reason)
    (good : p.good reports remote.bytes remote.revision)
    (gone : remote.deleted = true → remote.bytes = [] ∧ remote.revision = .missing) :
    p.SnapOk reports (snapshotConflict op reason remote) where
  base b same := by
    cases snapshot : op.snapshot with
    | none =>
        simp only [snapshotConflict, snapshot] at same
        exact ok.base b same
    | some st =>
        simp only [snapshotConflict, snapshot, Option.bind_some] at same
        cases prior : st.base with
        | none =>
            rw [prior] at same
            exact ok.base b same
        | some b' =>
            rw [prior] at same
            cases same
            exact (ok.snapshot st snapshot).base _ prior
  remote r same := by
    cases same
    exact ⟨good, gone⟩
  retry := by
    intro retry
    cases retry

/-- What a restored BASE is paired with when REMOTE turns out to hold the snapshot's LOCAL. -/
def Policy.Restored (p : Policy) (reports : List Report) (op : Operation) (bytes : Bytes)
    (revision : Token) : Prop :=
  op.choice = some .restoreBase → ∀ st, op.snapshot = some st → st.localBytes = some bytes →
    ∀ base, op.bytes = some base → p.good reports base revision

/-- REMOTE of a follow-up read: good, or read from a Save As target that holds LOCAL. -/
def Policy.Fetched (p : Policy) (reports : List Report) (op : Operation) (bytes : Bytes)
    (revision : Token) : Prop :=
  p.good reports bytes revision ∨ (p.Aside op ∧ op.bytes = some bytes)

theorem Policy.Fetched.pair {bytes : Bytes} {revision : Token}
    (fetched : p.Fetched reports op bytes revision) (same : op.bytes = some bytes) :
    p.Pair reports op revision :=
  ⟨bytes, same, fetched.imp id And.left⟩

theorem reconcileRead_held (held : HeldAt p reports m) (ok : p.OpOk reports op)
    (failure : Option String) {reply : ReadReply}
    (sound : ∀ bytes revision, reply = .ok bytes revision → p.Fetched reports op bytes revision) :
    Preserves p reports (reconcileRead codec env op failure reply) m := by
  simp only [reconcileRead, wp_bind, wp_fetch, wp_whenever]
  refine ⟨fun _ => ?_, fun _ => held⟩
  cases reply with
  | failed error => exact finishNonsuccess_held held _ _ _ (by simp) (by simp)
  | ok bytes revision =>
      have fetched := sound bytes revision rfl
      -- the target of a Save As holds LOCAL, so only the first verdict is possible there
      have good : op.bytes ≠ some bytes → p.good reports bytes revision :=
        fun different => fetched.resolve_right fun aside => different aside.2
      dsimp only
      split
      · rename_i saved
        exact finishSuccess_held held (fetched.pair (RelayConflict.reconcileUncertain_saved saved)) _
      · rename_i retry
        have different : op.bytes ≠ some bytes := by
          intro same
          simp [RelayConflict.reconcileUncertain, same] at retry
        refine finishNonsuccess_held held _ _ _ ?_ (by simp)
        rintro st ⟨⟩
        have base := RelayConflict.reconcileUncertain_retry retry
        obtain ⟨b, there, same⟩ := Option.bind_eq_some_iff.mp base
        refine ⟨ok.base, ?_, fun _ => ⟨b, _, there, rfl, same⟩⟩
        rintro r ⟨⟩
        exact ⟨good different, by simp⟩
      · rename_i conflict
        have different : op.bytes ≠ some bytes := by
          intro same
          simp [RelayConflict.reconcileUncertain, same] at conflict
        refine finishNonsuccess_held held _ _ _ ?_ (fun _ => ⟨_, rfl, rfl⟩)
        rintro st ⟨⟩
        exact snapshotConflict_snap ok _ (good different) (by simp)

theorem snapshotConflict_convergent {reason : Reason} {remote : Remote} {revision : Token}
    (convergent : (snapshotConflict op reason remote).classification = some (.convergent revision)) :
    ((op.snapshot.bind (·.localBytes)) <|> op.bytes) = some remote.bytes :=
  (RelayConflict.classify_convergent (Option.some.inj convergent)).1

/-- An operation other than restore-base writes the LOCAL of the snapshot it resolves. -/
theorem Policy.OpOk.written (ok : p.OpOk reports op) (plain : op.mergeBuffer = none)
    (choice : op.choice ≠ some .restoreBase) :
    ((op.snapshot.bind (·.localBytes)) <|> op.bytes) = op.bytes := by
  cases snapshot : op.snapshot with
  | none => rfl
  | some st =>
      have same := ok.localBytes plain choice st snapshot
      cases bytes : st.localBytes with
      | none => simp [bytes]
      | some l =>
          rw [same, bytes]
          simp [bytes]

theorem settleConflict_held (held : HeldAt p reports m) (ok : p.OpOk reports op)
    (plain : op.mergeBuffer = none) (written : op.bytes.isSome = true) (reason : Reason)
    {remote : Remote} (fetched : p.Fetched reports op remote.bytes remote.revision)
    (restored : p.Restored reports op remote.bytes remote.revision)
    (gone : remote.deleted = true → remote.bytes = [] ∧ remote.revision = .missing) :
    Preserves p reports (settleConflict codec env op reason remote) m := by
  dsimp only [settleConflict]
  split
  · rename_i revision convergent
    have agrees := snapshotConflict_convergent convergent
    refine finishSuccess_held held ?_ _
    by_cases choice : op.choice = some .restoreBase
    · cases snapshot : op.snapshot.bind (·.localBytes) with
      | none =>
          rw [snapshot] at agrees
          exact fetched.pair agrees
      | some l =>
          obtain ⟨st, there, bytes⟩ := Option.bind_eq_some_iff.mp snapshot
          rw [snapshot] at agrees
          cases agrees
          obtain ⟨base, captured⟩ := Option.isSome_iff_exists.mp written
          exact ⟨base, captured, .inl (restored choice st there bytes base captured)⟩
    · rw [ok.written plain choice] at agrees
      exact fetched.pair agrees
  · rename_i different
    refine finishNonsuccess_held held _ _ _ ?_ (fun _ => ⟨_, rfl, rfl⟩)
    rintro st ⟨⟩
    refine snapshotConflict_snap ok _ (fetched.resolve_right ?_) gone
    rintro ⟨⟨saveAs, _⟩, same⟩
    refine different remote.revision ?_
    have choice : op.choice ≠ some .restoreBase := by rw [saveAs]; simp
    dsimp only [snapshotConflict]
    rw [(ok.written plain choice).trans same, RelayConflict.classify_same]

theorem conflictRead_held (held : HeldAt p reports m) (ok : p.OpOk reports op)
    (plain : op.mergeBuffer = none) (written : op.bytes.isSome = true) (reason : Reason)
    {reply : ReadReply} (sound : ∀ bytes revision, reply = .ok bytes revision →
      p.Fetched reports op bytes revision ∧ p.Restored reports op bytes revision)
    (deleted : ∀ error, reply = .failed error → reason = .kind .deleted →
      p.Fetched reports op [] .missing ∧ p.Restored reports op [] .missing) :
    Preserves p reports (conflictRead codec env op reason reply) m := by
  simp only [conflictRead, wp_bind, wp_fetch, wp_whenever]
  refine ⟨fun _ => ?_, fun _ => held⟩
  cases reply with
  | ok bytes revision =>
      obtain ⟨fetched, restored⟩ := sound bytes revision rfl
      exact settleConflict_held held ok plain written reason fetched restored (by simp)
  | failed error =>
      simp only [wp_ite]
      refine ⟨fun gone => ?_, fun _ => ?_⟩
      · obtain ⟨fetched, restored⟩ := deleted error rfl gone
        exact settleConflict_held held ok plain written reason fetched restored fun _ => ⟨rfl, rfl⟩
      · exact finishNonsuccess_held held _ _ _ (by simp) (by simp)

theorem reconcileTransport_held (held : HeldAt p reports m) (ok : p.OpOk reports op)
    (numbered : op.generation.isSome = true) (plain : op.mergeBuffer = none)
    (failure : Option String) :
    Preserves p reports (reconcileTransport env op failure) m := by
  refine fetchAsync_held held ?_
  exact ⟨ok, numbered, ⟨plain, rfl⟩, by simp, by simp⟩

theorem handleConflict_held (held : HeldAt p reports m) (ok : p.OpOk reports op)
    (numbered : op.generation.isSome = true) (plain : op.mergeBuffer = none)
    (written : op.bytes.isSome = true) {reply : WriteReply} (deleted : RelayConflict.replyReason reply = some (.kind .deleted) →
      p.good reports [] .missing ∨ p.Aside op) :
    Preserves p reports (handleConflict env op reply) m := by
  refine fetchAsync_held held ⟨ok, numbered, ⟨plain, written, rfl⟩, by simp, ?_⟩
  rintro other same
  cases reason : RelayConflict.replyReason reply with
  | none => simp [reason] at same
  | some found =>
      simp only [reason, Option.getD_some, Callback.conflictRead.injEq] at same
      rw [← same.1]
      exact deleted (by rw [reason, same.2])

theorem replyReason_deleted {reply : WriteReply}
    (reason : RelayConflict.replyReason reply = some (.kind .deleted)) :
    ∃ code error, reply = .refused code (some .deleted) error := by
  cases reply with
  | ok revision => cases reason
  | transport error => cases reason
  | refused code conflict error =>
      cases conflict with
      | some kind =>
          cases reason
          exact ⟨code, error, rfl⟩
      | none =>
          simp only [RelayConflict.replyReason] at reason
          split at reason <;> cases reason

theorem writeDone_held (held : HeldAt p reports m) {rpc : Rpc} (ok : p.RpcOk reports rpc)
    (callback : rpc.callback = .writeDone op) {reply : WriteReply}
    (accepted : rpc.accepts (.inl reply) = true)
    (success : ∀ revision, reply = .ok revision → ∀ bytes, op.bytes = some bytes →
      p.good reports bytes revision ∨ p.Aside op)
    (deleted : ∀ code error, reply = .refused code (some .deleted) error →
      p.good reports [] .missing ∨ p.Aside op) :
    Preserves p reports (writeDone codec env op reply) m := by
  have whole : p.OpOk reports op := by simpa [callback, Callback.operation] using ok.operation
  have numbered : op.generation.isSome = true := by
    simpa [callback, Callback.operation] using ok.numbered
  obtain ⟨plain, request⟩ : op.mergeBuffer = none ∧
      rpc.request = prepareWrite op.identity op.bytes op.expected op.saveAs := by
    simpa [Rpc.Formed, callback] using ok.formed
  have written : (∀ error, reply ≠ .transport error) → ∃ bytes, op.bytes = some bytes := by
    intro answered
    have sent : rpc.request.isSome = true := by
      cases reply with
      | transport error => exact absurd rfl (answered error)
      | ok revision => simpa [Rpc.accepts] using accepted
      | refused code conflict error => simpa [Rpc.accepts] using accepted
    exact prepareWrite_bytes (request ▸ sent)
  simp only [writeDone, wp_bind, wp_fetch, wp_whenever]
  refine ⟨fun _ => ?_, fun _ => held⟩
  cases reply with
  | ok revision =>
      obtain ⟨bytes, captured⟩ := written (by simp)
      exact finishSuccess_held held ⟨bytes, captured, success revision rfl bytes captured⟩ _
  | transport error => exact reconcileTransport_held held whole numbered plain error
  | refused code conflict error =>
      have sent : op.bytes.isSome = true := Option.isSome_iff_exists.mpr (written (by simp))
      simp only [wp_ite]
      refine ⟨fun _ => handleConflict_held held whole numbered plain sent fun reason => ?_,
        fun _ => ?_⟩
      · obtain ⟨code', error', same⟩ := replyReason_deleted reason
        exact deleted code' error' same
      · exact finishNonsuccess_held held _ _ _ (by simp) (by simp)

theorem inspected_held (held : HeldAt p reports m) (ok : p.OpOk reports op)
    {state : Option ConflictState} (snaps : ∀ st, state = some st → p.SnapOk reports st)
    (bytes : op.bytes = state.bind (·.localBytes)) {reply : ReadReply}
    (sound : ∀ bytes revision, reply = .ok bytes revision → p.good reports bytes revision) :
    Preserves p reports (inspected codec env op state reply) m := by
  cases reply with
  | failed error => exact finishNonsuccess_held held _ _ _ snaps (by simp)
  | ok content revision =>
      have good := sound content revision rfl
      dsimp only [inspected]
      split
      · rename_i saved
        have same := RelayConflict.reconcileUncertain_saved saved
        exact finishSuccess_held held ⟨content, bytes.trans same, .inl good⟩ _
      · rename_i retry
        have base := RelayConflict.reconcileUncertain_retry retry
        obtain ⟨b, there, same⟩ := Option.bind_eq_some_iff.mp base
        obtain ⟨st, known, its⟩ := Option.bind_eq_some_iff.mp there
        refine finishNonsuccess_held held _ _ _ ?_ (by simp)
        rintro _ ⟨⟩
        rw [known]
        refine ⟨(snaps st known).base, ?_, fun _ => ⟨b, _, its, rfl, same⟩⟩
        rintro r ⟨⟩
        exact ⟨good, by simp⟩
      · refine finishNonsuccess_held held _ _ _ ?_ (fun _ => ⟨_, rfl, rfl⟩)
        rintro st ⟨⟩
        exact snapshotConflict_snap ok _ good (by simp)

theorem HeldAt.setStatus (held : HeldAt p reports m) (idle : m.active = none) {status : Status}
    (shown : status ≠ .conflict) (result : Option SaveResult) :
    HeldAt p reports (m.setStatus status result) where
  stored := held.stored.setStatus status result
  settled := Settled.idle idle fun conflict => absurd (Option.some.inj conflict) shown
  same := held.same

theorem HeldAt.markModified (held : HeldAt p reports m) : HeldAt p reports m.markModified :=
  held.congr rfl

theorem installMerge_held (held : HeldAt p reports m) (idle : m.active = none)
    (revision : Token) : Preserves p reports (installMerge codec env op revision) m := by
  simp only [installMerge, wp_bind, wp_update, wp_runAfterSaveHook, wp_fetch, wp_whenever]
  refine wp_mono (eraseAndInsert_core _ _ _) ?_ fun _ t core => held.congr core
  intro _ t core
  have hooked : ((t.markClean op.identity).hooked env.afterSave).core = m.core := by
    rw [core_hooked, core_markClean, core]
  have here : HeldAt p reports ((t.markClean op.identity).hooked env.afterSave) :=
    held.congr hooked
  have none : ((t.markClean op.identity).hooked env.afterSave).active = none :=
    (congrArg Core.active hooked).trans idle
  refine ⟨fun _ => ?_, fun _ => ?_⟩
  · refine here.markModified.setStatus none ?_ _
    split <;> simp
  · refine here.setStatus none ?_ _
    split <;> simp

theorem finishMerge_held {revision : Token} {bytes : Bytes} (held : HeldAt p reports m)
    (shown : m.status ≠ some .conflict) (captured : op.bytes = some bytes)
    (good : p.good reports bytes revision) (sameFile installable : Bool) :
    Preserves p reports (finishMerge codec env op revision sameFile installable) m := by
  have cleared : HeldAt p reports m.clearOperations := held.clearOperations shown
  have recorded : HeldAt p reports
      ((m.clearOperations.recordBase op.bytes revision .utf8).setState none) := by
    refine ⟨⟨?_, Settled.idle rfl fun conflict => absurd conflict shown⟩, held.same⟩
    rw [captured]
    exact (cleared.stored.recordBase (held.same.symm ▸ good) _).setState (by simp)
  have ends : ∀ t : Machine, HeldAt p reports t → t.active = none →
      (installable = true → Preserves p reports (installMerge codec env op revision) t) ∧
      (¬ installable = true → HeldAt p reports
        (t.markModified.setStatus .savedNewer (some (.saved revision true)))) := by
    intro t here idle
    refine ⟨fun _ => installMerge_held here idle revision, fun _ => ?_⟩
    exact here.markModified.setStatus idle (by simp) _
  simp only [finishMerge, wp_bind, wp_update, wp_whenever, wp_ite]
  exact ⟨fun _ => ends _ recorded rfl, fun _ => ends _ cleared rfl⟩

theorem mergeSuccess_held (held : HeldAt p reports m) {revision : Token} {bytes : Bytes}
    (captured : op.bytes = some bytes) (good : p.good reports bytes revision) :
    Preserves p reports (mergeSuccess codec env op revision) m := by
  simp only [mergeSuccess, wp_bind]
  refine cacheIdentitySafely_held held captured (.inl good) ?_
  intro t here
  simp only [wp_fetch, wp_whenever, wp_update]
  refine ⟨fun current => ?_, fun _ => here.closeMerge _⟩
  have active : t.active = some op := current_active current
  have saving : t.status = some .saving := here.settled.saving (by rw [active]; rfl)
  refine wp_mono (finishMerge_held here (by simp [saving]) captured good _ _) ?_
    fun _ _ failed => failed
  exact fun _ u done => done.closeMerge _

theorem remoteResult_fresh {reply : ReadReply}
    (sound : ∀ bytes revision, reply = .ok bytes revision → p.good reports bytes revision) :
    ∀ r, remoteResult reply = some r → p.good reports r.bytes r.revision ∧ r.deleted = false := by
  intro r same
  cases reply with
  | failed error => cases same
  | ok bytes revision =>
      cases same
      exact ⟨sound bytes revision rfl, rfl⟩

section Merge

variable (held : HeldAt p reports m) (ok : p.OpOk reports op)
  (numbered : op.generation.isSome = true) (merge : op.mergeBuffer.isSome = true)

include held ok merge

theorem mergeLossRead_held {reply : ReadReply}
    (sound : ∀ bytes revision, reply = .ok bytes revision → p.good reports bytes revision) :
    Preserves p reports (mergeLossRead codec env op reply) m := by
  cases reply with
  | failed error => exact mergeRefusal_held held ok merge (by simp) _ _
  | ok bytes revision =>
      simp only [mergeLossRead, wp_ite]
      refine ⟨fun same => mergeSuccess_held held same (sound bytes revision rfl), fun _ => ?_⟩
      exact mergeRefusal_held held ok merge (remoteResult_fresh sound) _ _

theorem mergeConflictRead_held (reason : Reason) {reply : ReadReply}
    (sound : ∀ bytes revision, reply = .ok bytes revision → p.good reports bytes revision) :
    Preserves p reports (mergeConflictRead codec env op reason reply) m :=
  mergeRefusal_held held ok merge (remoteResult_fresh sound) _ _

include numbered

theorem mergeWriteDone_held {reply : WriteReply}
    (success : ∀ revision, reply = .ok revision →
      ∃ bytes, op.bytes = some bytes ∧ p.good reports bytes revision) :
    Preserves p reports (mergeWriteDone codec env op reply) m := by
  cases reply with
  | ok revision =>
      obtain ⟨bytes, captured, good⟩ := success revision rfl
      exact mergeSuccess_held held captured good
  | transport error =>
      exact fetchAsync_held held ⟨ok, numbered, ⟨merge, rfl⟩, by simp, by simp⟩
  | refused code conflict error =>
      dsimp only [mergeWriteDone]
      split
      · exact fetchAsync_held held ⟨ok, numbered, ⟨merge, rfl⟩, by simp, by simp⟩
      · exact mergeRefusal_held held ok merge (by simp) _ _

theorem mergeVerified_held {reply : ReadReply}
    (sound : ∀ bytes revision, reply = .ok bytes revision → p.good reports bytes revision) :
    Preserves p reports (mergeVerified codec env op reply) m := by
  simp only [mergeVerified, wp_bind, wp_fetch, wp_ite]
  refine ⟨fun _ => mergeRefusal_held held ok merge (by simp) _ _, fun _ => ?_⟩
  cases reply with
  | failed error => exact mergeRefusal_held held ok merge (by simp) _ _
  | ok bytes revision =>
      simp only [wp_ite]
      refine ⟨fun _ => ?_, fun same => ?_⟩
      · exact mergeRefusal_held held ok merge (remoteResult_fresh sound) _ _
      · refine writeSnapshotAsync_held held ⟨ok, numbered, ⟨merge, revision, rfl, ?_⟩, by simp,
          by simp⟩
        exact (not_not.mp same).symm

end Merge

/-- BASE as a capture chooses it: the given one, else the recorded one. -/
theorem captureOperation_held (held : HeldAt p reports m) {identity : Identity}
    (home : p.home (some identity)) {base : Option Base} {expected : Option Token}
    (known : ∀ b, base = some b → p.BaseOk reports b)
    (paired : ∀ token, expected = some token → ∃ b bytes, base = some b ∧ b.bytes = some bytes ∧
      p.good reports bytes token) :
    wp (captureOperation codec identity base expected)
      (fun op t => t = m ∧ p.OpOk reports op ∧ op.Ordinary ∧
        ∀ b, base = some b → op.base = some b)
      (fun _ t => t = m) m := by
  simp only [captureOperation, wp_bind, wp_fetch]
  split
  · rfl
  · rename_i b chosen
    have good : p.BaseOk reports b := by
      cases base with
      | some given => exact known b chosen
      | none => exact held.same ▸ held.stored.base b chosen
    have kept : ∀ given, base = some given → given = b := by
      rintro given rfl
      exact Option.some.inj chosen
    refine ⟨rfl, ⟨home, ?_, by simp, ?_, by simp, by simp, by simp, rfl, by simp⟩, ⟨rfl, rfl, rfl⟩,
      ?_⟩
    · rintro _ ⟨⟩
      exact good
    · intro token wanted
      cases expected with
      | none =>
          obtain ⟨bytes, there, pair⟩ := good
          exact .inr (.inl ⟨b, bytes, rfl, there, Option.some.inj wanted ▸ pair⟩)
      | some precondition =>
          obtain ⟨given, bytes, there, its, pair⟩ := paired token wanted
          exact .inr (.inl ⟨b, bytes, rfl, kept given there ▸ its, pair⟩)
    · intro given there
      rw [kept given there]

/-- Capturing leaves the core alone and yields an ordinary operation that is good when BASE is. -/
theorem capture_held (held : HeldAt p reports m) {base : Option Base} {expected : Option Token}
    (known : ∀ b, base = some b → p.BaseOk reports b)
    (paired : ∀ token, expected = some token → ∃ b bytes, base = some b ∧ b.bytes = some bytes ∧
      p.good reports bytes token) :
    wp (capture codec env base expected)
      (fun op t => t.core = m.core ∧ p.OpOk reports op ∧ op.Ordinary ∧
        ∀ b, base = some b → op.base = some b)
      (fun _ t => t.core = m.core) m := by
  simp only [capture, wp_bind, wp_fetch]
  split
  · exact rfl
  · rename_i identity visited
    rw [wp_bind]
    refine wp_mono preSave_core ?_ fun _ _ core => core
    intro _ t core
    have home : p.home (some identity) := visited ▸ held.stored.home
    refine wp_mono (captureOperation_held (held.congr core) home known paired) ?_ ?_
    · rintro op u ⟨rfl, rest⟩
      exact ⟨core, rest⟩
    · rintro _ u rfl
      exact core

theorem retryStateOperation_held (held : HeldAt p reports m)
    (retry : m.state.bind (·.status) = some .retry) :
    wp (retryStateOperation codec env)
      (fun op t => t.core = m.core ∧ p.OpOk reports op ∧ op.Ordinary)
      (fun _ t => t.core = m.core) m := by
  obtain ⟨st, state, status⟩ := Option.bind_eq_some_iff.mp retry
  have ok : p.SnapOk reports st := held.same ▸ held.stored.state st state
  obtain ⟨b, r, base, remote, same⟩ := ok.retry status
  simp only [retryStateOperation, wp_bind, wp_fetch, state, Option.bind_some, base, remote,
    Option.map_some]
  refine wp_mono (capture_held held ?_ ?_) ?_ fun _ _ core => core
  · rintro _ ⟨⟩
    exact ok.base b base
  · rintro token ⟨⟩
    exact ⟨b, r.bytes, rfl, same, (ok.remote r remote).1⟩
  · rintro op t ⟨core, good, ordinary, kept⟩
    simp only [wp_ite, wp_pure]
    refine ⟨fun _ => ⟨core, good, ordinary⟩, fun _ => ⟨core, ?_, ?_⟩⟩
    · refine { good with expected := ?_ }
      rintro token ⟨⟩
      obtain ⟨bytes, there, pair⟩ := ok.base b base
      exact .inr (.inl ⟨b, bytes, kept b rfl, there, pair⟩)
    · exact ⟨ordinary.plain, ordinary.choice, ordinary.snapshot⟩

end EmacsRelay

import EmacsRelay.Client.HeldRun

set_option autoImplicit false

/- A save in flight shows, and nothing else does: the status is `saving` exactly while an
operation is active, also when steps of a callback signal. -/
namespace EmacsRelay

open Routine Editor RelaySave

/-- Nobody is told to wait for an operation that is gone. -/
def Tidy (m : Machine) : Prop := m.status = some .saving → m.active.isSome = true

/-- The replies that end an operation with success. -/
def Completes : Callback → AnyReply → Prop
  | .writeDone _, .inl (.ok _) => True
  | .reconcileRead op _, .inr (.ok bytes _) => op.bytes = some bytes
  | .conflictRead op _, .inr (.ok bytes _) =>
      ((op.snapshot.bind (·.localBytes)) <|> op.bytes) = some bytes
  | .conflictRead op reason, .inr (.failed _) =>
      reason = .kind .deleted ∧ ((op.snapshot.bind (·.localBytes)) <|> op.bytes) = some []
  | .inspected _ state, .inr (.ok bytes _) => state.bind (·.localBytes) = some bytes
  | .mergeWriteDone _, .inl (.ok _) => True
  | .mergeLossRead op, .inr (.ok bytes _) => op.bytes = some bytes
  | _, _ => False

/-- Success of this operation would replace the live text: the restored BASE or the merge is to
be installed over the text it was decided for. -/
structure Installing (codec : Codec) (m : Machine) (op : Operation) : Prop where
  live : m.live = true
  current : m.operationCurrent op = true
  same : m.liveIdentityEqual op.identity = true
  untouched : some (m.bytes codec) = op.snapshot.bind (·.localBytes)
  replaces : op.choice = some .restoreBase ∨ op.mergeBuffer.isSome = true

/-- The text can be replaced, with bytes that are there. -/
structure Replaceable (env : Env) (op : Operation) : Prop where
  erase : env.fails .erase = false
  insert : env.fails .insert = false
  bytes : op.bytes.isSome = true

variable {codec : Codec} {env : Env} {m : Machine} {op : Operation}

/-- `body` leaves the machine tidy, whether it returns or signals. -/
abbrev Tidies {α : Type} (body : Lisp α) (m : Machine) : Prop :=
  wp body (fun _ t => Tidy t) (fun _ t => Tidy t) m

theorem Tidy.of_status {status : Status} (shown : m.status = some status) (other : status ≠ .saving) :
    Tidy m := by
  intro saving
  exact absurd (Option.some.inj (shown.symm.trans saving)) other

theorem Tidy.of_active (active : m.active = some op) : Tidy m := by
  intro _
  rw [active]
  rfl

theorem finishNonsuccess_tidies {status : Status} {result : SaveResult}
    {conflict : Option ConflictState} (other : status ≠ .saving) (tidy : Tidy m) :
    Tidies (finishNonsuccess op status result conflict) m := by
  simp only [finishNonsuccess, wp_bind, wp_fetch, wp_whenever, wp_update]
  refine ⟨fun _ => ⟨fun _ => ?_, fun _ => ?_⟩, fun _ => tidy⟩
  · exact .of_status rfl other
  · exact .of_status rfl other

theorem mergeRefusal_tidies {status : MergeStatus} {reason : Reason} {remote : Option Remote}
    (tidy : Tidy m) : Tidies (mergeRefusal codec env op status reason remote) m := by
  have shown : status.status ≠ .saving := by cases status <;> simp [MergeStatus.status]
  simp only [mergeRefusal, wp_bind, wp_fetch, wp_whenever, wp_update]
  refine ⟨fun _ => ?_, fun _ => tidy⟩
  unfold conflictMergeRefusal
  cases op.bytes with
  | none => simp [tidy]
  | some bytes =>
      simp only [wp_bind, wp_recoveryBuffer, wp_fetch, wp_update, wp_pure]
      exact ⟨fun _ => tidy, fun _ => .of_status rfl shown⟩

theorem callbackError_tidies (tidy : Tidy m) (error : LispError) :
    Tidies (callbackError codec env op error) m := by
  unfold callbackError
  split
  · exact mergeRefusal_tidies tidy
  · exact finishNonsuccess_tidies (by simp) tidy

theorem fetchAsync_tidies (tidy : Tidy m) (identity : Option Identity) (callback : Callback) :
    Tidies (fetchAsync env identity callback) m := by
  simp only [fetchAsync, wp_bind, wp_mayFail, wp_update]
  exact ⟨fun _ => tidy, fun _ => tidy⟩

/-- Dispatching makes an operation active, whatever was there. -/
theorem dispatch_tidies (op : Operation) (m : Machine) : Tidies (dispatch codec env op) m := by
  simp only [dispatch, writeSnapshotAsync, wp_bind, wp_fetch, wp_update, wp_rescue, wp_mayFail]
  refine ⟨fun _ => callbackError_tidies (.of_active rfl) _, fun _ => .of_active rfl⟩

theorem queueOrDispatch_tidies (tidy : Tidy m) : Tidies (queueOrDispatch codec env op) m := by
  simp only [queueOrDispatch, wp_bind, wp_fetch, wp_ite, wp_update, wp_pure]
  exact ⟨fun _ => ⟨fun _ => tidy, fun _ => ⟨fun _ => tidy, fun _ => tidy⟩⟩,
    fun _ => dispatch_tidies op m⟩

theorem displayed_tidies {status : Status} {result : Option SaveResult} (other : status ≠ .saving)
    (m : Machine) : Tidies (.update (·.setStatus status result)) m :=
  .of_status rfl other

theorem dispatchQueued_tidies (revision : Token) (statusExtra sameBytes : Bool)
    (queued : Option Operation) (m : Machine) :
    Tidies (dispatchQueued codec env op revision statusExtra sameBytes queued) m := by
  cases queued with
  | none => exact displayed_tidies (by split <;> simp) m
  | some next =>
      simp only [dispatchQueued, wp_bind, wp_update]
      exact dispatch_tidies _ _

/-- The end of an ordinary success signals nothing before the status is set. -/
theorem finishOrdinary_tidies (revision : Token) (statusExtra sameFile sameBytes : Bool)
    (queued : Option Operation) (m : Machine) :
    Tidies (finishOrdinary codec env op revision statusExtra sameFile sameBytes queued) m := by
  have ends : ∀ same t, wp (confirmBytes codec env op same)
      (fun same => wp (dispatchQueued codec env op revision statusExtra same
        (queued.filter fun next => sameFile && identityEqual op.identity next.identity))
        (fun _ t => Tidy t) (fun _ t => Tidy t)) (fun _ t => Tidy t) t := by
    intro same t
    have rest : ∀ same t, Tidies (dispatchQueued codec env op revision statusExtra same
        (queued.filter fun next => sameFile && identityEqual op.identity next.identity)) t :=
      fun same t => dispatchQueued_tidies revision statusExtra same _ t
    cases same with
    | true => simp [confirmBytes, rest]
    | false => simp [confirmBytes, rest]
  simp only [finishOrdinary, wp_bind, wp_whenever, wp_update]
  exact ⟨fun _ => ends _ _, fun _ => ends _ _⟩

theorem finishRestoreBase_tidies (replaceable : Replaceable env op) (revision : Token)
    (m : Machine) : Tidies (finishRestoreBase codec env op revision) m := by
  obtain ⟨bytes, captured⟩ := Option.isSome_iff_exists.mp replaceable.bytes
  simp only [finishRestoreBase, captured, wp_bind, wp_eraseAndInsert, replaceable.erase,
    replaceable.insert, wp_update, wp_runAfterSaveHook, wp_fetch, reduceCtorEq, false_implies,
    true_and, forall_const]
  exact .of_status rfl (by split <;> simp)

theorem installMerge_tidies (replaceable : Replaceable env op) (revision : Token) (m : Machine) :
    Tidies (installMerge codec env op revision) m := by
  obtain ⟨bytes, captured⟩ := Option.isSome_iff_exists.mp replaceable.bytes
  simp only [installMerge, captured, wp_bind, wp_eraseAndInsert, replaceable.erase,
    replaceable.insert, wp_update, wp_runAfterSaveHook, wp_fetch, wp_whenever, reduceCtorEq,
    false_implies, true_and, forall_const]
  exact ⟨fun _ => .of_status rfl (by split <;> simp), fun _ => .of_status rfl (by split <;> simp)⟩

section Success

variable (installs : Installing codec m op → Replaceable env op)

include installs

theorem completeSuccess_tidies (live : m.live = true) (current : m.operationCurrent op = true)
    (revision : Token) (statusExtra : Bool) :
    Tidies (completeSuccess codec env op revision statusExtra) m := by
  simp only [completeSuccess, wp_bind, wp_fetch, wp_update, wp_ite]
  refine ⟨fun _ => .of_status rfl (by simp), fun _ => ⟨fun restore => ?_, fun _ => ?_⟩⟩
  · exact finishRestoreBase_tidies
      (installs ⟨live, current, restore.2.1, restore.2.2, .inl restore.1⟩) revision _
  · exact finishOrdinary_tidies revision statusExtra _ _ _ _

theorem finishSuccess_tidies (tidy : Tidy m) (revision : Token) (statusExtra : Bool) :
    Tidies (finishSuccess codec env op revision statusExtra) m := by
  -- filling the cache leaves everything else alone
  have proceeds : ∀ t : Machine, (Installing codec t op → Installing codec m op) →
      (t.live && t.operationCurrent op) = true →
      Tidies (completeSuccess codec env op revision statusExtra) t := by
    intro t back current
    rw [Bool.and_eq_true] at current
    exact completeSuccess_tidies (fun installing => installs (back installing)) current.1 current.2
      revision statusExtra
  simp only [finishSuccess, wp_bind, wp_cacheIdentitySafely, wp_fetch, wp_whenever]
  refine ⟨fun _ => ⟨proceeds m id, fun _ => tidy⟩, fun _ => ⟨proceeds _ ?_, fun _ => tidy⟩⟩
  exact fun installing => ⟨installing.live, installing.current, installing.same,
    installing.untouched, installing.replaces⟩

theorem finishMerge_tidies (merge : op.mergeBuffer.isSome = true) (live : m.live = true)
    (current : m.operationCurrent op = true) (revision : Token) :
    Tidies (finishMerge codec env op revision (m.liveIdentityEqual op.identity)
      (m.liveIdentityEqual op.identity &&
        some (m.bytes codec) == op.snapshot.bind (·.localBytes))) m := by
  have installed : ∀ t, (m.liveIdentityEqual op.identity &&
      some (m.bytes codec) == op.snapshot.bind (·.localBytes)) = true →
      Tidies (installMerge codec env op revision) t := by
    intro t installable
    rw [Bool.and_eq_true, beq_iff_eq] at installable
    exact installMerge_tidies
      (installs ⟨live, current, installable.1, installable.2, .inr merge⟩) revision t
  simp only [finishMerge, wp_bind, wp_update, wp_whenever, wp_ite]
  exact ⟨fun _ => ⟨installed _, fun _ => .of_status rfl (by simp)⟩,
    fun _ => ⟨installed _, fun _ => .of_status rfl (by simp)⟩⟩

theorem mergeSuccess_tidies (merge : op.mergeBuffer.isSome = true) (tidy : Tidy m)
    (revision : Token) : Tidies (mergeSuccess codec env op revision) m := by
  have proceeds : ∀ t : Machine, (Installing codec t op → Installing codec m op) →
      (t.live && t.operationCurrent op) = true →
      Tidies (finishMerge codec env op revision (t.liveIdentityEqual op.identity)
        (t.liveIdentityEqual op.identity &&
          some (t.bytes codec) == op.snapshot.bind (·.localBytes))) t := by
    intro t back current
    rw [Bool.and_eq_true] at current
    exact finishMerge_tidies (fun installing => installs (back installing)) merge current.1
      current.2 revision
  simp only [mergeSuccess, wp_bind, wp_cacheIdentitySafely, wp_fetch, wp_whenever, wp_update]
  refine ⟨fun _ => ⟨proceeds m id, fun _ => tidy⟩, fun _ => ⟨proceeds _ ?_, fun _ => tidy⟩⟩
  exact fun installing => ⟨installing.live, installing.current, installing.same,
    installing.untouched, installing.replaces⟩

end Success

section Callbacks

variable (tidy : Tidy m)

include tidy

theorem writeDone_tidies {reply : WriteReply}
    (installs : Completes (.writeDone op) (.inl reply) → Installing codec m op →
      Replaceable env op) : Tidies (writeDone codec env op reply) m := by
  simp only [writeDone, wp_bind, wp_fetch, wp_whenever]
  refine ⟨fun _ => ?_, fun _ => tidy⟩
  cases reply with
  | ok revision => exact finishSuccess_tidies (installs trivial) tidy _ _
  | transport error => exact fetchAsync_tidies tidy _ _
  | refused code kind error =>
      simp only [wp_ite]
      exact ⟨fun _ => fetchAsync_tidies tidy _ _, fun _ => finishNonsuccess_tidies (by simp) tidy⟩

theorem reconcileRead_tidies {failure : Option String} {reply : ReadReply}
    (installs : Completes (.reconcileRead op failure) (.inr reply) → Installing codec m op →
      Replaceable env op) : Tidies (reconcileRead codec env op failure reply) m := by
  simp only [reconcileRead, wp_bind, wp_fetch, wp_whenever]
  refine ⟨fun _ => ?_, fun _ => tidy⟩
  cases reply with
  | failed error => exact finishNonsuccess_tidies (by simp) tidy
  | ok bytes revision =>
      dsimp only
      split
      · rename_i saved
        have same := RelayConflict.reconcileUncertain_saved saved
        exact finishSuccess_tidies (installs same) tidy _ _
      · exact finishNonsuccess_tidies (by simp) tidy
      · exact finishNonsuccess_tidies (by simp) tidy

theorem settleConflict_tidies {reason : Reason} {remote : Remote}
    (installs : ((op.snapshot.bind (·.localBytes)) <|> op.bytes) = some remote.bytes →
      Installing codec m op → Replaceable env op) :
    Tidies (settleConflict codec env op reason remote) m := by
  dsimp only [settleConflict]
  split
  · rename_i convergent
    have same := RelayConflict.classify_convergent (Option.some.inj convergent)
    exact finishSuccess_tidies (installs same.1) tidy _ _
  · exact finishNonsuccess_tidies (by simp) tidy

theorem conflictRead_tidies {reason : Reason} {reply : ReadReply}
    (installs : Completes (.conflictRead op reason) (.inr reply) → Installing codec m op →
      Replaceable env op) : Tidies (conflictRead codec env op reason reply) m := by
  simp only [conflictRead, wp_bind, wp_fetch, wp_whenever]
  refine ⟨fun _ => ?_, fun _ => tidy⟩
  cases reply with
  | ok bytes revision => exact settleConflict_tidies tidy installs
  | failed error =>
      simp only [wp_ite]
      refine ⟨fun deleted => ?_, fun _ => finishNonsuccess_tidies (by simp) tidy⟩
      exact settleConflict_tidies tidy fun empty => installs ⟨deleted, empty⟩

theorem inspected_tidies {state : Option ConflictState} {reply : ReadReply}
    (installs : Completes (.inspected op state) (.inr reply) → Installing codec m op →
      Replaceable env op) : Tidies (inspected codec env op state reply) m := by
  cases reply with
  | failed error => exact finishNonsuccess_tidies (by simp) tidy
  | ok bytes revision =>
      dsimp only [inspected]
      split
      · rename_i saved
        have same := RelayConflict.reconcileUncertain_saved saved
        exact finishSuccess_tidies (installs same) tidy _ _
      · exact finishNonsuccess_tidies (by simp) tidy
      · exact finishNonsuccess_tidies (by simp) tidy

theorem mergeVerified_tidies (reply : ReadReply) : Tidies (mergeVerified codec env op reply) m := by
  simp only [mergeVerified, wp_bind, wp_fetch, wp_ite]
  refine ⟨fun _ => mergeRefusal_tidies tidy, fun _ => ?_⟩
  cases reply with
  | failed error => exact mergeRefusal_tidies tidy
  | ok bytes revision =>
      simp only [wp_ite, writeSnapshotAsync, wp_bind, wp_mayFail, wp_update]
      exact ⟨fun _ => mergeRefusal_tidies tidy, fun _ => ⟨fun _ => tidy, fun _ => tidy⟩⟩

theorem mergeWriteDone_tidies (merge : op.mergeBuffer.isSome = true) {reply : WriteReply}
    (installs : Completes (.mergeWriteDone op) (.inl reply) → Installing codec m op →
      Replaceable env op) : Tidies (mergeWriteDone codec env op reply) m := by
  cases reply with
  | ok revision => exact mergeSuccess_tidies (installs trivial) merge tidy _
  | transport error => exact fetchAsync_tidies tidy _ _
  | refused code kind error =>
      dsimp only [mergeWriteDone]
      split
      · exact fetchAsync_tidies tidy _ _
      · exact mergeRefusal_tidies tidy

theorem mergeLossRead_tidies (merge : op.mergeBuffer.isSome = true) {reply : ReadReply}
    (installs : Completes (.mergeLossRead op) (.inr reply) → Installing codec m op →
      Replaceable env op) : Tidies (mergeLossRead codec env op reply) m := by
  cases reply with
  | failed error => exact mergeRefusal_tidies tidy
  | ok bytes revision =>
      simp only [mergeLossRead, wp_ite]
      exact ⟨fun same => mergeSuccess_tidies (installs same) merge tidy _,
        fun _ => mergeRefusal_tidies tidy⟩

end Callbacks

theorem callbackBody_tidies {p : Policy} {reports : List Report} (tidy : Tidy m) {rpc : Rpc}
    (ok : p.RpcOk reports rpc) {reply : AnyReply}
    (installs : Completes rpc.callback reply → Installing codec m rpc.callback.operation →
      Replaceable env rpc.callback.operation) :
    Tidies (callbackBody codec env rpc.callback reply) m := by
  obtain ⟨request, callback⟩ := rpc
  have formed := ok.formed
  unfold Rpc.Formed at formed
  cases callback with
  | writeDone op =>
      cases reply with
      | inr reply => exact tidy
      | inl reply => exact writeDone_tidies tidy installs
  | reconcileRead op failure =>
      cases reply with
      | inl reply => exact tidy
      | inr reply => exact reconcileRead_tidies tidy installs
  | conflictRead op reason =>
      cases reply with
      | inl reply => exact tidy
      | inr reply => exact conflictRead_tidies tidy installs
  | inspected op state =>
      cases reply with
      | inl reply => exact tidy
      | inr reply => exact inspected_tidies tidy installs
  | mergeVerified op =>
      cases reply with
      | inl reply => exact tidy
      | inr reply => exact mergeVerified_tidies tidy reply
  | mergeWriteDone op =>
      cases reply with
      | inr reply => exact tidy
      | inl reply => exact mergeWriteDone_tidies tidy formed.1 installs
  | mergeLossRead op =>
      cases reply with
      | inl reply => exact tidy
      | inr reply => exact mergeLossRead_tidies tidy formed.1 installs
  | mergeConflictRead op reason =>
      cases reply with
      | inl reply => exact tidy
      | inr reply => exact mergeRefusal_tidies tidy

theorem Tidy.of_core {t : Machine} (tidy : Tidy m) (same : t.core = m.core) : Tidy t := by
  have status : t.status = m.status := congrArg Core.status same
  have active : t.active = m.active := congrArg Core.active same
  intro saving
  rw [active]
  exact tidy (status.symm.trans saving)

theorem capture_core (base : Option Base) (expected : Option Token) :
    wp (capture codec env base expected) (fun _ t => t.core = m.core)
      (fun _ t => t.core = m.core) m := by
  simp only [capture, wp_bind, wp_fetch]
  split
  · rfl
  · rw [wp_bind]
    refine wp_mono preSave_core ?_ fun _ _ core => core
    intro _ t core
    simp only [captureOperation, wp_bind, wp_fetch]
    split
    · exact core
    · exact core

theorem inspectUnknown_tidies (m : Machine) : Tidies (inspectUnknown codec env) m := by
  simp only [inspectUnknown, fetchAsync, wp_bind, wp_fetch, wp_update, wp_rescue, wp_mayFail]
  exact ⟨fun _ => callbackError_tidies (.of_active rfl) _, fun _ => .of_active rfl⟩

theorem resolutionOperation_tidies (tidy : Tidy m) (snapshot : Option ConflictState)
    (choice : Choice) (saveAs : Option String) :
    Tidies (resolutionOperation codec env snapshot choice saveAs) m := by
  simp only [resolutionOperation, wp_bind, wp_fetch]
  split
  · simp [tidy]
  · rw [wp_bind]
    cases snapshot.bind (·.localBytes) with
    | none => simp [tidy]
    | some bytes =>
        rw [wp_recoveryBuffer]
        refine ⟨fun _ => tidy, fun _ => ?_⟩
        split
        · exact tidy
        · simp only [wp_bind, wp_recoveryBuffer, wp_pure]
          exact ⟨fun _ => tidy, fun _ => tidy⟩
  · exact tidy

theorem keepRemote_tidies (tidy : Tidy m) (snapshot : Option ConflictState) :
    Tidies (keepRemote codec env snapshot) m := by
  simp only [keepRemote, wp_bind, wp_update, wp_fetch]
  cases snapshot.bind (·.localBytes) with
  | none => simp [tidy]
  | some bytes =>
      have shown : (.saved : Status) ≠ .saving := by simp
      simp only [wp_recoveryBuffer, wp_eraseAndInsert, wp_cacheIdentitySafely]
      exact ⟨fun _ => tidy, fun _ => ⟨fun _ => tidy, fun _ => ⟨fun _ => tidy, fun _ =>
        ⟨fun _ => .of_status rfl shown, fun _ => .of_status rfl shown⟩⟩⟩⟩

theorem resolveReadyConflict_tidies (tidy : Tidy m) : Tidies (resolveReadyConflict codec env) m := by
  simp only [resolveReadyConflict, wp_bind, wp_fetch]
  split
  · exact tidy
  · exact tidy
  · simp only [startEdiff, wp_bind, wp_mayFail]
    refine ⟨fun _ => tidy, fun _ => ?_⟩
    split
    · exact tidy
    · exact tidy
  · exact keepRemote_tidies tidy _
  · rw [wp_bind]
    refine wp_mono (resolutionOperation_tidies tidy _ _ _) ?_ fun _ _ failed => failed
    exact fun op t _ => dispatch_tidies op t

theorem saveBufferAsync_tidies (tidy : Tidy m) : Tidies (saveBufferAsync codec env) m := by
  simp only [saveBufferAsync, wp_bind, wp_fetch, wp_ite, wp_signal, wp_pure]
  refine ⟨fun _ => tidy, fun _ => ⟨fun _ => resolveReadyConflict_tidies tidy, fun _ =>
    ⟨fun _ => ?_, fun _ => ⟨fun _ => inspectUnknown_tidies m, fun _ => ⟨fun _ => ?_,
      fun _ => tidy⟩⟩⟩⟩⟩
  · simp only [retryStateOperation, wp_bind, wp_fetch]
    refine wp_mono (capture_core _ _) ?_ fun _ _ core => tidy.of_core core
    intro op t core
    simp only [wp_ite, wp_pure]
    exact ⟨fun _ => queueOrDispatch_tidies (tidy.of_core core),
      fun _ => queueOrDispatch_tidies (tidy.of_core core)⟩
  · refine wp_mono (capture_core _ _) ?_ fun _ _ core => tidy.of_core core
    exact fun op t core => queueOrDispatch_tidies (tidy.of_core core)

theorem applyMergeAsync_tidies (tidy : Tidy m) (merge : Nat) (merged : Bytes) :
    Tidies (applyMergeAsync codec env merge merged) m := by
  simp only [applyMergeAsync, wp_bind, wp_fetch]
  split
  · exact tidy
  · simp only [wp_ite, wp_signal, wp_bind, wp_update, wp_rescue, fetchAsync, wp_mayFail]
    refine ⟨fun _ => tidy, fun _ => ⟨fun _ => tidy, fun _ => ⟨fun _ => mergeRefusal_tidies tidy,
      fun _ => ⟨fun _ => callbackError_tidies (.of_active rfl) _, fun _ => .of_active rfl⟩⟩⟩⟩

/-- An operation about to replace the text has bytes to replace it with. -/
theorem installing_bytes {p : Policy} {reports : List Report} {rpc : Rpc} {reply : AnyReply}
    (ok : p.RpcOk reports rpc) (accepted : rpc.accepts reply = true)
    (completes : Completes rpc.callback reply)
    (installing : Installing codec m rpc.callback.operation) :
    rpc.callback.operation.bytes.isSome = true := by
  obtain ⟨request, callback⟩ := rpc
  have formed := ok.formed
  unfold Rpc.Formed at formed
  cases callback with
  | writeDone op =>
      have written : ∃ revision, reply = .inl (.ok revision) := by
        cases reply with
        | inl answer =>
            cases answer with
            | ok revision => exact ⟨revision, rfl⟩
            | _ => exact completes.elim
        | inr read => exact completes.elim
      obtain ⟨revision, rfl⟩ := written
      have sent : (prepareWrite op.identity op.bytes op.expected op.saveAs).isSome = true := by
        rw [← formed.2]
        simpa [Rpc.accepts] using accepted
      exact Option.isSome_iff_exists.mpr (prepareWrite_bytes sent)
  | reconcileRead op failure =>
      cases reply with
      | inl answer => exact completes.elim
      | inr read =>
          cases read with
          | ok bytes revision => exact Option.isSome_iff_exists.mpr ⟨bytes, completes⟩
          | _ => exact completes.elim
  | conflictRead op reason => exact formed.2.1
  | inspected op state =>
      have plain : op.mergeBuffer = none := formed.1
      have chosen : op.choice = none := formed.2.2.1
      have replaces : op.choice = some .restoreBase ∨ op.mergeBuffer.isSome = true :=
        installing.replaces
      simp [plain, chosen] at replaces
  | mergeVerified op => exact completes.elim
  | mergeWriteDone op => exact (ok.operation.merged formed.1).1
  | mergeLossRead op =>
      cases reply with
      | inl answer => exact completes.elim
      | inr read =>
          cases read with
          | ok bytes revision => exact Option.isSome_iff_exists.mpr ⟨bytes, completes⟩
          | _ => exact completes.elim
  | mergeConflictRead op reason => exact completes.elim

/-- The live text can be erased and filled whenever a success is about to replace it. -/
def Unbroken (codec : Codec) (m : Machine) : Event → Prop
  | .reply index reply env => ∀ rpc, m.rpcs[index]? = some rpc → Completes rpc.callback reply →
      Installing codec m rpc.callback.operation →
      env.fails .erase = false ∧ env.fails .insert = false
  | _ => True

theorem tidy_stepLive (tidy : Tidy m) (event : Event) : Tidy (stepLive codec m event) := by
  cases event with
  | save env => exact after_of_wp (saveBufferAsync_tidies tidy)
  | applyMerge merge merged env => exact after_of_wp (applyMergeAsync_tidies tidy merge merged)
  | narrow buffer =>
      simp only [stepLive]
      split
      · exact tidy
      · exact tidy
  | reload bytes revision =>
      simp only [stepLive, Machine.reload]
      split
      · exact tidy
      · exact tidy
  | expire generation =>
      simp only [stepLive]
      split
      · exact fun saving => by cases saving
      · exact tidy
  | _ => exact tidy

theorem tidy_step {p : Policy} (held : Held p m) (tidy : Tidy m) {event : Event}
    (unbroken : Unbroken codec m event) : Tidy (step codec m event) := by
  have live : Tidy (if m.live then stepLive codec m event else m) := by
    split
    · exact tidy_stepLive tidy event
    · exact tidy
  cases event with
  | reply index reply env =>
      simp only [step]
      split
      · exact tidy
      · rename_i rpc found
        split
        · rename_i accepted
          have ok := held.stored.rpcs rpc (List.mem_of_getElem? found)
          have noted : Tidy (m.note (rpc.reports reply)) := tidy
          have guarded : Tidies (runCallback codec env rpc.callback reply)
              (m.note (rpc.reports reply)) := by
            simp only [runCallback, wp_rescue]
            refine wp_mono (callbackBody_tidies noted ok ?_) (fun _ _ done => done)
              fun error _ torn => callbackError_tidies torn error
            intro completes installing
            have here : Installing codec m rpc.callback.operation :=
              ⟨installing.live, installing.current, installing.same, installing.untouched,
                installing.replaces⟩
            obtain ⟨erases, inserts⟩ := unbroken rpc found completes here
            exact ⟨erases, inserts, installing_bytes ok accepted completes here⟩
          exact after_of_wp guarded
        · exact tidy
  | abandonMerge merge =>
      have kept : Tidies (abandonMerge merge) m := by
        simp only [abandonMerge, wp_bind, wp_fetch]
        split
        · exact tidy
        · simp only [wp_bind, wp_whenever, wp_update]
          exact ⟨fun _ => tidy, fun _ => tidy⟩
      exact after_of_wp kept
  | prefetch authority path bytes revision => exact tidy
  | evict key => exact tidy
  | edit buffer => exact live
  | narrow buffer => exact live
  | rename fileName => exact live
  | toggleModified modified => exact live
  | reload bytes revision => exact live
  | save env => exact live
  | applyMerge merge merged env => exact live
  | expire generation => exact live
  | kill => exact live

/-- In every run in which the text can be replaced where a success replaces it, the status is
`saving` exactly while an operation is active, whatever else signals. -/
theorem saving_iff_active {identity : Identity} {bytes : Bytes} {revision : Token}
    (reached : Runs codec (Unbroken codec) (.opened codec identity bytes revision) m) :
    m.status = some .saving ↔ m.active.isSome = true := by
  have both : Held anyPair m ∧ Tidy m := by
    induction reached with
    | refl => exact ⟨opened_held trivial trivial, fun saving => nomatch saving⟩
    | @next s event _ unbroken ih =>
        exact ⟨held_step ih.1 (anyPair_sound s event), tidy_step ih.1 ih.2 unbroken⟩
  exact ⟨both.2, both.1.settled.saving⟩

/-- Restoring BASE is chosen, and its write is acknowledged where the text cannot be erased. -/
def restoring (env : Env) : List Event :=
  conflicted ++ [.save { key := .choice .restoreBase }, .reply 2 (.inl (.ok (sampleToken 3))) env]

def restored : Machine := runAll asciiCodec visitedFile (restoring {})

def stranded : Machine :=
  runAll asciiCodec visitedFile (restoring { fails := fun site => site == .erase })

theorem saving_iff_active_restored :
    restored.status = some .saved ∧
    (restored.status = some .saving ↔ restored.active.isSome = true) := by
  have reached : Runs asciiCodec (Unbroken asciiCodec) visitedFile restored := by
    apply Reaches.of_along .refl
    exact ⟨True.intro, True.intro, fun _ _ _ _ => ⟨rfl, rfl⟩, fun _ _ _ _ => ⟨rfl, rfl⟩, True.intro,
      fun _ _ _ _ => ⟨rfl, rfl⟩, True.intro⟩
  exact ⟨by decide, saving_iff_active reached⟩

/-- The operation is gone when the error reaches the handler, and the status stays. -/
theorem erase_error_strands_saving :
    ¬ ∀ m, Runs asciiCodec AnyStep visitedFile m →
      (m.status = some .saving ↔ m.active.isSome = true) := by
  intro coherent
  have active := (coherent stranded (runs_any _ _ _)).mp (by decide)
  exact absurd active (by decide)

end EmacsRelay

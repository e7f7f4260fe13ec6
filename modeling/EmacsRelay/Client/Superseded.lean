import EmacsRelay.Client.HeldRun

set_option autoImplicit false

/- A callback of an operation that is no longer active does nothing to the save state. -/
namespace EmacsRelay

open Routine Editor RelaySave

/-- `after` differs from `m` at most outside the save state of the buffer: in the cache, the
merge buffers, the history, and by further read requests. -/
structure Untouched (m after : Machine) : Prop where
  buffer : after.buffer = m.buffer
  base : after.base = m.base
  state : after.state = m.state
  modified : after.modified = m.modified
  status : after.status = m.status
  active : after.active = m.active
  queued : after.queued = m.queued
  requests : ∃ issued, after.rpcs = m.rpcs ++ issued ∧
    ∀ rpc ∈ issued, ∀ request, rpc.request = some request → request.isWrite = false

theorem Untouched.refl (m : Machine) : Untouched m m :=
  ⟨rfl, rfl, rfl, rfl, rfl, rfl, rfl, [], by simp, by simp⟩

theorem Untouched.trans {m after last : Machine} (first : Untouched m after)
    (second : Untouched after last) : Untouched m last := by
  obtain ⟨issued, rpcs, reads⟩ := first.requests
  obtain ⟨issued', rpcs', reads'⟩ := second.requests
  refine ⟨second.buffer.trans first.buffer, second.base.trans first.base,
    second.state.trans first.state, second.modified.trans first.modified,
    second.status.trans first.status, second.active.trans first.active,
    second.queued.trans first.queued, issued ++ issued', ?_, ?_⟩
  · rw [rpcs', rpcs, List.append_assoc]
  · intro rpc member
    rcases List.mem_append.mp member with old | fresh
    · exact reads rpc old
    · exact reads' rpc fresh

theorem Untouched.cachePut (m : Machine) (identity : Option Identity) (bytes : Option Bytes)
    (revision : Token) : Untouched m (m.cachePut identity bytes revision) :=
  ⟨rfl, rfl, rfl, rfl, rfl, rfl, rfl, [], by simp, by simp⟩

theorem Untouched.setMerges {m after : Machine} (same : Untouched m after)
    (merges : List MergeBuffer) : Untouched m (after.setMerges merges) :=
  ⟨same.buffer, same.base, same.state, same.modified, same.status, same.active, same.queued,
    same.requests⟩

theorem Untouched.issueRead (m : Machine) (identity : Option Identity) (callback : Callback) :
    Untouched m (m.issue ⟨prepareRead identity, callback⟩) := by
  refine ⟨rfl, rfl, rfl, rfl, rfl, rfl, rfl, _, rfl, ?_⟩
  intro rpc member request sent
  rw [List.mem_singleton.mp member] at sent
  obtain ⟨_, _, _, _, read⟩ := prepareRead_some sent
  rw [read]
  rfl

/-- `body` leaves the save state alone, whether it returns or signals. -/
abbrev Inert (body : Lisp Unit) (m : Machine) : Prop :=
  wp body (fun _ => Untouched m) (fun _ => Untouched m) m

variable {codec : Codec} {env : Env} {m : Machine} {op : Operation}

theorem fetchAsync_inert (identity : Option Identity) (callback : Callback) :
    Inert (fetchAsync env identity callback) m := by
  simp [fetchAsync, Untouched.refl, Untouched.issueRead]

section Stale

variable (stale : m.operationCurrent op = false)

include stale

theorem finishNonsuccess_inert (status : Status) (result : SaveResult)
    (conflict : Option ConflictState) : Inert (finishNonsuccess op status result conflict) m := by
  simp [finishNonsuccess, stale, Untouched.refl]

theorem finishSuccess_inert (revision : Token) (statusExtra : Bool) :
    Inert (finishSuccess codec env op revision statusExtra) m := by
  have cached : (m.cachePut op.target op.bytes revision).operationCurrent op = false := stale
  simp [finishSuccess, stale, cached, Untouched.refl, Untouched.cachePut]

theorem mergeSuccess_inert (revision : Token) : Inert (mergeSuccess codec env op revision) m := by
  have cached : (m.cachePut op.identity op.bytes revision).operationCurrent op = false := stale
  simp [mergeSuccess, stale, cached, (Untouched.refl m).setMerges,
    (Untouched.cachePut m op.identity op.bytes revision).setMerges]

/-- A dispatched merge carries a generation, so the refusal is skipped for a stale one. -/
theorem mergeRefusal_inert (dispatched : op.generation.isSome = true) (status : MergeStatus)
    (reason : Reason) (remote : Option Remote) :
    Inert (mergeRefusal codec env op status reason remote) m := by
  have numbered : op.generation.isNone = false := by
    cases generation : op.generation with
    | none => rw [generation] at dispatched; cases dispatched
    | some _ => rfl
  simp [mergeRefusal, stale, numbered, (Untouched.refl m).setMerges]

theorem callbackError_inert (dispatched : op.generation.isSome = true) (error : LispError) :
    Inert (callbackError codec env op error) m := by
  unfold callbackError
  split
  · exact mergeRefusal_inert stale dispatched _ _ _
  · exact finishNonsuccess_inert stale _ _ _

theorem settleConflict_inert (reason : Reason) (remote : Remote) :
    Inert (settleConflict codec env op reason remote) m := by
  dsimp only [settleConflict]
  split
  · exact finishSuccess_inert stale _ _
  · exact finishNonsuccess_inert stale _ _ _

theorem writeDone_inert (reply : WriteReply) : Inert (writeDone codec env op reply) m := by
  simp only [writeDone, wp_bind, wp_fetch, wp_whenever]
  refine ⟨fun _ => ?_, fun _ => Untouched.refl m⟩
  cases reply with
  | ok revision => exact finishSuccess_inert stale _ _
  | transport error => exact fetchAsync_inert _ _
  | refused code conflict error =>
      simp only [wp_ite]
      exact ⟨fun _ => fetchAsync_inert _ _, fun _ => finishNonsuccess_inert stale _ _ _⟩

theorem reconcileRead_inert (failure : Option String) (reply : ReadReply) :
    Inert (reconcileRead codec env op failure reply) m := by
  simp only [reconcileRead, wp_bind, wp_fetch, wp_whenever]
  refine ⟨fun _ => ?_, fun _ => Untouched.refl m⟩
  cases reply with
  | failed error => exact finishNonsuccess_inert stale _ _ _
  | ok bytes revision =>
      dsimp only
      split
      · exact finishSuccess_inert stale _ _
      · exact finishNonsuccess_inert stale _ _ _
      · exact finishNonsuccess_inert stale _ _ _

theorem conflictRead_inert (reason : Reason) (reply : ReadReply) :
    Inert (conflictRead codec env op reason reply) m := by
  simp only [conflictRead, wp_bind, wp_fetch, wp_whenever]
  refine ⟨fun _ => ?_, fun _ => Untouched.refl m⟩
  cases reply with
  | ok bytes revision => exact settleConflict_inert stale _ _
  | failed error =>
      simp only [wp_ite]
      exact ⟨fun _ => settleConflict_inert stale _ _, fun _ => finishNonsuccess_inert stale _ _ _⟩

theorem inspected_inert (state : Option ConflictState) (reply : ReadReply) :
    Inert (inspected codec env op state reply) m := by
  cases reply with
  | failed error => exact finishNonsuccess_inert stale _ _ _
  | ok bytes revision =>
      dsimp only [inspected]
      split
      · exact finishSuccess_inert stale _ _
      · exact finishNonsuccess_inert stale _ _ _
      · exact finishNonsuccess_inert stale _ _ _

section Merge

variable (dispatched : op.generation.isSome = true)

include dispatched

theorem mergeLossRead_inert (reply : ReadReply) : Inert (mergeLossRead codec env op reply) m := by
  cases reply with
  | failed error => exact mergeRefusal_inert stale dispatched _ _ _
  | ok bytes revision =>
      simp only [mergeLossRead, wp_ite]
      exact ⟨fun _ => mergeSuccess_inert stale _, fun _ => mergeRefusal_inert stale dispatched _ _ _⟩

theorem mergeWriteDone_inert (reply : WriteReply) :
    Inert (mergeWriteDone codec env op reply) m := by
  cases reply with
  | ok revision => exact mergeSuccess_inert stale _
  | transport error => exact fetchAsync_inert _ _
  | refused code conflict error =>
      dsimp only [mergeWriteDone]
      split
      · exact fetchAsync_inert _ _
      · exact mergeRefusal_inert stale dispatched _ _ _

/-- Verification of a stale merge is refused before anything is written. -/
theorem mergeVerified_inert (reply : ReadReply) : Inert (mergeVerified codec env op reply) m := by
  simp only [mergeVerified, wp_bind, wp_fetch, wp_ite]
  refine ⟨fun _ => mergeRefusal_inert stale dispatched _ _ _, fun current => ?_⟩
  exact absurd (by simp [stale]) current

theorem callbackBody_inert {callback : Callback} (named : callback.operation = op)
    (reply : AnyReply) : Inert (callbackBody codec env callback reply) m := by
  subst named
  cases callback <;> cases reply
  · exact writeDone_inert stale _
  · exact Untouched.refl m
  · exact Untouched.refl m
  · exact reconcileRead_inert stale _ _
  · exact Untouched.refl m
  · exact conflictRead_inert stale _ _
  · exact Untouched.refl m
  · exact inspected_inert stale _ _
  · exact Untouched.refl m
  · exact mergeVerified_inert stale dispatched _
  · exact mergeWriteDone_inert stale dispatched _
  · exact Untouched.refl m
  · exact Untouched.refl m
  · exact mergeLossRead_inert stale dispatched _
  · exact Untouched.refl m
  · exact mergeRefusal_inert stale dispatched _ _ _

end Merge

end Stale

theorem operationCurrent_of_superseded (superseded : m.active ≠ some op) :
    m.operationCurrent op = false := by
  simp [Machine.operationCurrent, superseded]

theorem runCallback_inert {callback : Callback}
    (superseded : m.active ≠ some callback.operation)
    (dispatched : callback.operation.generation.isSome = true) (reply : AnyReply) :
    Inert (runCallback codec env callback reply) m := by
  rw [runCallback, Inert, wp_rescue]
  refine wp_mono (callbackBody_inert (operationCurrent_of_superseded superseded) dispatched rfl
    reply) (fun _ _ done => done) ?_
  intro error t failed
  have still : t.active ≠ some callback.operation := failed.active.symm ▸ superseded
  have inert : Inert (callbackError codec env callback.operation error) t :=
    callbackError_inert (operationCurrent_of_superseded still) dispatched error
  exact wp_mono inert (fun _ _ done => failed.trans done) (fun _ _ done => failed.trans done)

theorem calls_numbered {identity : Identity} {bytes : Bytes} {revision : Token}
    (reached : Runs codec AnyStep (.opened codec identity bytes revision) m) {rpc : Rpc}
    (issued : rpc ∈ m.rpcs) : rpc.callback.operation.generation.isSome = true := by
  exact ((held_any reached).stored.rpcs rpc issued).numbered

/-- Whatever has happened to the buffer, delivering a callback of an operation that is not the
active one touches nothing and sends no write. -/
theorem superseded_callback_inert {identity : Identity} {bytes : Bytes} {revision : Token}
    (reached : Runs codec AnyStep (.opened codec identity bytes revision) m) {index : Nat}
    {rpc : Rpc} (found : m.rpcs[index]? = some rpc)
    (superseded : m.active ≠ some rpc.callback.operation) (reply : AnyReply) (env : Env) :
    Untouched m (step codec m (.reply index reply env)) := by
  have dispatched := calls_numbered reached (List.mem_of_getElem? found)
  simp only [step, found]
  split
  · have noted : Untouched m (m.note (rpc.reports reply)) :=
      ⟨rfl, rfl, rfl, rfl, rfl, rfl, rfl, [], by simp, by simp⟩
    have still : (m.note (rpc.reports reply)).active ≠ some rpc.callback.operation := superseded
    have inert : Inert (runCallback codec env rpc.callback reply) (m.note (rpc.reports reply)) :=
      runCallback_inert still dispatched reply
    exact noted.trans (after_of_wp inert)
  · exact Untouched.refl m

/-- An acknowledgement delivered twice: the save it belongs to has already finished. -/
def acknowledgedTwice : Machine :=
  runAll asciiCodec (.opened asciiCodec ⟨"/relay:h:/f", "h", "/f"⟩ [97] .missing)
    [.edit (.whole ['a', 'b']), .save {}, .reply 0 (.inl (.ok .missing)) {}]

theorem superseded_callback_inert_twice :
    acknowledgedTwice.rpcs.length = 1 ∧ acknowledgedTwice.status = some .saved ∧
    Untouched acknowledgedTwice
      (step asciiCodec acknowledgedTwice (.reply 0 (.inl (.ok .missing)) {})) := by
  refine ⟨by decide, by decide, ?_⟩
  have reached : Runs asciiCodec AnyStep
      (.opened asciiCodec ⟨"/relay:h:/f", "h", "/f"⟩ [97] .missing) acknowledgedTwice :=
    Reaches.of_along .refl ⟨trivial, trivial, trivial, trivial⟩
  exact superseded_callback_inert reached (Option.eq_some_of_isSome (by decide)) (by decide) _ _

end EmacsRelay

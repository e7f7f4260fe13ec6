import EmacsRelay.Client.Run
import EmacsRelay.Lib.Coalesce
import Mathlib.Data.List.Basic

set_option autoImplicit false

/- Saves of one file that meet no failure: the machine is a coalescing line, which sends one
snapshot at a time and keeps only the latest of those requested meanwhile. -/
namespace EmacsRelay

open RelaySave Editor

/-- No step of the body signals. -/
def Env.Smooth (env : Env) : Prop := ∀ site, env.fails site = false

/-- The operation captured for `bytes` on top of `base`. -/
def saveOf (id : Identity) (base : Base) (bytes : Bytes) : Operation :=
  { identity := some id, bytes := some bytes, base := some base, expected := some base.revision }

/-- A save request captures the text, outside conflicts and doubts. -/
def Captures (m : Machine) : Prop :=
  m.active.isSome ∨ m.modified = true ∨ m.status = some .failed

instance (m : Machine) : Decidable (Captures m) := inferInstanceAs (Decidable (_ ∨ _))

/-- The bytes a save request captures, when it captures at all. -/
def captured (codec : Codec) (env : Env) (m : Machine) : Option Bytes :=
  if Captures m then
    match capture codec env none none m with
    | (.ok operation, _) => operation.bytes
    | (.error _, _) => none
  else none

/-- A machine with what was asked of it: the snapshots requested, the revisions acknowledged,
and for each call whether an acknowledgement issued it. -/
structure Session where
  machine : Machine
  requested : List Bytes := []
  acked : List Token := []
  waited : List Bool := []

namespace Session

def next (codec : Codec) (s : Session) (event : Event) : Session :=
  let m := step codec s.machine event
  let issued := m.rpcs.length - s.machine.rpcs.length
  match event with
  | .save env =>
      { s with
        machine := m
        requested := s.requested ++ (captured codec env s.machine).toList
        waited := s.waited ++ List.replicate issued false }
  | .reply _ (.inl (.ok revision)) _ =>
      { s with
        machine := m
        acked := s.acked ++ [revision]
        waited := s.waited ++ List.replicate issued true }
  | _ => { s with machine := m }

/-- Edits, save requests and acknowledgements of the write in flight, with no failure. -/
def Smooth (s : Session) : Event → Prop
  | .edit _ => True
  | .narrow _ => True
  | .toggleModified _ => True
  | .expire _ => True
  | .prefetch _ _ _ _ => True
  | .evict _ => True
  | .save env => env.Smooth
  | .reply index (.inl (.ok _)) env =>
      index = s.acked.length ∧ (s.machine.rpcs[index]?.bind (·.request)).isSome ∧ env.Smooth
  | _ => False

/-- The operations sent, in order. -/
def dispatched (s : Session) : List Operation := s.machine.rpcs.map (·.callback.operation)

end Session

/-- The snapshot a write sits on: the one the file was opened with, or the acknowledged one. -/
def under (first : Base) : Option (Bytes × Token) → Base
  | none => first
  | some (bytes, revision) => ⟨some bytes, revision, .utf8⟩

/-- The write that carries a value of the line, the `number`-th operation. -/
def carrier (id : Identity) (first : Base) (number : Nat) (w : Sent Bytes Token) : Operation :=
  (saveOf id (under first w.base) w.value).number number

def call (id : Identity) (first : Base) (number : Nat) (w : Sent Bytes Token) : Rpc :=
  ⟨prepareWrite (some id) (some w.value) (some (under first w.base).revision) none,
    .writeDone (carrier id first number w)⟩

/-- The machine as the state of a line determines it. -/
structure Mirrors (id : Identity) (first : Base) (m : Machine) (line : Line Bytes Token) :
    Prop where
  live : m.live = true
  visiting : m.fileIdentity = some id
  calm : m.status ≠ some .conflict ∧ m.status ≠ some .unknown
  generation : m.generation = line.sent.length
  base : m.base = some (under first line.last)
  active : m.active = line.flying.map (carrier id first line.sent.length)
  queued : m.queued = line.queued.map (saveOf id (under first line.last))
  calls : m.rpcs = line.sent.mapIdx fun i w => call id first (i + 1) w

/-- Nothing happened but typing. -/
def Typed (m t : Machine) : Prop := t = m ∨ ∃ b, t = m.edit b

variable {codec : Codec} {env : Env} {id : Identity} {first base : Base} {m t : Machine}
  {line : Line Bytes Token}

theorem Mirrors.typed (mirrors : Mirrors id first m line) (typed : Typed m t) :
    Mirrors id first t line := by
  rcases typed with rfl | ⟨b, rfl⟩
  · exact mirrors
  · exact ⟨mirrors.live, mirrors.visiting, mirrors.calm, mirrors.generation, mirrors.base,
      mirrors.active, mirrors.queued, mirrors.calls⟩

/-- The machine keeps no list of requests. -/
theorem Mirrors.asked (mirrors : Mirrors id first m line) (requested : List Bytes) :
    Mirrors id first m { line with requested := requested } :=
  ⟨mirrors.live, mirrors.visiting, mirrors.calm, mirrors.generation, mirrors.base, mirrors.active,
    mirrors.queued, mirrors.calls⟩

theorem Mirrors.flight {w : Sent Bytes Token} (mirrors : Mirrors id first m line)
    (busy : line.Busy) (last : line.sent.getLast? = some w) :
    m.active = some (carrier id first line.sent.length w) := by
  rw [mirrors.active, Line.flying, if_pos busy, last]
  rfl

theorem Typed.hooked (edited : Option Buffer) (typed : Typed m t) : Typed m (t.hooked edited) := by
  cases edited with
  | none => exact typed
  | some b =>
      right
      rcases typed with rfl | ⟨b', rfl⟩ <;> exact ⟨b, rfl⟩

theorem preSave_typed (smooth : env.Smooth) (m : Machine) :
    ∃ t, Typed m t ∧ preSave env m = (.ok (), t) := by
  have total : Routine.wp (preSave env) (fun _ t => Typed m t) (fun _ _ => False) m := by
    have newline : ∀ b, Typed m ((m.edit b).hooked env.beforeSave) := fun b =>
      Typed.hooked _ (.inr ⟨b, rfl⟩)
    have untouched : Typed m (m.hooked env.beforeSave) := Typed.hooked _ (.inl rfl)
    simp [preSave, ensureFinalNewline, smooth .beforeSaveHook, newline, untouched]
  obtain ⟨_, t, runs, typed⟩ := Routine.runs_of_total total
  exact ⟨t, typed, runs⟩

theorem capture_typed (codec : Codec) (smooth : env.Smooth) (visiting : m.fileIdentity = some id)
    (based : m.base = some base) :
    ∃ t, Typed m t ∧
      capture codec env none none m = (.ok (saveOf id base (codec.encode t.buffer.full)), t) := by
  obtain ⟨t, typed, runs⟩ := preSave_typed smooth m
  have kept : t.base = some base := by
    rcases typed with rfl | ⟨b, rfl⟩ <;> exact based
  refine ⟨t, typed, ?_⟩
  simp [capture, captureOperation, bind, Routine.fetch, visiting, runs, kept, saveOf, pure]

/-- A save goes out: the next operation of the machine, on the wire as captured. -/
theorem dispatch_runs (smooth : env.Smooth) (bytes : Bytes) :
    dispatch codec env (saveOf id base bytes) m = (.ok (),
      (((m.activate ((saveOf id base bytes).number (m.generation + 1))).setStatus .saving
        none).markModified).issueWrite
          ⟨prepareWrite (some id) (some bytes) (some base.revision) none,
            .writeDone ((saveOf id base bytes).number (m.generation + 1))⟩) := by
  simp [dispatch, bind, Routine.fetch, Routine.update, Routine.rescue,
    writeSnapshotAsync, mayFail, smooth .writeRpc, saveOf, pure, Operation.number]

theorem dispatch_mirrors (smooth : env.Smooth) (mirrors : Mirrors id first m line)
    (idle : ¬ line.Busy) (empty : line.queued = none)
    (bounds : line.acked.length ≤ line.sent.length) (bytes : Bytes) (fromQueue : Bool) :
    Routine.wp (dispatch codec env (saveOf id (under first line.last) bytes))
      (fun _ t => Mirrors id first t (line.send bytes fromQueue)) (fun _ _ => False) m := by
  have full : line.acked.length = line.sent.length := by
    unfold Line.Busy at idle
    omega
  have busy : (line.send bytes fromQueue).Busy := by simp [Line.Busy, Line.send, full]
  have flying : (line.send bytes fromQueue).flying = some ⟨bytes, line.last, fromQueue⟩ := by
    rw [Line.flying, if_pos busy]
    simp [Line.send]
  refine Routine.wp_of_runs (dispatch_runs smooth bytes) ?_
  constructor
  case live => exact mirrors.live
  case visiting => exact mirrors.visiting
  case calm => simp
  case generation => simp [mirrors.generation, Line.send]
  case base => exact mirrors.base
  case active =>
    rw [flying, Line.send]
    simp [carrier, mirrors.generation]
  case queued => simp [Line.send, mirrors.queued, empty]
  case calls => simp [Line.send, List.mapIdx_concat, mirrors.calls, call, carrier, mirrors.generation]

theorem sameRequest_saveOf (base' : Base) (bytes bytes' : Bytes) (number : Option Nat) :
    sameRequest (some (saveOf id base bytes))
      (some { saveOf id base' bytes' with generation := number }) = (bytes == bytes') := by
  simp [sameRequest, saveOf]

theorem queueOrDispatch_active {operation : Operation} (busy : m.active.isSome = true) :
    (queueOrDispatch codec env operation).after m =
      if sameRequest (some operation) m.active = true then m.setQueued none
      else if sameRequest (some operation) m.queued = true then m
      else m.setQueued (some operation) := by
  simp only [queueOrDispatch, Routine.after, bind, Routine.fetch, if_pos busy]
  split
  · rfl
  · split <;> rfl

/-- The machine takes a captured snapshot as the line takes a value. -/
theorem queueOrDispatch_mirrors (codec : Codec) (smooth : env.Smooth) (mirrors : Mirrors id first m line)
    (orderly : line.Orderly) (bytes : Bytes) :
    Mirrors id first ((queueOrDispatch codec env (saveOf id (under first line.last) bytes)).after m)
      (line.request bytes) := by
  by_cases busy : line.Busy
  · obtain ⟨w, last⟩ := Line.busy_sent busy
    have active := mirrors.flight busy last
    have same : sameRequest (some (saveOf id (under first line.last) bytes)) m.active =
        (bytes == w.value) := by
      rw [active]
      exact sameRequest_saveOf _ _ _ _
    have asked : Mirrors id first m { line with requested := line.requested ++ [bytes] } :=
      mirrors.asked _
    rw [queueOrDispatch_active (by simp [active]), same]
    by_cases equal : bytes = w.value
    · rw [Line.request_same busy (by simp [last, equal]), if_pos (by simp [equal])]
      exact { asked with queued := rfl }
    · rw [Line.request_other busy (by simp [last, Ne.symm equal]),
        if_neg (by simpa using equal)]
      by_cases again : sameRequest (some (saveOf id (under first line.last) bytes)) m.queued = true
      · rw [if_pos again]
        refine { asked with queued := ?_ }
        cases waiting : line.queued with
        | none => simp [mirrors.queued, waiting, sameRequest] at again
        | some value =>
            rw [mirrors.queued, waiting, Option.map_some] at again
            have equal' : bytes = value := by
              simpa using (sameRequest_saveOf _ _ _ none).symm.trans again
            rw [mirrors.queued, waiting, equal']
      · rw [if_neg again]
        exact { asked with queued := rfl }
  · have inactive : m.active = none := by
      rw [mirrors.active, Line.flying, if_neg busy]
      rfl
    have goes : (queueOrDispatch codec env (saveOf id (under first line.last) bytes)).after m =
        (dispatch codec env (saveOf id (under first line.last) bytes)).after m := by
      simp [queueOrDispatch, Routine.after, bind, Routine.fetch, inactive]
    have empty := Line.idle_empty orderly busy
    rw [goes, Line.request_idle busy]
    have asked := mirrors.asked (line.requested ++ [bytes])
    exact Routine.after_of_total
      (dispatch_mirrors smooth asked busy empty orderly.inFlight.1 bytes false)

open Routine

/-- Marking the buffer and running the hook leave the line alone. -/
theorem confirmBytes_mirrors {operation : Operation} (mirrors : Mirrors id first m line)
    (sameBytes : Bool) :
    wp (confirmBytes codec env operation sameBytes) (fun _ t => Mirrors id first t line)
      (fun _ _ => False) m := by
  have cleaned : Mirrors id first (m.markClean operation.identity) line :=
    ⟨mirrors.live, mirrors.visiting, mirrors.calm, mirrors.generation, mirrors.base,
      mirrors.active, mirrors.queued, mirrors.calls⟩
  have hooked := cleaned.typed (Typed.hooked env.afterSave (.inl rfl))
  have marked : ∀ {t : Machine}, Mirrors id first t line → Mirrors id first t.markModified line :=
    fun mirrors => ⟨mirrors.live, mirrors.visiting, mirrors.calm, mirrors.generation, mirrors.base,
      mirrors.active, mirrors.queued, mirrors.calls⟩
  cases sameBytes with
  | true => simp [confirmBytes, hooked, marked hooked]
  | false => simp [confirmBytes, marked mirrors]

/-- The line just after an acknowledgement, with nothing waiting. -/
def settled (line : Line Bytes Token) (w : Sent Bytes Token) (revision : Token) :
    Line Bytes Token :=
  { line with acked := line.acked ++ [revision], last := some (w.value, revision), queued := none }

theorem settled_idle {w : Sent Bytes Token} {revision : Token} (orderly : line.Orderly)
    (busy : line.Busy) : ¬ (settled line w revision).Busy := by
  have bounds := orderly.inFlight
  unfold Line.Busy at busy
  simp only [Line.Busy, settled, List.length_append, List.length_singleton]
  omega

theorem settled_mirrors {w : Sent Bytes Token} {revision : Token} {coding : Coding}
    (orderly : line.Orderly) (busy : line.Busy)
    (mirrors : Mirrors id first m line) :
    Mirrors id first ((m.clearOperations.recordBase (some w.value) revision coding).setState none)
      (settled line w revision) := by
  constructor
  case live => exact mirrors.live
  case visiting => exact mirrors.visiting
  case calm => exact mirrors.calm
  case generation => exact mirrors.generation
  case base => rfl
  case active => simp [Line.flying, settled_idle orderly busy]
  case queued => simp [settled]
  case calls => exact mirrors.calls

theorem acknowledge_none {w : Sent Bytes Token} {revision : Token}
    (last : line.sent.getLast? = some w) (empty : line.queued = none) :
    line.acknowledge revision = settled line w revision := by
  simp [Line.acknowledge, settled, last, empty]

theorem acknowledge_some {w : Sent Bytes Token} {revision : Token} {bytes : Bytes}
    (last : line.sent.getLast? = some w) (waiting : line.queued = some bytes) :
    line.acknowledge revision = (settled line w revision).send bytes true := by
  simp [Line.acknowledge, settled, last, waiting, Line.send]

/-- The waiting snapshot goes out on top of the acknowledged one. -/
theorem dispatchQueued_mirrors {w : Sent Bytes Token} {revision : Token} (smooth : env.Smooth)
    (orderly : line.Orderly) (busy : line.Busy) (last : line.sent.getLast? = some w)
    (mirrors : Mirrors id first m (settled line w revision)) (sameBytes : Bool) :
    wp (dispatchQueued codec env (carrier id first line.sent.length w) revision false sameBytes
        (line.queued.map (saveOf id (under first line.last))))
      (fun _ t => Mirrors id first t (line.acknowledge revision)) (fun _ _ => False) m := by
  cases waiting : line.queued with
  | none =>
      rw [acknowledge_none last waiting]
      simp only [Option.map_none, dispatchQueued, wp_update]
      refine { mirrors with calm := ?_ }
      cases sameBytes <;> simp
  | some bytes =>
      rw [acknowledge_some last waiting]
      have rebased : (saveOf id (under first line.last) bytes).rebase
            ⟨(carrier id first line.sent.length w).bytes, revision,
              codingOf (carrier id first line.sent.length w).base⟩ =
          saveOf id (under first (settled line w revision).last) bytes := rfl
      simp only [Option.map_some, dispatchQueued, wp_bind, wp_update, rebased]
      have bounds : (settled line w revision).acked.length ≤ line.sent.length := by
        unfold Line.Busy at busy
        simp only [settled, List.length_append, List.length_singleton]
        omega
      exact dispatch_mirrors smooth { mirrors with } (settled_idle orderly busy) rfl bounds bytes true

theorem finishOrdinary_mirrors {w : Sent Bytes Token} {revision : Token} (smooth : env.Smooth)
    (mirrors : Mirrors id first m line) (orderly : line.Orderly) (busy : line.Busy)
    (last : line.sent.getLast? = some w) (sameBytes : Bool) :
    wp (finishOrdinary codec env (carrier id first line.sent.length w) revision false true sameBytes
        m.queued) (fun _ t => Mirrors id first t (line.acknowledge revision))
      (fun _ _ => False) m.clearOperations := by
  have kept : (m.queued.filter fun next =>
      true && identityEqual (carrier id first line.sent.length w).identity next.identity) =
      line.queued.map (saveOf id (under first line.last)) := by
    rw [mirrors.queued]
    cases line.queued <;> simp [carrier, saveOf]
  simp only [finishOrdinary, kept, wp_bind, wp_whenever, wp_update]
  refine ⟨fun _ => ?_, fun different => by cases different⟩
  refine wp_mono (confirmBytes_mirrors (settled_mirrors orderly busy mirrors) sameBytes) ?_ ?_
  · intro same t marked
    exact dispatchQueued_mirrors smooth orderly busy last marked same
  · intro _ _ impossible
    exact impossible.elim

theorem completeSuccess_mirrors {revision : Token} {w : Sent Bytes Token} (smooth : env.Smooth)
    (mirrors : Mirrors id first m line) (orderly : line.Orderly) (busy : line.Busy)
    (last : line.sent.getLast? = some w) :
    wp (completeSuccess codec env (carrier id first line.sent.length w) revision false)
      (fun _ t => Mirrors id first t (line.acknowledge revision))
      (fun _ _ => False) m := by
  have same : m.liveIdentityEqual (carrier id first line.sent.length w).identity = true := by
    simp [carrier, saveOf, Machine.liveIdentityEqual, mirrors.visiting]
  have plain : (carrier id first line.sent.length w).choice = none := rfl
  simp only [completeSuccess, wp_bind, wp_fetch, wp_update, plain, same, reduceCtorEq, false_and,
    if_false]
  exact finishOrdinary_mirrors smooth mirrors orderly busy last _

/-- The machine takes an acknowledgement of the write in flight as the line does. -/
theorem acknowledged_mirrors {revision : Token} {w : Sent Bytes Token} (smooth : env.Smooth)
    (mirrors : Mirrors id first m line) (orderly : line.Orderly) (busy : line.Busy)
    (last : line.sent.getLast? = some w) :
    wp (writeDone codec env (carrier id first line.sent.length w) (.ok revision))
      (fun _ t => Mirrors id first t (line.acknowledge revision))
      (fun _ _ => False) m := by
  have cached : Mirrors id first (m.cachePut (carrier id first line.sent.length w).target
      (carrier id first line.sent.length w).bytes revision) line :=
    ⟨mirrors.live, mirrors.visiting, mirrors.calm, mirrors.generation, mirrors.base,
      mirrors.active, mirrors.queued, mirrors.calls⟩
  have current : ∀ {t : Machine}, Mirrors id first t line →
      t.operationCurrent (carrier id first line.sent.length w) = true := by
    intro t mirrors
    simp [Machine.operationCurrent, mirrors.flight busy last, carrier, mirrors.generation]
  simp only [writeDone, finishSuccess, wp_bind, wp_fetch, wp_whenever, wp_cacheIdentitySafely,
    smooth .cachePut, current mirrors, Bool.or_true, forall_const, reduceCtorEq, false_implies,
    true_and, and_true]
  refine ⟨fun _ => ?_, fun stale => absurd stale (by simp [mirrors.live, current cached])⟩
  exact completeSuccess_mirrors smooth cached orderly busy last

/-- What a session records is what the mirrored line records. -/
structure Follows (id : Identity) (first : Base) (s : Session) (line : Line Bytes Token) :
    Prop where
  mirrors : Mirrors id first s.machine line
  orderly : line.Orderly
  requested : s.requested = line.requested
  acked : s.acked = line.acked
  waited : s.waited = line.sent.map (·.fromQueue)

variable {s : Session}

theorem rpcs_length (mirrors : Mirrors id first m line) :
    m.rpcs.length = line.sent.length := by
  rw [mirrors.calls, List.length_mapIdx]

/-- Requesting sends at most the requested value, and not from the queue. -/
theorem request_waited (line : Line Bytes Token) (bytes : Bytes) :
    (line.request bytes).sent.map (·.fromQueue) =
      line.sent.map (·.fromQueue) ++
        List.replicate ((line.request bytes).sent.length - line.sent.length) false := by
  by_cases busy : line.Busy
  · by_cases same : line.sent.getLast?.map (·.value) = some bytes
    · rw [Line.request_same busy same]
      simp
    · rw [Line.request_other busy same]
      simp
  · rw [Line.request_idle busy]
    simp [Line.send]

theorem acknowledge_waited (line : Line Bytes Token) (revision : Token) :
    (line.acknowledge revision).sent.map (·.fromQueue) =
      line.sent.map (·.fromQueue) ++
        List.replicate ((line.acknowledge revision).sent.length - line.sent.length) true := by
  cases waiting : line.queued <;> simp [Line.acknowledge, waiting, Line.send]

theorem saveBufferAsync_after {operation : Operation} (visiting : m.fileIdentity = some id)
    (calm : m.status ≠ some .conflict ∧ m.status ≠ some .unknown)
    (runs : capture codec env none none m = (.ok operation, t)) (captures : Captures m) :
    (saveBufferAsync codec env).after m = (queueOrDispatch codec env operation).after t := by
  have wanted : m.active.isSome ∨ m.modified = true ∨ m.status = some .failed := captures
  simp [saveBufferAsync, after, bind, fetch, visiting, calm.1, calm.2, wanted, runs]

theorem saveBufferAsync_idle (visiting : m.fileIdentity = some id)
    (calm : m.status ≠ some .conflict ∧ m.status ≠ some .unknown) (idle : ¬ Captures m) :
    (saveBufferAsync codec env).after m = m := by
  have unwanted : ¬ (m.active.isSome ∨ m.modified = true ∨ m.status = some .failed) := idle
  simp [saveBufferAsync, after, bind, fetch, visiting, calm.1, calm.2, unwanted, pure]

/-- A save request is a request of the line, or nothing. -/
theorem save_follows (codec : Codec) (follows : Follows id first s line) (smooth : env.Smooth) :
    ∃ line', Follows id first (s.next codec (.save env)) line' := by
  have mirrors := follows.mirrors
  have steps : step codec s.machine (.save env) = (saveBufferAsync codec env).after s.machine := by
    simp [step, stepLive, mirrors.live]
  by_cases captures : Captures s.machine
  · obtain ⟨t, typed, runs⟩ := capture_typed codec smooth mirrors.visiting mirrors.base
    have takes := queueOrDispatch_mirrors codec smooth (mirrors.typed typed)
      follows.orderly (codec.encode t.buffer.full)
    rw [← saveBufferAsync_after mirrors.visiting mirrors.calm runs captures, ← steps] at takes
    have bytes : captured codec env s.machine = some (codec.encode t.buffer.full) := by
      simp only [captured, if_pos captures, runs]
      rfl
    refine ⟨line.request (codec.encode t.buffer.full), takes, ?_, ?_, ?_, ?_⟩
    · exact Line.request_orderly follows.orderly _
    · simp [Session.next, bytes, follows.requested]
    · simp [Session.next, follows.acked]
    · simp only [Session.next, rpcs_length takes, rpcs_length mirrors, follows.waited]
      exact (request_waited line _).symm
  · have nothing : captured codec env s.machine = none := if_neg captures
    have still : step codec s.machine (.save env) = s.machine :=
      steps.trans (saveBufferAsync_idle mirrors.visiting mirrors.calm captures)
    refine ⟨line, ?_, follows.orderly, ?_, follows.acked, ?_⟩
    · simpa only [Session.next, still] using mirrors
    · simp [Session.next, nothing, follows.requested]
    · simp [Session.next, still, follows.waited]

/-- An acknowledgement of the write in flight is one of the line. -/
theorem reply_follows (codec : Codec) (follows : Follows id first s line) (smooth : env.Smooth)
    {index : Nat} {revision : Token} (position : index = s.acked.length)
    (issued : (s.machine.rpcs[index]?.bind (·.request)).isSome) :
    Follows id first (s.next codec (.reply index (.inl (.ok revision)) env))
      (line.acknowledge revision) := by
  have mirrors := follows.mirrors
  have bounds := follows.orderly.inFlight
  rw [follows.acked] at position
  have busy : line.Busy := by
    obtain ⟨_, sent⟩ := Option.isSome_iff_exists.mp issued
    obtain ⟨_, there, _⟩ := Option.bind_eq_some_iff.mp sent
    have inside := (List.getElem?_eq_some_iff.mp there).1
    rw [rpcs_length mirrors] at inside
    unfold Line.Busy
    omega
  obtain ⟨w, last⟩ := Line.busy_sent busy
  have newest : index + 1 = line.sent.length := by
    unfold Line.Busy at busy
    omega
  have here : s.machine.rpcs[index]? = some (call id first line.sent.length w) := by
    rw [List.getLast?_eq_getElem?, show line.sent.length - 1 = index by omega] at last
    rw [mirrors.calls, List.getElem?_mapIdx, last, ← newest]
    rfl
  have noted : ∀ reports, Mirrors id first (s.machine.note reports) line := fun _ =>
    ⟨mirrors.live, mirrors.visiting, mirrors.calm, mirrors.generation, mirrors.base,
      mirrors.active, mirrors.queued, mirrors.calls⟩
  have takes : Mirrors id first (step codec s.machine (.reply index (.inl (.ok revision)) env))
      (line.acknowledge revision) := by
    rw [here] at issued
    have accepted : (call id first line.sent.length w).accepts (.inl (.ok revision)) = true :=
      Bool.or_eq_true_iff.mpr (.inl issued)
    simp only [step, here, accepted, if_true]
    have runs : ∀ reports, wp (runCallback codec env (call id first line.sent.length w).callback
        (.inl (.ok revision))) (fun _ t => Mirrors id first t (line.acknowledge revision))
        (fun _ _ => False) (s.machine.note reports) := by
      intro reports
      simp only [runCallback, wp_rescue]
      refine wp_mono (acknowledged_mirrors smooth (noted reports) follows.orderly busy last) ?_ ?_
      · exact fun _ _ mirrors => mirrors
      · exact fun _ _ impossible => impossible.elim
    exact after_of_total (runs _)
  refine ⟨takes, Line.acknowledge_orderly follows.orderly busy revision, ?_, ?_, ?_⟩
  · simp [Session.next, follows.requested]
  · simp [Session.next, follows.acked]
  · simp only [Session.next, rpcs_length takes, rpcs_length mirrors, follows.waited]
    exact (acknowledge_waited line revision).symm

/-- Events that are neither requests nor replies leave the line alone. -/
theorem quiet_follows (codec : Codec) {event : Event} (follows : Follows id first s line)
    (mirrors : Mirrors id first (step codec s.machine event) line)
    (quiet : s.next codec event = { s with machine := step codec s.machine event }) :
    ∃ line', Follows id first (s.next codec event) line' := by
  rw [quiet]
  exact ⟨line, mirrors, follows.orderly, follows.requested, follows.acked, follows.waited⟩

theorem follows_step (codec : Codec) {event : Event} (follows : Follows id first s line)
    (smooth : s.Smooth event) : ∃ line', Follows id first (s.next codec event) line' := by
  have mirrors := follows.mirrors
  have live := mirrors.live
  cases event with
  | edit buffer =>
      apply quiet_follows codec follows _ rfl
      simp only [step, if_pos live, stepLive]
      exact mirrors.typed (.inr ⟨buffer, rfl⟩)
  | narrow buffer =>
      apply quiet_follows codec follows _ rfl
      simp only [step, if_pos live, stepLive]
      split
      · exact { mirrors with }
      · exact mirrors
  | toggleModified modified =>
      apply quiet_follows codec follows _ rfl
      simp only [step, if_pos live, stepLive]
      exact { mirrors with }
  | expire generation =>
      apply quiet_follows codec follows _ rfl
      simp only [step, if_pos live, stepLive]
      split
      · exact { mirrors with calm := ⟨by simp, by simp⟩ }
      · exact mirrors
  | prefetch authority path bytes revision =>
      exact quiet_follows codec follows { mirrors with } rfl
  | evict key => exact quiet_follows codec follows { mirrors with } rfl
  | save env => exact save_follows codec follows smooth
  | reply index reply env =>
      match reply, smooth with
      | .inl (.ok revision), ⟨position, issued, smooth⟩ =>
          exact ⟨_, reply_follows codec follows smooth position issued⟩
  | rename _ | reload _ _ | applyMerge _ _ _ | abandonMerge _ | kill => exact smooth.elim

/-- A session that has just opened the file. -/
def Session.opened (codec : Codec) (id : Identity) (bytes : Bytes) (revision : Token) : Session :=
  { machine := .opened codec id bytes revision }

theorem follows_run {bytes : Bytes} {revision : Token}
    (named : RelayConflict.fileIdentity (some id.filename) = some id)
    (reached : Reaches (Session.next codec) Session.Smooth (.opened codec id bytes revision) s) :
    ∃ line, Follows id ⟨some bytes, revision, .utf8⟩ s line := by
  induction reached with
  | refl =>
      refine ⟨{}, ⟨rfl, named, ?_, rfl, rfl, rfl, rfl, rfl⟩, Line.new_orderly, rfl, rfl, rfl⟩
      simp [Session.opened, Machine.opened]
  | next _ smooth ih =>
      obtain ⟨line, follows⟩ := ih
      exact follows_step codec follows smooth

/-- The writes of a session, against what was requested and acknowledged. -/
structure Coalesced (id : Identity) (s : Session) : Prop where
  writes : ∀ rpc ∈ s.machine.rpcs, ∃ bytes, rpc.callback.operation.bytes = some bytes ∧
    rpc.request = prepareWrite (some id) (some bytes) rpc.callback.operation.expected none
  oneInFlight : s.acked.length ≤ s.dispatched.length ∧ s.dispatched.length ≤ s.acked.length + 1
  ordered : (s.dispatched.map (·.bytes)).Sublist (s.requested.map some)
  changed : ∀ i prev operation, s.dispatched[i]? = some prev →
    s.dispatched[i + 1]? = some operation → s.waited[i + 1]? = some true →
    operation.bytes ≠ prev.bytes
  chained : ∀ i prev operation, s.dispatched[i]? = some prev →
    s.dispatched[i + 1]? = some operation → ∃ revision, s.acked[i]? = some revision ∧
      operation.expected = some revision ∧ operation.base = some ⟨prev.bytes, revision, .utf8⟩
  idle : s.machine.active = none → s.machine.queued = none ∧
    s.acked.length = s.dispatched.length ∧
    s.dispatched.getLast?.map (·.bytes) = s.requested.getLast?.map some

theorem dispatched_eq (mirrors : Mirrors id first s.machine line) :
    s.dispatched = line.sent.mapIdx fun i w => carrier id first (i + 1) w := by
  apply List.ext_getElem?
  intro i
  simp [Session.dispatched, mirrors.calls, Function.comp_def, call, Callback.operation]

theorem dispatched_bytes (mirrors : Mirrors id first s.machine line) :
    s.dispatched.map (·.bytes) = (line.sent.map (·.value)).map some := by
  apply List.ext_getElem?
  intro i
  simp [dispatched_eq mirrors, Function.comp_def, carrier, saveOf]

/-- In every run of edits, save requests and acknowledgements, with no failure, one write at most
is in flight, the writes are requested snapshots in order, each on top of the one acknowledged
before it, and an idle machine has had the last request acknowledged. -/
theorem coalesced_saves {bytes : Bytes} {revision : Token}
    (named : RelayConflict.fileIdentity (some id.filename) = some id)
    (reached : Reaches (Session.next codec) Session.Smooth (.opened codec id bytes revision) s) :
    Coalesced id s := by
  obtain ⟨line, follows⟩ := follows_run named reached
  have orderly := follows.orderly
  have operations := dispatched_eq follows.mirrors
  have at_index : ∀ i operation, s.dispatched[i]? = some operation →
      ∃ w, line.sent[i]? = some w ∧
        operation = carrier id ⟨some bytes, revision, .utf8⟩ (i + 1) w := by
    intro i operation here
    rw [operations, List.getElem?_mapIdx] at here
    obtain ⟨w, sent, same⟩ := Option.map_eq_some_iff.mp here
    exact ⟨w, sent, same.symm⟩
  have count : s.dispatched.length = line.sent.length := by rw [operations, List.length_mapIdx]
  constructor
  case writes =>
    intro rpc member
    rw [follows.mirrors.calls] at member
    obtain ⟨i, bound, rfl⟩ := List.mem_mapIdx.mp member
    exact ⟨_, rfl, rfl⟩
  case oneInFlight =>
    rw [follows.acked, count]
    exact orderly.inFlight
  case ordered =>
    rw [dispatched_bytes follows.mirrors, follows.requested]
    exact (((List.sublist_append_left _ _).trans orderly.ordered)).map some
  case changed =>
    intro i prev operation here next waited
    obtain ⟨v, sent, rfl⟩ := at_index i prev here
    obtain ⟨w, sent', rfl⟩ := at_index (i + 1) operation next
    rw [follows.waited, List.getElem?_map, sent'] at waited
    have differs := orderly.changed i v w sent sent' (Option.some.inj waited)
    exact fun same => differs (Option.some.inj same)
  case chained =>
    intro i prev operation here next
    obtain ⟨v, sent, rfl⟩ := at_index i prev here
    obtain ⟨w, sent', rfl⟩ := at_index (i + 1) operation next
    obtain ⟨token, acked, base⟩ := orderly.chained i v w sent sent'
    refine ⟨token, follows.acked ▸ acked, ?_, ?_⟩
    · simp [carrier, saveOf, base, under]
    · simp [carrier, saveOf, base, under]
  case idle =>
    intro inactive
    have resting : ¬ line.Busy := by
      intro busy
      obtain ⟨w, last⟩ := Line.busy_sent busy
      rw [follows.mirrors.flight busy last] at inactive
      cases inactive
    have empty := Line.idle_empty orderly resting
    refine ⟨by rw [follows.mirrors.queued, empty]; rfl, ?_, ?_⟩
    · have bounds := orderly.inFlight
      unfold Line.Busy at resting
      rw [follows.acked, count]
      omega
    · have latest := orderly.latest
      rw [empty] at latest
      rw [← List.getLast?_map, dispatched_bytes follows.mirrors, follows.requested, latest]
      simp

/-- The state after a list of events. -/
abbrev Session.runAll (codec : Codec) (s : Session) (events : List Event) : Session :=
  events.foldl (Session.next codec) s

/-- A visit to a file holding "a". -/
def visiting : Session := .opened asciiCodec ⟨"/relay:h:/f", "h", "/f"⟩ [97] (sampleToken 1)

/-- A save requested while another is in flight, and both acknowledged. -/
def savedTwice : Session :=
  visiting.runAll asciiCodec
    [.edit (.whole ['a', 'b']), .save {}, .edit (.whole ['c']), .save {},
      .reply 0 (.inl (.ok (sampleToken 2))) {}, .reply 1 (.inl (.ok (sampleToken 3))) {}]

theorem coalesced_saves_twice :
    savedTwice.dispatched.map (·.bytes) = [some [97, 98], some [99]] ∧
    Coalesced ⟨"/relay:h:/f", "h", "/f"⟩ savedTwice := by
  have reached : Reaches (Session.next asciiCodec) Session.Smooth visiting savedTwice := by
    apply Reaches.of_along .refl
    exact ⟨True.intro, fun _ => rfl, True.intro, fun _ => rfl,
      ⟨by decide, by decide, fun _ => rfl⟩, ⟨by decide, by decide, fun _ => rfl⟩, True.intro⟩
  exact ⟨by decide, coalesced_saves (by decide) reached⟩

/-- The same text is saved again after its first save was acknowledged. -/
def savedAgain : Session :=
  visiting.runAll asciiCodec
    [.edit (.whole ['a', 'b']), .save {}, .reply 0 (.inl (.ok (sampleToken 2))) {},
      .edit (.whole ['a', 'b']), .save {}]

/-- Consecutive writes may carry the same bytes. -/
theorem consecutive_saves_equal :
    ¬ ∀ s, Reaches (Session.next asciiCodec) Session.Smooth visiting s →
      ∀ i prev operation, s.dispatched[i]? = some prev → s.dispatched[i + 1]? = some operation →
        operation.bytes ≠ prev.bytes := by
  intro differ
  have reached : Reaches (Session.next asciiCodec) Session.Smooth visiting savedAgain := by
    apply Reaches.of_along .refl
    exact ⟨True.intro, fun _ => rfl, ⟨by decide, by decide, fun _ => rfl⟩, True.intro,
      fun _ => rfl, True.intro⟩
  have both : savedAgain.dispatched.map (·.bytes) = [some [97, 98], some [97, 98]] := by decide
  have first : savedAgain.dispatched[0]?.map (·.bytes) = some (some [97, 98]) := by
    rw [← List.getElem?_map, both]
    rfl
  have second : savedAgain.dispatched[1]?.map (·.bytes) = some (some [97, 98]) := by
    rw [← List.getElem?_map, both]
    rfl
  obtain ⟨prev, here, bytes⟩ := Option.map_eq_some_iff.mp first
  obtain ⟨operation, next, bytes'⟩ := Option.map_eq_some_iff.mp second
  exact differ savedAgain reached 0 prev operation here next (bytes'.trans bytes.symm)

end EmacsRelay

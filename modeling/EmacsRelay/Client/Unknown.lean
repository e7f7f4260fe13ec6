import EmacsRelay.Client.Clean

set_option autoImplicit false

/- What is retained while the outcome of a write is unknown, and how an inspection settles it. -/
namespace EmacsRelay

open Routine Editor RelaySave

/-- The state holds BASE and LOCAL of a write. -/
def Retains (state : Option ConflictState) (w : Operation) : Prop :=
  ∃ st, state = some st ∧ st.base = w.base ∧ st.localBytes = w.bytes

structure Settleable (d : Desk) : Prop where
  saving : d.active.isSome = true → d.status = some .saving
  pending : ∀ op w, d.active = some op → d.unsettled = some w →
    op.base = w.base ∧ op.bytes = w.bytes
  retained : d.status = some .unknown → ∀ w, d.unsettled = some w → Retains d.state w
  written : ∀ w, d.unsettled = some w → w.bytes.isSome = true

variable {codec : Codec} {m : Machine}

/-- Nothing is asked of an idle buffer whose status is not unknown. -/
theorem Settleable.known {d d' : Desk} (inv : Settleable d) (idle : d'.active = none)
    (same : d'.unsettled = d.unsettled) (status : d'.status ≠ some .unknown) : Settleable d' where
  saving busy := by rw [idle] at busy; cases busy
  pending op w active := by rw [idle] at active; cases active
  retained unknown := absurd unknown status
  written := same ▸ inv.written

/-- An operation ended unknown with what it needs in the state. -/
theorem Settleable.unknown {d d' : Desk} (inv : Settleable d) (idle : d'.active = none)
    (same : d'.unsettled = d.unsettled)
    (retained : ∀ w, d.unsettled = some w → Retains d'.state w) : Settleable d' where
  saving busy := by rw [idle] at busy; cases busy
  pending op w active := by rw [idle] at active; cases active
  retained _ w there := retained w (same ▸ there)
  written := same ▸ inv.written

/-- Only the text, the snapshots of BASE or the queue changed. -/
theorem Settleable.congr {d d' : Desk} (inv : Settleable d) (active : d'.active = d.active)
    (status : d'.status = d.status) (state : d'.state = d.state)
    (same : d'.unsettled = d.unsettled) : Settleable d' where
  saving := by rw [active, status]; exact inv.saving
  pending := by rw [active, same]; exact inv.pending
  retained := by rw [status, same, state]; exact inv.retained
  written := by rw [same]; exact inv.written

/-- A new operation has no write in doubt yet. -/
theorem Settleable.started {d : Desk} (saving : d.status = some .saving)
    (none : d.unsettled = none) : Settleable d where
  saving _ := saving
  pending op w _ there := by rw [none] at there; cases there
  retained unknown := by rw [saving] at unknown; cases unknown
  written w there := by rw [none] at there; cases there

theorem not_unknown_of_saving {status : Option Status} (saving : status = some .saving) :
    status ≠ some .unknown := by
  rw [saving]
  simp

theorem Settleable.not_unknown {d : Desk} {op : Operation} (inv : Settleable d)
    (active : d.active = some op) : d.status ≠ some .unknown :=
  not_unknown_of_saving (inv.saving (by rw [active]; rfl))

/-- An inspection asks about the write that the retained state describes. -/
theorem Settleable.inspecting {d : Desk} (inv : Settleable d) (identity : Option Identity)
    (unknown : d.status = some .unknown) {w : Operation} (there : d.unsettled = some w) :
    (inspection identity d.state).base = w.base ∧ (inspection identity d.state).bytes = w.bytes := by
  obtain ⟨st, state, base, bytes⟩ := inv.retained unknown w there
  rw [state]
  exact ⟨base, bytes⟩

/-- The write of the active operation becomes the one in doubt. -/
theorem Settleable.sent {d d' : Desk} {op : Operation} (inv : Settleable d)
    (active : d.active = some op) (same : d'.active = d.active) (status : d'.status = d.status)
    (unsettled : d'.unsettled = some op) (bytes : op.bytes.isSome = true) : Settleable d' where
  saving := by rw [same, status]; exact inv.saving
  pending other w there sent := by
    have this : other = op := Option.some.inj ((same ▸ there).symm.trans active)
    have that : w = op := Option.some.inj (sent.symm.trans unsettled)
    rw [this, that]
    exact ⟨rfl, rfl⟩
  retained unknown := absurd (status ▸ unknown) (inv.not_unknown active)
  written w sent := by
    have that : w = op := Option.some.inj (sent.symm.trans unsettled)
    rw [that]
    exact bytes

def settlement (codec : Codec) (env : Env) : Discipline codec env where
  inv := Settleable
  completing d := d.status = some .saving
  adopting _ _ := True
  losing _ d := ∀ w, d.unsettled = some w → Retains d.state w
  doubting op d := ∀ w, d.unsettled = some w →
    op.snapshot.bind (·.base) = w.base ∧ some (codec.encode d.buffer.visible) = w.bytes
  edits _ inv := inv.congr rfl rfl rfl rfl
  dirties inv := inv.congr rfl rfl rfl rfl
  keeps _ inv := inv.congr rfl rfl rfl rfl
  queues inv _ _ := inv.congr rfl rfl rfl rfl
  starts _ _ := .started rfl rfl
  inspects {m} inv unknown := by
    refine ⟨fun _ => rfl, ?_, ?_, inv.written⟩
    · rintro _ w ⟨⟩ there
      exact inv.inspecting m.fileIdentity unknown there
    · intro saving
      cases saving
  sends {m rpc} inv active bytes := by
    by_cases prepared : rpc.request.isSome = true
    · refine inv.sent active rfl rfl ?_ (bytes prepared)
      simp [Machine.desk, prepared]
    · refine inv.congr rfl rfl rfl ?_
      simp [Machine.desk, prepared]
  fails _ conflict inv _ known := by
    cases conflict <;> exact inv.known rfl rfl fun same => known (Option.some.inj same)
  retains _ _ inv active base bytes := by
    refine inv.unknown rfl rfl fun w there => ⟨_, rfl, ?_, ?_⟩
    · exact base.trans (inv.pending _ w active there).1
    · exact bytes.trans (inv.pending _ w active there).2
  loses _ inv _ losing := inv.unknown rfl rfl losing
  hollow inv active none w there := by
    have same := (inv.pending _ w active there).2
    have bytes := inv.written w there
    rw [← same, none] at bytes
    cases bytes
  begins m op w there := by
    have none : (((m.activate op).setStatus .saving none).markModified).desk.unsettled = none := rfl
    rw [none] at there
    cases there
  refuses {m op status} _ _ _ inv _ doubt base bytes := by
    cases status with
    | uncertain =>
        refine inv.unknown rfl rfl fun w there => ⟨_, rfl, ?_, ?_⟩
        · exact base.trans (doubt rfl w there).1
        · exact bytes.trans (doubt rfl w there).2
    | conflict => exact inv.known rfl rfl (by simp [Machine.desk, MergeStatus.status])
    | failed => exact inv.known rfl rfl (by simp [Machine.desk, MergeStatus.status])
  clears inv active := inv.known rfl rfl (inv.not_unknown active)
  completes completing := completing
  displays _ inv idle known _ := inv.known idle rfl fun same => known (Option.some.inj same)
  recordsDirty _ _ _ inv idle saving := inv.known idle rfl (not_unknown_of_saving saving)
  recordsClean _ _ inv idle saving _ _ := inv.known idle rfl (not_unknown_of_saving saving)
  restores inv active _ saving _ := inv.known rfl rfl (not_unknown_of_saving saving)
  restored _ _ inv active _ saving _ _ _ := inv.known rfl rfl (not_unknown_of_saving saving)
  recordsOnly _ _ _ inv idle saving _ := inv.known idle rfl (not_unknown_of_saving saving)
  merges _ _ _ inv idle saving := inv.known idle rfl (not_unknown_of_saving saving)
  merged _ _ inv idle saving _ _ := inv.known idle rfl (not_unknown_of_saving saving)
  adopts inv _ _ _ := inv.congr rfl rfl rfl rfl
  adopted _ inv idle _ _ _ := inv.known idle rfl (by simp [Machine.desk])
  narrows inv _ := inv.congr rfl rfl rfl rfl
  renames _ inv := inv.congr rfl rfl rfl rfl
  reloads bytes revision inv := by
    unfold Machine.reload
    split
    · exact inv
    · exact inv.congr rfl rfl rfl rfl
  expires {m} inv saved := by
    have idle : m.active = none := by
      cases active : m.active with
      | none => rfl
      | some op =>
          have saving := inv.saving (congrArg Option.isSome active)
          rw [show m.desk.status = some .saved from saved] at saving
          cases saving
    exact inv.known idle rfl (by simp [Machine.desk])
  dies inv := inv.congr rfl rfl rfl rfl
  abandons {m} state inv none := by
    refine ⟨inv.saving, inv.pending, fun unknown w there => ?_, inv.written⟩
    obtain ⟨st, kept, _⟩ := inv.retained unknown w there
    rw [show m.desk.state = Option.none from none] at kept
    cases kept

/-- A reply to a sent merge that leaves no doubt about it: no step signals, the verification is
not answered again by a failure, and a read after a lost reply returns MERGED. -/
def Callback.Smooth (callback : Callback) (reply : AnyReply) (env : Env) : Prop :=
  (∀ site, env.fails site = false) ∧
    match callback, reply with
    | .mergeVerified _, .inr (.failed _) => False
    | .mergeLossRead op, .inr (.ok bytes _) => op.bytes = some bytes
    | .mergeLossRead _, _ => False
    | _, _ => True

theorem Callback.Smooth.merged {op : Operation} {reply : AnyReply} {env : Env}
    (smooth : (Callback.mergeLossRead op).Smooth reply env) :
    ∃ bytes revision, reply = .inr (.ok bytes revision) ∧ op.bytes = some bytes := by
  cases reply with
  | inl reply => exact smooth.2.elim
  | inr reply =>
      cases reply with
      | failed error => exact smooth.2.elim
      | ok bytes revision => exact ⟨bytes, revision, rfl, smooth.2⟩

/-- Where an unknown outcome keeps what it needs: a reconciliation read fails only while the state
already holds the write, and a merge whose write was sent is answered smoothly or has MERGED as
its live text. -/
def Retaining (codec : Codec) (m : Machine) : Event → Prop
  | .reply index reply env => ∀ rpc, m.rpcs[index]? = some rpc →
      m.active = some rpc.callback.operation →
      (∀ op failure error, rpc.callback = .reconcileRead op failure →
        reply = .inr (.failed error) → Retains m.state op) ∧
      (rpc.callback.operation.mergeBuffer.isSome = true →
        m.history.unsettled = none ∨ some (m.bytes codec) = rpc.callback.operation.bytes ∨
          rpc.callback.Smooth reply env)
  | _ => True

theorem retaining_permits {event : Event} (held : Held anyPair m) (inv : Settleable m.desk)
    (retaining : Retaining codec m event) : (settlement codec event.env).Permits m event := by
  cases event with
  | reply index reply env =>
      intro rpc found _ active
      obtain ⟨lost, merges⟩ := retaining rpc found active
      have ok := held.stored.rpcs rpc (List.mem_of_getElem? found)
      -- while a merge is in doubt and not answered smoothly, its text is the live text
      have doubts : rpc.callback.operation.mergeBuffer.isSome = true →
          ¬ rpc.callback.Smooth reply env →
          (settlement codec env).doubting rpc.callback.operation m.desk := by
        intro merge rough w there
        obtain ⟨base, bytes⟩ := inv.pending _ w active there
        refine ⟨(ok.operation.merged merge).2.symm.trans base, ?_⟩
        rcases merges merge with unsent | same | smooth
        · rw [show m.desk.unsettled = none from unsent] at there
          cases there
        · exact same.trans bytes
        · exact absurd smooth rough
      refine ⟨inv.saving (by rw [show m.desk.active = _ from active]; rfl), ?_, ?_, ?_, ?_⟩
      · intro op failure error named failed w there
        obtain ⟨st, state, base, bytes⟩ := lost op failure error named failed
        rw [named] at active
        obtain ⟨sameBase, sameBytes⟩ := inv.pending op w active there
        exact ⟨st, state, base.trans sameBase, bytes.trans sameBytes⟩
      · rintro op error named rfl
        have formed := ok.formed
        simp only [Rpc.Formed, named] at formed
        have doubt := doubts (by rw [named]; exact formed.1) (by simp [Callback.Smooth, named])
        rw [named] at doubt
        exact doubt
      · intro op named different
        have formed := ok.formed
        simp only [Rpc.Formed, named] at formed
        have doubt := doubts (by rw [named]; exact formed.1) fun smooth => by
          rw [named] at smooth
          obtain ⟨bytes, revision, same, merged⟩ := smooth.merged
          exact different bytes revision same merged
        rw [named] at doubt
        exact doubt
      · intro merge troubled
        refine doubts merge fun smooth => ?_
        rcases troubled with ⟨site, fails⟩ | none
        · rw [show (Event.reply index reply env).env.fails site = env.fails site from rfl,
            smooth.1 site] at fails
          cases fails
        · have bytes := (ok.operation.merged merge).1
          rw [none] at bytes
          cases bytes
  | save env => exact fun _ _ _ _ => trivial
  | _ => trivial

section Inspection

variable {env : Env} {op : Operation}

/-- How a read that found `bytes` at `revision` settles the write `w` of an inspection `op`. -/
structure SettledBy (m t : Machine) (op w : Operation) (bytes : Bytes) (revision : Token) :
    Prop where
  saved : w.bytes = some bytes →
    (m.liveIdentityEqual op.identity = true →
      t.base.map (fun b => (b.bytes, b.revision)) = some (some bytes, revision)) ∧
    (m.queued = none → ∃ newer, t.result = some (.saved revision newer))
  retry : w.bytes ≠ some bytes → w.base.bind (·.bytes) = some bytes →
    t.status = some .unknown ∧ ∃ st, t.state = some st ∧ st.status = some .retry ∧
      st.base = w.base ∧ st.localBytes = w.bytes ∧ st.remote = some ⟨bytes, revision, false⟩
  conflict : w.bytes ≠ some bytes → w.base.bind (·.bytes) ≠ some bytes →
    t.status = some .conflict ∧ ∃ st, t.state = some st ∧ st.base = w.base ∧
      st.localBytes = w.bytes ∧ st.remote = some ⟨bytes, revision, false⟩

theorem dispatch_base (plain : op.mergeBuffer = none) :
    wp (dispatch codec env op) (fun _ t => t.base = m.base) (fun _ _ => False) m := by
  simp [dispatch, writeSnapshotAsync, callbackError, finishNonsuccess, plain]

theorem dispatchQueued_saved {revision : Token} {statusExtra sameBytes : Bool}
    {queued : Option Operation} (next : ∀ q, queued = some q → q.mergeBuffer = none) :
    wp (dispatchQueued codec env op revision statusExtra sameBytes queued)
      (fun _ t => t.base = m.base ∧
        (queued = none → ∃ newer, t.result = some (.saved revision newer)))
      (fun _ _ => False) m := by
  cases queued with
  | none => exact ⟨rfl, fun _ => ⟨_, rfl⟩⟩
  | some q =>
      simp only [dispatchQueued, wp_bind, wp_update]
      refine wp_mono (dispatch_base (next q rfl)) ?_ fun _ _ => id
      exact fun _ t same => ⟨same, fun absent => by cases absent⟩

theorem finishOrdinary_saved {revision : Token} {statusExtra sameFile sameBytes : Bool}
    {queued : Option Operation} (next : ∀ q, queued = some q → q.mergeBuffer = none) :
    wp (finishOrdinary codec env op revision statusExtra sameFile sameBytes queued)
      (fun _ t =>
        (sameFile = true → t.base.map (fun b => (b.bytes, b.revision)) = some (op.bytes, revision)) ∧
        (queued = none → ∃ newer, t.result = some (.saved revision newer)))
      (fun _ _ => False) m := by
  have chosen : ∀ q, (queued.filter fun next =>
      sameFile && identityEqual op.identity next.identity) = some q → q.mergeBuffer = none :=
    fun q found => next q (Option.eq_some_of_filter_eq_some found)
  have continues : ∀ t : Machine, (sameFile = true →
        t.base.map (fun b => (b.bytes, b.revision)) = some (op.bytes, revision)) →
      wp (confirmBytes codec env op sameBytes)
        (fun sameBytes => wp (dispatchQueued codec env op revision statusExtra sameBytes
          (queued.filter fun next => sameFile && identityEqual op.identity next.identity))
          (fun _ t =>
            (sameFile = true →
              t.base.map (fun b => (b.bytes, b.revision)) = some (op.bytes, revision)) ∧
            (queued = none → ∃ newer, t.result = some (.saved revision newer)))
          (fun _ _ => False)) (fun _ _ => False) t := by
    intro t recorded
    refine wp_mono (confirmBytes_core sameBytes) ?_ fun _ _ => id
    intro sameBytes u core
    refine wp_mono (dispatchQueued_saved chosen) ?_ fun _ _ => id
    rintro _ v ⟨base, result⟩
    have kept : v.base = t.base := base.trans (congrArg Core.base core)
    exact ⟨fun same => kept.symm ▸ recorded same, fun none => result (by rw [none]; rfl)⟩
  simp only [finishOrdinary, wp_bind, wp_whenever, wp_update]
  refine ⟨fun _ => continues _ fun _ => rfl, fun other => continues _ fun same => ?_⟩
  rw [other] at same
  cases same

theorem finishSuccess_saved (current : (m.live && m.operationCurrent op) = true)
    (plain : op.choice = none) (next : ∀ q, m.queued = some q → q.mergeBuffer = none)
    (revision : Token) :
    wp (finishSuccess codec env op revision false)
      (fun _ t =>
        (m.liveIdentityEqual op.identity = true →
          t.base.map (fun b => (b.bytes, b.revision)) = some (op.bytes, revision)) ∧
        (m.queued = none → ∃ newer, t.result = some (.saved revision newer)))
      (fun _ _ => False) m := by
  simp only [finishSuccess, completeSuccess, wp_bind, wp_cacheIdentitySafely, wp_fetch, wp_whenever,
    wp_update, wp_ite, plain]
  have other : ∀ choice, ¬ none = some (choice : Choice) := by
    intro choice same
    cases same
  refine ⟨fun _ => ⟨fun _ => ⟨fun same => absurd same (other _), fun _ =>
      ⟨fun restore => absurd restore.1 (other _), fun _ => ?_⟩⟩, fun stale => ?_⟩,
    fun _ => ⟨fun _ => ⟨fun same => absurd same (other _), fun _ =>
      ⟨fun restore => absurd restore.1 (other _), fun _ => ?_⟩⟩, fun stale => ?_⟩⟩
  · exact finishOrdinary_saved next
  · rw [current] at stale
    cases stale
  · exact finishOrdinary_saved next
  · rw [show ((m.cachePut op.target op.bytes revision).live &&
      (m.cachePut op.target op.bytes revision).operationCurrent op) = true from current] at stale
    cases stale

theorem finishNonsuccess_ended (current : (m.live && m.operationCurrent op) = true)
    (status : Status) (result : SaveResult) (st : ConflictState) :
    wp (finishNonsuccess op status result (some st))
      (fun _ t => t.status = some status ∧ t.state = some st) (fun _ _ => False) m := by
  simp only [finishNonsuccess, wp_bind, wp_fetch, wp_whenever, wp_update]
  refine ⟨fun _ => ⟨fun _ => ⟨rfl, rfl⟩, fun absent => by cases absent⟩, fun stale => ?_⟩
  rw [current] at stale
  cases stale

theorem inspected_settles (current : (m.live && m.operationCurrent op) = true)
    (plain : op.choice = none) (unresolved : op.snapshot = none)
    (next : ∀ q, m.queued = some q → q.mergeBuffer = none) {state : Option ConflictState}
    (held : op.bytes = state.bind (·.localBytes)) (base : op.base = state.bind (·.base))
    {w : Operation} (sameBase : op.base = w.base) (sameBytes : op.bytes = w.bytes)
    (bytes : Bytes) (revision : Token) :
    wp (inspected codec env op state (.ok bytes revision))
      (fun _ t => SettledBy m t op w bytes revision) (fun _ _ => False) m := by
  have local_eq : state.bind (·.localBytes) = w.bytes := held.symm.trans sameBytes
  have base_eq : state.bind (·.base) = w.base := base.symm.trans sameBase
  dsimp only [inspected]
  rw [local_eq, base_eq]
  by_cases saved : w.bytes = some bytes
  · have verdict : (RelayConflict.reconcileUncertain (w.base.bind (·.bytes)) w.bytes bytes
        revision).status = .saved := by simp [RelayConflict.reconcileUncertain, saved]
    rw [verdict]
    refine wp_mono (finishSuccess_saved current plain next revision) ?_ fun _ _ => id
    rintro _ t ⟨recorded, result⟩
    refine ⟨fun _ => ⟨fun same => ?_, result⟩, fun other => absurd saved other,
      fun other => absurd saved other⟩
    rw [recorded same, sameBytes, saved]
  · by_cases retry : w.base.bind (·.bytes) = some bytes
    · have verdict : (RelayConflict.reconcileUncertain (w.base.bind (·.bytes)) w.bytes bytes
          revision).status = .retry := by simp [RelayConflict.reconcileUncertain, saved, retry]
      rw [verdict]
      refine wp_mono (finishNonsuccess_ended current _ _ _) ?_ fun _ _ => id
      rintro _ t ⟨status, kept⟩
      refine ⟨fun same => absurd same saved, fun _ _ => ⟨status, _, kept, ?_⟩,
        fun _ other => absurd retry other⟩
      cases state with
      | none =>
          rw [← base_eq] at retry
          cases retry
      | some st => exact ⟨rfl, base_eq, local_eq, rfl⟩
    · have verdict : (RelayConflict.reconcileUncertain (w.base.bind (·.bytes)) w.bytes bytes
          revision).status = .conflict := by simp [RelayConflict.reconcileUncertain, saved, retry]
      rw [verdict]
      refine wp_mono (finishNonsuccess_ended current _ _ _) ?_ fun _ _ => id
      rintro _ t ⟨status, kept⟩
      refine ⟨fun same => absurd same saved, fun _ other => absurd other retry,
        fun _ _ => ⟨status, _, kept, ?_⟩⟩
      simp [snapshotConflict, unresolved, sameBase, sameBytes]

end Inspection

/-- An unknown outcome has its BASE and LOCAL in the state, and a read made for it while its
inspection is current settles it accordingly. -/
structure OutcomeKept (codec : Codec) (m : Machine) : Prop where
  retained : m.status = some .unknown → ∀ w, m.history.unsettled = some w → Retains m.state w
  inspection : ∀ w, m.history.unsettled = some w → ∀ index rpc op state,
    m.rpcs[index]? = some rpc → rpc.request.isSome = true →
    rpc.callback = .inspected op state → (m.live && m.operationCurrent op) = true →
    ∀ bytes revision env,
      SettledBy m (step codec m (.reply index (.inr (.ok bytes revision)) env)) op w bytes revision

theorem inspection_settles (held : Held anyPair m) (inv : Settleable m.desk) {w op : Operation}
    (there : m.history.unsettled = some w) {index : Nat} {rpc : Rpc}
    {state : Option ConflictState} (found : m.rpcs[index]? = some rpc)
    (sent : rpc.request.isSome = true) (callback : rpc.callback = .inspected op state)
    (current : (m.live && m.operationCurrent op) = true) (bytes : Bytes) (revision : Token)
    (env : Env) :
    SettledBy m (step codec m (.reply index (.inr (.ok bytes revision)) env)) op w bytes
      revision := by
  have ok := held.stored.rpcs rpc (List.mem_of_getElem? found)
  have active := current_active current
  obtain ⟨sameBase, sameBytes⟩ := inv.pending op w active there
  obtain ⟨_, heldBytes, heldBase⟩ := ok.inspected op state callback
  have formed := ok.formed
  simp only [Rpc.Formed, callback] at formed
  have accepted : rpc.accepts (.inr (.ok bytes revision)) = true := by simp [Rpc.accepts, sent]
  simp only [step, found, accepted, if_true]
  rw [callback]
  have noted : ((m.note (rpc.reports (.inr (.ok bytes revision)))).live &&
      (m.note (rpc.reports (.inr (.ok bytes revision)))).operationCurrent op) = true := current
  have settles : wp (inspected codec env op state (.ok bytes revision))
      (fun _ t => SettledBy (m.note (rpc.reports (.inr (.ok bytes revision)))) t op w bytes
        revision) (fun _ _ => False) (m.note (rpc.reports (.inr (.ok bytes revision)))) :=
    inspected_settles noted formed.2.2.1 formed.2.1
      (fun q queued => (held.stored.queued q queued).2.plain) heldBytes heldBase sameBase sameBytes
      bytes revision
  have guarded : wp (runCallback codec env (.inspected op state) (.inr (.ok bytes revision)))
      (fun _ t => SettledBy m t op w bytes revision) (fun _ t => SettledBy m t op w bytes revision)
      (m.note (rpc.reports (.inr (.ok bytes revision)))) := by
    rw [runCallback, wp_rescue]
    refine wp_mono settles ?_ fun _ _ => False.elim
    rintro _ t settled
    exact ⟨settled.saved, settled.retry, settled.conflict⟩
  exact after_of_wp guarded

theorem unknown_outcome_kept {identity : Identity} {bytes : Bytes} {revision : Token}
    (reached : Runs codec (Retaining codec) (.opened codec identity bytes revision) m) :
    OutcomeKept codec m := by
  have inv : Settleable m.desk := by
    refine discipline_runs ⟨by simp [Machine.desk, Machine.opened],
      by simp [Machine.desk, Machine.opened], by simp [Machine.desk, Machine.opened],
      by simp [Machine.desk, Machine.opened]⟩ ?_ reached
    intro s event held inv retaining
    exact ⟨settlement codec event.env, rfl, retaining_permits held inv retaining⟩
  refine ⟨inv.retained, ?_⟩
  intro w there index rpc op state found sent callback current bytes revision env
  exact inspection_settles (held_any reached) inv there found sent callback current bytes revision
    env

/-- The reply to a save is lost, and the read made for it finds BASE. -/
def unwritten : Machine :=
  runAll asciiCodec visitedFile [.edit (.whole ['a', 'b']), .save {},
    .reply 0 (.inl (.transport none)) {}, .reply 1 (.inr (.ok [97] (sampleToken 1))) {}]

theorem unknown_outcome_kept_unwritten :
    unwritten.status = some .unknown ∧ unwritten.history.unsettled.isSome = true ∧
    OutcomeKept asciiCodec unwritten := by
  have reached : Runs asciiCodec (Retaining asciiCodec) visitedFile unwritten := by
    refine Reaches.of_along .refl ⟨trivial, trivial, ?_, ?_, trivial⟩
    · rintro rpc ⟨⟩ _
      exact ⟨by simp, fun merge => by cases merge⟩
    · rintro rpc ⟨⟩ _
      exact ⟨by simp, fun merge => by cases merge⟩
  exact ⟨by decide, by decide, unknown_outcome_kept reached⟩

/-- An ordinary save whose reply is lost and whose reconciliation read fails. -/
def lostSave : Machine :=
  runAll asciiCodec visitedFile [.edit (.whole ['a', 'b']), .save {},
    .reply 0 (.inl (.transport none)) {}, .reply 1 (.inr (.failed none)) {}]

/-- Its outcome is unknown and nothing of it is retained. -/
theorem lost_save_keeps_nothing :
    ¬ ∀ m, Runs asciiCodec AnyStep visitedFile m → OutcomeKept asciiCodec m := by
  intro kept
  have outcome := (kept lostSave (runs_any _ _ _)).retained (by decide) _
    (Option.eq_some_of_isSome (by decide))
  obtain ⟨st, state, _⟩ := outcome
  have none : lostSave.state = none := by decide
  rw [none] at state
  cases state

end EmacsRelay

import EmacsRelay.Client.Coherent

set_option autoImplicit false

/- The commands of the user, and with them every event of the asynchronous machine, keep status
and conflict state together. -/
namespace EmacsRelay

open Routine Editor RelaySave

variable {codec : Codec} {env : Env} {m t : Machine} {op : Operation}

section Commands

theorem captureOperation_complete (coherent : Coherent m.core) (identity : Identity)
    {base : Option Base} (whole : Whole base) (expected : Option Token) :
    wp (captureOperation codec identity base expected)
      (fun op t => t = m ∧ op.Complete ∧ op.Ordinary) (fun _ t => t = m) m := by
  simp only [captureOperation, wp_bind, wp_fetch]
  split
  · rfl
  · rename_i b chosen
    have bytes : b.bytes.isSome = true := by
      cases base with
      | some given => exact whole b chosen
      | none => exact whole_of_bytes coherent.based b chosen
    exact ⟨rfl, ⟨rfl, bytes, by simp, by simp⟩, ⟨rfl, rfl, rfl⟩⟩

theorem capture_complete (coherent : Coherent m.core) {base : Option Base} (whole : Whole base)
    (expected : Option Token) :
    wp (capture codec env base expected)
      (fun op t => t.core = m.core ∧ op.Complete ∧ op.Ordinary)
      (fun _ t => t.core = m.core) m := by
  simp only [capture, wp_bind, wp_fetch]
  split
  · exact rfl
  · rename_i identity visited
    rw [wp_bind]
    apply wp_mono preSave_core ?_ fun _ _ core => core
    intro _ t core
    apply wp_mono (captureOperation_complete (coherent.congr core) identity whole expected)
    · rintro op u ⟨rfl, rest⟩
      exact ⟨core, rest⟩
    · rintro _ u rfl
      exact core

theorem retryStateOperation_complete (coherent : Coherent m.core) :
    wp (retryStateOperation codec env)
      (fun op t => t.core = m.core ∧ op.Complete ∧ op.Ordinary)
      (fun _ t => t.core = m.core) m := by
  have whole : Whole (m.state.bind (·.base)) := by
    intro b base
    obtain ⟨st, there, its⟩ := Option.bind_eq_some_iff.mp base
    exact coherent.state st there b its
  simp only [retryStateOperation, wp_bind, wp_fetch]
  apply wp_mono (capture_complete coherent whole _) ?_ fun _ _ core => core
  rintro op t ⟨core, complete, ordinary⟩
  simp only [wp_ite, wp_pure]
  refine ⟨fun _ => ⟨core, complete, ordinary⟩, fun _ => ⟨core, ?_, ?_⟩⟩
  · exact ⟨complete.bytes, complete.base, complete.snapshot, complete.merge⟩
  · exact ⟨ordinary.plain, ordinary.choice, ordinary.snapshot⟩

theorem inspectUnknown_coherent (coherent : Coherent m.core) :
    Keeps (inspectUnknown codec env) m := by
  have fit : (Callback.inspected ((inspection m.fileIdentity m.state).number (m.generation + 1))
      m.state).Fit := ⟨rfl, rfl, rfl, rfl, coherent.state⟩
  simp only [inspectUnknown, wp_bind, wp_fetch, wp_update, wp_rescue]
  have activated : Coherent ((m.activate ((inspection m.fileIdentity m.state).number
      (m.generation + 1))).setStatus .saving none).core :=
    coherent.activate (by simp [inspection])
  have inspecting : Coherent ((m.activateInspection ((inspection m.fileIdentity m.state).number
      (m.generation + 1))).setStatus .saving none).core := activated
  apply wp_mono (fetchAsync_coherent inspecting fit) (fun _ _ done => done)
  intro error t failed
  exact fit.error failed error

section Resolution

variable {st : ConflictState}

theorem resolving_complete (complete : st.Complete) (identity : Option Identity)
    (choice : Choice) : (resolving identity (some st) choice).Complete where
  bytes := by
    by_cases restore : choice = .restoreBase
    · simpa [resolving, restore] using complete.base
    · simpa [resolving, restore] using complete.localBytes
  base := complete.base
  snapshot := by
    rintro _ ⟨⟩
    exact complete.mergeable
  merge := by simp [resolving]

theorem resolutionOperation_complete (complete : st.Complete) (choice : Choice)
    (saveAs : Option String) :
    wp (resolutionOperation codec env (some st) choice saveAs)
      (fun op t => t.core = m.core ∧ op.Complete) (fun _ t => t.core = m.core) m := by
  have whole := resolving_complete complete m.fileIdentity choice
  simp only [resolutionOperation, wp_bind, wp_fetch]
  split
  · simp only [wp_ite, wp_pure, wp_signal]
    refine ⟨fun _ => ⟨trivial, ?_⟩, fun _ => trivial⟩
    exact ⟨whole.bytes, whole.base, whole.snapshot, whole.merge⟩
  · rw [wp_bind]
    apply wp_mono (recoveryBuffer_core _ _) ?_ fun _ _ core => core
    intro recovery t core
    split
    · exact ⟨core, whole.bytes, whole.base, whole.snapshot, whole.merge⟩
    · rw [wp_bind]
      apply wp_mono (recoveryBuffer_core _ _) ?_ fun _ _ again => again.trans core
      intro other u again
      exact ⟨again.trans core, whole.bytes, whole.base, whole.snapshot, whole.merge⟩
  · exact ⟨rfl, whole⟩

theorem keepRemote_coherent (coherent : Coherent m.core) (idle : m.active = none) :
    Keeps (keepRemote codec env (some st)) m := by
  simp only [keepRemote, wp_bind, wp_update, wp_fetch, wp_cacheIdentitySafely]
  apply wp_mono (recoveryBuffer_core _ _) ?_ fun _ _ core => coherent.congr core
  intro recovery t core
  apply wp_mono (eraseAndInsert_core _ _ _) ?_ fun _ _ again => coherent.congr (again.trans core)
  intro _ u again
  have here : Coherent u.core := coherent.congr (again.trans core)
  have ended : u.active = none := (congrArg Core.active (again.trans core)).trans idle
  have cached : Coherent (u.cachePut u.fileIdentity (some (adoptedRemote st.remote).1)
      (adoptedRemote st.remote).2).core := here.cachePut _ _ _
  exact ⟨fun _ => here.close ended _ _ _, fun _ => cached.close ended _ _ _⟩

end Resolution

theorem startEdiff_coherent (coherent : Coherent m.core) (snapshot : Option ConflictState) :
    Keeps (startEdiff env snapshot) m := by
  simp only [startEdiff, wp_bind, wp_mayFail]
  refine ⟨fun _ => coherent, fun _ => ?_⟩
  split
  · rename_i l r b _ remote base
    refine { coherent with merges := ?_ }
    intro buffer member st its
    rcases List.mem_append.mp member with old | fresh
    · exact coherent.merges buffer old st its
    · have same : snapshot = some st := by
        rw [List.mem_singleton.mp fresh] at its
        exact its
      rw [same] at remote base
      have known : st.remote = some r := remote
      have bytes : st.base.bind (·.bytes) = some b := base
      exact ⟨by rw [bytes]; rfl, by rw [known]; rfl⟩
  · exact coherent

theorem resolveReadyConflict_coherent (coherent : Coherent m.core)
    (conflict : m.status = some .conflict) : Keeps (resolveReadyConflict codec env) m := by
  obtain ⟨st, state, complete⟩ := coherent.shown (.inl conflict)
  have idle : m.active = none := by
    cases active : m.active with
    | none => rfl
    | some op =>
        have saving : m.status = some .saving := coherent.saving (by
          rw [show m.core.active = some op from active]
          rfl)
        rw [conflict] at saving
        cases saving
  have retained : m.state = some st := state
  simp only [resolveReadyConflict, wp_bind, wp_fetch, retained]
  split
  · exact coherent
  · exact coherent
  · exact startEdiff_coherent coherent _
  · exact keepRemote_coherent coherent idle
  · rw [wp_bind]
    apply wp_mono (resolutionOperation_complete complete _ _) ?_
      fun _ _ core => coherent.congr core
    rintro op t ⟨core, whole⟩
    apply dispatch_coherent (coherent.congr core) whole
    intro _
    exact ⟨st, (congrArg Core.state core).trans retained, complete⟩

theorem applyMergeAsync_coherent (coherent : Coherent m.core) (merge : Nat) (merged : Bytes) :
    Keeps (applyMergeAsync codec env merge merged) m := by
  simp only [applyMergeAsync, wp_bind, wp_fetch]
  split
  · exact coherent
  · rename_i st found
    obtain ⟨buffer, there, its⟩ := Option.bind_eq_some_iff.mp found
    have mergeable := coherent.merges buffer (List.mem_of_getElem? there) st its
    have complete : (merging m.fileIdentity st merge merged).Complete := by
      refine ⟨rfl, mergeable.base, ?_, fun _ => rfl⟩
      rintro _ ⟨⟩
      exact mergeable
    have numbered := complete.number (m.generation + 1)
    simp only [wp_ite, wp_signal, wp_bind, wp_update, wp_rescue]
    refine ⟨fun _ => coherent, fun _ => ⟨fun _ => coherent, fun _ => ⟨fun _ => ?_, fun _ => ?_⟩⟩⟩
    · exact mergeRefusal_coherent coherent complete rfl _ _ _
    · have activated : Coherent (((m.activate ((merging m.fileIdentity st merge merged).number
          (m.generation + 1))).markModified).setStatus .saving none).core :=
        coherent.activate (by simp [merging])
      have fit : (Callback.mergeVerified ((merging m.fileIdentity st merge merged).number
          (m.generation + 1))).Fit := ⟨numbered, rfl⟩
      apply wp_mono (fetchAsync_coherent activated fit) (fun _ _ done => done)
      intro error t failed
      exact numbered.error failed error

theorem abandonMerge_coherent (coherent : Coherent m.core) (merge : Nat) :
    Keeps (abandonMerge merge) m := by
  simp only [abandonMerge, wp_bind, wp_fetch]
  split
  · exact coherent
  · rename_i buffer found
    simp only [wp_bind, wp_whenever, wp_update]
    refine ⟨fun absent => ?_, fun _ => coherent.setMerges (closeMerge_old _ _)⟩
    have none : m.state = none := by
      simp only [Bool.and_eq_true, Option.isNone_iff_eq_none] at absent
      exact absent.2
    have restored : Coherent (m.setState buffer.snapshot).core := by
      refine { coherent with state := ?_, shown := ?_ }
      · intro st snapshot
        have mergeable := coherent.merges buffer (List.mem_of_getElem? found) st snapshot
        exact whole_of_bytes mergeable.base
      · intro shown
        obtain ⟨st, state, _⟩ := coherent.shown shown
        rw [show m.core.state = m.state from rfl, none] at state
        cases state
    exact restored.setMerges (closeMerge_old _ _)

theorem saveBufferAsync_coherent (coherent : Coherent m.core) :
    Keeps (saveBufferAsync codec env) m := by
  simp only [saveBufferAsync, wp_bind, wp_fetch, wp_ite, wp_signal, wp_pure]
  refine ⟨fun _ => coherent, fun _ => ⟨fun conflict => ?_, fun _ => ⟨fun _ => ?_, fun _ =>
    ⟨fun _ => inspectUnknown_coherent coherent, fun _ => ⟨fun _ => ?_, fun _ => coherent⟩⟩⟩⟩⟩
  · exact resolveReadyConflict_coherent coherent conflict
  · apply wp_mono (retryStateOperation_complete coherent) ?_ fun _ _ core => coherent.congr core
    rintro op t ⟨core, complete, ordinary⟩
    exact queueOrDispatch_coherent (coherent.congr core) complete ordinary
  · have whole : Whole none := fun b none => by cases none
    apply wp_mono (capture_complete coherent whole none) ?_ fun _ _ core => coherent.congr core
    rintro op t ⟨core, complete, ordinary⟩
    exact queueOrDispatch_coherent (coherent.congr core) complete ordinary

end Commands

section Steps

/-- An event turns an inspection with nothing to compare into a conflict. -/
def Event.Hollow (m : Machine) : Event → Prop
  | .reply index answer _ => ∃ rpc, m.rpcs[index]? = some rpc ∧ rpc.callback.Hollow m answer
  | _ => False

theorem stepLive_coherent (coherent : Coherent m.core) (event : Event) :
    Coherent (stepLive codec m event).core := by
  cases event with
  | edit buffer => exact { coherent with }
  | narrow buffer =>
      simp only [stepLive]
      split
      · exact { coherent with }
      · exact coherent
  | rename fileName => exact { coherent with }
  | toggleModified modified => exact { coherent with }
  | reload bytes revision =>
      simp only [stepLive, Machine.reload]
      split
      · exact coherent
      · exact { coherent with based := rfl }
  | save env => exact after_of_wp (saveBufferAsync_coherent coherent)
  | applyMerge merge merged env =>
      exact after_of_wp (applyMergeAsync_coherent coherent merge merged)
  | expire generation =>
      simp only [stepLive]
      split
      · rename_i expired
        refine { coherent with saving := ?_, shown := ?_ }
        · intro active
          have saving : m.status = some .saving := coherent.saving active
          rw [expired.2] at saving
          cases saving
        · rintro (conflict | saveAs)
          · cases conflict
          · exact coherent.shown (.inr saveAs)
      · exact coherent
  | kill => exact { coherent with }
  | abandonMerge merge => exact coherent
  | reply index reply env => exact coherent
  | prefetch authority path bytes revision => exact coherent
  | evict key => exact coherent

theorem step_coherent (coherent : Coherent m.core) {event : Event} (sound : ¬ event.Hollow m) :
    Coherent (step codec m event).core := by
  have live : Coherent (if m.live then stepLive codec m event else m).core := by
    split
    · exact stepLive_coherent coherent event
    · exact coherent
  cases event with
  | reply index reply env =>
      simp only [step]
      split
      · exact coherent
      · rename_i rpc found
        split
        · have noted : Coherent (m.note (rpc.reports reply)).core := { coherent with }
          have fit := coherent.rpcs rpc (List.mem_of_getElem? found)
          apply after_of_wp (runCallback_coherent noted fit ?_)
          intro hollow
          exact sound ⟨rpc, found, hollow⟩
        · exact coherent
  | abandonMerge merge => exact after_of_wp (abandonMerge_coherent coherent merge)
  | prefetch authority path bytes revision => exact { coherent with }
  | evict key => exact { coherent with }
  | edit buffer => exact live
  | narrow buffer => exact live
  | rename fileName => exact live
  | toggleModified modified => exact live
  | reload bytes revision => exact live
  | save env => exact live
  | applyMerge merge merged env => exact live
  | expire generation => exact live
  | kill => exact live

theorem opened_coherent (identity : Identity) (bytes : Bytes) (revision : Token) :
    Coherent (Machine.opened codec identity bytes revision).core where
  based := rfl
  state := by simp [Machine.core, Machine.opened]
  merges := by simp [Machine.core, Machine.opened]
  queued := by simp [Machine.core, Machine.opened]
  rpcs := by simp [Machine.core, Machine.opened]
  saving := by simp [Machine.core, Machine.opened]
  shown := by simp [Core.Shows, Machine.core, Machine.opened]

end Steps

end EmacsRelay

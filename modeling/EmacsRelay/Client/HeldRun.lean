import EmacsRelay.Client.Held

set_option autoImplicit false

/- The commands of the user, and with them whole runs, keep what the buffer holds good. -/
namespace EmacsRelay

open Routine Editor RelaySave

variable {p : Policy} {reports : List Report} {codec : Codec} {env : Env} {m : Machine}
  {op : Operation}

theorem inspectUnknown_held (held : HeldAt p reports m) :
    Preserves p reports (inspectUnknown codec env) m := by
  have snaps : ∀ st, m.state = some st → p.SnapOk reports st :=
    fun st same => held.same ▸ held.stored.state st same
  have ok : p.OpOk reports (inspection m.fileIdentity m.state) := by
    refine ⟨held.stored.home, ?_, by simp [inspection], by simp [inspection],
      by simp [inspection], by simp [inspection], by simp [inspection], rfl, by simp [inspection]⟩
    intro b same
    obtain ⟨st, state, base⟩ := Option.bind_eq_some_iff.mp same
    exact (snaps st state).base b base
  simp only [inspectUnknown, wp_bind, wp_fetch, wp_update, wp_rescue]
  refine wp_mono (fetchAsync_held ?_ ?_) (fun _ _ done => done) ?_
  · refine ⟨⟨(held.stored.activateInspection rfl).setStatus .saving none, fun _ => rfl, ?_⟩,
      held.same⟩
    rintro (conflict | ⟨_, ⟨⟩, saveAs⟩)
    · cases conflict
    · cases saveAs
  · refine ⟨ok.number _, rfl, ⟨rfl, rfl, rfl, rfl⟩, ?_, by simp⟩
    rintro _ _ ⟨⟩
    exact ⟨snaps, rfl, rfl⟩
  · intro error t failed
    exact callbackError_held failed (ok.number _) error

section Resolution

variable {snapshot : Option ConflictState}

theorem resolving_ok (snaps : ∀ st, snapshot = some st → p.SnapOk reports st)
    {identity : Option Identity} (home : p.home identity) (choice : Choice) :
    p.OpOk reports (resolving identity snapshot choice) where
  home := home
  base b same := by
    obtain ⟨st, there, base⟩ := Option.bind_eq_some_iff.mp same
    exact (snaps st there).base b base
  snapshot := snaps
  expected token same := by
    simp only [resolving] at same
    split at same
    · exact .inl (Option.some.inj same).symm
    · obtain ⟨r, bound, revision⟩ := Option.map_eq_some_iff.mp same
      obtain ⟨st, there, remote⟩ := Option.bind_eq_some_iff.mp bound
      exact .inr (.inr ⟨st, r, there, remote, revision⟩)
  localBytes _ other st there := by
    have plain : choice ≠ .restoreBase := fun same => other (by simp [resolving, same])
    have same : snapshot = some st := there
    simp [resolving, plain, same]
  merge := by simp [resolving]
  target := by simp [resolving]
  saveAs := rfl
  merged := by simp [resolving]

theorem resolutionOperation_held (held : HeldAt p reports m)
    (snaps : ∀ st, snapshot = some st → p.SnapOk reports st) (choice : Choice)
    (saveAs : Option String) :
    wp (resolutionOperation codec env snapshot choice saveAs)
      (fun op t => t.core = m.core ∧ p.OpOk reports op ∧ op.mergeBuffer = none ∧
        op.choice = some choice)
      (fun _ t => t.core = m.core) m := by
  have ok := resolving_ok snaps held.stored.home choice
  simp only [resolutionOperation, wp_bind, wp_fetch]
  split
  · simp only [wp_ite, wp_pure, wp_signal]
    refine ⟨fun _ => ⟨trivial, ?_, rfl, rfl⟩, fun _ => trivial⟩
    exact { ok with target := fun _ => rfl, saveAs := rfl, localBytes := ok.localBytes }
  · rw [wp_bind]
    refine wp_mono (recoveryBuffer_core _ _) ?_ fun _ _ core => core
    intro recovery t core
    split
    · exact ⟨core, { ok with localBytes := ok.localBytes }, rfl, rfl⟩
    · rw [wp_bind]
      refine wp_mono (recoveryBuffer_core _ _) ?_ fun _ _ again => again.trans core
      intro other u again
      exact ⟨again.trans core, { ok with localBytes := ok.localBytes }, rfl, rfl⟩
  · exact ⟨rfl, ok, rfl, rfl⟩

end Resolution

theorem adoptedRemote_good {st : ConflictState} (ok : p.SnapOk reports st) {r : Remote}
    (remote : st.remote = some r) :
    p.good reports (adoptedRemote st.remote).1 (adoptedRemote st.remote).2 := by
  obtain ⟨good, gone⟩ := ok.remote r remote
  simp only [adoptedRemote, remote]
  split
  · rename_i deleted
    rw [(gone deleted).1, (gone deleted).2] at good
    exact good
  · exact good

theorem keepRemote_held (held : HeldAt p reports m) (idle : m.active = none) {st : ConflictState}
    (ok : p.SnapOk reports st) (remote : st.remote.isSome = true) :
    Preserves p reports (keepRemote codec env (some st)) m := by
  obtain ⟨r, there⟩ := Option.isSome_iff_exists.mp remote
  have good := adoptedRemote_good ok there
  simp only [keepRemote, wp_bind, wp_update, wp_fetch, Option.bind_some]
  refine wp_mono (recoveryBuffer_core _ _) ?_ fun _ _ core => held.congr core
  intro recovery t core
  refine wp_mono (eraseAndInsert_core _ _ _) ?_ fun _ _ again => held.congr (again.trans core)
  intro _ u again
  have here : HeldAt p reports u := held.congr (again.trans core)
  have ended : u.active = none := (congrArg Core.active (again.trans core)).trans idle
  have ends : ∀ v : Machine, Stored p v.core → v.history.reports = reports → v.active = none →
      HeldAt p reports (((v.setState none).markClean st.owner).setStatus .saved
        (some (.adoptedRemote recovery))) := by
    intro v stored same idle
    refine ⟨⟨(stored.setState (by simp)).setStatus .saved none, Settled.idle idle ?_⟩, same⟩
    intro conflict
    cases conflict
  have recorded := here.stored.recordBase (here.same.symm ▸ good) .utf8
  rw [wp_cacheIdentitySafely]
  refine ⟨fun _ => ends _ recorded here.same ended, fun _ => ends _ ?_ here.same ended⟩
  exact recorded.cachePut _ _ _ (.inl (here.same.symm ▸ good))

theorem startEdiff_held (held : HeldAt p reports m) {snapshot : Option ConflictState}
    (snaps : ∀ st, snapshot = some st → p.SnapOk reports st) :
    Preserves p reports (startEdiff env snapshot) m := by
  simp only [startEdiff, wp_bind, wp_mayFail]
  refine ⟨fun _ => held, fun _ => ?_⟩
  split
  · rename_i l r b _ remote _
    obtain ⟨st, there, known⟩ := Option.bind_eq_some_iff.mp remote
    refine ⟨⟨held.stored.setMerges ?_, held.settled⟩, held.same⟩
    intro buffer member st' its
    rcases List.mem_append.mp member with old | fresh
    · exact held.stored.merges buffer old st' its
    · rw [List.mem_singleton.mp fresh] at its
      have same : st' = st := Option.some.inj (its.symm.trans there)
      rw [same]
      exact ⟨held.same.symm ▸ snaps st there, by rw [known]; rfl⟩
  · exact held

theorem resolveReadyConflict_held (held : HeldAt p reports m)
    (conflict : m.status = some .conflict) :
    Preserves p reports (resolveReadyConflict codec env) m := by
  obtain ⟨st, state, remote⟩ := held.settled.conflicted (.inl conflict)
  have idle := held.settled.idle_of_conflict conflict
  have ok : p.SnapOk reports st := held.same ▸ held.stored.state st state
  have snaps : ∀ st', some st = some st' → p.SnapOk reports st' := by
    rintro _ ⟨⟩
    exact ok
  have dispatches : ∀ choice saveAs,
      wp (resolutionOperation codec env (some st) choice saveAs)
        (fun op => wp (dispatch codec env op) (fun _ => HeldAt p reports)
          (fun _ => HeldAt p reports)) (fun _ => HeldAt p reports) m := by
    intro choice saveAs
    refine wp_mono (resolutionOperation_held held snaps choice saveAs) ?_
      fun _ _ core => held.congr core
    rintro op t ⟨core, good, plain, _⟩
    refine dispatch_held (held.congr core) good plain fun _ => ⟨st, ?_, remote⟩
    exact (congrArg Core.state core).trans state
  simp only [resolveReadyConflict, wp_bind, wp_fetch, state]
  split
  · exact held
  · exact held
  · exact startEdiff_held held snaps
  · exact keepRemote_held held idle ok remote
  · rw [wp_bind]
    exact dispatches _ _

theorem applyMergeAsync_held (held : HeldAt p reports m) (merge : Nat) (merged : Bytes) :
    Preserves p reports (applyMergeAsync codec env merge merged) m := by
  simp only [applyMergeAsync, wp_bind, wp_fetch]
  split
  · exact held
  · rename_i st found
    obtain ⟨buffer, there, its⟩ := Option.bind_eq_some_iff.mp found
    obtain ⟨ok, remote⟩ := held.stored.merges buffer (List.mem_of_getElem? there) st its
    rw [show m.core.reports = reports from held.same] at ok
    obtain ⟨r, known⟩ := Option.isSome_iff_exists.mp remote
    have good : p.OpOk reports (merging m.fileIdentity st merge merged) := by
      refine ⟨held.stored.home, ok.base, ?_, by simp [merging], by simp [merging],
        fun _ => ⟨st, r, rfl, known⟩, by simp [merging], rfl, by simp [merging]⟩
      rintro _ ⟨⟩
      exact ok
    simp only [wp_ite, wp_signal, wp_bind, wp_update, wp_rescue]
    refine ⟨fun _ => held, fun _ => ⟨fun _ => held, fun idle => ⟨fun _ => ?_, fun _ => ?_⟩⟩⟩
    · exact mergeRefusal_held held good rfl (by simp) _ _
    · have activated : HeldAt p reports ((m.activate
          ((merging m.fileIdentity st merge merged).number (m.generation + 1))).setStatus
            .saving none) := held.activate rfl (by simp [merging])
      have issued : p.RpcOk reports ⟨prepareRead m.fileIdentity,
          .mergeVerified ((merging m.fileIdentity st merge merged).number (m.generation + 1))⟩ :=
        ⟨good.number (m.generation + 1), rfl, ⟨rfl, rfl⟩, by simp, by simp⟩
      have marked : HeldAt p reports (((m.activate
          ((merging m.fileIdentity st merge merged).number (m.generation + 1))).markModified).setStatus
            .saving none) := activated.congr rfl
      refine wp_mono (fetchAsync_held marked issued) (fun _ _ done => done) ?_
      intro error t failed
      exact callbackError_held failed (good.number _) error

theorem abandonMerge_held (held : HeldAt p reports m) (merge : Nat) :
    Preserves p reports (abandonMerge merge) m := by
  simp only [abandonMerge, wp_bind, wp_fetch]
  split
  · exact held
  · rename_i buffer found
    simp only [wp_bind, wp_whenever, wp_update]
    refine ⟨fun absent => HeldAt.closeMerge ?_ _, fun _ => held.closeMerge _⟩
    have none : m.state = none := by
      simp only [Bool.and_eq_true, Option.isNone_iff_eq_none] at absent
      exact absent.2
    refine ⟨⟨held.stored.setState ?_, held.settled.saving, ?_⟩, held.same⟩
    · intro st snapshot
      exact (held.stored.merges buffer (List.mem_of_getElem? found) st snapshot).1
    · intro shown
      obtain ⟨st, state, _⟩ := held.settled.conflicted shown
      rw [none] at state
      cases state

theorem saveBufferAsync_held (held : HeldAt p reports m) :
    Preserves p reports (saveBufferAsync codec env) m := by
  simp only [saveBufferAsync, wp_bind, wp_fetch, wp_ite, wp_signal, wp_pure]
  refine ⟨fun _ => held, fun _ => ⟨fun conflict => resolveReadyConflict_held held conflict,
    fun _ => ⟨fun retry => ?_, fun _ => ⟨fun _ => inspectUnknown_held held,
      fun _ => ⟨fun _ => ?_, fun _ => held⟩⟩⟩⟩⟩
  · refine wp_mono (retryStateOperation_held held retry.2) ?_ fun _ _ core => held.congr core
    rintro op t ⟨core, ok, ordinary⟩
    exact queueOrDispatch_held (held.congr core) ok ordinary
  · refine wp_mono (capture_held held (by simp) (by simp)) ?_ fun _ _ core => held.congr core
    rintro op t ⟨core, ok, ordinary, _⟩
    exact queueOrDispatch_held (held.congr core) ok ordinary

/-- What a reply must bring for the callback it is given to. -/
def Policy.SoundReply (p : Policy) (reports : List Report) (callback : Callback)
    (reply : AnyReply) : Prop :=
  match callback, reply with
  | .writeDone op, .inl (.ok revision) =>
      ∀ bytes, op.bytes = some bytes → p.good reports bytes revision ∨ p.Aside op
  | .writeDone op, .inl (.refused _ (some .deleted) _) =>
      p.good reports [] .missing ∨ p.Aside op
  | .mergeWriteDone op, .inl (.ok revision) =>
      ∀ bytes, op.bytes = some bytes → p.good reports bytes revision
  | .reconcileRead op _, .inr (.ok bytes revision) => p.Fetched reports op bytes revision
  | .conflictRead op _, .inr (.ok bytes revision) =>
      p.Fetched reports op bytes revision ∧ p.Restored reports op bytes revision
  | .conflictRead op (.kind .deleted), .inr (.failed _) =>
      p.Fetched reports op [] .missing ∧ p.Restored reports op [] .missing
  | .inspected _ _, .inr (.ok bytes revision) => p.good reports bytes revision
  | .mergeVerified _, .inr (.ok bytes revision) => p.good reports bytes revision
  | .mergeLossRead _, .inr (.ok bytes revision) => p.good reports bytes revision
  | .mergeConflictRead _ _, .inr (.ok bytes revision) => p.good reports bytes revision
  | _, _ => True

/-- What an event must bring where it happens. -/
def Policy.Sound (p : Policy) (m : Machine) : Event → Prop
  | .reply index reply _ => ∀ rpc, m.rpcs[index]? = some rpc → rpc.accepts reply = true →
      p.SoundReply (m.history.reports ++ rpc.reports reply) rpc.callback reply
  | .reload bytes revision => ∀ id, m.fileIdentity = some id →
      p.good (m.history.reports ++ [⟨id.authority, id.path, bytes, revision⟩]) bytes revision
  | .prefetch authority path bytes revision => p.interest (authority, path) →
      p.good (m.history.reports ++ [⟨authority, path, bytes, revision⟩]) bytes revision
  | .rename fileName => p.home (RelayConflict.fileIdentity fileName)
  | _ => True

theorem callbackBody_held (held : HeldAt p reports m) {rpc : Rpc} (ok : p.RpcOk reports rpc)
    {reply : AnyReply} (accepted : rpc.accepts reply = true)
    (sound : p.SoundReply reports rpc.callback reply) :
    Preserves p reports (callbackBody codec env rpc.callback reply) m := by
  obtain ⟨request, callback⟩ := rpc
  have whole : p.OpOk reports callback.operation := ok.operation
  have numbered : callback.operation.generation.isSome = true := ok.numbered
  have formed := ok.formed
  cases callback with
  | writeDone op =>
      cases reply with
      | inr reply => exact held
      | inl reply =>
          refine writeDone_held held ok rfl accepted ?_ ?_
          · rintro revision rfl
            exact sound
          · rintro code error rfl
            exact sound
  | reconcileRead op failure =>
      cases reply with
      | inl reply => exact held
      | inr reply =>
          refine reconcileRead_held held whole failure ?_
          rintro bytes revision rfl
          exact sound
  | conflictRead op reason =>
      cases reply with
      | inl reply => exact held
      | inr reply =>
          refine conflictRead_held held whole formed.1 formed.2.1 reason ?_ ?_
          · rintro bytes revision rfl
            exact sound
          · rintro error rfl rfl
            exact sound
  | inspected op state =>
      cases reply with
      | inl reply => exact held
      | inr reply =>
          obtain ⟨snaps, bytes, _⟩ := ok.inspected op state rfl
          refine inspected_held held whole snaps bytes ?_
          rintro content revision rfl
          exact sound
  | mergeVerified op =>
      cases reply with
      | inl reply => exact held
      | inr reply =>
          refine mergeVerified_held held whole numbered formed.1 ?_
          rintro bytes revision rfl
          exact sound
  | mergeWriteDone op =>
      cases reply with
      | inr reply => exact held
      | inl reply =>
          refine mergeWriteDone_held held whole numbered formed.1 ?_
          rintro revision rfl
          obtain ⟨_, token, prepared, _⟩ := formed
          have sent : request.isSome = true := by simpa [Rpc.accepts] using accepted
          have request_eq : request = prepareWrite op.identity op.bytes (some token) none := prepared
          obtain ⟨bytes, captured⟩ := prepareWrite_bytes (request_eq ▸ sent)
          exact ⟨bytes, captured, sound bytes captured⟩
  | mergeLossRead op =>
      cases reply with
      | inl reply => exact held
      | inr reply =>
          refine mergeLossRead_held held whole formed.1 ?_
          rintro bytes revision rfl
          exact sound
  | mergeConflictRead op reason =>
      cases reply with
      | inl reply => exact held
      | inr reply =>
          refine mergeConflictRead_held held whole formed.1 reason ?_
          rintro bytes revision rfl
          exact sound

theorem runCallback_held (held : HeldAt p reports m) {rpc : Rpc} (ok : p.RpcOk reports rpc)
    {reply : AnyReply} (accepted : rpc.accepts reply = true)
    (sound : p.SoundReply reports rpc.callback reply) :
    Preserves p reports (runCallback codec env rpc.callback reply) m := by
  rw [runCallback, Preserves, wp_rescue]
  refine wp_mono (callbackBody_held held ok accepted sound) (fun _ _ done => done) ?_
  intro error t failed
  exact callbackError_held failed ok.operation error

theorem Held.at (held : Held p m) : HeldAt p m.history.reports m := ⟨held, rfl⟩

theorem reload_held (held : Held p m) {bytes : Bytes} {revision : Token}
    (sound : p.Sound m (.reload bytes revision)) : Held p (m.reload codec bytes revision) := by
  unfold Machine.reload
  split
  · exact held
  · rename_i id visited
    have noted := held.stored.note [⟨id.authority, id.path, bytes, revision⟩]
    exact ⟨{ noted with base := (noted.recordBase (sound id visited) .utf8).base }, held.settled⟩

theorem stepLive_held (held : Held p m) {event : Event} (sound : p.Sound m event) :
    Held p (stepLive codec m event) := by
  cases event with
  | edit buffer => exact ⟨held.stored, held.settled⟩
  | narrow buffer =>
      simp only [stepLive]
      split
      · exact ⟨held.stored, held.settled⟩
      · exact held
  | rename fileName => exact ⟨{ held.stored with home := sound }, held.settled⟩
  | toggleModified modified => exact ⟨held.stored, held.settled⟩
  | reload bytes revision => exact reload_held held sound
  | save env => exact (after_of_wp (saveBufferAsync_held held.at)).toHeld
  | applyMerge merge merged env =>
      exact (after_of_wp (applyMergeAsync_held held.at merge merged)).toHeld
  | expire generation =>
      simp only [stepLive]
      split
      · rename_i expired
        refine ⟨{ held.stored with }, ?_, ?_⟩
        · intro active
          have saving := held.settled.saving active
          rw [expired.2] at saving
          cases saving
        · rintro (conflict | saveAs)
          · cases conflict
          · exact held.settled.conflicted (.inr saveAs)
      · exact held
  | kill => exact ⟨held.stored, held.settled⟩
  | abandonMerge merge => exact held
  | reply index reply env => exact held
  | prefetch authority path bytes revision => exact held
  | evict key => exact held

theorem held_step (held : Held p m) {event : Event} (sound : p.Sound m event) :
    Held p (step codec m event) := by
  have live : Held p (if m.live then stepLive codec m event else m) := by
    split
    · exact stepLive_held held sound
    · exact held
  cases event with
  | reply index reply env =>
      simp only [step]
      split
      · exact held
      · rename_i rpc found
        split
        · rename_i accepted
          have noted : HeldAt p (m.history.reports ++ rpc.reports reply)
              (m.note (rpc.reports reply)) :=
            ⟨⟨held.stored.note _, held.settled⟩, rfl⟩
          have ok : p.RpcOk (m.history.reports ++ rpc.reports reply) rpc :=
            (held.stored.rpcs rpc (List.mem_of_getElem? found)).mono
          exact (after_of_wp (runCallback_held noted ok accepted (sound rpc found accepted))).toHeld
        · exact held
  | abandonMerge merge => exact (after_of_wp (abandonMerge_held held.at merge)).toHeld
  | prefetch authority path bytes revision =>
      have noted := held.stored.note [⟨authority, path, bytes, revision⟩]
      refine ⟨{ noted with cache := ?_ }, held.settled⟩
      intro key wanted content token found
      simp only [Machine.core, step] at found
      split at found
      · rename_i same
        cases found
        exact sound (same ▸ wanted)
      · exact noted.cache key wanted content token found
  | evict key =>
      refine ⟨{ held.stored with cache := ?_ }, held.settled⟩
      intro other wanted content token found
      simp only [Machine.core, step] at found
      split at found
      · cases found
      · exact held.stored.cache other wanted content token found
  | edit buffer => exact live
  | narrow buffer => exact live
  | rename fileName => exact live
  | toggleModified modified => exact live
  | reload bytes revision => exact live
  | save env => exact live
  | applyMerge merge merged env => exact live
  | expire generation => exact live
  | kill => exact live

theorem opened_held {identity : Identity} {bytes : Bytes} {revision : Token}
    (home : p.home (RelayConflict.fileIdentity (some identity.filename)))
    (good : p.good [⟨identity.authority, identity.path, bytes, revision⟩] bytes revision) :
    Held p (Machine.opened codec identity bytes revision) where
  stored :=
    { home := home
      base := by
        rintro b ⟨⟩
        exact ⟨bytes, rfl, good⟩
      state := by simp [Machine.core, Machine.opened]
      merges := by simp [Machine.core, Machine.opened]
      active := by simp [Machine.core, Machine.opened]
      queued := by simp [Machine.core, Machine.opened]
      cache := by simp [Machine.core, Machine.opened]
      rpcs := by simp [Machine.core, Machine.opened] }
  settled := Settled.idle rfl (by simp [Machine.opened])

/-- Runs whose events are all sound, given the invariant, keep it. -/
theorem held_runs {permitted : Machine → Event → Prop} {start : Machine} (init : Held p start)
    (sound : ∀ s event, Held p s → permitted s event → p.Sound s event)
    (reached : Runs codec permitted start m) :
    Held p m :=
  Reaches.invariant init
    (fun s event held permits => held_step held (sound s event held permits)) reached

/-- The policy that asks for nothing; what is left of the invariant is the shape of calls. -/
def anyPair : Policy where
  good _ _ _ := True
  mono _ := trivial
  interest _ := True
  home _ := True

theorem anyPair_sound (m : Machine) (event : Event) : anyPair.Sound m event := by
  cases event with
  | reply index reply env =>
      intro rpc _ _
      unfold Policy.SoundReply
      split <;> simp [anyPair, Policy.Fetched, Policy.Restored]
  | reload bytes revision => exact fun _ _ => trivial
  | prefetch authority path bytes revision => exact fun _ => trivial
  | rename fileName => trivial
  | _ => trivial

theorem held_any {permitted : Machine → Event → Prop} {identity : Identity} {bytes : Bytes}
    {revision : Token} (reached : Runs codec permitted (.opened codec identity bytes revision) m) :
    Held anyPair m :=
  held_runs (opened_held trivial trivial) (fun s event _ _ => anyPair_sound s event) reached

end EmacsRelay

import EmacsRelay.Client.CoherentRun
import EmacsRelay.Client.Blocking

set_option autoImplicit false

/- Asynchronous and synchronous saves of one buffer. A synchronous save knows nothing of the
asynchronous status; what it may do to the conflict state beside it is told from the reply. -/
namespace EmacsRelay

open Routine Editor RelaySave RelayConflict

/-- A snapshot that has all but perhaps REMOTE. -/
structure ConflictState.Drawn (st : ConflictState) : Prop where
  unresolved : st.status = none
  base : (st.base.bind (·.bytes)).isSome = true
  localBytes : st.localBytes.isSome = true

theorem ConflictState.Drawn.complete {st : ConflictState} (drawn : st.Drawn)
    (remote : st.remote ≠ none) : st.Complete :=
  ⟨drawn.unresolved, drawn.base, drawn.localBytes, Option.isSome_iff_ne_none.mpr remote⟩

/-- The text, the cache and BASE can all be replaced. -/
def Env.Replaces (env : Env) : Prop :=
  env.fails .erase = false ∧ env.fails .insert = false ∧ env.fails .cachePut = false

namespace RelayConflict

/-- REMOTE a follow-up read brings. -/
def followed (reason : Reason) : ReadReply → Option Remote
  | .ok bytes revision => some ⟨bytes, revision, false⟩
  | .failed _ => if reason = .kind .deleted then some deletedRemote else none

/-- The read after a write leaves no complete conflict: it decides nothing, or it settles the
save by itself. -/
def Followup.Spoils (env : Env) (base : Option Base) (localBytes : Bytes) :
    Followup → ReadReply → Prop
  | .lost _, .failed _ => True
  | .lost _, .ok bytes revision =>
      (reconcileUncertain (base.bind (·.bytes)) (some localBytes) bytes revision).status = .retry ∨
      ((reconcileUncertain (base.bind (·.bytes)) (some localBytes) bytes revision).status = .saved ∧
        env.fails .cachePut = true)
  | .refused reason, reply =>
      match followed reason reply with
      | none => True
      | some r =>
          env.Replaces ∧
            ∃ revision, classify (base.bind (·.bytes)) (some localBytes) r.bytes
              (some r.revision) = .convergent revision

/-- Answered so, a synchronous save clears the conflict state or leaves an incomplete one. -/
def Wait.Spoils (env : Env) (m : Machine) : Wait → AnyReply → Prop
  | .write _ _ _, .inl (.ok _) => env.fails .cachePut = false
  | .write _ base localBytes, .inl (.transport error) =>
      requestTarget m = none ∧ Followup.Spoils env base localBytes (.lost error) (.failed none)
  | .write _ base localBytes, .inl (.refused code conflict error) =>
      match replyReason (.refused code conflict error) with
      | none => True
      | some reason =>
          requestTarget m = none ∧
            Followup.Spoils env base localBytes (.refused reason) (.failed none)
  | .read base localBytes followup, .inr reply => followup.Spoils env base localBytes reply
  | .resolve _ snapshot choice _, .inl (.ok _) => choice = .saveAs → snapshot.remote = none
  | .resolve _ snapshot _ _, .inl (.transport _) => snapshot.remote = none
  | .resolve _ snapshot _ _, .inl (.refused code conflict error) =>
      match replyReason (.refused code conflict error) with
      | none => snapshot.remote = none
      | some reason =>
          requestTarget m = none ∧ (freshConflict snapshot reason (.failed none)).remote = none
  | .refresh snapshot reason, .inr reply => (freshConflict snapshot reason reply).remote = none
  | _, _ => False

/-- The same for an answer to the menu. -/
def menuSpoils (env : Env) (snapshot : ConflictState) : Prop :=
  match readConflictChoice (some snapshot) env.key with
  | some .cancel => snapshot.remote = none
  | some .keepRemote => env.fails .localRecovery = false ∧ env.Replaces
  | _ => False

/-- Snapshots that wait to be resolved are drawn. -/
def Wait.Fit : Wait → Prop
  | .menu snapshot => snapshot.Drawn
  | .resolve _ snapshot _ _ => snapshot.Drawn
  | .refresh snapshot _ => snapshot.Drawn
  | _ => True

end RelayConflict

/-- What a synchronous save does beside the asynchronous machine. It touches the conflict state
only to put a complete conflict there, unless it `spoils` it. -/
structure Beside (spoils : Prop) (c d : Core) : Prop where
  active : d.active = c.active
  queued : d.queued = c.queued
  status : d.status = c.status
  rpcs : d.rpcs = c.rpcs
  based : (d.base.bind (·.bytes)).isSome = true
  whole : ∀ st, d.state = some st → Whole st.base
  merges : ∀ buffer ∈ d.merges, ∀ st, buffer.snapshot = some st → st.Mergeable
  state : spoils ∨ d.state = c.state ∨ ∃ st, d.state = some st ∧ st.Complete

variable {codec : Codec} {env : Env} {m t : Machine} {spoils : Prop} {c : Core}

theorem Coherent.beside {d : Core} (coherent : Coherent c) (effect : Beside spoils c d)
    (kept : c.Shows → ¬ spoils) : Coherent d where
  based := effect.based
  state := effect.whole
  merges := effect.merges
  queued := by
    rw [effect.queued]
    exact coherent.queued
  rpcs := by
    rw [effect.rpcs]
    exact coherent.rpcs
  saving := by
    rw [effect.active, effect.status]
    exact coherent.saving
  shown := by
    intro shows
    have shown : c.Shows := by
      unfold Core.Shows at shows ⊢
      rw [effect.active, effect.status] at shows
      exact shows
    rcases effect.state with spoilt | same | complete
    · exact absurd spoilt (kept shown)
    · rw [same]
      exact coherent.shown shown
    · exact complete

section Effects

theorem Coherent.still (coherent : Coherent c) : Beside spoils c c :=
  ⟨rfl, rfl, rfl, rfl, coherent.based, coherent.state, coherent.merges, .inr (.inl rfl)⟩

theorem Beside.congr (effect : Beside spoils c m.core) (core : t.core = m.core) :
    Beside spoils c t.core :=
  core ▸ effect

theorem Beside.cachePut (effect : Beside spoils c m.core) (identity : Option Identity)
    (bytes : Option Bytes) (revision : Token) :
    Beside spoils c (m.cachePut identity bytes revision).core :=
  { effect with }

theorem Beside.recordBase (effect : Beside spoils c m.core) (bytes : Bytes) (revision : Token)
    (coding : Coding) : Beside spoils c (m.recordBase (some bytes) revision coding).core :=
  { effect with based := rfl }

theorem Beside.clear (effect : Beside spoils c m.core) (spoilt : spoils) :
    Beside spoils c (m.setState none).core :=
  { effect with
    whole := fun _ none => nomatch none
    state := .inl spoilt }

/-- A state is stored; one that is not complete spoils. -/
theorem Beside.store (effect : Beside spoils c m.core) {st : ConflictState} (whole : Whole st.base)
    (complete : ¬ spoils → st.Complete) : Beside spoils c (m.setState (some st)).core :=
  { effect with
    whole := by
      rintro _ ⟨⟩
      exact whole
    state := by
      by_cases spoilt : spoils
      · exact .inl spoilt
      · exact .inr (.inr ⟨st, rfl, complete spoilt⟩) }

/-- A drawn snapshot is stored; without REMOTE it spoils. -/
theorem Beside.draw (effect : Beside spoils c m.core) {st : ConflictState} (drawn : st.Drawn)
    (remote : st.remote = none → spoils) : Beside spoils c (m.setState (some st)).core := by
  apply effect.store (whole_of_bytes drawn.base)
  intro kept
  exact drawn.complete fun none => kept (remote none)

end Effects

section Parts

theorem cache_beside (effect : Beside spoils c m.core) (bytes : Bytes) (revision : Token)
    {post : Unit → Machine → Prop} {failed : LispError → Machine → Prop}
    (next : ∀ t : Machine, env.fails .cachePut = false → Beside spoils c t.core → post () t)
    (stop : ∀ error, env.fails .cachePut = true → failed error m) :
    wp (RelayConflict.cache env bytes revision) post failed m := by
  simp only [RelayConflict.cache, wp_bind, wp_mayFail, wp_fetch, wp_update]
  exact ⟨fun fails => stop _ fails, fun fine => next _ fine (effect.cachePut _ _ _)⟩

theorem replaceLive_beside (effect : Beside spoils c m.core) (spoilt : env.Replaces → spoils)
    (bytes : Bytes) (revision : Token) :
    wp (replaceLive codec env bytes revision) (fun _ t => Beside spoils c t.core)
      (fun _ t => Beside spoils c t.core) m := by
  simp only [replaceLive, wp_bind, wp_eraseAndInsert, wp_update, wp_fetch]
  refine ⟨fun _ => effect, fun erased => ⟨fun _ => effect.congr rfl, fun inserted => ?_⟩⟩
  have installed : Beside spoils c ((m.erase .reload none (some bytes)).edit
      (.whole (codec.decode bytes))).core := effect.congr rfl
  have recorded := installed.recordBase bytes revision .utf8
  apply cache_beside recorded
  · intro t cached here
    exact here.clear (spoilt ⟨erased, inserted, cached⟩)
  · intro error _
    exact recorded

/-- How a synchronous save ends: an undecided end spoils, a conflict has been drawn. -/
structure Ended (spoils : Prop) (c : Core) (result : SyncResult) (t : Machine) : Prop where
  effect : Beside spoils c t.core
  conflict : result.status = .conflict → ∀ st, result.conflict = some st → st.Drawn
  undecided : result.status = .retry ∨ result.status = .uncertain → spoils

theorem snapshot_drawn (based : (m.base.bind (·.bytes)).isSome = true) (reason : Reason)
    (remote : Option Remote) (classification : Option Classification) :
    wp (RelayConflict.snapshot codec reason remote classification)
      (fun st t => t = m ∧ st.Drawn ∧ st.remote = remote) (fun _ _ => False) m :=
  ⟨rfl, ⟨rfl, based, rfl⟩, rfl⟩

theorem acknowledged_ended (effect : Beside spoils c m.core)
    (spoilt : env.fails .cachePut = false → spoils) (base : Option Base) (localBytes : Bytes)
    (revision : Token) :
    wp (acknowledged env base localBytes revision) (Ended spoils c)
      (fun _ t => Beside spoils c t.core) m := by
  simp only [acknowledged, wp_bind, wp_update, wp_fetch, wp_pure]
  have recorded := effect.recordBase localBytes revision ((base.map (·.coding)).getD .utf8)
  apply cache_beside recorded
  · intro t cached here
    exact ⟨here.clear (spoilt cached), by simp, by simp⟩
  · intro error _
    exact recorded

theorem reconcile_ended (effect : Beside spoils c m.core) (base : Option Base)
    (localBytes : Bytes) (remote : Remote)
    (spoilt : (reconcileUncertain (base.bind (·.bytes)) (some localBytes) remote.bytes
        remote.revision).status = .retry ∨
      ((reconcileUncertain (base.bind (·.bytes)) (some localBytes) remote.bytes
        remote.revision).status = .saved ∧ env.fails .cachePut = true) → spoils) :
    wp (reconcile codec env base localBytes remote) (Ended spoils c)
      (fun _ t => Beside spoils c t.core ∧ spoils) m := by
  dsimp only [reconcile]
  split
  · rename_i saved
    simp only [wp_bind, wp_update, wp_fetch, wp_pure]
    have recorded := effect.recordBase localBytes remote.revision
      ((base.map (·.coding)).getD .utf8)
    apply cache_beside recorded
    · intro t _ here
      exact ⟨here.congr rfl, by simp, by simp⟩
    · intro error fails
      exact ⟨recorded, spoilt (.inr ⟨saved, fails⟩)⟩
  · rw [wp_bind]
    apply wp_mono (snapshot_drawn effect.based _ _ _) ?_ fun _ _ => False.elim
    rintro st t ⟨rfl, drawn, known⟩
    simp only [wp_bind, wp_update, wp_pure]
    refine ⟨effect.draw drawn (by simp [known]), ?_, by simp⟩
    rintro _ other ⟨⟩
    exact drawn
  · rename_i retry
    exact ⟨effect, by simp, fun _ => spoilt (.inl retry)⟩

theorem settle_ended (effect : Beside spoils c m.core) (base : Option Base) (localBytes : Bytes)
    (reason : Reason) (remote : Option Remote) (absent : remote = none → spoils)
    (converges : ∀ r revision, remote = some r → env.Replaces →
      classify (base.bind (·.bytes)) (some localBytes) r.bytes (some r.revision) =
        .convergent revision → spoils) :
    wp (settle codec env base localBytes reason remote) (Ended spoils c)
      (fun _ t => Beside spoils c t.core) m := by
  simp only [settle, wp_bind]
  apply wp_mono (snapshot_drawn effect.based _ _ _) ?_ fun _ _ => False.elim
  rintro st t ⟨rfl, drawn, known⟩
  split
  · rename_i r revision convergent
    rw [wp_bind]
    apply wp_mono (replaceLive_beside effect ?_ r.bytes r.revision) ?_ fun _ _ kept => kept
    · intro replaces
      exact converges r revision rfl replaces (Option.some.inj convergent)
    · intro _ u kept
      exact ⟨kept, by simp, by simp⟩
  · simp only [wp_bind, wp_update, wp_pure]
    refine ⟨effect.draw drawn ?_, ?_, by simp⟩
    · intro none
      exact absent (known.symm.trans none)
    · rintro _ other ⟨⟩
      exact drawn

/-- A synchronous save goes on with what it next waits for. -/
structure Onward (spoils : Prop) (c : Core) (next : Option Wait) (t : Machine) : Prop where
  effect : Beside spoils c t.core
  fit : ∀ wait ∈ next, wait.Fit

/-- The end of a save: what is undecided is remembered, a conflict is offered. -/
theorem writeContentsDone_beside {result : SyncResult} (ended : Ended spoils c result m)
    (interactive : Bool) :
    wp (writeContentsDone codec interactive result) (Onward spoils c)
      (fun _ t => Beside spoils c t.core) m := by
  have remembered : ∀ status : StateStatus, spoils →
      Beside spoils c (m.setState (some
        { status := some status
          reason := result.reason.getD .serverError
          base := m.base
          localBytes := some (m.bytes codec)
          remote := result.remote
          revision := result.revision
          error := result.error
          owner := m.fileIdentity })).core := by
    intro status spoilt
    apply ended.effect.store (whole_of_bytes ended.effect.based)
    intro kept
    exact absurd spoilt kept
  cases status : result.status with
  | saved =>
      simp only [writeContentsDone, rememberIncompleteSave, status, wp_bind, wp_fetch, wp_pure]
      exact ⟨ended.effect, by simp⟩
  | conflict =>
      cases interactive with
      | false =>
          simp only [writeContentsDone, rememberIncompleteSave, status, wp_bind, wp_fetch, wp_pure]
          exact ended.effect
      | true =>
          simp only [writeContentsDone, rememberIncompleteSave, status, wp_bind, wp_fetch, wp_pure]
          refine ⟨ended.effect, ?_⟩
          intro wait offered
          obtain ⟨st, there, same⟩ := Option.map_eq_some_iff.mp offered
          rw [← same]
          exact ended.conflict status st there
  | retry =>
      simp only [writeContentsDone, rememberIncompleteSave, status, wp_bind, wp_fetch, wp_update,
        wp_pure, wp_signal]
      exact remembered .retry (ended.undecided (.inl status))
  | uncertain =>
      simp only [writeContentsDone, rememberIncompleteSave, status, wp_bind, wp_fetch, wp_update,
        wp_pure, wp_signal]
      exact remembered .uncertain (ended.undecided (.inr status))

end Parts

section Replies

theorem readReplied_beside (effect : Beside spoils c m.core) {base : Option Base}
    {localBytes : Bytes} {followup : Followup} {reply : ReadReply}
    (spoilt : followup.Spoils env base localBytes reply → spoils) (interactive : Bool) :
    wp (readReplied codec env interactive base localBytes followup reply) (Onward spoils c)
      (fun _ t => Beside spoils c t.core) m := by
  have finishes : ∀ result t, Ended spoils c result t →
      wp (writeContentsDone codec interactive result) (Onward spoils c)
        (fun _ t => Beside spoils c t.core) t :=
    fun result t ended => writeContentsDone_beside ended interactive
  cases followup with
  | lost error =>
      cases reply with
      | failed reason =>
          simp only [readReplied, wp_bind, wp_pure]
          exact finishes _ _ ⟨effect, by simp, fun _ => spoilt trivial⟩
      | ok bytes revision =>
          simp only [readReplied, wp_bind, wp_rescue, wp_pure]
          apply wp_mono (reconcile_ended effect base localBytes ⟨bytes, revision, false⟩ spoilt)
            finishes
          rintro reason t ⟨kept, undecided⟩
          exact finishes _ _ ⟨kept, by simp, fun _ => undecided⟩
  | refused reason =>
      have settles : ∀ remote, followed reason reply = remote →
          wp (settle codec env base localBytes reason remote) (Ended spoils c)
            (fun _ t => Beside spoils c t.core) m := by
        intro remote same
        apply settle_ended effect
        · rintro rfl
          apply spoilt
          simp [Followup.Spoils, same]
        · rintro r revision rfl replaces convergent
          apply spoilt
          simp only [Followup.Spoils, same]
          exact ⟨replaces, revision, convergent⟩
      simp only [readReplied, wp_bind]
      apply wp_mono (settles _ ?_) finishes fun _ _ kept => kept
      cases reply <;> rfl

theorem startRead_beside (effect : Beside spoils c m.core) {base : Option Base}
    {localBytes : Bytes} {followup : Followup}
    (spoilt : requestTarget m = none →
      followup.Spoils env base localBytes (.failed none) → spoils) (interactive : Bool) :
    wp (startRead codec env interactive base localBytes followup) (Onward spoils c)
      (fun _ t => Beside spoils c t.core) m := by
  simp only [startRead, wp_bind, wp_fetch, wp_ite, wp_pure]
  refine ⟨fun none => ?_, fun _ => ⟨effect, ?_⟩⟩
  · have nowhere : requestTarget m = Option.none := by simpa using none
    exact readReplied_beside effect (spoilt nowhere) interactive
  · rintro wait ⟨⟩
    trivial

theorem writeReplied_beside (effect : Beside spoils c m.core) {request : Request}
    {base : Option Base} {localBytes : Bytes} {reply : WriteReply}
    (spoilt : (Wait.write request base localBytes).Spoils env m (.inl reply) → spoils)
    (interactive : Bool) :
    wp (writeReplied codec env interactive base localBytes reply) (Onward spoils c)
      (fun _ t => Beside spoils c t.core) m := by
  cases reply with
  | ok revision =>
      simp only [writeReplied, wp_bind]
      apply wp_mono (acknowledged_ended effect spoilt base localBytes revision) ?_
        fun _ _ kept => kept
      intro result t ended
      exact writeContentsDone_beside ended interactive
  | transport error =>
      apply startRead_beside effect
      intro unvisited spoils
      exact spoilt ⟨unvisited, spoils⟩
  | refused code conflict error =>
      dsimp only [writeReplied]
      split
      · rename_i reason found
        apply startRead_beside effect
        intro unvisited spoils
        apply spoilt
        simp only [Wait.Spoils, found]
        exact ⟨unvisited, spoils⟩
      · rename_i absent
        have undecided : spoils := by
          apply spoilt
          simp [Wait.Spoils, absent]
        exact writeContentsDone_beside ⟨effect, by simp, fun _ => undecided⟩ interactive

theorem freshConflict_drawn {snapshot : ConflictState} (drawn : snapshot.Drawn) (reason : Reason)
    (reply : ReadReply) : (freshConflict snapshot reason reply).Drawn := by
  cases reply with
  | ok bytes revision => exact ⟨rfl, drawn.base, drawn.localBytes⟩
  | failed error =>
      simp only [freshConflict]
      split
      · exact ⟨rfl, drawn.base, drawn.localBytes⟩
      · exact drawn

theorem refreshReplied_beside (effect : Beside spoils c m.core) {snapshot : ConflictState}
    (drawn : snapshot.Drawn) {reason : Reason} {reply : ReadReply}
    (spoilt : (freshConflict snapshot reason reply).remote = none → spoils) :
    wp (refreshReplied snapshot reason reply) (Onward spoils c)
      (fun _ t => Beside spoils c t.core) m := by
  have fresh := freshConflict_drawn drawn reason reply
  simp only [refreshReplied, wp_bind, wp_update, wp_pure]
  refine ⟨effect.draw fresh spoilt, ?_⟩
  rintro wait ⟨⟩
  exact fresh

theorem resolveReplied_beside (effect : Beside spoils c m.core) {request : Request}
    {snapshot : ConflictState} (drawn : snapshot.Drawn) {choice : Choice} {bytes : Bytes}
    {reply : WriteReply}
    (spoilt : (Wait.resolve request snapshot choice bytes).Spoils env m (.inl reply) → spoils) :
    wp (resolveReplied codec env snapshot choice bytes reply) (Onward spoils c)
      (fun _ t => Beside spoils c t.core) m := by
  cases reply with
  | ok revision =>
      simp only [resolveReplied, wp_ite]
      refine ⟨fun saveAs => ?_, fun other => ?_⟩
      · exact effect.draw drawn fun none => spoilt fun _ => none
      · have cleared := (effect.recordBase bytes revision .utf8).clear
          (spoilt fun saveAs => absurd saveAs other)
        simp only [wp_bind, wp_update, wp_ite]
        refine ⟨fun _ => ?_, fun _ => ?_⟩
        · apply wp_mono (replaceLive_beside cleared (fun _ => spoilt fun saveAs =>
            absurd saveAs other) bytes revision) ?_ fun _ _ kept => kept
          intro _ t kept
          exact ⟨kept, by simp⟩
        · apply cache_beside cleared
          · intro t _ here
            simp only [wp_fetch, wp_whenever, wp_update, wp_pure]
            exact ⟨fun _ => ⟨here.congr rfl, by simp⟩, fun _ => ⟨here, by simp⟩⟩
          · intro error _
            exact cleared
  | transport error => exact effect.draw drawn spoilt
  | refused code conflict error =>
      dsimp only [resolveReplied]
      split
      · rename_i reason found
        simp only [wp_bind, wp_fetch, wp_ite, wp_pure]
        refine ⟨fun none => ?_, fun _ => ⟨effect, ?_⟩⟩
        · have nowhere : requestTarget m = Option.none := by simpa using none
          apply refreshReplied_beside effect drawn
          intro absent
          apply spoilt
          simp only [Wait.Spoils, found]
          exact ⟨nowhere, absent⟩
        · rintro wait ⟨⟩
          exact drawn
      · rename_i found
        apply effect.draw drawn
        intro absent
        apply spoilt
        simp only [Wait.Spoils, found]
        exact absent

end Replies

section Menu

theorem startEdiff_beside (effect : Beside spoils c m.core) (snapshot : ConflictState) :
    wp (startEdiff env (some snapshot)) (fun _ t => Beside spoils c t.core)
      (fun _ t => Beside spoils c t.core) m := by
  simp only [startEdiff, wp_bind, wp_mayFail]
  refine ⟨fun _ => effect, fun _ => ?_⟩
  split
  · rename_i l r b _ remote base
    refine { effect with merges := ?_ }
    intro buffer member st its
    rcases List.mem_append.mp member with old | fresh
    · exact effect.merges buffer old st its
    · have same : some snapshot = some st := by
        rw [List.mem_singleton.mp fresh] at its
        exact its
      cases same
      have known : snapshot.remote = some r := remote
      have bytes : snapshot.base.bind (·.bytes) = some b := base
      exact ⟨by rw [bytes]; rfl, by rw [known]; rfl⟩
  · exact effect

theorem resolveWrite_beside (effect : Beside spoils c m.core) {snapshot : ConflictState}
    (drawn : snapshot.Drawn) (choice : Choice) (saveAs : Option String) :
    wp (resolveWrite codec env snapshot choice saveAs) (Onward spoils c)
      (fun _ t => Beside spoils c t.core) m := by
  have onward : ∀ t : Machine, Beside spoils c t.core → ∀ request bytes,
      Onward spoils c (some (.resolve request snapshot choice bytes)) t := by
    intro t here request bytes
    refine ⟨here, ?_⟩
    rintro wait ⟨⟩
    exact drawn
  simp only [resolveWrite, wp_bind, wp_fetch]
  split
  · simp only [wp_bind, wp_pure]
    apply wp_mono (recoveryBuffer_core _ _) ?_ fun _ _ core => effect.congr core
    intro _ t core
    apply wp_mono (recoveryBuffer_core _ _) ?_ fun _ _ again => effect.congr (again.trans core)
    intro _ u again
    have here := effect.congr (again.trans core)
    split
    · exact onward u here _ _
    · exact here
  · simp only [wp_pure]
    split
    · exact onward m effect _ _
    · exact effect

theorem menuAnswered_beside (effect : Beside spoils c m.core) {snapshot : ConflictState}
    (drawn : snapshot.Drawn) (spoilt : menuSpoils env snapshot → spoils) :
    wp (menuAnswered codec env snapshot) (Onward spoils c) (fun _ t => Beside spoils c t.core)
      m := by
  unfold menuAnswered
  cases answer : readConflictChoice (some snapshot) env.key with
  | none =>
      refine ⟨effect, ?_⟩
      rintro wait ⟨⟩
      exact drawn
  | some choice =>
      have writes : ∀ choice saveAs, wp (resolveWrite codec env snapshot choice saveAs)
          (Onward spoils c) (fun _ t => Beside spoils c t.core) m :=
        resolveWrite_beside effect drawn
      dsimp only
      cases choice with
      | cancel =>
          apply effect.draw drawn
          intro absent
          apply spoilt
          simp only [menuSpoils, answer]
          exact absent
      | keepRemote =>
          obtain ⟨localBytes, kept⟩ := Option.isSome_iff_exists.mp drawn.localBytes
          simp only [resolve, kept, wp_bind, wp_recoveryBuffer, wp_pure]
          refine ⟨fun _ => effect, fun recovered => ?_⟩
          have here : Beside spoils c (m.addRecovery (codec.decode localBytes)).core :=
            effect.congr rfl
          apply wp_mono (replaceLive_beside here ?_ _ _) ?_ fun _ _ kept => kept
          · intro replaces
            apply spoilt
            simp only [menuSpoils, answer]
            exact ⟨recovered, replaces⟩
          · intro _ t kept
            exact ⟨kept, by simp⟩
      | merge =>
          simp only [resolve, unresolved, wp_bind, wp_signal]
          exact wp_mono (startEdiff_beside effect snapshot) (fun _ _ kept => kept)
            fun _ _ kept => kept
      | keepLocal => exact writes .keepLocal _
      | restoreBase => exact writes .restoreBase _
      | saveAs => exact writes .saveAs _

end Menu

theorem resume_beside (effect : Beside spoils c m.core) {wait : Wait} (fit : wait.Fit)
    {reply : AnyReply} (spoilt : wait.Spoils env m reply → spoils) (interactive : Bool) :
    wp (resume codec env interactive wait reply) (Onward spoils c)
      (fun _ t => Beside spoils c t.core) m := by
  have waits : wp (pure (some wait) : Lisp (Option Wait)) (Onward spoils c)
      (fun _ t => Beside spoils c t.core) m := by
    refine ⟨effect, ?_⟩
    rintro other ⟨⟩
    exact fit
  cases wait with
  | write request base localBytes =>
      cases reply with
      | inl reply => exact writeReplied_beside effect spoilt interactive
      | inr reply => exact waits
  | read base localBytes followup =>
      cases reply with
      | inl reply => exact waits
      | inr reply => exact readReplied_beside effect spoilt interactive
  | menu snapshot => cases reply <;> exact waits
  | resolve request snapshot choice bytes =>
      cases reply with
      | inl reply => exact resolveReplied_beside effect fit spoilt
      | inr reply => exact waits
  | refresh snapshot reason =>
      cases reply with
      | inl reply => exact waits
      | inr reply => exact refreshReplied_beside effect fit spoilt

/-- Status and state fit together, and so do the snapshots that synchronous saves hold. -/
structure Visit.Coherent (v : Visit) : Prop where
  machine : EmacsRelay.Coherent v.machine.core
  waits : ∀ wait ∈ v.waits, wait.Fit

/-- No event gives the conflict on display a state that cannot be resolved: an inspection makes a
conflict only of a state with BASE and LOCAL, and a synchronous save neither clears the state nor
leaves an incomplete one while a conflict is shown or a Save As of it is in flight. -/
def VisitEvent.Spares (v : Visit) : VisitEvent → Prop
  | .async event => ¬ event.Hollow v.machine
  | .syncSave => True
  | .syncReply index answer _ env => ∀ wait, v.waits[index]? = some wait →
      v.machine.core.Shows → ¬ wait.Spoils env v.machine answer
  | .syncKey index env => ∀ snapshot, v.waits[index]? = some (.menu snapshot) →
      v.machine.core.Shows → ¬ menuSpoils env snapshot

theorem Visit.run_coherent {v : Visit} (coherent : v.Coherent) {waits : List Wait}
    (rest : ∀ wait ∈ waits, wait ∈ v.waits) {body : Lisp (Option Wait)} {spoils : Prop}
    (kept : v.machine.core.Shows → ¬ spoils)
    (effect : wp body (Onward spoils v.machine.core)
      (fun _ t => Beside spoils v.machine.core t.core) v.machine) :
    (v.run waits body).Coherent := by
  unfold Visit.run
  cases result : body v.machine with
  | mk outcome t =>
      unfold wp at effect
      rw [result] at effect
      cases outcome with
      | error reason =>
          exact ⟨coherent.machine.beside effect kept,
            fun wait member => coherent.waits wait (rest wait member)⟩
      | ok next =>
          refine ⟨coherent.machine.beside effect.effect kept, ?_⟩
          intro wait member
          rcases List.mem_append.mp member with old | fresh
          · exact coherent.waits wait (rest wait old)
          · exact effect.fit wait (Option.mem_toList.mp fresh)

theorem Visit.step_coherent {v : Visit} (coherent : v.Coherent) {event : VisitEvent}
    (spares : event.Spares v) : (v.step codec event).Coherent := by
  cases event with
  | async event => exact ⟨EmacsRelay.step_coherent coherent.machine spares, coherent.waits⟩
  | syncSave =>
      have effect : wp (writeContents codec) (Onward False v.machine.core)
          (fun _ t => Beside False v.machine.core t.core) v.machine := by
        simp only [writeContents, wp_bind, wp_fetch]
        split
        · simp only [wp_bind, wp_visitedTarget, wp_pure]
          refine ⟨fun _ _ => ⟨coherent.machine.still, ?_⟩, fun _ => coherent.machine.still⟩
          rintro wait ⟨⟩
          trivial
        · exact ⟨coherent.machine.still, by simp⟩
      exact Visit.run_coherent coherent (fun _ member => member) (fun _ => id) effect
  | syncReply index reply interactive env =>
      simp only [Visit.step]
      split
      · exact coherent
      · rename_i wait found
        have fit := coherent.waits wait (List.mem_of_getElem? found)
        apply Visit.run_coherent coherent (fun _ member => List.mem_of_mem_eraseIdx member)
          (spares wait found)
        exact resume_beside coherent.machine.still fit id interactive
  | syncKey index env =>
      simp only [Visit.step]
      split
      · rename_i snapshot found
        have fit := coherent.waits _ (List.mem_of_getElem? found)
        apply Visit.run_coherent coherent (fun _ member => List.mem_of_mem_eraseIdx member)
          (spares snapshot found)
        exact menuAnswered_beside coherent.machine.still fit id
      · exact coherent

/-- In every interleaving of asynchronous and synchronous saves whose events spare the conflict
state, a displayed conflict has a still-unresolved snapshot with BASE, LOCAL and REMOTE. -/
theorem conflict_state_complete (codec : Codec) (identity : Identity) (bytes : Bytes)
    (revision : Token) {v : Visit}
    (reached : Reaches (Visit.step codec) (fun v event => event.Spares v)
      ⟨.opened codec identity bytes revision, []⟩ v)
    (conflict : v.machine.status = some .conflict) :
    ∃ st, v.machine.state = some st ∧ st.Complete := by
  have start : Visit.Coherent ⟨.opened codec identity bytes revision, []⟩ :=
    ⟨opened_coherent identity bytes revision, by simp⟩
  have coherent : v.Coherent :=
    reached.invariant start fun _ event inv spares => Visit.step_coherent inv spares
  exact coherent.machine.shown (.inl conflict)

/-- The conflict of `conflicted`, then a synchronous save that meets a third version. -/
def conflictedTwice : List VisitEvent :=
  conflicted.map .async ++
    [.syncSave, .syncReply 0 (.inl (.refused (some .conflict) (some .changed) none)) true {},
      .syncReply 0 (.inr (.ok [121] (sampleToken 3))) true {}]

theorem conflict_state_complete_twice :
    ∃ st, (conflictedTwice.foldl (Visit.step asciiCodec) ⟨visitedFile, []⟩).machine.state =
      some st ∧ st.Complete := by
  apply conflict_state_complete asciiCodec ⟨"/relay:h:/f", "h", "/f"⟩ [97] (sampleToken 1)
    (Reaches.of_along .refl ?_) rfl
  refine ⟨id, id, ?_, ?_, trivial, ?_, ?_, trivial⟩
  · rintro ⟨_, ⟨⟩, hollow⟩
    exact hollow
  · rintro ⟨_, ⟨⟩, hollow⟩
    exact hollow
  · rintro _ ⟨⟩ _ spoils
    exact nomatch spoils.1
  · rintro _ ⟨⟩ _ ⟨_, _, convergent⟩
    have same := (classify_convergent convergent).1
    revert same
    decide

/-- The conflict of `conflicted`, then a synchronous save that loses its connection. -/
def conflictedThenLost : List VisitEvent :=
  conflicted.map .async ++
    [.syncSave, .syncReply 0 (.inl (.transport none)) true {},
      .syncReply 0 (.inr (.failed none)) true {}]

theorem lost_sync_save_replaces_conflict :
    let v := conflictedThenLost.foldl (Visit.step asciiCodec) ⟨visitedFile, []⟩
    v.machine.status = some .conflict ∧
      v.machine.state.map (fun st => (st.status, st.remote)) = some (some .uncertain, none) ∧
      ¬ ∃ st, v.machine.state = some st ∧ st.Complete := by
  intro v
  refine ⟨rfl, rfl, ?_⟩
  rintro ⟨st, ⟨⟩, complete⟩
  exact nomatch complete.unresolved

end EmacsRelay

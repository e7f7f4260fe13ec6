import EmacsRelay.Client.Saved
import EmacsRelay.Client.Recovery

set_option autoImplicit false

/- Synchronous saves, `lisp/relay-conflict.el`, while timers and process filters edit the buffer:
what they do to the text at each wait. -/
namespace EmacsRelay.RelayConflict

open Editor Routine

/-- The text that timers and process filters leave, where they edit it: while BASE is read, while
the write is under way, and while the remote file is read after it. -/
structure Edits where
  baseRead : Option Buffer := none
  write : Option Buffer := none
  read : Option Buffer := none

/-- `relay-conflict--fetch`. -/
def fetchMeanwhile (edited : Option Buffer) (reply : ReadReply) : Lisp Remote := do
  let _ ← visitedTarget
  .update (·.hooked edited)
  match reply with
  | .ok bytes revision => pure ⟨bytes, revision, false⟩
  | .failed error => .signal (.signalled (error.getD "unable to read remote file"))

/-- `relay-conflict--write-snapshot`. -/
def writeMeanwhile (bytes : Bytes) (expected : Option Token) (edited : Option Buffer)
    (reply : Request → WriteReply) : Lisp WriteReply := do
  let target ← visitedTarget
  .update (·.hooked edited)
  pure (reply (.write target.authority target.path bytes expected))

/-- BASE, fetched where there is none. -/
def establishMeanwhile (edited : Option Buffer) (reply : ReadReply) : Lisp (Option Base) := do
  let base ← claimPending
  match base with
  | some base => pure (some base)
  | none =>
      .rescue
        (do
          let remote ← fetchMeanwhile edited reply
          .update (·.recordBase (some remote.bytes) remote.revision .utf8)
          pure (some ⟨some remote.bytes, remote.revision, .utf8⟩))
        fun _ => pure none

/-- The branch of `relay-conflict--save-internal` for a lost reply. -/
def lostMeanwhile (codec : Codec) (env : Env) (base : Option Base) (localBytes : Bytes)
    (error : Option String) (edited : Option Buffer) (read : ReadReply) : Lisp SyncResult :=
  .rescue
    (do
      let remote ← fetchMeanwhile edited read
      reconcile codec env base localBytes remote)
    fun _ => pure
      { status := .uncertain, reason := some .transport
        error := some ("Save outcome is uncertain; reconnect and inspect remote: " ++
          error.getD "transport failure") }

/-- The branch for a conflict. -/
def conflictingMeanwhile (codec : Codec) (env : Env) (base : Option Base) (localBytes : Bytes)
    (reason : Reason) (edited : Option Buffer) (read : ReadReply) : Lisp SyncResult := do
  let remote ← .rescue
    (do
      let remote ← fetchMeanwhile edited read
      pure (some remote))
    fun _ => pure (if reason = .kind .deleted then some deletedRemote else none)
  settle codec env base localBytes reason remote

/-- What `relay-conflict--save-internal` does with the reply to its write. -/
def handleMeanwhile (codec : Codec) (env : Env) (base : Option Base) (localBytes : Bytes)
    (reply : WriteReply) (edited : Option Buffer) (read : ReadReply) : Lisp SyncResult :=
  match reply with
  | .ok revision => acknowledged env base localBytes revision
  | .transport error => lostMeanwhile codec env base localBytes error edited read
  | .refused _ _ error =>
      match replyReason reply with
      | some reason => conflictingMeanwhile codec env base localBytes reason edited read
      | none =>
          pure
            { status := .uncertain, reason := some .serverError
              error := some (error.getD "Server could not verify the conditional save") }

/-- `relay-conflict--save-internal`. -/
def saveInternalMeanwhile (codec : Codec) (env : Env) (replies : Replies) (edits : Edits) :
    Lisp SyncResult := do
  let m ← .fetch
  let localBytes := m.bytes codec
  let base ← establishMeanwhile edits.baseRead replies.baseRead
  let reply ← writeMeanwhile localBytes (expectedRevision m.state base localBytes) edits.write
    replies.write
  handleMeanwhile codec env base localBytes reply edits.read replies.read

/-- `relay-conflict--save`. -/
def saveMeanwhile (codec : Codec) (env : Env) (replies : Replies) (edits : Edits) :
    Lisp SyncResult := do
  let result ← saveInternalMeanwhile codec env replies edits
  rememberIncompleteSave codec result

/-- Where nothing is edited, it is the save without waits. -/
theorem saveMeanwhile_unedited (codec : Codec) (env : Env) (replies : Replies) :
    saveMeanwhile codec env replies {} = save codec env replies := rfl

/-- BASE is read from the server: there is none, and no pending read of the visited file. -/
def asksForBase (m : Machine) : Bool :=
  m.base.isNone && !(m.pendingRead.any fun pending => m.fileName = some pending.filename) &&
    (requestTarget m).isSome

/-- The text when BASE is established, when the write is answered, and when the read after it is. -/
def Edits.atBase (edits : Edits) (m : Machine) : Buffer :=
  if asksForBase m then edits.baseRead.getD m.buffer else m.buffer

@[inherit_doc Edits.atBase] def Edits.atWrite (edits : Edits) (m : Machine) : Buffer :=
  edits.write.getD (edits.atBase m)

@[inherit_doc Edits.atBase] def Edits.atRead (edits : Edits) (m : Machine) : Buffer :=
  edits.read.getD (edits.atWrite m)

/-- A save that began at `m` and left `t` shows the edits made meanwhile: the text has the saved
bytes or is marked modified, and what the save erased is there again, or held nothing new. -/
structure ShowsEdits (codec : Codec) (m t : Machine) : Prop where
  marked : codec.encode t.buffer.full = m.bytes codec ∨ t.modified = true
  kept : ∀ e ∈ t.history.erasures.drop m.history.erasures.length,
    e.erased.full = t.buffer.full ∨ e.erased.full.Sublist m.buffer.full

/-- When the reply or the read after it settles a save, the whole text has the bytes captured at
its start; where a conflict settles it, they survive being decoded, and nothing else was put in. -/
def Intact (codec : Codec) (m : Machine) (atWrite atRead : Buffer) : WriteReply → Prop
  | .ok _ => codec.encode atWrite.full = m.bytes codec
  | .transport _ => codec.encode atRead.full = m.bytes codec
  | .refused _ _ _ =>
      codec.RoundTrips (m.bytes codec) ∧
        (atRead.full = codec.decode (m.bytes codec) ∨ atRead.full.Sublist m.buffer.full)

/-- The edits leave the text intact until the save is settled. -/
def Unedited (codec : Codec) (replies : Replies) (edits : Edits) (m : Machine) : Prop :=
  ∀ target, requestTarget m = some target →
    Intact codec m (edits.atWrite m) (edits.atRead m) (writeReply codec replies target m)

section Waits

variable {codec : Codec} {env : Env} {replies : Replies} {edits : Edits} {id : Identity}
  {m s t : Machine} {base : Option Base}

@[simp] theorem hooked_fileName (m : Machine) (edited : Option Buffer) :
    (m.hooked edited).fileName = m.fileName := by
  cases edited <;> rfl

@[simp] theorem hooked_fileIdentity (m : Machine) (edited : Option Buffer) :
    (m.hooked edited).fileIdentity = m.fileIdentity := by
  cases edited <;> rfl

@[simp] theorem hooked_requestTarget (m : Machine) (edited : Option Buffer) :
    requestTarget (m.hooked edited) = requestTarget m := by
  rw [requestTarget, hooked_fileIdentity, requestTarget]

@[simp] theorem hooked_erasures (m : Machine) (edited : Option Buffer) :
    (m.hooked edited).history.erasures = m.history.erasures := by
  cases edited <;> rfl

@[simp] theorem hooked_buffer (m : Machine) (edited : Option Buffer) :
    (m.hooked edited).buffer = edited.getD m.buffer := by
  cases edited <;> rfl

theorem wp_fetchMeanwhile (directed : requestTarget m = some id) (edited : Option Buffer)
    (reply : ReadReply) (post : Remote → Machine → Prop)
    (failed : LispError → Machine → Prop) :
    wp (fetchMeanwhile edited reply) post failed m ↔
      (∀ bytes revision, reply = .ok bytes revision →
        post ⟨bytes, revision, false⟩ (m.hooked edited)) ∧
      ∀ error, reply = .failed error →
        failed (.signalled (error.getD "unable to read remote file")) (m.hooked edited) := by
  simp only [fetchMeanwhile, wp_bind, wp_visitedTarget, directed, wp_update]
  cases reply <;> simp

/-- The save has come as far as `s`: the text is as edited, and nothing has been erased. -/
structure Reads (text : Buffer) (m s : Machine) : Prop where
  text : s.buffer = text
  fileIdentity : s.fileIdentity = m.fileIdentity
  erasures : s.history.erasures = m.history.erasures

theorem Reads.requestTarget {text : Buffer} (reads : Reads text m s) :
    RelayConflict.requestTarget s = RelayConflict.requestTarget m := by
  rw [RelayConflict.requestTarget, reads.fileIdentity, RelayConflict.requestTarget]

theorem claimPending_runs (m : Machine) :
    ∃ base s, claimPending m = (.ok base, s) ∧ Reads m.buffer m s ∧
      asksForBase m = (base.isNone && (requestTarget m).isSome) := by
  have total : wp claimPending (fun base s => Reads m.buffer m s ∧
      asksForBase m = (base.isNone && (requestTarget m).isSome)) (fun _ _ => False) m := by
    simp only [claimPending, wp_bind, wp_fetch]
    cases based : m.base with
    | some base => exact ⟨⟨rfl, rfl, rfl⟩, by simp [asksForBase, based]⟩
    | none =>
        cases waiting : m.pendingRead with
        | none => exact ⟨⟨rfl, rfl, rfl⟩, by simp [asksForBase, based, waiting]⟩
        | some pending =>
            simp only [wp_ite, wp_bind, wp_update, wp_pure]
            constructor
            · intro mine
              exact ⟨⟨rfl, rfl, rfl⟩, by simp [asksForBase, waiting, mine]⟩
            · intro other
              exact ⟨⟨rfl, rfl, rfl⟩, by simp [asksForBase, based, waiting, other]⟩
  obtain ⟨base, s, runs, reads, asks⟩ := runs_of_total total
  exact ⟨base, s, runs, reads, asks⟩

/-- The edits change nothing of what BASE becomes. -/
theorem establishMeanwhile_runs (replies : Replies) (edits : Edits) (m : Machine) :
    ∃ s, establishMeanwhile edits.baseRead replies.baseRead m =
      (.ok (workingBase replies m), s) ∧ Reads (edits.atBase m) m s := by
  obtain ⟨base, s, claims, reads, asks⟩ := claimPending_runs m
  have both : ∃ base' t t',
      establishMeanwhile edits.baseRead replies.baseRead m = (.ok base', t) ∧
      establishBase replies.baseRead m = (.ok base', t') ∧ Reads (edits.atBase m) m t := by
    unfold establishMeanwhile establishBase
    rw [bind_of_runs claims, bind_of_runs claims]
    cases base with
    | some base =>
        refine ⟨some base, s, s, rfl, rfl, ?_⟩
        rw [Edits.atBase, asks]
        exact reads
    | none =>
        cases directed : requestTarget s with
        | none =>
            have nowhere : requestTarget m = none := reads.requestTarget.symm.trans directed
            refine ⟨none, s, s, ?_, ?_, ?_⟩
            · simp [rescue, fetchMeanwhile, visitedTarget, bind, pure, Routine.fetch, signal,
                directed]
            · simp [rescue, RelayConflict.fetch, visitedTarget, bind, pure, Routine.fetch,
                signal, directed]
            · rw [Edits.atBase, asks, nowhere]
              exact reads
        | some target =>
            have somewhere : requestTarget m = some target := reads.requestTarget.symm.trans directed
            have hooked : Reads (edits.atBase m) m (s.hooked edits.baseRead) := by
              rw [Edits.atBase, asks, somewhere]
              exact ⟨by simp [reads.text], by simp [reads.fileIdentity], by simp [reads.erasures]⟩
            cases reply : replies.baseRead with
            | ok bytes revision =>
                refine ⟨some ⟨some bytes, revision, .utf8⟩,
                  (s.hooked edits.baseRead).recordBase (some bytes) revision .utf8,
                  s.recordBase (some bytes) revision .utf8, ?_, ?_,
                  ⟨hooked.text, hooked.fileIdentity, hooked.erasures⟩⟩
                · simp [rescue, fetchMeanwhile, visitedTarget, bind, pure, Routine.fetch, update,
                    directed]
                · simp [rescue, RelayConflict.fetch, visitedTarget, bind, pure, Routine.fetch,
                    update, directed]
            | failed error =>
                refine ⟨none, s.hooked edits.baseRead, s, ?_, ?_, hooked⟩
                · simp [rescue, fetchMeanwhile, visitedTarget, bind, pure, Routine.fetch, update,
                    signal, directed]
                · simp [rescue, RelayConflict.fetch, visitedTarget, bind, pure, Routine.fetch,
                    signal, directed]
  obtain ⟨base', t, t', meanwhile, alone, text⟩ := both
  refine ⟨t, ?_, text⟩
  rw [meanwhile, workingBase, alone]

theorem Reads.hooked {text : Buffer} (reads : Reads text m s) (edited : Option Buffer) :
    Reads (edited.getD text) m (s.hooked edited) :=
  ⟨by simp [reads.text], by simp [reads.fileIdentity], by simp [reads.erasures]⟩

/-- The text was left alone and marked unmodified. -/
theorem shows_untouched {text : Buffer} (reads : Reads text m t) (clean : t.modified = false) :
    ShowsEdits codec m t ↔ codec.encode text.full = m.bytes codec := by
  constructor
  · intro shows
    rcases shows.marked with same | modified
    · rw [← reads.text]
      exact same
    · rw [clean] at modified
      cases modified
  · intro same
    constructor
    · left
      rw [reads.text]
      exact same
    · intro e member
      rw [reads.erasures, List.drop_length] at member
      cases member

/-- The text was replaced by the captured bytes and marked unmodified. -/
theorem shows_replaced {text : Buffer} {e : Erasure} (erased : e.erased = text)
    (installed : t.buffer = .whole (codec.decode (m.bytes codec))) (clean : t.modified = false)
    (erasures : t.history.erasures = m.history.erasures ++ [e]) :
    ShowsEdits codec m t ↔ codec.RoundTrips (m.bytes codec) ∧
      (text.full = codec.decode (m.bytes codec) ∨ text.full.Sublist m.buffer.full) := by
  have full : t.buffer.full = codec.decode (m.bytes codec) := by rw [installed, Buffer.full_whole]
  constructor
  · intro shows
    constructor
    · rcases shows.marked with same | modified
      · rw [full] at same
        exact same
      · rw [clean] at modified
        cases modified
    · have kept := shows.kept e (by rw [erasures, List.drop_left]; exact List.mem_singleton_self e)
      rw [erased, full] at kept
      exact kept
  · intro parts
    obtain ⟨trips, kept⟩ := parts
    constructor
    · left
      rw [full]
      exact trips
    · intro other member
      rw [erasures, List.drop_left] at member
      rw [List.mem_singleton.mp member, erased, full]
      exact kept

theorem acknowledged_shows {text : Buffer} (reads : Reads text m s) (revision : Token) :
    wp (acknowledged env base (m.bytes codec) revision)
      (fun _ t => ShowsEdits codec m t ↔ codec.encode text.full = m.bytes codec)
      (fun _ _ => True) s := by
  simp only [acknowledged, cache, wp_bind, wp_update, wp_mayFail, wp_fetch, wp_pure, implies_true,
    true_and]
  intro _
  exact shows_untouched ⟨reads.text, reads.fileIdentity, reads.erasures⟩ rfl

theorem lostMeanwhile_shows {text : Buffer} (reads : Reads text m s)
    (directed : requestTarget m = some id) (error : Option String) (edited : Option Buffer)
    (read : ReadReply) :
    wp (lostMeanwhile codec env base (m.bytes codec) error edited read)
      (fun result t => result.status = .saved →
        (ShowsEdits codec m t ↔ codec.encode (edited.getD text).full = m.bytes codec))
      (fun _ _ => True) s := by
  have here : requestTarget s = some id := reads.requestTarget.trans directed
  simp only [lostMeanwhile, wp_rescue, wp_bind, wp_fetchMeanwhile here, wp_pure]
  refine ⟨?_, fun _ _ saved => by cases saved⟩
  intro bytes revision _
  have after := reads.hooked edited
  simp only [reconcile]
  split
  · simp only [cache, wp_bind, wp_update, wp_mayFail, wp_fetch, wp_pure]
    constructor
    · intro _ saved
      cases saved
    intro _ _
    exact shows_untouched ⟨after.text, after.fileIdentity, after.erasures⟩ rfl
  · simp [snapshot]
  · simp

theorem settle_shows {text : Buffer} (reads : Reads text m s) (reason : Reason)
    (remote : Option Remote) :
    wp (settle codec env base (m.bytes codec) reason remote)
      (fun result t => result.status = .saved →
        (ShowsEdits codec m t ↔ codec.RoundTrips (m.bytes codec) ∧
          (text.full = codec.decode (m.bytes codec) ∨ text.full.Sublist m.buffer.full)))
      (fun _ _ => True) s := by
  simp only [settle, snapshot, wp_bind, wp_fetch, wp_pure]
  cases remote with
  | none => simp
  | some r =>
      simp only [Option.map_some]
      split
      · rename_i r' revision' same convergent
        have adopted : r' = r := (Option.some.inj same).symm
        have equal := (classify_convergent (Option.some.inj convergent)).1
        have bytes : r'.bytes = m.bytes codec := by
          rw [adopted]
          exact (Option.some.inj equal).symm
        simp only [bytes, replaceLive, cache, wp_bind, wp_eraseAndInsert, wp_mayFail, wp_update,
          wp_fetch, wp_pure, implies_true, true_and]
        intro _ _ _ _
        refine shows_replaced (e := ⟨.reload, s.buffer, some (m.bytes codec), none⟩)
          reads.text rfl rfl ?_
        simp [reads.erasures]
      · simp

theorem conflictingMeanwhile_shows {text : Buffer} (reads : Reads text m s)
    (directed : requestTarget m = some id) (reason : Reason) (edited : Option Buffer)
    (read : ReadReply) :
    wp (conflictingMeanwhile codec env base (m.bytes codec) reason edited read)
      (fun result t => result.status = .saved →
        (ShowsEdits codec m t ↔ codec.RoundTrips (m.bytes codec) ∧
          ((edited.getD text).full = codec.decode (m.bytes codec) ∨
            (edited.getD text).full.Sublist m.buffer.full)))
      (fun _ _ => True) s := by
  have here : requestTarget s = some id := reads.requestTarget.trans directed
  simp only [conflictingMeanwhile, wp_bind, wp_rescue, wp_fetchMeanwhile here, wp_pure]
  exact ⟨fun _ _ _ => settle_shows (reads.hooked edited) reason _,
    fun _ _ => settle_shows (reads.hooked edited) reason _⟩

theorem handleMeanwhile_shows {text : Buffer} (reads : Reads text m s)
    (directed : requestTarget m = some id) (reply : WriteReply) (edited : Option Buffer)
    (read : ReadReply) :
    wp (handleMeanwhile codec env base (m.bytes codec) reply edited read)
      (fun result t => result.status = .saved →
        (ShowsEdits codec m t ↔ Intact codec m text (edited.getD text) reply))
      (fun _ _ => True) s := by
  cases reply with
  | ok revision =>
      exact wp_mono (acknowledged_shows reads revision) (fun _ _ shows _ => shows)
        fun _ _ failed => failed
  | transport error => exact lostMeanwhile_shows reads directed error edited read
  | refused code conflict error =>
      simp only [handleMeanwhile]
      split
      · exact conflictingMeanwhile_shows reads directed _ edited read
      · simp

theorem remember_saved {result : SyncResult} (post : SyncResult → Machine → Prop)
    (saved : result.status = .saved) :
    wp (rememberIncompleteSave codec result) post (fun _ _ => True) m ↔ post result m := by
  simp [rememberIncompleteSave, saved]

theorem remember_unsaved {result : SyncResult} (unsaved : result.status ≠ .saved) :
    wp (rememberIncompleteSave codec result) (fun result _ => result.status ≠ .saved)
      (fun _ _ => True) m := by
  simp only [rememberIncompleteSave, wp_bind, wp_fetch]
  split <;> simp_all

end Waits

/-- A save that returns `saved` shows the edits made while it waited exactly when the text it
captured is, as bytes, still the whole text once it is settled; where a conflict settles it, those
bytes have to survive being decoded too, and deletions are no loss. -/
theorem save_shows_edits_iff {codec : Codec} {env : Env} {replies : Replies} {edits : Edits}
    {m t : Machine} {result : SyncResult}
    (returned : saveMeanwhile codec env replies edits m = (.ok result, t))
    (saved : result.status = .saved) :
    ShowsEdits codec m t ↔ Unedited codec replies edits m := by
  have holds : wp (saveMeanwhile codec env replies edits)
      (fun result t => result.status = .saved →
        (ShowsEdits codec m t ↔ Unedited codec replies edits m)) (fun _ _ => True) m := by
    obtain ⟨s, establishes, reads⟩ := establishMeanwhile_runs replies edits m
    simp only [saveMeanwhile, saveInternalMeanwhile, wp_bind, wp_fetch]
    apply wp_of_runs establishes
    cases directed : requestTarget m with
    | none =>
        have here : requestTarget s = none := reads.requestTarget.trans directed
        simp [writeMeanwhile, here]
    | some target =>
        have here : requestTarget s = some target := reads.requestTarget.trans directed
        have unedited : Unedited codec replies edits m ↔
            Intact codec m (edits.atWrite m) (edits.atRead m)
              (writeReply codec replies target m) := by
          simp [Unedited, directed]
        simp only [writeMeanwhile, wp_bind, wp_visitedTarget, here, Option.some.injEq, forall_eq',
          reduceCtorEq, false_implies, and_true, wp_update, wp_pure]
        have after := reads.hooked edits.write
        refine wp_mono (handleMeanwhile_shows after directed (writeReply codec replies target m)
          edits.read replies.read) ?_ fun _ _ failed => failed
        intro result t shows
        by_cases done : result.status = .saved
        · rw [remember_saved _ done, unedited]
          exact shows
        · exact wp_mono (remember_unsaved done) (fun _ _ unsaved saved => absurd saved unsaved)
            fun _ _ failed => failed
  exact post_of_wp holds returned saved

/-- A `b` was typed after the file was visited. -/
def typedFile : Machine := visitedFile.edit (.whole ['a', 'b'])

def acknowledging : Replies where
  baseRead := .failed none
  write _ := .ok (sampleToken 2)
  read := .failed none

/-- Another write of the same bytes came first. -/
def forestalled : Replies where
  baseRead := .failed none
  write _ := .refused none (some .changed) none
  read := .ok [97, 98] (sampleToken 3)

/-- The `b` is deleted again while the remote file is read. -/
def deleting : Edits := { read := some (.whole ['a']) }

theorem save_shows_edits_iff_deleted :
    ∃ t, saveMeanwhile asciiCodec {} forestalled deleting typedFile =
        (.ok { status := .saved, revision := some (sampleToken 3) }, t) ∧
      ShowsEdits asciiCodec typedFile t := by
  have returned : saveMeanwhile asciiCodec {} forestalled deleting typedFile =
      (.ok { status := .saved, revision := some (sampleToken 3) },
        (saveMeanwhile asciiCodec {} forestalled deleting typedFile).2) := rfl
  refine ⟨_, returned, (save_shows_edits_iff returned rfl).mpr ?_⟩
  intro id _
  constructor
  · rfl
  · right
    decide

/-- A `c` is typed while the write is under way. -/
def typing : Edits := { write := some (.whole ['a', 'b', 'c']) }

/-- The buffer is marked unmodified, and the file has no `c`. -/
theorem acknowledged_save_hides_edit :
    ¬ ∀ edits result t,
        saveMeanwhile asciiCodec {} acknowledging edits typedFile = (.ok result, t) →
      result.status = .saved → ShowsEdits asciiCodec typedFile t := by
  intro all
  have shows := all typing _ _ rfl rfl
  rcases shows.marked with same | modified
  · revert same
    decide
  · cases modified

end EmacsRelay.RelayConflict

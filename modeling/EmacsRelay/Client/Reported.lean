import EmacsRelay.Client.Synchronous
import EmacsRelay.Lib.Reach
import EmacsRelay.Server.Creation

set_option autoImplicit false

/- In a buffer that keeps to one path, BASE, the pending read and every conflict hold what the
server told about that path. -/
namespace EmacsRelay.Synchronous

open Routine
open RelayConflict (SyncStatus Replies classify reconcileUncertain replyReason deletedRemote)
open RelaySave (adoptedRemote)

def Traffic.isWrite : Traffic → Bool
  | .sent request => request.isWrite
  | .told _ => false

/-- The server reported `bytes` at `token` for the visited path. -/
def Here (s : SyncBuffer) (bytes : Bytes) (token : Token) : Prop :=
  ∃ id, s.fileIdentity = some id ∧ Traffic.told ⟨id.authority, id.path, bytes, token⟩ ∈ s.traffic

/-- A token a write of this path may be sent with. -/
def Known (traffic : List Traffic) (authority path : String) (token : Token) : Prop :=
  token = .missing ∨ ∃ bytes, Traffic.told ⟨authority, path, bytes, token⟩ ∈ traffic

def KnownHere (s : SyncBuffer) (token : Token) : Prop :=
  ∀ id, s.fileIdentity = some id → Known s.traffic id.authority id.path token

/-- REMOTE was read, or stands for a deletion that was reported. -/
def Observed (s : SyncBuffer) (r : Remote) : Prop :=
  Here s r.bytes r.revision ∧ (r.deleted = true → r = deletedRemote)

def Dispute.Sound (s : SyncBuffer) (st : Dispute) : Prop :=
  ∀ r, st.remote = some r → Observed s r

structure Sourced (s : SyncBuffer) : Prop where
  direct : ∀ id, s.fileIdentity = some id → RelayConflict.Direct id
  base : ∀ b token, s.base = some b → b.revision = some token → KnownHere s token
  state : ∀ st, s.state = some st → st.Sound s
  offered : ∀ st ∈ s.offered, st.Sound s
  pending : ∀ filename bytes token, s.pendingRead = some (filename, bytes, some token) →
    ∀ id, RelayConflict.fileIdentity (some filename) = some id →
      Known s.traffic id.authority id.path token

/-- The file name is kept, and something more has been sent or told. -/
structure Grows (s t : SyncBuffer) : Prop where
  fileName : t.fileName = s.fileName
  traffic : ∃ new, t.traffic = s.traffic ++ new

/-- What is sourced has grown, without a write where it is `quiet`. -/
structure Onward (quiet : Bool) (s t : SyncBuffer) : Prop where
  sourced : Sourced t
  fileName : t.fileName = s.fileName
  traffic : ∃ new, t.traffic = s.traffic ++ new ∧ (quiet = true → ∀ e ∈ new, e.isWrite = false)

section Relations

variable {s t u : SyncBuffer} {bytes : Bytes} {token : Token} {st : Dispute}

theorem Grows.refl (s : SyncBuffer) : Grows s s := ⟨rfl, [], (List.append_nil _).symm⟩

theorem Grows.fileIdentity (grows : Grows s t) : t.fileIdentity = s.fileIdentity := by
  unfold SyncBuffer.fileIdentity
  rw [grows.fileName]

theorem Grows.member (grows : Grows s t) {e : Traffic} (member : e ∈ s.traffic) :
    e ∈ t.traffic := by
  obtain ⟨new, grown⟩ := grows.traffic
  rw [grown]
  exact List.mem_append_left _ member

theorem Here.grow (here : Here s bytes token) (grows : Grows s t) : Here t bytes token := by
  obtain ⟨id, visiting, member⟩ := here
  exact ⟨id, grows.fileIdentity.trans visiting, grows.member member⟩

theorem Known.grow {authority path : String} (known : Known s.traffic authority path token)
    (grows : Grows s t) : Known t.traffic authority path token := by
  rcases known with missing | ⟨bytes, member⟩
  · exact .inl missing
  · exact .inr ⟨bytes, grows.member member⟩

theorem KnownHere.grow (known : KnownHere s token) (grows : Grows s t) : KnownHere t token := by
  intro id visiting
  rw [grows.fileIdentity] at visiting
  exact (known id visiting).grow grows

theorem Here.known (here : Here s bytes token) : KnownHere s token := by
  intro id visiting
  obtain ⟨id', visiting', member⟩ := here
  have same : id' = id := Option.some.inj (visiting'.symm.trans visiting)
  exact .inr ⟨bytes, same ▸ member⟩

theorem Observed.grow {r : Remote} (observed : Observed s r) (grows : Grows s t) : Observed t r :=
  ⟨observed.1.grow grows, observed.2⟩

theorem Dispute.Sound.grow (sound : st.Sound s) (grows : Grows s t) : st.Sound t :=
  fun r remote => (sound r remote).grow grows

theorem sound_of_observed {remote : Option Remote} (there : st.remote = remote)
    (observed : ∀ r, remote = some r → Observed s r) : st.Sound s := by
  intro r remote
  exact observed r (there.symm.trans remote)

/-- The step keeps the traffic, and BASE, state, conflicts and pending read are old or sourced. -/
theorem Sourced.step (sourced : Sourced s) (grows : Grows s t)
    (base : t.base = s.base ∨
      ∀ b token, t.base = some b → b.revision = some token → KnownHere t token)
    (state : t.state = s.state ∨ ∀ st, t.state = some st → st.Sound t)
    (offered : ∀ st ∈ t.offered, st ∈ s.offered ∨ st.Sound t)
    (pending : t.pendingRead = s.pendingRead ∨ t.pendingRead = none) : Sourced t where
  direct := by
    intro id visiting
    rw [grows.fileIdentity] at visiting
    exact sourced.direct id visiting
  base := by
    intro b token there revision
    rcases base with same | known
    · exact (sourced.base b token (same ▸ there) revision).grow grows
    · exact known b token there revision
  state := by
    intro st there
    rcases state with same | sound
    · exact (sourced.state st (same ▸ there)).grow grows
    · exact sound st there
  offered := by
    intro st member
    rcases offered st member with old | sound
    · exact (sourced.offered st old).grow grows
    · exact sound
  pending := by
    intro filename bytes token there id named
    rcases pending with same | none
    · exact (sourced.pending filename bytes token (same ▸ there) id named).grow grows
    · rw [none] at there
      cases there

/-- The text and the recovery buffers have no part in it. -/
theorem Sourced.frame (sourced : Sourced s) (fileName : t.fileName = s.fileName)
    (traffic : t.traffic = s.traffic) (base : t.base = s.base) (state : t.state = s.state)
    (offered : t.offered = s.offered) (pending : t.pendingRead = s.pendingRead) : Sourced t := by
  refine sourced.step ⟨fileName, [], ?_⟩ (.inl base) (.inl state) ?_ (.inl pending)
  · rw [traffic, List.append_nil]
  · intro st member
    rw [offered] at member
    exact .inl member

end Relations

section Onward

variable {quiet : Bool} {s t u : SyncBuffer}

theorem Onward.refl (quiet : Bool) (sourced : Sourced s) : Onward quiet s s :=
  ⟨sourced, rfl, [], (List.append_nil _).symm, fun _ _ member => by cases member⟩

theorem Onward.grows (onward : Onward quiet s t) : Grows s t := by
  obtain ⟨new, grown, _⟩ := onward.traffic
  exact ⟨onward.fileName, new, grown⟩

theorem Onward.fileIdentity (onward : Onward quiet s t) : t.fileIdentity = s.fileIdentity :=
  onward.grows.fileIdentity

theorem Onward.target (onward : Onward quiet s t) (path : Option String) :
    t.target path = s.target path := by
  rw [SyncBuffer.target, onward.fileIdentity, SyncBuffer.target]

/-- Something that is neither sent nor told happens. -/
theorem Onward.same (onward : Onward quiet s t) (sourced : Sourced u)
    (fileName : u.fileName = t.fileName) (traffic : u.traffic = t.traffic) : Onward quiet s u := by
  refine ⟨sourced, fileName.trans onward.fileName, ?_⟩
  rw [traffic]
  exact onward.traffic

theorem Onward.trans (first : Onward quiet s t) (second : Onward quiet t u) :
    Onward quiet s u := by
  obtain ⟨new, grown, silent⟩ := first.traffic
  obtain ⟨more, further, silenter⟩ := second.traffic
  refine ⟨second.sourced, second.fileName.trans first.fileName, new ++ more, ?_, ?_⟩
  · rw [further, grown, List.append_assoc]
  · intro quietly e member
    rcases List.mem_append.mp member with old | fresh
    · exact silent quietly e old
    · exact silenter quietly e fresh

theorem Onward.log (onward : Onward quiet s t) (more : List Traffic)
    (reads : quiet = true → ∀ e ∈ more, e.isWrite = false) : Onward quiet s (t.log more) := by
  have sourced : Sourced (t.log more) :=
    onward.sourced.step ⟨rfl, more, rfl⟩ (.inl rfl) (.inl rfl) (fun _ member => .inl member)
      (.inl rfl)
  obtain ⟨new, grown, silent⟩ := onward.traffic
  refine ⟨sourced, onward.fileName, new ++ more, ?_, ?_⟩
  · rw [SyncBuffer.log_traffic, grown, List.append_assoc]
  · intro quietly e member
    rcases List.mem_append.mp member with old | fresh
    · exact silent quietly e old
    · exact reads quietly e fresh

theorem Onward.recordBase (onward : Onward quiet s t) (bytes : Bytes) {revision : Option Token}
    (coding : Coding) (known : ∀ token, revision = some token → KnownHere t token) :
    Onward quiet s (t.recordBase bytes revision coding) := by
  refine onward.same ?_ rfl rfl
  refine onward.sourced.step ⟨rfl, [], (List.append_nil _).symm⟩ (.inr ?_) (.inl rfl)
    (fun _ member => .inl member) (.inl rfl)
  intro b token there revision
  cases there
  exact known token revision

theorem Onward.setState (onward : Onward quiet s t) {state : Option Dispute}
    (sound : ∀ st, state = some st → st.Sound t) : Onward quiet s (t.setState state) := by
  refine onward.same ?_ rfl rfl
  exact onward.sourced.step ⟨rfl, [], (List.append_nil _).symm⟩ (.inl rfl) (.inr sound)
    (fun _ member => .inl member) (.inl rfl)

theorem Onward.offer (onward : Onward quiet s t) {st : Dispute} (sound : st.Sound t) :
    Onward quiet s (t.offer st) := by
  refine onward.same ?_ rfl rfl
  refine onward.sourced.step ⟨rfl, [], (List.append_nil _).symm⟩ (.inl rfl) (.inr ?_) ?_ (.inl rfl)
  · intro other there
    cases there
    exact sound
  · intro other member
    rcases List.mem_append.mp member with old | fresh
    · exact .inl old
    · rw [List.mem_singleton.mp fresh]
      exact .inr sound

theorem Onward.claim (onward : Onward quiet s t) : Onward quiet s t.claim :=
  onward.same
    (onward.sourced.step ⟨rfl, [], (List.append_nil _).symm⟩ (.inl rfl) (.inl rfl)
      (fun _ member => .inl member) (.inr rfl)) rfl rfl

theorem Onward.setText (onward : Onward quiet s t) (buffer : Buffer) :
    Onward quiet s (t.setText buffer) :=
  onward.same (onward.sourced.frame rfl rfl rfl rfl rfl rfl) rfl rfl

theorem Onward.markClean (onward : Onward quiet s t) : Onward quiet s t.markClean :=
  onward.same (onward.sourced.frame rfl rfl rfl rfl rfl rfl) rfl rfl

theorem Onward.addRecovery (onward : Onward quiet s t) (text : Text) :
    Onward quiet s (t.addRecovery text) :=
  onward.same (onward.sourced.frame rfl rfl rfl rfl rfl rfl) rfl rfl

end Onward

section Functions

variable {codec : Codec} {env : Env} {quiet : Bool} {s t : SyncBuffer} {base : Option LooseBase}
  {bytes localBytes : Bytes} {revision : Token} {st : Dispute}

@[simp] theorem wp_mayFail (site : Site) (post : Unit → SyncBuffer → Prop)
    (failed : LispError → SyncBuffer → Prop) :
    wp (mayFail env site) post failed t ↔
      (env.fails site = true → failed (.signalled "step signalled") t) ∧
      (env.fails site = false → post () t) := by
  cases fails : env.fails site <;> simp [mayFail, fails]

@[simp] theorem wp_visitedTarget (path : Option String) (post : Identity → SyncBuffer → Prop)
    (failed : LispError → SyncBuffer → Prop) :
    wp (visitedTarget path) post failed t ↔
      (∀ target, t.target path = some target → post target t) ∧
      (t.target path = none → failed (RelayConflict.noRequest t.fileIdentity) t) := by
  simp only [visitedTarget, wp_bind, wp_fetch]
  cases t.target path <;> simp

/-- Requests for the visited file go to it. -/
theorem target_visited (sourced : Sourced t) {target : Identity}
    (directed : t.target none = some target) :
    ∃ id, t.fileIdentity = some id ∧ target.authority = id.authority ∧ target.path = id.path := by
  obtain ⟨id, visiting, directed⟩ := Option.bind_eq_some_iff.mp directed
  obtain ⟨authority, path⟩ :=
    Prod.mk.inj (RelayConflict.rpcTarget_direct (sourced.direct id visiting) directed)
  exact ⟨id, visiting, authority, path⟩

theorem fetch_onward (onward : Onward quiet s t) (reply : ReadReply) :
    wp (fetch reply)
      (fun r u => Onward quiet s u ∧ Observed u r) (fun _ u => Onward quiet s u) t := by
  simp only [fetch, wp_bind, wp_visitedTarget, wp_update]
  refine ⟨fun target directed => ?_, fun _ => onward⟩
  obtain ⟨id, visiting, authority, path⟩ := target_visited onward.sourced directed
  rw [authority, path]
  cases reply with
  | ok bytes revision =>
      refine ⟨onward.log _ ?_, ?_, fun deleted => by cases deleted⟩
      · intro _ e member
        simp only [reportsOf, List.mem_cons, List.not_mem_nil, or_false] at member
        rcases member with rfl | rfl <;> rfl
      · refine ⟨id, visiting, ?_⟩
        simp [reportsOf]
  | failed error =>
      refine onward.log _ ?_
      intro _ e member
      simp only [reportsOf, List.mem_cons, List.not_mem_nil, or_false] at member
      rw [member]
      rfl

/-- The live text is replaced by what the server reported. -/
theorem replaceLive_onward (onward : Onward quiet s t) (known : KnownHere t revision) :
    wp (replaceLive codec env bytes revision) (fun _ u => Onward quiet s u)
      (fun _ u => Onward quiet s u) t := by
  have emptied := onward.setText (.whole [])
  have filled := emptied.setText (.whole (codec.decode bytes))
  have based : Onward quiet s
      (((t.setText (.whole [])).setText (.whole (codec.decode bytes))).recordBase bytes
        (some revision) .utf8) := by
    refine filled.recordBase bytes .utf8 ?_
    intro token there
    cases there
    exact known
  simp only [replaceLive, cache, wp_bind, wp_mayFail, wp_update]
  refine ⟨fun _ => onward, fun _ => ⟨fun _ => emptied, fun _ => ⟨fun _ => based, fun _ => ?_⟩⟩⟩
  exact (based.setState (fun _ there => by cases there)).markClean

theorem recoveryBuffer_onward (onward : Onward quiet s t) (site : Site) (bytes : Bytes) :
    wp (recoveryBuffer codec env site bytes) (fun _ u => Onward quiet s u ∧ Grows t u)
      (fun _ u => Onward quiet s u) t := by
  simp only [recoveryBuffer, wp_bind, wp_mayFail, wp_fetch, wp_update, wp_pure]
  exact ⟨fun _ => onward, fun _ => ⟨onward.addRecovery _, rfl, [], (List.append_nil _).symm⟩⟩

theorem claimPending_onward (onward : Onward quiet s t) :
    wp claimPending (fun _ u => Onward quiet s u) (fun _ _ => False) t := by
  simp only [claimPending, wp_bind, wp_fetch]
  cases t.base with
  | some base => exact onward
  | none =>
      cases waiting : t.pendingRead with
      | none => exact onward
      | some pending =>
          simp only [wp_ite, wp_bind, wp_update, wp_pure]
          refine ⟨fun mine => ?_, fun _ => onward⟩
          refine (onward.recordBase _ _ ?_).claim
          intro token revision id visiting
          refine onward.sourced.pending pending.1 pending.2.1 token ?_ id ?_
          · rw [waiting, ← revision]
          · rw [← mine]
            exact visiting

/-- REMOTE of a result was read. -/
def SaveOutcome.Sound (s : SyncBuffer) (result : SaveOutcome) : Prop :=
  ∀ r, result.remote = some r → Observed s r

theorem SaveOutcome.sound_of_none {result : SaveOutcome} (none : result.remote = none)
    (s : SyncBuffer) : result.Sound s := by
  intro r there
  rw [none] at there
  cases there

theorem acknowledged_onward (onward : Onward quiet s t) (known : KnownHere t revision) :
    wp (acknowledged env base localBytes revision)
      (fun result u => Onward quiet s u ∧ result.Sound u) (fun _ u => Onward quiet s u) t := by
  have based : Onward quiet s
      (t.recordBase localBytes (some revision) ((base.map (·.coding)).getD .utf8)) := by
    refine onward.recordBase _ _ ?_
    intro token there
    cases there
    exact known
  simp only [acknowledged, cache, wp_bind, wp_mayFail, wp_update, wp_pure]
  refine ⟨fun _ => based, fun _ => ⟨?_, SaveOutcome.sound_of_none rfl _⟩⟩
  exact (based.setState (fun _ there => by cases there)).markClean

theorem reconcile_onward (onward : Onward quiet s t) {remote : Remote}
    (observed : Observed t remote) :
    wp (reconcile codec env base localBytes remote)
      (fun result u => Onward quiet s u ∧ result.Sound u) (fun _ u => Onward quiet s u) t := by
  have seen : ∀ r, some remote = some r → Observed t r := by
    intro r there
    cases there
    exact observed
  simp only [reconcile]
  split
  · have based : Onward quiet s
        (t.recordBase localBytes (some remote.revision) ((base.map (·.coding)).getD .utf8)) := by
      refine onward.recordBase _ _ ?_
      intro token there
      cases there
      exact observed.1.known
    simp only [cache, wp_bind, wp_mayFail, wp_update, wp_pure]
    exact ⟨fun _ => based, fun _ => ⟨based.markClean, SaveOutcome.sound_of_none rfl _⟩⟩
  · simp only [snapshot, wp_bind, wp_fetch, wp_update, wp_pure]
    exact ⟨onward.offer (sound_of_observed rfl seen), SaveOutcome.sound_of_none rfl _⟩
  · exact ⟨onward, seen⟩

theorem lostReply_onward (onward : Onward quiet s t) (error : Option String) (read : ReadReply) :
    wp (lostReply codec env base localBytes error read)
      (fun result u => Onward quiet s u ∧ result.Sound u) (fun _ u => Onward quiet s u) t := by
  simp only [lostReply, wp_rescue, wp_bind, wp_pure]
  refine wp_mono (fetch_onward onward read) ?_ ?_
  · intro r u fetched
    refine wp_mono (reconcile_onward fetched.1 fetched.2) (fun _ _ done => done) ?_
    intro _ v failed
    exact ⟨failed, SaveOutcome.sound_of_none rfl _⟩
  · intro _ u failed
    exact ⟨failed, SaveOutcome.sound_of_none rfl _⟩

/-- A deletion was reported for the visited path if the reply says so. -/
def Deletes (t : SyncBuffer) (reason : Reason) : Prop :=
  reason = .kind .deleted → Here t [] .missing

theorem Deletes.grow {u : SyncBuffer} {reason : Reason} (deletes : Deletes t reason)
    (grows : Grows t u) : Deletes u reason :=
  fun deleted => (deletes deleted).grow grows

/-- What stands for a deleted file was reported deleted. -/
theorem deleted_observed {reason : Reason} (deletes : Deletes t reason) {r : Remote}
    (there : (if reason = .kind .deleted then some deletedRemote else none) = some r) :
    Observed t r := by
  split at there
  · rename_i deleted
    cases there
    exact ⟨deletes deleted, fun _ => rfl⟩
  · cases there

theorem conflictRemote_onward (onward : Onward quiet s t) {reason : Reason}
    (deletes : Deletes s reason) (read : ReadReply) :
    wp (conflictRemote reason read)
      (fun remote u => Onward quiet s u ∧ ∀ r, remote = some r → Observed u r)
      (fun _ _ => False) t := by
  simp only [conflictRemote, wp_rescue, wp_bind, wp_pure]
  refine wp_mono (fetch_onward onward read) ?_ ?_
  · intro r u fetched
    refine ⟨fetched.1, ?_⟩
    intro r' there
    cases there
    exact fetched.2
  · intro _ u failed
    exact ⟨failed, fun r there => deleted_observed (deletes.grow failed.grows) there⟩

theorem settle_onward (onward : Onward quiet s t) (reason : Reason) {remote : Option Remote}
    (observed : ∀ r, remote = some r → Observed t r) :
    wp (settle codec env base localBytes reason remote)
      (fun result u => Onward quiet s u ∧ result.Sound u) (fun _ u => Onward quiet s u) t := by
  simp only [settle, snapshot, wp_bind, wp_fetch, wp_pure]
  split
  · rename_i r revision _
    simp only [wp_bind, wp_pure]
    exact wp_mono (replaceLive_onward onward (observed r rfl).1.known)
      (fun _ _ done => ⟨done, SaveOutcome.sound_of_none rfl _⟩) fun _ _ failed => failed
  · simp only [wp_bind, wp_update, wp_pure]
    exact ⟨onward.offer (sound_of_observed rfl observed), SaveOutcome.sound_of_none rfl _⟩

/-- What follows the reply to a write of a save. -/
theorem handleReply_onward (onward : Onward quiet s t) {reply : WriteReply}
    (known : ∀ revision, reply = .ok revision → KnownHere t revision)
    (deletes : ∀ reason, replyReason reply = some reason → Deletes s reason) (read : ReadReply) :
    wp (handleReply codec env base localBytes reply read)
      (fun result u => Onward quiet s u ∧ result.Sound u) (fun _ u => Onward quiet s u) t := by
  cases reply with
  | ok revision => exact acknowledged_onward onward (known revision rfl)
  | transport error => exact lostReply_onward onward error read
  | refused code conflict error =>
      simp only [handleReply]
      split
      · rename_i reason refused
        simp only [wp_bind]
        refine wp_mono (conflictRemote_onward onward (deletes reason refused) read) ?_ ?_
        · intro remote u answered
          exact settle_onward answered.1 reason answered.2
        · intro _ _ never
          exact never.elim
      · exact ⟨onward, SaveOutcome.sound_of_none rfl _⟩

theorem remember_onward (onward : Onward quiet s t) {result : SaveOutcome}
    (sound : result.Sound t) :
    wp (rememberIncompleteSave codec result) (fun _ u => Onward quiet s u)
      (fun _ u => Onward quiet s u) t := by
  have kept (st : Dispute) (remote : st.remote = result.remote) :
      Onward quiet s (t.setState (some st)) := by
    refine onward.setState ?_
    intro other there
    cases there
    exact sound_of_observed remote sound
  simp only [rememberIncompleteSave, wp_bind, wp_fetch]
  split
  · exact kept _ rfl
  · exact kept _ rfl
  · exact onward
  · exact onward

theorem establishBase_onward (onward : Onward quiet s t) (reply : ReadReply) :
    wp (establishBase reply) (fun _ u => Onward quiet s u) (fun _ _ => False) t := by
  simp only [establishBase, wp_bind]
  refine wp_mono (claimPending_onward onward) ?_ fun _ _ never => never
  intro base u claimed
  cases base with
  | some base => exact claimed
  | none =>
      simp only [wp_rescue, wp_bind, wp_update, wp_pure]
      refine wp_mono (fetch_onward claimed reply) ?_ fun _ _ failed => failed
      intro r v fetched
      refine fetched.1.recordBase _ _ ?_
      intro token there
      cases there
      exact fetched.2.1.known

/-- What the reply to a write of the visited path says about it has been told. -/
structure Answered (s : SyncBuffer) (reply : WriteReply) : Prop where
  known : ∀ revision, reply = .ok revision → KnownHere s revision
  deletes : ∀ reason, replyReason reply = some reason → Deletes s reason

theorem answered_visited {id : Identity} (visiting : t.fileIdentity = some id) (bytes : Bytes)
    (expected : Option Token) (reply : WriteReply) :
    Answered (t.log (.sent (.write id.authority id.path bytes expected) ::
      reportsOf (.write id.authority id.path bytes expected) (.inl reply))) reply where
  known := by
    intro revision acknowledged id' visiting'
    have same : id = id' := Option.some.inj (visiting.symm.trans visiting')
    rw [acknowledged, ← same]
    exact .inr ⟨bytes, by simp [reportsOf]⟩
  deletes := by
    intro reason refused deleted
    refine ⟨id, visiting, ?_⟩
    cases reply with
    | ok revision => cases refused
    | transport error => cases refused
    | refused code conflict error =>
        cases conflict with
        | some kind =>
            have deleting : kind = .deleted := by
              cases refused
              exact Reason.kind.inj deleted
            simp [reportsOf, deleting]
        | none =>
            simp only [replyReason] at refused
            split at refused
            · cases refused
              cases deleted
            · cases refused

theorem writeSnapshot_onward (onward : Onward false s t) (expected : Option Token)
    (saveAs : Option String) (write : Request → WriteReply) :
    wp (writeSnapshot bytes expected saveAs write)
      (fun reply u => Onward false s u ∧ (saveAs = none → Answered u reply) ∧
        ∃ request, reply = write request)
      (fun _ u => Onward false s u) t := by
  simp only [writeSnapshot, wp_bind, wp_visitedTarget, wp_update, wp_pure]
  refine ⟨fun target directed => ?_, fun _ => onward⟩
  refine ⟨onward.log _ fun quiet => (by cases quiet), fun visited => ?_, _, rfl⟩
  rw [visited] at directed
  obtain ⟨id, visiting, authority, path⟩ := target_visited onward.sourced directed
  rw [authority, path]
  exact answered_visited visiting bytes expected _

theorem save_onward (sourced : Sourced s) (replies : Replies) :
    wp (save codec env replies) (fun _ u => Onward false s u) (fun _ u => Onward false s u) s := by
  simp only [save, saveInternal, wp_bind, wp_fetch]
  refine wp_mono (establishBase_onward (Onward.refl false sourced) replies.baseRead) ?_
    fun _ _ never => never.elim
  intro base t established
  refine wp_mono (writeSnapshot_onward established _ none replies.write) ?_
    fun _ _ failed => failed
  intro reply u written
  obtain ⟨onward, answered, _⟩ := written
  have told := answered rfl
  refine wp_mono (handleReply_onward (Onward.refl false onward.sourced) told.known told.deletes
    replies.read) ?_ fun _ _ failed => onward.trans failed
  intro result v handled
  exact remember_onward (onward.trans handled.1) handled.2

theorem freshConflict_onward (onward : Onward quiet s t) (sound : st.Sound s) {reply : WriteReply}
    (deletes : ∀ reason, replyReason reply = some reason → Deletes s reason) (read : ReadReply) :
    wp (freshConflict st reply read) (fun fresh u => Onward quiet s u ∧ fresh.Sound u)
      (fun _ _ => False) t := by
  simp only [freshConflict, wp_rescue, wp_bind, wp_pure]
  refine wp_mono (fetch_onward onward read) ?_ ?_
  · intro r u fetched
    refine ⟨fetched.1, sound_of_observed rfl ?_⟩
    intro r' there
    cases there
    exact fetched.2
  · intro _ u failed
    refine ⟨failed, ?_⟩
    split
    · rename_i deleted
      cases refused : replyReason reply with
      | none =>
          rw [refused] at deleted
          cases deleted
      | some reason =>
          rw [refused] at deleted
          refine sound_of_observed rfl ?_
          intro r there
          cases there
          exact ⟨(deletes reason refused deleted).grow failed.grows, fun _ => rfl⟩
    · exact sound.grow failed.grows

theorem adopted_known {remote : Option Remote}
    (observed : ∀ r, remote = some r → Observed t r) : KnownHere t (adoptedRemote remote).2 := by
  cases remote with
  | none => exact fun _ _ => .inl rfl
  | some r =>
      cases deleted : r.deleted with
      | true =>
          intro _ _
          left
          simp [adoptedRemote, deleted]
      | false =>
          have read : (adoptedRemote (some r)).2 = r.revision := by simp [adoptedRemote, deleted]
          rw [read]
          exact (observed r rfl).1.known

theorem resolveReplied_onward (onward : Onward quiet s t) (sound : st.Sound s)
    {choice : Choice} {recovered : Option Nat × Option Nat} {reply : WriteReply}
    (known : choice ≠ .saveAs → ∀ revision, reply = .ok revision → KnownHere t revision)
    (deletes : ∀ reason, replyReason reply = some reason → Deletes s reason) (read : ReadReply) :
    wp (resolveReplied codec env st choice bytes recovered reply read)
      (fun _ u => Onward quiet s u) (fun _ u => Onward quiet s u) t := by
  have kept : Onward quiet s (t.setState (some st)) := by
    refine onward.setState ?_
    intro other there
    cases there
    exact sound.grow onward.grows
  cases reply with
  | ok revision =>
      simp only [resolveReplied, wp_ite, wp_bind, wp_update, wp_pure]
      refine ⟨fun _ => kept, fun here => ?_⟩
      have based : Onward quiet s ((t.recordBase bytes (some revision) .utf8).setState none) := by
        refine (onward.recordBase _ _ ?_).setState fun _ there => by cases there
        intro token there
        cases there
        exact known here revision rfl
      refine ⟨fun _ => replaceLive_onward based ?_, fun _ => ?_⟩
      · exact known here revision rfl
      · simp only [cache, wp_mayFail, wp_fetch, wp_whenever, wp_update]
        exact ⟨fun _ => based, fun _ => ⟨fun _ => based.markClean, fun _ => based⟩⟩
  | transport error => exact kept
  | refused code conflict error =>
      simp only [resolveReplied]
      split
      · simp only [wp_bind, wp_update, wp_pure]
        refine wp_mono (freshConflict_onward onward sound deletes read) ?_
          fun _ _ never => never.elim
        intro fresh u refreshed
        exact refreshed.1.offer refreshed.2
      · exact kept

theorem recoverBoth_onward (onward : Onward quiet s t) (st : Dispute) (choice : Choice) :
    wp (recoverBoth codec env st choice) (fun _ u => Onward quiet s u)
      (fun _ u => Onward quiet s u) t := by
  simp only [recoverBoth, wp_ite, wp_bind, wp_pure]
  refine ⟨fun _ => ?_, fun _ => onward⟩
  refine wp_mono (recoveryBuffer_onward onward .localRecovery st.localBytes) ?_
    fun _ _ failed => failed
  intro first u recovered
  exact wp_mono (recoveryBuffer_onward recovered.1 .remoteRecovery _) (fun _ _ done => done.1)
    fun _ _ failed => failed

/-- A write that resolves a conflict; one that creates another file is not refused as deleted. -/
theorem resolveWrite_onward (sourced : Sourced s) (sound : st.Sound s) {choice : Choice}
    {saveAs : Option String} {write : Request → WriteReply}
    (visited : choice ≠ .saveAs → saveAs = none)
    (created : choice = .saveAs → ∀ request, replyReason (write request) ≠ some (.kind .deleted))
    (read : ReadReply) :
    wp (resolveWrite codec env st choice saveAs write read) (fun _ u => Onward false s u)
      (fun _ u => Onward false s u) s := by
  simp only [resolveWrite, wp_bind]
  refine wp_mono (recoverBoth_onward (Onward.refl false sourced) st choice) ?_
    fun _ _ failed => failed
  intro recovered t onward
  split
  · exact onward
  · simp only [wp_bind]
    refine wp_mono (writeSnapshot_onward onward _ saveAs write) ?_ fun _ _ failed => failed
    intro reply u written
    obtain ⟨sent, answered, request, replied⟩ := written
    have deletes : ∀ reason, replyReason reply = some reason → Deletes u reason := by
      intro reason refused
      by_cases aside : choice = .saveAs
      · intro deleted
        rw [deleted, replied] at refused
        exact absurd refused (created aside request)
      · exact (answered (visited aside)).deletes reason refused
    refine wp_mono (resolveReplied_onward (Onward.refl false sent.sourced) (sound.grow sent.grows)
      ?_ deletes read) (fun _ _ done => sent.trans done) fun _ _ failed => sent.trans failed
    intro here
    exact (answered (visited here)).known

theorem resolve_onward (sourced : Sourced s) (sound : st.Sound s) {choice : Choice}
    {saveAs : Option String} {write : Request → WriteReply}
    (visited : choice ≠ .saveAs → saveAs = none)
    (created : choice = .saveAs → ∀ request, replyReason (write request) ≠ some (.kind .deleted))
    (read : ReadReply) :
    wp (resolve codec env st choice saveAs write read) (fun _ u => Onward false s u)
      (fun _ u => Onward false s u) s := by
  have start := Onward.refl false sourced
  cases choice with
  | cancel =>
      refine start.setState ?_
      intro other there
      cases there
      exact sound
  | keepRemote =>
      simp only [resolve, wp_bind]
      refine wp_mono (recoveryBuffer_onward start .localRecovery st.localBytes) ?_
        fun _ _ failed => failed
      intro recovery t recovered
      exact replaceLive_onward recovered.1 ((adopted_known sound).grow recovered.2)
  | merge => exact start
  | keepLocal => exact resolveWrite_onward sourced sound visited created read
  | restoreBase => exact resolveWrite_onward sourced sound visited created read
  | saveAs => exact resolveWrite_onward sourced sound visited created read

theorem mergeRefusal_onward (onward : Onward quiet s t) (sound : st.Sound t) (merged : Bytes)
    (status : Settlement) (reason : Reason) {remote : Option Remote}
    (observed : ∀ r, remote = some r → Observed t r) :
    wp (mergeRefusal codec env st merged status reason remote) (fun _ u => Onward quiet s u)
      (fun _ u => Onward quiet s u) t := by
  simp only [mergeRefusal, wp_bind]
  refine wp_mono (recoveryBuffer_onward onward .mergeRecovery merged) ?_ fun _ _ failed => failed
  intro recovery u recovered
  simp only [wp_fetch, wp_update, wp_pure]
  refine recovered.1.offer (sound_of_observed rfl ?_)
  intro r there
  cases remote with
  | none => exact (sound r there).grow recovered.2
  | some r' =>
      cases there
      exact (observed r rfl).grow recovered.2

theorem tryFetch_onward (onward : Onward quiet s t) (read : ReadReply) :
    wp (tryFetch read) (fun remote u => Onward quiet s u ∧ ∀ r, remote = some r → Observed u r)
      (fun _ _ => False) t := by
  simp only [tryFetch, wp_rescue, wp_bind, wp_pure]
  refine wp_mono (fetch_onward onward read) ?_ ?_
  · intro r u fetched
    refine ⟨fetched.1, ?_⟩
    intro r' there
    cases there
    exact fetched.2
  · intro _ u failed
    exact ⟨failed, fun r there => by cases there⟩

theorem mergeReplied_onward (onward : Onward quiet s t) (sound : st.Sound s)
    {reply : WriteReply} (answered : Answered s reply) (merged : Bytes) (read : ReadReply) :
    wp (mergeReplied codec env st merged reply read) (fun _ u => Onward quiet s u)
      (fun _ u => Onward quiet s u) t := by
  cases reply with
  | ok revision =>
      simp only [mergeReplied, wp_bind, wp_pure]
      exact replaceLive_onward onward ((answered.known revision rfl).grow onward.grows)
  | transport error =>
      simp only [mergeReplied, wp_bind]
      refine wp_mono (tryFetch_onward onward read) ?_ fun _ _ never => never.elim
      intro remote u seen
      have later := sound.grow seen.1.grows
      cases remote with
      | none => exact mergeRefusal_onward seen.1 later merged _ _ seen.2
      | some r =>
          simp only [wp_ite, wp_bind, wp_pure]
          constructor
          · intro _
            exact replaceLive_onward seen.1 (seen.2 r rfl).1.known
          · intro _
            exact mergeRefusal_onward seen.1 later merged _ _ seen.2
  | refused code conflict error =>
      simp only [mergeReplied, wp_bind]
      refine wp_mono (freshConflict_onward onward sound answered.deletes read) ?_
        fun _ _ never => never.elim
      intro fresh u refreshed
      exact mergeRefusal_onward refreshed.1 refreshed.2 merged _ _ refreshed.2

theorem applyMerge_onward (sourced : Sourced s) (sound : st.Sound s) (merged : Bytes)
    (verify : ReadReply) (write : Request → WriteReply) (read : ReadReply) :
    wp (applyMerge codec env st merged verify write read) (fun _ u => Onward false s u)
      (fun _ u => Onward false s u) s := by
  have start := Onward.refl false sourced
  simp only [applyMerge, wp_bind, wp_fetch, wp_ite]
  refine ⟨fun _ => mergeRefusal_onward start sound merged _ _ fun _ there => (by cases there), ?_⟩
  intro _
  refine wp_mono (tryFetch_onward start verify) ?_ fun _ _ never => never.elim
  intro remote t seen
  cases remote with
  | none => exact mergeRefusal_onward seen.1 (sound.grow seen.1.grows) merged _ _ seen.2
  | some r =>
      simp only [wp_ite, wp_bind]
      refine ⟨fun _ => mergeRefusal_onward seen.1 (sound.grow seen.1.grows) merged _ _ seen.2, ?_⟩
      intro _
      refine wp_mono (writeSnapshot_onward seen.1 _ none write) ?_ fun _ _ failed => failed
      intro reply u written
      have again := Onward.refl false written.1.sourced
      exact wp_mono (mergeReplied_onward again (sound.grow written.1.grows) (written.2.1 rfl)
          merged read)
        (fun _ _ done => written.1.trans done) fun _ _ failed => written.1.trans failed

theorem abandonMerge_onward (sourced : Sourced s) (sound : st.Sound s) :
    wp (abandonMerge st) (fun _ u => Onward false s u) (fun _ u => Onward false s u) s := by
  simp only [abandonMerge, wp_bind, wp_fetch, wp_whenever, wp_update]
  refine ⟨fun _ => (Onward.refl false sourced).setState ?_, fun _ => Onward.refl false sourced⟩
  intro other there
  cases there
  exact sound

end Functions

/-- The error reply to a conditional write, with its code and conflict. -/
def errorReply (reason : RevisionError) : WriteReply :=
  .refused (some reason.code) reason.conflictKind (some reason.readable)

/-- How the server refuses a write that may only create a file. -/
theorem creation_reason (process : Process) (path : Path) (bytes : Bytes) :
    Trial.wp AnyHost (conditionalWriteLocked process path bytes .missing) (fun _ _ => True)
      (fun reason _ => replyReason (errorReply reason) ≠ some (.kind .deleted)) () := by
  refine Trial.wp_mono (creation_undeleted process path bytes) (fun _ _ done => done) ?_
  intro reason _ undeleted
  cases reason with
  | conflict kind current =>
      intro refused
      simp only [replyReason, errorReply, RevisionError.conflictKind, Option.some.injEq,
        Reason.kind.injEq] at refused
      rw [refused] at undeleted
      exact undeleted current rfl
  | unstableRead => simp [replyReason, errorReply, RevisionError.conflictKind, RevisionError.code]
  | unsupportedFinalType kind =>
      simp [replyReason, errorReply, RevisionError.conflictKind, RevisionError.code]
  | unsupportedEncoding =>
      simp [replyReason, errorReply, RevisionError.conflictKind, RevisionError.code]
  | tooLarge => simp [replyReason, errorReply, RevisionError.conflictKind, RevisionError.code]
  | io message => simp [replyReason, errorReply, RevisionError.conflictKind, RevisionError.code]

/-- Nothing that was observed of another path is left. -/
def SyncBuffer.Bare (s : SyncBuffer) : Prop := s.state = none ∧ s.offered = []

/-- The path of the file, where it is a Relay file, is not itself a Relay name of its authority. -/
def DirectName (fileName : Option String) : Prop :=
  ∀ id, RelayConflict.fileIdentity fileName = some id → RelayConflict.Direct id

theorem directName_of_unparsed {fileName : String} {id : Identity}
    (named : RelayConflict.fileIdentity (some fileName) = some id)
    (unparsed : relayParse id.path = none) : DirectName (some fileName) := by
  intro other named'
  rw [Option.some.inj (named'.symm.trans named)]
  exact RelayConflict.direct_of_unparsed unparsed

/-- The buffer keeps to one path while it holds a BASE or conflicts of it, and a Save As, which may
only create a file, is not refused as deleted (`creation_reason`). -/
def OnePath (s : SyncBuffer) : SyncEvent → Prop
  | .rename fileName =>
      fileName = s.fileName ∨ (s.base = none ∧ s.Bare ∧ DirectName fileName)
  | .insert fileName _ visit _ _ _ =>
      visit = true → s.fileName = some fileName ∨ (s.Bare ∧ DirectName (some fileName))
  | .resolve _ choice _ write _ =>
      choice = .saveAs → ∀ request, replyReason (write request) ≠ some (.kind .deleted)
  | _ => True

section Runs

variable {codec : Codec} {s : SyncBuffer}

theorem offered_sound (sourced : Sourced s) {conflict : Nat} {st : Dispute}
    (there : s.offered[conflict]? = some st) : st.Sound s :=
  sourced.offered st (List.mem_of_getElem? there)

theorem after_sourced {α : Type} {body : Act α}
    (onward : wp body (fun _ u => Onward false s u) (fun _ u => Onward false s u) s) :
    Sourced (body.after s) :=
  (after_of_wp onward).sourced

/-- Another file name, with nothing observed of the old one, and perhaps a BASE of the new one. -/
theorem renamed_sourced {t : SyncBuffer} (sourced : Sourced s) (bare : t.Bare)
    (direct : DirectName t.fileName)
    (traffic : ∃ new, t.traffic = s.traffic ++ new)
    (base : ∀ b token, t.base = some b → b.revision = some token → KnownHere t token)
    (pending : t.pendingRead = s.pendingRead) : Sourced t where
  direct := direct
  base := base
  state := by
    intro st there
    rw [bare.1] at there
    cases there
  offered := by
    intro st member
    rw [bare.2] at member
    cases member
  pending := by
    intro filename bytes token there id named
    rw [pending] at there
    obtain ⟨new, grown⟩ := traffic
    rcases sourced.pending filename bytes token there id named with missing | ⟨bytes', member⟩
    · exact .inl missing
    · refine .inr ⟨bytes', ?_⟩
      rw [grown]
      exact List.mem_append_left new member

theorem revisionReports_known (seen : List Traffic) (authority path : String) (bytes : Bytes)
    {revision : Option Token} {token : Token} (there : revision = some token) :
    Known (seen ++ revisionReports authority path bytes revision) authority path token := by
  cases token with
  | missing => exact .inl rfl
  | present r => exact .inr ⟨bytes, by simp [revisionReports, there]⟩

theorem named_identity {fileName : String} {parsed : String × String} {id : Identity}
    (parses : relayParse fileName = some parsed)
    (named : RelayConflict.fileIdentity (some fileName) = some id) :
    id.authority = parsed.1 ∧ id.path = parsed.2 := by
  simp only [RelayConflict.fileIdentity, Option.bind_some, parses, Option.map_some,
    Option.some.injEq] at named
  rw [← named]
  exact ⟨rfl, rfl⟩

theorem insert_sourced (sourced : Sourced s) (fileName : String) (point : Nat)
    {visit : Bool} (replace : Bool) (cached : Option CachedBytes) (reply : VisitReply)
    (allowed : visit = true →
      s.fileName = some fileName ∨ (s.Bare ∧ DirectName (some fileName))) :
    Sourced (insertFileContents codec fileName point visit replace cached reply s) := by
  unfold insertFileContents
  split
  · rename_i authority path bytes revision parses _
    have known (id : Identity) (token : Token) (there : revision = some token)
        (named : RelayConflict.fileIdentity (some fileName) = some id) :
        Known (s.traffic ++ revisionReports authority path bytes revision) id.authority id.path
          token := by
      obtain ⟨sameAuthority, samePath⟩ := named_identity parses named
      rw [sameAuthority, samePath]
      exact revisionReports_known s.traffic authority path bytes there
    have logged := (Onward.refl false sourced).log (revisionReports authority path bytes revision)
      fun quiet => by cases quiet
    cases visit with
    | true =>
        rcases allowed rfl with same | ⟨bare, direct⟩
        · refine sourced.step ⟨same.symm, _, rfl⟩ (.inr ?_) (.inl rfl)
            (fun _ member => .inl member) (.inl rfl)
          intro b token there tokened id named
          cases there
          exact known id token tokened named
        · refine renamed_sourced sourced bare direct ⟨_, rfl⟩ ?_ rfl
          intro b token there tokened id named
          cases there
          exact known id token tokened named
    | false =>
        have kept := logged.sourced
        refine ⟨kept.direct, kept.base, kept.state, kept.offered, ?_⟩
        intro name bytes' token there id named
        cases there
        exact known id token rfl named
  · exact sourced

theorem newFile_sourced (sourced : Sourced s) (fileExists : Bool) :
    Sourced (visitNewFile fileExists s) := by
  unfold visitNewFile
  split
  · refine ((Onward.refl false sourced).recordBase [] .utf8 ?_).sourced
    intro token there
    cases there
    exact fun _ _ => .inl rfl
  · exact sourced

theorem step_sourced (event : SyncEvent) (sourced : Sourced s) (allowed : OnePath s event) :
    Sourced (step codec s event) := by
  have start := Onward.refl false sourced
  cases event with
  | edit buffer => exact (start.setText buffer).sourced
  | narrow buffer =>
      simp only [step]
      split
      · exact sourced.frame rfl rfl rfl rfl rfl rfl
      · exact sourced
  | rename fileName =>
      rcases allowed with same | ⟨unbased, bare, direct⟩
      · exact sourced.frame same rfl rfl rfl rfl rfl
      · refine renamed_sourced (t := { s with fileName := fileName }) sourced bare direct
          ⟨[], (List.append_nil _).symm⟩ ?_ rfl
        intro b token there
        rw [unbased] at there
        cases there
  | insert fileName point visit replace cached reply =>
      exact insert_sourced sourced fileName point replace cached reply allowed
  | newFile fileExists => exact newFile_sourced sourced fileExists
  | save env replies => exact after_sourced (save_onward sourced replies)
  | resolve conflict choice env write read =>
      simp only [step]
      split
      · rename_i st there
        refine after_sourced (resolve_onward sourced (offered_sound sourced there) ?_ allowed read)
        intro here
        rw [if_neg here]
      · exact sourced
  | applyMerge conflict merged env verify write read =>
      simp only [step]
      split
      · rename_i st there
        exact after_sourced
          (applyMerge_onward sourced (offered_sound sourced there) merged verify write read)
      · exact sourced
  | abandonMerge conflict =>
      simp only [step]
      split
      · rename_i st there
        exact after_sourced (abandonMerge_onward sourced (offered_sound sourced there))
      · exact sourced

theorem fresh_sourced : Sourced {} where
  direct := by
    intro id visiting
    cases visiting
  base := by
    intro b token there
    cases there
  state := by
    intro st there
    cases there
  offered := by
    intro st member
    cases member
  pending := by
    intro filename bytes token there
    cases there

/-- The runs of a buffer that keeps to one path. -/
abbrev SyncRuns (codec : Codec) (s : SyncBuffer) : Prop := Reaches (step codec) OnePath {} s

theorem runs_sourced (reached : SyncRuns codec s) : Sourced s :=
  reached.invariant fresh_sourced fun _ event sourced allowed => step_sourced event sourced allowed

end Runs

end EmacsRelay.Synchronous

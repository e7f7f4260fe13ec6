import EmacsRelay.Client.Reported

set_option autoImplicit false

/- The precondition of the write that a synchronous save sends. -/
namespace EmacsRelay.Synchronous

open Routine
open RelayConflict (Replies)

/-- A write has a precondition: the missing state, or a token that was told of its path before. -/
def Traffic.Sound (seen : List Traffic) : Traffic → Prop
  | .sent (.write authority path _ expected) =>
      ∃ token, expected = some token ∧ Known seen authority path token
  | _ => True

/-- Every write among `new`, which follows `seen`, has its precondition. -/
def Preconditioned : List Traffic → List Traffic → Prop
  | _, [] => True
  | seen, e :: new => e.Sound seen ∧ Preconditioned (seen ++ [e]) new

/-- The pending read, if it is one of the visited file. -/
def pendingBase (s : SyncBuffer) : Option LooseBase :=
  s.pendingRead.bind fun pending =>
    if s.fileName = some pending.1 then some ⟨pending.2.1, pending.2.2, .utf8⟩ else none

/-- BASE as the buffer holds it. -/
def heldBase (s : SyncBuffer) : Option LooseBase := s.base <|> pendingBase s

/-- A BASE can be established. -/
def Established (s : SyncBuffer) (read : ReadReply) : Prop :=
  (heldBase s).isSome = true ∨
    (s.target none).isSome = true ∧ ∃ bytes revision, read = .ok bytes revision

def newTraffic (s t : SyncBuffer) : List Traffic := t.traffic.drop s.traffic.length

/-- A save sends writes with preconditions only, and none but `uncertain` without a BASE. -/
structure Conditional (read : ReadReply) (s : SyncBuffer)
    (outcome : Except LispError SaveOutcome × SyncBuffer) : Prop where
  real : Preconditioned s.traffic (newTraffic s outcome.2)
  refuses : ¬ Established s read →
    (∃ result, outcome.1 = .ok result ∧ result.status = .uncertain) ∧
      ∀ e ∈ newTraffic s outcome.2, e.isWrite = false

/-- A BASE can be established, and one that the buffer holds has a revision, or a retained retry
state supplies it. -/
def Anchored (codec : Codec) (s : SyncBuffer) (read : ReadReply) : Prop :=
  Established s read ∧
    ((s.target none).isSome = true → ∀ base, heldBase s = some base →
      base.revision.isSome = true ∨
        (retryRevision s.state (some base) (s.bytes codec)).isSome = true)

def fetchedBase (s : SyncBuffer) (read : ReadReply) : Option LooseBase :=
  match s.target none, read with
  | some _, .ok bytes revision => some ⟨bytes, some revision, .utf8⟩
  | _, _ => none

/-- BASE as a save uses it. -/
def workingBase (s : SyncBuffer) (read : ReadReply) : Option LooseBase :=
  heldBase s <|> fetchedBase s read

section Traffic

variable {seen new late : List Traffic} {e : Traffic}

theorem preconditioned_append :
    Preconditioned seen (new ++ late) ↔
      Preconditioned seen new ∧ Preconditioned (seen ++ new) late := by
  induction new generalizing seen with
  | nil => simp [Preconditioned]
  | cons e new ih =>
      rw [List.cons_append, Preconditioned, Preconditioned, ih, and_assoc, List.append_assoc]
      rfl

theorem sound_of_read (read : e.isWrite = false) : e.Sound seen := by
  cases e with
  | sent request =>
      cases request with
      | read authority path => trivial
      | write authority path bytes expected => cases read
  | told report => trivial

theorem preconditioned_of_reads (reads : ∀ e ∈ new, e.isWrite = false) :
    Preconditioned seen new := by
  induction new generalizing seen with
  | nil => trivial
  | cons e new ih =>
      constructor
      · exact sound_of_read (reads e List.mem_cons_self)
      · apply ih
        intro other member
        exact reads other (List.mem_cons_of_mem e member)

/-- Among reads, the writes are sound if one of them is. -/
theorem preconditioned_single {early : List Traffic} (before : ∀ e ∈ early, e.isWrite = false)
    (after : ∀ e ∈ late, e.isWrite = false) :
    Preconditioned seen (early ++ e :: late) ↔ e.Sound (seen ++ early) := by
  rw [preconditioned_append, Preconditioned]
  constructor
  · intro parts
    exact parts.2.1
  · intro sound
    exact ⟨preconditioned_of_reads before, sound, preconditioned_of_reads after⟩

end Traffic

section Save

variable {s : SyncBuffer} {id : Identity}

theorem established_iff (read : ReadReply) :
    Established s read ↔ (workingBase s read).isSome = true := by
  unfold Established workingBase fetchedBase
  cases heldBase s with
  | some base => simp
  | none =>
      cases s.target none with
      | none => simp
      | some target => cases read <;> simp

theorem workingBase_held {base : LooseBase} (held : heldBase s = some base) (read : ReadReply) :
    workingBase s read = some base := by
  rw [workingBase, held]
  rfl

theorem workingBase_fetched {base : LooseBase} {read : ReadReply} (unheld : heldBase s = none)
    (working : workingBase s read = some base) : base.revision.isSome = true := by
  rw [workingBase, unheld] at working
  have fetched : fetchedBase s read = some base := working
  unfold fetchedBase at fetched
  split at fetched
  · cases fetched
    rfl
  · cases fetched

theorem claimPending_runs (s : SyncBuffer) :
    ∃ t, claimPending s = (.ok (heldBase s), t) ∧ t.fileName = s.fileName ∧
      t.base = heldBase s ∧ t.state = s.state := by
  have total : wp claimPending
      (fun base t => base = heldBase s ∧ t.fileName = s.fileName ∧ t.base = heldBase s ∧
        t.state = s.state) (fun _ _ => False) s := by
    simp only [claimPending, wp_bind, wp_fetch]
    cases based : s.base with
    | some base => simp [heldBase, based]
    | none =>
        cases waiting : s.pendingRead with
        | none => simp [heldBase, pendingBase, based, waiting]
        | some pending =>
            simp only [wp_ite, wp_bind, wp_update, wp_pure]
            constructor
            · intro mine
              simp [heldBase, pendingBase, based, waiting, mine]
            · intro other
              simp [heldBase, pendingBase, based, waiting, other]
  obtain ⟨base, t, runs, same, facts⟩ := runs_of_total total
  exact ⟨t, same ▸ runs, facts⟩

theorem establishBase_runs (sourced : Sourced s) (read : ReadReply) :
    ∃ t, establishBase read s = (.ok (workingBase s read), t) ∧ Onward true s t ∧
      t.base = workingBase s read := by
  have onward := establishBase_onward (Onward.refl true sourced) read
  have total : wp (establishBase read)
      (fun base t => base = workingBase s read ∧ t.base = workingBase s read)
      (fun _ _ => False) s := by
    obtain ⟨t, claims, named, based, _⟩ := claimPending_runs s
    have here : t.target none = s.target none := by
      rw [SyncBuffer.target, SyncBuffer.target, SyncBuffer.fileIdentity, SyncBuffer.fileIdentity,
        named]
    simp only [establishBase, wp_bind]
    apply wp_of_runs claims
    cases held : heldBase s with
    | some base => simp [workingBase, held, based]
    | none =>
        simp only [wp_rescue, fetch, wp_bind, wp_visitedTarget, wp_update, here]
        cases directed : s.target none with
        | none => simp [workingBase, fetchedBase, held, based, directed]
        | some target => cases read <;> simp [workingBase, fetchedBase, held, based, directed]
  obtain ⟨base, t, runs, same, based⟩ := runs_of_total total
  have reached := post_of_wp onward runs
  exact ⟨t, same ▸ runs, reached, based⟩

/-- A precondition of a save, if there is one, was told. -/
theorem expected_known {t : SyncBuffer} (sourced : Sourced s) (onward : Onward true s t)
    {base : Option LooseBase} (based : t.base = base) (localBytes : Bytes) {token : Token}
    (visiting : s.fileIdentity = some id)
    (expected : expectedRevision s.state base localBytes = some token) :
    Known t.traffic id.authority id.path token := by
  have there : t.fileIdentity = some id := onward.fileIdentity.trans visiting
  cases retried : retryRevision s.state base localBytes with
  | some revision =>
      have same : revision = token := by
        rw [expectedRevision, retried] at expected
        exact Option.some.inj expected
      obtain ⟨st, retained, remote⟩ := Option.bind_eq_some_iff.mp retried
      obtain ⟨r, remote, revised⟩ := Option.map_eq_some_iff.mp remote
      have kept := (Option.filter_eq_some_iff.mp retained).1
      have observed := sourced.state st kept r remote
      rw [← same, ← revised]
      exact (observed.1.known id visiting).grow onward.grows
  | none =>
      rw [expectedRevision, retried] at expected
      obtain ⟨b, held, revision⟩ := Option.bind_eq_some_iff.mp expected
      exact onward.sourced.base b token (based.trans held) revision id there

/-- What a step adds to the traffic. -/
theorem Onward.reads {t : SyncBuffer} (onward : Onward true s t) :
    ∀ e ∈ newTraffic s t, e.isWrite = false := by
  obtain ⟨new, grown, reads⟩ := onward.traffic
  rw [newTraffic, grown, List.drop_left]
  exact reads rfl

/-- Where no request can be made, a save signals before it writes. -/
theorem save_unvisited (codec : Codec) (env : Env) (replies : Replies) (sourced : Sourced s)
    (nowhere : s.target none = none) :
    wp (save codec env replies) (fun _ _ => False) (fun _ t => Onward true s t) s := by
  obtain ⟨t, establishes, onward, _⟩ := establishBase_runs sourced replies.baseRead
  simp only [save, saveInternal, wp_bind, wp_fetch]
  apply wp_of_runs establishes
  simp only [writeSnapshot, wp_bind, wp_visitedTarget, onward.target, nowhere]
  exact ⟨fun _ directed => (by cases directed), fun _ => onward⟩

theorem reportsOf_reads (request : Request) (reply : WriteReply ⊕ ReadReply) :
    ∀ e ∈ reportsOf request reply, e.isWrite = false := by
  intro e member
  unfold reportsOf at member
  split at member
  · rw [List.mem_singleton.mp member]
    rfl
  · rw [List.mem_singleton.mp member]
    rfl
  · rw [List.mem_singleton.mp member]
    rfl
  · cases member

/-- The traffic of a write of the visited path. -/
def exchange (id : Identity) (bytes : Bytes) (expected : Option Token)
    (write : Request → WriteReply) : List Traffic :=
  let request : Request := .write id.authority id.path bytes expected
  .sent request :: reportsOf request (.inl (write request))

theorem wp_writeSnapshot {t : SyncBuffer} {target : Identity} (here : t.target none = some target)
    (authority : target.authority = id.authority) (path : target.path = id.path) (bytes : Bytes)
    (expected : Option Token) (write : Request → WriteReply)
    (post : WriteReply → SyncBuffer → Prop) (failed : LispError → SyncBuffer → Prop) :
    wp (writeSnapshot bytes expected none write) post failed t ↔
      post (write (.write id.authority id.path bytes expected))
        (t.log (exchange id bytes expected write)) := by
  simp only [writeSnapshot, wp_bind, wp_visitedTarget, here]
  simp [exchange, authority, path]

/-- A save of a Relay file writes once, and reads before and after that. -/
theorem save_traffic (codec : Codec) (env : Env) (replies : Replies) (sourced : Sourced s)
    (visiting : s.fileIdentity = some id) (sent : (s.target none).isSome = true) :
    ∃ early late,
      newTraffic s (save codec env replies s).2 =
        early ++ .sent (.write id.authority id.path (s.bytes codec)
          (expectedRevision s.state (workingBase s replies.baseRead) (s.bytes codec))) :: late ∧
      (∀ e ∈ early, e.isWrite = false) ∧ (∀ e ∈ late, e.isWrite = false) ∧
      ∀ token,
        expectedRevision s.state (workingBase s replies.baseRead) (s.bytes codec) = some token →
        Known (s.traffic ++ early) id.authority id.path token := by
  obtain ⟨t, establishes, onward, based⟩ := establishBase_runs sourced replies.baseRead
  have here : t.fileIdentity = some id := onward.fileIdentity.trans visiting
  obtain ⟨target, directed⟩ := Option.isSome_iff_exists.mp sent
  rw [← onward.target] at directed
  obtain ⟨id', visiting', authority, path⟩ := target_visited onward.sourced directed
  have same : id' = id := Option.some.inj (visiting'.symm.trans here)
  rw [same] at authority path
  obtain ⟨early, grown, reads⟩ := onward.traffic
  let expected := expectedRevision s.state (workingBase s replies.baseRead) (s.bytes codec)
  let written := t.log (exchange id (s.bytes codec) expected replies.write)
  have sourced' : Sourced written :=
    ((Onward.refl false onward.sourced).log _ fun quiet => by cases quiet).sourced
  have follows : wp (save codec env replies) (fun _ u => Onward true written u)
      (fun _ u => Onward true written u) s := by
    have told := answered_visited here (s.bytes codec) expected
      (replies.write (.write id.authority id.path (s.bytes codec) expected))
    simp only [save, saveInternal, wp_bind, wp_fetch]
    apply wp_of_runs establishes
    rw [wp_writeSnapshot directed authority path]
    refine wp_mono (handleReply_onward (Onward.refl true sourced') told.known told.deletes
      replies.read) ?_ fun _ _ failed => failed
    intro result u handled
    exact remember_onward handled.1 handled.2
  obtain ⟨late, further, silent⟩ := (after_of_wp follows).traffic
  refine ⟨early, reportsOf (.write id.authority id.path (s.bytes codec) expected) (.inl
    (replies.write (.write id.authority id.path (s.bytes codec) expected))) ++ late, ?_,
    reads rfl, ?_, ?_⟩
  · have whole : (save codec env replies s).2.traffic =
        s.traffic ++ (early ++ exchange id (s.bytes codec) expected replies.write ++ late) := by
      rw [show (save codec env replies s).2 = (save codec env replies).after s from rfl, further,
        SyncBuffer.log_traffic, grown]
      simp only [List.append_assoc]
    rw [newTraffic, whole, List.drop_left]
    simp [exchange]
    rfl
  · intro e member
    rcases List.mem_append.mp member with told | fresh
    · exact reportsOf_reads _ _ e told
    · exact silent rfl e fresh
  · intro token there
    rw [← grown]
    exact expected_known sourced onward based (s.bytes codec) visiting there

end Save

/-- The precondition is there if the retry state or BASE has a revision. -/
theorem expectedRevision_isSome (state : Option Dispute) (base : LooseBase) (localBytes : Bytes) :
    (expectedRevision state (some base) localBytes).isSome = true ↔
      base.revision.isSome = true ∨
        (retryRevision state (some base) localBytes).isSome = true := by
  unfold expectedRevision
  cases retryRevision state (some base) localBytes <;> simp

/-- A file "a" is visited, and a `b` is typed. -/
def typed : SyncBuffer :=
  [.insert "/relay:h:/f" 0 true false none (.ok [97] (sampleToken 1)),
    .edit (.whole ['a', 'b'])].foldl (step asciiCodec) {}

def accepting : Replies := ⟨.failed none, fun _ => .ok (sampleToken 2), .failed none⟩

/-- A buffer made to visit a file by its name alone. -/
def manual : SyncBuffer := step asciiCodec {} (.rename (some "/relay:h:/f"))

end EmacsRelay.Synchronous

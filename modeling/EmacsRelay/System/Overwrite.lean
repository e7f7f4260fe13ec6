import EmacsRelay.System.Saving

set_option autoImplicit false

/- What a save replaces was held by the buffer. A save goes out with a precondition that belongs to
bytes its operation holds, and the server publishes it over nothing but what meets that. -/
namespace EmacsRelay

open RelaySave Routine

theorem Stage.isFlushed_after (stage : Stage) (request : Call) :
    (stage.after request).isFlushed = Underway.flushedAfter stage.isFlushed request := by
  cases stage <;> cases request <;> rfl

/-- The second check is yet to begin only after a flush. -/
theorem Stage.after_flushed {stage : Stage} {request : Call}
    (flushed : stage.after request = .flushed) :
    stage ≠ .checking ∧ ∃ file, request = .syncAll file := by
  cases request with
  | syncAll file =>
      refine ⟨?_, file, rfl⟩
      rintro rfl
      cases flushed
  | _ => cases stage <;> cases flushed

/-- Nothing is published by a call that only looks. -/
theorem publishes_not_harmless {path : Path} {request : Call} (publishes : request.Publishes) :
    ¬ request.Harmless path := by
  cases request with
  | rename _ _ => exact id
  | hardLink _ _ => exact id
  | _ => exact publishes.elim

theorem looking_not_leads {α : Type} {path : Path} {program : Program Call Answer α}
    (looks : Program.wp (looking path).rule program (fun _ _ => True) ()) :
    ¬ program.Leads Call.Publishes := by
  induction program with
  | done value => exact id
  | call request next ih =>
      rintro (publishes | ⟨answer, leads⟩)
      · exact publishes_not_harmless publishes looks.1
      · exact ih answer (looks.2 answer) leads

theorem contentAt_of_revisionAt {d : Disk} {path : Path} {read : RevisionRead}
    (readable : d.revisionAt path = .ok read) :
    d.contentAt path = some read.bytes ∧ read.revision.sha256 = sha256 read.bytes := by
  unfold Disk.revisionAt at readable
  unfold Disk.contentAt
  cases looked : d.lstat path with
  | error e =>
      rw [looked] at readable
      cases readable
  | ok metadata =>
      rw [looked] at readable
      simp only [Metadata.read] at readable
      split at readable
      · cases readable
      · rename_i bytes _ kind
        split at readable
        · split at readable
          · cases readable
            simp [kind, Revision.fromMetadata]
          · cases readable
        · cases readable
      · cases readable

/-- The save was to create its file and has, or it replaced bytes whose digest is that of bytes which
its operation holds. -/
def Replacement.Matches (c : Setting) (replacement : Replacement) : Prop :=
  let path := replacement.request.location c.reader
  (∃ authority name bytes, replacement.request = .write authority name bytes (some .missing)) ∧
      replacement.disk.lstat path = .error .notFound ∨
    ∃ found held, replacement.disk.contentAt path = some found ∧
      replacement.operation.Holds held ∧ sha256 held = sha256 found

section Threads

variable {c : Setting} {holder : Option ThreadId} {stage : Stage} {host : Host} {id : ThreadId}

/-- What a thread answers is vouched for; without the lock it only looks, and a save of the buffer
is published over what its precondition stands for, whatever others do before its second check. -/
structure Thread.Ok (c : Setting) (holder : Option ThreadId) (stage : Stage) (host : Host)
    (id : ThreadId) (thread : Thread) : Prop where
  vouched : ∀ request, thread.task.request = some request →
    Program.wp AnyHost thread.rest
      (fun reply _ => ∀ answer, reply = some answer → request.Vouched answer) ()
  looks : thread.task.mutates = false →
    ∃ path, Program.wp (looking path).rule thread.rest (fun _ _ => True) ()
  locked : thread.task.mutates = true → holder = some id ∨ ∃ reply, thread.rest = .done reply
  anchored : ∀ rpc request, thread.task = .call rpc → rpc.request = some request →
    rpc.callback.operation.Anchored request
  checks : ∀ rpc request, thread.task = .call rpc → rpc.request = some request →
    thread.rest.Leads Call.Publishes →
    ∃ authority path bytes token published,
      request = .write authority path bytes (some token) ∧
      ∀ after : Host, (stage = .checking →
          after.disk.lstat (request.location c.reader) =
            host.disk.lstat (request.location c.reader)) →
        Program.wp (Checking c.process (request.location c.reader) token.expected) thread.rest
          (fun _ _ => True) ⟨after, stage.isFlushed, published⟩

/-- A thread that is to publish a save holds the lock. -/
theorem Thread.Ok.leads {thread : Thread} (ok : thread.Ok c holder stage host id)
    (leads : thread.rest.Leads Call.Publishes) : thread.task.mutates = true ∧ holder = some id := by
  have mutates : thread.task.mutates = true := by
    by_contra not
    obtain ⟨path, looks⟩ := ok.looks (by simpa using not)
    exact looking_not_leads looks leads
  refine ⟨mutates, (ok.locked mutates).resolve_right ?_⟩
  rintro ⟨reply, ended⟩
  rw [ended] at leads
  exact leads

/-- A thread that has no more to do under the lock minds nothing. -/
theorem Thread.Ok.aside {thread : Thread} (ok : thread.Ok c holder stage host id)
    (idle : thread.task.mutates = true → ∃ reply, thread.rest = .done reply)
    (holder' : Option ThreadId) (stage' : Stage) (host' : Host) :
    thread.Ok c holder' stage' host' id where
  vouched := ok.vouched
  looks := ok.looks
  locked mutates := .inr (idle mutates)
  anchored := ok.anchored
  checks rpc request same sent leads := by
    obtain ⟨reply, ended⟩ := idle (ok.leads leads).1
    rw [ended] at leads
    exact leads.elim

/-- Others change the machine, but not the file of a save between its second check and its
publication. -/
theorem Thread.Ok.changed {thread : Thread} (ok : thread.Ok c holder stage host id) {host' : Host}
    (still : ∀ rpc request, holder = some id → stage = .checking → thread.task = .call rpc →
      rpc.request = some request → thread.rest.Leads Call.Publishes →
      host'.disk.lstat (request.location c.reader) = host.disk.lstat (request.location c.reader)) :
    thread.Ok c holder stage host' id where
  vouched := ok.vouched
  looks := ok.looks
  locked := ok.locked
  anchored := ok.anchored
  checks rpc request same sent leads := by
    obtain ⟨authority, path, bytes, token, published, write, checks⟩ :=
      ok.checks rpc request same sent leads
    refine ⟨authority, path, bytes, token, published, write, fun after agrees => checks after ?_⟩
    intro checking
    exact (agrees checking).trans (still rpc request (ok.leads leads).2 checking same sent leads)

section Calls

variable {task : Task} {request : Call} {next : Answer request → Program Call Answer (Option AnyReply)}
  {choice : KernelChoice}

/-- What a thread does at a call leaves it as it should be. -/
theorem Thread.Ok.called (ok : Thread.Ok c holder stage host id ⟨task, .call request next⟩)
    (allowed : Host.Allows request choice host)
    (turn : task.mutates = true → holder = some id) :
    let result := Host.exec c.process request choice host
    Thread.Ok c holder (if task.mutates then stage.after request else stage) result.2 id
      ⟨task, next result.1⟩ where
  vouched asked sent :=
    ok.vouched asked sent (fun other => (Host.exec c.process other choice host).1) trivial
  looks reads := by
    obtain ⟨path, looks⟩ := ok.looks reads
    exact ⟨path, looks.2 _⟩
  locked mutates := .inl (turn mutates)
  anchored := ok.anchored
  checks rpc asked same sent leads := by
    have led : (Program.call request next).Leads Call.Publishes := .inr ⟨_, leads⟩
    obtain ⟨authority, path, bytes, token, published, write, checks⟩ :=
      ok.checks rpc asked same sent led
    rw [if_pos (ok.leads led).1]
    refine ⟨authority, path, bytes, token,
      Underway.publishedAfter published host.disk request (Host.exec c.process request choice host).1,
      write, ?_⟩
    have here := (checking_call (checks host fun _ => rfl) allowed).2
    simp only [← Stage.isFlushed_after] at here
    intro after agrees
    cases later : stage.after request with
    | checking => exact checking_changed (later ▸ here) after fun _ => agrees later
    | preparing =>
        exact checking_changed (later ▸ here) after fun flushed => absurd flushed Bool.false_ne_true
    | flushed =>
        -- A flush looks at no path, so it may as well have been made on the later machine.
        obtain ⟨unchecked, file, rfl⟩ := Stage.after_flushed later
        have there := checks after fun checking => absurd checking unchecked
        have free : Host.Allows (.syncAll file) choice after := trivial
        exact (checking_call there free).2

/-- Where a save of the buffer is published is the disk that its precondition was checked on. -/
theorem mem_replaces {d : Disk} {answer : Answer request} {replacement : Replacement}
    (member : replacement ∈ task.replaces d request answer) :
    ∃ rpc asked, task = .call rpc ∧ rpc.request = some asked ∧
      replacement = ⟨asked, rpc.callback.operation, d⟩ ∧ request.Publishes ∧
      ∀ published, Underway.publishedAfter published d request answer = some d := by
  unfold Task.replaces at member
  split at member
  · rename_i asked callback found published
    rw [List.mem_singleton.mp member]
    unfold Underway.publishedAfter at published
    split at published
    · cases published
      exact ⟨_, asked, rfl, rfl, rfl, trivial, fun _ => rfl⟩
    · cases published
      exact ⟨_, asked, rfl, rfl, rfl, trivial, fun _ => rfl⟩
    · cases published
  · cases member

theorem matches_of_meets {op : Operation} {authority path : String} {bytes : Bytes} {token : Token}
    {disk : Disk} (anchored : op.Anchored (.write authority path bytes (some token)))
    (meets : disk.Meets ((Request.write authority path bytes (some token)).location c.reader)
      token.expected) :
    Replacement.Matches c ⟨.write authority path bytes (some token), op, disk⟩ := by
  cases token with
  | missing => exact .inl ⟨⟨authority, path, bytes, rfl⟩, meets⟩
  | present revision =>
      obtain ⟨found, readable⟩ := meets
      obtain ⟨content, digest⟩ := contentAt_of_revisionAt readable
      rcases anchored authority path bytes (.present revision) rfl with none | ⟨held, holds, known⟩
      · cases none
      · exact .inr ⟨found, held, content, holds, (known revision rfl).symm.trans digest⟩

theorem Thread.Ok.replaces (ok : Thread.Ok c holder stage host id ⟨task, .call request next⟩)
    (allowed : Host.Allows request choice host) {replacement : Replacement}
    (member : replacement ∈
      task.replaces host.disk request (Host.exec c.process request choice host).1) :
    replacement.Matches c := by
  obtain ⟨rpc, asked, same, sent, whole, publishes, found⟩ := mem_replaces member
  obtain ⟨authority, path, bytes, token, published, write, checks⟩ :=
    ok.checks rpc asked same sent (.inl publishes)
  have anchored := ok.anchored rpc asked same sent
  have clear := (checking_call (checks host fun _ => rfl) allowed).1
  rw [whole, write]
  rw [write] at anchored clear
  exact matches_of_meets anchored (clear host.disk (found published))

end Calls

/-- A thread begins as it should be. -/
theorem begun_ok (decodes : c.reader.Decodes) {task : Task}
    (locked : task.mutates = true → holder = some id)
    (anchored : ∀ rpc request, task = .call rpc → rpc.request = some request →
      rpc.callback.operation.Anchored request)
    (fresh : task.mutates = true → stage = .preparing) (number : Nat) :
    Thread.Ok c holder stage host id ⟨task, task.program c number⟩ where
  vouched request sent := by
    cases task with
    | call rpc =>
        have sent : rpc.request = some request := sent
        simp only [Task.program, sent]
        exact Request.handled_vouched decodes
    | editor asked =>
        cases sent
        exact Request.handled_vouched decodes
    | mutation asked => cases sent
  looks reads := by
    cases task with
    | call rpc =>
        cases sent : rpc.request with
        | none =>
            simp only [Task.program, sent]
            exact ⟨⟨[], ""⟩, trivial⟩
        | some request =>
            simp only [Task.mutates, sent] at reads
            simp only [Task.program, sent]
            exact Request.handled_looks reads
    | editor asked => exact Request.handled_looks reads
    | mutation asked => cases reads
  locked mutates := .inl (locked mutates)
  anchored := anchored
  checks rpc request same sent leads := by
    subst same
    simp only [Task.program, sent] at leads ⊢
    cases request with
    | read authority path =>
        obtain ⟨place, looks⟩ : ∃ place, Program.wp (looking place).rule
            ((Request.read authority path).handled c.reader c.process number) (fun _ _ => True) () :=
          Request.handled_looks rfl
        exact (looking_not_leads looks leads).elim
    | write authority path bytes expected =>
        obtain ⟨token, there, checks⟩ := Request.handled_checks decodes rfl leads
        rw [there] at checks ⊢
        rw [fresh (by simp [Task.mutates, sent, Request.isWrite])]
        exact ⟨authority, path, bytes, token, none, rfl, fun after _ => checks after⟩

end Threads

namespace World

variable {c : Setting} {w : World}

/-- The buffer holds bytes with digests of theirs, the threads are as they should be, and what was
replaced matches what was held. -/
structure Ok (c : Setting) (w : World) : Prop where
  client : Held digested w.client
  threads : ∀ id thread, w.threads id = some thread → thread.Ok c w.holder w.stage w.host id
  replaced : ∀ replacement ∈ w.replaced, replacement.Matches c

theorem fresh_ok (host : Host) : Ok c { host := host } where
  client :=
    { stored :=
        { home := trivial
          base := by simp [Machine.core]
          state := by simp [Machine.core]
          merges := by simp [Machine.core]
          active := by simp [Machine.core]
          queued := by simp [Machine.core]
          cache := by simp [Machine.core]
          rpcs := by simp [Machine.core] }
      settled := Settled.idle rfl (by simp) }
  threads _ _ there := by cases there
  replaced _ member := by cases member

/-- One thread goes on, and the others stay as they should be. -/
theorem threads_update {id : ThreadId} {thread : Thread} {holder : Option ThreadId} {stage : Stage}
    {host : Host} (one : thread.Ok c holder stage host id)
    (others : ∀ other thread, other ≠ id → w.threads other = some thread →
      thread.Ok c holder stage host other) :
    ∀ other thread', Function.update w.threads id (some thread) other = some thread' →
      thread'.Ok c holder stage host other := by
  intro other thread' there
  by_cases same : other = id
  · subst same
    rw [Function.update_self] at there
    rw [← Option.some.inj there]
    exact one
  · rw [Function.update_of_ne same] at there
    exact others other thread' same there

/-- Where a thread holds the lock, those that wait for it have not begun. -/
theorem Ok.idle (ok : w.Ok c) {id : ThreadId} {thread : Thread} (there : w.threads id = some thread)
    (other : w.holder ≠ some id) : thread.task.mutates = true → ∃ reply, thread.rest = .done reply :=
  fun mutates => ((ok.threads id thread there).locked mutates).resolve_left other

theorem begin_ok (ok : w.Ok c) (decodes : c.reader.Decodes) (id : ThreadId) {task : Task}
    (anchored : ∀ rpc request, task = .call rpc → rpc.request = some request →
      rpc.callback.operation.Anchored request) : (w.begin c id task).Ok c := by
  unfold begin
  dsimp only
  split
  · split
    · rename_i unlocked
      refine ⟨ok.client, threads_update ?_ ?_, ok.replaced⟩
      · exact begun_ok decodes (fun _ => rfl) anchored (fun _ => rfl) _
      · intro other thread _ there
        apply (ok.threads other thread there).aside (ok.idle there ?_)
        rw [unlocked]
        nofun
    · exact ok
  · rename_i reads
    refine ⟨ok.client, threads_update ?_ ?_, ok.replaced⟩
    · exact begun_ok decodes (fun mutates => absurd mutates reads) anchored
        (fun mutates => absurd mutates reads) _
    · exact fun other thread _ there => ok.threads other thread there

theorem called_ok (ok : w.Ok c) {id : ThreadId} {task : Task} {request : Call}
    {next : Answer request → Program Call Answer (Option AnyReply)} {choice : KernelChoice}
    (there : w.threads id = some ⟨task, .call request next⟩)
    (allowed : Host.Allows request choice w.host) (turn : task.mutates = true → w.holder = some id) :
    (w.called c id task request next choice).Ok c := by
  have own := ok.threads id _ there
  refine ⟨ok.client, threads_update (own.called allowed turn) ?_, ?_⟩
  · intro other thread differs met
    cases mutates : task.mutates with
    | true =>
        apply (ok.threads other thread met).aside (ok.idle met ?_)
        rw [turn mutates]
        exact fun same => differs (Option.some.inj same).symm
    | false =>
        obtain ⟨path, looks⟩ := own.looks mutates
        simp only [called, mutates, host_of_harmless looks.1]
        exact ok.threads other thread met
  · intro replacement member
    rcases List.mem_append.mp member with earlier | now
    · exact ok.replaced replacement earlier
    · exact own.replaces allowed now

theorem release_ok (ok : w.Ok c) {id : ThreadId} {thread : Thread} (holder : w.holder = some id)
    (there : w.threads id = some thread) (ended : ∃ reply, thread.rest = .done reply) :
    Ok c { w with holder := none } := by
  refine ⟨ok.client, ?_, ok.replaced⟩
  intro other thread' met
  apply (ok.threads other thread' met).aside
  by_cases same : other = id
  · subst same
    rw [Option.some.inj (met.symm.trans there)]
    exact fun _ => ended
  · apply ok.idle met
    rw [holder]
    exact fun held => same (Option.some.inj held).symm

theorem change_ok (ok : w.Ok c) {host : Host} (permitted : Permitted c w (.change host)) :
    Ok c { w with host := host } := by
  refine ⟨ok.client, ?_, ok.replaced⟩
  intro id thread there
  apply (ok.threads id thread there).changed
  intro rpc request holder checking same sent leads
  obtain ⟨task, rest⟩ := thread
  subst same
  exact permitted id rpc rest request holder checking there sent leads

section Client

/-- What the server has told is a digest. -/
theorem Ok.told (ok : w.Ok c) {authority path : String} {bytes : Bytes} {revision : Token}
    (told : w.Told authority path bytes revision) : Digested bytes revision := by
  obtain ⟨id, task, reply, there, _, ⟨asked, same⟩ | ⟨expected, asked, same⟩⟩ := told
  · have vouched := (ok.threads id _ there).vouched _ asked reply rfl
    rw [same] at vouched
    exact vouched
  · have vouched := (ok.threads id _ there).vouched _ asked reply rfl
    rw [same] at vouched
    exact vouched

/-- A reply that is lost vouches for nothing, and one that is not is the server's. -/
theorem Ok.heard (ok : w.Ok c) {number : Nat} {reply : AnyReply}
    (heard : Lost reply ∨ w.Answered number reply) {rpc : Rpc}
    (there : w.client.rpcs[number]? = some rpc) (request : Request)
    (sent : rpc.request = some request) : request.Vouched reply := by
  rcases heard with (⟨error, lost⟩ | ⟨error, lost⟩) | ⟨other, same, thread, _⟩
  · rw [lost]
    cases request <;> trivial
  · rw [lost]
    cases request <;> trivial
  · have own : other = rpc := Option.some.inj (same.symm.trans there)
    rw [own] at thread
    exact (ok.threads _ _ thread).vouched request sent reply rfl

/-- The callback of a conflict read may be put aside; what the other replies bring is sound. -/
theorem replied_held (ok : w.Ok c) {number : Nat} {reply : AnyReply} {env : Env}
    (heard : w.Heard (.reply number reply env))
    (unmistaken : w.Unmistaken (.client (.reply number reply env))) :
    Held digested (EmacsRelay.step c.codec w.client (.reply number reply env)) := by
  by_cases aside : ∃ rpc op reason read, w.client.rpcs[number]? = some rpc ∧
      rpc.callback = .conflictRead op reason ∧ reply = .inr read ∧
      (w.client.live && w.client.operationCurrent op) = false
  · obtain ⟨⟨request, callback⟩, op, reason, read, there, same, rfl, past⟩ := aside
    subst same
    have formed := (ok.client.stored.rpcs _ (List.mem_of_getElem? there)).formed
    simp only [EmacsRelay.step, there]
    split
    · let reports := Rpc.reports ⟨request, .conflictRead op reason⟩ (.inr read)
      have noted : HeldAt digested (w.client.history.reports ++ reports) (w.client.note reports) :=
        ⟨⟨ok.client.stored.note _, ok.client.settled⟩, rfl⟩
      exact (after_of_wp (conflictRead_aside noted formed.2.1 past reason read)).toHeld
    · exact ok.client
  · apply held_step ok.client
    intro rpc there accepted
    have own := ok.client.stored.rpcs rpc (List.mem_of_getElem? there)
    apply reply_sound own.mono accepted (ok.heard heard there)
    rintro op reason bytes revision callback rfl choice localBytes
    by_contra differs
    refine unmistaken rpc op reason there callback ⟨?_, choice, localBytes, differs⟩
    by_contra past
    exact aside ⟨rpc, op, reason, _, there, callback, rfl, by simpa using past⟩

/-- The buffer's own steps keep what it holds together with its digests. -/
theorem client_ok (ok : w.Ok c) {event : EmacsRelay.Event} (heard : w.Heard event)
    (unmistaken : w.Unmistaken (.client event)) :
    Ok c { w with client := EmacsRelay.step c.codec w.client event } := by
  refine ⟨?_, ok.threads, ok.replaced⟩
  show Held digested (EmacsRelay.step c.codec w.client event)
  cases event with
  | reply number reply env => exact replied_held ok heard unmistaken
  | reload bytes revision =>
      apply held_step ok.client
      exact fun id visited => ok.told (heard id visited)
  | prefetch authority path bytes revision =>
      apply held_step ok.client
      exact fun wanted => wanted.elim
  | _ => exact held_step ok.client trivial

/-- A file is visited with bytes that the server has read, or as a new one. -/
theorem visit_ok (ok : w.Ok c) {identity : Identity} {bytes : Bytes} {revision : Token}
    (permitted : Permitted c w (.visit identity bytes revision)) :
    Ok c { w with client := .opened c.codec identity bytes revision } := by
  refine ⟨opened_held trivial ?_, ok.threads, ok.replaced⟩
  rcases permitted with ⟨_, missing⟩ | told
  · rw [missing]
    exact digested_missing bytes
  · exact ok.told told

end Client

theorem Ok.step (ok : w.Ok c) (decodes : c.reader.Decodes) {event : Event}
    (permitted : Permitted c w event) (unmistaken : w.Unmistaken event) : (w.step c event).Ok c := by
  cases event with
  | client event => exact client_ok ok permitted unmistaken
  | visit identity bytes revision =>
      simp only [World.step]
      split
      · exact visit_ok ok permitted
      · exact ok
  | serve number =>
      simp only [World.step]
      split
      · rename_i rpc _ asked
        apply begin_ok ok decodes
        rintro rpc' request ⟨⟩ sent
        exact rpc_anchored (ok.client.stored.rpcs rpc (List.mem_of_getElem? asked)) sent
      · exact ok
  | ask number request =>
      simp only [World.step]
      split
      · apply begin_ok ok decodes
        intro rpc asked same
        cases same
      · exact ok
  | mutate number request =>
      simp only [World.step]
      split
      · apply begin_ok ok decodes
        intro rpc asked same
        cases same
      · exact ok
  | call id choice =>
      simp only [World.step]
      split
      · rename_i task request next there
        split
        · rename_i turn
          exact called_ok ok there (permitted task request next there) turn
        · exact ok
      · exact ok
  | release =>
      simp only [World.step]
      split
      · rename_i task reply met
        obtain ⟨id, holder, there⟩ := Option.bind_eq_some_iff.mp met
        exact release_ok ok holder there ⟨reply, rfl⟩
      · exact ok
  | change host => exact change_ok ok permitted

/-- In a run in which no read finds LOCAL where BASE was to be restored, a save replaces nothing but
bytes that its operation holds. -/
theorem replaced_held (decodes : c.reader.Decodes) {host : Host}
    (reached : Reached c (fun s event => Permitted c s event ∧ s.Unmistaken event) host w)
    (free : w.CollisionFree c) {replacement : Replacement} (member : replacement ∈ w.replaced) :
    replacement.Held c := by
  have ok : w.Ok c := Reaches.invariant (fresh_ok host)
    (fun s event ok permits => ok.step decodes permits.1 permits.2) reached
  rcases ok.replaced replacement member with missing | ⟨found, held, content, holds, digest⟩
  · exact .inl missing
  · have same : held = found :=
      free ⟨replacement, member, .inr holds⟩ ⟨replacement, member, .inl content⟩ digest
    exact .inr ⟨found, content, same ▸ holds⟩

section Sample

def pending (w : World) (id : ThreadId) : Option Call :=
  match w.threads id with
  | some ⟨_, .call request _⟩ => some request
  | _ => none

/-- A call that puts no new inode on the disk. -/
def makesNothing : Call → Bool
  | .createNew _ _ => false
  | .mkdir _ => false
  | .openCreate _ _ _ => false
  | _ => true

/-- A call that leaves the disk as it is. -/
def sparesDisk : Call → Bool
  | .lstat _ => true
  | .openRead _ => true
  | .fstat _ => true
  | .readFile _ => true
  | .read _ _ _ => true
  | .syncAll _ => true
  | .fetchAdd => true
  | _ => false

def hasAnswered (w : World) (number : Nat) (reply : AnyReply) : Bool :=
  match w.client.rpcs[number]?, w.threads (.own number) with
  | some rpc, some ⟨.call asked, .done (some sent)⟩ =>
      decide (asked = rpc ∧ sent = reply ∧ w.holder ≠ some (.own number))
  | _, _ => false

/-- The first request made elsewhere has read these bytes. -/
def hasRead (w : World) (identity : Identity) (bytes : Bytes) (revision : Token) : Bool :=
  match w.threads (.other 0) with
  | some ⟨.editor request, .done (some reply)⟩ =>
      decide (request = .read identity.authority identity.path ∧
        reply = .inr (.ok bytes revision) ∧ w.holder ≠ some (.other 0))
  | _ => false

/-- The event is permitted at sight; `untouched` says that the number for a new inode is still
free. -/
def plainly (c : Setting) (untouched : Bool) (w : World) : Event → Bool
  | .client (.edit _) => true
  | .client (.save _) => true
  | .client (.reply number reply _) => w.hasAnswered number reply
  | .client _ => false
  | .visit identity bytes revision => w.hasRead identity bytes revision
  | .serve number => (w.client.rpcs[number]?.bind (·.request)).all (·.authority == c.authority)
  | .ask _ request => request.authority == c.authority
  | .mutate _ _ => true
  | .call id choice => (w.pending id).all fun request =>
      makesNothing request || untouched && choice.fresh == sampleChoice.fresh
  | .release => true
  | .change _ => w.stage != .checking

def untouchedAfter (untouched : Bool) (w : World) : Event → Bool
  | .call id _ => untouched && (w.pending id).all sparesDisk
  | .change _ => true
  | _ => untouched

/-- Where a run of events ends that are all permitted at sight. -/
def attempt (c : Setting) (untouched : Bool) (w : World) : List Event → Option World
  | [] => some w
  | event :: events =>
      if w.plainly c untouched event then
        attempt c (w.untouchedAfter untouched event) (w.step c event) events
      else none

/-- The number that a new inode is to get is free. -/
def Roomy (host : Host) : Prop := ∀ dev, host.disk.Free ⟨dev, sampleChoice.fresh⟩

theorem permitted_of_plainly {untouched : Bool} (roomy : untouched = true → Roomy w.host)
    {event : Event} (test : w.plainly c untouched event = true) : Permitted c w event := by
  cases event with
  | client event =>
      cases event with
      | edit buffer => trivial
      | save env => trivial
      | reply number reply env =>
          simp only [plainly, hasAnswered] at test
          split at test
          · rename_i rpc asked sent there thread
            obtain ⟨same, replied, released⟩ := of_decide_eq_true test
            rw [same, replied] at thread
            exact .inr ⟨rpc, there, thread, released⟩
          · cases test
      | _ => cases test
  | visit identity bytes revision =>
      simp only [plainly, hasRead] at test
      split at test
      · rename_i request reply thread
        obtain ⟨asked, replied, released⟩ := of_decide_eq_true test
        refine .inr ⟨_, _, _, thread, released, .inl ⟨?_, replied⟩⟩
        rw [asked]
        rfl
      · cases test
  | serve number =>
      intro rpc request there sent
      simpa [plainly, there, sent] using test
  | ask number request => exact beq_iff_eq.mp test
  | mutate number request => trivial
  | call id choice =>
      intro task request next there
      simp only [plainly, pending, there, Option.all_some, Bool.or_eq_true, Bool.and_eq_true,
        beq_iff_eq] at test
      rcases test with nothing | ⟨here, number⟩
      · cases request with
        | createNew path mode => cases nothing
        | mkdir path => cases nothing
        | openCreate path mode truncate => cases nothing
        | _ => trivial
      · cases request with
        | createNew path mode => exact fun dir _ => number ▸ roomy here dir.dev
        | mkdir path => exact fun dir _ => number ▸ roomy here dir.dev
        | openCreate path mode truncate => exact fun slot _ => number ▸ roomy here slot.1.dev
        | _ => trivial
  | release => trivial
  | change host =>
      intro id rpc rest request _ checking
      simp [plainly, checking] at test

theorem begin_host (id : ThreadId) (task : Task) : (w.begin c id task).host = w.host := by
  unfold begin
  dsimp only
  split
  · split <;> rfl
  · rfl

theorem roomy_step {untouched : Bool} (roomy : untouched = true → Roomy w.host) {event : Event}
    (brought : ∀ host, event = .change host → Roomy host)
    (still : w.untouchedAfter untouched event = true) : Roomy (w.step c event).host := by
  cases event with
  | client event => exact roomy still
  | visit identity bytes revision =>
      simp only [World.step]
      split <;> exact roomy still
  | serve number =>
      simp only [World.step]
      split
      · rw [begin_host]
        exact roomy still
      · exact roomy still
  | ask number request =>
      simp only [World.step]
      split
      · rw [begin_host]
        exact roomy still
      · exact roomy still
  | mutate number request =>
      simp only [World.step]
      split
      · rw [begin_host]
        exact roomy still
      · exact roomy still
  | call id choice =>
      obtain ⟨here, spared⟩ := Bool.and_eq_true_iff.mp still
      simp only [World.step]
      split
      · rename_i task request next there
        split
        · simp only [pending, there, Option.all_some] at spared
          have same : (Host.exec c.process request choice w.host).2.disk = w.host.disk := by
            cases request <;> first | rfl | cases spared
          intro dev
          simp only [called, same]
          exact roomy here dev
        · exact roomy here
      · exact roomy here
  | release =>
      simp only [World.step]
      split <;> exact roomy still
  | change host => exact brought host rfl

theorem along_of_attempt {untouched : Bool} {events : List Event} {after : World}
    (roomy : untouched = true → Roomy w.host)
    (brought : ∀ host, .change host ∈ events → Roomy host)
    (passed : w.attempt c untouched events = some after) :
    Reaches.Along (World.step c) (Permitted c) w events ∧ events.foldl (World.step c) w = after := by
  induction events generalizing w untouched with
  | nil => exact ⟨trivial, Option.some.inj passed⟩
  | cons event events ih =>
      unfold attempt at passed
      split at passed
      · rename_i test
        have next := ih (roomy_step roomy (fun host same => brought host (same ▸ List.mem_cons_self)))
          (fun host member => brought host (List.mem_cons_of_mem _ member)) passed
        exact ⟨⟨permitted_of_plainly roomy test, next.1⟩, next.2⟩
      · cases passed

/-- The standard decoder. -/
def strictReader : Reader where
  home := none
  decode text :=
    match base64Decode text.toList with
    | some bytes => .ok bytes
    | none => .error "Invalid byte"
  locate _ := ⟨[], "f"⟩

theorem strictReader_decodes : strictReader.Decodes := by
  intro bytes
  simp [strictReader, base64Decode_encode]

def sampleSetting : Setting := ⟨asciiCodec, strictReader, sampleProcess, "h"⟩

/-- The file holds these bytes since this second. -/
def holding (bytes : Bytes) (sec : Int) : Node :=
  ⟨.file bytes, 0o644, 1000, 1000, 1, ⟨sec, 0⟩, ⟨sec, 0⟩⟩

def hostHolding (bytes : Bytes) (sec : Int) : Host :=
  { sampleHost with disk := sampleDisk.setNode ⟨1, 10⟩ (holding bytes sec) }

def revisionHolding (bytes : Bytes) (sec : Int) : Token :=
  .present (.fromMetadata ⟨⟨1, 10⟩, holding bytes sec⟩ (sha256 bytes))

theorem hostHolding_roomy (bytes : Bytes) (sec : Int) : Roomy (hostHolding bytes sec) :=
  fun _ => sampleDisk_free (by decide)

def callsOf (id : ThreadId) (count : Nat) : List Event :=
  List.replicate count (.call id sampleChoice)

/-- The file, which holds "a", is visited, edited and saved. -/
def visited : List Event :=
  .ask 0 (.read "h" "/f") :: callsOf (.other 0) 6 ++
    [.visit ⟨"/relay:h:/f", "h", "/f"⟩ [97] (revisionHolding [97] 5),
      .client (.edit (.whole ['a', 'b'])), .client (.save {})]

/-- The save is published. -/
def savedOnce : List Event := visited ++ .serve 0 :: callsOf (.own 0) 22

/-- What a replacement is judged by. -/
def judged (c : Setting) (replacement : Replacement) :
    Option Bytes × Option Bytes × Option ConflictState :=
  (replacement.disk.contentAt (replacement.request.location c.reader),
    replacement.operation.base.bind (·.bytes), replacement.operation.snapshot)

section Judged

variable {replacement : Replacement} {found base : Bytes}

theorem holds_of_judged (same : judged c replacement = (some found, some base, none))
    (bytes : Bytes) : replacement.operation.Holds bytes ↔ bytes = base := by
  simp only [judged, Prod.mk.injEq] at same
  obtain ⟨_, known, none⟩ := same
  obtain ⟨b, there, content⟩ := Option.bind_eq_some_iff.mp known
  simp [Operation.Holds, there, content, none, eq_comm]

theorem held_of_judged (same : judged c replacement = (some found, some base, none)) :
    replacement.Held c ↔ found = base := by
  have there : replacement.disk.contentAt (replacement.request.location c.reader) = some found :=
    congrArg Prod.fst same
  constructor
  · rintro (⟨_, absent⟩ | ⟨bytes, content, holds⟩)
    · simp only [Disk.contentAt, absent] at there
      cases there
    · rw [Option.some.inj (there.symm.trans content)]
      exact (holds_of_judged same bytes).mp holds
  · intro equal
    exact .inr ⟨found, there, (holds_of_judged same found).mpr equal⟩

theorem collisionFree_of_judged
    (one : w.replaced.map (judged c) = [(some found, some base, none)])
    (apart : sha256 found = sha256 base → found = base) : w.CollisionFree c := by
  obtain ⟨replacement, only, same⟩ := List.map_eq_singleton_iff.mp one
  have among : ∀ bytes, (∃ other ∈ w.replaced,
      other.disk.contentAt (other.request.location c.reader) = some bytes ∨
        other.operation.Holds bytes) → bytes = found ∨ bytes = base := by
    rintro bytes ⟨other, member, met⟩
    rw [only, List.mem_singleton] at member
    subst member
    have there : other.disk.contentAt (other.request.location c.reader) = some found :=
      congrArg Prod.fst same
    rw [there, Option.some.injEq, holds_of_judged same] at met
    exact met.imp_left Eq.symm
  intro one first two second digest
  rcases among one first with rfl | rfl <;> rcases among two second with rfl | rfl
  · rfl
  · exact apart digest
  · exact (apart digest.symm).symm
  · rfl

end Judged

/-- A reply by which a conflict read succeeds. -/
def Event.reads : Event → Bool
  | .client (.reply _ (.inr _) _) => true
  | _ => false

theorem unmistaken_of_not_reads {event : Event} (other : event.reads = false) (w : World) :
    w.Unmistaken event := by
  unfold Unmistaken
  split
  · cases other
  · trivial

theorem along_unmistaken {events : List Event} (none : events.all (!·.reads) = true) :
    Reaches.Along (World.step c) (fun s event => s.Unmistaken event) w events := by
  induction events generalizing w with
  | nil => trivial
  | cons event events ih =>
      obtain ⟨first, rest⟩ := Bool.and_eq_true_iff.mp (List.all_cons ▸ none)
      exact ⟨unmistaken_of_not_reads (by simpa using first) w, ih rest⟩

/-- A run on permitted events, from a file that holds "a", in which one save is published. -/
theorem run_of_judgement {events : List Event} {found base : Bytes}
    (brought : ∀ host, .change host ∈ events → Roomy host)
    (judgement : (attempt sampleSetting true { host := hostHolding [97] 5 } events).map
      (·.replaced.map (judged sampleSetting)) = some [(some found, some base, none)]) :
    ∃ w, events.foldl (World.step sampleSetting) { host := hostHolding [97] 5 } = w ∧
      Reaches.Along (World.step sampleSetting) (Permitted sampleSetting)
        { host := hostHolding [97] 5 } events ∧
      w.replaced.map (judged sampleSetting) = [(some found, some base, none)] ∧
      ∃ replacement ∈ w.replaced,
        judged sampleSetting replacement = (some found, some base, none) := by
  obtain ⟨w, passed, one⟩ := Option.map_eq_some_iff.mp judgement
  obtain ⟨along, ends⟩ := along_of_attempt (fun _ => hostHolding_roomy _ _) brought passed
  obtain ⟨replacement, only, same⟩ := List.map_eq_singleton_iff.mp one
  refine ⟨w, ends, along, one, replacement, ?_, same⟩
  rw [only]
  exact List.mem_singleton_self _

/-- A save is published over what was visited. -/
theorem replaced_held_saved :
    ∃ w, Reached sampleSetting (fun s event => Permitted sampleSetting s event ∧ s.Unmistaken event)
        (hostHolding [97] 5) w ∧
      ∃ replacement ∈ w.replaced, replacement.Held sampleSetting := by
  have brought : ∀ host, .change host ∈ savedOnce → Roomy host :=
    fun host member => by simp [savedOnce, visited, callsOf] at member
  have judgement : (attempt sampleSetting true { host := hostHolding [97] 5 } savedOnce).map
      (·.replaced.map (judged sampleSetting)) = some [(some [97], some [97], none)] := by
    decide +kernel
  obtain ⟨w, ends, along, one, replacement, member, _⟩ := run_of_judgement brought judgement
  have reached := Reaches.of_along .refl (along.and (along_unmistaken (by decide)))
  rw [ends] at reached
  exact ⟨w, reached, replacement, member,
    replaced_held strictReader_decodes reached (collisionFree_of_judged one fun _ => rfl) member⟩

def refusedChanged : AnyReply :=
  .inl (.refused (some .conflict) (some .changed) (some "write conflict: remote file changed"))

/-- The file is changed to "z", BASE is restored, and meanwhile LOCAL is put there by someone else.
That is taken for the restored BASE, and the next save replaces it. -/
def deceived : List Event :=
  visited ++ .change (hostHolding [122] 6) :: .serve 0 :: callsOf (.own 0) 7 ++
    [.release, .client (.reply 0 refusedChanged {}), .serve 1] ++ callsOf (.own 1) 6 ++
    [.client (.reply 1 (.inr (.ok [122] (revisionHolding [122] 6))) {}),
      .client (.save { key := .choice .restoreBase }), .change (hostHolding [97, 98] 7),
      .serve 2] ++ callsOf (.own 2) 7 ++
    [.release, .client (.reply 2 refusedChanged {}), .serve 3] ++ callsOf (.own 3) 6 ++
    [.client (.reply 3 (.inr (.ok [97, 98] (revisionHolding [97, 98] 7))) {}),
      .client (.edit (.whole ['a', 'c'])), .client (.save {}), .serve 4] ++ callsOf (.own 4) 22

/-- A save replaces "ab", and was made from "a". -/
theorem save_replaces_unheld :
    ¬ ∀ (c : Setting) (host : Host) (w : World), c.reader.Decodes →
      Reached c (Permitted c) host w → w.CollisionFree c →
      ∀ replacement ∈ w.replaced, replacement.Held c := by
  intro holds
  have brought : ∀ host, .change host ∈ deceived → Roomy host := by
    intro host member
    simp only [deceived, visited, callsOf, List.mem_append, List.mem_cons, List.mem_replicate,
      Event.change.injEq, reduceCtorEq, and_false, or_false, false_or, List.not_mem_nil] at member
    rcases member with rfl | rfl <;> exact hostHolding_roomy _ _
  have judgement : (attempt sampleSetting true { host := hostHolding [97] 5 } deceived).map
      (·.replaced.map (judged sampleSetting)) = some [(some [97, 98], some [97], none)] := by
    decide +kernel
  obtain ⟨w, ends, along, one, replacement, member, same⟩ := run_of_judgement brought judgement
  have reached := Reaches.of_along .refl along
  rw [ends] at reached
  have apart : sha256 [97, 98] = sha256 [97] → ([97, 98] : Bytes) = [97] :=
    fun same => absurd same (by decide +kernel)
  have held := holds sampleSetting _ w strictReader_decodes reached
    (collisionFree_of_judged one apart) replacement member
  exact absurd ((held_of_judged same).mp held) (by decide)

end Sample

end World

end EmacsRelay

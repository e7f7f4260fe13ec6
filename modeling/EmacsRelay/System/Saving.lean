import EmacsRelay.Server.Exclusive
import EmacsRelay.System.Exchange
import Mathlib.Data.Set.Function

set_option autoImplicit false

/- The buffer that visits a file, the server that reads and saves the file for it, and all that others
do meanwhile. What a save of the buffer replaces is what the buffer held. -/
namespace EmacsRelay

open FsHandlers (handleFs)
open RelaySave Routine

/-- What the client and the server are. -/
structure Setting where
  codec : Codec
  reader : Reader
  process : Process
  authority : String

/-- A thread of the server: one for each call of the buffer, and others. -/
inductive ThreadId where
  | own (number : Nat)
  | other (number : Nat)
deriving DecidableEq, Repr

def ThreadId.number : ThreadId → Nat
  | .own number => number
  | .other number => number

/-- What it serves: a call of the buffer, a request made elsewhere in the editor, or a mutation for
whomever. -/
inductive Task where
  | call (rpc : Rpc)
  | editor (request : Request)
  | mutation (request : FsRequest)

namespace Task

def request : Task → Option Request
  | .call rpc => rpc.request
  | .editor request => some request
  | .mutation _ => none

/-- It needs the mutation lock. -/
def mutates : Task → Bool
  | .call rpc => rpc.request.elim false Request.isWrite
  | .editor request => request.isWrite
  | .mutation _ => true

def program (c : Setting) (id : Nat) : Task → Program Call Answer (Option AnyReply)
  | .call rpc => rpc.request.elim (.done none) (·.handled c.reader c.process id)
  | .editor request => request.handled c.reader c.process id
  | .mutation request => Program.bind (handleFs c.process request) fun _ => .done none

end Task

structure Thread where
  task : Task
  rest : Program Call Answer (Option AnyReply)

/-- How far the conditional write has come that holds the mutation lock: its temporary file is
flushed, and then the second check is under way or passed. -/
inductive Stage where
  | preparing
  | flushed
  | checking
deriving DecidableEq, Repr

namespace Stage

/-- The first call after the flush is that of the second check. -/
def after : Stage → Call → Stage
  | _, .rename _ _ => .preparing
  | _, .hardLink _ _ => .preparing
  | .preparing, .syncAll _ => .flushed
  | .flushed, .syncAll _ => .flushed
  | .flushed, _ => .checking
  | stage, _ => stage

def isFlushed : Stage → Bool
  | .preparing => false
  | _ => true

end Stage

/-- A save of the buffer was published over this disk. -/
structure Replacement where
  request : Request
  operation : Operation
  disk : Disk

/-- What a call replaces, when it is made for a save of the buffer. -/
def Task.replaces (task : Task) (d : Disk) (request : Call) (answer : Answer request) :
    List Replacement :=
  match task, Underway.publishedAfter none d request answer with
  | .call ⟨some request, callback⟩, some found => [⟨request, callback.operation, found⟩]
  | _, _ => []

/-- The buffer, the machine with the file, and who holds the mutation lock. `replaced` is kept for
stating properties. -/
structure World where
  client : Machine := { fileName := none, buffer := .whole [] }
  host : Host
  holder : Option ThreadId := none
  stage : Stage := .preparing
  threads : ThreadId → Option Thread := fun _ => none
  replaced : List Replacement := []

namespace World

inductive Event where
  /-- The buffer takes a step of its own, or hears of a reply. -/
  | client (event : EmacsRelay.Event)
  | visit (identity : Identity) (bytes : Bytes) (revision : Token)
  /-- The server begins with a call of the buffer, however late. -/
  | serve (number : Nat)
  /-- It begins with another request of the editor: for a visit, a reload, a prefetch, the save of
  another buffer. -/
  | ask (number : Nat) (request : Request)
  | mutate (number : Nat) (request : FsRequest)
  | call (id : ThreadId) (choice : KernelChoice)
  | release
  | change (host : Host)

section Step

variable (c : Setting) (w : World)

def begin (id : ThreadId) (task : Task) : World :=
  let threads := Function.update w.threads id (some ⟨task, task.program c id.number⟩)
  if task.mutates then
    if w.holder = none then { w with holder := some id, stage := .preparing, threads := threads }
    else w
  else { w with threads := threads }

/-- A thread makes a call. -/
def called (id : ThreadId) (task : Task) (request : Call)
    (next : Answer request → Program Call Answer (Option AnyReply)) (choice : KernelChoice) : World :=
  let result := Host.exec c.process request choice w.host
  { w with
    host := result.2
    stage := if task.mutates then w.stage.after request else w.stage
    threads := Function.update w.threads id (some ⟨task, next result.1⟩)
    replaced := w.replaced ++ task.replaces w.host.disk request result.1 }

def step : Event → World
  | .client event => { w with client := EmacsRelay.step c.codec w.client event }
  | .visit identity bytes revision =>
      if w.client.fileName = none ∧ w.client.rpcs = [] then
        { w with client := .opened c.codec identity bytes revision }
      else w
  | .serve number =>
      match w.threads (.own number), w.client.rpcs[number]? with
      | none, some rpc => w.begin c (.own number) (.call rpc)
      | _, _ => w
  | .ask number request =>
      match w.threads (.other number) with
      | none => w.begin c (.other number) (.editor request)
      | some _ => w
  | .mutate number request =>
      match w.threads (.other number) with
      | none => w.begin c (.other number) (.mutation request)
      | some _ => w
  | .call id choice =>
      match w.threads id with
      | some ⟨task, .call request next⟩ =>
          if task.mutates = true → w.holder = some id then w.called c id task request next choice
          else w
      | _ => w
  | .release =>
      match w.holder.bind w.threads with
      | some ⟨_, .done _⟩ => { w with holder := none }
      | _ => w
  | .change host => { w with host := host }

end Step

/-- The pair of a reply that the server has sent to the client. -/
def Told (w : World) (authority path : String) (bytes : Bytes) (revision : Token) : Prop :=
  ∃ id task reply, w.threads id = some ⟨task, .done (some reply)⟩ ∧ w.holder ≠ some id ∧
    (task.request = some (.read authority path) ∧ reply = .inr (.ok bytes revision) ∨
      ∃ expected, task.request = some (.write authority path bytes expected) ∧
        reply = .inl (.ok revision))

/-- The server has replied to the call of this number. -/
def Answered (w : World) (number : Nat) (reply : AnyReply) : Prop :=
  ∃ rpc, w.client.rpcs[number]? = some rpc ∧
    w.threads (.own number) = some ⟨.call rpc, .done (some reply)⟩ ∧ w.holder ≠ some (.own number)

/-- The client gives up on a call, or hears that a read has failed. -/
def Lost (reply : AnyReply) : Prop :=
  (∃ error, reply = .inl (.transport error)) ∨ ∃ error, reply = .inr (.failed error)

/-- Where the bytes and revisions that reach the buffer come from. -/
def Heard (w : World) : EmacsRelay.Event → Prop
  | .reply number reply _ => Lost reply ∨ w.Answered number reply
  | .reload bytes revision => ∀ id, w.client.fileIdentity = some id →
      w.Told id.authority id.path bytes revision
  | .prefetch authority path bytes revision => w.Told authority path bytes revision
  | _ => True

/-- Calls of the buffer are served where they belong, and others do not touch the file of a save of
the buffer between its second check and its publication. -/
def Permitted (c : Setting) (w : World) : Event → Prop
  | .client event => w.Heard event
  | .visit identity bytes revision =>
      bytes = [] ∧ revision = .missing ∨ w.Told identity.authority identity.path bytes revision
  | .serve number => ∀ rpc request, w.client.rpcs[number]? = some rpc → rpc.request = some request →
      request.authority = c.authority
  | .ask _ request => request.authority = c.authority
  | .mutate _ _ => True
  | .call id choice => ∀ task request next, w.threads id = some ⟨task, .call request next⟩ →
      Host.Allows request choice w.host
  | .release => True
  | .change host => ∀ id rpc rest request, w.holder = some id → w.stage = .checking →
      w.threads id = some ⟨.call rpc, rest⟩ → rpc.request = some request →
      rest.Leads Call.Publishes →
      host.disk.lstat (request.location c.reader) = w.host.disk.lstat (request.location c.reader)

/-- The states of a system that starts with an empty buffer. -/
abbrev Reached (c : Setting) (permitted : World → Event → Prop) (host : Host) (w : World) : Prop :=
  Reaches (step c) permitted { host := host } w

end World

/-- The bytes that an operation is made from: its BASE, or REMOTE of the conflict it resolves. -/
def Operation.Holds (op : Operation) (bytes : Bytes) : Prop :=
  (∃ base, op.base = some base ∧ base.bytes = some bytes) ∨
    ∃ st remote, op.snapshot = some st ∧ st.remote = some remote ∧ remote.bytes = bytes

/-- The save was to create its file and has, or it replaced bytes that its operation holds. -/
def Replacement.Held (c : Setting) (replacement : Replacement) : Prop :=
  let path := replacement.request.location c.reader
  (∃ authority name bytes, replacement.request = .write authority name bytes (some .missing)) ∧
      replacement.disk.lstat path = .error .notFound ∨
    ∃ bytes, replacement.disk.contentAt path = some bytes ∧ replacement.operation.Holds bytes

namespace World

/-- SHA-256 tells the contents apart that the saves have replaced and that they were made from. -/
def CollisionFree (c : Setting) (w : World) : Prop :=
  Set.InjOn sha256 {bytes | ∃ replacement ∈ w.replaced,
    replacement.disk.contentAt (replacement.request.location c.reader) = some bytes ∨
      replacement.operation.Holds bytes}

/-- A read that finds LOCAL where BASE was to be restored is taken for the restored BASE. -/
def Mistaken (m : Machine) (op : Operation) (bytes : Bytes) : Prop :=
  (m.live && m.operationCurrent op) = true ∧ op.choice = some .restoreBase ∧
    op.snapshot.bind (·.localBytes) = some bytes ∧ op.bytes ≠ some bytes

/-- No read after a refused restoration of BASE finds LOCAL, unless that is BASE. -/
def Unmistaken (w : World) : Event → Prop
  | .client (.reply number (.inr (.ok bytes _)) _) => ∀ rpc op reason,
      w.client.rpcs[number]? = some rpc → rpc.callback = .conflictRead op reason →
      ¬ Mistaken w.client op bytes
  | _ => True

end World

section Client

variable {c : Setting} {m : Machine} {op : Operation}

/-- Revisions are those of the bytes that are held with them. -/
def digested : Policy where
  good _ := Digested
  mono digest := digest
  interest _ := False
  home _ := True

theorem digested_missing (bytes : Bytes) : Digested bytes .missing := nofun

/-- A precondition of an operation belongs to bytes that it holds. -/
def Operation.Anchored (op : Operation) (request : Request) : Prop :=
  ∀ authority path bytes token, request = .write authority path bytes (some token) →
    token = .missing ∨ ∃ held, op.Holds held ∧ Digested held token

theorem expected_anchored {reports : List Report} (ok : digested.OpOk reports op) {token : Token}
    (expected : digested.ExpectedOk reports op token) :
    token = .missing ∨ ∃ held, op.Holds held ∧ Digested held token := by
  refine expected.imp_right fun known => ?_
  rcases known with ⟨base, bytes, there, same, digest⟩ | ⟨st, remote, there, known, same⟩
  · exact ⟨bytes, .inl ⟨base, there, same⟩, digest⟩
  · refine ⟨remote.bytes, .inr ⟨st, remote, there, known, rfl⟩, ?_⟩
    rw [← same]
    exact ((ok.snapshot st there).remote remote known).1

theorem rpc_anchored {reports : List Report} {rpc : Rpc} (ok : digested.RpcOk reports rpc)
    {request : Request} (sent : rpc.request = some request) :
    rpc.callback.operation.Anchored request := by
  obtain ⟨asked, callback⟩ := rpc
  have whole := ok.operation
  have formed := ok.formed
  dsimp only at sent
  subst sent
  have reads : ∀ identity, some request = prepareRead identity →
      callback.operation.Anchored request := by
    intro identity read authority path bytes token same
    obtain ⟨_, _, _, _, other⟩ := prepareRead_some read.symm
    rw [same] at other
    cases other
  cases callback with
  | writeDone op =>
      intro authority path bytes token same
      obtain ⟨_, _, _, _, _, _, other⟩ := prepareWrite_some formed.2.symm
      rw [same] at other
      injection other with _ _ _ expected
      exact expected_anchored whole (whole.expected token expected.symm)
  | mergeWriteDone op =>
      intro authority path bytes token same
      obtain ⟨_, known, prepared, resolved⟩ := formed
      obtain ⟨_, _, _, _, _, _, other⟩ := prepareWrite_some prepared.symm
      rw [same] at other
      cases other
      obtain ⟨remote, bound, revision⟩ := Option.map_eq_some_iff.mp resolved
      obtain ⟨st, there, remains⟩ := Option.bind_eq_some_iff.mp bound
      exact expected_anchored whole (.inr (.inr ⟨st, remote, there, remains, revision⟩))
  | reconcileRead op failure => exact reads _ formed.2
  | conflictRead op reason => exact reads _ formed.2.2
  | inspected op state => exact reads _ formed.2.2.2
  | mergeVerified op => exact reads _ formed.2
  | mergeLossRead op => exact reads _ formed.2
  | mergeConflictRead op reason => exact reads _ formed.2

/-- A read is answered with a digest of what it returns. -/
theorem read_digested {rpc : Rpc} {identity : Option Identity} {bytes : Bytes} {revision : Token}
    (asked : rpc.request = prepareRead identity)
    (accepted : rpc.accepts (.inr (.ok bytes revision)) = true)
    (vouched : ∀ request, rpc.request = some request → request.Vouched (.inr (.ok bytes revision))) :
    Digested bytes revision := by
  have sent : rpc.request.isSome = true := by simpa [Rpc.accepts] using accepted
  obtain ⟨request, same⟩ := Option.isSome_iff_exists.mp sent
  obtain ⟨_, target, _, _, read⟩ := prepareRead_some (asked.symm.trans same)
  rw [read] at same
  exact vouched _ same

theorem write_digested {rpc : Rpc} {identity : Option Identity} {written : Option Bytes}
    {expected : Option Token} {saveAs : Option String} {revision : Token}
    (asked : rpc.request = prepareWrite identity written expected saveAs)
    (accepted : rpc.accepts (.inl (.ok revision)) = true)
    (vouched : ∀ request, rpc.request = some request → request.Vouched (.inl (.ok revision)))
    {bytes : Bytes} (captured : written = some bytes) : Digested bytes revision := by
  have sent : rpc.request.isSome = true := by simpa [Rpc.accepts] using accepted
  obtain ⟨request, same⟩ := Option.isSome_iff_exists.mp sent
  obtain ⟨_, target, content, _, there, _, write⟩ := prepareWrite_some (asked.symm.trans same)
  rw [write] at same
  have this : bytes = content := Option.some.inj (captured.symm.trans there)
  rw [this]
  exact vouched _ same

/-- Replies with digests are sound, where LOCAL is not taken for the restored BASE. -/
theorem reply_sound {reports : List Report} {rpc : Rpc} {reply : AnyReply}
    (ok : digested.RpcOk reports rpc) (accepted : rpc.accepts reply = true)
    (vouched : ∀ request, rpc.request = some request → request.Vouched reply)
    (unmistaken : ∀ op reason bytes revision, rpc.callback = .conflictRead op reason →
      reply = .inr (.ok bytes revision) → op.choice = some .restoreBase →
      op.snapshot.bind (·.localBytes) = some bytes → op.bytes = some bytes) :
    digested.SoundReply reports rpc.callback reply := by
  obtain ⟨request, callback⟩ := rpc
  have formed := ok.formed
  cases callback with
  | writeDone op =>
      cases reply with
      | inr reply => trivial
      | inl reply =>
          cases reply with
          | transport error => trivial
          | ok revision =>
              intro bytes captured
              exact .inl (write_digested formed.2 accepted vouched captured)
          | refused code conflict error =>
              cases conflict with
              | none => trivial
              | some kind =>
                  cases kind with
                  | deleted => exact .inl (digested_missing [])
                  | changed => trivial
                  | appeared => trivial
                  | typeChanged => trivial
  | reconcileRead op failure =>
      cases reply with
      | inl reply => trivial
      | inr reply =>
          cases reply with
          | failed error => trivial
          | ok bytes revision => exact .inl (read_digested formed.2 accepted vouched)
  | conflictRead op reason =>
      cases reply with
      | inl reply => trivial
      | inr reply =>
          cases reply with
          | failed error =>
              by_cases deleted : reason = .kind .deleted
              · subst deleted
                exact ⟨.inl (digested_missing []), fun _ _ _ _ base _ => digested_missing base⟩
              · unfold Policy.SoundReply
                split <;> simp_all
          | ok bytes revision =>
              have digest := read_digested formed.2.2 accepted vouched
              refine ⟨.inl digest, ?_⟩
              intro choice st snapshot localBytes base captured
              have same := unmistaken op reason bytes revision rfl rfl choice (by
                rw [snapshot]
                exact localBytes)
              have this : base = bytes := Option.some.inj (captured.symm.trans same)
              rw [this]
              exact digest
  | inspected op state =>
      cases reply with
      | inl reply => trivial
      | inr reply =>
          cases reply with
          | failed error => trivial
          | ok bytes revision => exact read_digested formed.2.2.2 accepted vouched
  | mergeVerified op =>
      cases reply with
      | inl reply => trivial
      | inr reply =>
          cases reply with
          | failed error => trivial
          | ok bytes revision => exact read_digested formed.2 accepted vouched
  | mergeWriteDone op =>
      cases reply with
      | inr reply => trivial
      | inl reply =>
          cases reply with
          | transport error => trivial
          | refused code conflict error => trivial
          | ok revision =>
              obtain ⟨_, token, prepared, _⟩ := formed
              intro bytes captured
              exact write_digested prepared accepted vouched captured
  | mergeLossRead op =>
      cases reply with
      | inl reply => trivial
      | inr reply =>
          cases reply with
          | failed error => trivial
          | ok bytes revision => exact read_digested formed.2 accepted vouched
  | mergeConflictRead op reason =>
      cases reply with
      | inl reply => trivial
      | inr reply =>
          cases reply with
          | failed error => trivial
          | ok bytes revision => exact read_digested formed.2 accepted vouched

/-- The callback of an operation that is not in charge of a live buffer caches at most. -/
theorem conflictRead_aside {env : Env} {reports : List Report} (held : HeldAt digested reports m)
    (written : op.bytes.isSome = true) (aside : (m.live && m.operationCurrent op) = false)
    (reason : Reason) (reply : ReadReply) :
    Preserves digested reports
      (runCallback c.codec env (.conflictRead op reason) (.inr reply)) m := by
  have refused (status : Status) (result : SaveResult) (conflict : Option ConflictState) :
      wp (finishNonsuccess op status result conflict) (fun _ => HeldAt digested reports)
        (fun _ _ => False) m := by
    simp only [finishNonsuccess, wp_bind, wp_fetch, wp_whenever, aside]
    exact ⟨fun current => absurd current Bool.false_ne_true, fun _ => held⟩
  have finished (revision : Token) : wp (finishSuccess c.codec env op revision false)
      (fun _ => HeldAt digested reports) (fun _ _ => False) m := by
    obtain ⟨bytes, captured⟩ := Option.isSome_iff_exists.mp written
    have stored := held.stored.cachePut op.target bytes revision (.inr fun _ _ wanted => wanted)
    simp only [finishSuccess, wp_bind, wp_cacheIdentitySafely, wp_fetch, wp_whenever, captured]
    have cached : HeldAt digested reports (m.cachePut op.target (some bytes) revision) :=
      ⟨⟨stored, held.settled⟩, held.same⟩
    have idle (current : (m.live && m.operationCurrent op) = true) : False :=
      Bool.false_ne_true (aside.symm.trans current)
    exact ⟨fun _ => ⟨fun current => (idle current).elim, fun _ => held⟩,
      fun _ => ⟨fun current => (idle current).elim, fun _ => cached⟩⟩
  have settled (remote : Remote) : wp (settleConflict c.codec env op reason remote)
      (fun _ => HeldAt digested reports) (fun _ _ => False) m := by
    dsimp only [settleConflict]
    split
    · exact finished _
    · exact refused _ _ _
  have body : wp (callbackBody c.codec env (.conflictRead op reason) (.inr reply))
      (fun _ => HeldAt digested reports) (fun _ _ => False) m := by
    simp only [callbackBody, conflictRead, wp_bind, wp_fetch, wp_whenever]
    refine ⟨fun _ => ?_, fun _ => held⟩
    cases reply with
    | ok bytes revision => exact settled _
    | failed error =>
        simp only [wp_ite]
        exact ⟨fun _ => settled _, fun _ => refused _ _ _⟩
  rw [runCallback, Preserves, wp_rescue]
  exact wp_mono body (fun _ _ done => done) fun _ _ failed => failed.elim

end Client

end EmacsRelay

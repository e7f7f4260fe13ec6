import EmacsRelay.Lib.Json
import EmacsRelay.Lib.Reach
import EmacsRelay.Server.Tail

set_option autoImplicit false

/- `relay-tail-read-chunked-async` of `lisp/relay-core.el`: tail reads that are repeated up to the
end of a file or to a cap, each from where the one before it ended. -/
namespace EmacsRelay

/-- A number as it is sent. -/
def natural (n : Nat) : Json := .int n

/-- The `tail_read` branch of `handle_fs`. An argument that is no `u64` counts as missing. -/
def tailReadOp (path : Path) (knownOffset : Json) (knownDev knownIno : Option Json)
    (maxBytes : Json) : Io (Option TailRead) :=
  tailRead path (knownOffset.asU64.getD 0) (knownDev.bind Json.asU64) (knownIno.bind Json.asU64)
    (maxBytes.asU64.getD 0)

namespace RelayTailRead

inductive Outcome where
  | complete
  | capped
  | rotated
deriving DecidableEq, Repr

/-- `relay-tail-read--assemble`. -/
structure Assembled where
  bytes : Bytes
  start : Nat
  actualEnd : Nat
  fileSize : Option Nat
  dev : Option Nat
  ino : Option Nat
  moreAvailable : Bool
  outcome : Outcome
deriving DecidableEq, Repr

def Assembled.truncatedOrRotated (result : Assembled) : Bool := result.outcome == .rotated

/-- The arguments of `step`. -/
structure Loop where
  offset : Nat
  dev : Option Nat
  ino : Option Nat
  bytesSoFar : Bytes
  totalBytes : Nat
  firstStart : Option Nat
  lastFileSize : Option Nat
deriving DecidableEq, Repr

/-- A sequence waits for a reply, or one of its callbacks was called, or neither is any more. -/
inductive Stage where
  | waiting (loop : Loop)
  | succeeded (result : Assembled)
  | failed (failure : String)
  | stopped
deriving DecidableEq, Repr

def remaining (cap : Nat) (loop : Loop) : Nat := cap - loop.totalBytes

/-- `step`. -/
def step (cap : Nat) (cancelled : Bool) (loop : Loop) : Stage :=
  if cancelled then .stopped
  else if remaining cap loop = 0 then
    .succeeded ⟨loop.bytesSoFar, loop.firstStart.getD loop.offset, loop.offset, loop.lastFileSize,
      loop.dev, loop.ino, true, .capped⟩
  else .waiting loop

/-- The callback of a chunk's reply. -/
def receive (cap : Nat) (cancelled : Bool) (loop : Loop) (result : TailRead) : Stage :=
  let start := loop.firstStart.getD result.start
  let bytes := loop.bytesSoFar ++ result.bytes
  if cancelled then .stopped
  else if result.truncatedOrRotated then
    .succeeded ⟨result.bytes, result.start, result.actualEnd, some result.fileSize,
      some result.dev, some result.ino, result.moreAvailable, .rotated⟩
  else if result.moreAvailable then
    step cap cancelled ⟨result.actualEnd, some result.dev, some result.ino, bytes,
      loop.totalBytes + result.bytes.length, some start, some result.fileSize⟩
  else
    .succeeded ⟨bytes, start, result.actualEnd, some result.fileSize, some result.dev,
      some result.ino, false, .complete⟩

/-- One call of `relay-tail-read-chunked-async`, and the requests it has issued. -/
structure Sequence where
  stage : Stage
  cancelled : Bool
  requests : Nat
deriving DecidableEq, Repr

namespace Sequence

/-- A stage that waits has issued a request. -/
def enter (s : Sequence) (stage : Stage) : Sequence :=
  match stage with
  | .waiting _ => { s with stage := stage, requests := s.requests + 1 }
  | _ => { s with stage := stage }

def start (cap knownOffset : Nat) (knownDev knownIno : Option Nat) : Sequence :=
  enter ⟨.stopped, false, 0⟩ (step cap false ⟨knownOffset, knownDev, knownIno, [], 0, none, none⟩)

inductive Event where
  | reply (result : TailRead)
  | failure (failure : String)
  | cancel
deriving DecidableEq, Repr

def next (cap : Nat) (s : Sequence) : Event → Sequence
  | .cancel => { s with cancelled := true }
  | .reply result =>
      match s.stage with
      | .waiting loop => s.enter (receive cap s.cancelled loop result)
      | _ => s
  | .failure failure =>
      match s.stage with
      | .waiting _ => s.enter (.failed failure)
      | _ => s

/-- The server answers each request from the file system there is when it reads; between two
requests anything may have happened to it. -/
def Served (process : Process) (history : Nat → Disk) (path : Path) (cap : Nat) (s : Sequence) :
    Event → Prop
  | .reply result => ∀ loop, s.stage = .waiting loop → ∃ h t, h.disk = history s.requests ∧
      Program.Executes (Host.kernel process)
        (tailReadOp path (natural loop.offset) (loop.dev.map natural)
          (loop.ino.map natural) (natural (remaining cap loop))) h (.ok (some result)) t
  | _ => True

end Sequence

/-- At some time the path names this regular file. -/
def FileAt (history : Nat → Disk) (path : Path) (time : Nat) (metadata : Metadata)
    (content : Bytes) : Prop :=
  (history time).lstat path = .ok metadata ∧ metadata.node.kind = .file content

/-- A file that has the same identity as one before it is that file, appended to. -/
def AppendOnly (history : Nat → Disk) (path : Path) : Prop :=
  ∀ earlier later before after old new, earlier ≤ later →
    FileAt history path earlier before old → FileAt history path later after new →
    before.inode = after.inode → old <+: new

/-- Device, inode number and size are `u64`. -/
def Sized (history : Nat → Disk) (path : Path) : Prop :=
  ∀ time metadata content, FileAt history path time metadata content →
    metadata.inode.dev ≤ u64Max ∧ metadata.inode.ino ≤ u64Max ∧ content.length ≤ u64Max

section Replies

variable {process : Process} {history : Nat → Disk} {path : Path} {cap : Nat} {s : Sequence}
  {loop : Loop} {result : TailRead}

theorem asU64_natCast {n : Nat} (small : n ≤ u64Max) : (natural n).asU64 = some n :=
  Json.asU64_eq_some.mpr ⟨rfl, Nat.lt_succ_of_le small⟩

theorem asU64_le (n : Nat) : (natural n).asU64.getD 0 ≤ n := by
  by_cases small : n ≤ u64Max
  · rw [asU64_natCast small]
    exact Nat.le_refl n
  · cases there : (natural n).asU64 with
    | none => exact Nat.zero_le n
    | some m =>
        have same := Json.asU64_eq_some.mp there
        have equal : (n : Int) = m := by simpa [natural] using same.1
        rw [Option.getD_some]
        omega

/-- What a reply in flight will be. -/
theorem answers_of_served (waiting : s.stage = .waiting loop)
    (served : Sequence.Served process history path cap s (.reply result)) :
    ∃ metadata content, FileAt history path s.requests metadata content ∧
      Answers metadata content ((natural loop.offset).asU64.getD 0)
        ((loop.dev.map natural).bind Json.asU64)
        ((loop.ino.map natural).bind Json.asU64)
        ((natural (remaining cap loop)).asU64.getD 0) result := by
  obtain ⟨h, t, disk, run⟩ := served loop waiting
  have answered := Program.wp_executes (wp_tailRead path _ _ _ _) run
  rw [disk] at answered
  obtain ⟨metadata, content, found, kind, answers⟩ := answered result rfl
  exact ⟨metadata, content, ⟨found, kind⟩, answers⟩

theorem inode_eq {a b : Inode} (dev : a.dev = b.dev) (ino : a.ino = b.ino) : a = b := by
  cases a
  cases b
  rw [Inode.mk.injEq]
  exact ⟨dev, ino⟩

theorem known_of_unmoved {metadata : Metadata} {offset dev ino : Nat}
    (unmoved : truncatedOrRotated metadata offset (some dev) (some ino) = false) :
    dev = metadata.inode.dev ∧ ino = metadata.inode.ino := by
  unfold truncatedOrRotated at unmoved
  simp only [Bool.or_eq_false_iff, Option.any_some, bne_eq_false_iff_eq] at unmoved
  exact unmoved.1

end Replies

/-- What a sequence that waits has assembled: consecutive bytes of one file. -/
structure Gathering (history : Nat → Disk) (path : Path) (requests : Nat) (loop : Loop) : Prop where
  total : loop.totalBytes = loop.bytesSoFar.length
  read : (loop.firstStart = none ∧ loop.bytesSoFar = []) ∨
    ∃ start time metadata content, loop.firstStart = some start ∧ time < requests ∧
      FileAt history path time metadata content ∧ loop.dev = some metadata.inode.dev ∧
      loop.ino = some metadata.inode.ino ∧ loop.offset = start + loop.bytesSoFar.length ∧
      loop.offset ≤ content.length ∧ loop.bytesSoFar <+: content.drop start

/-- What a sequence delivers is this part of the file. -/
structure Describes (cap : Nat) (metadata : Metadata) (content : Bytes) (result : Assembled) :
    Prop where
  identity : result.dev = some metadata.inode.dev ∧ result.ino = some metadata.inode.ino
  bytes : result.bytes = (content.drop result.start).take (result.actualEnd - result.start)
  ends : result.actualEnd = result.start + result.bytes.length
  inside : result.actualEnd ≤ content.length
  short : result.bytes.length ≤ cap
  size : result.fileSize = some content.length
  complete : result.outcome = .complete → result.actualEnd = content.length
  capped : result.outcome = .capped → result.bytes.length = cap ∧ result.actualEnd < content.length
  rotated : result.outcome = .rotated → result.start = 0

section Joining

variable {history : Nat → Disk} {path : Path} {requests : Nat} {loop : Loop} {metadata : Metadata}
  {content : Bytes} {maxBytes : Nat} {result : TailRead}

/-- A reply that is not flagged goes on in the same file where the bytes so far end. -/
theorem joined_of_unmoved (appended : AppendOnly history path) (sized : Sized history path)
    (gathering : Gathering history path requests loop)
    (here : FileAt history path requests metadata content)
    (answers : Answers metadata content ((natural loop.offset).asU64.getD 0)
      ((loop.dev.map natural).bind Json.asU64)
      ((loop.ino.map natural).bind Json.asU64) maxBytes result)
    (unmoved : result.truncatedOrRotated = false) :
    result.actualEnd = loop.firstStart.getD result.start +
        (loop.bytesSoFar ++ result.bytes).length ∧
      loop.bytesSoFar ++ result.bytes <+: content.drop (loop.firstStart.getD result.start) := by
  cases gathering.read with
  | inl fresh =>
      rw [fresh.1, fresh.2, List.nil_append, Option.getD_none]
      exact ⟨answers.ends, answers.found⟩
  | inr going =>
      obtain ⟨start, time, before, old, first, earlier, there, dev, ino, offset, inside, found⟩ :=
        going
      have small := sized time before old there
      have known := answers.flag
      have began := answers.start
      rw [dev, ino, asU64_natCast (by omega : loop.offset ≤ u64Max), Option.map_some,
        Option.map_some, Option.bind_some, Option.bind_some, asU64_natCast small.1,
        asU64_natCast small.2.1, unmoved] at known
      rw [asU64_natCast (by omega : loop.offset ≤ u64Max), unmoved] at began
      have same := known_of_unmoved known.symm
      have grown : old <+: content :=
        appended time requests before metadata old content (Nat.le_of_lt earlier) there here
          (inode_eq same.1 same.2)
      have began_there : result.start = loop.offset := by simpa using began
      rw [first, Option.getD_some]
      constructor
      · rw [answers.ends, began_there, offset, List.length_append]
        omega
      · apply append_isPrefix (found.trans (List.IsPrefix.drop grown start))
        rw [List.drop_drop, ← offset, ← began_there]
        exact answers.found

/-- Bytes found at `start` in the file of this identity, and what a delivery of them described. -/
theorem Describes.of_found {cap start actualEnd : Nat} {bytes : Bytes} {more : Bool}
    {outcome : Outcome} (identity : result.dev = metadata.inode.dev ∧ result.ino = metadata.inode.ino)
    (size : result.fileSize = content.length) (found : bytes <+: content.drop start)
    (ends : actualEnd = start + bytes.length) (inside : actualEnd ≤ content.length)
    (short : bytes.length ≤ cap) (complete : outcome = .complete → actualEnd = content.length)
    (capped : outcome = .capped → bytes.length = cap ∧ actualEnd < content.length)
    (rotated : outcome = .rotated → start = 0) :
    Describes cap metadata content ⟨bytes, start, actualEnd, some result.fileSize, some result.dev,
      some result.ino, more, outcome⟩ where
  identity := ⟨congrArg some identity.1, congrArg some identity.2⟩
  bytes := by
    dsimp only
    rw [ends, Nat.add_sub_cancel_left]
    exact List.prefix_iff_eq_take.mp found
  ends := ends
  inside := inside
  short := short
  size := congrArg some size
  complete := complete
  capped := capped
  rotated := rotated

variable {cap : Nat}

/-- What is delivered when the file was replaced, or has no more, or the cap is reached. -/
theorem describes_of_reply (appended : AppendOnly history path) (sized : Sized history path)
    (gathering : Gathering history path requests loop) (below : loop.totalBytes < cap)
    (here : FileAt history path requests metadata content)
    (answers : Answers metadata content ((natural loop.offset).asU64.getD 0)
      ((loop.dev.map natural).bind Json.asU64) ((loop.ino.map natural).bind Json.asU64)
      ((natural (remaining cap loop)).asU64.getD 0) result)
    {delivered : Assembled} (received : receive cap false loop result = .succeeded delivered) :
    Describes cap metadata content delivered := by
  have fits : loop.totalBytes + result.bytes.length ≤ cap := by
    have asked := Nat.le_trans answers.short (asU64_le (remaining cap loop))
    unfold remaining at asked
    omega
  have inside := answers.inside
  have more := answers.more
  rw [answers.size] at more
  simp only [receive, Bool.false_eq_true, if_false] at received
  by_cases moved : result.truncatedOrRotated = true
  · have start : result.start = 0 := by rw [answers.start, if_pos moved]
    rw [if_pos moved] at received
    rw [← Stage.succeeded.inj received]
    exact .of_found answers.identity answers.size answers.found answers.ends inside (by omega)
      (fun never => by cases never) (fun never => by cases never) fun _ => start
  · have unmoved : result.truncatedOrRotated = false := by simpa using moved
    obtain ⟨ends, found⟩ := joined_of_unmoved appended sized gathering here answers unmoved
    have counted : (loop.bytesSoFar ++ result.bytes).length =
        loop.totalBytes + result.bytes.length := by rw [List.length_append, gathering.total]
    rw [if_neg moved] at received
    by_cases going : result.moreAvailable = true
    · rw [going] at more
      have further := of_decide_eq_true more.symm
      simp only [going, if_true, step, Bool.false_eq_true, if_false] at received
      split at received
      · rename_i full
        simp only [remaining] at full
        rw [← Stage.succeeded.inj received]
        exact .of_found answers.identity answers.size found ends inside (by omega)
          (fun never => by cases never) (fun _ => ⟨by omega, further⟩) fun never => by cases never
      · cases received
    · rw [Bool.eq_false_iff.mpr going] at more
      have reached := of_decide_eq_false more.symm
      rw [if_neg going] at received
      rw [← Stage.succeeded.inj received]
      exact .of_found answers.identity answers.size found ends inside (by omega)
        (fun _ => by omega) (fun never => by cases never) fun never => by cases never

/-- A sequence that asks again has one more chunk, which is not empty if the cap is a `u64`. -/
theorem gathering_of_reply (appended : AppendOnly history path) (sized : Sized history path)
    (gathering : Gathering history path requests loop) (below : loop.totalBytes < cap)
    (here : FileAt history path requests metadata content)
    (answers : Answers metadata content ((natural loop.offset).asU64.getD 0)
      ((loop.dev.map natural).bind Json.asU64) ((loop.ino.map natural).bind Json.asU64)
      ((natural (remaining cap loop)).asU64.getD 0) result)
    {again : Loop} (received : receive cap false loop result = .waiting again) :
    Gathering history path (requests + 1) again ∧ again.totalBytes < cap ∧
      (cap ≤ u64Max → loop.totalBytes + 1 ≤ again.totalBytes) := by
  simp only [receive, Bool.false_eq_true, if_false] at received
  by_cases moved : result.truncatedOrRotated = true
  · rw [if_pos moved] at received
    cases received
  · have unmoved : result.truncatedOrRotated = false := by simpa using moved
    obtain ⟨ends, found⟩ := joined_of_unmoved appended sized gathering here answers unmoved
    rw [if_neg moved] at received
    by_cases going : result.moreAvailable = true
    · have more := answers.more
      rw [going, answers.size] at more
      have further := of_decide_eq_true more.symm
      simp only [going, if_true, step, Bool.false_eq_true, if_false] at received
      split at received
      · cases received
      · rename_i room
        simp only [remaining] at room
        rw [← Stage.waiting.inj received]
        refine ⟨⟨?_, .inr ⟨_, requests, metadata, content, rfl, Nat.lt_succ_self _, here, ?_, ?_,
          ends, Nat.le_of_lt further, found⟩⟩, by dsimp only; omega, fun small => ?_⟩
        · dsimp only
          rw [List.length_append, gathering.total]
        · exact congrArg some answers.identity.1
        · exact congrArg some answers.identity.2
        · have asked : (natural (remaining cap loop)).asU64 = some (remaining cap loop) := by
            apply asU64_natCast
            unfold remaining
            omega
          have progress := answers.progress (sized requests metadata content here).2.2
          have began := answers.ends
          rw [asked, Option.getD_some] at progress
          unfold remaining at progress
          have nonempty := progress (by omega) (by omega)
          dsimp only
          omega
    · rw [if_neg going] at received
      cases received

end Joining

/-- What holds of a sequence at any time. -/
structure Sound (history : Nat → Disk) (path : Path) (cap : Nat) (s : Sequence) : Prop where
  bounded : cap ≤ u64Max → s.requests ≤ cap
  waiting : ∀ loop, s.stage = .waiting loop → Gathering history path s.requests loop ∧
    loop.totalBytes < cap ∧ (cap ≤ u64Max → s.requests ≤ loop.totalBytes + 1)
  delivered : ∀ result, s.stage = .succeeded result →
    ∃ metadata content, FileAt history path s.requests metadata content ∧
      Describes cap metadata content result

section Runs

variable {process : Process} {history : Nat → Disk} {path : Path} {cap : Nat} {s : Sequence}

theorem Sound.start (positive : 1 ≤ cap) (knownOffset : Nat) (knownDev knownIno : Option Nat) :
    Sound history path cap (Sequence.start cap knownOffset knownDev knownIno) := by
  have asks : Sequence.start cap knownOffset knownDev knownIno =
      ⟨.waiting ⟨knownOffset, knownDev, knownIno, [], 0, none, none⟩, false, 1⟩ := by
    have room : remaining cap ⟨knownOffset, knownDev, knownIno, [], 0, none, none⟩ ≠ 0 := by
      unfold remaining
      dsimp only
      omega
    simp [Sequence.start, step, room, Sequence.enter]
  rw [asks]
  constructor
  · exact fun _ => positive
  · intro loop waiting
    rw [← Stage.waiting.inj waiting]
    exact ⟨⟨rfl, .inl ⟨rfl, rfl⟩⟩, positive, fun _ => Nat.le_refl 1⟩
  · exact fun _ never => by cases never

/-- A sequence that ends without a result. -/
theorem Sound.ended (sound : Sound history path cap s) {stage : Stage}
    (ended : stage = .stopped ∨ ∃ failure, stage = .failed failure) :
    Sound history path cap (s.enter stage) := by
  cases ended with
  | inl stopped =>
      rw [stopped]
      constructor
      · exact sound.bounded
      · exact fun _ never => by cases never
      · exact fun _ never => by cases never
  | inr failing =>
      obtain ⟨failure, failed⟩ := failing
      rw [failed]
      constructor
      · exact sound.bounded
      · exact fun _ never => by cases never
      · exact fun _ never => by cases never

theorem receive_cancelled (loop : Loop) (result : TailRead) :
    receive cap true loop result = .stopped := rfl

theorem Sound.reply (appended : AppendOnly history path) (sized : Sized history path)
    (sound : Sound history path cap s) {loop : Loop} {result : TailRead}
    (waiting : s.stage = .waiting loop)
    (served : Sequence.Served process history path cap s (.reply result)) :
    Sound history path cap (s.enter (receive cap s.cancelled loop result)) := by
  obtain ⟨gathering, below, issued⟩ := sound.waiting loop waiting
  obtain ⟨metadata, content, here, answers⟩ := answers_of_served waiting served
  cases cancelled : s.cancelled with
  | true =>
      rw [receive_cancelled]
      exact sound.ended (.inl rfl)
  | false =>
      cases received : receive cap false loop result with
      | waiting again =>
          obtain ⟨next, room, progress⟩ := gathering_of_reply appended sized gathering below here
            answers received
          constructor
          · intro small
            have counted := issued small
            have more := progress small
            show s.requests + 1 ≤ cap
            omega
          · intro other same
            rw [← Stage.waiting.inj same]
            refine ⟨next, room, fun small => ?_⟩
            have counted := issued small
            have more := progress small
            show s.requests + 1 ≤ again.totalBytes + 1
            omega
          · exact fun _ never => by cases never
      | succeeded delivered =>
          constructor
          · exact sound.bounded
          · exact fun _ never => by cases never
          · intro other same
            rw [← Stage.succeeded.inj same]
            exact ⟨metadata, content, here,
              describes_of_reply appended sized gathering below here answers received⟩
      | failed failure => exact sound.ended (.inr ⟨failure, rfl⟩)
      | stopped => exact sound.ended (.inl rfl)

theorem Sound.next (appended : AppendOnly history path) (sized : Sized history path)
    (event : Sequence.Event) (sound : Sound history path cap s)
    (served : Sequence.Served process history path cap s event) :
    Sound history path cap (s.next cap event) := by
  cases event with
  | cancel =>
      constructor
      · exact sound.bounded
      · exact sound.waiting
      · exact sound.delivered
  | reply result =>
      cases stage : s.stage with
      | waiting loop =>
          have entered : s.next cap (.reply result) =
              s.enter (receive cap s.cancelled loop result) := by
            simp [Sequence.next, stage]
          rw [entered]
          exact sound.reply appended sized stage served
      | _ => simpa [Sequence.next, stage] using sound
  | failure failure =>
      cases stage : s.stage with
      | waiting loop =>
          have entered : s.next cap (.failure failure) = s.enter (.failed failure) := by
            simp [Sequence.next, stage]
          rw [entered]
          exact sound.ended (.inr ⟨failure, rfl⟩)
      | _ => simpa [Sequence.next, stage] using sound

end Runs

/-- A chunked tail read delivers a part of one file, never a splice of two, and issues no more
requests than its cap has bytes if the cap is a `u64`. -/
theorem chunks_not_spliced {history : Nat → Disk} {path : Path}
    (appended : AppendOnly history path) (sized : Sized history path) (process : Process)
    {cap : Nat} (positive : 1 ≤ cap) (knownOffset : Nat) (knownDev knownIno : Option Nat)
    {s : Sequence} (reached : Reaches (Sequence.next cap) (Sequence.Served process history path cap)
      (Sequence.start cap knownOffset knownDev knownIno) s) :
    (∀ result, s.stage = .succeeded result → ∃ metadata content,
      FileAt history path s.requests metadata content ∧
      result.dev = some metadata.inode.dev ∧ result.ino = some metadata.inode.ino ∧
      result.bytes = (content.drop result.start).take (result.actualEnd - result.start) ∧
      result.actualEnd = result.start + result.bytes.length ∧ result.actualEnd ≤ content.length ∧
      result.bytes.length ≤ cap ∧ result.fileSize = some content.length ∧
      (result.outcome = .complete → result.actualEnd = content.length) ∧
      (result.outcome = .capped → result.bytes.length = cap ∧ result.actualEnd < content.length) ∧
      (result.outcome = .rotated → result.start = 0)) ∧
    (cap ≤ u64Max → s.requests ≤ cap) := by
  have sound : Sound history path cap s :=
    reached.invariant (.start positive knownOffset knownDev knownIno)
      fun s event sound served => sound.next appended sized event served
  constructor
  · intro result delivered
    obtain ⟨metadata, content, here, described⟩ := sound.delivered result delivered
    exact ⟨metadata, content, here, described.identity.1, described.identity.2, described.bytes, described.ends,
      described.inside, described.short, described.size, described.complete, described.capped, described.rotated⟩
  · exact sound.bounded

section Samples

theorem fileAt_of_appended {film : Film} {path : Path} {file : Inode} {contents : Nat → Bytes}
    (appended : film.Appended path file contents) {time : Nat} {metadata : Metadata}
    {content : Bytes} (here : FileAt film path time metadata content) :
    metadata.inode = file ∧ content = contents time := by
  obtain ⟨node, found, _, kind⟩ := appended.lstat time
  have same := here.1
  rw [found] at same
  have regular := here.2
  rw [← Except.ok.inj same, kind] at regular
  constructor
  · rw [← Except.ok.inj same]
  · exact (FileKind.file.inj regular).symm

theorem appendOnly_of_appended {film : Film} {path : Path} {file : Inode} {contents : Nat → Bytes}
    (appended : film.Appended path file contents) : AppendOnly film path := by
  intro earlier later before after old new order first second _
  rw [(fileAt_of_appended appended first).2, (fileAt_of_appended appended second).2]
  exact appended.appends earlier later order

/-- The file, already appended to when the first request is served. -/
def grown : Film := fun time => appended (time + 1)

theorem grown_appended : grown.Appended ⟨[], "f"⟩ ⟨1, 10⟩
    fun time => if time + 1 < 2 then [97] else [97, 98] where
  found := fun time => appended_appended.found (time + 1)
  content := fun time => appended_appended.content (time + 1)
  appends := fun earlier later order =>
    appended_appended.appends (earlier + 1) (later + 1) (Nat.succ_le_succ order)

theorem grown_sized : Sized grown ⟨[], "f"⟩ := by
  intro time metadata content here
  obtain ⟨named, same⟩ := fileAt_of_appended grown_appended here
  rw [named, same]
  refine ⟨by decide, by decide, ?_⟩
  exact appended_sized (time + 1) ⟨1, 10⟩ _ (grown_appended.content time)

def calmly : List KernelChoice := List.replicate 4 default

/-- A tail read of the grown file that nothing disturbs. -/
theorem executes_grown (offset : Nat) (dev ino : Option Nat) (maxBytes time : Nat)
    {reply : TailRead} {h : Host}
    (permitted : Program.Permits (Host.kernel ⟨7, 0, 0, 0⟩) calmly
      (tailRead ⟨[], "f"⟩ offset dev ino maxBytes) ⟨grown time, fun _ => 0⟩)
    (result : Program.advance (Host.kernel ⟨7, 0, 0, 0⟩) calmly
      (tailRead ⟨[], "f"⟩ offset dev ino maxBytes) ⟨grown time, fun _ => 0⟩ =
        (.done (.ok (some reply)), h)) :
    ∃ h t, h.disk = grown time ∧ Program.Executes (Host.kernel ⟨7, 0, 0, 0⟩)
      (tailRead ⟨[], "f"⟩ offset dev ino maxBytes) h (.ok (some reply)) t := by
  have steps := Program.steps_of_advance permitted
  rw [result] at steps
  exact ⟨_, _, rfl, steps⟩

/-- The cap is one byte. -/
theorem chunks_not_spliced_capped :
    let s := Sequence.next 1 (Sequence.start 1 0 none none)
      (.reply ⟨[97], 0, 1, 2, 1, 10, false, true⟩)
    s.stage = .succeeded ⟨[97], 0, 1, some 2, some 1, some 10, true, .capped⟩ ∧
      ∃ metadata content, FileAt grown ⟨[], "f"⟩ s.requests metadata content ∧
        [97] = (content.drop 0).take 1 ∧ 1 < content.length := by
  have served : Sequence.Served ⟨7, 0, 0, 0⟩ grown ⟨[], "f"⟩ 1 (Sequence.start 1 0 none none)
      (.reply ⟨[97], 0, 1, 2, 1, 10, false, true⟩) := by
    intro loop waiting
    rw [← Stage.waiting.inj waiting]
    exact executes_grown 0 none none 1 1 ⟨trivial, trivial, trivial, trivial, trivial⟩ rfl
  have spliced := chunks_not_spliced (appendOnly_of_appended grown_appended) grown_sized
    ⟨7, 0, 0, 0⟩ (Nat.le_refl 1) 0 none none (.next .refl served)
  obtain ⟨metadata, content, here, described⟩ := spliced.1 _ rfl
  exact ⟨rfl, metadata, content, here, described.2.2.1, (described.2.2.2.2.2.2.2.2.1 rfl).2⟩

def emptyReply : TailRead := ⟨[], 0, 0, 2, 1, 10, false, true⟩

/-- The arguments with which the sequence asks again after an empty reply. -/
def askingAgain : Loop := ⟨0, some 1, some 10, [], 0, some 0, some 2⟩

theorem asU64_beyond : (natural (u64Max + 1)).asU64 = none := by decide

/-- Asked for more bytes than a `u64` can tell, the server returns none. -/
theorem served_empty {s : Sequence} {loop : Loop} (waiting : s.stage = .waiting loop)
    (asked : loop = ⟨0, none, none, [], 0, none, none⟩ ∨ loop = askingAgain) :
    Sequence.Served ⟨7, 0, 0, 0⟩ (fun _ => grown 1) ⟨[], "f"⟩ (u64Max + 1) s
      (.reply emptyReply) := by
  intro other same
  rw [waiting] at same
  rw [← Stage.waiting.inj same]
  unfold tailReadOp remaining
  cases asked with
  | inl first =>
      rw [first, Nat.sub_zero, asU64_beyond]
      exact executes_grown 0 none none 0 1 ⟨trivial, trivial, trivial, trivial⟩ rfl
  | inr again =>
      rw [again, askingAgain, Nat.sub_zero, asU64_beyond]
      exact executes_grown 0 (some 1) (some 10) 0 1 ⟨trivial, trivial, trivial, trivial⟩ rfl

/-- With a cap that is no `u64` the server is asked for no bytes, again and again. -/
theorem requests_never_end :
    ¬ ∀ cap, 1 ≤ cap → ∃ bound, ∀ s,
      Reaches (Sequence.next cap) (Sequence.Served ⟨7, 0, 0, 0⟩ (fun _ => grown 1) ⟨[], "f"⟩ cap)
        (Sequence.start cap 0 none none) s → s.requests ≤ bound := by
  intro all
  obtain ⟨bound, limit⟩ := all (u64Max + 1) (by decide)
  have first : Sequence.start (u64Max + 1) 0 none none =
      ⟨.waiting ⟨0, none, none, [], 0, none, none⟩, false, 1⟩ := by decide
  have next : ∀ asked loop, loop = ⟨0, none, none, [], 0, none, none⟩ ∨ loop = askingAgain →
      Sequence.next (u64Max + 1) ⟨.waiting loop, false, asked⟩ (.reply emptyReply) =
        ⟨.waiting askingAgain, false, asked + 1⟩ := by
    intro asked loop either
    cases either with
    | inl first => rw [first]; rfl
    | inr again => rw [again]; rfl
  have again : ∀ asked, Reaches (Sequence.next (u64Max + 1))
      (Sequence.Served ⟨7, 0, 0, 0⟩ (fun _ => grown 1) ⟨[], "f"⟩ (u64Max + 1))
      (Sequence.start (u64Max + 1) 0 none none) ⟨.waiting askingAgain, false, asked + 2⟩ := by
    intro asked
    induction asked with
    | zero =>
        rw [← next 1 _ (.inl rfl), ← first]
        exact .next .refl (served_empty (congrArg Sequence.stage first) (.inl rfl))
    | succ asked ih =>
        rw [← next (asked + 2) _ (.inr rfl)]
        exact .next ih (served_empty rfl (.inr rfl))
  have beyond := limit _ (again bound)
  dsimp only at beyond
  omega

end Samples

end RelayTailRead

end EmacsRelay

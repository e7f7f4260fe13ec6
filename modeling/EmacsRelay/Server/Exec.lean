import EmacsRelay.Lib.Base64
import EmacsRelay.Lib.Json
import EmacsRelay.Lib.Reach
import EmacsRelay.Server.Revision
import EmacsRelay.Server.Watched

set_option autoImplicit false

/- `exec`, `server/src/fs_handlers.rs`: one request on its worker thread, the two threads that read
what the command writes, and the command itself, in any order of their steps. -/
namespace EmacsRelay.Server

def defaultExecTimeoutMs : Nat := 30000

def execOutputLimit : Nat := 8 * 1024 * 1024

/-- The size of a reader's `chunk`. -/
def chunkSize : Nat := 8192

def asArray : Json → Option (List Json)
  | .arr items => some items
  | _ => none

structure ExecCommand where
  argv : List String
  cwd : Option String
  timeoutMs : Nat

/-- The checks of `exec_command_with_registry`. -/
def execCommand (home : Option String) (req : Json) : Except String ExecCommand :=
  match (req.get "command").bind asArray with
  | none => .error "exec: missing or non-array \"command\""
  | some [] => .error "exec: \"command\" must not be empty"
  | some items =>
      match items.mapM Json.asStr with
      | none => .error "exec: \"command\" must be an array of strings"
      | some argv =>
          let timeoutMs : Option Nat :=
            match req.get "timeout_ms" with
            | none => some defaultExecTimeoutMs
            | some value => value.asU64.filter (0 < ·)
          match timeoutMs, req.get "cwd" with
          | none, _ => .error "exec: \"timeout_ms\" must be a positive integer"
          | some timeoutMs, none => .ok ⟨argv, none, timeoutMs⟩
          | some timeoutMs, some cwd =>
              match cwd.asStr with
              | none => .error "exec: \"cwd\" must be a string"
              | some cwd => .ok ⟨argv, some (expandHome home cwd), timeoutMs⟩

def execOverflow : String :=
  "exec: output exceeded " ++ toString execOutputLimit ++ " bytes, process group killed"

def execTimedOut (timeoutMs : Nat) : String :=
  "exec: timed out after " ++ toString timeoutMs ++ "ms, process killed"

def execValue (exitCode : Option Int) (stdout stderr : Bytes) : Json :=
  .obj [("exit_code", exitCode.elim .null .int),
    ("stdout_b64", .str (.ofList (base64Encode stdout))),
    ("stderr_b64", .str (.ofList (base64Encode stderr)))]

/-- A thread of `spawn_output_reader`, by what it does next. -/
inductive OutputReader where
  | unstarted
  | reading
  /-- `used.fetch_add`, for what was read. -/
  | counting (chunk : Bytes)
  /-- `overflow.store`. -/
  | raising
  | sending (message : Except String Bytes)
  | done

/-- A pipe of the command, and the thread that reads it: all that was written, what is not read
yet, whether a writing end is open, and the message in the channel. -/
structure Output where
  written : Bytes := []
  pending : Bytes := []
  isOpen : Bool := false
  reader : OutputReader := .unstarted
  buf : Bytes := []
  sent : Option (Except String Bytes) := none

namespace Output

/-- Any process that holds the writing end writes. -/
def write (o : Output) (bytes : Bytes) : Output :=
  if o.isOpen then { o with written := o.written ++ bytes, pending := o.pending ++ bytes } else o

def close (o : Output) : Output := { o with isOpen := false }

/-- `read` returns, with at most `count` bytes, or with none at the end of the pipe. -/
def read (o : Output) (count : Nat) : Output :=
  match o.reader with
  | .reading =>
      let chunk := o.pending.take (min count chunkSize)
      if chunk ≠ [] then
        { o with pending := o.pending.drop (min count chunkSize), reader := .counting chunk }
      else if o.pending = [] ∧ o.isOpen = false then { o with reader := .sending (.ok o.buf) }
      else o
  | _ => o

def readFails (o : Output) (error : String) : Output :=
  match o.reader with
  | .reading => { o with reader := .sending (.error ("exec: output read failed: " ++ error)) }
  | _ => o

def send (o : Output) : Output :=
  match o.reader with
  | .sending message => { o with sent := some message, reader := .done }
  | _ => o

end Output

inductive Stream where
  | stdout
  | stderr
deriving DecidableEq, Repr

/-- The worker thread in `exec_command_with_registry`, by what it does next. -/
inductive Stage where
  | queued (req : Json)
  | spawning (command : ExecCommand)
  | registering
  /-- `try_wait`, in the loop. -/
  | polling
  /-- `overflow.load`. -/
  | loading
  /-- `start.elapsed`. -/
  | timing
  | collectingStdout (exitCode : Option Int)
  | collectingStderr (exitCode : Option Int) (stdout : Bytes)
  /-- The registration is dropped. -/
  | returning (result : Except String Json)
  | replying (result : Except String Json)
  | replied (result : Except String Json)

structure Job where
  stage : Stage
  timeoutMs : Nat := defaultExecTimeoutMs
  /-- The process group of the command, once it is spawned. -/
  pgid : Option Nat := none
  used : Nat := 0
  overflow : Bool := false
  stdout : Output := {}
  stderr : Output := {}

/-- What `try_wait` returns. -/
inductive Waited where
  | exited (exitCode : Option Int)
  | running
  | failed (error : String)

inductive JobEvent where
  | write (stream : Stream) (bytes : Bytes)
  | close (stream : Stream)
  | read (stream : Stream) (count : Nat)
  | readFails (stream : Stream) (error : String)
  | count (stream : Stream)
  | raise (stream : Stream)
  | send (stream : Stream)
  | take
  /-- The child's id is that of its process group. -/
  | spawn (child : Except String Nat)
  | register
  | poll (waited : Waited)
  | load
  | time (late : Bool)
  | collect (timedOut : Bool)
  | drop
  | reply

/-- What a step of the worker does to what it shares with others. -/
inductive Effect where
  | silent
  | taken
  | spawned (pgid : Nat)
  | registered
  /-- `kill_process_group`. -/
  | killed
  | dropped
  | replied
deriving DecidableEq, Repr

namespace Job

def output (job : Job) : Stream → Output
  | .stdout => job.stdout
  | .stderr => job.stderr

def setOutput (job : Job) (stream : Stream) (o : Output) : Job :=
  match stream with
  | .stdout => { job with stdout := o }
  | .stderr => { job with stderr := o }

/-- `used.fetch_add`, and what follows in the thread itself. -/
def count (job : Job) (stream : Stream) : Job :=
  let o := job.output stream
  match o.reader with
  | .counting chunk =>
      let total := job.used + chunk.length
      { job with used := total }.setOutput stream
        (if execOutputLimit < total then { o with reader := .raising }
        else { o with buf := o.buf ++ chunk, reader := .reading })
  | _ => job

/-- `overflow.store`. -/
def raise (job : Job) (stream : Stream) : Job :=
  let o := job.output stream
  match o.reader with
  | .raising =>
      { job with overflow := true }.setOutput stream
        { o with reader := .sending (.error execOverflow) }
  | _ => job

def fails (job : Job) (error : String) : Job := { job with stage := .returning (.error error) }

/-- `recv_timeout` of the channel of one stream, and `next` with what it brings. -/
def collect (job : Job) (o : Output) (timedOut : Bool) (next : Bytes → Stage) : Job :=
  match o.sent with
  | some (.ok buf) => { job with stage := next buf }
  | some (.error error) => job.fails error
  | none => if timedOut then job.fails (execTimedOut job.timeoutMs) else job

variable (home : Option String)

def act (job : Job) : JobEvent → Job × Effect
  | .write stream bytes => (job.setOutput stream ((job.output stream).write bytes), .silent)
  | .close stream => (job.setOutput stream (job.output stream).close, .silent)
  | .read stream count => (job.setOutput stream ((job.output stream).read count), .silent)
  | .readFails stream error =>
      (job.setOutput stream ((job.output stream).readFails error), .silent)
  | .count stream => (job.count stream, .silent)
  | .raise stream => (job.raise stream, .silent)
  | .send stream => (job.setOutput stream (job.output stream).send, .silent)
  | .take =>
      match job.stage with
      | .queued req =>
          match execCommand home req with
          | .ok command =>
              ({ job with stage := .spawning command, timeoutMs := command.timeoutMs }, .taken)
          | .error error => ({ job with stage := .replying (.error error) }, .taken)
      | _ => (job, .silent)
  | .spawn child =>
      match job.stage with
      | .spawning _ =>
          match child with
          | .ok pgid =>
              ({ job with
                stage := .registering
                pgid := some pgid
                stdout := { isOpen := true }
                stderr := { isOpen := true } }, .spawned pgid)
          | .error error =>
              ({ job with stage := .replying (.error ("exec: spawn failed: " ++ error)) }, .silent)
      | _ => (job, .silent)
  | .register =>
      match job.stage with
      | .registering =>
          ({ job with
            stage := .polling
            stdout := { job.stdout with reader := .reading }
            stderr := { job.stderr with reader := .reading } }, .registered)
      | _ => (job, .silent)
  | .poll waited =>
      match job.stage with
      | .polling =>
          match waited with
          | .exited exitCode => ({ job with stage := .collectingStdout exitCode }, .silent)
          | .running => ({ job with stage := .loading }, .silent)
          | .failed error => (job.fails ("exec: wait failed: " ++ error), .killed)
      | _ => (job, .silent)
  | .load =>
      match job.stage with
      | .loading =>
          if job.overflow then (job.fails execOverflow, .killed)
          else ({ job with stage := .timing }, .silent)
      | _ => (job, .silent)
  | .time late =>
      match job.stage with
      | .timing =>
          if late then (job.fails (execTimedOut job.timeoutMs), .killed)
          else ({ job with stage := .polling }, .silent)
      | _ => (job, .silent)
  | .collect timedOut =>
      match job.stage with
      | .collectingStdout exitCode =>
          (job.collect job.stdout timedOut (.collectingStderr exitCode), .silent)
      | .collectingStderr exitCode stdout =>
          (job.collect job.stderr timedOut
            fun stderr => .returning (.ok (execValue exitCode stdout stderr)), .silent)
      | _ => (job, .silent)
  | .drop =>
      match job.stage with
      | .returning result => ({ job with stage := .replying result }, .dropped)
      | _ => (job, .silent)
  | .reply =>
      match job.stage with
      | .replying result => ({ job with stage := .replied result }, .replied)
      | _ => (job, .silent)

def step (job : Job) (event : JobEvent) : Job := (job.act home event).1

/-- The states of one request, in any order of the steps of all that take part. -/
abbrev Reached (req : Json) (job : Job) : Prop :=
  Reaches (step home) (fun _ _ => True) { stage := .queued req } job

/-- What `exec_command_with_registry` has returned. -/
def result (job : Job) : Option (Except String Json) :=
  match job.stage with
  | .returning result => some result
  | .replying result => some result
  | .replied result => some result
  | _ => none

end Job

end EmacsRelay.Server

import EmacsRelay.Server.Collected

set_option autoImplicit false

/- What `exec` returns for a command it has accepted: all that the command has written, with a status
that `try_wait` has returned, or one of the errors of its own. -/
namespace EmacsRelay.Server

/-- The errors of `exec` once its checks are passed, with texts of the system's. -/
inductive Excuse (told : String → Prop) (timeoutMs : Nat) : String → Prop where
  | overflow : Excuse told timeoutMs execOverflow
  | timedOut : Excuse told timeoutMs (execTimedOut timeoutMs)
  | spawn (error : String) (known : told error) :
      Excuse told timeoutMs ("exec: spawn failed: " ++ error)
  | wait (error : String) (known : told error) :
      Excuse told timeoutMs ("exec: wait failed: " ++ error)
  | read (error : String) (known : told error) :
      Excuse told timeoutMs ("exec: output read failed: " ++ error)

/-- The system reports such statuses and such texts. -/
def Reports (codes : Option Int → Prop) (told : String → Prop) : JobEvent → Prop
  | .poll (.exited exitCode) => codes exitCode
  | .poll (.failed error) => told error
  | .spawn (.error error) => told error
  | .readFails _ error => told error
  | _ => True

namespace Job

/-- The runs of one request in which the system reports such statuses and texts. -/
abbrev Runs (home : Option String) (codes : Option Int → Prop) (told : String → Prop) (req : Json)
    (job : Job) : Prop :=
  Reaches (step home) (fun _ event => Reports codes told event) { stage := .queued req } job

section Outcome

variable (codes : Option Int → Prop) (told : String → Prop) (req : Json) (command : ExecCommand)

/-- A value with such a status, or an error of `exec`. -/
def Concludes : Except String Json → Prop
  | .ok value => ∃ exitCode stdout stderr, codes exitCode ∧ value = execValue exitCode stdout stderr
  | .error error => Excuse told command.timeoutMs error

/-- What the worker knows, by what it does next. -/
def Knows : Stage → Prop
  | .queued request => request = req
  | .spawning spawned => spawned = command
  | .collectingStdout exitCode => codes exitCode
  | .collectingStderr exitCode _ => codes exitCode
  | .returning result => Concludes codes told command result
  | .replying result => Concludes codes told command result
  | .replied result => Concludes codes told command result
  | _ => True

/-- An error that a reading thread sends, or has sent. -/
def Excused (o : Output) : Prop :=
  (∀ error, o.reader = .sending (.error error) → Excuse told command.timeoutMs error) ∧
    ∀ error, o.sent = some (.error error) → Excuse told command.timeoutMs error

structure Outcome (job : Job) : Prop where
  knows : Knows codes told req command job.stage
  limit : (∀ request, job.stage ≠ .queued request) → job.timeoutMs = command.timeoutMs
  excused : ∀ stream, Excused told command (job.output stream)

end Outcome

section Steps

variable {home : Option String} {codes : Option Int → Prop} {told : String → Prop} {req : Json}
  {command : ExecCommand} {job : Job} {stream : Stream} {o : Output}

theorem Excused.quiet {o' : Output} (excused : Excused told command o)
    (reader : ∀ error, o'.reader = .sending (.error error) → o.reader = .sending (.error error))
    (sent : o'.sent = o.sent) : Excused told command o' :=
  ⟨fun error same => excused.1 error (reader error same),
    fun error same => excused.2 error (sent ▸ same)⟩

theorem Excused.fresh : Excused told command {} := ⟨nofun, nofun⟩

theorem Excused.write (excused : Excused told command o) (bytes : Bytes) :
    Excused told command (o.write bytes) := by
  unfold Output.write
  split
  · exact excused.quiet (fun _ same => same) rfl
  · exact excused

theorem Excused.read (excused : Excused told command o) (count : Nat) :
    Excused told command (o.read count) := by
  unfold Output.read
  split
  · dsimp only
    split
    · exact excused.quiet nofun rfl
    · split
      · exact excused.quiet nofun rfl
      · exact excused
  · exact excused

theorem Excused.readFails (excused : Excused told command o) {error : String} (known : told error) :
    Excused told command (o.readFails error) := by
  unfold Output.readFails
  split
  · refine ⟨?_, excused.2⟩
    rintro error ⟨⟩
    exact .read _ known
  · exact excused

theorem Excused.send (excused : Excused told command o) : Excused told command o.send := by
  unfold Output.send
  split
  · rename_i message sending
    refine ⟨nofun, ?_⟩
    rintro error ⟨⟩
    exact excused.1 error sending
  · exact excused

theorem excused_all (out : Excused told command job.stdout) (err : Excused told command job.stderr) :
    ∀ stream, Excused told command (job.output stream) := by
  intro stream
  cases stream with
  | stdout => exact out
  | stderr => exact err

/-- A stream changes. -/
theorem Outcome.setOutput (outcome : Outcome codes told req command job) {used : Nat} {overflow : Bool}
    (excused : Excused told command o) :
    Outcome codes told req command ({ job with used := used, overflow := overflow }.setOutput stream o) := by
  have stage : ({ job with used := used, overflow := overflow }.setOutput stream o).stage = job.stage :=
    setOutput_stage
  refine ⟨?_, ?_, ?_⟩
  · rw [stage]
    exact outcome.knows
  · rw [stage]
    cases stream <;> exact outcome.limit
  · intro other
    rw [setOutput_output]
    split
    · exact excused
    · exact excused_all (outcome.excused .stdout) (outcome.excused .stderr) other

/-- The worker goes on. -/
theorem Outcome.enter (outcome : Outcome codes told req command job) {stage : Stage}
    (knows : Knows codes told req command stage) (taken : ∀ request, job.stage ≠ .queued request) :
    Outcome codes told req command { job with stage := stage } :=
  ⟨knows, fun _ => outcome.limit taken,
    excused_all (outcome.excused .stdout) (outcome.excused .stderr)⟩

theorem Outcome.collect (outcome : Outcome codes told req command job)
    (taken : ∀ request, job.stage ≠ .queued request) (excused : Excused told command o)
    (timedOut : Bool) {next : Bytes → Stage} (knows : ∀ buf, Knows codes told req command (next buf)) :
    Outcome codes told req command (job.collect o timedOut next) := by
  have limit := outcome.limit taken
  unfold Job.collect
  split
  · exact outcome.enter (knows _) taken
  · rename_i error sent
    exact outcome.enter (excused.2 error sent) taken
  · split
    · refine outcome.enter ?_ taken
      rw [limit]
      exact .timedOut
    · exact outcome

/-- The request has been taken where the worker is elsewhere. -/
theorem taken_of {stage : Stage} (here : job.stage = stage)
    (elsewhere : ∀ request, stage ≠ .queued request) : ∀ request, job.stage ≠ .queued request := by
  rw [here]
  exact elsewhere

theorem Outcome.count (outcome : Outcome codes told req command job) (stream : Stream) :
    Outcome codes told req command (job.count stream) := by
  unfold Job.count
  dsimp only
  split
  · refine outcome.setOutput ?_
    split
    · exact (outcome.excused stream).quiet nofun rfl
    · exact (outcome.excused stream).quiet nofun rfl
  · exact outcome

theorem Outcome.raise (outcome : Outcome codes told req command job) (stream : Stream) :
    Outcome codes told req command (job.raise stream) := by
  unfold Job.raise
  dsimp only
  split
  · refine outcome.setOutput ⟨?_, (outcome.excused stream).2⟩
    rintro error ⟨⟩
    exact .overflow
  · exact outcome

/-- The checks are passed. -/
theorem Outcome.take (accepted : execCommand home req = .ok command)
    (outcome : Outcome codes told req command job) :
    Outcome codes told req command (job.step home .take) := by
  have knows := outcome.knows
  unfold Job.step act
  dsimp only
  split
  · rename_i request queued
    rw [queued] at knows
    cases knows
    rw [accepted]
    exact ⟨rfl, fun _ => rfl, excused_all (outcome.excused .stdout) (outcome.excused .stderr)⟩
  · exact outcome

theorem Outcome.spawn (outcome : Outcome codes told req command job) {child : Except String Nat}
    (reports : Reports codes told (.spawn child)) :
    Outcome codes told req command (job.step home (.spawn child)) := by
  unfold Job.step act
  dsimp only
  split
  · rename_i spawned spawning
    have taken := taken_of spawning nofun
    cases child with
    | ok pgid =>
        exact ⟨trivial, fun _ => outcome.limit taken, excused_all ⟨nofun, nofun⟩ ⟨nofun, nofun⟩⟩
    | error error => exact outcome.enter (.spawn error reports) taken
  · exact outcome

theorem Outcome.register (outcome : Outcome codes told req command job) :
    Outcome codes told req command (job.step home .register) := by
  unfold Job.step act
  dsimp only
  split
  · rename_i registering
    exact ⟨trivial, fun _ => outcome.limit (taken_of registering nofun),
      excused_all ((outcome.excused .stdout).quiet nofun rfl)
        ((outcome.excused .stderr).quiet nofun rfl)⟩
  · exact outcome

theorem Outcome.poll (outcome : Outcome codes told req command job) {waited : Waited}
    (reports : Reports codes told (.poll waited)) :
    Outcome codes told req command (job.step home (.poll waited)) := by
  unfold Job.step act
  dsimp only
  split
  · rename_i polling
    have taken := taken_of polling nofun
    cases waited with
    | exited exitCode => exact outcome.enter reports taken
    | running => exact outcome.enter trivial taken
    | failed error => exact outcome.enter (.wait error reports) taken
  · exact outcome

theorem Outcome.load (outcome : Outcome codes told req command job) :
    Outcome codes told req command (job.step home .load) := by
  unfold Job.step act
  dsimp only
  split
  · rename_i loading
    have taken := taken_of loading nofun
    split
    · exact outcome.enter .overflow taken
    · exact outcome.enter trivial taken
  · exact outcome

theorem Outcome.time (outcome : Outcome codes told req command job) (late : Bool) :
    Outcome codes told req command (job.step home (.time late)) := by
  unfold Job.step act
  dsimp only
  split
  · rename_i timing
    have taken := taken_of timing nofun
    split
    · refine outcome.enter ?_ taken
      rw [outcome.limit taken]
      exact .timedOut
    · exact outcome.enter trivial taken
  · exact outcome

/-- Both streams are collected, and make the value. -/
theorem Outcome.collected (outcome : Outcome codes told req command job) (timedOut : Bool) :
    Outcome codes told req command (job.step home (.collect timedOut)) := by
  have knows := outcome.knows
  unfold Job.step act
  dsimp only
  split
  · rename_i exitCode collecting
    rw [collecting] at knows
    exact outcome.collect (taken_of collecting nofun) (outcome.excused .stdout) timedOut
      fun _ => knows
  · rename_i exitCode stdout collecting
    rw [collecting] at knows
    exact outcome.collect (taken_of collecting nofun) (outcome.excused .stderr) timedOut
      fun stderr => ⟨exitCode, stdout, stderr, knows, rfl⟩
  · exact outcome

theorem Outcome.drop (outcome : Outcome codes told req command job) :
    Outcome codes told req command (job.step home .drop) := by
  have knows := outcome.knows
  unfold Job.step act
  dsimp only
  split
  · rename_i result returning
    rw [returning] at knows
    exact outcome.enter knows (taken_of returning nofun)
  · exact outcome

theorem Outcome.reply (outcome : Outcome codes told req command job) :
    Outcome codes told req command (job.step home .reply) := by
  have knows := outcome.knows
  unfold Job.step act
  dsimp only
  split
  · rename_i result replying
    rw [replying] at knows
    exact outcome.enter knows (taken_of replying nofun)
  · exact outcome

theorem Outcome.step (accepted : execCommand home req = .ok command)
    (outcome : Outcome codes told req command job) {event : JobEvent} (reports : Reports codes told event) :
    Outcome codes told req command (job.step home event) := by
  cases event with
  | write stream bytes => exact outcome.setOutput ((outcome.excused stream).write bytes)
  | close stream =>
      exact outcome.setOutput ((outcome.excused stream).quiet (fun _ same => same) rfl)
  | read stream count => exact outcome.setOutput ((outcome.excused stream).read count)
  | readFails stream error => exact outcome.setOutput ((outcome.excused stream).readFails reports)
  | count stream => exact outcome.count stream
  | raise stream => exact outcome.raise stream
  | send stream => exact outcome.setOutput (outcome.excused stream).send
  | take => exact outcome.take accepted
  | spawn child => exact outcome.spawn reports
  | register => exact outcome.register
  | poll waited => exact outcome.poll reports
  | load => exact outcome.load
  | time late => exact outcome.time late
  | collect timedOut => exact outcome.collected timedOut
  | drop => exact outcome.drop
  | reply => exact outcome.reply

end Steps

section Results

variable {home : Option String} {codes : Option Int → Prop} {told : String → Prop} {req : Json}
  {command : ExecCommand} {job : Job}

theorem Runs.outcome (accepted : execCommand home req = .ok command)
    (runs : Runs home codes told req job) : Outcome codes told req command job := by
  refine Reaches.invariant ?_ (fun _ event outcome reports => outcome.step accepted reports) runs
  exact ⟨rfl, fun taken => absurd rfl (taken req), excused_all .fresh .fresh⟩

theorem Runs.sound (runs : Runs home codes told req job) : job.Sound := by
  have reached : Reached home req job := by
    induction runs with
    | refl => exact .refl
    | next _ _ ih => exact ih.next trivial
  exact reached.sound

theorem Runs.concludes (accepted : execCommand home req = .ok command)
    (runs : Runs home codes told req job) {result : Except String Json}
    (returned : job.result = some result) : Concludes codes told command result := by
  have knows := (runs.outcome accepted).knows
  unfold Job.result at returned
  split at returned
  · rename_i same
    cases returned
    rwa [same] at knows
  · rename_i same
    cases returned
    rwa [same] at knows
  · rename_i same
    cases returned
    rwa [same] at knows
  · cases returned

/-- A value has the whole of both streams, with a status that was reported. -/
theorem Runs.value (accepted : execCommand home req = .ok command)
    (runs : Runs home codes told req job) {value : Json} (returned : job.result = some (.ok value)) :
    ∃ exitCode, codes exitCode ∧ value = execValue exitCode job.stdout.written job.stderr.written ∧
      job.stdout.written.length + job.stderr.written.length ≤ execOutputLimit := by
  obtain ⟨exitCode, _, _, known, shape⟩ := runs.concludes accepted returned
  have sound := runs.sound
  obtain ⟨other, stdout, stderr, rfl, first, second⟩ := sound.returned value returned
  obtain ⟨-, sameOut, wholeOut⟩ := (sound.outputs .stdout).sent stdout first
  obtain ⟨-, sameErr, wholeErr⟩ := (sound.outputs .stderr).sent stderr second
  have out : stdout = job.stdout.written := sameOut.trans wholeOut.kept
  have err : stderr = job.stderr.written := sameErr.trans wholeErr.kept
  have bounded := sound.bounded
  unfold total at bounded
  have keptOut : job.stdout.buf = job.stdout.written := wholeOut.kept
  have keptErr : job.stderr.buf = job.stderr.written := wholeErr.kept
  dsimp only at bounded
  rw [keptOut, keptErr] at bounded
  refine ⟨exitCode, known, ?_, bounded⟩
  have status : other.elim Json.null .int = exitCode.elim .null .int := by
    simp only [execValue, Json.obj.injEq, List.cons.injEq, Prod.mk.injEq] at shape
    exact shape.1.2
  rw [← out, ← err, execValue, execValue, status]

end Results

end Job

end EmacsRelay.Server

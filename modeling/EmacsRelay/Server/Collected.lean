import EmacsRelay.Server.Exec

set_option autoImplicit false

/- What `exec` returns is all that the command has written, and is bounded, in whatever order the
reading threads and the worker take their steps. -/
namespace EmacsRelay.Server

namespace Output

/-- The pipe is at its end, and everything that went through it is kept. -/
structure Whole (o : Output) : Prop where
  kept : o.buf = o.written
  closed : o.isOpen = false

/-- What is kept, what is being counted and what is still in the pipe is all that was written, as
long as the thread reads on. -/
def Kept (o : Output) : Prop :=
  match o.reader with
  | .unstarted => o.buf = [] ∧ o.pending = o.written
  | .reading => o.buf ++ o.pending = o.written
  | .counting chunk => o.buf ++ chunk ++ o.pending = o.written ∧ chunk.length ≤ chunkSize
  | .sending (.ok buf) => buf = o.buf ∧ o.Whole
  | _ => True

structure Sound (o : Output) : Prop where
  kept : o.Kept
  sent : ∀ buf, o.sent = some (.ok buf) → o.reader = .done ∧ buf = o.buf ∧ o.Whole

/-- The bytes by which a thread that counts no more may have passed the limit. -/
def excess (o : Output) : Nat :=
  match o.reader with
  | .unstarted => 0
  | .reading => 0
  | .counting _ => 0
  | _ => chunkSize

/-- A step of the pipe or of its reader that counts nothing. -/
structure Follows (o o' : Output) : Prop where
  sound : o'.Sound
  buf : o'.buf = o.buf
  excess : o.excess ≤ o'.excess
  sent : ∀ buf, o.sent = some (.ok buf) → o'.sent = some (.ok buf)
  idle : o.reader = .unstarted → o'.reader = .unstarted

section Steps

variable {o : Output}

theorem Sound.refl (sound : o.Sound) : o.Follows o :=
  ⟨sound, rfl, Nat.le_refl _, fun _ same => same, fun idle => idle⟩

theorem Sound.write (sound : o.Sound) (bytes : Bytes) : o.Follows (o.write bytes) := by
  unfold Output.write
  cases isOpen : o.isOpen with
  | false => exact sound.refl
  | true =>
      have open_pipe : ¬ o.Whole := fun whole => by
        rw [whole.closed] at isOpen
        cases isOpen
      rw [if_pos rfl]
      refine ⟨⟨?_, ?_⟩, rfl, Nat.le_refl _, fun _ same => same, fun idle => idle⟩
      · have kept := sound.kept
        unfold Kept at kept ⊢
        dsimp only
        split at kept
        · exact ⟨kept.1, by rw [kept.2]⟩
        · rw [← kept, List.append_assoc]
        · refine ⟨?_, kept.2⟩
          rw [← kept.1]
          simp only [List.append_assoc]
        · exact absurd kept.2 open_pipe
        · trivial
      · intro buf sent
        exact absurd (sound.sent buf sent).2.2 open_pipe

theorem Sound.close (sound : o.Sound) : o.Follows o.close := by
  refine ⟨⟨?_, ?_⟩, rfl, Nat.le_refl _, fun _ same => same, fun idle => idle⟩
  · have kept := sound.kept
    unfold Kept at kept ⊢
    unfold Output.close
    dsimp only
    split at kept
    · exact kept
    · exact kept
    · exact kept
    · exact ⟨kept.1, kept.2.kept, rfl⟩
    · trivial
  · intro buf sent
    obtain ⟨done, same, whole⟩ := sound.sent buf sent
    exact ⟨done, same, whole.kept, rfl⟩

/-- A message that is there was sent by a thread that is done. -/
theorem Sound.unsent (sound : o.Sound) (busy : o.reader ≠ .done) (buf : Bytes) :
    o.sent ≠ some (.ok buf) := fun sent => busy (sound.sent buf sent).1

theorem Sound.read (sound : o.Sound) (count : Nat) : o.Follows (o.read count) := by
  unfold Output.read
  split
  · rename_i reading
    have kept := sound.kept
    have busy : o.reader ≠ .done := by
      rw [reading]
      exact nofun
    have started : o.reader = .unstarted → False := by
      rw [reading]
      exact nofun
    have zero : o.excess = 0 := by
      unfold Output.excess
      rw [reading]
    unfold Kept at kept
    rw [reading] at kept
    dsimp only at kept ⊢
    split
    · refine ⟨⟨⟨?_, ?_⟩, ?_⟩, rfl, ?_, ?_, fun idle => (started idle).elim⟩
      · rw [List.append_assoc, List.take_append_drop]
        exact kept
      · rw [List.length_take]
        omega
      · exact fun buf sent => absurd sent (sound.unsent busy buf)
      · rw [zero]
        exact Nat.zero_le _
      · exact fun _ sent => sent
    · split
      · rename_i ended
        refine ⟨⟨⟨rfl, ?_, ended.2⟩, ?_⟩, rfl, ?_, fun _ sent => sent,
          fun idle => (started idle).elim⟩
        · rw [← kept, ended.1, List.append_nil]
        · exact fun buf sent => absurd sent (sound.unsent busy buf)
        · rw [zero]
          exact Nat.zero_le _
      · exact sound.refl
  · exact sound.refl

theorem Sound.readFails (sound : o.Sound) (error : String) : o.Follows (o.readFails error) := by
  unfold Output.readFails
  split
  · rename_i reading
    have busy : o.reader ≠ .done := by
      rw [reading]
      exact nofun
    refine ⟨⟨trivial, fun buf sent => absurd sent (sound.unsent busy buf)⟩, rfl, ?_,
      fun _ sent => sent, fun idle => ?_⟩
    · unfold Output.excess
      rw [reading]
      exact Nat.zero_le _
    · rw [reading] at idle
      cases idle
  · exact sound.refl

theorem Sound.send (sound : o.Sound) : o.Follows o.send := by
  unfold Output.send
  split
  · rename_i message sending
    have kept := sound.kept
    unfold Kept at kept
    rw [sending] at kept
    have busy : o.reader ≠ .done := by
      rw [sending]
      exact nofun
    refine ⟨⟨trivial, ?_⟩, rfl, ?_, fun buf sent => absurd sent (sound.unsent busy buf),
      fun idle => ?_⟩
    · intro buf sent
      cases sent
      exact ⟨rfl, kept.1, kept.2.kept, kept.2.closed⟩
    · unfold Output.excess
      rw [sending]
    · rw [sending] at idle
      cases idle
  · exact sound.refl

theorem Sound.raise (sound : o.Sound) (raising : o.reader = .raising) (error : String) :
    o.Follows { o with reader := .sending (.error error) } := by
  have busy : o.reader ≠ .done := by
    rw [raising]
    exact nofun
  refine ⟨⟨trivial, fun buf sent => absurd sent (sound.unsent busy buf)⟩, rfl, ?_,
    fun _ sent => sent, fun idle => ?_⟩
  · unfold Output.excess
    rw [raising]
  · rw [raising] at idle
    cases idle

/-- The reader is started. -/
theorem Sound.start (sound : o.Sound) (idle : o.reader = .unstarted) :
    Output.Sound { o with reader := .reading } := by
  have kept := sound.kept
  have busy : o.reader ≠ .done := by
    rw [idle]
    exact nofun
  unfold Kept at kept
  rw [idle] at kept
  refine ⟨?_, fun buf sent => absurd sent (sound.unsent busy buf)⟩
  change o.buf ++ o.pending = o.written
  rw [kept.1, kept.2, List.nil_append]

end Steps

end Output

namespace Job

/-- The command does not run yet, or nothing reads what it writes. -/
def unread (job : Job) : Prop :=
  match job.stage with
  | .queued _ => True
  | .spawning _ => True
  | .registering => True
  | _ => False

def total (job : Job) (measure : Output → Nat) : Nat := measure job.stdout + measure job.stderr

/-- The message of a stream is there, for the worker. -/
def Sent (job : Job) (stream : Stream) (buf : Bytes) : Prop :=
  (job.output stream).sent = some (.ok buf)

/-- What holds of a request at any time: nothing is lost, what is kept is counted and bounded, and
what the worker has collected was sent. -/
structure Sound (job : Job) : Prop where
  outputs : ∀ stream, (job.output stream).Sound
  counted : job.total (·.buf.length) ≤ job.used
  bounded : job.total (·.buf.length) ≤ execOutputLimit
  small : job.used ≤ execOutputLimit + job.total Output.excess
  idle : job.unread → ∀ stream, (job.output stream).reader = .unstarted
  collected : ∀ exitCode stdout, job.stage = .collectingStderr exitCode stdout →
    job.Sent .stdout stdout
  returned : ∀ value, job.result = some (.ok value) → ∃ exitCode stdout stderr,
    value = execValue exitCode stdout stderr ∧ job.Sent .stdout stdout ∧ job.Sent .stderr stderr

section Outputs

variable {job : Job} {stream : Stream} {o : Output}

@[simp] theorem setOutput_stage : (job.setOutput stream o).stage = job.stage := by
  cases stream <;> rfl

@[simp] theorem setOutput_used : (job.setOutput stream o).used = job.used := by
  cases stream <;> rfl

theorem setOutput_output (other : Stream) :
    (job.setOutput stream o).output other = if other = stream then o else job.output other := by
  cases stream <;> cases other <;> rfl

theorem total_setOutput (job : Job) (stream : Stream) (o : Output) (measure : Output → Nat) :
    (job.setOutput stream o).total measure + measure (job.output stream) =
      job.total measure + measure o := by
  unfold total
  cases stream with
  | stdout =>
      simp only [output, setOutput]
      omega
  | stderr =>
      simp only [output, setOutput]
      omega

end Outputs

section Steps

variable {home : Option String} {job : Job} {stream : Stream} {o : Output}

/-- A stream and the count change. -/
theorem Sound.change (sound : job.Sound) {used : Nat} (whole : o.Sound)
    (counted : job.total (·.buf.length) + o.buf.length ≤
      used + (job.output stream).buf.length)
    (bounded : job.total (·.buf.length) + o.buf.length ≤
      execOutputLimit + (job.output stream).buf.length)
    (small : used + (job.output stream).excess ≤
      execOutputLimit + job.total Output.excess + o.excess)
    (sent : ∀ buf, job.Sent stream buf → o.sent = some (.ok buf))
    (idle : (job.output stream).reader = .unstarted → o.reader = .unstarted) :
    ({ job with used := used }.setOutput stream o).Sound := by
  have remains : ∀ other buf, job.Sent other buf →
      ({ job with used := used }.setOutput stream o).Sent other buf := by
    intro other buf known
    unfold Sent
    rw [setOutput_output]
    split
    · rename_i same
      exact sent buf (same ▸ known)
    · exact known
  have kept := total_setOutput { job with used := used } stream o (·.buf.length)
  have passed := total_setOutput { job with used := used } stream o Output.excess
  change _ + (job.output stream).buf.length = job.total (·.buf.length) + _ at kept
  change _ + (job.output stream).excess = job.total Output.excess + _ at passed
  refine ⟨?_, ?_, ?_, ?_, ?_, ?_, ?_⟩
  · intro other
    rw [setOutput_output]
    split
    · exact whole
    · exact sound.outputs other
  · rw [setOutput_used]
    dsimp only
    omega
  · omega
  · rw [setOutput_used]
    dsimp only
    omega
  · intro unread other
    have before : job.unread := by
      unfold Job.unread at unread ⊢
      rwa [setOutput_stage] at unread
    rw [setOutput_output]
    split
    · exact idle (sound.idle before stream)
    · exact sound.idle before other
  · intro exitCode stdout collecting
    rw [setOutput_stage] at collecting
    exact remains _ _ (sound.collected exitCode stdout collecting)
  · intro value ok
    have before : job.result = some (.ok value) := by
      unfold Job.result at ok ⊢
      rwa [setOutput_stage] at ok
    obtain ⟨exitCode, stdout, stderr, same, first, second⟩ := sound.returned value before
    exact ⟨exitCode, stdout, stderr, same, remains _ _ first, remains _ _ second⟩

theorem Sound.setOutput (sound : job.Sound) (follows : (job.output stream).Follows o) :
    (job.setOutput stream o).Sound := by
  have same : o.buf.length = (job.output stream).buf.length := congrArg List.length follows.buf
  have counted := sound.counted
  have bounded := sound.bounded
  have small := sound.small
  have more := follows.excess
  refine sound.change follows.sound ?_ ?_ ?_ follows.sent follows.idle
  · omega
  · omega
  · omega

/-- Only a thread that counts passes the limit, by what it has read at once. -/
theorem Sound.count (sound : job.Sound) (stream : Stream) : (job.count stream).Sound := by
  unfold Job.count
  dsimp only
  split
  · rename_i chunk counting
    have whole := sound.outputs stream
    have kept := whole.kept
    unfold Output.Kept at kept
    rw [counting] at kept
    have busy : (job.output stream).reader ≠ .done := by
      rw [counting]
      exact nofun
    have started : (job.output stream).reader = .unstarted → False := by
      rw [counting]
      exact nofun
    have zero : (job.output stream).excess = 0 := by
      unfold Output.excess
      rw [counting]
    have counted := sound.counted
    have small := sound.small
    have bounded := sound.bounded
    split
    · refine sound.change ⟨trivial, fun buf sent => absurd sent (whole.unsent busy buf)⟩ ?_ ?_ ?_
        (fun buf sent => absurd sent (whole.unsent busy buf)) fun idle => (started idle).elim
      · dsimp only
        omega
      · dsimp only
        omega
      · change _ ≤ _ + chunkSize
        have size := kept.2
        omega
    · rename_i within
      refine sound.change ⟨kept.1, fun buf sent => absurd sent (whole.unsent busy buf)⟩ ?_ ?_ ?_
        (fun buf sent => absurd sent (whole.unsent busy buf)) fun idle => (started idle).elim
      · dsimp only
        rw [List.length_append]
        omega
      · dsimp only
        rw [List.length_append]
        omega
      · omega
  · exact sound

theorem Sound.raise (sound : job.Sound) (stream : Stream) : (job.raise stream).Sound := by
  unfold Job.raise
  dsimp only
  split
  · rename_i raising
    have raised : ({ job with overflow := true } : Job).Sound :=
      ⟨sound.outputs, sound.counted, sound.bounded, sound.small, sound.idle, sound.collected,
        sound.returned⟩
    exact raised.setOutput ((sound.outputs stream).raise raising execOverflow)
  · exact sound

/-- The worker goes on to another stage. -/
theorem Sound.enter (sound : job.Sound) {stage : Stage} {timeoutMs : Nat}
    (unread : ({ job with stage := stage } : Job).unread → job.unread)
    (collected : ∀ exitCode stdout, stage = .collectingStderr exitCode stdout →
      job.Sent .stdout stdout)
    (returned : ∀ value, ({ job with stage := stage } : Job).result = some (.ok value) →
      ∃ exitCode stdout stderr, value = execValue exitCode stdout stderr ∧
        job.Sent .stdout stdout ∧ job.Sent .stderr stderr) :
    ({ job with stage := stage, timeoutMs := timeoutMs } : Job).Sound :=
  ⟨sound.outputs, sound.counted, sound.bounded, sound.small, fun waits => sound.idle (unread waits),
    collected, returned⟩

theorem Sound.fails (sound : job.Sound) (error : String) : (job.fails error).Sound :=
  sound.enter nofun nofun nofun

theorem Sound.collect (sound : job.Sound) (timedOut : Bool) {next : Bytes → Stage}
    (brings : ∀ buf, o.sent = some (.ok buf) → ({ job with stage := next buf } : Job).Sound) :
    (job.collect o timedOut next).Sound := by
  unfold Job.collect
  split
  · rename_i buf sent
    exact brings buf sent
  · exact sound.fails _
  · split
    · exact sound.fails _
    · exact sound

/-- Nothing is counted before the command's output is read. -/
theorem Sound.unpassed (sound : job.Sound) (unread : job.unread) :
    job.total Output.excess = 0 := by
  have none_passed : ∀ stream, (job.output stream).excess = 0 := by
    intro stream
    unfold Output.excess
    rw [sound.idle unread stream]
  have first := none_passed .stdout
  have second := none_passed .stderr
  change job.stdout.excess = 0 at first
  change job.stderr.excess = 0 at second
  unfold total
  omega

theorem Sound.take (sound : job.Sound) : (job.step home .take).Sound := by
  unfold step act
  dsimp only
  split
  · rename_i req queued
    have unread : job.unread := by
      unfold Job.unread
      rw [queued]
      trivial
    split
    · exact sound.enter (fun _ => unread) nofun nofun
    · exact sound.enter (fun _ => unread) nofun nofun
  · exact sound

theorem Sound.spawn (sound : job.Sound) (child : Except String Nat) :
    (job.step home (.spawn child)).Sound := by
  unfold step act
  dsimp only
  split
  · rename_i command spawning
    have unread : job.unread := by
      unfold Job.unread
      rw [spawning]
      trivial
    split
    · have fresh : Output.Sound { isOpen := true } := ⟨⟨rfl, rfl⟩, nofun⟩
      have small := sound.small
      refine ⟨?_, Nat.zero_le _, Nat.zero_le _, ?_, ?_, nofun, nofun⟩
      · intro stream
        cases stream <;> exact fresh
      · rw [sound.unpassed unread] at small
        exact small
      · intro _ stream
        cases stream <;> rfl
    · exact sound.enter (fun _ => unread) nofun nofun
  · exact sound

theorem Sound.register (sound : job.Sound) : (job.step home .register).Sound := by
  unfold step act
  dsimp only
  split
  · rename_i registering
    have unread : job.unread := by
      unfold Job.unread
      rw [registering]
      trivial
    have small := sound.small
    rw [sound.unpassed unread] at small
    refine ⟨?_, sound.counted, sound.bounded, small, nofun, nofun, nofun⟩
    intro stream
    have started := (sound.outputs stream).start (sound.idle unread stream)
    cases stream <;> exact started
  · exact sound

theorem Sound.step (sound : job.Sound) (event : JobEvent) : (job.step home event).Sound := by
  cases event with
  | write stream bytes => exact sound.setOutput ((sound.outputs stream).write bytes)
  | close stream => exact sound.setOutput (sound.outputs stream).close
  | read stream count => exact sound.setOutput ((sound.outputs stream).read count)
  | readFails stream error => exact sound.setOutput ((sound.outputs stream).readFails error)
  | count stream => exact sound.count stream
  | raise stream => exact sound.raise stream
  | send stream => exact sound.setOutput (sound.outputs stream).send
  | take => exact sound.take
  | spawn child => exact sound.spawn child
  | register => exact sound.register
  | poll waited =>
      unfold Job.step act
      dsimp only
      split
      · cases waited with
        | exited exitCode => exact sound.enter nofun nofun nofun
        | running => exact sound.enter nofun nofun nofun
        | failed error => exact sound.fails _
      · exact sound
  | load =>
      unfold Job.step act
      dsimp only
      split
      · split
        · exact sound.fails _
        · exact sound.enter nofun nofun nofun
      · exact sound
  | time late =>
      unfold Job.step act
      dsimp only
      split
      · split
        · exact sound.fails _
        · exact sound.enter nofun nofun nofun
      · exact sound
  | collect timedOut =>
      unfold Job.step act
      dsimp only
      split
      · refine sound.collect timedOut fun buf sent => sound.enter nofun ?_ nofun
        rintro exitCode stdout same
        cases same
        exact sent
      · rename_i exitCode stdout collecting
        refine sound.collect timedOut fun buf sent => sound.enter nofun nofun ?_
        rintro value ok
        cases ok
        exact ⟨exitCode, stdout, buf, rfl, sound.collected exitCode stdout collecting, sent⟩
      · exact sound
  | drop =>
      unfold Job.step act
      dsimp only
      split
      · rename_i result returning
        refine sound.enter nofun nofun fun value ok => sound.returned value ?_
        unfold Job.result
        rw [returning]
        exact ok
      · exact sound
  | reply =>
      unfold Job.step act
      dsimp only
      split
      · rename_i result replying
        refine sound.enter nofun nofun fun value ok => sound.returned value ?_
        unfold Job.result
        rw [replying]
        exact ok
      · exact sound

end Steps

section Runs

variable {home : Option String} {req : Json} {job : Job}

theorem Reached.sound (reached : Reached home req job) : job.Sound := by
  have clean : Output.Sound {} := ⟨⟨rfl, rfl⟩, nofun⟩
  refine Reaches.invariant ?_ (fun _ event sound _ => sound.step event) reached
  refine ⟨?_, Nat.zero_le _, Nat.zero_le _, Nat.zero_le _, ?_, nofun, nofun⟩
  · intro stream
    cases stream <;> exact clean
  · intro _ stream
    cases stream <;> rfl

/-- What a command has written to both streams. -/
def written (job : Job) : Nat := job.stdout.written.length + job.stderr.written.length

/-- What is returned for a command that has exited is the whole of both streams, which nobody
writes to any more; and nothing of the kind is returned for streams that pass the limit. -/
theorem exec_complete (home : Option String) (req : Json) (job : Job)
    (reached : Reached home req job) :
    (∀ value, job.result = some (.ok value) →
      (∃ exitCode, value = execValue exitCode job.stdout.written job.stderr.written) ∧
        job.stdout.isOpen = false ∧ job.stderr.isOpen = false ∧ job.written ≤ execOutputLimit) ∧
    (execOutputLimit < job.written → ∀ value, job.result ≠ some (.ok value)) := by
  have sound := reached.sound
  have complete : ∀ value, job.result = some (.ok value) →
      (∃ exitCode, value = execValue exitCode job.stdout.written job.stderr.written) ∧
        job.stdout.isOpen = false ∧ job.stderr.isOpen = false ∧ job.written ≤ execOutputLimit := by
    intro value ok
    obtain ⟨exitCode, stdout, stderr, rfl, first, second⟩ := sound.returned value ok
    obtain ⟨-, sameOut, wholeOut⟩ := (sound.outputs .stdout).sent stdout first
    obtain ⟨-, sameErr, wholeErr⟩ := (sound.outputs .stderr).sent stderr second
    change stdout = job.stdout.buf at sameOut
    change stderr = job.stderr.buf at sameErr
    have bounded := sound.bounded
    unfold total at bounded
    refine ⟨⟨exitCode, ?_⟩, wholeOut.closed, wholeErr.closed, ?_⟩
    · rw [sameOut, sameErr]
      exact congrArg₂ (execValue exitCode) wholeOut.kept wholeErr.kept
    · have keptOut : job.stdout.buf = job.stdout.written := wholeOut.kept
      have keptErr : job.stderr.buf = job.stderr.written := wholeErr.kept
      dsimp only at bounded
      rw [keptOut, keptErr] at bounded
      exact bounded
  refine ⟨complete, fun passes value ok => ?_⟩
  have within := (complete value ok).2.2.2
  omega

/-- A command prints a byte and exits. -/
def printing : Job :=
  [.take, .spawn (.ok 7), .register, .write .stdout [104], .close .stdout, .read .stdout 16,
    .count .stdout, .poll .running, .load, .read .stdout 16, .close .stderr, .read .stderr 16,
    .time false, .send .stderr, .poll (.exited (some 0)), .collect false, .send .stdout,
    .collect false, .collect false].foldl (step none)
      { stage := .queued (.obj [("command", .arr [.str "printf", .str "h"])]) }

theorem exec_complete_printing :
    (∃ exitCode, execValue (some 0) [104] [] =
      execValue exitCode printing.stdout.written printing.stderr.written) ∧
    printing.stdout.isOpen = false ∧ printing.stderr.isOpen = false ∧
    printing.written ≤ execOutputLimit :=
  (exec_complete none (.obj [("command", .arr [.str "printf", .str "h"])]) printing
    (Reaches.of_along .refl (by simp only [Reaches.Along, and_self]))).1 _ rfl

end Runs

end Job

end EmacsRelay.Server

import EmacsRelay.Server.Exec

set_option autoImplicit false

/- The workers, the registry of commands under way and the end of the server,
`server/src/fs_handlers.rs` and `server/src/main.rs`: which process groups are killed. -/
namespace EmacsRelay.Server

/-- `FS_WORKER_COUNT`. -/
def fsWorkerCount : Nat := 8

/-- The thread that reads requests, until the end of its input; then it takes the registry's
process groups out and kills one after the other. -/
inductive MainThread where
  | serving
  | killing (pgids : List Nat)
  | exited
deriving DecidableEq, Repr

/-- The process groups that are still to be killed. -/
def MainThread.left : MainThread → List Nat
  | .killing pgids => pgids
  | _ => []

/-- The server with its exec requests. `groups` gives the request that a process group was spawned
for last, and `signalled` the requests whose process group has been sent `SIGKILL`. -/
structure ExecServer where
  jobs : Nat → Job
  busy : List Nat := []
  registry : List Nat := []
  groups : Nat → Option Nat := fun _ => none
  signalled : Nat → Bool := fun _ => false
  main : MainThread := .serving

inductive ServerEvent where
  | job (j : Nat) (event : JobEvent)
  | eof
  /-- The next process group is killed. -/
  | kill
  | exit

def JobEvent.isTake : JobEvent → Bool
  | .take => true
  | _ => false

namespace ExecServer

@[simps] def set (s : ExecServer) (j : Nat) (job : Job) : ExecServer :=
  { s with jobs := fun i => if i = j then job else s.jobs i }

/-- `killpg`, with `SIGKILL`. -/
@[simps] def killpg (s : ExecServer) (pgid : Nat) : ExecServer :=
  { s with signalled := fun i => s.signalled i || decide (s.groups pgid = some i) }

/-- What the worker of request `j` does to the rest of the server. -/
def affect (s : ExecServer) (j : Nat) (pgid : Option Nat) : Effect → ExecServer
  | .silent => s
  | .taken => { s with busy := j :: s.busy }
  | .spawned pgid => { s with groups := fun p => if p = pgid then some j else s.groups p }
  | .registered => pgid.elim s fun pgid => { s with registry := s.registry.insert pgid }
  | .killed => pgid.elim s s.killpg
  | .dropped => pgid.elim s fun pgid => { s with registry := s.registry.filter (· ≠ pgid) }
  | .replied => { s with busy := s.busy.erase j }

variable (home : Option String)

/-- No thread survives the end of the main thread, and a request waits for a worker. -/
def step (s : ExecServer) : ServerEvent → ExecServer
  | .job j event =>
      if s.main = .exited ∨ event.isTake = true ∧ fsWorkerCount ≤ s.busy.length then s
      else
        let acted := (s.jobs j).act home event
        (s.set j acted.1).affect j (s.jobs j).pgid acted.2
  | .eof =>
      match s.main with
      | .serving => { s with registry := [], main := .killing s.registry }
      | _ => s
  | .kill =>
      match s.main with
      | .killing (pgid :: pgids) => { s.killpg pgid with main := .killing pgids }
      | _ => s
  | .exit =>
      match s.main with
      | .killing [] => { s with main := .exited }
      | _ => s

/-- States that are reached by events which are all permitted where they happen. -/
abbrev Reached (permitted : ExecServer → ServerEvent → Prop) (requests : Nat → Json)
    (s : ExecServer) : Prop :=
  Reaches (step home) permitted { jobs := fun j => { stage := .queued (requests j) } } s

end ExecServer

/-- How far a request has come. -/
inductive Phase where
  | waiting
  | starting
  | running
  | returning (result : Except String Json)
  | replying (result : Except String Json)
  | replied (result : Except String Json)

def Stage.phase : Stage → Phase
  | .queued _ => .waiting
  | .spawning _ => .waiting
  | .registering => .starting
  | .polling => .running
  | .loading => .running
  | .timing => .running
  | .collectingStdout _ => .running
  | .collectingStderr _ _ => .running
  | .returning result => .returning result
  | .replying result => .replying result
  | .replied result => .replied result

namespace Phase

def result : Phase → Option (Except String Json)
  | .returning result => some result
  | .replying result => some result
  | .replied result => some result
  | _ => none

/-- The request is in the registry, unless that has been drained. -/
inductive Registered : Phase → Prop where
  | running : Registered .running
  | returning (result : Except String Json) : Registered (.returning result)

/-- The command has been spawned, and its registration is not dropped. -/
inductive Held : Phase → Prop where
  | starting : Held .starting
  | registered {phase : Phase} (registered : phase.Registered) : Held phase

def Replied (phase : Phase) : Prop := ∃ result, phase = .replied result

end Phase

/-- The channel of a stream brings no output: an error, or nothing in time. -/
def Output.Misses (o : Output) (timedOut : Bool) : Prop :=
  match o.sent with
  | some (.ok _) => False
  | some (.error _) => True
  | none => timedOut = true

/-- The command has exited, and its output cannot be collected. -/
def Job.Misses (job : Job) : JobEvent → Prop
  | .collect timedOut =>
      match job.stage with
      | .collectingStdout _ => job.stdout.Misses timedOut
      | .collectingStderr _ _ => job.stderr.Misses timedOut
      | _ => False
  | _ => False

/-- What a step does to a request, by its phase and its process group, and to what it shares. -/
inductive Turn (missed : Prop) (pgid : Option Nat) :
    Phase → Phase → Option Nat → Effect → Prop where
  | quiet (phase : Phase) : Turn missed pgid phase phase pgid .silent
  | taken : Turn missed pgid .waiting .waiting pgid .taken
  | refused (error : String) :
      Turn missed pgid .waiting (.replying (.error error)) pgid .taken
  | unspawned (error : String) :
      Turn missed pgid .waiting (.replying (.error error)) pgid .silent
  | spawned (p : Nat) : Turn missed pgid .waiting .starting (some p) (.spawned p)
  | registered : Turn missed pgid .starting .running pgid .registered
  | killed (error : String) :
      Turn missed pgid .running (.returning (.error error)) pgid .killed
  | missed (error : String) (misses : missed) :
      Turn missed pgid .running (.returning (.error error)) pgid .silent
  | collected (value : Json) : Turn missed pgid .running (.returning (.ok value)) pgid .silent
  | dropped (result : Except String Json) :
      Turn missed pgid (.returning result) (.replying result) pgid .dropped
  | replied (result : Except String Json) :
      Turn missed pgid (.replying result) (.replied result) pgid .replied

namespace Job

variable {home : Option String} {job : Job}

theorem setOutput_turn {missed : Prop} (stream : Stream) (o : Output) :
    Turn missed job.pgid job.stage.phase (job.setOutput stream o).stage.phase
      (job.setOutput stream o).pgid .silent := by
  cases stream <;> exact .quiet _

theorem collect_turn {missed : Prop} {o : Output} {timedOut : Bool} {next : Bytes → Stage}
    (running : job.stage.phase = .running) (misses : o.Misses timedOut → missed)
    (brings : ∀ buf, Turn missed job.pgid .running (next buf).phase job.pgid .silent) :
    Turn missed job.pgid job.stage.phase (job.collect o timedOut next).stage.phase
      (job.collect o timedOut next).pgid .silent := by
  unfold Output.Misses at misses
  unfold collect
  cases sent : o.sent with
  | some message =>
      rw [sent] at misses
      cases message with
      | ok buf =>
          rw [running]
          exact brings buf
      | error error =>
          rw [running]
          exact .missed error (misses trivial)
  | none =>
      rw [sent] at misses
      dsimp only
      split
      · rename_i late
        rw [running]
        exact .missed _ (misses late)
      · exact .quiet _

/-- What a step of a request can do. -/
theorem act_turn (home : Option String) (job : Job) (event : JobEvent) :
    Turn (job.Misses event) job.pgid job.stage.phase (job.act home event).1.stage.phase
      (job.act home event).1.pgid (job.act home event).2 := by
  cases event with
  | write stream bytes => exact setOutput_turn stream _
  | close stream => exact setOutput_turn stream _
  | read stream count => exact setOutput_turn stream _
  | readFails stream error => exact setOutput_turn stream _
  | send stream => exact setOutput_turn stream _
  | count stream =>
      unfold act count
      dsimp only
      split
      · cases stream <;> exact .quiet _
      · exact .quiet _
  | raise stream =>
      unfold act raise
      dsimp only
      split
      · cases stream <;> exact .quiet _
      · exact .quiet _
  | take =>
      unfold act
      dsimp only
      split
      · rename_i req queued
        rw [queued]
        split
        · exact .taken
        · exact .refused _
      · exact .quiet _
  | spawn child =>
      unfold act
      dsimp only
      split
      · rename_i command spawning
        rw [spawning]
        split
        · exact .spawned _
        · exact .unspawned _
      · exact .quiet _
  | register =>
      unfold act
      dsimp only
      split
      · rename_i registering
        rw [registering]
        exact .registered
      · exact .quiet _
  | poll waited =>
      unfold act
      dsimp only
      split
      · rename_i polling
        rw [polling]
        cases waited with
        | exited exitCode => exact .quiet _
        | running => exact .quiet _
        | failed error => exact .killed _
      · exact .quiet _
  | load =>
      unfold act
      dsimp only
      split
      · rename_i loading
        rw [loading]
        split
        · exact .killed _
        · exact .quiet _
      · exact .quiet _
  | time late =>
      unfold act
      dsimp only
      split
      · rename_i timing
        rw [timing]
        split
        · exact .killed _
        · exact .quiet _
      · exact .quiet _
  | collect timedOut =>
      unfold act
      dsimp only
      split
      · rename_i exitCode collecting
        refine collect_turn (congrArg Stage.phase collecting) (fun misses => ?_) fun _ => .quiet _
        unfold Misses
        rwa [collecting]
      · rename_i exitCode stdout collecting
        refine collect_turn (congrArg Stage.phase collecting) (fun misses => ?_)
          fun _ => .collected _
        unfold Misses
        rwa [collecting]
      · exact .quiet _
  | drop =>
      unfold act
      dsimp only
      split
      · rename_i result returning
        rw [returning]
        exact .dropped result
      · exact .quiet _
  | reply =>
      unfold act
      dsimp only
      split
      · rename_i result replying
        rw [replying]
        exact .replied result
      · exact .quiet _

/-- Only a request that is about to spawn its command does. -/
theorem act_spawned {event : JobEvent} {p : Nat} (spawned : (job.act home event).2 = .spawned p) :
    (∃ command, job.stage = .spawning command) ∧ event = .spawn (.ok p) := by
  cases event with
  | spawn child =>
      unfold act at spawned
      dsimp only at spawned
      split at spawned
      · rename_i command spawning
        cases child with
        | ok pgid =>
            cases spawned
            exact ⟨⟨command, spawning⟩, rfl⟩
        | error error => cases spawned
      · cases spawned
  | _ =>
      unfold act at spawned
      dsimp only at spawned
      repeat' split at spawned
      all_goals cases spawned

end Job

namespace ExecServer

def phase (s : ExecServer) (j : Nat) : Phase := (s.jobs j).stage.phase

def pgid (s : ExecServer) (j : Nat) : Option Nat := (s.jobs j).pgid

/-- What holds while no registration is lost: who has been spawned, whose process group is whose,
what the registry lists, and who has been signalled. -/
structure Guarded (s : ExecServer) : Prop where
  unspawned : ∀ j, s.phase j = .waiting → s.pgid j = none
  spawned : ∀ j, (s.phase j).Held → ∃ p, s.pgid j = some p
  owner : ∀ j p, s.pgid j = some p → (s.phase j).Held → s.groups p = some j
  listed : s.main = .serving → ∀ j p, s.pgid j = some p → (s.phase j).Registered →
    s.signalled j = true ∨ p ∈ s.registry
  failed : ∀ j p error, s.pgid j = some p → (s.phase j).result = some (.error error) →
    s.signalled j = true
  shut : s.main ≠ .serving → ∀ j p, s.pgid j = some p → ¬ (s.phase j).Replied →
    s.signalled j = true ∨ p ∈ s.main.left ∧ s.groups p = some j

/-- No registration is lost: a command is spawned before the end of the input, under an id that no
other registration has; its output can be collected once it has exited, or it has been signalled;
and the input ends when no command is being registered and none that was dropped is still to be
answered. -/
def Careful (s : ExecServer) : ServerEvent → Prop
  | .job j event =>
      ((s.jobs j).Misses event → s.signalled j = true) ∧
        ∀ command p, (s.jobs j).stage = .spawning command → event = .spawn (.ok p) →
          s.main = .serving ∧ ∀ i, (s.phase i).Held → s.pgid i ≠ some p
  | .eof => s.main = .serving → ∀ j p, s.pgid j = some p → ¬ (s.phase j).Replied →
      (s.phase j).Registered ∨ s.signalled j = true
  | .kill => True
  | .exit => True

/-- A request that was spawned and has failed, or is not answered when the server exits, has had
its process group killed. -/
def NoneAbandoned (s : ExecServer) : Prop :=
  ∀ j p, s.pgid j = some p →
    (∃ error, s.phase j = .replied (.error error)) ∨ s.main = .exited ∧ ¬ (s.phase j).Replied →
      s.signalled j = true

section Keeping

variable {s s' : ExecServer} {j : Nat} {job : Job}

theorem phase_set (i : Nat) :
    (s.set j job).phase i = if i = j then job.stage.phase else s.phase i := by
  unfold phase
  by_cases same : i = j <;> simp [same]

theorem pgid_set (i : Nat) : (s.set j job).pgid i = if i = j then job.pgid else s.pgid i := by
  unfold pgid
  by_cases same : i = j <;> simp [same]

theorem Guarded.congr (guarded : s.Guarded) (phases : s'.phase = s.phase) (pgids : s'.pgid = s.pgid)
    (registry : s'.registry = s.registry) (groups : s'.groups = s.groups)
    (signalled : s'.signalled = s.signalled) (main : s'.main = s.main) : s'.Guarded := by
  refine ⟨?_, ?_, ?_, ?_, ?_, ?_⟩
  · rw [phases, pgids]
    exact guarded.unspawned
  · rw [phases, pgids]
    exact guarded.spawned
  · rw [phases, pgids, groups]
    exact guarded.owner
  · rw [phases, pgids, registry, signalled, main]
    exact guarded.listed
  · rw [phases, pgids, signalled]
    exact guarded.failed
  · rw [phases, pgids, groups, signalled, main]
    exact guarded.shut

/-- A signal is never taken back. -/
theorem killpg_kept {pgid i : Nat} (known : s.signalled i = true) :
    (s.killpg pgid).signalled i = true := by
  simp [known]

theorem killpg_owner {pgid i : Nat} (owner : s.groups pgid = some i) :
    (s.killpg pgid).signalled i = true := by
  simp [owner]

theorem Guarded.killpg (guarded : s.Guarded) (pgid : Nat) : (s.killpg pgid).Guarded := by
  refine ⟨guarded.unspawned, guarded.spawned, guarded.owner, ?_, ?_, ?_⟩
  · intro serving j p known registered
    exact (guarded.listed serving j p known registered).imp_left killpg_kept
  · intro j p error known failed
    exact killpg_kept (guarded.failed j p error known failed)
  · intro shut j p known waits
    exact (guarded.shut shut j p known waits).imp_left killpg_kept

/-- A request goes on from one phase to another: it comes into the registry only with its process
group in it, and fails only when it is signalled. -/
theorem Guarded.set (guarded : s.Guarded) (same : job.pgid = s.pgid j) {before after : Phase}
    (from_phase : s.phase j = before) (to_phase : job.stage.phase = after)
    (unspawned : after = .waiting → before = .waiting) (held : after.Held → before.Held)
    (registered : after.Registered →
      before.Registered ∨ ∀ p, s.pgid j = some p → p ∈ s.registry)
    (failed : ∀ p error, s.pgid j = some p → after.result = some (.error error) →
      before.result = some (.error error) ∨ s.signalled j = true)
    (replied : before.Replied → after.Replied) : (s.set j job).Guarded := by
  subst from_phase to_phase
  have pgids : ∀ i, (s.set j job).pgid i = s.pgid i := by
    intro i
    rw [pgid_set]
    split
    · rename_i here
      rw [here, same]
    · rfl
  refine ⟨?_, ?_, ?_, ?_, ?_, ?_⟩
  · intro i
    rw [pgids, phase_set]
    split
    · rename_i here
      subst here
      exact fun waiting => guarded.unspawned i (unspawned waiting)
    · exact guarded.unspawned i
  · intro i
    rw [pgids, phase_set]
    split
    · rename_i here
      subst here
      exact fun holds => guarded.spawned i (held holds)
    · exact guarded.spawned i
  · intro i p
    rw [pgids, phase_set]
    split
    · rename_i here
      subst here
      exact fun known holds => guarded.owner i p known (held holds)
    · exact guarded.owner i p
  · intro serving i p
    rw [pgids, phase_set]
    split
    · rename_i here
      subst here
      intro known listed
      rcases registered listed with before | there
      · exact guarded.listed serving i p known before
      · exact .inr (there p known)
    · exact guarded.listed serving i p
  · intro i p error
    rw [pgids, phase_set]
    split
    · rename_i here
      subst here
      intro known fails
      rcases failed p error known fails with before | signalled
      · exact guarded.failed i p error known before
      · exact signalled
    · exact guarded.failed i p error
  · intro shut i p
    rw [pgids, phase_set]
    split
    · rename_i here
      subst here
      exact fun known waits => guarded.shut shut i p known fun done => waits (replied done)
    · exact guarded.shut shut i p

/-- A process group comes into the registry. -/
theorem Guarded.insert (guarded : s.Guarded) (pgid : Nat) :
    ({ s with registry := s.registry.insert pgid } : ExecServer).Guarded := by
  refine ⟨guarded.unspawned, guarded.spawned, guarded.owner, ?_, guarded.failed, guarded.shut⟩
  intro serving j p known registered
  exact (guarded.listed serving j p known registered).imp_right (List.mem_insert_of_mem ·)

/-- A process group that nobody holds goes out of it. -/
theorem Guarded.filter (guarded : s.Guarded) {pgid : Nat}
    (free : ∀ i, s.pgid i = some pgid → ¬ (s.phase i).Held) :
    ({ s with registry := s.registry.filter (· ≠ pgid) } : ExecServer).Guarded := by
  refine ⟨guarded.unspawned, guarded.spawned, guarded.owner, ?_, guarded.failed, guarded.shut⟩
  intro serving j p known registered
  rcases guarded.listed serving j p known registered with signalled | there
  · exact .inl signalled
  · refine .inr (List.mem_filter.mpr ⟨there, ?_⟩)
    rw [decide_eq_true_eq]
    rintro rfl
    exact free j known (.registered registered)

/-- A command is spawned under an id that no registration has, before the end of the input. -/
theorem Guarded.spawn (guarded : s.Guarded) {p : Nat} (same : job.pgid = some p)
    (starting : job.stage.phase = .starting) (serving : s.main = .serving)
    (fresh : ∀ i, (s.phase i).Held → s.pgid i ≠ some p) :
    ({ s.set j job with groups := fun q => if q = p then some j else s.groups q } :
      ExecServer).Guarded := by
  have phases : ∀ i, ({ s.set j job with groups := fun q => if q = p then some j else s.groups q } :
      ExecServer).phase i = if i = j then .starting else s.phase i := by
    intro i
    rw [← starting]
    exact phase_set i
  have pgids : ∀ i, ({ s.set j job with groups := fun q => if q = p then some j else s.groups q } :
      ExecServer).pgid i = if i = j then some p else s.pgid i := by
    intro i
    rw [← same]
    exact pgid_set i
  refine ⟨?_, ?_, ?_, ?_, ?_, fun shut => absurd serving shut⟩
  · intro i
    rw [phases, pgids]
    split
    · exact nofun
    · exact guarded.unspawned i
  · intro i
    rw [phases, pgids]
    split
    · exact fun _ => ⟨p, rfl⟩
    · exact guarded.spawned i
  · intro i q
    rw [phases, pgids]
    dsimp only
    split
    · rename_i here
      rintro known -
      cases known
      rw [if_pos rfl, here]
    · intro known held
      have other : q ≠ p := fun equal => fresh i held (equal ▸ known)
      rw [if_neg other]
      exact guarded.owner i q known held
  · intro _ i q
    rw [phases, pgids]
    split
    · exact nofun
    · exact guarded.listed serving i q
  · intro i q error
    rw [phases, pgids]
    split
    · exact nofun
    · exact guarded.failed i q error

end Keeping

section Runs

variable {home : Option String} {s : ExecServer} {requests : Nat → Json}

theorem Phase.held_running : Phase.Held .running := .registered .running

/-- One step of one request. -/
theorem Guarded.act (guarded : s.Guarded) (j : Nat) (event : JobEvent)
    (careful : s.Careful (.job j event)) :
    ((s.set j ((s.jobs j).act home event).1).affect j (s.jobs j).pgid
      ((s.jobs j).act home event).2).Guarded := by
  have turn := (s.jobs j).act_turn home event
  have spawning : ∀ p, ((s.jobs j).act home event).2 = .spawned p →
      s.main = .serving ∧ ∀ i, (s.phase i).Held → s.pgid i ≠ some p := by
    intro p spawned
    obtain ⟨⟨command, stage⟩, rfl⟩ := Job.act_spawned spawned
    exact careful.2 command p stage rfl
  have misses := careful.1
  generalize ((s.jobs j).act home event).1 = job at turn ⊢
  generalize ((s.jobs j).act home event).2 = effect at turn spawning ⊢
  generalize before : (s.jobs j).stage.phase = phase at turn
  generalize after : job.stage.phase = phase' at turn
  generalize same : job.pgid = pgid at turn
  change s.phase j = phase at before
  change ((s.set j job).affect j (s.pgid j) effect).Guarded
  cases turn with
  | quiet =>
      exact guarded.set same before after id id .inl (fun _ _ _ fails => .inl fails) id
  | taken =>
      have moved := guarded.set same before after id id .inl (fun _ _ _ fails => .inl fails) id
      exact moved.congr rfl rfl rfl rfl rfl rfl
  | refused error =>
      have none_spawned := guarded.unspawned j before
      have moved := guarded.set same before after nofun nofun nofun
        (fun p _ known _ => absurd (none_spawned.symm.trans known) nofun) nofun
      exact moved.congr rfl rfl rfl rfl rfl rfl
  | unspawned error =>
      have none_spawned := guarded.unspawned j before
      exact guarded.set same before after nofun nofun nofun
        (fun p _ known _ => absurd (none_spawned.symm.trans known) nofun) nofun
  | spawned p =>
      obtain ⟨serving, fresh⟩ := spawning p rfl
      exact guarded.spawn same after serving fresh
  | registered =>
      obtain ⟨p, known⟩ := guarded.spawned j (before ▸ .starting)
      rw [known]
      have there : ∀ q, s.pgid j = some q → q ∈ s.registry.insert p := by
        intro q same_group
        rw [known] at same_group
        cases same_group
        exact List.mem_insert_self
      exact (guarded.insert p).set same before after nofun (fun _ => .starting)
        (fun _ => .inr there) nofun nofun
  | killed error =>
      obtain ⟨p, known⟩ := guarded.spawned j (before ▸ Phase.held_running)
      rw [known]
      have signalled : (s.killpg p).signalled j = true :=
        killpg_owner (guarded.owner j p known (before ▸ Phase.held_running))
      exact (guarded.killpg p).set same before after nofun (fun _ => Phase.held_running)
        (fun _ => .inl .running) (fun _ _ _ _ => .inr signalled) nofun
  | missed error missed =>
      exact guarded.set same before after nofun (fun _ => Phase.held_running)
        (fun _ => .inl .running) (fun _ _ _ _ => .inr (misses missed)) nofun
  | collected value =>
      exact guarded.set same before after nofun (fun _ => Phase.held_running)
        (fun _ => .inl .running) nofun nofun
  | dropped result =>
      have held : Phase.Held (.returning result) := .registered (.returning result)
      obtain ⟨p, known⟩ := guarded.spawned j (before ▸ held)
      rw [known]
      have owner := guarded.owner j p known (before ▸ held)
      have moved := guarded.set same before after nofun nofun nofun
        (fun _ _ _ fails => .inl fails) nofun
      refine moved.filter fun i group others => ?_
      have mine : i = j := Option.some.inj ((moved.owner i p group others).symm.trans owner)
      rw [phase_set, if_pos mine, after] at others
      cases others with
      | registered registered => cases registered
  | replied result =>
      have moved := guarded.set same before after nofun nofun nofun
        (fun _ _ _ fails => .inl fails) nofun
      exact moved.congr rfl rfl rfl rfl rfl rfl

theorem Guarded.step (guarded : s.Guarded) (event : ServerEvent) (careful : s.Careful event) :
    (s.step home event).Guarded := by
  cases event with
  | job j event =>
      unfold ExecServer.step
      dsimp only
      split
      · exact guarded
      · exact guarded.act j event careful
  | eof =>
      unfold ExecServer.step
      dsimp only
      split
      · rename_i serving
        refine ⟨guarded.unspawned, guarded.spawned, guarded.owner, nofun, guarded.failed, ?_⟩
        intro _ j p known waits
        rcases careful serving j p known waits with registered | signalled
        · rcases guarded.listed serving j p known registered with signalled | there
          · exact .inl signalled
          · exact .inr ⟨there, guarded.owner j p known (.registered registered)⟩
        · exact .inl signalled
      · exact guarded
  | kill =>
      unfold ExecServer.step
      dsimp only
      split
      · rename_i pgid pgids killing
        have killed := guarded.killpg pgid
        refine ⟨killed.unspawned, killed.spawned, killed.owner, nofun, killed.failed, ?_⟩
        intro _ j p known waits
        have shut : s.main ≠ .serving := by
          rw [killing]
          exact nofun
        rcases guarded.shut shut j p known waits with signalled | ⟨there, owner⟩
        · exact .inl (killpg_kept signalled)
        · rw [killing] at there
          rcases List.mem_cons.mp there with rfl | later
          · exact .inl (killpg_owner owner)
          · exact .inr ⟨later, owner⟩
      · exact guarded
  | exit =>
      unfold ExecServer.step
      dsimp only
      split
      · rename_i killing
        refine ⟨guarded.unspawned, guarded.spawned, guarded.owner, nofun, guarded.failed, ?_⟩
        intro _ j p known waits
        have shut : s.main ≠ .serving := by
          rw [killing]
          exact nofun
        rcases guarded.shut shut j p known waits with signalled | ⟨there, owner⟩
        · exact .inl signalled
        · rw [killing] at there
          cases there
      · exact guarded

theorem Reached.guarded (reached : Reached home Careful requests s) : s.Guarded := by
  refine Reaches.invariant ?_ (fun _ event guarded careful => guarded.step event careful) reached
  exact ⟨fun _ _ => rfl, nofun, nofun, nofun, nofun, fun shut => absurd rfl shut⟩

/-- In a run that loses no registration and collects what it waits for, no process group is
abandoned. -/
theorem none_abandoned (home : Option String) (requests : Nat → Json) (s : ExecServer)
    (reached : Reached home Careful requests s) : s.NoneAbandoned := by
  have guarded := reached.guarded
  rintro j p known (⟨error, failed⟩ | ⟨exited, unanswered⟩)
  · refine guarded.failed j p error known ?_
    rw [failed]
    rfl
  · have shut : s.main ≠ .serving := by
      rw [exited]
      exact nofun
    rcases guarded.shut shut j p known unanswered with signalled | ⟨there, -⟩
    · exact signalled
    · rw [exited] at there
      cases there

/-- A command leaves another behind that keeps its output open, and exits. -/
def lingering : List ServerEvent :=
  [.job 0 .take, .job 0 (.spawn (.ok 7)), .job 0 .register, .job 0 (.poll (.exited (some 0))),
    .job 0 (.collect true), .job 0 .drop, .job 0 .reply]

/-- The input ends while a command runs. -/
def interrupted : List ServerEvent :=
  [.job 0 .take, .job 0 (.spawn (.ok 7)), .job 0 .register, .eof, .kill, .exit]

/-- Every request runs the same command. -/
def sleeping : ExecServer :=
  { jobs := fun _ => { stage := .queued (.obj [("command", .arr [.str "sleep", .str "4"])]) } }

theorem none_abandoned_interrupted :
    (interrupted.foldl (step none) sleeping).main = .exited ∧
      (interrupted.foldl (step none) sleeping).NoneAbandoned := by
  refine ⟨rfl, none_abandoned none (fun _ => .obj [("command", .arr [.str "sleep", .str "4"])]) _
    (Reaches.of_along .refl ?_)⟩
  refine ⟨⟨nofun, nofun⟩, ⟨nofun, ?_⟩, ⟨nofun, nofun⟩, ?_, trivial, trivial, trivial⟩
  · rintro command p - -
    refine ⟨rfl, fun i held => ?_⟩
    have waiting : (sleeping.step none (.job 0 .take)).phase i = .waiting := by
      cases i <;> rfl
    rw [waiting] at held
    cases held with
    | registered registered => cases registered
  · rintro - i p known -
    cases i with
    | zero => exact .inl .running
    | succ i => exact nomatch known

/-- The command has exited, its group lives on, and the request fails as timed out. -/
theorem group_abandoned :
    ¬ ∀ (home : Option String) (requests : Nat → Json) (s : ExecServer),
      Reached home (fun _ _ => True) requests s → s.NoneAbandoned := by
  intro promised
  have reached : Reached none (fun _ _ => True)
      (fun _ => .obj [("command", .arr [.str "sleep", .str "4"])])
      (lingering.foldl (step none) sleeping) :=
    Reaches.of_along .refl (by simp only [lingering, Reaches.Along, and_self])
  have signalled := promised _ _ _ reached 0 7 rfl (.inl ⟨_, rfl⟩)
  revert signalled
  decide

end Runs

end ExecServer

end EmacsRelay.Server

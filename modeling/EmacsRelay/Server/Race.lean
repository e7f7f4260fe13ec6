import EmacsRelay.Server.Linear
import EmacsRelay.Server.Shared
import EmacsRelay.Server.Vacant

set_option autoImplicit false

/- Several server processes on one machine, each with its own mutation lock, whose conditional
writes all expect one revision of one file. -/
namespace EmacsRelay

open FsHandlers (handleFs)

/-- A conditional write: the process that serves it and the bytes it brings. -/
structure Rival where
  process : Process
  bytes : Bytes
deriving DecidableEq, Repr

/-- The machine, who holds the mutation lock of each process, and how far each write has come. -/
structure Race (Job : Type) where
  host : Host
  holder : Nat → Option Job := fun _ => none
  jobs : Job → Locked.Status Call Answer FsReply := fun _ => .waiting

variable {Job : Type} [DecidableEq Job]

namespace Race

section Step

variable (path : Path) (revision : Revision) (rivals : Job → Rival)

def program (job : Job) : Program Call Answer FsReply :=
  handleFs (rivals job).process
    (.write path (rivals job).bytes false false (some (.present revision)))

/-- A write takes the lock of its own process, makes its calls, and lets the lock go. -/
def step (w : Race Job) : Locked.Event KernelChoice Job → Race Job
  | .acquire job =>
      match w.holder (rivals job).process.pid, w.jobs job with
      | none, .waiting =>
          { w with
            holder := Function.update w.holder (rivals job).process.pid (some job)
            jobs := Function.update w.jobs job (.running (program path revision rivals job)) }
      | _, _ => w
  | .call job choice =>
      match w.jobs job with
      | .running (.call request next) =>
          if w.holder (rivals job).process.pid = some job then
            { w with
              host := (Host.exec (rivals job).process request choice w.host).2
              jobs := Function.update w.jobs job
                (.running (next (Host.exec (rivals job).process request choice w.host).1)) }
          else w
      | _ => w
  | .release job =>
      match w.jobs job with
      | .running (.done reply) =>
          if w.holder (rivals job).process.pid = some job then
            { w with
              holder := Function.update w.holder (rivals job).process.pid none
              jobs := Function.update w.jobs job (.finished reply) }
          else w
      | _ => w

end Step

/-- New inodes get numbers that are not in use. -/
def Allowed (w : Race Job) : Locked.Event KernelChoice Job → Prop
  | .call job choice => ∀ request next, w.jobs job = .running (.call request next) →
      Host.Allows request choice w.host
  | _ => True

/-- No write renames its file over the path once the path has another revision than the one that
all of them expect. -/
def Undisturbed (path : Path) (revision : Revision) (w : Race Job) :
    Locked.Event KernelChoice Job → Prop
  | .call job _ => ∀ temp next, w.jobs job = .running (.call (.rename temp path) next) →
      w.host.disk.Meets path (.present revision)
  | _ => True

end Race

section Calls

variable {process : Process} {h : Host} {path : Path} {taken : Inode} {phase : Job → WritePhase}
  {job : Job} {request : Call} {choice : KernelChoice}

/-- The disk that a call leaves and the phase that its answer leads to go together. -/
def Continues (process : Process) (h : Host) (path : Path) (taken : Inode)
    (phase : Job → WritePhase) (job : Job) (request : Call) (choice : KernelChoice) : Prop :=
  Shared (Host.exec process request choice h).2.disk path taken
    (Function.update phase job
      (WritePhase.advance path (phase job) request (Host.exec process request choice h).1))

/-- A call that leaves disk and phase as they are. -/
theorem continues_of_same (shared : Shared h.disk path taken phase)
    (disk : (Host.exec process request choice h).2.disk = h.disk)
    (stays : WritePhase.advance path (phase job) request (Host.exec process request choice h).1 =
      phase job) : Continues process h path taken phase job request choice := by
  unfold Continues
  rw [disk, stays, Function.update_eq_self]
  exact shared

theorem continues_lstat (shared : Shared h.disk path taken phase) (target : Path) :
    Continues process h path taken phase job (.lstat target) choice := by
  by_cases begun : phase job = .fresh
  · cases found : h.disk.lstat target with
    | error e =>
        apply continues_of_same shared rfl
        show WritePhase.advance path (phase job) (.lstat target) (h.disk.lstat target) = _
        rw [begun, found]
        rfl
    | ok metadata =>
        by_cases here : target = path
        · have next : WritePhase.advance path (phase job) (.lstat target) (h.disk.lstat target) =
              .found := by
            rw [begun, found]
            exact if_pos here
          show Shared h.disk path taken (Function.update phase job
            (WritePhase.advance path (phase job) (.lstat target) (h.disk.lstat target)))
          rw [next]
          exact shared.rephase job ⟨metadata.inode, here ▸ (lstat_ok found).1⟩ (.inl rfl)
        · apply continues_of_same shared rfl
          show WritePhase.advance path (phase job) (.lstat target) (h.disk.lstat target) = _
          rw [begun, found]
          exact if_neg here
  · apply continues_of_same shared rfl
    cases current : phase job with
    | fresh => exact absurd current begun
    | _ => rfl

theorem continues_createNew (shared : Shared h.disk path taken phase) {temp : Path} {mode : Nat}
    (found : phase job = .found) (beside : temp.parent = path.parent)
    (allowed : Host.Allows (.createNew temp mode) choice h) :
    Continues process h path taken phase job (.createNew temp mode) choice := by
  unfold Continues
  simp only [Host.exec]
  cases created : h.disk.createNew choice process temp mode with
  | error e =>
      simp only [Host.opening, found, WritePhase.advance]
      rw [← found, Function.update_eq_self]
      exact shared
  | ok made =>
      obtain ⟨file, disk⟩ := made
      obtain ⟨dir, pending⟩ := tempFile_of_createNew (rfl : temp.parent = temp.parent) created allowed
      obtain ⟨node, staged, kind, _⟩ := pending.staged
      simp only [Host.opening, found, WritePhase.advance]
      exact shared.create (by rw [found]; decide) beside pending.here staged kind

theorem continues_rename (shared : Shared h.disk path taken phase) {temp : Path} {file : Inode}
    (owns : phase job = .owns temp file) (here : h.disk.find path = .ok taken)
    (plain : h.disk.Plain taken) :
    Continues process h path taken phase job (.rename temp path) choice := by
  unfold Continues
  simp only [Host.exec]
  cases renamed : h.disk.rename choice temp path with
  | error e =>
      simp only [Host.change, owns, WritePhase.advance]
      rw [← owns, Function.update_eq_self]
      exact shared
  | ok disk =>
      simp only [Host.change, owns, WritePhase.advance]
      exact shared.rename owns choice here plain renamed

theorem continues_unlink (shared : Shared h.disk path taken phase) {temp : Path} {file : Inode}
    (owns : phase job = .owns temp file) :
    Continues process h path taken phase job (.unlink temp) choice := by
  unfold Continues
  simp only [Host.exec, owns, WritePhase.advance]
  cases removed : h.disk.unlink choice temp with
  | error e => exact shared.rephase job (shared.present job (by rw [owns]; simp)) (.inr rfl)
  | ok disk => exact shared.unlink owns choice removed

/-- A call on the write's own file that leaves its phase as it is. -/
theorem continues_reshape (shared : Shared h.disk path taken phase) {temp : Path} {file : Inode}
    (owns : phase job = .owns temp file)
    (root : (Host.exec process request choice h).2.disk.root = h.disk.root)
    (entry : ∀ a n, (Host.exec process request choice h).2.disk.entry a n = h.disk.entry a n)
    (reshapes : ∀ i, Disk.Reshapes h.disk (Host.exec process request choice h).2.disk i)
    (stays : WritePhase.advance path (phase job) request (Host.exec process request choice h).1 =
      phase job) : Continues process h path taken phase job request choice := by
  unfold Continues
  rw [stays, Function.update_eq_self]
  have begun : phase job ≠ .fresh := by
    rw [owns]
    simp
  exact shared.reshape begun root entry reshapes

/-- Whatever a write asks of the machine, the others can rely on what they relied on before. -/
theorem continues (shared : Shared h.disk path taken phase)
    (legal : WritePhase.Legal path (phase job) request) (allowed : Host.Allows request choice h)
    (undisturbed : ∀ temp, request = .rename temp path →
      h.disk.find path = .ok taken ∧ h.disk.Plain taken) :
    Continues process h path taken phase job request choice := by
  cases request with
  | lstat target => exact continues_lstat shared target
  | openRead target => exact continues_of_same shared rfl (by cases phase job <;> rfl)
  | fstat file => exact continues_of_same shared rfl (by cases phase job <;> rfl)
  | readFile file => exact continues_of_same shared rfl (by cases phase job <;> rfl)
  | read file offset length => exact continues_of_same shared rfl (by cases phase job <;> rfl)
  | syncAll file => exact continues_of_same shared rfl (by cases phase job <;> rfl)
  | fetchAdd => exact continues_of_same shared rfl (by cases phase job <;> rfl)
  | createNew temp mode =>
      cases current : phase job with
      | found =>
          rw [current] at legal
          exact continues_createNew shared current legal allowed
      | _ => rw [current] at legal; exact legal.elim
  | rename source target =>
      cases current : phase job with
      | owns temp file =>
          rw [current] at legal
          obtain ⟨sources, targets⟩ := legal
          rw [sources, targets]
          obtain ⟨here, plain⟩ := undisturbed source (by rw [targets])
          exact continues_rename shared current here plain
      | _ => rw [current] at legal; exact legal.elim
  | unlink target =>
      cases current : phase job with
      | owns temp file =>
          rw [current] at legal
          rw [legal]
          exact continues_unlink shared current
      | _ => rw [current] at legal; exact legal.elim
  | fchown target uid gid =>
      cases current : phase job with
      | owns temp file =>
          apply continues_reshape shared current rfl (fun _ _ => rfl) _ (by rw [current]; rfl)
          intro i
          apply Disk.Reshapes.of_kindOf
          apply Disk.kindOf_modifyNode
          exact fun _ => rfl
      | _ => rw [current] at legal; exact legal.elim
  | fchmod target mode =>
      cases current : phase job with
      | owns temp file =>
          apply continues_reshape shared current rfl (fun _ _ => rfl) _ (by rw [current]; rfl)
          intro i
          apply Disk.Reshapes.of_kindOf
          apply Disk.kindOf_modifyNode
          exact fun _ => rfl
      | _ => rw [current] at legal; exact legal.elim
  | writeAll target bytes =>
      cases current : phase job with
      | owns temp file =>
          refine continues_reshape shared current ?_ ?_ ?_ (by rw [current]; rfl)
          · exact Disk.root_writeAll choice target bytes
          · exact Disk.entry_writeAll choice target bytes
          · exact fun i => Disk.reshapes_writeAll choice bytes i
      | _ => rw [current] at legal; exact legal.elim
  | _ =>
      cases current : phase job <;> rw [current] at legal <;> exact legal.elim

end Calls

section Run

variable {path : Path} {revision : Revision} {rivals : Job → Rival} {w : Race Job}
  {phase : Job → WritePhase}

namespace Race

/-- A write that succeeds has published its file. -/
def Ends (reply : FsReply) (phase : WritePhase) : Prop :=
  ∀ revision, reply = .revision revision → phase = .published

/-- The inode that the writes expect to replace. -/
def taken (revision : Revision) : Inode := ⟨revision.dev, revision.ino⟩

/-- The phase fits how far the write has come. -/
def Fits (path : Path) (phase : WritePhase) : Locked.Status Call Answer FsReply → Prop
  | .waiting => phase = .fresh
  | .running rest => Program.wp (WritePhase.protocol path).rule rest Ends phase
  | .finished reply => Ends reply phase

/-- Every write is in a phase that fits its remaining calls and the disk. -/
structure Inv (path : Path) (revision : Revision) (w : Race Job) (phase : Job → WritePhase) :
    Prop where
  shared : Shared w.host.disk path (taken revision) phase
  fits : ∀ job, Fits path (phase job) (w.jobs job)

omit [DecidableEq Job] in
theorem follows_program (job : Job) :
    Program.wp (WritePhase.protocol path).rule (program path revision rivals job) Ends .fresh := by
  apply (Program.wp_bind _ _ _ _).mpr
  apply Program.wp_mono
    (follows_conditionalWriteLocked (rivals job).process (rivals job).bytes revision)
  intro result phase covered
  cases result with
  | ok value => exact fun _ _ => covered
  | error reason => exact fun _ same => nomatch same

/-- The revision that is to be replaced names the inode that the path leads to. -/
theorem found_of_meets {d : Disk} (meets : d.Meets path (.present revision)) :
    d.find path = .ok (taken revision) ∧ d.Plain (taken revision) := by
  obtain ⟨bytes, read⟩ := meets
  unfold Disk.revisionAt at read
  cases found : d.lstat path with
  | error e => rw [found] at read; cases read
  | ok metadata =>
      rw [found] at read
      obtain ⟨there, node⟩ := lstat_ok found
      have plain := plain_of_read read
      obtain ⟨⟨content, kind⟩, _⟩ := finalType_none.mp plain
      have same : taken revision = metadata.inode := by
        simp only [Metadata.read, plain, kind] at read
        split at read
        · split at read
          · cases read
            rfl
          · cases read
        · cases read
      rw [same]
      exact ⟨there, content, by simp [Disk.kindOf, node, kind]⟩

/-- One write moves on. -/
theorem Inv.update (inv : Inv path revision w phase) (job : Job)
    {status : Locked.Status Call Answer FsReply} {next : WritePhase} {host : Host}
    (holder : Nat → Option Job)
    (shared : Shared host.disk path (taken revision) (Function.update phase job next))
    (fits : Fits path next status) :
    Inv path revision { host := host, holder := holder, jobs := Function.update w.jobs job status }
      (Function.update phase job next) where
  shared := shared
  fits := by
    intro other
    dsimp only
    by_cases same : other = job
    · rw [same, Function.update_self, Function.update_self]
      exact fits
    · rw [Function.update_of_ne same, Function.update_of_ne same]
      exact inv.fits other

/-- The same when the write stays in its phase and the disk as it is. -/
theorem Inv.move (inv : Inv path revision w phase) (job : Job)
    {status : Locked.Status Call Answer FsReply} (holder : Nat → Option Job)
    (fits : Fits path (phase job) status) :
    Inv path revision
      { w with holder := holder, jobs := Function.update w.jobs job status } phase := by
  have shared : Shared w.host.disk path (taken revision)
      (Function.update phase job (phase job)) := by
    rw [Function.update_eq_self]
    exact inv.shared
  have moved := inv.update job holder shared fits
  rwa [Function.update_eq_self] at moved

variable {event : Locked.Event KernelChoice Job}

/-- What a step can do. -/
theorem step_cases (path : Path) (revision : Revision) (rivals : Job → Rival) (w : Race Job)
    (event : Locked.Event KernelChoice Job) :
    step path revision rivals w event = w ∨
    (∃ job holder, w.jobs job = .waiting ∧
      step path revision rivals w event =
        { w with
          holder := holder
          jobs := Function.update w.jobs job (.running (program path revision rivals job)) }) ∨
    (∃ job choice request next, event = .call job choice ∧
      w.jobs job = .running (.call request next) ∧
      step path revision rivals w event =
        { w with
          host := (Host.exec (rivals job).process request choice w.host).2
          jobs := Function.update w.jobs job
            (.running (next (Host.exec (rivals job).process request choice w.host).1)) }) ∨
    (∃ job holder reply, w.jobs job = .running (.done reply) ∧
      step path revision rivals w event =
        { w with holder := holder, jobs := Function.update w.jobs job (.finished reply) }) := by
  cases event with
  | acquire job =>
      simp only [step]
      split
      · rename_i _ waits
        exact .inr (.inl ⟨job, _, waits, rfl⟩)
      · exact .inl rfl
  | call job choice =>
      simp only [step]
      split
      · rename_i request next here
        split
        · exact .inr (.inr (.inl ⟨job, choice, request, next, rfl, here, rfl⟩))
        · exact .inl rfl
      · exact .inl rfl
  | release job =>
      simp only [step]
      split
      · rename_i reply here
        split
        · exact .inr (.inr (.inr ⟨job, _, reply, here, rfl⟩))
        · exact .inl rfl
      · exact .inl rfl

theorem step_inv (inv : Inv path revision w phase) (allowed : w.Allowed event)
    (undisturbed : w.Undisturbed path revision event) :
    ∃ phase, Inv path revision (step path revision rivals w event) phase := by
  rcases step_cases path revision rivals w event with same | ⟨job, holder, waits, eq⟩ |
    ⟨job, choice, request, next, called, here, eq⟩ | ⟨job, holder, reply, here, eq⟩
  · rw [same]
    exact ⟨phase, inv⟩
  · have fits := inv.fits job
    rw [waits] at fits
    have fresh : phase job = .fresh := fits
    rw [eq]
    refine ⟨phase, inv.move job holder ?_⟩
    rw [fresh]
    exact follows_program job
  · have fits := inv.fits job
    rw [here] at fits
    obtain ⟨legal, follows⟩ := fits
    rw [called] at allowed undisturbed
    rw [eq]
    refine ⟨_, inv.update job w.holder ?_ (follows _)⟩
    apply continues inv.shared legal (allowed request next here)
    intro temp same
    subst same
    exact found_of_meets (undisturbed temp next here)
  · have fits := inv.fits job
    rw [here] at fits
    rw [eq]
    exact ⟨phase, inv.move job holder fits⟩

omit [DecidableEq Job] in
theorem start_inv (host : Host) :
    Inv path revision { host := host } fun _ : Job => .fresh where
  shared :=
    { present := fun _ begun => absurd rfl begun
      owner := fun _ _ _ owns => nomatch owns
      apart := fun _ _ _ _ _ owns => nomatch owns
      replaced := fun _ published => nomatch published
      single := fun _ _ published => nomatch published }
  fits _ := rfl

end Race

/-- However the processes interleave, when no write renames its file over another revision than
the expected one, at most one of the writes succeeds. -/
theorem one_winner (path : Path) (revision : Revision) (rivals : Job → Rival) (start : Host)
    {w : Race Job}
    (reached : Reaches (Race.step path revision rivals)
      (fun w event => w.Allowed event ∧ w.Undisturbed path revision event) { host := start } w) :
    ∀ one other mine theirs, w.jobs one = .finished (.revision mine) →
      w.jobs other = .finished (.revision theirs) → one = other := by
  intro one other mine theirs first second
  have inv : ∃ phase, Race.Inv path revision w phase := by
    apply reached.invariant ⟨_, Race.start_inv start⟩
    intro v event ⟨phase, inv⟩ ⟨allowed, undisturbed⟩
    exact Race.step_inv inv allowed undisturbed
  obtain ⟨phase, inv⟩ := inv
  have won : ∀ {job : Job} {made : Revision}, w.jobs job = .finished (.revision made) →
      phase job = .published := by
    intro job made finished
    have fits := inv.fits job
    rw [finished] at fits
    exact fits made rfl
  exact inv.shared.single one other (won first) (won second)

namespace Race

/-- The kernel hands out numbers in order, from `n` on. -/
def numbered : Nat → List (Locked.Event KernelChoice Job) → Bool
  | _, [] => true
  | n, .call _ choice :: rest => choice.fresh == n && numbered (n + 1) rest
  | n, .acquire _ :: rest => numbered (n + 1) rest
  | n, .release _ :: rest => numbered (n + 1) rest

theorem fits_update (fits : ∀ job, ∃ phase, Fits path phase (w.jobs job)) (job : Job)
    {status : Locked.Status Call Answer FsReply} (fit : ∃ phase, Fits path phase status)
    (other : Job) : ∃ phase, Fits path phase (Function.update w.jobs job status other) := by
  by_cases same : other = job
  · rw [same, Function.update_self]
    exact fit
  · rw [Function.update_of_ne same]
    exact fits other

/-- Even a run in which writes disturb each other keeps to the phases, and takes the numbers that
it is handed. -/
theorem step_fits {n : Nat} (fits : ∀ job, ∃ phase, Fits path phase (w.jobs job))
    (vacant : w.host.disk.Vacant n) (event : Locked.Event KernelChoice Job)
    (number : ∀ job choice, event = .call job choice → choice.fresh = n) :
    (∀ job, ∃ phase, Fits path phase ((step path revision rivals w event).jobs job)) ∧
      (step path revision rivals w event).host.disk.Vacant (n + 1) := by
  have later : w.host.disk.Vacant (n + 1) := fun dev m large => vacant dev m (by omega)
  rcases step_cases path revision rivals w event with same | ⟨job, holder, _, eq⟩ |
    ⟨job, choice, request, next, called, here, eq⟩ | ⟨job, holder, reply, here, eq⟩
  · rw [same]
    exact ⟨fits, later⟩
  · rw [eq]
    exact ⟨fits_update fits job ⟨.fresh, follows_program job⟩, later⟩
  · obtain ⟨phase, fit⟩ := fits job
    rw [here] at fit
    obtain ⟨legal, follows⟩ := fit
    rw [eq]
    refine ⟨fits_update fits job ⟨_, follows _⟩, ?_⟩
    have grows : w.host.disk.Grows (Host.exec (rivals job).process request choice w.host).2.disk
        choice.fresh := grows_exec legal
    rw [number job choice called] at grows
    exact grows.vacant vacant
  · obtain ⟨phase, fit⟩ := fits job
    rw [here] at fit
    rw [eq]
    exact ⟨fits_update fits job ⟨phase, fit⟩, later⟩

theorem along_allowed {n : Nat} {events : List (Locked.Event KernelChoice Job)}
    (fits : ∀ job, ∃ phase, Fits path phase (w.jobs job)) (vacant : w.host.disk.Vacant n)
    (numbers : numbered n events = true) :
    Reaches.Along (step path revision rivals) Allowed w events := by
  induction events generalizing w n with
  | nil => trivial
  | cons event events ih =>
      have number : (∀ job choice, event = .call job choice → choice.fresh = n) ∧
          numbered (n + 1) events = true := by
        cases event with
        | call job choice =>
            obtain ⟨first, rest⟩ := Bool.and_eq_true_iff.mp numbers
            refine ⟨?_, rest⟩
            intro _ _ same
            cases same
            exact beq_iff_eq.mp first
        | _ => exact ⟨fun _ _ same => (nomatch same), numbers⟩
      have after : (∀ job, ∃ phase, Fits path phase ((step path revision rivals w event).jobs job)) ∧
          (step path revision rivals w event).host.disk.Vacant (n + 1) :=
        step_fits fits vacant event number.1
      refine ⟨?_, ih after.1 after.2 number.2⟩
      cases event with
      | call job choice =>
          intro request next here
          obtain ⟨phase, fit⟩ := fits job
          rw [here] at fit
          apply allows_of_vacant fit.1
          rw [number.1 job choice rfl]
          exact vacant
      | _ => trivial

/-- Whether the path has the revision. -/
def matchesRevision (d : Disk) (path : Path) (revision : Revision) : Bool :=
  match d.revisionAt path with
  | .ok read => read.revision = revision
  | .error _ => false

theorem meets_of_matches {d : Disk} (test : matchesRevision d path revision = true) :
    d.Meets path (.present revision) := by
  unfold matchesRevision at test
  cases read : d.revisionAt path with
  | error e => rw [read] at test; cases test
  | ok result =>
      rw [read] at test
      have same : result.revision = revision := by simpa using test
      exact ⟨result.bytes, by rw [← same]; exact read⟩

/-- `Undisturbed` as a test. -/
def calm (path : Path) (revision : Revision) (w : Race Job) :
    Locked.Event KernelChoice Job → Bool
  | .call job _ =>
      match w.jobs job with
      | .running (.call (.rename _ target) _) =>
          target != path || matchesRevision w.host.disk path revision
      | _ => true
  | _ => true

omit [DecidableEq Job] in
theorem undisturbed_of_calm {event : Locked.Event KernelChoice Job}
    (test : calm path revision w event = true) : w.Undisturbed path revision event := by
  cases event with
  | call job choice =>
      intro temp next here
      simp only [calm, here, bne_self_eq_false, Bool.false_or] at test
      exact meets_of_matches test
  | _ => trivial

def calms (path : Path) (revision : Revision) (rivals : Job → Rival) :
    Race Job → List (Locked.Event KernelChoice Job) → Bool
  | _, [] => true
  | w, event :: events =>
      calm path revision w event && calms path revision rivals (step path revision rivals w event)
        events

theorem along_undisturbed {events : List (Locked.Event KernelChoice Job)}
    (test : calms path revision rivals w events = true) :
    Reaches.Along (step path revision rivals) (fun w event => w.Undisturbed path revision event) w
      events := by
  induction events generalizing w with
  | nil => trivial
  | cons event events ih =>
      obtain ⟨first, rest⟩ := Bool.and_eq_true_iff.mp test
      exact ⟨undisturbed_of_calm first, ih rest⟩

end Race

end Run

/-- Two processes that save `f` at the same time. -/
def sampleRivals : Bool → Rival
  | false => ⟨sampleProcess, [98]⟩
  | true => ⟨{ sampleProcess with pid := 8 }, [99]⟩

def samplePath : Path := ⟨[], "f"⟩

/-- So many calls of one write, with numbers from `n` on. -/
def calls (job : Bool) (n count : Nat) : List (Locked.Event KernelChoice Bool) :=
  (List.range count).map fun i => .call job ⟨⟨9, 0⟩, n + i, false, 4096⟩

def raceStep : Race Bool → Locked.Event KernelChoice Bool → Race Bool :=
  Race.step samplePath sampleRevision sampleRivals

theorem sampleDisk_vacant {n : Nat} (large : 10 < n) : sampleDisk.Vacant n :=
  fun _ _ more => sampleDisk_free (by omega)

theorem along_sample {events : List (Locked.Event KernelChoice Bool)}
    (numbers : Race.numbered 11 events = true) :
    Reaches.Along raceStep Race.Allowed { host := sampleHost } events := by
  apply Race.along_allowed _ (sampleDisk_vacant (by decide)) numbers
  intro job
  exact ⟨.fresh, rfl⟩

/-- What a write was told, if it is through. -/
def told (w : Race Bool) (job : Bool) : Option FsReply :=
  match w.jobs job with
  | .finished reply => some reply
  | _ => none

/-- The write was told that its bytes are saved. -/
def saved (w : Race Bool) (job : Bool) : Bool :=
  match told w job with
  | some (.revision _) => true
  | _ => false

theorem finished_of_saved {w : Race Bool} {job : Bool} (test : saved w job = true) :
    ∃ revision, w.jobs job = .finished (.revision revision) := by
  unfold saved told at test
  split at test
  · rename_i revision here
    split at here
    · rename_i reply done
      cases here
      exact ⟨revision, done⟩
    · cases here
  · cases test

/-- The second write compares again after the first one has renamed. -/
def oneAfterTheOther : List (Locked.Event KernelChoice Bool) :=
  .acquire false :: .acquire true :: calls false 13 21 ++ calls true 34 14 ++ calls false 48 7 ++
    .release false :: calls true 56 8 ++ [.release true]

theorem one_winner_oneAfterTheOther :
    let w := oneAfterTheOther.foldl raceStep { host := sampleHost }
    (saved w false = true ∧ saved w true = false ∧ (told w true).isSome = true) ∧
      ∀ one other mine theirs, w.jobs one = .finished (.revision mine) →
        w.jobs other = .finished (.revision theirs) → one = other := by
  refine ⟨by decide +kernel, one_winner samplePath sampleRevision sampleRivals sampleHost ?_⟩
  apply Reaches.of_along .refl
  apply Reaches.Along.and
  · exact along_sample (by decide)
  · apply Race.along_undisturbed
    decide +kernel

/-- Both writes compare before either renames. -/
def bothAtOnce : List (Locked.Event KernelChoice Bool) :=
  .acquire false :: .acquire true :: calls false 13 21 ++ calls true 34 21 ++ calls false 55 7 ++
    .release false :: calls true 63 7 ++ [.release true]

/-- Both are told that their bytes are saved, and only those of the second are there. -/
theorem two_winners :
    ∃ w, Reaches raceStep (fun w event => w.Allowed event) { host := sampleHost } w ∧
      (∃ mine, w.jobs false = .finished (.revision mine)) ∧
      (∃ theirs, w.jobs true = .finished (.revision theirs)) ∧
      (w.host.disk.revisionAt samplePath).toOption.map (·.bytes) = some [99] := by
  let w := bothAtOnce.foldl raceStep { host := sampleHost }
  have reached : Reaches raceStep (fun w event => w.Allowed event) { host := sampleHost } w :=
    Reaches.of_along .refl (along_sample (by decide))
  have outcome : saved w false = true ∧ saved w true = true ∧
      (w.host.disk.revisionAt samplePath).toOption.map (·.bytes) = some [99] := by decide +kernel
  exact ⟨w, reached, finished_of_saved outcome.1, finished_of_saved outcome.2.1, outcome.2.2⟩

end EmacsRelay

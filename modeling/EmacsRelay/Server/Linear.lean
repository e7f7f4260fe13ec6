import EmacsRelay.Lib.Lock
import EmacsRelay.Server.Atomic

set_option autoImplicit false

/- The workers of one server process, each with a mutation to make under the mutation lock: what
they do is what the mutations do one at a time, with conditional writes as single steps. -/
namespace EmacsRelay

open FsHandlers (handleFs)

/-- A mutation as one step. A conditional write swaps the file for one with its bytes when the path
is as expected, or changes nothing; another request is its handler, run to the end. -/
def Atomic (process : Process) : FsRequest → Host → FsReply → Host → Prop
  | .write path bytes false false (some expected), h, reply, h' =>
      (∃ revision, reply = .revision revision ∧ Accepts process path bytes expected h ∧
        h.disk.Replaced h'.disk path bytes revision) ∨
      (∃ reason, reply = .refused reason ∧ Refuses process path bytes expected h reason ∧
        h.disk.SameContents h'.disk)
  | request, h, reply, h' =>
      Program.Executes (Host.kernel process) (handleFs process request) h reply h'

/-- Mutations made one at a time, with their replies. -/
inductive AtomicRun {Job : Type} (process : Process) (request : Job → FsRequest) (start : Host) :
    List (Job × FsReply) → Host → Prop where
  | nil : AtomicRun process request start [] start
  | snoc {log : List (Job × FsReply)} {h h' : Host} {job : Job} {reply : FsReply}
      (before : AtomicRun process request start log h)
      (step : Atomic process (request job) h reply h') :
      AtomicRun process request start (log ++ [(job, reply)]) h'

variable {process : Process} {h h' : Host} {reply : FsReply}

theorem atomic_conditionalWrite {path : Path} {bytes : Bytes} {expected : ExpectedRevision}
    (run : Program.Executes (Host.kernel process)
      (FsHandlers.finishRevision (conditionalWriteLocked process path bytes expected))
      h reply h') :
    Atomic process (.write path bytes false false (some expected)) h reply h' := by
  have holds : Program.wp (Host.kernel process)
      (FsHandlers.finishRevision (conditionalWriteLocked process path bytes expected))
      (fun reply h' => Atomic process (.write path bytes false false (some expected)) h reply h')
      h := by
    apply (Program.wp_bind _ _ _ _).mpr
    apply Program.wp_mono (wp_conditionalWriteLocked (h := h))
    intro result t covered
    cases result with
    | ok revision => exact .inl ⟨revision, rfl, covered⟩
    | error reason => exact .inr ⟨reason, rfl, covered⟩
  exact Program.wp_executes holds run

/-- A handler that runs alone makes its mutation as one step. -/
theorem atomic_of_executes {request : FsRequest}
    (run : Program.Executes (Host.kernel process) (handleFs process request) h reply h') :
    Atomic process request h reply h' := by
  unfold Atomic
  split
  · exact atomic_conditionalWrite run
  · exact run

variable {Job : Type} {request : Job → FsRequest} {start : Host}

theorem atomicRun_of_serial {log : List (Job × FsReply)}
    (serial : Locked.Serial (Host.kernel process) (fun job => handleFs process (request job)) start
      log h) : AtomicRun process request start log h := by
  induction serial with
  | nil => exact .nil
  | snoc _ alone ih => exact ih.snoc (atomic_of_executes alone)

/-- Workers that take the mutation lock and make the calls of their handlers. -/
def serve [DecidableEq Job] (process : Process) (request : Job → FsRequest) :
    Locked.World Call Answer FsReply Host Job → Locked.Event KernelChoice Job →
      Locked.World Call Answer FsReply Host Job :=
  Locked.step (Host.kernel process) fun job => handleFs process (request job)

def Served [DecidableEq Job] (process : Process) (request : Job → FsRequest) (start : Host) :
    Locked.World Call Answer FsReply Host Job → Prop :=
  Reaches (serve process request) (Locked.Permitted (Host.kernel process)) { state := start }

/-- Whatever the interleaving of the workers, replies and contents are those of the mutations made
one at a time in the order in which they took the lock. -/
theorem mutations_linearise [DecidableEq Job] {w : Locked.World Call Answer FsReply Host Job}
    (served : Served process request start w) (idle : w.holder = none) :
    ∃ log, AtomicRun process request start log w.state ∧ w.order = log.map Prod.fst ∧
      ∀ job reply, w.jobs job = .finished reply ↔ (job, reply) ∈ log := by
  obtain ⟨log, serial, order, finished⟩ := Locked.serial_of_reaches served idle
  exact ⟨log, atomicRun_of_serial serial, order, finished⟩

def sampleProcess : Process := { pid := 7, uid := 1000, gid := 1000, umask := 0o022 }

def sampleNode : Node := ⟨.file [97], 0o644, 1000, 1000, 1, ⟨5, 0⟩, ⟨5, 0⟩⟩

/-- A root directory with one file `f`. -/
def sampleDisk : Disk where
  root := ⟨1, 2⟩
  nodes inode :=
    if inode = ⟨1, 2⟩ then some ⟨.directory, 0o755, 0, 0, 2, ⟨0, 0⟩, ⟨0, 0⟩⟩
    else if inode = ⟨1, 10⟩ then some sampleNode
    else none
  entries inode := if inode = ⟨1, 2⟩ then [(".", ⟨1, 2⟩), ("f", ⟨1, 10⟩)] else []

def sampleHost : Host := { disk := sampleDisk, nextTemp := fun _ => 0 }

def sampleChoice : KernelChoice := ⟨⟨9, 0⟩, 11, false, 4096⟩

/-- A file `g` is created. -/
def creating : Io Revision := conditionalWriteLocked sampleProcess ⟨[], "g"⟩ [98] .missing

theorem sampleDisk_free {dev n : Nat} (fresh : 10 < n) : sampleDisk.Free ⟨dev, n⟩ := by
  refine ⟨by simp [sampleDisk]; omega, ?_⟩
  intro dir name found
  have member := Entries.mem_of_get found
  by_cases root : dir = ⟨1, 2⟩
  · simp [sampleDisk, root] at member
    omega
  · simp [sampleDisk, root] at member

/-- One worker creates a file, another waits to delete it. -/
def createAndDelete : Bool → FsRequest
  | false => .write ⟨[], "g"⟩ [98] false false (some .missing)
  | true => .delete ⟨[], "g"⟩

def createdAndDeleted : List (Locked.Event KernelChoice Bool) :=
  .acquire false :: .acquire true :: List.replicate 15 (.call false sampleChoice) ++
    [.release false, .acquire true, .call true sampleChoice, .release true]

theorem mutations_linearise_createAndDelete :
    let w := createdAndDeleted.foldl (serve sampleProcess createAndDelete) { state := sampleHost }
    ∃ log, AtomicRun sampleProcess createAndDelete sampleHost log w.state ∧
      w.order = log.map Prod.fst ∧
      ∀ job reply, w.jobs job = .finished reply ↔ (job, reply) ∈ log := by
  apply mutations_linearise (Reaches.of_along .refl ?_) rfl
  refine ⟨trivial, trivial, ?_, ?_, ?_, ?_, ?_, ?_, ?_, ?_, ?_, ?_, ?_, ?_, ?_, ?_, ?_, trivial,
    trivial, ?_, trivial, trivial⟩
  case refine_4 =>
    rintro _ _ ⟨⟩ _ ⟨⟩
    exact sampleDisk_free (by decide)
  all_goals
    rintro _ _ ⟨⟩
    trivial

/-- A request that is answered without a call. -/
theorem served_at_once {request : FsRequest} (answers : handleFs process request = .done reply) :
    ∃ w, Served process (fun _ : Unit => request) start w ∧ w.holder = none ∧
      w.jobs () = .finished reply := by
  let events : List (Locked.Event KernelChoice Unit) := [.acquire (), .release ()]
  have served : Served process (fun _ : Unit => request) start
      (events.foldl (serve process fun _ => request) { state := start }) :=
    Reaches.of_along .refl ⟨trivial, trivial, trivial⟩
  have program : serve process (fun _ : Unit => request) =
      Locked.step (Host.kernel process) fun _ => .done reply := by
    unfold serve
    simp only [answers]
    rfl
  refine ⟨_, served, ?_, ?_⟩
  · rw [program]
    rfl
  · rw [program]
    rfl

def sampleRevision : Revision := .fromMetadata ⟨⟨1, 10⟩, sampleNode⟩ (sha256 [97])

/-- The temporary name that the process tries first is the path to create. -/
def createOwnTemp : FsRequest :=
  .write ⟨[], ".relay-tmp-7-0"⟩ [98] false false (some .missing)

def ownTempRefused : List (Locked.Event KernelChoice Unit) :=
  .acquire () :: List.replicate 14 (.call () sampleChoice) ++ [.release ()]

theorem served_own_temp :
    Served sampleProcess (fun _ => createOwnTemp) sampleHost
      (ownTempRefused.foldl (serve sampleProcess fun _ => createOwnTemp)
        { state := sampleHost }) := by
  apply Reaches.of_along .refl
  refine ⟨trivial, ?_, ?_, ?_, ?_, ?_, ?_, ?_, ?_, ?_, ?_, ?_, ?_, ?_, ?_, trivial, trivial⟩
  case refine_4 =>
    rintro _ _ ⟨⟩ _ ⟨⟩
    exact sampleDisk_free (by decide)
  all_goals
    rintro _ _ ⟨⟩
    trivial

/-- The path to create lies in a directory that is not there. -/
def createNowhere : FsRequest := .write ⟨["d"], "g"⟩ [98] false false (some .missing)

def nowhereRefused : List (Locked.Event KernelChoice Unit) :=
  .acquire () :: List.replicate 4 (.call () sampleChoice) ++ [.release ()]

theorem served_nowhere :
    Served sampleProcess (fun _ => createNowhere) sampleHost
      (nowhereRefused.foldl (serve sampleProcess fun _ => createNowhere)
        { state := sampleHost }) := by
  apply Reaches.of_along .refl
  refine ⟨trivial, ?_, ?_, ?_, ?_, trivial, trivial⟩
  case refine_4 => rintro _ _ ⟨⟩ _ ⟨⟩
  all_goals
    rintro _ _ ⟨⟩
    trivial

/-- The request, served alone, gets this reply. -/
def Replies (request : FsRequest) (reply : FsReply) : Prop :=
  ∃ w, Served sampleProcess (fun _ : Unit => request) sampleHost w ∧ w.holder = none ∧
    w.jobs () = .finished reply

/-- Writes that find their path as expected are refused for their bytes, because their temporary
file is in the way, or for want of a directory. -/
theorem matching_writes_refused :
    (sampleDisk.Meets ⟨[], "f"⟩ (.present sampleRevision) ∧
      Replies (.write ⟨[], "f"⟩ [0xff] false false (some (.present sampleRevision)))
        (.refused .unsupportedEncoding) ∧
      Replies (.write ⟨[], "f"⟩ (List.replicate (maxReadBytes + 1) 97) false false
        (some (.present sampleRevision))) (.refused .tooLarge)) ∧
    (sampleDisk.Meets ⟨[], ".relay-tmp-7-0"⟩ .missing ∧
      ∃ revision, Replies createOwnTemp (.refused (.conflict .appeared (some revision)))) ∧
    (sampleDisk.Meets ⟨["d"], "g"⟩ .missing ∧
      Replies createNowhere (.refused (ioError "write(temp)" .notFound))) := by
  have met : sampleDisk.Meets ⟨[], "f"⟩ (.present sampleRevision) := ⟨[97], rfl⟩
  refine ⟨⟨met, served_at_once rfl, served_at_once ?_⟩, ⟨rfl, _, _, served_own_temp, rfl, rfl⟩,
    ⟨rfl, _, served_nowhere, rfl, rfl⟩⟩
  have large : decide ((List.replicate (maxReadBytes + 1) (97 : UInt8)).length ≤ maxReadBytes) =
      false := by
    rw [List.length_replicate]
    decide
  unfold handleFs conditionalWriteLocked
  simp only [large]
  rfl

end EmacsRelay

import EmacsRelay.Server.Linear
import EmacsRelay.Server.Read
import EmacsRelay.Server.Standing

set_option autoImplicit false

/- A revision read, which takes no lock, among the conditional writes of other workers to its path. -/
namespace EmacsRelay

open Trial

/-- What another worker does: it takes the mutation lock for a write, or its write makes a call. -/
inductive Turn where
  | acquire (bytes : Bytes) (expected : ExpectedRevision)
  | call (choice : KernelChoice)

/-- A read under way: the machine, the write that holds the lock, the file that the read has open and
whether it has sampled it, whether a sample met a file with other than one link, and the disks there
have been since the read began. -/
structure Reading where
  host : Host
  writer : Option (Io Revision) := none
  opened : Option Inode := none
  sampled : Bool := false
  crowded : Bool := false
  disks : List Disk := []

/-- The other workers' turns before a call of the read, and what the kernel chooses at the call. -/
structure Interval where
  turns : List Turn
  choice : KernelChoice

namespace Reading

/-- A worker waits while another one's write has calls to make. -/
def turn (process : Process) (path : Path) (s : Reading) : Turn → Reading
  | .acquire bytes expected =>
      match s.writer with
      | some (.call _ _) => s
      | _ => { s with writer := some (conditionalWriteLocked process path bytes expected) }
  | .call choice =>
      match s.writer with
      | some (.call request next) =>
          let result := Host.exec process request choice s.host
          { s with
            host := result.2
            writer := some (next result.1)
            disks := s.disks ++ [result.2.disk] }
      | _ => s

/-- A new file gets a number that is not in use, nor that of the file which the read has open. -/
def TurnAllowed (s : Reading) : Turn → Prop
  | .acquire _ _ => True
  | .call choice => ∀ request next, s.writer = some (.call request next) →
      Host.Allows request choice s.host ∧
        ∀ temp mode dir, request = .createNew temp mode → s.host.disk.directoryOf temp = .ok dir →
          s.opened ≠ some ⟨dir.dev, choice.fresh⟩

def TurnsAllowed (process : Process) (path : Path) : Reading → List Turn → Prop
  | _, [] => True
  | s, turn :: rest => s.TurnAllowed turn ∧ TurnsAllowed process path (s.turn process path turn) rest

def turns (process : Process) (path : Path) (s : Reading) (list : List Turn) : Reading :=
  list.foldl (turn process path) s

/-- A sample meets a file that has not exactly one link. -/
def crowds (d : Disk) : Call → Bool
  | .lstat path =>
      match d.lstat path with
      | .ok metadata => metadata.node.nlink != 1
      | .error _ => false
  | .fstat file =>
      match d.metadata file with
      | .ok metadata => metadata.node.nlink != 1
      | .error _ => false
  | _ => false

def openedAfter (s : Reading) : (request : Call) → Answer request → Option Inode
  | .openRead _, .ok file => some file
  | .fstat _, _ => if s.sampled then none else s.opened
  | _, _ => s.opened

def sampledAfter (s : Reading) : (request : Call) → Answer request → Bool
  | .openRead _, _ => false
  | .fstat _, _ => !s.sampled
  | _, _ => s.sampled

/-- A call of the read. Its file is closed after the second sample. -/
def look (process : Process) (s : Reading) (request : Call) (choice : KernelChoice) : Reading :=
  let result := Host.exec process request choice s.host
  { s with
    host := result.2
    opened := s.openedAfter request result.1
    sampled := s.sampledAfter request result.1
    crowded := s.crowded || crowds s.host.disk request }

/-- The system as the read meets it. -/
def kernel (process : Process) (path : Path) : Kernel Call Answer Reading where
  Input := Interval
  allowed request input s := TurnsAllowed process path s input.turns ∧
    Host.Allows request input.choice (s.turns process path input.turns).host
  exec request input s :=
    let met := s.turns process path input.turns
    ((Host.exec process request input.choice met.host).1, met.look process request input.choice)

/-- The read begins when the other workers have had these turns. -/
def begun (process : Process) (path : Path) (h : Host) (before : List Turn) : Reading :=
  let met := turns process path { host := h } before
  { met with disks := [met.host.disk] }

/-- What a read may return: a version that there has been since it began, that the read was unstable,
or that there was no file. For an ordinary path there was none when the read began. -/
def Tolerated (path : Path) (t : Reading) : Except RevisionError RevisionRead → Prop
  | .ok read => ∃ d ∈ t.disks, d.revisionAt path = .ok read
  | .error reason => reason = .unstableRead ∨
      (reason = missingFile .notFound ∨ reason = ioError "read" .notFound) ∧
        (∃ d ∈ t.disks, d.lstat path = .error .notFound) ∧
        (¬ TempName path.name → ∀ d, t.disks.head? = some d → d.lstat path = .error .notFound)

end Reading

/-- The path names a file that can be read, or nothing. -/
def Disk.Readable (d : Disk) (path : Path) : Prop :=
  d.lstat path = .error .notFound ∨
    ∃ metadata content, d.lstat path = .ok metadata ∧ metadata.node.kind = .file content ∧
      Writable content

namespace Reading

/-- The write that holds the lock keeps to its course. -/
def Runs (path : Path) (phase : WriteCourse) : Option (Io Revision) → Prop
  | none => phase.Rests
  | some rest => ∃ bytes expected,
      Program.wp (WriteCourse.protocol path bytes expected).rule rest (fun _ after => after.Rests)
        phase

/-- The write has the phase that its remaining calls fit, and leaves the path as one does in it. -/
structure Attends (path : Path) (dir : Inode) (s : Reading) (phase : WriteCourse) : Prop where
  runs : Runs path phase s.writer
  leaves : phase.Leaves path dir s.host.disk

/-- What passes from one state to a later one while other workers have their turns. -/
structure Passes (path : Path) (dir : Inode) (s : Reading) (phase : WriteCourse) (t : Reading)
    (after : WriteCourse) : Prop where
  attends : t.Attends path dir after
  continued : Continued path dir s.opened phase s.host.disk after t.host.disk
  opened : t.opened = s.opened
  sampled : t.sampled = s.sampled
  crowded : t.crowded = s.crowded
  disks : ∃ more, t.disks = s.disks ++ more
  seen : s.host.disk ∈ s.disks → t.host.disk ∈ t.disks

end Reading

section Turns

variable {process : Process} {path : Path} {dir : Inode} {s t u : Reading}
  {phase between after : WriteCourse}

theorem continued_trans {opened : Option Inode} {d e f : Disk}
    (first : Continued path dir opened phase d between e)
    (second : Continued path dir opened between e after f) :
    Continued path dir opened phase d after f where
  leaves := second.leaves
  sole := fun sole => second.sole (first.sole sole)
  holds := by
    intro file content isOpen sole holds
    obtain ⟨more, still, grown⟩ := first.holds file content isOpen sole holds
    obtain ⟨most, last, further⟩ := second.holds file more isOpen (first.sole sole) still
    refine ⟨most, last, ?_⟩
    rcases further with same | empty
    · rw [same]
      exact grown
    · right
      rcases grown with same | before
      · exact same.symm.trans empty
      · exact before
  present := fun ordinary there => second.present ordinary (first.present ordinary there)

theorem passes_refl (attends : s.Attends path dir phase) : s.Passes path dir phase s phase where
  attends := attends
  continued := continued_of_same attends.leaves fun _ _ _ => rfl
  opened := rfl
  sampled := rfl
  crowded := rfl
  disks := ⟨[], (List.append_nil _).symm⟩
  seen := id

theorem passes_trans (first : s.Passes path dir phase t between)
    (second : t.Passes path dir between u after) : s.Passes path dir phase u after where
  attends := second.attends
  continued := by
    have later := second.continued
    rw [first.opened] at later
    exact continued_trans first.continued later
  opened := second.opened.trans first.opened
  sampled := second.sampled.trans first.sampled
  crowded := second.crowded.trans first.crowded
  disks := by
    obtain ⟨more, grown⟩ := first.disks
    obtain ⟨most, further⟩ := second.disks
    exact ⟨more ++ most, by rw [further, grown, List.append_assoc]⟩
  seen := fun here => second.seen (first.seen here)

/-- A worker takes the lock, or has to wait. -/
theorem passes_acquire (attends : s.Attends path dir phase) (bytes : Bytes)
    (expected : ExpectedRevision) :
    ∃ after, s.Passes path dir phase (s.turn process path (.acquire bytes expected)) after := by
  have starts : phase.Rests →
      s.Passes path dir phase
        { s with writer := some (conditionalWriteLocked process path bytes expected) } .fresh := by
    intro rests
    have stands : WriteCourse.fresh.Leaves path dir s.host.disk := attends.leaves.stands
    refine ⟨⟨⟨bytes, expected, course_rests process⟩, stands⟩, ?_, rfl, rfl, rfl,
      ⟨[], (List.append_nil _).symm⟩, id⟩
    apply continued_of_same stands
    intro temp file linked
    rw [linked] at rests
    exact rests.elim
  have runs := attends.runs
  cases holder : s.writer with
  | none =>
      rw [holder] at runs
      refine ⟨.fresh, ?_⟩
      simp only [Reading.turn, holder]
      exact starts runs
  | some rest =>
      rw [holder] at runs
      cases rest with
      | done value =>
          obtain ⟨_, _, rests⟩ := runs
          refine ⟨.fresh, ?_⟩
          simp only [Reading.turn, holder]
          exact starts rests
      | call request next =>
          refine ⟨phase, ?_⟩
          simp only [Reading.turn, holder]
          exact passes_refl attends

theorem passes_call (attends : s.Attends path dir phase) {choice : KernelChoice}
    (allowed : s.TurnAllowed (.call choice)) :
    ∃ after, s.Passes path dir phase (s.turn process path (.call choice)) after := by
  have runs := attends.runs
  cases holder : s.writer with
  | none =>
      refine ⟨phase, ?_⟩
      simp only [Reading.turn, holder]
      exact passes_refl attends
  | some rest =>
      cases rest with
      | done value =>
          refine ⟨phase, ?_⟩
          simp only [Reading.turn, holder]
          exact passes_refl attends
      | call request next =>
          rw [holder] at runs
          obtain ⟨bytes, expected, legal, follows⟩ := runs
          obtain ⟨free, unused⟩ := allowed request next holder
          have continued : phase.Proceeds path dir s.opened process s.host request choice := by
            apply proceeds attends.leaves legal free
            intro temp mode creates
            rw [creates] at legal
            cases phase with
            | fresh =>
                apply unused temp mode dir creates
                have here := attends.leaves.stands.here
                unfold Disk.directoryOf at here ⊢
                rw [show temp.parent = path.parent from legal.1]
                exact here
            | _ => exact legal.elim
          refine ⟨phase.advance request (Host.exec process request choice s.host).1, ?_⟩
          simp only [Reading.turn, holder]
          exact ⟨⟨⟨bytes, expected, follows _⟩, continued.leaves⟩, continued, rfl, rfl, rfl,
            ⟨_, rfl⟩, fun _ => List.mem_append_right _ List.mem_cons_self⟩

/-- By induction on the turns. -/
theorem passes_turns {list : List Turn} (attends : s.Attends path dir phase)
    (allowed : s.TurnsAllowed process path list) :
    ∃ after, s.Passes path dir phase (s.turns process path list) after := by
  induction list generalizing s phase with
  | nil => exact ⟨phase, passes_refl attends⟩
  | cons turn rest ih =>
      have next : ∃ between, s.Passes path dir phase (s.turn process path turn) between := by
        cases turn with
        | acquire bytes expected => exact passes_acquire attends bytes expected
        | call choice => exact passes_call attends allowed.1
      obtain ⟨between, first⟩ := next
      obtain ⟨after, others⟩ := ih first.attends allowed.2
      exact ⟨after, passes_trans first others⟩

end Turns

section Lookup

variable {path : Path} {dir file : Inode} {d : Disk}

theorem lstat_of_absent (stands : Stands path dir d) (absent : d.entry dir path.name = none) :
    d.lstat path = .error .notFound := by
  unfold Disk.lstat Disk.find
  rw [stands.here]
  dsimp only
  rw [absent]

theorem lstat_of_there (stands : Stands path dir d) (there : d.entry dir path.name = some file) :
    ∃ node content, d.nodes file = some node ∧ node.kind = .file content ∧ Writable content ∧
      d.lstat path = .ok ⟨file, node⟩ := by
  obtain ⟨content, kind, writable⟩ := stands.text file there
  obtain ⟨node, known, isFile⟩ := Option.map_eq_some_iff.mp kind
  refine ⟨node, content, known, isFile, writable, ?_⟩
  have found : d.find path = .ok file := Disk.find_ok.mpr ⟨dir, stands.here, there⟩
  unfold Disk.lstat
  rw [found]
  dsimp only [Disk.metadata]
  rw [known]

theorem openRead_of_there (stands : Stands path dir d) (there : d.entry dir path.name = some file) :
    d.openRead path = .ok file := by
  obtain ⟨content, kind, _⟩ := stands.text file there
  have found : d.find path = .ok file := Disk.find_ok.mpr ⟨dir, stands.here, there⟩
  unfold Disk.openRead
  rw [found]
  dsimp only
  rw [kind]

theorem openRead_of_absent (stands : Stands path dir d) (absent : d.entry dir path.name = none) :
    d.openRead path = .error .notFound := by
  unfold Disk.openRead Disk.find
  rw [stands.here]
  dsimp only
  rw [absent]

/-- A file of this kind is refused only for its links. -/
theorem finalType_of_text {metadata : Metadata} {content : Bytes}
    (kind : metadata.node.kind = .file content) :
    finalType metadata = if metadata.node.nlink ≠ 1 then some .hardlink else none := by
  unfold finalType
  rw [kind]

end Lookup

namespace Reading

/-- No sample has met a file with other than one link. -/
structure Calm (path : Path) (dir : Inode) (s : Reading) (phase : WriteCourse) : Prop where
  attends : s.Attends path dir phase
  calm : s.crowded = false
  seen : s.host.disk ∈ s.disks
  lasting : ¬ TempName path.name → s.host.disk.entry dir path.name = none →
    ∀ d, s.disks.head? = some d → d.lstat path = .error .notFound

/-- The read has this file open, which has one link if it is still at the path. -/
structure Open (path : Path) (dir file : Inode) (content : Bytes) (s : Reading)
    (phase : WriteCourse) : Prop where
  calm : s.Calm path dir phase
  sole : phase.Sole path dir s.host.disk
  opened : s.opened = some file
  holds : s.host.disk.Holds path dir file content

/-- How a read ends: it tolerates the writes, or it refuses a file for its links. -/
def Ends (path : Path) (t : Reading) (result : Except RevisionError RevisionRead) : Prop :=
  t.crowded = false ∧ t.Tolerated path result ∨
    t.crowded = true ∧ result = .error (.unsupportedFinalType .hardlink)

section Calls

variable {process : Process} {path : Path} {dir file : Inode} {content : Bytes} {s t : Reading}
  {phase after : WriteCourse} {request : Call}

theorem Calm.passes (calm : s.Calm path dir phase) (passes : s.Passes path dir phase t after) :
    t.Calm path dir after where
  attends := passes.attends
  calm := passes.crowded.trans calm.calm
  seen := passes.seen calm.seen
  lasting := by
    intro ordinary absent d first
    have before : s.host.disk.entry dir path.name = none := by
      by_contra there
      exact passes.continued.present ordinary there absent
    obtain ⟨more, grown⟩ := passes.disks
    apply calm.lasting ordinary before d
    cases disks : s.disks with
    | nil =>
        have none := calm.seen
        rw [disks] at none
        cases none
    | cons head rest =>
        rw [grown, disks] at first
        exact first

theorem Calm.look (calm : s.Calm path dir phase) (request : Call) (harmless : request.Harmless path)
    (choice : KernelChoice) (sparse : crowds s.host.disk request = false) :
    (s.look process request choice).Calm path dir phase := by
  have same : (s.look process request choice).host = s.host := host_of_harmless harmless choice s.host
  refine ⟨⟨calm.attends.runs, ?_⟩, ?_, ?_, ?_⟩
  · rw [same]
    exact calm.attends.leaves
  · simp [Reading.look, calm.calm, sparse]
  · rw [same]
    exact calm.seen
  · rw [same]
    exact calm.lasting

theorem Calm.missing {reason : RevisionError} (calm : s.Calm path dir phase)
    (absent : s.host.disk.entry dir path.name = none)
    (lost : reason = missingFile .notFound ∨ reason = ioError "read" .notFound) :
    s.Ends path (.error reason) := by
  refine .inl ⟨calm.calm, .inr ⟨lost, ⟨_, calm.seen, ?_⟩, ?_⟩⟩
  · exact lstat_of_absent calm.attends.leaves.stands absent
  · exact fun ordinary => calm.lasting ordinary absent

/-- A call of the read meets what the others' turns have left. -/
theorem reading_call (request : Call) {post : Answer request → Reading → Prop}
    {failed : RevisionError → Reading → Prop} (calm : s.Calm path dir phase)
    (holds : ∀ met after choice, s.Passes path dir phase met after → met.Calm path dir after →
      post (Host.exec process request choice met.host).1 (met.look process request choice)) :
    wp (kernel process path).rule (ask request : Io (Answer request)) post failed s := by
  intro input allowed
  obtain ⟨after, passes⟩ := passes_turns calm.attends allowed.1
  exact holds _ after input.choice passes (calm.passes passes)

/-- A look at the path: nothing is there, or its file has one link, or it is refused. -/
theorem reading_lstat {post : Except OsError Metadata → Reading → Prop}
    {failed : RevisionError → Reading → Prop} (calm : s.Calm path dir phase)
    (missing : ∀ t, t.Ends path (.error (missingFile .notFound)) → post (.error .notFound) t)
    (single : ∀ metadata t after, finalType metadata = none → t.Calm path dir after →
      after.Sole path dir t.host.disk → post (.ok metadata) t)
    (refused : ∀ metadata t, finalType metadata = some .hardlink → t.crowded = true →
      post (.ok metadata) t) :
    wp (kernel process path).rule (Sys.lstat path) post failed s := by
  apply reading_call (.lstat path) calm
  intro met after choice _ calm
  have stands := calm.attends.leaves.stands
  have same : (met.look process (.lstat path) choice).host = met.host := rfl
  cases there : met.host.disk.entry dir path.name with
  | none =>
      have lost := lstat_of_absent stands there
      have answered : (Host.exec process (.lstat path) choice met.host).1 = .error .notFound := lost
      have sparse : crowds met.host.disk (.lstat path) = false := by simp [crowds, lost]
      rw [answered]
      apply missing
      exact (calm.look (.lstat path) rfl choice sparse).missing there (.inl rfl)
  | some file =>
      obtain ⟨node, content, known, isFile, writable, found⟩ := lstat_of_there stands there
      have answered : (Host.exec process (.lstat path) choice met.host).1 = .ok ⟨file, node⟩ := found
      rw [answered]
      by_cases one : node.nlink = 1
      · have sparse : crowds met.host.disk (.lstat path) = false := by simp [crowds, found, one]
        apply single
        · rw [finalType_of_text isFile]
          simp [one]
        · exact calm.look (.lstat path) rfl choice sparse
        · intro other found there' known'
          left
          have mine : other = file := Option.some.inj (there'.symm.trans there)
          rw [mine] at known'
          have nodes : node = found := Option.some.inj (known.symm.trans known')
          exact nodes ▸ one
      · apply refused
        · rw [finalType_of_text isFile]
          simp [one]
        · simp [Reading.look, crowds, found, one]

theorem reading_openRead {post : Except OsError Inode → Reading → Prop}
    {failed : RevisionError → Reading → Prop} (calm : s.Calm path dir phase)
    (sole : phase.Sole path dir s.host.disk)
    (missing : ∀ t, t.Ends path (.error (ioError "read" .notFound)) → post (.error .notFound) t)
    (opens : ∀ file content t after, t.Open path dir file content after → t.sampled = false →
      post (.ok file) t) :
    wp (kernel process path).rule (Sys.openRead path) post failed s := by
  apply reading_call (.openRead path) calm
  intro met after choice passes calm
  have stands := calm.attends.leaves.stands
  have still : (met.look process (.openRead path) choice).Calm path dir after :=
    calm.look (.openRead path) rfl choice rfl
  cases there : met.host.disk.entry dir path.name with
  | none =>
      have answered : (Host.exec process (.openRead path) choice met.host).1 = .error .notFound :=
        openRead_of_absent stands there
      rw [answered]
      exact missing _ (still.missing there (.inr rfl))
  | some file =>
      obtain ⟨node, content, known, isFile, writable, _⟩ := lstat_of_there stands there
      have answered : (Host.exec process (.openRead path) choice met.host).1 = .ok file :=
        openRead_of_there stands there
      rw [answered]
      apply opens file content _ after _ rfl
      refine ⟨still, passes.continued.sole sole, ?_, node, known, isFile, writable, .inl there⟩
      simp only [Reading.look, answered]
      rfl

/-- The read opens a file, or ends. -/
theorem reading_openChecked (calm : s.Calm path dir phase) :
    wp (kernel process path).rule (openChecked path)
      (fun file t => t.sampled = false ∧ ∃ content after, t.Open path dir file content after)
      (fun reason t => t.Ends path (.error reason)) s := by
  unfold openChecked checkedLstat
  rw [wp_bind, wp_bind]
  apply reading_lstat calm
  · exact fun t lost => lost
  · intro metadata t after plain calm sole
    dsimp only
    rw [wp_pure, wp_bind, wp_refuseType]
    refine ⟨fun _ => ?_, fun kind hard => ?_⟩
    · rw [wp_bind]
      apply reading_openRead calm sole
      · exact fun u lost => lost
      · exact fun file content u after isOpen first => ⟨first, content, after, isOpen⟩
    · rw [plain] at hard
      cases hard
  · intro metadata t hard crowded
    dsimp only
    rw [wp_pure, wp_bind, wp_refuseType]
    refine ⟨fun plain => ?_, fun kind same => ?_⟩
    · rw [hard] at plain
      cases plain
    · rw [hard] at same
      rw [← Option.some.inj same]
      exact .inr ⟨crowded, rfl⟩

end Calls

section Attempts

variable {process : Process} {path : Path} {dir file : Inode} {content : Bytes} {s t : Reading}
  {phase after : WriteCourse}

theorem Open.passes (isOpen : s.Open path dir file content phase)
    (passes : s.Passes path dir phase t after) :
    ∃ more, t.Open path dir file more after ∧ (more = content ∨ content = []) := by
  obtain ⟨more, holds, grown⟩ :=
    passes.continued.holds file content isOpen.opened isOpen.sole isOpen.holds
  refine ⟨more, ⟨isOpen.calm.passes passes, ?_, ?_, holds⟩, grown⟩
  · exact passes.continued.sole isOpen.sole
  · exact passes.opened.trans isOpen.opened

theorem Open.kindOf (isOpen : s.Open path dir file content phase) :
    s.host.disk.kindOf file = some (.file content) := by
  obtain ⟨node, known, isFile, _⟩ := isOpen.holds
  simp [Disk.kindOf, known, isFile]

theorem Open.writable (isOpen : s.Open path dir file content phase) : Writable content := by
  obtain ⟨_, _, _, writable, _⟩ := isOpen.holds
  exact writable

/-- A sample of the open file: it has one link and is at the path, or it is refused. -/
theorem reading_fstat {post : Except OsError Metadata → Reading → Prop}
    {failed : RevisionError → Reading → Prop} (isOpen : s.Open path dir file content phase)
    (single : ∀ metadata more t after, finalType metadata = none →
      metadata.node.kind = .file more → Writable more → (more = content ∨ content = []) →
      t.Calm path dir after → t.host.disk.lstat path = .ok metadata →
      (s.sampled = false → t.Open path dir file more after ∧ t.sampled = true) →
      post (.ok metadata) t)
    (refused : ∀ metadata t, finalType metadata = some .hardlink → t.crowded = true →
      post (.ok metadata) t) :
    wp (kernel process path).rule (Sys.fstat file) post failed s := by
  apply reading_call (.fstat file) isOpen.calm
  intro met after choice passes calm
  obtain ⟨more, still, grown⟩ := isOpen.passes passes
  obtain ⟨node, known, isFile, writable, place⟩ := still.holds
  have found : met.host.disk.metadata file = .ok ⟨file, node⟩ := by
    unfold Disk.metadata
    rw [known]
  have answered : (Host.exec process (.fstat file) choice met.host).1 = .ok ⟨file, node⟩ := found
  rw [answered]
  by_cases one : node.nlink = 1
  · have there : met.host.disk.entry dir path.name = some file := by
      apply place.resolve_right
      omega
    have sparse : crowds met.host.disk (.fstat file) = false := by simp [crowds, found, one]
    have quiet : (met.look process (.fstat file) choice).Calm path dir after :=
      calm.look (.fstat file) trivial choice sparse
    obtain ⟨node', _, known', _, _, looked⟩ := lstat_of_there calm.attends.leaves.stands there
    have same : node = node' := Option.some.inj (known.symm.trans known')
    apply single ⟨file, node⟩ more _ after _ isFile writable grown quiet
    · rw [same]
      exact looked
    · intro first
      have unsampled : met.sampled = false := passes.sampled.trans first
      refine ⟨⟨quiet, still.sole, ?_, still.holds⟩, ?_⟩
      · simp only [Reading.look, openedAfter, unsampled]
        exact still.opened
      · simp only [Reading.look, sampledAfter, unsampled]
        rfl
    · rw [finalType_of_text isFile]
      simp [one]
  · apply refused
    · rw [finalType_of_text isFile]
      simp [one]
    · simp [Reading.look, crowds, found, one]

/-- The reads of the open file, one by one, return what it contains. It may have been written
meanwhile only if it was empty. By induction on the reads that are left. -/
theorem reading_readOn {failed : RevisionError → Reading → Prop} (fuel offset limit : Nat)
    (enough : limit ≤ fuel) (isOpen : s.Open path dir file content phase) :
    wp (kernel process path).rule (readOn file fuel offset limit)
      (fun result t => ∃ inside more after, result = .ok ((inside.drop offset).take limit) ∧
        Writable inside ∧ (inside = content ∨ content = []) ∧ (more = inside ∨ inside = []) ∧
        t.Open path dir file more after ∧ t.sampled = s.sampled) failed s := by
  induction fuel generalizing offset limit s phase content with
  | zero =>
      have none : limit = 0 := by omega
      rw [none]
      exact ⟨content, content, phase, rfl, isOpen.writable, .inl rfl, .inl rfl, isOpen, rfl⟩
  | succ fuel ih =>
      unfold readOn
      rw [wp_ite]
      constructor
      · intro none
        rw [none]
        exact ⟨content, content, phase, rfl, isOpen.writable, .inl rfl, .inl rfl, isOpen, rfl⟩
      intro some
      rw [wp_bind]
      apply reading_call (.read file offset limit) isOpen.calm
      intro met after choice passes _
      obtain ⟨now, still, grown⟩ := isOpen.passes passes
      have later : (met.look process (.read file offset limit) choice).Open path dir file now after :=
        ⟨still.calm.look (.read file offset limit) trivial choice rfl, still.sole, still.opened,
          still.holds⟩
      have answered : (Host.exec process (.read file offset limit) choice met.host).1 =
          .ok ((now.drop offset).take (min limit (max 1 choice.count))) := by
        show met.host.disk.readAt choice file offset limit = _
        unfold Disk.readAt
        rw [still.kindOf]
      rw [answered]
      cases chunk : (now.drop offset).take (min limit (max 1 choice.count)) with
      | nil =>
          have short := congrArg List.length chunk
          simp only [List.length_take, List.length_nil] at short
          have empty : now.drop offset = [] := List.length_eq_zero_iff.mp (by omega)
          refine ⟨now, now, after, ?_, still.writable, grown, .inl rfl, later, passes.sampled⟩
          rw [empty, List.take_nil]
      | cons first rest =>
          have head : first :: rest <+: now.drop offset := by
            rw [← chunk]
            exact List.take_prefix _ _
          have short : (first :: rest).length ≤ limit := by
            rw [← chunk, List.length_take]
            omega
          have left : limit - (first :: rest).length ≤ fuel := by
            rw [List.length_cons] at short ⊢
            omega
          have filled : now ≠ [] := by
            intro empty
            rw [empty, List.drop_nil] at head
            cases List.prefix_nil.mp head
          dsimp only
          rw [wp_bind]
          apply wp_mono (ih _ _ left later) _ fun _ _ same => same
          intro result t ended
          obtain ⟨inside, more, last, read, writable, kept, further, open', sampled⟩ := ended
          have whole : inside = now := kept.resolve_right filled
          rw [wp_pure]
          refine ⟨inside, more, last, ?_, writable, ?_, further, open', sampled.trans passes.sampled⟩
          · rw [read, whole, take_eq_append head short, List.drop_drop]
            rfl
          · rw [whole]
            exact grown

/-- Equal samples enclose a read of a file that did not change. -/
theorem same_of_sizes {before after : Metadata} {first inside last final : Bytes}
    (was : before.node.kind = .file first) (is : after.node.kind = .file final)
    (equal : metadataEqual before after = true) (read : inside = first ∨ first = [])
    (more : last = inside ∨ inside = []) (rest : final = last ∨ last = []) : inside = final := by
  have sizes : first.length = final.length := by
    have sizes : before.size = after.size := by
      simp only [metadataEqual, Bool.and_eq_true, beq_iff_eq] at equal
      exact equal.1.1.1.1.1.1.1.2
    simpa only [Metadata.size, was, is] using sizes
  by_cases empty : first = []
  · have none : final = [] := by
      apply List.length_eq_zero_iff.mp
      rw [← sizes, empty]
      rfl
    have gone : last = [] := by
      rcases rest with same | gone
      · exact same.symm.trans none
      · exact gone
    rcases more with same | gone'
    · rw [none, ← same, gone]
    · rw [none, gone']
  · have here : inside = first := read.resolve_right empty
    have there : last = inside := more.resolve_right (here ▸ empty)
    have still : final = last := rest.resolve_right (there ▸ here ▸ empty)
    rw [still, there]

/-- An attempt returns the version at the path, or has to be repeated, or ends the read. -/
theorem reading_attempt (calm : s.Calm path dir phase) :
    wp (kernel process path).rule (readAttempt path)
      (fun read t => match read with
        | some read => t.Ends path (.ok read)
        | none => ∃ after, t.Calm path dir after)
      (fun reason t => t.Ends path (.error reason)) s := by
  unfold readAttempt
  rw [wp_bind]
  apply wp_mono (reading_openChecked calm) _ fun _ _ ended => ended
  intro file s opened
  obtain ⟨unsampled, content, phase, isOpen⟩ := opened
  have refuses : ∀ (next : Io (Option RevisionRead)) (metadata : Metadata) (t : Reading),
      finalType metadata = some .hardlink → t.crowded = true →
      wp (kernel process path).rule (refuseType metadata >>= fun _ => next)
        (fun read t => match read with
          | some read => t.Ends path (.ok read)
          | none => ∃ after, t.Calm path dir after)
        (fun reason t => t.Ends path (.error reason)) t := by
    intro next metadata t hard crowded
    rw [wp_bind, wp_refuseType, hard]
    refine ⟨fun plain => absurd plain (Option.some_ne_none _), fun kind same => ?_⟩
    rw [← Option.some.inj same]
    exact .inr ⟨crowded, rfl⟩
  rw [wp_bind]
  apply reading_fstat isOpen
  case refused =>
    intro before t hard crowded
    exact refuses _ before t hard crowded
  intro before first s phase plain was _ _ _ _ goesOn
  obtain ⟨isOpen, sampled⟩ := goesOn unsampled
  have fits : before.size ≤ maxReadBytes := by
    simp only [Metadata.size, was]
    exact isOpen.writable.small
  rw [ofExcept_ok, wp_bind, wp_pure, wp_bind, wp_refuseType, plain]
  refine ⟨fun _ => ?_, fun _ never => by cases never⟩
  rw [wp_bind, wp_require]
  refine ⟨fun _ => ?_, fun large => absurd fits (of_decide_eq_false large)⟩
  rw [wp_bind]
  apply wp_mono (reading_readOn _ 0 _ (Nat.le_refl _) isOpen) _ fun _ _ same => same
  intro result s ended
  obtain ⟨inside, last, phase, read, writable, kept, more, isOpen, _⟩ := ended
  have small := writable.small
  rw [read, List.drop_zero, List.take_of_length_le (by omega), ofExcept_ok, wp_bind, wp_pure, wp_bind,
    wp_require]
  refine ⟨fun _ => ?_, fun large => absurd small (of_decide_eq_false large)⟩
  rw [wp_bind]
  apply reading_fstat isOpen
  case refused =>
    intro after t hard crowded
    exact refuses _ after t hard crowded
  intro after final t phase plain is _ rest calm found _
  rw [ofExcept_ok, wp_bind, wp_pure, wp_bind, wp_refuseType, plain]
  refine ⟨fun _ => ?_, fun _ never => by cases never⟩
  rw [wp_ite]
  refine ⟨fun equal => ?_, fun _ => ⟨phase, calm⟩⟩
  have same : inside = final := same_of_sizes was is equal kept more rest
  rw [wp_bind, wp_require]
  refine ⟨fun _ => ?_, fun invalid => ?_⟩
  · rw [wp_pure]
    refine .inl ⟨calm.calm, _, calm.seen, ?_⟩
    unfold Disk.revisionAt
    rw [found]
    dsimp only [Metadata.read]
    rw [plain, is]
    dsimp only
    rw [← same, if_pos small, if_pos writable.valid]
  · rw [writable.valid] at invalid
    cases invalid

/-- By induction on the attempts that are left. -/
theorem reading_attempts (attempts : Nat) (calm : s.Calm path dir phase) :
    wp (kernel process path).rule
      (readAttempts path attempts)
      (fun read t => t.Ends path (.ok read)) (fun reason t => t.Ends path (.error reason)) s := by
  induction attempts generalizing s phase with
  | zero => exact .inl ⟨calm.calm, .inl rfl⟩
  | succ attempts ih =>
      unfold readAttempts
      rw [wp_bind]
      apply wp_mono (reading_attempt calm) _ fun _ _ ended => ended
      intro read t ended
      cases read with
      | some read => exact ended
      | none =>
          obtain ⟨after, calm⟩ := ended
          exact ih calm

end Attempts

/-- The directory of the path is missing, so that writes change nothing. -/
structure Lost (path : Path) (d : Disk) (s : Reading) : Prop where
  nowhere : d.directoryOf path = .error .notFound
  host : s.host.disk = d
  calm : s.crowded = false
  disks : ∀ e ∈ s.disks, e = d
  runs : ∃ phase : WriteCourse, phase.Rests ∧ Runs path phase s.writer

section Begun

variable {process : Process} {path : Path} {dir : Inode} {h : Host} {d : Disk} {s : Reading}

theorem Lost.turn (lost : s.Lost path d) (turn : Turn) : (s.turn process path turn).Lost path d := by
  obtain ⟨phase, rests, runs⟩ := lost.runs
  have starts : ∀ bytes expected,
      ({ s with writer := some (conditionalWriteLocked process path bytes expected) } :
        Reading).Lost path d := by
    intro bytes expected
    exact ⟨lost.nowhere, lost.host, lost.calm, lost.disks,
      .fresh, trivial, bytes, expected, course_rests process⟩
  cases holder : s.writer with
  | none =>
      cases turn with
      | acquire bytes expected =>
          simp only [Reading.turn, holder]
          exact starts bytes expected
      | call choice =>
          simp only [Reading.turn, holder]
          exact lost
  | some rest =>
      cases rest with
      | done value =>
          cases turn with
          | acquire bytes expected =>
              simp only [Reading.turn, holder]
              exact starts bytes expected
          | call choice =>
              simp only [Reading.turn, holder]
              exact lost
      | call request next =>
          cases turn with
          | acquire bytes expected =>
              simp only [Reading.turn, holder]
              exact lost
          | call choice =>
              rw [holder] at runs
              obtain ⟨bytes, expected, legal, follows⟩ := runs
              have nowhere : s.host.disk.directoryOf path = .error .notFound :=
                lost.host ▸ lost.nowhere
              have kept : (Host.exec process request choice s.host).2.disk = s.host.disk ∧ _ :=
                rests_of_lost nowhere rests legal
              have same := kept.1.trans lost.host
              simp only [Reading.turn, holder]
              refine ⟨lost.nowhere, same, lost.calm, ?_, _, kept.2, bytes, expected, follows _⟩
              intro e member
              rcases List.mem_append.mp member with before | now
              · exact lost.disks e before
              · exact (List.mem_singleton.mp now).trans same

theorem Lost.turns (lost : s.Lost path d) (list : List Turn) :
    (s.turns process path list).Lost path d := by
  induction list generalizing s with
  | nil => exact lost
  | cons turn rest ih => exact ih (lost.turn turn)

theorem seen_turn (turn : Turn) (seen : d ∈ s.disks) : d ∈ (s.turn process path turn).disks := by
  unfold Reading.turn
  split
  · split <;> exact seen
  · split
    · exact List.mem_append_left _ seen
    · exact seen

theorem seen_turns (list : List Turn) (seen : d ∈ s.disks) :
    d ∈ (s.turns process path list).disks := by
  induction list generalizing s with
  | nil => exact seen
  | cons turn rest ih => exact ih (seen_turn turn seen)

theorem Lost.absent (lost : s.Lost path d) : d.lstat path = .error .notFound := by
  unfold Disk.lstat Disk.find
  rw [lost.nowhere]

theorem reading_lost (lost : s.Lost path d) (seen : d ∈ s.disks) :
    wp (kernel process path).rule (readWithRevision path) (fun read t => t.Ends path (.ok read))
      (fun reason t => t.Ends path (.error reason)) s := by
  unfold readWithRevision readLimit readAttempts readAttempt openChecked checkedLstat
  rw [wp_bind, wp_bind, wp_bind, wp_bind]
  intro input _
  have later : (s.turns process path input.turns).Lost path d := lost.turns input.turns
  have missing : (s.turns process path input.turns).host.disk.lstat path = .error .notFound :=
    later.host ▸ later.absent
  have answered : ((kernel process path).exec (.lstat path) input s).1 =
      (.error .notFound : Except OsError Metadata) := missing
  rw [answered]
  refine .inl ⟨?_, .inr ⟨.inl rfl, ⟨d, ?_, later.absent⟩, ?_⟩⟩
  · simp [kernel, Reading.look, crowds, missing, later.calm]
  · exact seen_turns input.turns seen
  · intro _ e first
    rw [later.disks e (List.mem_of_mem_head? first)]
    exact later.absent

/-- A file at the path, or nothing in its directory. -/
theorem stands_of_readable (readable : d.Readable path) (here : d.directoryOf path = .ok dir) :
    Stands path dir d := by
  refine ⟨here, ?_⟩
  intro file there
  have found : d.find path = .ok file := Disk.find_ok.mpr ⟨dir, here, there⟩
  have looked : d.lstat path = d.metadata file := by
    unfold Disk.lstat
    rw [found]
  rcases readable with absent | ⟨metadata, content, present, isFile, writable⟩
  · rw [looked] at absent
    unfold Disk.metadata at absent
    split at absent <;> cases absent
  · have known := (lstat_ok present).2
    rw [Except.ok.inj ((lstat_ok present).1.symm.trans found)] at known
    exact ⟨content, by simp [Disk.kindOf, known, isFile], writable⟩

theorem lost_of_readable {e : OsError} (readable : h.disk.Readable path)
    (nowhere : h.disk.directoryOf path = .error e) :
    ({ host := h } : Reading).Lost path h.disk := by
  have looked : h.disk.lstat path = .error e := by
    unfold Disk.lstat Disk.find
    rw [nowhere]
  have missing : e = .notFound := by
    rcases readable with absent | ⟨metadata, content, present, _, _⟩
    · exact Except.error.inj (looked.symm.trans absent)
    · rw [looked] at present
      cases present
  refine ⟨missing ▸ nowhere, rfl, rfl, ?_, .fresh, trivial, trivial⟩
  intro e member
  cases member

/-- Every read ends as one does: it tolerates the writes, or meets a file with other than one link. -/
theorem reading_ends {before : List Turn} (readable : h.disk.Readable path)
    (allowed : TurnsAllowed process path { host := h } before) :
    wp (kernel process path).rule (readWithRevision path) (fun read t => t.Ends path (.ok read))
      (fun reason t => t.Ends path (.error reason)) (begun process path h before) := by
  cases here : h.disk.directoryOf path with
  | error e =>
      have lost : (Reading.turns process path { host := h } before).Lost path h.disk :=
        (lost_of_readable readable here).turns before
      apply reading_lost (d := h.disk)
      · refine ⟨lost.nowhere, lost.host, lost.calm, ?_, lost.runs⟩
        intro e member
        exact (List.mem_singleton.mp member).trans lost.host
      · exact List.mem_singleton.mpr lost.host.symm
  | ok dir =>
      have attends : ({ host := h } : Reading).Attends path dir .fresh :=
        ⟨trivial, stands_of_readable readable here⟩
      obtain ⟨phase, passes⟩ := passes_turns attends allowed
      have calm : (begun process path h before).Calm path dir phase := by
        refine ⟨⟨passes.attends.runs, passes.attends.leaves⟩, passes.crowded,
          List.mem_singleton_self _, ?_⟩
        intro _ absent d first
        rw [← Option.some.inj first]
        exact lstat_of_absent passes.attends.leaves.stands absent
      exact reading_attempts readLimit calm

end Begun

end Reading

/-- A revision read tolerates the conditional writes of others to its path just when each of its
samples meets a file with one link: none falls between the linking and the unlinking of a new file,
and none is of an open file that has been replaced. -/
theorem reads_tolerate_writes_iff (process : Process) (path : Path) (h : Host) (before : List Turn)
    (result : Except RevisionError RevisionRead) (t : Reading) (readable : h.disk.Readable path)
    (allowed : Reading.TurnsAllowed process path { host := h } before)
    (run : Program.Executes (Reading.kernel process path) (readWithRevision path)
      (Reading.begun process path h before) result t) :
    t.Tolerated path result ↔ t.crowded = false := by
  have ends : t.Ends path result := by
    have holds := Program.wp_executes (Reading.reading_ends readable allowed) run
    cases result <;> exact holds
  rcases ends with ⟨calm, tolerated⟩ | ⟨crowded, refused⟩
  · exact ⟨fun _ => calm, fun _ => tolerated⟩
  · constructor
    · intro tolerated
      rw [refused] at tolerated
      rcases tolerated with unstable | ⟨missing | missing, _⟩
      · cases unstable
      · cases missing
      · cases missing
    · intro calm
      rw [crowded] at calm
      cases calm

section Sample

/-- The write's next call opens a new file, or makes a directory. -/
def Reading.creates (s : Reading) : Bool :=
  match s.writer with
  | some (.call (.createNew _ _) _) => true
  | some (.call (.openCreate _ _ _) _) => true
  | some (.call (.mkdir _) _) => true
  | _ => false

theorem allowed_quiet {s : Reading} {choice : KernelChoice} (quiet : s.creates = false) :
    s.TurnAllowed (.call choice) := by
  intro request next holder
  unfold Reading.creates at quiet
  rw [holder] at quiet
  cases request with
  | createNew temp mode => cases quiet
  | openCreate target mode truncate => cases quiet
  | mkdir target => cases quiet
  | _ => exact ⟨trivial, fun _ _ _ creates => by cases creates⟩

/-- Another worker links a new file `g` to its path, whose temporary name stays for now. -/
def linking : List Turn := .acquire [98] .missing :: List.replicate 8 (.call sampleChoice)

theorem allowed_linking :
    Reading.TurnsAllowed sampleProcess ⟨[], "g"⟩ { host := sampleHost } linking := by
  refine ⟨trivial, allowed_quiet rfl, allowed_quiet rfl, allowed_quiet rfl, ?_,
    allowed_quiet rfl, allowed_quiet rfl, allowed_quiet rfl, allowed_quiet rfl, trivial⟩
  intro request next holder
  cases holder
  refine ⟨fun dir _ => sampleDisk_free (by decide), ?_⟩
  intro temp mode dir _ _ same
  cases same

theorem readable_absent : sampleDisk.Readable ⟨[], "g"⟩ := .inl (by decide)

/-- The name is removed before the read looks at the path. -/
def released : List Interval :=
  ⟨[.call sampleChoice], sampleChoice⟩ :: List.replicate 5 ⟨[], sampleChoice⟩

theorem permits_released :
    Program.Permits (Reading.kernel sampleProcess ⟨[], "g"⟩) released (readWithRevision ⟨[], "g"⟩)
      (Reading.begun sampleProcess ⟨[], "g"⟩ sampleHost linking) := by
  refine ⟨⟨⟨allowed_quiet rfl, trivial⟩, trivial⟩, ⟨trivial, trivial⟩, ⟨trivial, trivial⟩,
    ⟨trivial, trivial⟩, ⟨trivial, trivial⟩, ⟨trivial, trivial⟩, trivial⟩

theorem reads_tolerate_writes_iff_released :
    ∃ read t, Program.Executes (Reading.kernel sampleProcess ⟨[], "g"⟩) (readWithRevision ⟨[], "g"⟩)
        (Reading.begun sampleProcess ⟨[], "g"⟩ sampleHost linking) (.ok read) t ∧
      read.bytes = [98] ∧ t.Tolerated ⟨[], "g"⟩ (.ok read) := by
  have run := Program.steps_of_advance permits_released
  have tolerated := (reads_tolerate_writes_iff sampleProcess ⟨[], "g"⟩ sampleHost linking _ _
    readable_absent allowed_linking run).mpr (by decide +kernel)
  exact ⟨_, _, run, rfl, tolerated⟩

/-- The read looks at the path before the name is removed. -/
theorem read_of_linked_refused :
    ¬ ∀ (process : Process) (path : Path) (h : Host) (before : List Turn)
      (result : Except RevisionError RevisionRead) (t : Reading), h.disk.Readable path →
      Reading.TurnsAllowed process path { host := h } before →
      Program.Executes (Reading.kernel process path) (readWithRevision path)
        (Reading.begun process path h before) result t →
      t.Tolerated path result ∧ ∀ kind, result ≠ .error (.unsupportedFinalType kind) := by
  intro tolerated
  have permitted : Program.Permits (Reading.kernel sampleProcess ⟨[], "g"⟩)
      [(⟨[], sampleChoice⟩ : Interval)] (readWithRevision ⟨[], "g"⟩)
      (Reading.begun sampleProcess ⟨[], "g"⟩ sampleHost linking) := ⟨⟨trivial, trivial⟩, trivial⟩
  have ended := tolerated _ _ _ _ _ _ readable_absent allowed_linking
    (Program.steps_of_advance permitted)
  exact ended.2 .hardlink rfl

end Sample

end EmacsRelay

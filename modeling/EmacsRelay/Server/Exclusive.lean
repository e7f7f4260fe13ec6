import EmacsRelay.Server.Course
import EmacsRelay.Server.Linear
import EmacsRelay.Server.Passage
import EmacsRelay.Server.Read

set_option autoImplicit false

/- A write that is to create its file, while other processes create, remove, move and rewrite files
at its path. -/
namespace EmacsRelay

open Trial

/-- A name in a directory, and the file it stands for. -/
structure DirEntry where
  dir : Inode
  name : String
  file : Inode
deriving DecidableEq, Repr

/-- What the file at a path contains, if it is an ordinary one. -/
def Disk.contentAt (d : Disk) (path : Path) : Option Bytes :=
  match d.lstat path with
  | .error _ => none
  | .ok metadata =>
      match metadata.node.kind with
      | .file bytes => some bytes
      | _ => none

/-- What another process may do at one go. It leaves temporary names alone, and the directory of
the path where it is. A file that has a name or is being read changes only at the path. -/
structure External (path : Path) (reading : Option Inode) (d e : Disk) : Prop where
  directory : e.directoryOf path = d.directoryOf path
  temps : ∀ dir name, TempName name → e.entry dir name = d.entry dir name
  files : ∀ file, (reading = some file ∨ ∃ dir name, d.entry dir name = some file) →
    e.kindOf file = d.kindOf file ∨ e.find path = .ok file ∧ d.Plain file ∧ e.Plain file

/-- One such thing after another. -/
def Externals (path : Path) (reading : Option Inode) : Disk → List Disk → Prop
  | _, [] => True
  | d, e :: rest => External path reading d e ∧ Externals path reading e rest

/-- A create-only write under way: the machine, the disk that its last call met, the entries it has
made, the disk that its publication met, the file it has opened and not read yet, and the disks
there have been since it last opened the published path. -/
structure Creating where
  host : Host
  met : Disk
  made : List DirEntry := []
  linking : Option Disk := none
  reading : Option Inode := none
  since : List Disk := []

/-- What others did since the call before, and what the kernel chooses. -/
structure Meddling where
  changes : List Disk
  choice : KernelChoice

namespace Creating

def start (h : Host) : Creating where
  host := h
  met := h.disk

def found (s : Creating) (input : Meddling) : Host :=
  { s.host with disk := input.changes.getLast?.getD s.host.disk }

def madeAfter (made : List DirEntry) (found : Disk) :
    (request : Call) → Answer request → List DirEntry
  | .createNew temp _, .ok file =>
      match found.directoryOf temp with
      | .ok dir => ⟨dir, temp.name, file⟩ :: made
      | .error _ => made
  | .hardLink source target, .ok _ =>
      match found.directoryOf target, found.find source with
      | .ok dir, .ok file => ⟨dir, target.name, file⟩ :: made
      | _, _ => made
  | _, _ => made

def linkingAfter (linking : Option Disk) (found : Disk) : Call → Option Disk
  | .hardLink _ _ => some found
  | _ => linking

def readingAfter (reading : Option Inode) : (request : Call) → Answer request → Option Inode
  | .openRead _, .ok file => some file
  | .read _ _ _, _ => none
  | _, _ => reading

def sinceAfter (since changes : List Disk) (found : Disk) :
    (request : Call) → Answer request → List Disk
  | .openRead _, .ok _ => [found]
  | .hardLink _ _, _ => []
  | _, _ => if since.isEmpty then [] else since ++ changes

/-- The system as the write meets it. -/
def kernel (process : Process) (path : Path) : Kernel Call Answer Creating where
  Input := Meddling
  allowed request input s :=
    Externals path s.reading s.host.disk input.changes ∧
      Host.Allows request input.choice (s.found input)
  exec request input s :=
    let found := s.found input
    let result := Host.exec process request input.choice found
    (result.1,
      { host := result.2
        met := found.disk
        made := madeAfter s.made found.disk request result.1
        linking := linkingAfter s.linking found.disk request
        reading := readingAfter s.reading request result.1
        since := sinceAfter s.since input.changes found.disk request result.1 })

/-- The disks since the path was last opened, one after another. -/
def film (s : Creating) : Film := fun instant => s.since.getD instant s.host.disk

end Creating

/-- Nothing goes or is replaced but what is `made`, and no file loses a byte. -/
structure Disk.Spares (d e : Disk) (made : List DirEntry) : Prop where
  entries : ∀ dir name file, d.entry dir name = some file → ⟨dir, name, file⟩ ∉ made →
    e.entry dir name = some file
  nodes : ∀ dir name file, d.entry dir name = some file → (∀ entry ∈ made, entry.file ≠ file) →
    e.nodes file = d.nodes file
  bytes : ∀ dir name file content, d.entry dir name = some file →
    d.kindOf file = some (.file content) → ∃ more, e.kindOf file = some (.file (content ++ more))

/-- The publication met something at the path that the write had not made. -/
def Creating.Collided (s : Creating) (path : Path) : Prop :=
  ∃ d dir file, s.linking = some d ∧ d.directoryOf path = .ok dir ∧
    d.entry dir path.name = some file ∧ ⟨dir, path.name, file⟩ ∉ s.made

/-- The last call left what it met at the path where it was, with its content. -/
def Creating.LeavesTarget (s : Creating) (path : Path) : Prop :=
  ∀ file, s.met.find path = .ok file → s.host.disk.find path = .ok file ∧
    s.host.disk.kindOf file = s.met.kindOf file

section Spares

variable {d e : Disk} {made : List DirEntry} {dir file : Inode} {name : String}

theorem spares_refl (d : Disk) (made : List DirEntry) : d.Spares d made where
  entries _ _ _ there _ := there
  nodes _ _ _ _ _ := rfl
  bytes _ _ _ content _ kind := ⟨[], by rw [List.append_nil]; exact kind⟩

theorem grows_of_kind {f : Node → Node} (kind : ∀ node, (f node).kind = node.kind) (node : Node)
    (content : Bytes) (isFile : node.kind = .file content) :
    ∃ more, (f node).kind = .file (content ++ more) :=
  ⟨[], by rw [kind, isFile, List.append_nil]⟩

/-- A file of the write's own changes, and loses nothing. -/
theorem spares_modify {f : Node → Node} {link : DirEntry} (own : link ∈ made)
    (grows : ∀ node content, node.kind = .file content →
      ∃ more, (f node).kind = .file (content ++ more)) :
    d.Spares (d.modifyNode link.file f) made where
  entries _ _ _ there _ := there
  nodes _ _ other _ foreign := by
    rw [Disk.nodes_modifyNode, if_neg (foreign link own).symm]
  bytes _ _ other content _ kind := by
    by_cases same : other = link.file
    · unfold Disk.kindOf at kind ⊢
      obtain ⟨node, there, isFile⟩ := Option.map_eq_some_iff.mp kind
      obtain ⟨more, grown⟩ := grows node content isFile
      refine ⟨more, ?_⟩
      rw [Disk.nodes_modifyNode, if_pos same, ← same, there]
      exact congrArg some grown
    · refine ⟨[], ?_⟩
      unfold Disk.kindOf at kind ⊢
      rw [Disk.nodes_modifyNode, if_neg same, List.append_nil]
      exact kind

theorem spares_staged {node : Node} (staged : Disk.Staged d e dir name file node) :
    d.Spares e made := by
  constructor
  · exact fun a n other there _ => (staged.linked there).1
  · exact fun a n other there _ => (staged.linked there).2
  · intro a n other content there kind
    refine ⟨[], ?_⟩
    unfold Disk.kindOf at kind ⊢
    rw [(staged.linked there).2, List.append_nil]
    exact kind

/-- A name is added for a file of the write's own. -/
theorem spares_put {link : DirEntry} (own : link ∈ made) (absent : d.entry dir name = none)
    {f : Node → Node} (kind : ∀ node, (f node).kind = node.kind) :
    d.Spares ((d.putEntry dir name link.file).modifyNode link.file f) made := by
  have modified : d.Spares (d.modifyNode link.file f) made := spares_modify own (grows_of_kind kind)
  refine ⟨?_, modified.nodes, modified.bytes⟩
  intro a n other there _
  rw [Disk.entry_modifyNode, Disk.entry_putEntry]
  by_cases same : a = dir ∧ n = name
  · rw [same.1, same.2, absent] at there
    cases there
  · rw [if_neg same]
    exact there

/-- A name that the write has made is removed. -/
theorem spares_remove {link : DirEntry} (own : link ∈ made)
    (there : d.entry link.dir link.name = some link.file) (now : Time) :
    d.Spares ((d.removeEntry link.dir link.name).dropLink link.file now) made := by
  have modified : d.Spares (d.dropLink link.file now) made :=
    spares_modify own (grows_of_kind fun _ => rfl)
  refine ⟨?_, modified.nodes, modified.bytes⟩
  intro a n other found foreign
  rw [Disk.entry_dropLink, Disk.entry_removeEntry]
  by_cases same : a = link.dir ∧ n = link.name
  · rw [same.1, same.2, there] at found
    have again : (⟨a, n, other⟩ : DirEntry) = link := by
      rw [same.1, same.2, ← Option.some.inj found]
    exact absurd (again ▸ own) foreign
  · rw [if_neg same]
    exact found

end Spares

section Meddling

variable {path temp : Path} {reading : Option Inode} {d e : Disk} {changes : List Disk}
  {dir file : Inode} {content : Bytes}

/-- What every one of their actions keeps, all of them keep. -/
theorem externals_keep {kept : Disk → Prop}
    (keeps : ∀ d e, External path reading d e → kept d → kept e)
    (chain : Externals path reading d changes) (start : kept d) :
    kept (changes.getLast?.getD d) := by
  induction changes generalizing d with
  | nil => exact start
  | cons next rest ih =>
      rw [List.getLast?_cons]
      exact ih chain.2 (keeps d next chain.1 start)

theorem contentAt_of_find (there : d.find path = .ok file)
    (kind : d.kindOf file = some (.file content)) : d.contentAt path = some content := by
  unfold Disk.kindOf at kind
  obtain ⟨node, found, isFile⟩ := Option.map_eq_some_iff.mp kind
  simp [Disk.contentAt, Disk.lstat, there, Disk.metadata, found, isFile]

/-- The file that is being read contains what it did, or what the path has had as its content. -/
theorem externals_show (chain : Externals path (some file) d changes) :
    (changes.getLast?.getD d).kindOf file = d.kindOf file ∨
      ∃ content, (changes.getLast?.getD d).kindOf file = some (.file content) ∧
        ∃ e ∈ changes, e.contentAt path = some content := by
  induction changes generalizing d with
  | nil => exact .inl rfl
  | cons next rest ih =>
      rw [List.getLast?_cons]
      rcases ih chain.2 with same | ⟨content, kind, e, member, shown⟩
      · rcases chain.1.files file (.inl rfl) with unchanged | ⟨there, _, plain⟩
        · exact .inl (same.trans unchanged)
        · obtain ⟨content, kind⟩ := plain
          exact .inr ⟨content, same.trans kind, next, List.mem_cons_self,
            contentAt_of_find there kind⟩
      · exact .inr ⟨content, kind, e, List.mem_cons_of_mem next member, shown⟩

theorem TempEntry.external (own : TempEntry path temp dir file d) (external : External path reading d e) :
    TempEntry path temp dir file e where
  here := external.directory.trans own.here
  beside := own.beside
  reserved := own.reserved
  there := (external.temps dir temp.name own.reserved).trans own.there
  plain := by
    rcases external.files file (.inr ⟨dir, temp.name, own.there⟩) with same | ⟨_, _, plain⟩
    · obtain ⟨content, kind⟩ := own.plain
      exact ⟨content, same.trans kind⟩
    · exact plain

end Meddling

namespace Creating

/-- The path was absent when the file was published. -/
def LinkedWhereAbsent (path : Path) (s : Creating) : Prop :=
  ∃ d, s.linking = some d ∧ d.lstat path = .error .notFound

/-- Since the path was last opened, its file has had this content. -/
def Shows (path : Path) (s : Creating) (content : Bytes) : Prop :=
  ∃ d ∈ s.since, d.contentAt path = some content

/-- The last of them is the disk as it is. -/
def UpToDate (s : Creating) : Prop := s.since.getLast? = some s.host.disk

/-- The file was sampled when it had a content that the path has shown; if it has kept that content,
this has been told of it. -/
def Gleaned (path : Path) (s : Creating) (file : Inode) (before : Metadata) (told : Bytes → Prop) :
    Prop :=
  ∃ first content, first < s.since.length ∧ (s.film first).metadata file = .ok before ∧
    before.node.kind = .file content ∧ Shows path s content ∧
    ((∀ instant, first ≤ instant → instant < s.since.length →
      s.film.content instant file = some content) → told content)

/-- The file was sampled twice, the same both times; if it has kept the content it had, which the
path has shown, this is that content. -/
def Verified (path : Path) (s : Creating) (content : Bytes) : Prop :=
  ∃ file first last before after held, first ≤ last ∧ last < s.since.length ∧
    (s.film first).metadata file = .ok before ∧ (s.film last).metadata file = .ok after ∧
    metadataEqual before after = true ∧ before.node.kind = .file held ∧ Shows path s held ∧
    ((∀ instant, first ≤ instant → instant ≤ last → s.film.content instant file = some held) →
      content = held)

/-- The phase of a write fits the machine, whatever others do. -/
def Fits (path : Path) (bytes : Bytes) : WriteCourse → Creating → Prop
  | .fresh, s => s.made = [] ∧ s.linking = none
  | .staged temp file content, s => ∃ dir, TempEntry path temp dir file s.host.disk ∧
      s.made = [⟨dir, temp.name, file⟩] ∧
      ∀ d, s.linking = some d → content = bytes ∧ TempEntry path temp dir file d
  | .spoiled _ _, _ => False
  | .linked temp file, s => LinkedWhereAbsent path s ∧ ∃ dir,
      TempEntry path temp dir file s.host.disk ∧
      s.made = [⟨dir, path.name, file⟩, ⟨dir, temp.name, file⟩]
  | .stuck _ _, _ => False
  | .closed, _ => True
  | .published, s => LinkedWhereAbsent path s
  | .opened file, s => LinkedWhereAbsent path s ∧ s.reading = some file ∧ s.UpToDate ∧
      ∀ content, s.host.disk.kindOf file = some (.file content) → Shows path s content
  | .sampled file before got, s => LinkedWhereAbsent path s ∧ s.UpToDate ∧
      Gleaned path s file before fun content => got <+: content
  | .reread file before content, s => LinkedWhereAbsent path s ∧ s.UpToDate ∧
      Gleaned path s file before fun held => content = held
  | .verified content, s => LinkedWhereAbsent path s ∧ Verified path s content

/-- The state that a call meets. -/
def waited (s : Creating) (input : Meddling) : Creating :=
  { s with
    host := s.found input
    since := if s.since.isEmpty then [] else s.since ++ input.changes }

section Waited

variable {path : Path} {bytes : Bytes} {phase : WriteCourse} {s : Creating} {input : Meddling}

theorem since_waited (some : s.since ≠ []) : (s.waited input).since = s.since ++ input.changes := by
  have kept : s.since.isEmpty = false := by simpa using some
  simp [waited, kept]

theorem UpToDate.some (current : s.UpToDate) : s.since ≠ [] := by
  intro none
  unfold UpToDate at current
  rw [none] at current
  cases current

theorem UpToDate.waited (current : s.UpToDate) : (s.waited input).UpToDate := by
  unfold UpToDate
  rw [since_waited current.some, List.getLast?_append, show s.since.getLast? = _ from current]
  cases last : input.changes.getLast? with
  | none => simp [Creating.waited, found, last]
  | some d => simp [Creating.waited, found, last]

/-- The last of the disks since the path was opened is the one that is there now. -/
theorem UpToDate.film_last (current : s.UpToDate) :
    s.since.length - 1 < s.since.length ∧ s.film (s.since.length - 1) = s.host.disk := by
  have pos := List.length_pos_of_ne_nil current.some
  unfold UpToDate at current
  rw [List.getLast?_eq_getElem?] at current
  exact ⟨by omega, by simp [film, current]⟩

theorem film_waited {instant : Nat} (before : instant < s.since.length) :
    (s.waited input).film instant = s.film instant := by
  have some : s.since ≠ [] := List.ne_nil_of_length_pos (by omega)
  unfold film
  rw [since_waited some]
  simp [List.getElem?_append_left before, List.getElem?_eq_getElem before]

theorem length_waited (some : s.since ≠ []) : s.since.length ≤ (s.waited input).since.length := by
  rw [since_waited some, List.length_append]
  omega

theorem Shows.waited {content : Bytes} (shows : Shows path s content) (some : s.since ≠ []) :
    Shows path (s.waited input) content := by
  obtain ⟨d, member, shown⟩ := shows
  refine ⟨d, ?_, shown⟩
  rw [since_waited some]
  exact List.mem_append_left _ member

theorem Gleaned.waited {file : Inode} {before : Metadata} {told : Bytes → Prop}
    (gleaned : Gleaned path s file before told) : Gleaned path (s.waited input) file before told := by
  obtain ⟨first, content, early, sampled, kind, shows, tells⟩ := gleaned
  have some : s.since ≠ [] := List.ne_nil_of_length_pos (by omega)
  have longer : s.since.length ≤ (s.waited input).since.length := length_waited some
  refine ⟨first, content, by omega, ?_, kind, shows.waited some, fun steady => tells ?_⟩
  · rw [film_waited early]
    exact sampled
  · intro instant low high
    have here := steady instant low (by omega)
    unfold Film.content at here ⊢
    rw [film_waited high] at here
    exact here

theorem Verified.waited {content : Bytes} (verified : Verified path s content) :
    Verified path (s.waited input) content := by
  obtain ⟨file, first, last, before, after, held, order, late, one, two, equal, kind, shows,
    tells⟩ := verified
  have some : s.since ≠ [] := List.ne_nil_of_length_pos (by omega)
  have longer : s.since.length ≤ (s.waited input).since.length := length_waited some
  refine ⟨file, first, last, before, after, held, order, by omega, ?_, ?_, equal, kind,
    shows.waited some, fun steady => tells ?_⟩
  · rw [film_waited (by omega)]
    exact one
  · rw [film_waited late]
    exact two
  · intro instant low high
    have here := steady instant low high
    unfold Film.content at here ⊢
    rw [film_waited (by omega)] at here
    exact here

/-- What the file that is being read contains has been shown, also when others have acted. -/
theorem shows_waited {file : Inode} (reading : s.reading = some file) (since : s.since ≠ [])
    (chain : Externals path s.reading s.host.disk input.changes)
    (shows : ∀ content, s.host.disk.kindOf file = some (.file content) → Shows path s content)
    (content : Bytes) (kind : (s.waited input).host.disk.kindOf file = some (.file content)) :
    Shows path (s.waited input) content := by
  rw [reading] at chain
  rcases externals_show chain with same | ⟨found, now, e, member, shown⟩
  · exact (shows content (same.symm.trans kind)).waited since
  · have equal : found = content := by
      have both := now.symm.trans kind
      simpa using both
    refine ⟨e, ?_, equal ▸ shown⟩
    rw [since_waited since]
    exact List.mem_append_right _ member

/-- A phase fits whatever others do before the next call. -/
theorem Fits.waited (fits : Fits path bytes phase s)
    (chain : Externals path s.reading s.host.disk input.changes) :
    Fits path bytes phase (s.waited input) := by
  have kept : ∀ {temp : Path} {dir file : Inode}, TempEntry path temp dir file s.host.disk →
      TempEntry path temp dir file (s.waited input).host.disk :=
    fun own => externals_keep (fun _ _ acted own => own.external acted) chain own
  cases phase with
  | fresh => exact fits
  | staged temp file content =>
      obtain ⟨dir, own, made, linking⟩ := fits
      exact ⟨dir, kept own, made, linking⟩
  | spoiled temp file => exact fits
  | linked temp file =>
      obtain ⟨absent, dir, own, made⟩ := fits
      exact ⟨absent, dir, kept own, made⟩
  | stuck temp file => exact fits
  | closed => trivial
  | published => exact fits
  | opened file =>
      obtain ⟨absent, reading, current, shows⟩ := fits
      exact ⟨absent, reading, current.waited, shows_waited reading current.some chain shows⟩
  | sampled file before got =>
      obtain ⟨absent, current, gleaned⟩ := fits
      exact ⟨absent, current.waited, gleaned.waited⟩
  | reread file before content =>
      obtain ⟨absent, current, gleaned⟩ := fits
      exact ⟨absent, current.waited, gleaned.waited⟩
  | verified content =>
      obtain ⟨absent, verified⟩ := fits
      exact ⟨absent, verified.waited⟩

/-- The phase heeds the disk and what has been recorded, and nothing else. -/
theorem Fits.moved {t : Creating} (fits : Fits path bytes phase s)
    (disk : t.host.disk = s.host.disk) (made : t.made = s.made) (linking : t.linking = s.linking)
    (reading : t.reading = s.reading) (since : t.since = s.since) : Fits path bytes phase t := by
  have film : t.film = s.film := by
    unfold Creating.film
    rw [since, disk]
  cases phase with
  | spoiled temp file => exact fits
  | stuck temp file => exact fits
  | closed => trivial
  | _ =>
      simpa only [Fits, LinkedWhereAbsent, Shows, UpToDate, Gleaned, Verified, film, disk, made,
        linking, reading, since] using fits

end Waited

/-- What the last call did to the disk that it met. -/
def Clean (path : Path) (s : Creating) : Prop :=
  s.met.Spares s.host.disk s.made ∧ (s.Collided path → s.LeavesTarget path)

section Calls

variable {process : Process} {path : Path} {bytes : Bytes} {phase : WriteCourse} {s : Creating}
  {input : Meddling} {request : Call}

theorem clean_of_same (same : s.host.disk = s.met) : Clean path s := by
  constructor
  · rw [same]
    exact spares_refl s.met s.made
  · intro _ file there
    rw [same]
    exact ⟨there, rfl⟩

theorem not_collided (absent : LinkedWhereAbsent path s) : ¬ s.Collided path := by
  intro collided
  obtain ⟨d, linking, lost⟩ := absent
  obtain ⟨met, dir, file, again, here, there, _⟩ := collided
  rw [linking] at again
  rw [← Option.some.inj again] at here there
  unfold Disk.lstat Disk.find at lost
  rw [here] at lost
  dsimp only at lost
  rw [there] at lost
  dsimp only [Disk.metadata] at lost
  cases node : d.nodes file with
  | none => rw [node] at lost; cases lost
  | some value => rw [node] at lost; cases lost

/-- The state and the phase after a call fit, and the call spared what it had to. -/
def Advances (process : Process) (path : Path) (bytes : Bytes) (phase : WriteCourse) (s : Creating)
    (request : Call) (input : Meddling) : Prop :=
  let result := (kernel process path).exec request input s
  Fits path bytes (phase.advance request result.1) result.2 ∧ Clean path result.2

/-- A call that looks, and that the phase does not heed. -/
theorem advances_quiet (fits : Fits path bytes phase (s.waited input))
    (stays : ∀ answer, phase.advance request answer = phase)
    (disk : ((kernel process path).exec request input s).2.host.disk = (s.found input).disk)
    (made : ((kernel process path).exec request input s).2.made = s.made)
    (linking : ((kernel process path).exec request input s).2.linking = s.linking)
    (reading : ((kernel process path).exec request input s).2.reading = s.reading)
    (since : ((kernel process path).exec request input s).2.since = (s.waited input).since) :
    Advances process path bytes phase s request input := by
  unfold Advances
  dsimp only
  rw [stays]
  exact ⟨fits.moved disk made linking reading since, clean_of_same disk⟩

theorem contentAt_of_openRead {d : Disk} {file : Inode} (opened : d.openRead path = .ok file)
    {content : Bytes} (kind : d.kindOf file = some (.file content)) :
    d.contentAt path = some content := by
  have there : d.find path = .ok file := by
    unfold Disk.openRead at opened
    cases there : d.find path with
    | error e => rw [there] at opened; cases opened
    | ok inode =>
        rw [there] at opened
        dsimp only at opened
        split at opened
        · cases opened
        · exact opened
  exact contentAt_of_find there kind

/-- When the path is opened once the file has been published, its content is on record. -/
theorem advances_openRead (fits : Fits path bytes phase (s.waited input)) :
    Advances process path bytes phase s (.openRead path) input := by
  have found : (s.waited input).host = s.found input := rfl
  cases opened : (s.found input).disk.openRead path with
  | error e =>
      have stays : phase.advance (.openRead path) (.error e) = phase := by cases phase <;> rfl
      unfold Advances
      simp only [kernel, Host.exec, opened, stays]
      exact ⟨fits.moved rfl rfl rfl rfl rfl, clean_of_same rfl⟩
  | ok file =>
      unfold Advances
      simp only [kernel, Host.exec, opened]
      refine ⟨?_, clean_of_same rfl⟩
      have shown : ∀ content, (s.found input).disk.kindOf file = some (.file content) →
          ∃ d ∈ [(s.found input).disk], d.contentAt path = some content :=
        fun content kind => ⟨_, List.mem_singleton_self _, contentAt_of_openRead opened kind⟩
      cases phase with
      | published => exact ⟨fits, rfl, rfl, shown⟩
      | opened other => exact ⟨fits.1, rfl, rfl, shown⟩
      | sampled other before got => exact ⟨fits.1, rfl, rfl, shown⟩
      | reread other before content => exact ⟨fits.1, rfl, rfl, shown⟩
      | verified content => exact ⟨fits.1, rfl, rfl, shown⟩
      | _ => exact fits

/-- The file that is open is sampled, for the first or the second time. -/
theorem advances_fstat (file : Inode) (fits : Fits path bytes phase (s.waited input)) :
    Advances process path bytes phase s (.fstat file) input := by
  unfold Advances
  simp only [kernel, Host.exec]
  refine ⟨?_, clean_of_same rfl⟩
  cases phase with
  | opened opened =>
      cases sampled : (s.found input).disk.metadata file with
      | error e => exact fits.moved rfl rfl rfl rfl rfl
      | ok before =>
          by_cases regular : file = opened ∧ finalType before = none
          · have next : WriteCourse.advance (.opened opened) (.fstat file) (.ok before) =
                .sampled opened before [] := if_pos regular
            rw [next]
            obtain ⟨absent, reading, current, shows⟩ := fits
            obtain ⟨last, now⟩ := current.film_last
            obtain ⟨⟨content, kind⟩, _⟩ := finalType_none.mp regular.2
            have here : ((s.waited input).film ((s.waited input).since.length - 1)).metadata opened =
                .ok before := by
              rw [now, ← regular.1]
              exact sampled
            have there : (s.waited input).host.disk.kindOf opened = some (.file content) := by
              rw [← now]
              exact kindOf_of_content (content_of_metadata here kind).2
            exact ⟨absent, current, _, content, last, here, kind, shows content there,
              fun _ => List.nil_prefix⟩
          · have next : WriteCourse.advance (.opened opened) (.fstat file) (.ok before) =
                .opened opened := if_neg regular
            rw [next]
            exact fits.moved rfl rfl rfl rfl rfl
  | reread opened before content =>
      cases sampled : (s.found input).disk.metadata file with
      | error e => exact fits.moved rfl rfl rfl rfl rfl
      | ok after =>
          by_cases same : file = opened ∧ metadataEqual before after = true
          · have next : WriteCourse.advance (.reread opened before content) (.fstat file)
                (.ok after) = .verified content := if_pos same
            rw [next]
            obtain ⟨absent, current, first, held, early, one, kind, shows, tells⟩ := fits
            obtain ⟨last, now⟩ := current.film_last
            have two : ((s.waited input).film ((s.waited input).since.length - 1)).metadata opened =
                .ok after := by
              rw [now, ← same.1]
              exact sampled
            refine ⟨absent, opened, first, _, before, after, held, by omega, last, one, two, same.2,
              kind, shows, fun steady => tells fun instant low high => ?_⟩
            exact steady instant low (by omega)
          · have next : WriteCourse.advance (.reread opened before content) (.fstat file)
                (.ok after) = .reread opened before content := if_neg same
            rw [next]
            exact fits.moved rfl rfl rfl rfl rfl
  | _ => exact fits.moved rfl rfl rfl rfl rfl

/-- What a read returns goes on from what was read before, if the file has kept its content. -/
theorem advances_read {file : Inode} {offset length : Nat}
    (fits : Fits path bytes phase (s.waited input))
    (legal : WriteCourse.Legal path bytes .missing phase (.read file offset length)) :
    Advances process path bytes phase s (.read file offset length) input := by
  unfold Advances
  simp only [kernel, Host.exec]
  refine ⟨?_, clean_of_same rfl⟩
  cases phase with
  | opened opened => exact legal.elim
  | sampled opened before got =>
      obtain ⟨same, behind, some⟩ := legal
      obtain ⟨absent, current, first, held, early, one, kind, shows, tells⟩ := fits
      obtain ⟨last, now⟩ := current.film_last
      -- a file that has kept its content is read where the reads before have left off
      have answered : (∀ instant, first ≤ instant → instant < (s.waited input).since.length →
          (s.waited input).film.content instant opened = Option.some held) →
          (s.found input).disk.readAt input.choice file offset length =
            .ok ((held.drop got.length).take (min length (max 1 input.choice.count))) := by
        intro steady
        have content := steady _ (by omega) last
        have here := kindOf_of_content content
        rw [now] at here
        rw [same, behind]
        simp [Disk.readAt, show (s.found input).disk.kindOf opened = _ from here]
      cases read : (s.found input).disk.readAt input.choice file offset length with
      | error e => exact ⟨absent, current, first, held, early, one, kind, shows, tells⟩
      | ok chunk =>
          rw [read] at answered
          by_cases ended : chunk = []
          · have next : WriteCourse.advance (.sampled opened before got) (.read file offset length)
                (.ok chunk) = .reread opened before got := if_pos ended
            rw [next]
            refine ⟨absent, current, first, held, early, one, kind, shows, fun steady => ?_⟩
            have nothing := Except.ok.inj (answered steady)
            have short := congrArg List.length (nothing.symm.trans ended)
            simp only [List.length_take, List.length_drop, List.length_nil] at short
            exact (tells steady).eq_of_length_le (by omega)
          · have next : WriteCourse.advance (.sampled opened before got) (.read file offset length)
                (.ok chunk) = .sampled opened before (got ++ chunk) := if_neg ended
            rw [next]
            refine ⟨absent, current, first, held, early, one, kind, shows, fun steady => ?_⟩
            have more : chunk <+: held.drop got.length := by
              rw [Except.ok.inj (answered steady)]
              exact List.take_prefix _ _
            exact append_isPrefix (tells steady) more
  | _ => exact fits

theorem advances_createNew {temp : Path} {mode : Nat}
    (fits : Fits path bytes .fresh (s.waited input)) (beside : temp.parent = path.parent)
    (reserved : TempName temp.name)
    (allowed : Host.Allows (.createNew temp mode) input.choice (s.found input)) :
    Advances process path bytes .fresh s (.createNew temp mode) input := by
  obtain ⟨made, linking⟩ := fits
  have nothing : s.made = [] := made
  have unpublished : s.linking = none := linking
  unfold Advances
  simp only [kernel, Host.exec]
  cases created : (s.found input).disk.createNew input.choice process temp mode with
  | error e => exact ⟨⟨made, linking⟩, clean_of_same rfl⟩
  | ok pair =>
      obtain ⟨file, disk⟩ := pair
      obtain ⟨dir, pending⟩ := tempFile_of_createNew beside created allowed
      obtain ⟨node, staged, kind, _⟩ := pending.staged
      have plain : disk.Plain file := ⟨[], staged.kindOf kind⟩
      have tempDir : (s.found input).disk.directoryOf temp = .ok dir := by
        have here := pending.here
        unfold Disk.directoryOf at here ⊢
        rw [beside]
        exact here
      have own : TempEntry path temp dir file disk :=
        ⟨staged.directoryOf pending.here, beside, reserved,
          by rw [staged.entry, if_pos ⟨rfl, rfl⟩], plain⟩
      simp only [Host.opening, madeAfter, tempDir, nothing]
      constructor
      · refine ⟨dir, own, rfl, ?_⟩
        intro d published
        rw [show s.linking = some d from published] at unpublished
        cases unpublished
      · refine ⟨spares_staged staged, ?_⟩
        intro collided
        obtain ⟨d, _, _, published, _⟩ := collided
        rw [show s.linking = some d from published] at unpublished
        cases unpublished

/-- A call on the temporary file that leaves every file what it was. -/
theorem leaves_of_modify {d : Disk} {file : Inode} {f : Node → Node}
    (kind : ∀ node, (f node).kind = node.kind) {met : Inode} (there : d.find path = .ok met) :
    (d.modifyNode file f).find path = .ok met ∧
      (d.modifyNode file f).kindOf met = d.kindOf met := by
  exact ⟨(Disk.samePassages_modify kind).find (fun _ => rfl) there, Disk.kindOf_modifyNode kind met⟩

/-- The attributes of the temporary file are set. -/
theorem advances_modify {temp : Path} {file : Inode} {content : Bytes} {f : Node → Node}
    (fits : Fits path bytes (.staged temp file content) (s.waited input))
    (disk : ((kernel process path).exec request input s).2.host.disk =
      (s.found input).disk.modifyNode file f)
    (kind : ∀ node, (f node).kind = node.kind)
    (stays : ∀ answer, WriteCourse.advance (.staged temp file content) request answer =
      .staged temp file content)
    (made : ((kernel process path).exec request input s).2.made = s.made)
    (linking : ((kernel process path).exec request input s).2.linking = s.linking) :
    Advances process path bytes (.staged temp file content) s request input := by
  obtain ⟨dir, own, only, published⟩ := fits
  have mine : (⟨dir, temp.name, file⟩ : DirEntry) ∈ s.made := by
    rw [show s.made = [⟨dir, temp.name, file⟩] from only]
    exact List.mem_cons_self
  unfold Advances
  dsimp only
  rw [stays]
  constructor
  · refine ⟨dir, ?_, made.trans only, ?_⟩
    · rw [disk]
      exact own.modified kind
    · intro d linked
      rw [linking] at linked
      exact published d linked
  · constructor
    · rw [made, disk]
      exact spares_modify mine (grows_of_kind kind)
    · intro _ met there
      rw [disk]
      exact leaves_of_modify kind there

theorem spares_writeAll {d : Disk} {file : Inode} {link : DirEntry} {made : List DirEntry}
    (own : link ∈ made) (same : link.file = file) (choice : KernelChoice) (more : Bytes) :
    d.Spares (d.writeAll choice file more) made := by
  unfold Disk.writeAll
  by_cases empty : more = []
  · rw [if_pos empty]
    exact spares_refl d made
  · rw [if_neg empty, ← same]
    apply spares_modify own
    intro node content kind
    simp only [kind]
    exact ⟨more, rfl⟩

/-- The bytes go into the temporary file, which is empty until then. -/
theorem advances_writeAll {temp : Path} {file target : Inode} {content more : Bytes}
    (fits : Fits path bytes (.staged temp file content) (s.waited input))
    (legal : target = file ∧ content = [] ∧ more = bytes) :
    Advances process path bytes (.staged temp file content) s (.writeAll target more) input := by
  obtain ⟨dir, own, only, published⟩ := fits
  obtain ⟨mine, empty, all⟩ := legal
  have own : TempEntry path temp dir file (s.found input).disk := own
  have only : s.made = [⟨dir, temp.name, file⟩] := only
  have member : (⟨dir, temp.name, file⟩ : DirEntry) ∈ s.made := by
    rw [only]
    exact List.mem_cons_self
  have still : (s.found input).disk.writeAll input.choice file more = (s.found input).disk ∨
      s.linking = none := by
    cases linked : s.linking with
    | none => exact .inr rfl
    | some d =>
        have nothing : more = [] := by
          rw [all, ← (published d linked).1, empty]
        exact .inl (if_pos nothing)
  unfold Advances
  simp only [kernel, Host.exec, mine, WriteCourse.advance]
  constructor
  · refine ⟨dir, ?_, only, fun d linked => ⟨all, (published d linked).2⟩⟩
    apply own.passages (Disk.samePassages_writeAll input.choice file more)
    · exact (Disk.entry_writeAll input.choice file more dir temp.name).trans own.there
    · exact (Disk.reshapes_writeAll input.choice more file).plain own.plain
  · refine ⟨spares_writeAll member rfl input.choice more, ?_⟩
    intro collided
    rcases still with same | unpublished
    · exact (clean_of_same same).2 collided
    · obtain ⟨d, _, _, linked, _⟩ := collided
      rw [show s.linking = some d from linked] at unpublished
      cases unpublished

theorem advances_hardLink {temp : Path} {file : Inode} {content : Bytes}
    (fits : Fits path bytes (.staged temp file content) (s.waited input))
    (whole : content = bytes) :
    Advances process path bytes (.staged temp file content) s (.hardLink temp path) input := by
  obtain ⟨dir, own, only, published⟩ := fits
  have own : TempEntry path temp dir file (s.found input).disk := own
  have only : s.made = [⟨dir, temp.name, file⟩] := only
  unfold Advances
  simp only [kernel, Host.exec]
  rcases own.hardLink input.choice with ⟨e, refused⟩ | ⟨absent, linked⟩
  · simp only [refused, Host.change]
    refine ⟨⟨dir, own, only, ?_⟩, clean_of_same rfl⟩
    intro d met
    rw [← Option.some.inj met]
    exact ⟨whole, own⟩
  · have lost : (s.found input).disk.lstat path = .error .notFound := by
      simp only [Disk.lstat, Disk.find, own.here, absent]
    have differs : temp.name ≠ path.name := by
      intro same
      have there := own.there
      rw [same, absent] at there
      cases there
    simp only [linked, Host.change, madeAfter, own.here, own.find]
    have kind : ∀ node : Node,
        ({ node with nlink := node.nlink + 1, ctime := input.choice.now } : Node).kind = node.kind :=
      fun _ => rfl
    have linkedWhereAbsent : ∀ t : Creating, t.linking = some (s.found input).disk →
        LinkedWhereAbsent path t := fun t met => ⟨_, met, lost⟩
    constructor
    · refine ⟨linkedWhereAbsent _ rfl, dir, ?_, by rw [only]⟩
      apply own.passages (Disk.samePassages_put absent own.plain kind)
      · rw [Disk.entry_modifyNode, Disk.entry_putEntry, if_neg fun same => differs same.2]
        exact own.there
      · obtain ⟨inside, isFile⟩ := own.plain
        exact ⟨inside, (Disk.kindOf_modifyNode kind file).trans isFile⟩
    · constructor
      · have member : (⟨dir, temp.name, file⟩ : DirEntry) ∈
            (⟨dir, path.name, file⟩ :: s.made : List DirEntry) := by
          rw [only]
          exact List.mem_cons_of_mem _ List.mem_cons_self
        exact spares_put member absent kind
      · exact fun collided => absurd collided (not_collided (linkedWhereAbsent _ rfl))

/-- What is at the path stays there when another name is removed. -/
theorem leaves_of_remove {d : Disk} {temp : Path} {dir file met : Inode}
    (own : TempEntry path temp dir file d) (differs : path.name ≠ temp.name) (now : Time)
    (there : d.find path = .ok met) :
    ((d.removeEntry dir temp.name).dropLink file now).find path = .ok met ∧
      ((d.removeEntry dir temp.name).dropLink file now).kindOf met = d.kindOf met := by
  have same := Disk.samePassages_remove own.there own.plain now
  refine ⟨same.find ?_ there, Disk.kindOf_dropLink now met⟩
  intro a
  rw [Disk.entry_dropLink, Disk.entry_removeEntry, if_neg fun same => differs same.2]

/-- A temporary file that has not been published is removed. -/
theorem advances_unlink_staged {temp : Path} {file : Inode} {content : Bytes}
    (fits : Fits path bytes (.staged temp file content) (s.waited input)) :
    Advances process path bytes (.staged temp file content) s (.unlink temp) input := by
  obtain ⟨dir, own, only, published⟩ := fits
  have own : TempEntry path temp dir file (s.found input).disk := own
  have only : s.made = [⟨dir, temp.name, file⟩] := only
  have member : (⟨dir, temp.name, file⟩ : DirEntry) ∈ s.made := by
    rw [only]
    exact List.mem_cons_self
  unfold Advances
  simp only [kernel, Host.exec, own.unlink input.choice, Host.change]
  refine ⟨trivial, spares_remove member own.there input.choice.now, ?_⟩
  intro collided met there
  obtain ⟨d, dir', other, linked, here, entry, foreign⟩ := collided
  have before := (published d linked).2
  have sameDir : dir' = dir := by
    have both := here.symm.trans before.here
    exact Except.ok.inj both
  have differs : path.name ≠ temp.name := by
    intro same
    rw [sameDir, same, before.there] at entry
    apply foreign
    show (⟨dir', path.name, other⟩ : DirEntry) ∈ s.made
    rw [only, sameDir, same, ← Option.some.inj entry]
    exact List.mem_cons_self
  exact leaves_of_remove own differs input.choice.now there

/-- The temporary name of a published file is removed. -/
theorem advances_unlink_linked {temp : Path} {file : Inode}
    (fits : Fits path bytes (.linked temp file) (s.waited input)) :
    Advances process path bytes (.linked temp file) s (.unlink temp) input := by
  obtain ⟨absent, dir, own, both⟩ := fits
  have own : TempEntry path temp dir file (s.found input).disk := own
  have both : s.made = [⟨dir, path.name, file⟩, ⟨dir, temp.name, file⟩] := both
  have member : (⟨dir, temp.name, file⟩ : DirEntry) ∈ s.made := by
    rw [both]
    exact List.mem_cons_of_mem _ List.mem_cons_self
  unfold Advances
  simp only [kernel, Host.exec, own.unlink input.choice, Host.change]
  refine ⟨absent, spares_remove member own.there input.choice.now, ?_⟩
  exact fun collided => absurd collided (not_collided absent)

/-- Whatever others do before it, a call of the write fits its phase and spares what is not its own. -/
theorem advances (fits : Fits path bytes phase s)
    (legal : WriteCourse.Legal path bytes .missing phase request)
    (allowed : (kernel process path).allowed request input s) :
    Advances process path bytes phase s request input := by
  have fits := fits.waited allowed.1
  cases request with
  | lstat target =>
      apply advances_quiet fits _ rfl rfl rfl rfl rfl
      intro answer
      cases phase <;> rfl
  | openRead target =>
      have same : target = path := by cases phase <;> exact legal
      rw [same]
      exact advances_openRead fits
  | fstat file => exact advances_fstat file fits
  | readFile file =>
      apply advances_quiet fits _ rfl rfl rfl rfl rfl
      intro answer
      cases phase <;> rfl
  | read file offset length => exact advances_read fits legal
  | syncAll file =>
      apply advances_quiet fits _ rfl rfl rfl rfl rfl
      intro answer
      cases phase <;> rfl
  | fetchAdd =>
      apply advances_quiet fits _ rfl rfl rfl rfl rfl
      intro answer
      cases phase <;> rfl
  | createNew temp mode =>
      cases phase with
      | fresh => exact advances_createNew fits legal.1 legal.2 allowed.2
      | _ => exact legal.elim
  | fchown target uid gid =>
      cases phase with
      | staged temp file content =>
          have mine : target = file := legal
          rw [mine]
          exact advances_modify fits rfl (fun _ => rfl) (fun _ => rfl) rfl rfl
      | _ => exact legal.elim
  | fchmod target mode =>
      cases phase with
      | staged temp file content =>
          have mine : target = file := legal
          rw [mine]
          exact advances_modify fits rfl (fun _ => rfl) (fun _ => rfl) rfl rfl
      | _ => exact legal.elim
  | writeAll target more =>
      cases phase with
      | staged temp file content => exact advances_writeAll fits ⟨legal.1, legal.2.1, legal.2.2.1⟩
      | _ => exact legal.elim
  | rename source target =>
      cases phase with
      | staged temp file content => exact absurd rfl legal.2.2.2.2
      | _ => exact legal.elim
  | hardLink source target =>
      cases phase with
      | staged temp file content =>
          obtain ⟨sources, targets, whole, _⟩ := legal
          rw [sources, targets]
          exact advances_hardLink fits whole
      | _ => exact legal.elim
  | unlink target =>
      cases phase with
      | staged temp file content =>
          have mine : target = temp := legal
          rw [mine]
          exact advances_unlink_staged fits
      | linked temp file =>
          have mine : target = temp := legal
          rw [mine]
          exact advances_unlink_linked fits
      | spoiled temp file => exact fits.elim
      | stuck temp file => exact fits.elim
      | _ => exact legal.elim
  | _ => cases phase <;> exact legal.elim

end Calls

theorem tracks (process : Process) (path : Path) (bytes : Bytes) :
    Program.Tracks (WriteCourse.protocol path bytes .missing) (kernel process path)
      (Fits path bytes) :=
  fun _ _ _ _ fits legal allowed => (advances fits legal allowed).1

theorem fits_start (path : Path) (bytes : Bytes) (h : Host) : Fits path bytes .fresh (start h) :=
  ⟨rfl, rfl⟩

/-- Every call of a create-only write has been clean. -/
theorem clean_of_steps {process : Process} {path : Path} {bytes : Bytes} {h : Host}
    {rest : Program Call Answer (Except RevisionError Revision)} {s : Creating}
    (steps : Program.Steps (kernel process path)
      (conditionalWriteLocked process path bytes .missing) (start h) rest s) : Clean path s := by
  cases steps with
  | refl => exact clean_of_same rfl
  | call input before allowed =>
      obtain ⟨phase, fits, follows⟩ := Program.steps_tracks (tracks process path bytes)
        (fits_start path bytes h) (course_conditionalWriteLocked process) before
      exact (advances fits follows.1 allowed).2

end Creating

/-- Equal samples of a file whose changes tell: what was read in between was at the path. -/
theorem Creating.Verified.shows {path : Path} {t : Creating} {content : Bytes}
    (verified : Creating.Verified path t content) (telling : t.film.Telling) :
    Creating.Shows path t content := by
  obtain ⟨file, first, last, before, after, held, _, _, one, two, equal, kind, shows, tells⟩ :=
    verified
  have start := (content_of_metadata one kind).2
  have same : content = held := by
    apply tells
    intro instant low high
    rw [telling.steady one two equal instant low high, start]
  rw [same]
  exact shows

/-- Whatever others create, remove, move or rewrite at the path between its calls, a create-only
write spares what is not its own, fails when something is at the path where it publishes, and
succeeds only with a file that it put where there was none and, if changes of a file's content tell,
that it read back. -/
theorem creation_never_clobbers (process : Process) (path : Path) (bytes : Bytes) (h : Host) :
    (∀ rest s, Program.Steps (Creating.kernel process path)
        (conditionalWriteLocked process path bytes .missing) (Creating.start h) rest s →
      s.met.Spares s.host.disk s.made ∧ (s.Collided path → s.LeavesTarget path)) ∧
    ∀ result t, Program.Executes (Creating.kernel process path)
        (conditionalWriteLocked process path bytes .missing) (Creating.start h) result t →
      (t.Collided path → ∃ reason, result = .error reason) ∧
      ∀ revision, result = .ok revision →
        Creating.LinkedWhereAbsent path t ∧ (t.film.Telling → Creating.Shows path t bytes) := by
  constructor
  · intro rest s steps
    exact Creating.clean_of_steps steps
  · intro result t run
    have ended := Program.wp_executes (Program.wp_tracks (Creating.tracks process path bytes)
      (Creating.fits_start path bytes h) (course_conditionalWriteLocked process)) run
    obtain ⟨phase, fits, covered⟩ := ended
    cases result with
    | error reason => exact ⟨fun _ => ⟨reason, rfl⟩, fun _ same => by cases same⟩
    | ok revision =>
        have last : phase = .verified bytes := covered
        rw [last] at fits
        obtain ⟨absent, verified⟩ := fits
        exact ⟨fun collided => absurd collided (Creating.not_collided absent),
          fun _ _ => ⟨absent, verified.shows⟩⟩

/-- Another process creates a file at the path. -/
theorem external_create {path : Path} {reading : Option Inode} {d e : Disk} {dir file : Inode}
    {node : Node} (staged : Disk.Staged d e dir path.name file node)
    (here : d.directoryOf path = .ok dir) (ordinary : ¬ TempName path.name)
    (idle : reading ≠ some file) : External path reading d e where
  directory := by rw [here, staged.directoryOf here]
  temps a name reserved := by
    rw [staged.entry, if_neg]
    intro same
    exact ordinary (same.2 ▸ reserved)
  files other known := by
    have differs : other ≠ file := by
      intro same
      rcases known with reading | ⟨a, name, there⟩
      · exact idle (same ▸ reading)
      · exact staged.free.2 a name (same ▸ there)
    left
    rw [Disk.kindOf, Disk.kindOf, staged.others other differs]

/-- The file at a path is rewritten in place. -/
def Disk.overwritten (d : Disk) (file : Inode) (content : Bytes) : Disk :=
  d.modifyNode file fun node => { node with kind := .file content }

theorem kindOf_overwritten {d : Disk} {file : Inode} (plain : d.Plain file) (content : Bytes) :
    (d.overwritten file content).kindOf file = some (.file content) := by
  obtain ⟨held, kind⟩ := plain
  obtain ⟨node, there, _⟩ := Option.map_eq_some_iff.mp kind
  simp [Disk.overwritten, Disk.kindOf, Disk.nodes_modifyNode, there]

theorem kindOf_overwritten_other {d : Disk} {file other : Inode} (differs : other ≠ file)
    (content : Bytes) : (d.overwritten file content).kindOf other = d.kindOf other := by
  simp [Disk.overwritten, Disk.kindOf, Disk.nodes_modifyNode, differs]

/-- Another process rewrites the file at the path. -/
theorem external_overwrite {path : Path} {d : Disk} {file : Inode} (there : d.find path = .ok file)
    (plain : d.Plain file) (reading : Option Inode) (content : Bytes) :
    External path reading d (d.overwritten file content) := by
  have rewritten := kindOf_overwritten plain content
  have same : d.SamePassages (d.overwritten file content) := by
    apply Disk.samePassages_of_reshapes
    · rfl
    · exact fun _ _ => rfl
    intro other
    by_cases mine : other = file
    · rw [mine]
      exact ⟨fun _ => ⟨content, rewritten⟩, fun other => absurd plain other⟩
    · exact .of_kindOf (kindOf_overwritten_other mine content)
  obtain ⟨dir, here, _⟩ := Disk.find_ok.mp there
  constructor
  · rw [here, same.directoryOf here]
  · exact fun _ _ _ => rfl
  · intro other _
    by_cases mine : other = file
    · rw [mine]
      exact .inr ⟨same.find (fun _ => rfl) there, plain, content, rewritten⟩
    · exact .inl (kindOf_overwritten_other mine content)

section Sample

def undisturbed : Meddling := ⟨[], sampleChoice⟩

/-- The write has flushed its temporary file and compared again. -/
def compared : Creating :=
  (Program.advance (Creating.kernel sampleProcess ⟨[], "g"⟩) (List.replicate 7 undisturbed) creating
    (.start sampleHost)).2

/-- Then another process creates the file. -/
def occupied : Disk := compared.host.disk.create ⟨1, 2⟩ "g" ⟨1, 50⟩ sampleNode

def appeared : List Meddling :=
  List.replicate 7 undisturbed ++ ⟨[occupied], sampleChoice⟩ :: List.replicate 8 undisturbed

theorem external_occupied : External ⟨[], "g"⟩ none compared.host.disk occupied := by
  have entries : ∀ a n, compared.host.disk.entry a n =
      if a = ⟨1, 2⟩ ∧ n = (tempPath sampleProcess ⟨[], "g"⟩ 0).name then some ⟨1, 11⟩
      else sampleDisk.entry a n :=
    fun a n => Disk.entry_putEntry (sampleDisk.setNode ⟨1, 11⟩ _) ⟨1, 2⟩ _ ⟨1, 11⟩ a n
  have free : compared.host.disk.Free ⟨1, 50⟩ := by
    refine ⟨by decide +kernel, fun a n there => ?_⟩
    rw [entries] at there
    split at there
    · cases there
    · exact (sampleDisk_free (by decide)).2 a n there
  have ordinary : ¬ TempName "g" := by
    intro reserved
    obtain ⟨rest, same⟩ := reserved
    have long := congrArg String.length same
    rw [String.length_append] at long
    have short : "g".length = 1 := by decide
    have more : ".relay-tmp-".length = 11 := by decide
    omega
  have absent : compared.host.disk.entry ⟨1, 2⟩ "g" = none := by decide +kernel
  exact external_create (Disk.Staged.create absent free sampleNode) rfl ordinary (by simp)

theorem permits_appeared : Program.Permits (Creating.kernel sampleProcess ⟨[], "g"⟩) appeared creating
    (.start sampleHost) := by
  refine ⟨⟨trivial, trivial⟩, ⟨trivial, trivial⟩, ⟨trivial, trivial⟩, ⟨trivial, ?_⟩,
    ⟨trivial, trivial⟩, ⟨trivial, trivial⟩, ⟨trivial, trivial⟩, ⟨⟨external_occupied, trivial⟩, trivial⟩,
    ⟨trivial, trivial⟩, ⟨trivial, trivial⟩, ⟨trivial, trivial⟩, ⟨trivial, trivial⟩,
    ⟨trivial, trivial⟩, ⟨trivial, trivial⟩, ⟨trivial, trivial⟩, ⟨trivial, trivial⟩, trivial⟩
  intro dir _
  exact sampleDisk_free (by decide)

def createdAlone : List Meddling := List.replicate 15 undisturbed

theorem permits_alone : Program.Permits (Creating.kernel sampleProcess ⟨[], "g"⟩) createdAlone creating
    (.start sampleHost) := by
  refine ⟨⟨trivial, trivial⟩, ⟨trivial, trivial⟩, ⟨trivial, trivial⟩, ⟨trivial, ?_⟩,
    ⟨trivial, trivial⟩, ⟨trivial, trivial⟩, ⟨trivial, trivial⟩, ⟨trivial, trivial⟩,
    ⟨trivial, trivial⟩, ⟨trivial, trivial⟩, ⟨trivial, trivial⟩, ⟨trivial, trivial⟩,
    ⟨trivial, trivial⟩, ⟨trivial, trivial⟩, ⟨trivial, trivial⟩, trivial⟩
  intro dir _
  exact sampleDisk_free (by decide)

/-- A file that appears just before the publication stays, and the write is refused. Left alone, the
write shows its bytes at the path. -/
theorem creation_never_clobbers_appeared :
    (∃ reason t, Program.Executes (Creating.kernel sampleProcess ⟨[], "g"⟩) creating
        (.start sampleHost) (.error reason) t ∧
      t.Collided ⟨[], "g"⟩ ∧ t.LeavesTarget ⟨[], "g"⟩) ∧
    ∃ revision t, Program.Executes (Creating.kernel sampleProcess ⟨[], "g"⟩) creating
        (.start sampleHost) (.ok revision) t ∧ Creating.Shows ⟨[], "g"⟩ t [98] := by
  have steps := Program.steps_of_advance permits_appeared
  have collided : (Program.advance (Creating.kernel sampleProcess ⟨[], "g"⟩) appeared creating
      (.start sampleHost)).2.Collided ⟨[], "g"⟩ :=
    ⟨occupied, ⟨1, 2⟩, ⟨1, 50⟩, rfl, rfl, by decide +kernel, by decide +kernel⟩
  have created := Program.steps_of_advance permits_alone
  refine ⟨⟨_, _, steps, collided,
    ((creation_never_clobbers sampleProcess ⟨[], "g"⟩ [98] sampleHost).1 _ _ steps).2 collided⟩,
    _, _, created, ?_⟩
  apply ((creation_never_clobbers sampleProcess ⟨[], "g"⟩ [98] sampleHost).2 _ _ created).2 _ rfl |>.2
  intro file change differs
  cases change with
  | zero => exact absurd rfl differs
  | succ change => exact absurd rfl differs

/-- A file of two bytes is created. -/
def creatingTwo : Io Revision := conditionalWriteLocked sampleProcess ⟨[], "g"⟩ [97, 98] .missing

/-- The file has been published and is about to be opened. -/
def publishedTwo : Disk :=
  (Program.advance (Creating.kernel sampleProcess ⟨[], "g"⟩) (List.replicate 10 undisturbed)
    creatingTwo (.start sampleHost)).2.host.disk

/-- Another process rewrites it before it is opened, and again while it is read byte by byte. -/
def tornMeddling : List Meddling :=
  let first := publishedTwo.overwritten ⟨1, 11⟩ [97, 120]
  let second := first.overwritten ⟨1, 11⟩ [121, 98]
  let byteChoice : KernelChoice := { sampleChoice with count := 1 }
  List.replicate 10 undisturbed ++
    [⟨[first], byteChoice⟩, ⟨[], byteChoice⟩, ⟨[], byteChoice⟩, ⟨[second], byteChoice⟩,
      ⟨[], byteChoice⟩, ⟨[], byteChoice⟩]

theorem permits_torn : Program.Permits (Creating.kernel sampleProcess ⟨[], "g"⟩) tornMeddling
    creatingTwo (.start sampleHost) := by
  have plain : publishedTwo.Plain ⟨1, 11⟩ := ⟨[97, 98], by decide +kernel⟩
  have there : publishedTwo.find ⟨[], "g"⟩ = .ok ⟨1, 11⟩ := by decide +kernel
  have before := external_overwrite there plain none [97, 120]
  have still : (publishedTwo.overwritten ⟨1, 11⟩ [97, 120]).find ⟨[], "g"⟩ = .ok ⟨1, 11⟩ := by
    decide +kernel
  have within := external_overwrite still ⟨_, kindOf_overwritten plain _⟩ none [121, 98]
  refine ⟨⟨trivial, trivial⟩, ⟨trivial, trivial⟩, ⟨trivial, trivial⟩, ⟨trivial, ?_⟩,
    ⟨trivial, trivial⟩, ⟨trivial, trivial⟩, ⟨trivial, trivial⟩, ⟨trivial, trivial⟩,
    ⟨trivial, trivial⟩, ⟨trivial, trivial⟩, ⟨⟨before, trivial⟩, trivial⟩, ⟨trivial, trivial⟩,
    ⟨trivial, trivial⟩, ⟨⟨within, trivial⟩, trivial⟩, ⟨trivial, trivial⟩, ⟨trivial, trivial⟩,
    trivial⟩
  intro dir _
  exact sampleDisk_free (by decide)

/-- A write is acknowledged though the path has never held its bytes since it was opened: rewritten
in place with the same size and times, the file is read back in two parts that do not belong
together. -/
theorem torn_creation_acknowledged :
    ¬ ∀ process path bytes h revision t, Program.Executes (Creating.kernel process path)
        (conditionalWriteLocked process path bytes .missing) (Creating.start h) (.ok revision) t →
      Creating.Shows path t bytes := by
  intro shown
  have run := Program.steps_of_advance permits_torn
  obtain ⟨d, member, held⟩ := shown sampleProcess ⟨[], "g"⟩ [97, 98] sampleHost _ _ run
  have since : (Program.advance (Creating.kernel sampleProcess ⟨[], "g"⟩) tornMeddling creatingTwo
      (.start sampleHost)).2.since =
      [publishedTwo.overwritten ⟨1, 11⟩ [97, 120],
        (publishedTwo.overwritten ⟨1, 11⟩ [97, 120]).overwritten ⟨1, 11⟩ [121, 98]] := rfl
  rw [since] at member
  rcases List.mem_cons.mp member with first | second
  · rw [first] at held
    exact absurd held (by decide +kernel)
  · rw [List.mem_singleton.mp second] at held
    exact absurd held (by decide +kernel)

end Sample

end EmacsRelay

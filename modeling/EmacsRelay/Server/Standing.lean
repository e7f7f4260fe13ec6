import EmacsRelay.Server.Course

set_option autoImplicit false

/- What conditional writes, one after the other, leave at their path while they are under way, as
those see it who look without the mutation lock. -/
namespace EmacsRelay

open Trial

/-- A file that `read_with_revision` takes, but for its links. -/
def Disk.Text (d : Disk) (file : Inode) : Prop :=
  ∃ content, d.kindOf file = some (.file content) ∧ Writable content

/-- In the directory of the path, its name stands for such a file or for nothing. -/
structure Stands (path : Path) (dir : Inode) (d : Disk) : Prop where
  here : d.directoryOf path = .ok dir
  text : ∀ file, d.entry dir path.name = some file → d.Text file

/-- A temporary file under its only name. -/
structure Staging (path temp : Path) (dir file : Inode) (content : Bytes) (d : Disk) : Prop where
  stands : Stands path dir d
  own : TempEntry path temp dir file d
  node : ∃ node, d.nodes file = some node ∧ node.kind = .file content ∧ node.nlink = 1
  writable : Writable content
  apart : temp.name ≠ path.name → d.entry dir path.name ≠ some file

/-- A new file under both of its names. -/
structure Linking (path temp : Path) (dir file : Inode) (d : Disk) : Prop where
  stands : Stands path dir d
  own : TempEntry path temp dir file d
  other : temp.name ≠ path.name
  placed : d.entry dir path.name = some file
  node : ∃ node, d.nodes file = some node ∧ node.nlink = 2

/-- What a write in this phase leaves. -/
def WriteCourse.Leaves (path : Path) (dir : Inode) : WriteCourse → Disk → Prop
  | .staged temp file content, d => Staging path temp dir file content d
  | .spoiled _ _, _ => False
  | .linked temp file, d => Linking path temp dir file d
  | .stuck _ _, _ => False
  | _, d => Stands path dir d

/-- Phases in which a write may end: it has no temporary file, or not any more. -/
def WriteCourse.Rests : WriteCourse → Prop
  | .staged _ _ _ => False
  | .spoiled _ _ => False
  | .linked _ _ => False
  | .stuck _ _ => False
  | _ => True

/-- The file at the path has one link, unless it is being published. -/
def WriteCourse.Sole (path : Path) (dir : Inode) (phase : WriteCourse) (d : Disk) : Prop :=
  ∀ file node, d.entry dir path.name = some file → d.nodes file = some node →
    node.nlink = 1 ∨ ∃ temp, phase = .linked temp file

/-- A file that was opened at the path is still there, or it has no links any more. -/
def Disk.Holds (d : Disk) (path : Path) (dir file : Inode) (content : Bytes) : Prop :=
  ∃ node, d.nodes file = some node ∧ node.kind = .file content ∧ Writable content ∧
    (d.entry dir path.name = some file ∨ node.nlink = 0)

/-- What one call of a write means for those who look: `opened` is the file they have open. -/
structure Continued (path : Path) (dir : Inode) (opened : Option Inode) (phase : WriteCourse)
    (d : Disk) (after : WriteCourse) (e : Disk) : Prop where
  leaves : after.Leaves path dir e
  sole : phase.Sole path dir d → after.Sole path dir e
  holds : ∀ file content, opened = some file → phase.Sole path dir d →
    d.Holds path dir file content →
    ∃ more, e.Holds path dir file more ∧ (more = content ∨ content = [])
  present : ¬ TempName path.name → d.entry dir path.name ≠ none → e.entry dir path.name ≠ none

section Phases

variable {path : Path} {dir : Inode} {d : Disk} {phase : WriteCourse}

theorem WriteCourse.Leaves.stands (leaves : phase.Leaves path dir d) : Stands path dir d := by
  cases phase with
  | staged temp file content => exact Staging.stands leaves
  | spoiled temp file => exact leaves.elim
  | linked temp file => exact Linking.stands leaves
  | stuck temp file => exact leaves.elim
  | _ => exact leaves

theorem leaves_of_visible (visible : phase.Visible) (stands : Stands path dir d) :
    phase.Leaves path dir d := by
  cases phase with
  | published => exact stands
  | opened file => exact stands
  | sampled file before got => exact stands
  | reread file before content => exact stands
  | verified content => exact stands
  | _ => exact visible.elim

theorem rests_of_visible (visible : phase.Visible) : phase.Rests := by
  cases phase <;> trivial

theorem course_rests {bytes : Bytes} {expected : ExpectedRevision} (process : Process) :
    Program.wp (WriteCourse.protocol path bytes expected).rule
      (conditionalWriteLocked process path bytes expected) (fun _ after => after.Rests) .fresh := by
  apply Program.wp_mono (course_conditionalWriteLocked process)
  intro result after ended
  cases result with
  | ok revision =>
      have last : after = .verified bytes := ended
      rw [last]
      trivial
  | error reason =>
      rcases ended with fresh | closed | visible
      · rw [fresh]
        trivial
      · rw [closed]
        trivial
      · exact rests_of_visible visible

/-- Looking at the published file leaves it in its place. -/
theorem visible_advance {request : Call} (visible : phase.Visible)
    (harmless : request.Harmless path) (answer : Answer request) :
    (phase.advance request answer).Visible := by
  cases request with
  | lstat target => cases phase <;> exact visible
  | openRead target =>
      cases answer with
      | ok file => cases phase <;> trivial
      | error e => cases phase <;> exact visible
  | fstat target =>
      cases answer with
      | error e => cases phase <;> exact visible
      | ok metadata =>
          cases phase with
          | opened file =>
              show (if target = file ∧ finalType metadata = none then
                WriteCourse.sampled file metadata [] else .opened file).Visible
              split <;> trivial
          | reread file before content =>
              show (if target = file ∧ metadataEqual before metadata = true then
                WriteCourse.verified content else .reread file before content).Visible
              split <;> trivial
          | _ => exact visible
  | readFile target => cases phase <;> exact visible
  | read target offset length =>
      cases answer with
      | error e => cases phase <;> exact visible
      | ok chunk =>
          cases phase with
          | sampled file before got =>
              show (if chunk = [] then WriteCourse.reread file before got
                else .sampled file before (got ++ chunk)).Visible
              split <;> trivial
          | _ => exact visible
  | syncAll file => cases phase <;> exact visible
  | _ => exact harmless.elim

variable {opened : Option Inode} {after : WriteCourse}

/-- A call that leaves the disk as it is. -/
theorem continued_of_same (leaves : after.Leaves path dir d)
    (linked : ∀ temp file, phase = .linked temp file → after = phase) :
    Continued path dir opened phase d after d where
  leaves := leaves
  sole := by
    intro sole file node there known
    rcases sole file node there known with single | ⟨temp, publishing⟩
    · exact .inl single
    · exact .inr ⟨temp, (linked temp file publishing).trans publishing⟩
  holds := fun _ content _ _ holds => ⟨content, holds, .inl rfl⟩
  present := fun _ there => there

theorem continued_harmless {process : Process} {h : Host} (request : Call)
    (leaves : phase.Leaves path dir h.disk) (harmless : request.Harmless path)
    (choice : KernelChoice) (answer : Answer request) :
    Continued path dir opened phase h.disk (phase.advance request answer)
      (Host.exec process request choice h).2.disk := by
  rw [host_of_harmless harmless]
  by_cases visible : phase.Visible
  · apply continued_of_same
    · exact leaves_of_visible (visible_advance visible harmless answer) leaves.stands
    · intro temp file linked
      rw [linked] at visible
      exact visible.elim
  · have quiet : Indifferent (WriteCourse.protocol path [] .missing) path phase :=
      WriteCourse.indifferent visible
    have stays : phase.advance request answer = phase := (quiet request harmless).2 answer
    rw [stays]
    exact continued_of_same leaves fun _ _ _ => rfl

end Phases

section Changes

variable {path temp : Path} {dir file : Inode} {content bytes : Bytes} {d e : Disk}
  {opened : Option Inode} {choice : KernelChoice}

theorem writable_nil : Writable [] := ⟨by decide, by decide⟩

theorem text_of_nodes (text : d.Text file) (same : e.nodes file = d.nodes file) : e.Text file := by
  obtain ⟨content, kind, writable⟩ := text
  refine ⟨content, ?_, writable⟩
  unfold Disk.kindOf at kind ⊢
  rw [same]
  exact kind

/-- A new file under a name that was free, be it the path's own. -/
theorem continued_create {node : Node} (stands : Stands path dir d)
    (staged : Disk.Staged d e dir temp.name file node) (beside : temp.parent = path.parent)
    (reserved : TempName temp.name) (kind : node.kind = .file []) (single : node.nlink = 1)
    (unused : opened ≠ some file) :
    Continued path dir opened .fresh d (.staged temp file []) e := by
  have named : e.entry dir temp.name = some file := by rw [staged.entry, if_pos ⟨rfl, rfl⟩]
  have plain : e.Plain file := ⟨[], staged.kindOf kind⟩
  have here : e.directoryOf path = .ok dir := staged.directoryOf stands.here
  have known : ∀ other, e.entry dir path.name = some other →
      other = file ∨ d.entry dir path.name = some other ∧ e.nodes other = d.nodes other := by
    intro other there
    rw [staged.entry] at there
    split at there
    · exact .inl (Option.some.inj there).symm
    · exact .inr ⟨there, (staged.linked there).2⟩
  constructor
  · refine ⟨⟨here, ?_⟩, ⟨here, beside, reserved, named, plain⟩, ⟨node, staged.node, kind, single⟩,
      writable_nil, ?_⟩
    · intro other there
      rcases known other there with new | ⟨before, same⟩
      · rw [new]
        exact ⟨[], staged.kindOf kind, writable_nil⟩
      · exact text_of_nodes (stands.text other before) same
    · intro differs there
      rw [staged.entry, if_neg fun same => differs same.2.symm] at there
      exact staged.free.2 dir path.name there
  · intro sole other found there is
    left
    rcases known other there with new | ⟨before, same⟩
    · rw [new, staged.node] at is
      rw [← Option.some.inj is]
      exact single
    · rcases sole other found before (same ▸ is) with one | ⟨_, linked⟩
      · exact one
      · cases linked
  · intro other content isOpen _ holds
    obtain ⟨found, is, isFile, writable, place⟩ := holds
    have differs : other ≠ file := fun same => unused (same ▸ isOpen)
    refine ⟨content, ⟨found, ?_, isFile, writable, ?_⟩, .inl rfl⟩
    · rw [staged.others other differs]
      exact is
    · rcases place with there | gone
      · exact .inl (staged.linked there).1
      · exact .inr gone
  · intro _ there
    obtain ⟨other, entry⟩ := Option.ne_none_iff_exists'.mp there
    rw [(staged.linked entry).1]
    simp

/-- The temporary file gets other attributes, or its content. -/
theorem continued_refill {more : Bytes} (staging : Staging path temp dir file content d)
    (passages : d.SamePassages e) (entry : ∀ a n, e.entry a n = d.entry a n)
    (others : ∀ i, i ≠ file → e.nodes i = d.nodes i)
    (node : ∃ node, e.nodes file = some node ∧ node.kind = .file more ∧ node.nlink = 1)
    (writable : Writable more) (grown : more = content ∨ content = []) :
    Continued path dir opened (.staged temp file content) d (.staged temp file more) e := by
  obtain ⟨filled, is, isFile, single⟩ := node
  have kind : e.kindOf file = some (.file more) := by simp [Disk.kindOf, is, isFile]
  constructor
  · refine ⟨⟨passages.directoryOf staging.stands.here, ?_⟩, ?_, ⟨filled, is, isFile, single⟩, writable,
      ?_⟩
    · intro other there
      rw [entry] at there
      by_cases mine : other = file
      · rw [mine]
        exact ⟨more, kind, writable⟩
      · exact text_of_nodes (staging.stands.text other there) (others other mine)
    · exact staging.own.passages passages ((entry dir temp.name).trans staging.own.there) ⟨more, kind⟩
    · rw [entry]
      exact staging.apart
  · intro sole other found there known
    rw [entry] at there
    left
    by_cases mine : other = file
    · rw [mine, is] at known
      rw [← Option.some.inj known]
      exact single
    · rw [others other mine] at known
      rcases sole other found there known with one | ⟨_, linked⟩
      · exact one
      · cases linked
  · intro other inside _ _ holds
    obtain ⟨found, known, old, readable, place⟩ := holds
    by_cases mine : other = file
    · obtain ⟨before, was, wasFile, one⟩ := staging.node
      rw [mine, was] at known
      have same : before = found := Option.some.inj known
      have inside_eq : inside = content := by
        rw [← same, wasFile] at old
        exact (FileKind.file.inj old).symm
      refine ⟨more, ⟨filled, mine ▸ is, isFile, writable, ?_⟩, inside_eq ▸ grown⟩
      rcases place with there | gone
      · exact .inl ((entry dir path.name).trans there)
      · rw [← same, one] at gone
        cases gone
    · refine ⟨inside, ⟨found, (others other mine).trans known, old, readable, ?_⟩, .inl rfl⟩
      rw [entry]
      exact place
  · intro _ there
    rw [entry]
    exact there

/-- The temporary file is moved to the path. The file that it replaces loses its only link. -/
theorem continued_move (staging : Staging path temp dir file content d)
    (absent : d.entry dir path.name ≠ some file) :
    Continued path dir opened (.staged temp file content) d .published
      (d.moveEntry choice dir temp.name dir path.name file) := by
  obtain ⟨node, is, isFile, single⟩ := staging.node
  have plains : ∀ old, d.entry dir path.name = some old → d.Plain old := by
    intro old there
    obtain ⟨inside, kind, _⟩ := staging.stands.text old there
    exact ⟨inside, kind⟩
  have passages := Disk.samePassages_move choice staging.own.there staging.own.plain plains
  have placed : (d.moveEntry choice dir temp.name dir path.name file).entry dir path.name =
      some file := by rw [Disk.entry_moveEntry, if_pos ⟨rfl, rfl⟩]
  have moved : (d.moveEntry choice dir temp.name dir path.name file).nodes file =
      some { node with ctime := choice.now } := by
    rw [Disk.nodes_moveEntry_moved choice absent, is]
    rfl
  have only : ∀ other, (d.moveEntry choice dir temp.name dir path.name file).entry dir path.name =
      some other → other = file := by
    intro other there
    rw [placed] at there
    exact (Option.some.inj there).symm
  constructor
  · refine ⟨passages.directoryOf staging.stands.here, ?_⟩
    intro other there
    rw [only other there]
    refine ⟨content, ?_, staging.writable⟩
    simp [Disk.kindOf, moved, isFile]
  · intro _ other found there known
    left
    rw [only other there, moved] at known
    rw [← Option.some.inj known]
    exact single
  · intro other inside _ sole holds
    obtain ⟨found, known, old, readable, place⟩ := holds
    by_cases there : d.entry dir path.name = some other
    · have differs : other ≠ file := fun same => absent (same ▸ there)
      have one : found.nlink = 1 := by
        rcases sole other found there known with one | ⟨_, linked⟩
        · exact one
        · cases linked
      refine ⟨inside, ⟨{ found with nlink := found.nlink - 1, ctime := choice.now }, ?_, old, readable,
        .inr (by simp [one])⟩, .inl rfl⟩
      rw [Disk.nodes_moveEntry_replaced choice there differs, known]
      rfl
    · have gone : found.nlink = 0 := place.resolve_left there
      have differs : other ≠ file := by
        intro same
        rw [same, is] at known
        rw [← Option.some.inj known, single] at gone
        cases gone
      refine ⟨inside, ⟨found, ?_, old, readable, .inr gone⟩, .inl rfl⟩
      rw [Disk.nodes_moveEntry_other choice differs there]
      exact known
  · intro _ _
    rw [placed]
    simp

/-- The temporary file is linked to the path, where there is nothing. -/
theorem continued_link (staging : Staging path temp dir file content d)
    (absent : d.entry dir path.name = none) :
    Continued path dir opened (.staged temp file content) d (.linked temp file)
      ((d.putEntry dir path.name file).modifyNode file fun node =>
        { node with nlink := node.nlink + 1, ctime := choice.now }) := by
  obtain ⟨node, is, isFile, single⟩ := staging.node
  have differs : temp.name ≠ path.name := by
    intro same
    have there := staging.own.there
    rw [same, absent] at there
    cases there
  have kind : ∀ node : Node,
      ({ node with nlink := node.nlink + 1, ctime := choice.now } : Node).kind = node.kind :=
    fun _ => rfl
  have passages := Disk.samePassages_put absent staging.own.plain kind
  have entries : ∀ a n, ((d.putEntry dir path.name file).modifyNode file fun node =>
      { node with nlink := node.nlink + 1, ctime := choice.now }).entry a n =
      if a = dir ∧ n = path.name then some file else d.entry a n := by
    intro a n
    rw [Disk.entry_modifyNode, Disk.entry_putEntry]
  have linked : ((d.putEntry dir path.name file).modifyNode file fun node =>
      { node with nlink := node.nlink + 1, ctime := choice.now }).nodes file =
      some { node with nlink := node.nlink + 1, ctime := choice.now } := by
    rw [Disk.nodes_modifyNode, if_pos rfl, Disk.nodes_putEntry, is]
    rfl
  have only : ∀ other, ((d.putEntry dir path.name file).modifyNode file fun node =>
      { node with nlink := node.nlink + 1, ctime := choice.now }).entry dir path.name = some other →
      other = file := by
    intro other there
    rw [entries, if_pos ⟨rfl, rfl⟩] at there
    exact (Option.some.inj there).symm
  constructor
  · refine ⟨⟨passages.directoryOf staging.stands.here, ?_⟩, ?_, differs, ?_, _, linked, by simp [single]⟩
    · intro other there
      rw [only other there]
      refine ⟨content, ?_, staging.writable⟩
      simp [Disk.kindOf, linked, isFile]
    · apply staging.own.passages passages
      · rw [entries, if_neg fun same => differs same.2]
        exact staging.own.there
      · refine ⟨content, ?_⟩
        simp [Disk.kindOf, linked, isFile]
    · rw [entries, if_pos ⟨rfl, rfl⟩]
  · intro _ other found there _
    right
    rw [only other there]
    exact ⟨temp, rfl⟩
  · intro other inside _ _ holds
    obtain ⟨found, known, old, readable, place⟩ := holds
    have gone : found.nlink = 0 := by
      apply place.resolve_left
      rw [absent]
      simp
    have foreign : other ≠ file := by
      intro same
      rw [same, is] at known
      rw [← Option.some.inj known, single] at gone
      cases gone
    refine ⟨inside, ⟨found, ?_, old, readable, .inr gone⟩, .inl rfl⟩
    rw [Disk.nodes_modifyNode, if_neg foreign, Disk.nodes_putEntry]
    exact known
  · intro _ there
    exact absurd absent there

theorem nodes_removed {i : Inode} (differs : i ≠ file) (now : Time) :
    ((d.removeEntry dir temp.name).dropLink file now).nodes i = d.nodes i := by
  rw [Disk.dropLink, Disk.nodes_modifyNode, if_neg differs, Disk.nodes_removeEntry]

theorem nodes_removed_self {node : Node} (is : d.nodes file = some node) (now : Time) :
    ((d.removeEntry dir temp.name).dropLink file now).nodes file =
      some { node with nlink := node.nlink - 1, ctime := now } := by
  rw [Disk.dropLink, Disk.nodes_modifyNode, if_pos rfl, Disk.nodes_removeEntry, is]
  rfl

theorem entry_removed (now : Time) (a : Inode) (n : String) :
    ((d.removeEntry dir temp.name).dropLink file now).entry a n =
      if a = dir ∧ n = temp.name then none else d.entry a n := by
  rw [Disk.entry_dropLink, Disk.entry_removeEntry]

/-- What the path has when a name of a file goes in its directory. -/
theorem stands_removed (stands : Stands path dir d) (own : TempEntry path temp dir file d)
    (now : Time) : Stands path dir ((d.removeEntry dir temp.name).dropLink file now) := by
  have passages := Disk.samePassages_remove own.there own.plain now
  refine ⟨passages.directoryOf stands.here, ?_⟩
  intro other there
  rw [entry_removed] at there
  split at there
  · cases there
  · obtain ⟨content, kind, writable⟩ := stands.text other there
    exact ⟨content, (Disk.kindOf_dropLink now other).trans kind, writable⟩

/-- The temporary file is removed, which at the path itself takes its only link. -/
theorem continued_remove (staging : Staging path temp dir file content d) (now : Time) :
    Continued path dir opened (.staged temp file content) d .closed
      ((d.removeEntry dir temp.name).dropLink file now) := by
  obtain ⟨node, is, isFile, single⟩ := staging.node
  constructor
  · exact stands_removed staging.stands staging.own now
  · intro sole other found there known
    left
    rw [entry_removed] at there
    split at there
    · cases there
    · rename_i kept
      have foreign : other ≠ file := by
        intro same
        rw [same] at there
        exact staging.apart (fun names => kept ⟨rfl, names.symm⟩) there
      rw [nodes_removed foreign] at known
      rcases sole other found there known with one | ⟨_, linked⟩
      · exact one
      · cases linked
  · intro other inside _ _ holds
    obtain ⟨found, known, old, readable, place⟩ := holds
    by_cases mine : other = file
    · rw [mine, is] at known
      have same : node = found := Option.some.inj known
      refine ⟨inside, ⟨{ node with nlink := node.nlink - 1, ctime := now }, ?_, ?_, readable,
        .inr (by simp [single])⟩, .inl rfl⟩
      · rw [mine]
        exact nodes_removed_self is now
      · rw [← same] at old
        exact old
    · refine ⟨inside, ⟨found, (nodes_removed mine now).trans known, old, readable, ?_⟩, .inl rfl⟩
      rcases place with there | gone
      · left
        rw [entry_removed, if_neg]
        · exact there
        · intro same
          rw [same.2, staging.own.there] at there
          exact mine (Option.some.inj there).symm
      · exact .inr gone
  · intro ordinary there
    rw [entry_removed, if_neg]
    · exact there
    · intro same
      exact ordinary (same.2 ▸ staging.own.reserved)

/-- The temporary name of the published file is removed. -/
theorem continued_release (linking : Linking path temp dir file d) (now : Time) :
    Continued path dir opened (.linked temp file) d .published
      ((d.removeEntry dir temp.name).dropLink file now) := by
  obtain ⟨node, is, double⟩ := linking.node
  have placed : ((d.removeEntry dir temp.name).dropLink file now).entry dir path.name =
      some file := by
    rw [entry_removed, if_neg fun same => linking.other same.2.symm]
    exact linking.placed
  constructor
  · exact stands_removed linking.stands linking.own now
  · intro _ other found there known
    left
    rw [placed] at there
    rw [← Option.some.inj there, nodes_removed_self is] at known
    rw [← Option.some.inj known]
    simp [double]
  · intro other inside _ _ holds
    obtain ⟨found, known, old, readable, place⟩ := holds
    by_cases mine : other = file
    · rw [mine, is] at known
      have same : node = found := Option.some.inj known
      refine ⟨inside, ⟨{ node with nlink := node.nlink - 1, ctime := now }, ?_, ?_, readable,
        .inl (mine ▸ placed)⟩, .inl rfl⟩
      · rw [mine]
        exact nodes_removed_self is now
      · rw [← same] at old
        exact old
    · refine ⟨inside, ⟨found, (nodes_removed mine now).trans known, old, readable, ?_⟩, .inl rfl⟩
      rcases place with there | gone
      · rw [linking.placed] at there
        exact absurd (Option.some.inj there).symm mine
      · exact .inr gone
  · intro _ _
    rw [placed]
    simp

/-- A rename of the temporary file fails, moves it, or finds it at the path already. -/
theorem rename_cases (staging : Staging path temp dir file content d) (choice : KernelChoice) :
    (∃ e, d.rename choice temp path = .error e) ∨ d.rename choice temp path = .ok d ∨
      d.entry dir path.name ≠ some file ∧
        d.rename choice temp path = .ok (d.moveEntry choice dir temp.name dir path.name file) := by
  unfold Disk.rename
  rw [staging.own.tempDir, staging.own.find, staging.stands.here]
  dsimp only
  by_cases device : file.dev ≠ dir.dev
  · exact .inl ⟨_, if_pos device⟩
  · rw [if_neg device, staging.own.notDirectory]
    simp only [Bool.false_eq_true, false_and, if_false, not_false_eq_true, true_and]
    cases there : d.entry dir path.name with
    | none => exact .inr (.inr ⟨by simp, rfl⟩)
    | some old =>
        obtain ⟨inside, kind, _⟩ := staging.stands.text old there
        simp only [Disk.isDirectory_file kind, Bool.false_eq_true, if_false]
        by_cases same : old = file
        · exact .inr (.inl (if_pos same))
        · exact .inr (.inr ⟨fun again => same (Option.some.inj again), if_neg same⟩)

theorem inode_of_createNew {process : Process} {mode : Nat} (here : d.directoryOf temp = .ok dir)
    (created : d.createNew choice process temp mode = .ok (file, e)) :
    file = ⟨dir.dev, choice.fresh⟩ := by
  unfold Disk.createNew at created
  rw [here] at created
  dsimp only at created
  split at created
  · cases created
  · cases created
    rfl

end Changes

section Step

variable {path : Path} {dir : Inode} {bytes : Bytes} {expected : ExpectedRevision}
  {opened : Option Inode} {process : Process} {h : Host} {phase : WriteCourse} {choice : KernelChoice}

/-- What a call of a write means for those who look. -/
def WriteCourse.Proceeds (path : Path) (dir : Inode) (opened : Option Inode) (process : Process)
    (h : Host) (phase : WriteCourse) (request : Call) (choice : KernelChoice) : Prop :=
  Continued path dir opened phase h.disk
    (phase.advance request (Host.exec process request choice h).1)
    (Host.exec process request choice h).2.disk

theorem proceeds_create {temp : Path} {mode : Nat} (stands : Stands path dir h.disk)
    (beside : temp.parent = path.parent) (reserved : TempName temp.name)
    (allowed : Host.Allows (.createNew temp mode) choice h)
    (unused : opened ≠ some ⟨dir.dev, choice.fresh⟩) :
    WriteCourse.fresh.Proceeds path dir opened process h (.createNew temp mode) choice := by
  unfold WriteCourse.Proceeds
  simp only [Host.exec]
  have there : h.disk.directoryOf temp = .ok dir := by
    have here := stands.here
    unfold Disk.directoryOf at here ⊢
    rw [beside]
    exact here
  cases created : h.disk.createNew choice process temp mode with
  | error e => exact continued_of_same stands fun _ _ never => by cases never
  | ok made =>
      obtain ⟨file, e⟩ := made
      obtain ⟨other, pending⟩ := tempFile_of_createNew (rfl : temp.parent = temp.parent) created allowed
      obtain ⟨node, staged, kind, single⟩ := pending.staged
      have same : other = dir := by
        have here := pending.here
        rw [there] at here
        exact (Except.ok.inj here).symm
      rw [same] at staged
      have number := inode_of_createNew there created
      exact continued_create stands staged beside reserved kind single (number ▸ unused)

theorem proceeds_modify {temp : Path} {file : Inode} {content : Bytes} {request : Call}
    {f : Node → Node} (staging : Staging path temp dir file content h.disk)
    (disk : (Host.exec process request choice h).2.disk = h.disk.modifyNode file f)
    (stays : ∀ answer, WriteCourse.advance (.staged temp file content) request answer =
      .staged temp file content)
    (kind : ∀ node, (f node).kind = node.kind) (links : ∀ node, (f node).nlink = node.nlink) :
    WriteCourse.Proceeds path dir opened process h (.staged temp file content) request choice := by
  obtain ⟨node, is, isFile, single⟩ := staging.node
  unfold WriteCourse.Proceeds
  rw [stays, disk]
  apply continued_refill staging (Disk.samePassages_modify kind) (fun _ _ => rfl)
  · intro i differs
    rw [Disk.nodes_modifyNode, if_neg differs]
  · refine ⟨f node, ?_, (kind node).trans isFile, (links node).trans single⟩
    rw [Disk.nodes_modifyNode, if_pos rfl, is]
    rfl
  · exact staging.writable
  · exact .inl rfl

theorem proceeds_writeAll {temp : Path} {file : Inode}
    (staging : Staging path temp dir file [] h.disk) (writable : Writable bytes) :
    WriteCourse.Proceeds path dir opened process h (.staged temp file []) (.writeAll file bytes)
      choice := by
  obtain ⟨node, is, isFile, single⟩ := staging.node
  have filled : ∃ node, (h.disk.writeAll choice file bytes).nodes file = some node ∧
      node.kind = .file bytes ∧ node.nlink = 1 := by
    unfold Disk.writeAll
    by_cases empty : bytes = []
    · rw [if_pos empty, empty]
      exact ⟨node, is, isFile, single⟩
    · rw [if_neg empty, Disk.nodes_modifyNode, if_pos rfl, is, Option.map_some, isFile]
      exact ⟨_, rfl, rfl, single⟩
  apply continued_refill staging (Disk.samePassages_writeAll choice file bytes)
    (Disk.entry_writeAll choice file bytes) _ filled writable (.inr rfl)
  intro i differs
  show (h.disk.writeAll choice file bytes).nodes i = _
  unfold Disk.writeAll
  split
  · rfl
  · rw [Disk.nodes_modifyNode, if_neg differs]

theorem proceeds_rename {temp : Path} {file : Inode} {content : Bytes}
    (staging : Staging path temp dir file content h.disk) :
    WriteCourse.Proceeds path dir opened process h (.staged temp file content) (.rename temp path)
      choice := by
  unfold WriteCourse.Proceeds
  simp only [Host.exec]
  rcases rename_cases staging choice with ⟨e, refused⟩ | same | ⟨absent, moved⟩
  · rw [refused]
    exact continued_of_same staging fun _ _ never => by cases never
  · rw [same]
    exact continued_of_same staging.stands fun _ _ never => by cases never
  · rw [moved]
    exact continued_move staging absent

theorem proceeds_hardLink {temp : Path} {file : Inode} {content : Bytes}
    (staging : Staging path temp dir file content h.disk) :
    WriteCourse.Proceeds path dir opened process h (.staged temp file content) (.hardLink temp path)
      choice := by
  unfold WriteCourse.Proceeds
  simp only [Host.exec]
  rcases staging.own.hardLink choice with ⟨e, refused⟩ | ⟨absent, linked⟩
  · rw [refused]
    exact continued_of_same staging fun _ _ never => by cases never
  · rw [linked]
    exact continued_link staging absent

theorem proceeds_unlink {temp : Path} (leaves : phase.Leaves path dir h.disk)
    (legal : WriteCourse.Legal path bytes expected phase (.unlink temp)) :
    phase.Proceeds path dir opened process h (.unlink temp) choice := by
  unfold WriteCourse.Proceeds
  simp only [Host.exec]
  cases phase with
  | staged own file content =>
      have staging : Staging path own dir file content h.disk := leaves
      rw [show temp = own from legal, staging.own.unlink choice]
      exact continued_remove staging choice.now
  | linked own file =>
      have linking : Linking path own dir file h.disk := leaves
      rw [show temp = own from legal, linking.own.unlink choice]
      exact continued_release linking choice.now
  | spoiled own file => exact leaves.elim
  | stuck own file => exact leaves.elim
  | _ => exact legal.elim

/-- Whatever a write asks for, it goes on with what it leaves to the others. -/
theorem proceeds {request : Call} (leaves : phase.Leaves path dir h.disk)
    (legal : WriteCourse.Legal path bytes expected phase request)
    (allowed : Host.Allows request choice h)
    (unused : ∀ temp mode, request = .createNew temp mode → opened ≠ some ⟨dir.dev, choice.fresh⟩) :
    phase.Proceeds path dir opened process h request choice := by
  cases request with
  | lstat target => exact continued_harmless (.lstat target) leaves (by cases phase <;> exact legal) choice _
  | openRead target => exact continued_harmless (.openRead target) leaves (by cases phase <;> exact legal) choice _
  | fstat file => exact continued_harmless (.fstat file) leaves trivial choice _
  | readFile file => exact continued_harmless (.readFile file) leaves trivial choice _
  | read file offset length => exact continued_harmless (.read file offset length) leaves trivial choice _
  | syncAll file => exact continued_harmless (.syncAll file) leaves trivial choice _
  | fetchAdd =>
      have stays : ∀ answer, phase.advance .fetchAdd answer = phase := by
        intro answer
        cases phase <;> rfl
      unfold WriteCourse.Proceeds
      rw [stays]
      exact continued_of_same leaves fun _ _ _ => rfl
  | createNew temp mode =>
      cases phase with
      | fresh => exact proceeds_create leaves legal.1 legal.2 allowed (unused temp mode rfl)
      | _ => exact legal.elim
  | fchown target uid gid =>
      cases phase with
      | staged temp file content =>
          rw [show target = file from legal]
          exact proceeds_modify leaves rfl (fun _ => rfl) (fun _ => rfl) fun _ => rfl
      | _ => exact legal.elim
  | fchmod target mode =>
      cases phase with
      | staged temp file content =>
          rw [show target = file from legal]
          exact proceeds_modify leaves rfl (fun _ => rfl) (fun _ => rfl) fun _ => rfl
      | _ => exact legal.elim
  | writeAll target more =>
      cases phase with
      | staged temp file content =>
          obtain ⟨mine, empty, whole, writable⟩ := legal
          rw [empty] at leaves
          rw [mine, empty, whole]
          exact proceeds_writeAll leaves writable
      | _ => exact legal.elim
  | rename source target =>
      cases phase with
      | staged temp file content =>
          rw [legal.1, legal.2.1]
          exact proceeds_rename leaves
      | _ => exact legal.elim
  | hardLink source target =>
      cases phase with
      | staged temp file content =>
          rw [legal.1, legal.2.1]
          exact proceeds_hardLink leaves
      | _ => exact legal.elim
  | unlink target => exact proceeds_unlink leaves legal
  | _ => cases phase <;> exact legal.elim

theorem rests_harmless (path : Path) (request : Call) (harmless : request.Harmless path) (rests : phase.Rests)
    (answer : Answer request) : (phase.advance request answer).Rests := by
  by_cases visible : phase.Visible
  · exact rests_of_visible (visible_advance visible harmless answer)
  · have quiet : Indifferent (WriteCourse.protocol path [] .missing) path phase :=
      WriteCourse.indifferent visible
    have stays : phase.advance request answer = phase := (quiet request harmless).2 answer
    rw [stays]
    exact rests

/-- Where the directory of the path is missing, a write changes nothing. -/
theorem rests_of_lost {request : Call} {e : OsError} (lost : h.disk.directoryOf path = .error e)
    (rests : phase.Rests) (legal : WriteCourse.Legal path bytes expected phase request) :
    (Host.exec process request choice h).2.disk = h.disk ∧
      (phase.advance request (Host.exec process request choice h).1).Rests := by
  cases request with
  | lstat target =>
      have here : (Call.lstat target).Harmless path := by cases phase <;> exact legal
      exact ⟨rfl, rests_harmless path (.lstat target) here rests _⟩
  | openRead target =>
      have here : (Call.openRead target).Harmless path := by cases phase <;> exact legal
      exact ⟨rfl, rests_harmless path (.openRead target) here rests _⟩
  | fstat file => exact ⟨rfl, rests_harmless path (.fstat file) trivial rests _⟩
  | readFile file => exact ⟨rfl, rests_harmless path (.readFile file) trivial rests _⟩
  | read file offset length => exact ⟨rfl, rests_harmless path (.read file offset length) trivial rests _⟩
  | syncAll file => exact ⟨rfl, rests_harmless path (.syncAll file) trivial rests _⟩
  | fetchAdd =>
      refine ⟨rfl, ?_⟩
      cases phase <;> exact rests
  | createNew temp mode =>
      cases phase with
      | fresh =>
          have nowhere : h.disk.directoryOf temp = .error e := by
            unfold Disk.directoryOf at lost ⊢
            rw [show temp.parent = path.parent from legal.1]
            exact lost
          simp only [Host.exec, Disk.createNew, nowhere, Host.opening]
          exact ⟨trivial, trivial⟩
      | _ => exact legal.elim
  | _ => cases phase <;> first | exact legal.elim | exact rests.elim

end Step

end EmacsRelay

import EmacsRelay.Server.Passage
import EmacsRelay.Server.Phase

set_option autoImplicit false

/- A file that several writes want to replace: what each of them relies on while the others make
their calls. -/
namespace EmacsRelay

/-- A write's temporary file is where the write put it, and is not the file it is to replace. -/
structure Owner (d : Disk) (path : Path) (taken : Inode) (temp : Path) (file : Inode) : Prop where
  beside : temp.parent = path.parent
  elsewhere : temp.name ≠ path.name
  there : d.find temp = .ok file
  plain : d.Plain file
  unlike : d.find path = .ok taken → file ≠ taken

/-- The disk as writes in these phases have left it. Once one of them has published its file, the
path no longer leads to the inode that was to be replaced. -/
structure Shared {Job : Type} (d : Disk) (path : Path) (taken : Inode) (phase : Job → WritePhase) :
    Prop where
  present : ∀ job, phase job ≠ .fresh → ∃ inode, d.find path = .ok inode
  owner : ∀ job temp file, phase job = .owns temp file → Owner d path taken temp file
  apart : ∀ job other temp file file', phase job = .owns temp file →
    phase other = .owns temp file' → job = other
  replaced : ∀ job, phase job = .published → d.find path ≠ .ok taken
  single : ∀ job other, phase job = .published → phase other = .published → job = other

namespace Shared

variable {Job : Type} [DecidableEq Job] {d e : Disk} {path temp : Path} {taken file : Inode}
  {phase : Job → WritePhase} {job : Job}

omit [DecidableEq Job] in
/-- A change of the disk that leaves the path and all temporary files where they are. -/
theorem change (shared : Shared d path taken phase) {inode : Inode}
    (before : d.find path = .ok inode) (after : e.find path = .ok inode)
    (owned : ∀ job temp file, phase job = .owns temp file → e.find temp = .ok file ∧ e.Plain file) :
    Shared e path taken phase where
  present := fun _ _ => ⟨inode, after⟩
  owner := by
    intro job temp file owns
    have owner := shared.owner job temp file owns
    obtain ⟨there, plain⟩ := owned job temp file owns
    refine ⟨owner.beside, owner.elsewhere, there, plain, ?_⟩
    intro same
    exact owner.unlike (before.trans (after.symm.trans same))
  apart := shared.apart
  replaced := fun job published same =>
    shared.replaced job published (before.trans (after.symm.trans same))
  single := shared.single

theorem eq_of_update {next other : WritePhase} (differs : next ≠ other) {j : Job}
    (is : Function.update phase job next j = other) : phase j = other ∧ j ≠ job := by
  by_cases same : j = job
  · rw [same, Function.update_self] at is
    exact absurd is differs
  · rw [Function.update_of_ne same] at is
    exact ⟨is, same⟩

/-- A write enters a phase in which it has no file of its own. -/
theorem rephase (shared : Shared d path taken phase) (job : Job) {next : WritePhase}
    (present : ∃ inode, d.find path = .ok inode) (holds : next = .found ∨ next = .closing) :
    Shared d path taken (Function.update phase job next) := by
  have notOwns : ∀ temp file, next ≠ .owns temp file := by
    intro temp file owns
    rw [owns] at holds
    rcases holds with holds | holds <;> cases holds
  have notPublished : next ≠ .published := by
    intro published
    rw [published] at holds
    rcases holds with holds | holds <;> cases holds
  constructor
  · exact fun _ _ => present
  · intro other temp file owns
    exact shared.owner other temp file (eq_of_update (notOwns temp file) owns).1
  · intro one other temp file file' owns owns'
    exact shared.apart one other temp file file' (eq_of_update (notOwns temp file) owns).1
      (eq_of_update (notOwns temp file') owns').1
  · intro other published
    exact shared.replaced other (eq_of_update notPublished published).1
  · intro one other published published'
    exact shared.single one other (eq_of_update notPublished published).1
      (eq_of_update notPublished published').1

/-- A write has made its temporary file, under a name that nobody else had. -/
theorem take (shared : Shared d path taken phase) (job : Job) (owner : Owner d path taken temp file)
    (present : ∃ inode, d.find path = .ok inode)
    (unused : ∀ other file', phase other ≠ .owns temp file') :
    Shared d path taken (Function.update phase job (.owns temp file)) := by
  have owned : ∀ {j : Job} {temp' : Path} {file' : Inode},
      Function.update phase job (.owns temp file) j = .owns temp' file' →
      (j = job ∧ temp = temp' ∧ file = file') ∨ (temp ≠ temp' ∧ phase j = .owns temp' file') := by
    intro j temp' file' owns
    by_cases same : j = job
    · rw [same, Function.update_self] at owns
      cases owns
      exact .inl ⟨same, rfl, rfl⟩
    · rw [Function.update_of_ne same] at owns
      right
      refine ⟨?_, owns⟩
      intro same
      rw [← same] at owns
      exact unused j file' owns
  constructor
  · exact fun _ _ => present
  · intro other temp' file' owns
    rcases owned owns with ⟨_, sameTemp, sameFile⟩ | ⟨_, before⟩
    · rw [← sameTemp, ← sameFile]
      exact owner
    · exact shared.owner other temp' file' before
  · intro one other temp' file' file'' owns owns'
    rcases owned owns with ⟨mine, name, _⟩ | ⟨differs, before⟩
    · rcases owned owns' with ⟨mine', _⟩ | ⟨differs, _⟩
      · exact mine.trans mine'.symm
      · exact absurd name differs
    · rcases owned owns' with ⟨_, name, _⟩ | ⟨_, before'⟩
      · exact absurd name differs
      · exact shared.apart one other temp' file' file'' before before'
  · intro other published
    exact shared.replaced other (eq_of_update (by simp) published).1
  · intro one other published published'
    exact shared.single one other (eq_of_update (by simp) published).1
      (eq_of_update (by simp) published').1

theorem publish (shared : Shared d path taken phase) (owns : phase job = .owns temp file)
    (here : d.find path = .ok taken) (now : e.find path = .ok file)
    (owned : ∀ other temp' file', temp' ≠ temp → phase other = .owns temp' file' →
      e.find temp' = .ok file' ∧ e.Plain file') :
    Shared e path taken (Function.update phase job .published) := by
  have nobody : ∀ other, phase other ≠ .published := fun other published =>
    shared.replaced other published here
  have gone : e.find path ≠ .ok taken := by
    intro same
    rw [now] at same
    exact (shared.owner job temp file owns).unlike here (Except.ok.inj same)
  constructor
  · exact fun _ _ => ⟨file, now⟩
  · intro other temp' file' owns'
    obtain ⟨before, differs⟩ := eq_of_update (by simp) owns'
    have owner := shared.owner other temp' file' before
    have apart : temp' ≠ temp := by
      intro same
      rw [same] at before
      exact differs (shared.apart other job temp file' file before owns)
    obtain ⟨there, plain⟩ := owned other temp' file' apart before
    exact ⟨owner.beside, owner.elsewhere, there, plain, fun same => absurd same gone⟩
  · intro one other temp' file' file'' owns' owns''
    exact shared.apart one other temp' file' file'' (eq_of_update (by simp) owns').1
      (eq_of_update (by simp) owns'').1
  · exact fun _ _ => gone
  · intro one other published published'
    have mine : ∀ {j : Job}, Function.update phase job .published j = .published → j = job := by
      intro j published
      by_contra differs
      rw [Function.update_of_ne differs] at published
      exact nobody j published
    rw [mine published, mine published']

end Shared

namespace Shared

variable {Job : Type} [DecidableEq Job] {d e : Disk} {path temp : Path} {taken file dir : Inode}
  {phase : Job → WritePhase} {job : Job}

omit [DecidableEq Job] in
theorem reshape (shared : Shared d path taken phase) (begun : phase job ≠ .fresh)
    (root : e.root = d.root) (entry : ∀ a n, e.entry a n = d.entry a n)
    (reshapes : ∀ i, Disk.Reshapes d e i) : Shared e path taken phase := by
  have same := Disk.samePassages_of_reshapes root entry reshapes
  obtain ⟨inode, here⟩ := shared.present job begun
  apply shared.change here (same.find (fun dir => entry dir path.name) here)
  intro other temp file owns
  have owner := shared.owner other temp file owns
  exact ⟨same.find (fun dir => entry dir temp.name) owner.there, (reshapes file).plain owner.plain⟩

theorem create (shared : Shared d path taken phase) (begun : phase job ≠ .fresh)
    (beside : temp.parent = path.parent) {node : Node} {bytes : Bytes}
    (here : d.directoryOf temp = .ok dir) (staged : Disk.Staged d e dir temp.name file node)
    (kind : node.kind = .file bytes) :
    Shared e path taken (Function.update phase job (.owns temp file)) := by
  have same := staged.samePassages kind
  have kept : ∀ {p : Path} {inode : Inode}, d.find p = .ok inode →
      e.find p = .ok inode ∧ e.nodes inode = d.nodes inode := by
    intro p inode there
    obtain ⟨a, walks, entry⟩ := Disk.find_ok.mp there
    obtain ⟨still, nodes⟩ := staged.linked entry
    exact ⟨Disk.find_ok.mpr ⟨a, same.directoryOf walks, still⟩, nodes⟩
  obtain ⟨inode, there⟩ := shared.present job begun
  have after := (kept there).1
  have made : e.find temp = .ok file := by
    apply Disk.find_ok.mpr
    refine ⟨dir, same.directoryOf here, ?_⟩
    rw [staged.entry, if_pos ⟨rfl, rfl⟩]
  have absent : ∀ inode, d.find temp ≠ .ok inode := by
    intro inode found
    obtain ⟨a, walks, entry⟩ := Disk.find_ok.mp found
    rw [here] at walks
    cases walks
    rw [staged.absent] at entry
    cases entry
  have elsewhere : temp.name ≠ path.name := by
    intro names
    have paths : temp = path := by
      cases temp
      cases path
      simp_all
    exact absent inode (paths ▸ there)
  have unlinked : ∀ {p : Path} {inode : Inode}, d.find p = .ok inode → file ≠ inode := by
    intro p inode there same
    obtain ⟨a, _, entry⟩ := Disk.find_ok.mp there
    exact staged.free.2 a p.name (same ▸ entry)
  have changed : Shared e path taken phase := by
    apply shared.change there after
    intro other temp' file' owns
    have owner := shared.owner other temp' file' owns
    obtain ⟨still, nodes⟩ := kept owner.there
    obtain ⟨content, isFile⟩ := owner.plain
    refine ⟨still, content, ?_⟩
    rw [Disk.kindOf, nodes]
    exact isFile
  apply changed.take job
  · refine ⟨beside, elsewhere, made, ⟨bytes, staged.kindOf kind⟩, ?_⟩
    intro taking
    apply unlinked (p := path)
    rw [there, ← taking, after]
  · exact ⟨inode, after⟩
  · intro other file' owns
    exact absent file' (shared.owner other temp file' owns).there

omit [DecidableEq Job] in
/-- The temporary files of other writes have other names. -/
theorem name_ne (shared : Shared d path taken phase) (owns : phase job = .owns temp file)
    {other : Job} {temp' : Path} {file' : Inode} (owns' : phase other = .owns temp' file')
    (differs : other ≠ job) : temp'.name ≠ temp.name := by
  intro names
  have parents : temp'.parent = temp.parent :=
    (shared.owner other temp' file' owns').beside.trans
      (shared.owner job temp file owns).beside.symm
  have same : temp' = temp := by
    cases temp'
    cases temp
    simp_all
  rw [same] at owns'
  exact differs (shared.apart other job temp file' file owns' owns)

theorem unlink (shared : Shared d path taken phase) (owns : phase job = .owns temp file)
    (choice : KernelChoice) (removed : d.unlink choice temp = .ok e) :
    Shared e path taken (Function.update phase job .closing) := by
  have owner := shared.owner job temp file owns
  obtain ⟨dir, here, entry⟩ := Disk.find_ok.mp owner.there
  obtain ⟨bytes, kind⟩ := owner.plain
  have result : e = (d.removeEntry dir temp.name).dropLink file choice.now := by
    unfold Disk.unlink at removed
    rw [here, owner.there] at removed
    simp only [Disk.isDirectory_file kind, Bool.false_eq_true, if_false] at removed
    exact (Except.ok.inj removed).symm
  have entries : ∀ a n, e.entry a n = if a = dir ∧ n = temp.name then none else d.entry a n := by
    intro a n
    rw [result, Disk.entry_dropLink, Disk.entry_removeEntry]
  have kinds : ∀ i, e.kindOf i = d.kindOf i := by
    intro i
    rw [result]
    exact Disk.kindOf_dropLink choice.now i
  have same : d.SamePassages e := by
    refine ⟨by rw [result]; rfl, fun a n => ?_⟩
    by_cases mine : a = dir ∧ n = temp.name
    · rw [mine.1, mine.2, Disk.passage_of_plain entry owner.plain]
      exact Disk.passage_of_none (by rw [entries, if_pos ⟨rfl, rfl⟩])
    · apply Disk.Reshapes.passage
      · rw [entries, if_neg mine]
      · exact fun i _ => .of_kindOf (kinds i)
  have kept : ∀ {p : Path} {inode : Inode}, p.name ≠ temp.name → d.find p = .ok inode →
      e.find p = .ok inode := by
    intro p inode differs there
    exact same.find (fun a => by rw [entries, if_neg fun both => differs both.2]) there
  obtain ⟨inode, there⟩ := shared.present job (by rw [owns]; simp)
  have closed : Shared d path taken (Function.update phase job .closing) :=
    shared.rephase job ⟨inode, there⟩ (.inr rfl)
  apply closed.change there (kept owner.elsewhere.symm there)
  intro other temp' file' owns'
  obtain ⟨before, differs⟩ := eq_of_update (by simp) owns'
  have theirs := shared.owner other temp' file' before
  refine ⟨kept (shared.name_ne owns before differs) theirs.there, ?_⟩
  obtain ⟨content, isFile⟩ := theirs.plain
  exact ⟨content, (kinds file').trans isFile⟩

theorem rename (shared : Shared d path taken phase) (owns : phase job = .owns temp file)
    (choice : KernelChoice) (there : d.find path = .ok taken) (plain : d.Plain taken)
    (renamed : d.rename choice temp path = .ok e) :
    Shared e path taken (Function.update phase job .published) := by
  have owner := shared.owner job temp file owns
  obtain ⟨dir, here, entry⟩ := Disk.find_ok.mp owner.there
  have pathDir : d.directoryOf path = .ok dir := by
    unfold Disk.directoryOf at here ⊢
    rw [← owner.beside]
    exact here
  have target : d.entry dir path.name = some taken := by
    obtain ⟨a, walks, found⟩ := Disk.find_ok.mp there
    rw [pathDir] at walks
    cases walks
    exact found
  have differs : taken ≠ file := (owner.unlike there).symm
  obtain ⟨bytes, kind⟩ := owner.plain
  obtain ⟨content, oldKind⟩ := plain
  have result : e = d.moveEntry choice dir temp.name dir path.name file := by
    unfold Disk.rename at renamed
    rw [here, owner.there, pathDir] at renamed
    simp only [Disk.isDirectory_file kind, Disk.isDirectory_file oldKind, target, differs,
      Bool.false_eq_true, false_and, and_false, if_false] at renamed
    split at renamed
    · cases renamed
    · exact (Except.ok.inj renamed).symm
  have entries : ∀ a n, e.entry a n = if a = dir ∧ n = path.name then some file
      else if a = dir ∧ n = temp.name then none else d.entry a n := by
    intro a n
    rw [result]
    exact Disk.entry_moveEntry choice a n
  have kinds : ∀ i, e.kindOf i = d.kindOf i := by
    intro i
    rw [result]
    exact Disk.kindOf_moveEntry choice i
  have same : d.SamePassages e := by
    rw [result]
    apply Disk.samePassages_move choice entry owner.plain
    intro old before
    rw [target] at before
    exact ⟨content, Option.some.inj before ▸ oldKind⟩
  apply shared.publish owns there
  · apply Disk.find_ok.mpr
    refine ⟨dir, same.directoryOf pathDir, ?_⟩
    rw [entries, if_pos ⟨rfl, rfl⟩]
  · intro other temp' file' apart before
    have theirs := shared.owner other temp' file' before
    have others : other ≠ job := by
      intro same
      rw [same, owns] at before
      cases before
      exact apart rfl
    have names := shared.name_ne owns before others
    constructor
    · apply same.find _ theirs.there
      intro a
      rw [entries, if_neg fun both => theirs.elsewhere both.2, if_neg fun both => names both.2]
    · obtain ⟨content, isFile⟩ := theirs.plain
      exact ⟨content, (kinds file').trans isFile⟩

end Shared

end EmacsRelay

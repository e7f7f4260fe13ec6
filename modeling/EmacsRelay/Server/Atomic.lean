import EmacsRelay.Server.Stage

set_option autoImplicit false

/- A conditional write run alone is one step: it puts exactly its bytes in the path's place, or it
leaves the contents of the disk as they were. -/
namespace EmacsRelay

open Trial

/-- The path is in the state that a writer expects. -/
def Disk.Meets (d : Disk) (path : Path) : ExpectedRevision → Prop
  | .present revision => ∃ bytes, d.revisionAt path = .ok ⟨bytes, revision⟩
  | .missing => d.lstat path = .error .notFound

/-- The first of so many temporary names, from a serial number on, that is free. -/
def Disk.freeTemp (d : Disk) (process : Process) (path : Path) (dir : Inode) :
    Nat → Nat → Option Path
  | 0, _ => none
  | tries + 1, serial =>
      let temp := tempPath process path serial
      if d.entry dir temp.name = none then some temp
      else d.freeTemp process path dir tries (serial + 1)

/-- The temporary name that a write to the path would get. -/
def Host.tempFor (process : Process) (path : Path) (h : Host) : Option Path :=
  match h.disk.directoryOf path with
  | .error _ => none
  | .ok dir => h.disk.freeTemp process path dir 100 (h.nextTemp process.pid)

/-- The server takes a write: its bytes are text of a size that can be read back, the path is as
expected, and there is a temporary name beside it. -/
structure Accepts (process : Process) (path : Path) (bytes : Bytes) (expected : ExpectedRevision)
    (h : Host) : Prop where
  small : bytes.length ≤ maxReadBytes
  valid : validUtf8 bytes = true
  meets : h.disk.Meets path expected
  temp : ∃ temp, h.tempFor process path = some temp ∧ temp.name ≠ path.name

/-- The inode is the root or has a name. -/
def Disk.Linked (d : Disk) (inode : Inode) : Prop :=
  inode = d.root ∨ ∃ dir name, d.entry dir name = some inode

/-- The same names, for files that are the same. -/
structure Disk.SameContents (d e : Disk) : Prop where
  root : e.root = d.root
  entry : ∀ dir name, e.entry dir name = d.entry dir name
  nodes : ∀ inode, d.Linked inode → e.nodes inode = d.nodes inode

/-- A new file with these bytes has taken the path's place; nothing else changed. -/
structure Disk.Replaced (d e : Disk) (path : Path) (bytes : Bytes) (revision : Revision) :
    Prop where
  read : e.revisionAt path = .ok ⟨bytes, revision⟩
  published : ∃ dir file node now, d.directoryOf path = .ok dir ∧
    Disk.Published d e dir path.name file node now

theorem Disk.SameContents.refl (d : Disk) : d.SameContents d :=
  ⟨rfl, fun _ _ => rfl, fun _ _ => rfl⟩

theorem Disk.Free.ne {d : Disk} {file inode : Inode} (free : d.Free file)
    (linked : d.Linked inode) : inode ≠ file := by
  intro same
  rcases linked with root | ⟨dir, name, there⟩
  · exact free.1 (same ▸ root)
  · exact free.2 dir name (same ▸ there)

section Comparison

variable {d : Disk} {path : Path}

/-- What `Revision::from_metadata` builds passes its own check. -/
theorem isValidFileRevision_fromMetadata (metadata : Metadata) (bytes : Bytes) :
    (Revision.fromMetadata metadata (sha256 bytes)).isValidFileRevision = true := by
  obtain ⟨length, digits⟩ := sha256_wellFormed bytes
  have mtime := metadata.node.mtime.nsec.isLt
  have ctime := metadata.node.ctime.nsec.isLt
  have mode : metadata.node.mode % 0o10000 ≤ 0o7777 := by omega
  simp only [Revision.isValidFileRevision, Revision.fromMetadata, length, digits, Bool.and_eq_true,
    beq_self_eq_true, and_true, true_and]
  exact ⟨⟨⟨⟨decide_eq_true (by omega), decide_eq_true (by omega)⟩, decide_eq_true (by omega)⟩,
    decide_eq_true (by omega)⟩, decide_eq_true mode⟩

theorem isValidFileRevision_of_read {metadata : Metadata} {read : RevisionRead}
    (result : metadata.read = .ok read) : read.revision.isValidFileRevision = true := by
  unfold Metadata.read at result
  split at result
  · cases result
  · split at result
    · split at result
      · cases result
        exact isValidFileRevision_fromMetadata metadata _
      · cases result
    · cases result
  · cases result

theorem plain_of_read {metadata : Metadata} {read : RevisionRead}
    (result : metadata.read = .ok read) : finalType metadata = none := by
  unfold Metadata.read at result
  split at result
  · cases result
  · assumption
  · cases result

/-- The comparison succeeds exactly when the path is as expected. -/
theorem conflictAt_ok (expected : ExpectedRevision) :
    d.conflictAt expected path = .ok () ↔ d.Meets path expected := by
  cases expected with
  | missing =>
      unfold Disk.conflictAt Disk.Meets
      cases found : d.lstat path with
      | error e => cases e <;> simp
      | ok metadata =>
          cases type : finalType metadata with
          | some kind => cases kind <;> simp [type]
          | none => cases read : metadata.read <;> simp [type, read]
  | present revision =>
      unfold Disk.conflictAt Disk.Meets Disk.revisionAt
      by_cases valid : revision.isValidFileRevision = true
      · cases found : d.lstat path with
        | error e => cases e <;> simp [valid]
        | ok metadata =>
            cases read : metadata.read with
            | error e =>
                cases type : finalType metadata with
                | some kind => cases kind <;> simp [valid, read, type]
                | none => simp [valid, read, type]
            | ok current =>
                obtain ⟨content, now⟩ := current
                by_cases same : now = revision
                · simp [valid, read, plain_of_read read, same]
                · simp [valid, read, plain_of_read read, same]
      · simp only [valid, Bool.false_eq_true, if_false, reduceCtorEq, false_iff, not_exists]
        intro bytes
        cases found : d.lstat path with
        | error e => simp
        | ok metadata =>
            intro read
            have sampled := isValidFileRevision_of_read read
            exact valid sampled

end Comparison

/-- A temporary file with these bytes lies beside the path. -/
structure TempFile (d : Disk) (path temp : Path) (dir file : Inode) (bytes : Bytes) (e : Disk) :
    Prop where
  here : d.directoryOf path = .ok dir
  beside : temp.parent = path.parent
  device : file.dev = dir.dev
  staged : ∃ node, Disk.Staged d e dir temp.name file node ∧ node.kind = .file bytes ∧
    node.nlink = 1

namespace TempFile

variable {d e : Disk} {path temp : Path} {dir file : Inode} {bytes : Bytes}

theorem create {process : Process} {choice : KernelChoice} {mode : Nat}
    (here : d.directoryOf path = .ok dir) (beside : temp.parent = path.parent)
    (absent : d.entry dir temp.name = none) (free : d.Free ⟨dir.dev, choice.fresh⟩) :
    TempFile d path temp dir ⟨dir.dev, choice.fresh⟩ []
      (d.create dir temp.name ⟨dir.dev, choice.fresh⟩
        (process.newNode (.file []) mode choice.now)) where
  here := here
  beside := beside
  device := rfl
  staged := ⟨_, Disk.Staged.create absent free _, rfl, rfl⟩

theorem modify (pending : TempFile d path temp dir file bytes e) {f : Node → Node}
    {content : Bytes}
    (kind : ∀ node, node.kind = .file bytes → (f node).kind = .file content)
    (single : ∀ node, (f node).nlink = node.nlink) :
    TempFile d path temp dir file content (e.modifyNode file f) where
  here := pending.here
  beside := pending.beside
  device := pending.device
  staged := by
    obtain ⟨node, staged, isFile, once⟩ := pending.staged
    exact ⟨f node, staged.modify f, kind node isFile, (single node).trans once⟩

theorem fchown (pending : TempFile d path temp dir file bytes e) (choice : KernelChoice)
    (uid gid : Nat) : TempFile d path temp dir file bytes (e.fchown choice file uid gid) :=
  pending.modify (fun _ kind => kind) fun _ => rfl

theorem fchmod (pending : TempFile d path temp dir file bytes e) (choice : KernelChoice)
    (mode : Nat) : TempFile d path temp dir file bytes (e.fchmod choice file mode) :=
  pending.modify (fun _ kind => kind) fun _ => rfl

theorem writeAll (pending : TempFile d path temp dir file [] e) (choice : KernelChoice) :
    TempFile d path temp dir file bytes (e.writeAll choice file bytes) := by
  unfold Disk.writeAll
  by_cases empty : bytes = []
  · rw [if_pos empty, empty]
    exact pending
  · rw [if_neg empty]
    apply pending.modify
    · intro node kind
      simp [kind]
    · intro node
      cases node.kind <;> rfl

theorem tempPath_eq (pending : TempFile d path temp dir file bytes e) :
    temp = ⟨path.parent, temp.name⟩ := by
  rw [← pending.beside]

/-- Removing the temporary file leaves the contents as they were. -/
theorem unlink (pending : TempFile d path temp dir file bytes e) (choice : KernelChoice) :
    ∃ e', e.unlink choice temp = .ok e' ∧ d.SameContents e' := by
  obtain ⟨node, staged, kind, _⟩ := pending.staged
  obtain ⟨root, entry, nodes⟩ := staged.removed choice.now
  refine ⟨(e.removeEntry dir temp.name).dropLink file choice.now, ?_, root, entry, ?_⟩
  · have tempDir : e.directoryOf ⟨path.parent, temp.name⟩ = .ok dir :=
      staged.directoryOf pending.here
    unfold Disk.unlink
    rw [pending.tempPath_eq, tempDir, staged.find_self pending.here]
    simp [Disk.isDirectory_file (staged.kindOf kind)]
  · intro inode linked
    exact nodes inode (staged.free.ne linked)

end TempFile

/-- A file that is created beside the path is its temporary file. -/
theorem tempFile_of_createNew {d e : Disk} {process : Process} {choice : KernelChoice}
    {path temp : Path} {mode : Nat} {file : Inode} (beside : temp.parent = path.parent)
    (created : d.createNew choice process temp mode = .ok (file, e))
    (free : ∀ dir, d.directoryOf temp = .ok dir → d.Free ⟨dir.dev, choice.fresh⟩) :
    ∃ dir, TempFile d path temp dir file [] e := by
  unfold Disk.createNew at created
  cases here : d.directoryOf temp with
  | error reason => rw [here] at created; cases created
  | ok dir =>
      rw [here] at created
      dsimp only at created
      cases entry : d.entry dir temp.name with
      | some other => rw [entry] at created; cases created
      | none =>
          rw [entry] at created
          cases created
          have there : d.directoryOf path = .ok dir := by
            unfold Disk.directoryOf at here ⊢
            rw [← beside]
            exact here
          exact ⟨dir, TempFile.create there beside entry (free dir here)⟩

section Calls

variable {process : Process} {h : Host} {d : Disk} {path temp : Path} {dir file : Inode}
  {bytes : Bytes} {failed : RevisionError → Host → Prop}

theorem wp_fetchAdd {post : Nat → Host → Prop}
    (holds : post (h.nextTemp process.pid) (h.countTemp process.pid)) :
    wp (Host.kernel process) Sys.fetchAdd post failed h :=
  fun _ _ => holds

theorem wp_createNew {post : Except OsError Inode → Host → Prop}
    (holds : ∀ choice, (∀ dir, h.disk.directoryOf path = .ok dir →
        h.disk.Free ⟨dir.dev, choice.fresh⟩) →
      post (h.opening (h.disk.createNew choice process path 0o666)).1
        (h.opening (h.disk.createNew choice process path 0o666)).2) :
    wp (Host.kernel process) (Sys.createNew path) post failed h :=
  holds

theorem wp_newTemp (here : d.directoryOf path = .ok dir) (tries serial : Nat)
    (disk : h.disk = d) (next : h.nextTemp process.pid = serial) :
    wp (Host.kernel process) (newTemp process path tries)
      (fun made h' => d.freeTemp process path dir tries serial = some made.1 ∧
        TempFile d path made.1 dir made.2 [] h'.disk)
      (fun _ h' => d.freeTemp process path dir tries serial = none ∧ h'.disk = d) h := by
  induction tries generalizing serial h with
  | zero => exact ⟨rfl, disk⟩
  | succ tries ih =>
      have counted : (h.countTemp process.pid).nextTemp process.pid = serial + 1 := by
        simp [Host.countTemp, next]
      have tempDir : d.directoryOf (tempPath process path serial) = .ok dir := here
      simp only [newTemp, Disk.freeTemp, wp_bind]
      apply wp_fetchAdd
      rw [next]
      apply wp_createNew
      intro choice free
      have free := free dir (disk ▸ tempDir)
      simp only [Host.countTemp, disk, Disk.createNew, tempDir] at free ⊢
      by_cases absent : d.entry dir (tempPath process path serial).name = none
      · simp only [absent, Host.opening, if_true, wp_pure, true_and]
        exact TempFile.create here rfl absent free
      · obtain ⟨other, there⟩ := Option.ne_none_iff_exists'.mp absent
        simp only [there, Host.opening, reduceCtorEq, if_false]
        exact ih (serial + 1) rfl counted

theorem wp_newTemp_nowhere {e : OsError} (nowhere : d.directoryOf path = .error e) (tries : Nat)
    (disk : h.disk = d) :
    wp (Host.kernel process) (newTemp process path tries) (fun _ _ => False)
      (fun _ h' => h'.disk = d) h := by
  induction tries generalizing h with
  | zero => exact disk
  | succ tries ih =>
      simp only [newTemp, wp_bind]
      apply wp_fetchAdd
      apply wp_createNew
      intro choice _
      have tempDir : d.directoryOf (tempPath process path (h.nextTemp process.pid)) = .error e :=
        nowhere
      simp only [Host.countTemp, disk, Disk.createNew, tempDir, Host.opening]
      cases e with
      | alreadyExists => exact ih rfl
      | _ => simp only [wp_stop]

theorem wp_preserveMetadata (pending : TempFile d path temp dir file bytes h.disk)
    (original : Option Metadata) :
    wp (Host.kernel process) (preserveMetadata file original)
      (fun _ h' => TempFile d path temp dir file bytes h'.disk) failed h := by
  cases original with
  | none => exact pending
  | some metadata =>
      simp only [preserveMetadata, wp_bind]
      exact fun choice _ choice' _ => (pending.fchown choice _ _).fchmod choice' _

theorem wp_writeTemp (pending : TempFile d path temp dir file [] h.disk) :
    wp (Host.kernel process) (writeTemp file bytes)
      (fun _ h' => TempFile d path temp dir file bytes h'.disk) failed h := by
  simp only [writeTemp, wp_bind]
  exact fun choice _ => pending.writeAll choice

theorem wp_dropTemp (pending : TempFile d path temp dir file bytes h.disk) :
    Program.wp (Host.kernel process) (dropTemp temp) (fun _ h' => d.SameContents h'.disk) h := by
  intro choice _
  obtain ⟨e, removed, same⟩ := pending.unlink choice
  show d.SameContents (h.change (h.disk.unlink choice temp)).2.disk
  rw [removed]
  exact same

/-- The temporary file has become the file at the path. -/
def Landed (d : Disk) (path : Path) (dir file : Inode) (bytes : Bytes) (e : Disk) : Prop :=
  ∃ node now, Disk.Published d e dir path.name file node now ∧ node.kind = .file bytes ∧
    node.nlink = 1

theorem wp_rename {source target : Path} {post : Except OsError Unit → Host → Prop}
    (holds : ∀ choice, post (h.change (h.disk.rename choice source target)).1
      (h.change (h.disk.rename choice source target)).2) :
    wp (Host.kernel process) (Sys.rename source target) post failed h :=
  fun choice _ => holds choice

theorem wp_hardLink {source target : Path} {post : Except OsError Unit → Host → Prop}
    (holds : ∀ choice, post (h.change (h.disk.hardLink choice source target)).1
      (h.change (h.disk.hardLink choice source target)).2) :
    wp (Host.kernel process) (Sys.hardLink source target) post failed h :=
  fun choice _ => holds choice

theorem wp_unlink {post : Except OsError Unit → Host → Prop}
    (holds : ∀ choice, post (h.change (h.disk.unlink choice path)).1
      (h.change (h.disk.unlink choice path)).2) :
    wp (Host.kernel process) (Sys.unlink path) post failed h :=
  fun choice _ => holds choice

/-- A staged file takes the place of an ordinary one, and only its change time is new. -/
theorem wp_publish_staged {node : Node}
    (staged : Disk.Staged d h.disk dir temp.name file node) (here : d.directoryOf path = .ok dir)
    (beside : temp.parent = path.parent) (device : file.dev = dir.dev)
    (kind : node.kind = .file bytes) {old : Inode} {content : Bytes}
    (there : d.entry dir path.name = some old) (plain : d.kindOf old = some (.file content))
    (revision : Revision) :
    wp (Host.kernel process) (publish (.present revision) temp path)
      (fun _ h' => ∃ now, Disk.Published d h'.disk dir path.name file { node with ctime := now } now)
      failed h := by
  simp only [publish, wp_bind]
  apply wp_rename
  intro choice
  obtain ⟨e, renamed, published⟩ := staged.rename choice here kind device there plain
  have named : temp = ⟨path.parent, temp.name⟩ := by rw [← beside]
  rw [named, renamed]
  simp only [Host.change, Trial.ofExcept, wp_pure]
  exact ⟨choice.now, published⟩

theorem wp_publish_present (pending : TempFile d path temp dir file bytes h.disk)
    {old : Inode} {content : Bytes} (there : d.entry dir path.name = some old)
    (plain : d.kindOf old = some (.file content)) (revision : Revision) :
    wp (Host.kernel process) (publish (.present revision) temp path)
      (fun _ h' => Landed d path dir file bytes h'.disk) failed h := by
  obtain ⟨node, staged, kind, single⟩ := pending.staged
  apply wp_mono (wp_publish_staged staged pending.here pending.beside pending.device kind there plain
    revision) _ fun _ _ failed => failed
  intro _ h' published
  obtain ⟨now, published⟩ := published
  exact ⟨_, now, published, kind, single⟩

theorem wp_publish_missing (pending : TempFile d path temp dir file bytes h.disk)
    (other : path.name ≠ temp.name) (absent : d.entry dir path.name = none) :
    wp (Host.kernel process) (publish .missing temp path)
      (fun _ h' => Landed d path dir file bytes h'.disk) failed h := by
  obtain ⟨node, staged, kind, single⟩ := pending.staged
  simp only [publish, wp_bind]
  apply wp_hardLink
  intro choice
  have step := fun choice' =>
    staged.link choice pending.here other kind pending.device absent choice'
  obtain ⟨linked, _, links, _⟩ := step choice
  rw [pending.tempPath_eq, links]
  simp only [Host.change, wp_bind]
  apply wp_unlink
  intro choice'
  obtain ⟨linked', e, links', removed, published⟩ := step choice'
  have same : linked' = linked := by
    rw [links] at links'
    exact (Except.ok.inj links').symm
  rw [same] at removed
  simp only [removed, Host.change, Trial.ofExcept, wp_pure]
  exact ⟨_, _, published, kind, single⟩

end Calls

section Atomic

variable {d : Disk} {path temp : Path} {dir file : Inode} {bytes : Bytes}
  {expected : ExpectedRevision}

/-- What the directory has under the path's name when the path is as expected. -/
theorem entry_of_meets_present {revision : Revision} (here : d.directoryOf path = .ok dir)
    (meets : d.Meets path (.present revision)) :
    ∃ old content, d.entry dir path.name = some old ∧ d.kindOf old = some (.file content) := by
  obtain ⟨content, read⟩ := meets
  unfold Disk.revisionAt at read
  cases found : d.lstat path with
  | error e => rw [found] at read; cases read
  | ok metadata =>
      rw [found] at read
      obtain ⟨there, node⟩ := lstat_ok found
      obtain ⟨⟨old, kind⟩, _⟩ := finalType_none.mp (plain_of_read read)
      refine ⟨metadata.inode, old, ?_, by simp [Disk.kindOf, node, kind]⟩
      unfold Disk.find at there
      rw [here] at there
      dsimp only at there
      cases entry : d.entry dir path.name with
      | none => rw [entry] at there; cases there
      | some inode =>
          rw [entry] at there
          exact congrArg some (Except.ok.inj there)

theorem entry_of_meets_missing (here : d.directoryOf path = .ok dir)
    (meets : d.Meets path .missing) : d.entry dir path.name = none := by
  have lost : d.lstat path = .error .notFound := meets
  unfold Disk.lstat Disk.find at lost
  rw [here] at lost
  dsimp only at lost
  cases entry : d.entry dir path.name with
  | none => rfl
  | some inode =>
      rw [entry] at lost
      dsimp only [Disk.metadata] at lost
      cases node : d.nodes inode with
      | none => rw [node] at lost; cases lost
      | some value => rw [node] at lost; cases lost

theorem lstat_error_of_meets {e : OsError} (meets : d.Meets path expected)
    (lost : d.lstat path = .error e) : e = .notFound := by
  cases expected with
  | missing => exact Except.error.inj (lost.symm.trans meets)
  | present revision =>
      obtain ⟨content, read⟩ := meets
      simp [Disk.revisionAt, lost] at read

/-- A file that has landed is read back with the bytes that were written. -/
theorem Landed.replaced {e : Disk} (landed : Landed d path dir file bytes e)
    (here : d.directoryOf path = .ok dir) (meets : d.Meets path expected)
    (small : bytes.length ≤ maxReadBytes) (valid : validUtf8 bytes = true) :
    ∃ revision, d.Replaced e path bytes revision := by
  obtain ⟨node, now, published, kind, single⟩ := landed
  have plain : ∀ old, d.entry dir path.name = some old →
      ∃ content, d.kindOf old = some (.file content) := by
    intro old there
    cases expected with
    | missing =>
        rw [entry_of_meets_missing here meets] at there
        cases there
    | present revision =>
        obtain ⟨other, content, entry, isFile⟩ := entry_of_meets_present here meets
        rw [there] at entry
        exact ⟨content, Option.some.inj entry ▸ isFile⟩
  exact ⟨_, published.revisionAt here plain kind single small valid, dir, file, node, now, here,
    published⟩

/-- A file staged under the path's own name is not what a creator expects to find there. -/
theorem not_meets_of_staged {e : Disk} {node : Node}
    (staged : Disk.Staged d e dir path.name file node) (here : d.directoryOf path = .ok dir) :
    ¬ e.Meets path .missing := by
  intro meets
  have entry := entry_of_meets_missing (staged.directoryOf here) meets
  rw [staged.entry, if_pos ⟨rfl, rfl⟩] at entry
  cases entry

variable {process : Process} {h : Host}

/-- From the temporary file on: the write lands, or is refused because the path is the temporary
file itself. -/
theorem wp_stageAndPublish (pending : TempFile d path temp dir file [] h.disk)
    (meets : d.Meets path expected) (original : Option Metadata) :
    wp (Host.kernel process)
      (do
        preserveMetadata file original
        writeTemp file bytes
        syncTemp file
        conflictForExisting expected path
        publish expected temp path)
      (fun _ h' => temp.name ≠ path.name ∧ Landed d path dir file bytes h'.disk)
      (fun _ h' => temp.name = path.name ∧ TempFile d path temp dir file bytes h'.disk) h := by
  rw [wp_bind]
  apply wp_mono (wp_preserveMetadata pending original) ?_ fun _ _ failed => failed
  intro _ h pending
  rw [wp_bind]
  apply wp_mono (wp_writeTemp pending) ?_ fun _ _ failed => failed
  intro _ h pending
  simp only [wp_bind, wp_syncTemp, wp_conflictForExisting]
  obtain ⟨node, staged, _⟩ := pending.staged
  by_cases own : temp.name = path.name
  · have refused : ¬ h.disk.Meets path expected := by
      cases expected with
      | missing => exact not_meets_of_staged (own ▸ staged) pending.here
      | present revision =>
          obtain ⟨old, content, there, _⟩ := entry_of_meets_present pending.here meets
          have absent := staged.absent
          rw [own, there] at absent
          cases absent
    cases compared : h.disk.conflictAt expected path with
    | ok value => exact absurd ((conflictAt_ok expected).mp compared) refused
    | error e => exact ⟨own, pending⟩
  · have other : path.name ≠ temp.name := fun same => own same.symm
    rw [staged.conflictAt expected pending.here other, (conflictAt_ok expected).mpr meets]
    show wp _ _ _ _ h
    have landed : wp (Host.kernel process) (publish expected temp path)
        (fun _ h' => Landed d path dir file bytes h'.disk)
        (fun _ h' => temp.name = path.name ∧ TempFile d path temp dir file bytes h'.disk) h := by
      cases expected with
      | missing =>
          exact wp_publish_missing pending other (entry_of_meets_missing pending.here meets)
      | present revision =>
          obtain ⟨old, content, there, plain⟩ := entry_of_meets_present pending.here meets
          exact wp_publish_present pending there plain revision
    exact wp_mono landed (fun _ h landed => ⟨own, landed⟩) fun _ _ failed => failed

/-- Why a write is refused. The comparison's own error is reported when it is the comparison that
fails. -/
structure Refuses (process : Process) (path : Path) (bytes : Bytes) (expected : ExpectedRevision)
    (h : Host) (reason : RevisionError) : Prop where
  not_accepts : ¬ Accepts process path bytes expected h
  compared : bytes.length ≤ maxReadBytes → validUtf8 bytes = true →
    ∀ e, h.disk.conflictAt expected path = .error e → reason = e

theorem refuses_of_not_accepts {reason : RevisionError} (meets : h.disk.Meets path expected)
    (refused : ¬ Accepts process path bytes expected h) :
    Refuses process path bytes expected h reason := by
  refine ⟨refused, ?_⟩
  intro _ _ e compared
  rw [(conflictAt_ok expected).mpr meets] at compared
  cases compared

/-- A write whose first comparison has succeeded. -/
theorem wp_afterComparison (small : bytes.length ≤ maxReadBytes) (valid : validUtf8 bytes = true)
    (meets : h.disk.Meets path expected) (original : Option Metadata) :
    wp (Host.kernel process)
      (do
        let (temp, file) ← newTemp process path 100
        guarded
          (do
            preserveMetadata file original
            writeTemp file bytes
            syncTemp file
            conflictForExisting expected path
            publish expected temp path)
          (dropTemp temp)
        let published ← readWithRevision path
        if published.bytes = bytes then pure published.revision
        else stop (.conflict .changed (some published.revision)))
      (fun revision h' => Accepts process path bytes expected h ∧
        h.disk.Replaced h'.disk path bytes revision)
      (fun reason h' => Refuses process path bytes expected h reason ∧
        h.disk.SameContents h'.disk) h := by
  rw [wp_bind]
  cases here : h.disk.directoryOf path with
  | error e =>
      apply wp_mono (wp_newTemp_nowhere here 100 rfl) (fun _ _ => False.elim)
      intro reason t same
      refine ⟨refuses_of_not_accepts meets fun accepts => ?_, same ▸ .refl h.disk⟩
      obtain ⟨temp, found, _⟩ := accepts.temp
      simp [Host.tempFor, here] at found
  | ok dir =>
      apply wp_mono (wp_newTemp here 100 _ rfl rfl)
      · intro (temp, file) t ⟨found, pending⟩
        have named : h.tempFor process path = some temp := by
          simp only [Host.tempFor, here]
          exact found
        dsimp only at pending ⊢
        rw [wp_bind, wp_guarded]
        apply wp_mono (wp_stageAndPublish pending meets original)
        · intro _ u ⟨other, landed⟩
          obtain ⟨revision, replaced⟩ := landed.replaced here meets small valid
          simp only [wp_bind, wp_readWithRevision, replaced.read, Resumes, wp_ite, wp_pure]
          exact ⟨fun _ => ⟨⟨small, valid, meets, temp, named, other⟩, replaced⟩,
            fun differs => absurd trivial differs⟩
        · intro reason u ⟨own, pending⟩
          apply Program.wp_mono (wp_dropTemp pending)
          intro _ v same
          refine ⟨refuses_of_not_accepts meets fun accepts => ?_, same⟩
          obtain ⟨other, again, differs⟩ := accepts.temp
          rw [named] at again
          cases again
          exact differs own
      · intro reason t ⟨exhausted, same⟩
        refine ⟨refuses_of_not_accepts meets fun accepts => ?_, same ▸ .refl h.disk⟩
        obtain ⟨temp, found, _⟩ := accepts.temp
        simp [Host.tempFor, here, exhausted] at found

/-- A conditional write, alone, is one step. -/
theorem wp_conditionalWriteLocked :
    wp (Host.kernel process) (conditionalWriteLocked process path bytes expected)
      (fun revision h' => Accepts process path bytes expected h ∧
        h.disk.Replaced h'.disk path bytes revision)
      (fun reason h' => Refuses process path bytes expected h reason ∧
        h.disk.SameContents h'.disk) h := by
  unfold conditionalWriteLocked
  rw [wp_bind, wp_require]
  simp only [decide_eq_true_eq, decide_eq_false_iff_not]
  refine ⟨fun small => ?_, fun large => ?_⟩
  · rw [wp_bind, wp_require]
    refine ⟨fun valid => ?_, fun invalid => ?_⟩
    · rw [wp_bind, wp_conflictForExisting]
      cases compared : h.disk.conflictAt expected path with
      | error e =>
          have refused : ¬ h.disk.Meets path expected := by
            intro meets
            rw [(conflictAt_ok expected).mpr meets] at compared
            cases compared
          refine ⟨⟨fun accepts => refused accepts.meets, ?_⟩, .refl h.disk⟩
          intro _ _ e' again
          exact Except.error.inj (compared.symm.trans again)
      | ok value =>
          have meets := (conflictAt_ok expected).mp compared
          show wp _ _ _ _ h
          rw [wp_bind, wp_checkedLstat]
          cases found : h.disk.lstat path with
          | ok metadata => exact wp_afterComparison small valid meets (some metadata)
          | error e =>
              rw [lstat_error_of_meets meets found]
              exact wp_afterComparison small valid meets none
    · refine ⟨⟨fun accepts => ?_, fun _ valid => ?_⟩, .refl h.disk⟩
      · exact absurd accepts.valid (by simp [invalid])
      · exact absurd valid (by simp [invalid])
  · exact ⟨⟨fun accepts => large accepts.small, fun small => absurd small large⟩, .refl h.disk⟩

end Atomic

end EmacsRelay

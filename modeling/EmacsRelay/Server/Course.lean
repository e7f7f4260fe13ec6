import EmacsRelay.Server.Passage
import EmacsRelay.Server.Phase

set_option autoImplicit false

/- The calls of any conditional write, one that creates its file included, with what its temporary
file contains at each of them. -/
namespace EmacsRelay

open Trial

/-- A name that the server gives to temporary files. -/
def TempName (name : String) : Prop := ∃ rest : String, name = ".relay-tmp-" ++ rest

/-- Bytes that a conditional write takes. -/
structure Writable (bytes : Bytes) : Prop where
  small : bytes.length ≤ maxReadBytes
  valid : validUtf8 bytes = true

/-- How far a conditional write has come. Its temporary file is `staged` with its content, or
`spoiled` by a write that failed. It is `linked` to the path, under both names, and `stuck` there
if the temporary name stays. Once it is `published`, the path is `opened`, `sampled` and read bit by
bit, `reread` to its end, and `verified` by a second sample. -/
inductive WriteCourse where
  | fresh
  | staged (temp : Path) (file : Inode) (content : Bytes)
  | spoiled (temp : Path) (file : Inode)
  | linked (temp : Path) (file : Inode)
  | stuck (temp : Path) (file : Inode)
  | closed
  | published
  | opened (file : Inode)
  | sampled (file : Inode) (before : Metadata) (got : Bytes)
  | reread (file : Inode) (before : Metadata) (content : Bytes)
  | verified (content : Bytes)
deriving DecidableEq, Repr

namespace WriteCourse

def Legal (path : Path) (bytes : Bytes) (expected : ExpectedRevision) : WriteCourse → Call → Prop
  | _, .lstat target => target = path
  | _, .openRead target => target = path
  | _, .fstat _ => True
  | _, .readFile _ => True
  | .opened _, .read _ _ _ => False
  | .sampled file _ got, .read target offset length =>
      target = file ∧ offset = got.length ∧ 0 < length
  | _, .read _ _ _ => True
  | _, .syncAll _ => True
  | .fresh, .fetchAdd => True
  | .fresh, .createNew temp _ => temp.parent = path.parent ∧ TempName temp.name
  | .staged _ file _, .fchown target _ _ => target = file
  | .staged _ file _, .fchmod target _ => target = file
  | .staged _ file content, .writeAll target more =>
      target = file ∧ content = [] ∧ more = bytes ∧ Writable bytes
  | .staged temp _ content, .rename source target =>
      source = temp ∧ target = path ∧ content = bytes ∧ Writable bytes ∧ expected ≠ .missing
  | .staged temp _ content, .hardLink source target =>
      source = temp ∧ target = path ∧ content = bytes ∧ Writable bytes ∧ expected = .missing
  | .staged temp _ _, .unlink target => target = temp
  | .spoiled temp _, .unlink target => target = temp
  | .linked temp _, .unlink target => target = temp
  | .stuck temp _, .unlink target => target = temp
  | _, _ => False

def advance : WriteCourse → (request : Call) → Answer request → WriteCourse
  | .fresh, .createNew temp _, .ok file => .staged temp file []
  | .staged temp file _, .writeAll _ more, .ok _ => .staged temp file more
  | .staged temp file _, .writeAll _ _, .error _ => .spoiled temp file
  | .staged _ _ _, .rename _ _, .ok _ => .published
  | .staged temp file _, .hardLink _ _, .ok _ => .linked temp file
  | .staged _ _ _, .unlink _, _ => .closed
  | .spoiled _ _, .unlink _, _ => .closed
  | .linked _ _, .unlink _, .ok _ => .published
  | .linked temp file, .unlink _, .error _ => .stuck temp file
  | .stuck _ _, .unlink _, _ => .closed
  | .published, .openRead _, .ok file => .opened file
  | .opened _, .openRead _, .ok file => .opened file
  | .sampled _ _ _, .openRead _, .ok file => .opened file
  | .reread _ _ _, .openRead _, .ok file => .opened file
  | .verified _, .openRead _, .ok file => .opened file
  | .opened file, .fstat target, .ok before =>
      if target = file ∧ finalType before = none then .sampled file before [] else .opened file
  | .sampled file before got, .read _ _ _, .ok chunk =>
      if chunk = [] then .reread file before got else .sampled file before (got ++ chunk)
  | .reread file before content, .fstat target, .ok after =>
      if target = file ∧ metadataEqual before after = true then .verified content
      else .reread file before content
  | phase, _, _ => phase

def protocol (path : Path) (bytes : Bytes) (expected : ExpectedRevision) :
    Protocol Call Answer WriteCourse where
  legal := Legal path bytes expected
  advance := advance

/-- The file is in its place, and is only looked at from now on. -/
def Visible : WriteCourse → Prop
  | .published => True
  | .opened _ => True
  | .sampled _ _ _ => True
  | .reread _ _ _ => True
  | .verified _ => True
  | _ => False

end WriteCourse

/-- A temporary file is under its name, beside the path. -/
structure TempEntry (path temp : Path) (dir file : Inode) (d : Disk) : Prop where
  here : d.directoryOf path = .ok dir
  beside : temp.parent = path.parent
  reserved : TempName temp.name
  there : d.entry dir temp.name = some file
  plain : d.Plain file

namespace TempEntry

variable {path temp : Path} {d e : Disk} {dir file : Inode}

theorem tempDir (own : TempEntry path temp dir file d) : d.directoryOf temp = .ok dir := by
  have here := own.here
  unfold Disk.directoryOf at here ⊢
  rw [own.beside]
  exact here

theorem find (own : TempEntry path temp dir file d) : d.find temp = .ok file :=
  Disk.find_ok.mpr ⟨dir, own.tempDir, own.there⟩

theorem notDirectory (own : TempEntry path temp dir file d) : d.isDirectory file = false := by
  obtain ⟨content, kind⟩ := own.plain
  exact Disk.isDirectory_file kind

theorem passages (own : TempEntry path temp dir file d) (same : d.SamePassages e)
    (there : e.entry dir temp.name = some file) (plain : e.Plain file) :
    TempEntry path temp dir file e :=
  ⟨same.directoryOf own.here, own.beside, own.reserved, there, plain⟩

theorem modified {f : Node → Node}
    (own : TempEntry path temp dir file d) (kind : ∀ node, (f node).kind = node.kind) :
    TempEntry path temp dir file (d.modifyNode file f) := by
  obtain ⟨content, isFile⟩ := own.plain
  exact own.passages (Disk.samePassages_modify kind) own.there ⟨content, (Disk.kindOf_modifyNode kind file).trans isFile⟩

/-- A file is linked where there was none, or it is not linked. -/
theorem hardLink (own : TempEntry path temp dir file d) (choice : KernelChoice) :
    (∃ e, d.hardLink choice temp path = .error e) ∨
      d.entry dir path.name = none ∧
        d.hardLink choice temp path = .ok ((d.putEntry dir path.name file).modifyNode file fun node =>
          { node with nlink := node.nlink + 1, ctime := choice.now }) := by
  unfold Disk.hardLink
  rw [own.find, own.here]
  dsimp only
  cases d.entry dir path.name with
  | some other => exact .inl ⟨_, rfl⟩
  | none =>
      dsimp only
      by_cases device : file.dev ≠ dir.dev
      · exact .inl ⟨_, if_pos device⟩
      · rw [if_neg device, own.notDirectory]
        exact .inr ⟨rfl, rfl⟩

/-- The temporary name goes, and only that. -/
theorem unlink (own : TempEntry path temp dir file d) (choice : KernelChoice) :
    d.unlink choice temp = .ok ((d.removeEntry dir temp.name).dropLink file choice.now) := by
  unfold Disk.unlink
  rw [own.tempDir, own.find]
  simp [own.notDirectory]

end TempEntry

section Follows

variable {path temp : Path} {bytes : Bytes} {expected : ExpectedRevision} {phase : WriteCourse}
  {file : Inode} {content : Bytes}

theorem WriteCourse.indifferent (hidden : ¬ phase.Visible) :
    Indifferent (WriteCourse.protocol path bytes expected) path phase := by
  intro request harmless
  cases request with
  | lstat target => cases phase <;> exact ⟨harmless, fun _ => rfl⟩
  | openRead target =>
      cases phase with
      | published => exact absurd trivial hidden
      | opened file => exact absurd trivial hidden
      | sampled file before got => exact absurd trivial hidden
      | reread file before content => exact absurd trivial hidden
      | verified content => exact absurd trivial hidden
      | _ => exact ⟨harmless, fun _ => rfl⟩
  | fstat file =>
      cases phase with
      | opened file => exact absurd trivial hidden
      | reread file before content => exact absurd trivial hidden
      | _ => exact ⟨trivial, fun _ => rfl⟩
  | readFile file => cases phase <;> exact ⟨trivial, fun _ => rfl⟩
  | read file offset length =>
      cases phase with
      | opened file => exact absurd trivial hidden
      | sampled file before got => exact absurd trivial hidden
      | _ => exact ⟨trivial, fun _ => rfl⟩
  | syncAll file => cases phase <;> exact ⟨trivial, fun _ => rfl⟩
  | _ => exact harmless.elim

/-- A legal call goes on from the phase that its answer leads to. -/
theorem course_ask (request : Call)
    (legal : WriteCourse.Legal path bytes expected phase request)
    {post : Answer request → WriteCourse → Prop} {failed : RevisionError → WriteCourse → Prop}
    (holds : ∀ answer, post answer (phase.advance request answer)) :
    wp (WriteCourse.protocol path bytes expected).rule (ask request : Io (Answer request)) post failed
      phase :=
  ⟨legal, holds⟩

theorem tempName_tempPath (process : Process) (path : Path) (serial : Nat) :
    TempName (tempPath process path serial).name :=
  ⟨toString process.pid ++ "-" ++ toString serial, by simp [tempPath, String.append_assoc]⟩

theorem course_newTemp (process : Process) (tries : Nat) :
    wp (WriteCourse.protocol path bytes expected).rule (newTemp process path tries)
      (fun made after => after = .staged made.1 made.2 []) (fun _ after => after = .fresh)
      .fresh := by
  induction tries with
  | zero => rfl
  | succ tries ih =>
      unfold newTemp
      rw [wp_bind]
      apply course_ask .fetchAdd
      · trivial
      intro serial
      rw [wp_bind]
      apply course_ask (.createNew (tempPath process path serial) 0o666)
      · exact ⟨rfl, tempName_tempPath process path serial⟩
      intro created
      cases created with
      | ok file => rfl
      | error e =>
          cases e with
          | alreadyExists => exact ih
          | _ => rfl

theorem course_preserveMetadata (original : Option Metadata) :
    Stays (WriteCourse.protocol path bytes expected) (.staged temp file content)
      (preserveMetadata file original) := by
  cases original with
  | none => exact .pure _
  | some metadata =>
      apply Stays.bind
      · apply course_ask (.fchown file metadata.node.uid metadata.node.gid)
        · rfl
        · exact fun _ => rfl
      intro owned
      apply (Stays.ofExcept _ owned).bind
      intro _
      apply Stays.bind
      · apply course_ask (.fchmod file (metadata.node.mode % 0o10000))
        · rfl
        · exact fun _ => rfl
      · exact fun set => .ofExcept _ set

/-- A temporary file that is there, and that a refused write has to remove. -/
def WriteCourse.Holds (temp : Path) (phase : WriteCourse) : Prop :=
  (∃ file content, phase = .staged temp file content) ∨ (∃ file, phase = .spoiled temp file) ∨
    ∃ file, phase = .stuck temp file

theorem course_writeTemp (writable : Writable bytes) :
    wp (WriteCourse.protocol path bytes expected).rule (writeTemp file bytes)
      (fun _ after => after = .staged temp file bytes) (fun _ after => after.Holds temp)
      (.staged temp file []) := by
  unfold writeTemp
  rw [wp_bind]
  apply course_ask (.writeAll file bytes)
  · exact ⟨rfl, rfl, rfl, writable⟩
  intro written
  cases written with
  | ok value => rfl
  | error e => exact .inr (.inl ⟨file, rfl⟩)

theorem course_publish (writable : Writable bytes) :
    wp (WriteCourse.protocol path bytes expected).rule (publish expected temp path)
      (fun _ after => after = .published) (fun _ after => after.Holds temp)
      (.staged temp file bytes) := by
  have quiet : Indifferent (WriteCourse.protocol path bytes expected) path
      (.staged temp file bytes) := WriteCourse.indifferent id
  have holds : ∀ after, after = WriteCourse.staged temp file bytes → after.Holds temp :=
    fun _ same => .inl ⟨file, bytes, same⟩
  cases expected with
  | present revision =>
      unfold publish
      rw [wp_bind]
      apply course_ask (.rename temp path)
      · exact ⟨rfl, rfl, rfl, writable, by simp⟩
      intro renamed
      cases renamed with
      | ok value => rfl
      | error e => exact holds _ rfl
  | missing =>
      unfold publish
      rw [wp_bind]
      apply course_ask (.hardLink temp path)
      · exact ⟨rfl, rfl, rfl, writable, rfl⟩
      intro linked
      cases linked with
      | ok value =>
          dsimp only
          rw [wp_bind]
          apply course_ask (.unlink temp)
          · rfl
          intro removed
          cases removed with
          | ok value => rfl
          | error e => exact .inr (.inr ⟨file, rfl⟩)
      | error e =>
          cases e with
          | alreadyExists =>
              dsimp only
              rw [wp_bind]
              apply wp_mono (stays_checkedLstat quiet) _ fun _ => holds
              intro found after same
              rw [same]
              cases found with
              | none => exact holds _ rfl
              | some metadata =>
                  have refused : wp (WriteCourse.protocol path bytes .missing).rule
                      (missingAppearanceConflict path metadata : Io Unit)
                      (fun _ _ => False) (fun _ after => after = .staged temp file bytes)
                      (.staged temp file bytes) := by
                    unfold missingAppearanceConflict
                    split
                    · rfl
                    · rfl
                    · rw [wp_bind]
                      exact wp_mono (stays_readWithRevision quiet) (fun _ _ same => same)
                        fun _ _ same => same
                  exact wp_mono refused (fun _ _ => False.elim) fun _ => holds
          | _ => exact holds _ rfl

/-- From the temporary file to its publication. -/
theorem course_stageAndPublish (writable : Writable bytes) (original : Option Metadata) :
    wp (WriteCourse.protocol path bytes expected).rule
      (do
        preserveMetadata file original
        writeTemp file bytes
        syncTemp file
        conflictForExisting expected path
        publish expected temp path)
      (fun _ after => after = .published) (fun _ after => after.Holds temp)
      (.staged temp file []) := by
  have quiet : Indifferent (WriteCourse.protocol path bytes expected) path
      (.staged temp file bytes) := WriteCourse.indifferent id
  have holds : ∀ content after, after = WriteCourse.staged temp file content → after.Holds temp :=
    fun content _ same => .inl ⟨file, content, same⟩
  rw [wp_bind]
  apply wp_mono (course_preserveMetadata original) _ fun _ => holds []
  intro _ phase same
  rw [same, wp_bind]
  apply wp_mono (course_writeTemp writable) _ fun _ _ held => held
  intro _ phase same
  rw [same, wp_bind]
  apply wp_mono (stays_syncTemp quiet file) _ fun _ => holds bytes
  intro _ phase same
  rw [same, wp_bind]
  apply wp_mono (stays_conflictForExisting quiet expected) _ fun _ => holds bytes
  intro _ phase same
  rw [same]
  exact course_publish writable

theorem course_dropTemp (held : phase.Holds temp) :
    Program.wp (WriteCourse.protocol path bytes expected).rule (dropTemp temp)
      (fun _ after => after = .closed) phase := by
  rcases held with ⟨file, content, same⟩ | ⟨file, same⟩ | ⟨file, same⟩
  · rw [same]
    exact ⟨rfl, fun _ => rfl⟩
  · rw [same]
    exact ⟨rfl, fun _ => rfl⟩
  · rw [same]
    exact ⟨rfl, fun _ => rfl⟩

/-- All of a conditional write but its verification: `conditional_write_locked` until the file has
been published. -/
def publishLocked (process : Process) (path : Path) (bytes : Bytes)
    (expected : ExpectedRevision) : Io Unit := do
  require (decide (bytes.length ≤ maxReadBytes)) .tooLarge
  require (validUtf8 bytes) .unsupportedEncoding
  conflictForExisting expected path
  let original ← checkedLstat path
  let (temp, file) ← newTemp process path 100
  guarded
    (do
      preserveMetadata file original
      writeTemp file bytes
      syncTemp file
      conflictForExisting expected path
      publish expected temp path)
    (dropTemp temp)

/-- The verification that the published file is the one that was written. -/
def verifyPublished (path : Path) (bytes : Bytes) : Io Revision := do
  let published ← readWithRevision path
  if published.bytes = bytes then pure published.revision
  else stop (.conflict .changed (some published.revision))

/-- A conditional write is these two. -/
theorem wp_publishAndVerify {σ : Type} {rule : Rule Call Answer σ} (process : Process)
    {post : Revision → σ → Prop} {failed : RevisionError → σ → Prop} {s : σ}
    (holds : wp rule (publishLocked process path bytes expected)
      (fun _ t => wp rule (verifyPublished path bytes) post failed t) failed s) :
    wp rule (conditionalWriteLocked process path bytes expected) post failed s := by
  unfold publishLocked at holds
  unfold conditionalWriteLocked
  simp only [wp_bind] at holds ⊢
  apply wp_mono holds _ fun _ _ refused => refused
  intro _ _ holds
  apply wp_mono holds _ fun _ _ refused => refused
  intro _ _ holds
  apply wp_mono holds _ fun _ _ refused => refused
  intro _ _ holds
  apply wp_mono holds _ fun _ _ refused => refused
  intro _ _ holds
  apply wp_mono holds _ fun _ _ refused => refused
  intro made _ holds
  apply wp_mono holds _ fun _ _ refused => refused
  intro _ _ holds
  unfold verifyPublished at holds
  rw [wp_bind] at holds
  exact holds

/-- A write that is refused has made no temporary file, or has tried to remove it. -/
theorem course_publishLocked (process : Process) :
    wp (WriteCourse.protocol path bytes expected).rule (publishLocked process path bytes expected)
      (fun _ after => after = .published) (fun _ after => after = .fresh ∨ after = .closed)
      .fresh := by
  have quiet : Indifferent (WriteCourse.protocol path bytes expected) path .fresh :=
    WriteCourse.indifferent id
  unfold publishLocked
  rw [wp_bind, wp_require]
  refine ⟨fun small => ?_, fun _ => .inl rfl⟩
  rw [wp_bind, wp_require]
  refine ⟨fun valid => ?_, fun _ => .inl rfl⟩
  rw [wp_bind]
  apply wp_mono (stays_conflictForExisting quiet expected) _ fun _ _ same => .inl same
  intro _ phase same
  rw [same, wp_bind]
  apply wp_mono (stays_checkedLstat quiet) _ fun _ _ same => .inl same
  intro original phase same
  rw [same, wp_bind]
  apply wp_mono (course_newTemp process 100) _ fun _ _ same => .inl same
  intro made phase same
  rw [same, wp_guarded]
  apply wp_mono (course_stageAndPublish ⟨of_decide_eq_true small, valid⟩ original)
  · exact fun _ _ same => same
  · intro reason phase held
    exact Program.wp_mono (course_dropTemp held) fun _ _ same => .inr same

end Follows

section Verify

variable {path : Path} {bytes : Bytes} {expected : ExpectedRevision} {phase : WriteCourse}

/-- Looking at the path never ends a phase, nor does looking at a file that was read. -/
theorem course_checkedLstat :
    Stays (WriteCourse.protocol path bytes expected) phase (checkedLstat path) := by
  have looked : Stays (WriteCourse.protocol path bytes expected) phase (Sys.lstat path) := by
    apply course_ask (.lstat path)
    · cases phase <;> rfl
    · intro answer
      cases phase <;> rfl
  apply looked.bind
  intro result
  split
  · exact .pure _
  · exact .pure _
  · exact .stop _

theorem course_openChecked (visible : phase.Visible) :
    wp (WriteCourse.protocol path bytes expected).rule (openChecked path)
      (fun file after => after = .opened file) (fun _ after => after.Visible) phase := by
  have still : ∀ after, after = phase → after.Visible := fun _ same => same ▸ visible
  unfold openChecked
  rw [wp_bind]
  apply wp_mono course_checkedLstat _ fun _ => still
  intro initial after same
  rw [same]
  cases initial with
  | none => exact visible
  | some metadata =>
      dsimp only
      rw [wp_bind]
      apply wp_mono (Stays.refuseType metadata) _ fun _ => still
      intro _ after same
      rw [same, wp_bind]
      apply course_ask (.openRead path)
      · cases phase <;> rfl
      intro result
      cases result with
      | error e => cases phase <;> exact visible
      | ok file =>
          cases phase with
          | published => rfl
          | opened other => rfl
          | sampled other before got => rfl
          | reread other before content => rfl
          | verified content => rfl
          | _ => exact visible.elim

/-- A file that was opened and found to be an ordinary one is sampled. -/
theorem course_sample {file : Inode} {before : Metadata} (plain : finalType before = none) :
    WriteCourse.advance (.opened file) (.fstat file) (.ok before) = .sampled file before [] :=
  if_pos ⟨rfl, plain⟩

/-- The file is read to its end, or for as many bytes as were asked for. -/
theorem course_readOn {file : Inode} {before : Metadata} (fuel limit : Nat) (enough : limit ≤ fuel)
    (got : Bytes) :
    wp (WriteCourse.protocol path bytes expected).rule (readOn file fuel got.length limit)
      (fun result after => after.Visible ∧ ∀ read, result = .ok read →
        limit ≤ read.length ∨ after = .reread file before (got ++ read))
      (fun _ after => after.Visible) (.sampled file before got) := by
  induction fuel generalizing limit got with
  | zero =>
      refine ⟨trivial, fun read _ => .inl ?_⟩
      omega
  | succ fuel ih =>
      simp only [readOn, wp_ite]
      refine ⟨fun none => ⟨trivial, fun read _ => .inl (by omega)⟩, fun some => ?_⟩
      rw [wp_bind]
      apply course_ask (.read file got.length limit)
      · exact ⟨rfl, rfl, Nat.pos_of_ne_zero some⟩
      intro (chunk : Except OsError Bytes)
      cases chunk with
      | error e =>
          refine ⟨trivial, fun read failed => ?_⟩
          cases failed
      | ok chunk =>
          by_cases ended : chunk = []
          · rw [ended]
            refine ⟨trivial, fun read nothing => .inr ?_⟩
            rw [← Except.ok.inj nothing, List.append_nil]
            rfl
          · have next : WriteCourse.advance (.sampled file before got)
                (.read file got.length limit) (.ok chunk) = .sampled file before (got ++ chunk) :=
              if_neg ended
            obtain ⟨first, more, chunk_eq⟩ := List.exists_cons_of_ne_nil ended
            have longer : 1 ≤ chunk.length := by
              rw [chunk_eq, List.length_cons]
              omega
            rw [next, chunk_eq]
            simp only [wp_bind, wp_pure]
            rw [← chunk_eq, ← List.length_append]
            apply wp_mono (ih (limit - chunk.length) (by omega) (got ++ chunk)) _
              fun _ _ visible => visible
            intro result after read
            refine ⟨read.1, fun whole joined => ?_⟩
            cases result with
            | error e => cases joined
            | ok rest =>
                have whole_eq : chunk ++ rest = whole := Except.ok.inj joined
                rw [← whole_eq, List.length_append, ← List.append_assoc]
                exact (read.2 rest rfl).imp (fun _ => by omega) id

/-- A read that succeeds returns what was read between two samples that are equal. -/
theorem course_readAttempt (visible : phase.Visible) :
    wp (WriteCourse.protocol path bytes expected).rule (readAttempt path)
      (fun read after => after.Visible ∧ ∀ found, read = some found → after = .verified found.bytes)
      (fun _ after => after.Visible) phase := by
  unfold readAttempt
  rw [wp_bind]
  apply wp_mono (course_openChecked visible) _ fun _ _ refused => refused
  intro file after same
  rw [same, wp_bind]
  apply course_ask (.fstat file)
  · trivial
  intro (sampled : Except OsError Metadata)
  rw [wp_bind, wp_ofExcept]
  refine ⟨fun before answered => ?_, fun e answered => answered ▸ trivial⟩
  rw [answered, wp_bind, wp_refuseType]
  have seen : (WriteCourse.advance (.opened file) (.fstat file) (.ok before)).Visible := by
    show (if file = file ∧ finalType before = none then WriteCourse.sampled file before []
      else .opened file).Visible
    split <;> trivial
  refine ⟨fun plain => ?_, fun _ _ => seen⟩
  rw [course_sample plain, wp_bind, wp_require]
  refine ⟨fun _ => ?_, fun _ => trivial⟩
  rw [wp_bind]
  apply wp_mono (course_readOn _ _ (Nat.le_refl (maxReadBytes + 1)) []) _ fun _ _ visible => visible
  intro result after read
  rw [wp_bind, wp_ofExcept]
  refine ⟨fun content result_eq => ?_, fun _ _ => read.1⟩
  rw [wp_bind, wp_require]
  refine ⟨fun small => ?_, fun _ => read.1⟩
  have ended : after = .reread file before content := by
    rcases read.2 content result_eq with long | ended
    · have short := of_decide_eq_true small
      omega
    · exact ended
  rw [ended, wp_bind]
  apply course_ask (.fstat file)
  · trivial
  intro (resampled : Except OsError Metadata)
  rw [wp_bind, wp_ofExcept]
  refine ⟨fun again answered => ?_, fun e answered => answered ▸ trivial⟩
  rw [answered, wp_bind, wp_refuseType]
  have seen : (WriteCourse.advance (.reread file before content) (.fstat file) (.ok again)).Visible := by
    show (if file = file ∧ metadataEqual before again = true then WriteCourse.verified content
      else .reread file before content).Visible
    split <;> trivial
  refine ⟨fun _ => ?_, fun _ _ => seen⟩
  rw [wp_ite]
  constructor
  · intro equal
    have verified : WriteCourse.advance (.reread file before content) (.fstat file) (.ok again) =
        .verified content := if_pos ⟨rfl, equal⟩
    rw [wp_bind, wp_require]
    refine ⟨fun _ => ⟨seen, ?_⟩, fun _ => seen⟩
    intro found returned
    rw [verified, ← Option.some.inj returned]
  · intro _
    refine ⟨seen, ?_⟩
    intro _ nothing
    cases nothing

theorem course_readAttempts (attempts : Nat) (visible : phase.Visible) :
    wp (WriteCourse.protocol path bytes expected).rule (readAttempts path attempts)
      (fun read after => after = .verified read.bytes) (fun _ after => after.Visible) phase := by
  induction attempts generalizing phase with
  | zero => exact visible
  | succ attempts ih =>
      unfold readAttempts
      rw [wp_bind]
      apply wp_mono (course_readAttempt visible) _ fun _ _ refused => refused
      intro read after ended
      cases read with
      | none => exact ih ended.1
      | some found => exact ended.2 found rfl

theorem course_verifyPublished (visible : phase.Visible) :
    wp (WriteCourse.protocol path bytes expected).rule (verifyPublished path bytes)
      (fun _ after => after = .verified bytes) (fun _ after => after.Visible) phase := by
  unfold verifyPublished
  rw [wp_bind]
  apply wp_mono (course_readAttempts readLimit visible) _ fun _ _ refused => refused
  intro read after same
  rw [wp_ite, same]
  refine ⟨fun equal => ?_, fun _ => trivial⟩
  rw [wp_pure, equal]

/-- A write that succeeds has read its own bytes back. One that fails has published its file, or has
no temporary file left. -/
theorem course_conditionalWriteLocked (process : Process) :
    wp (WriteCourse.protocol path bytes expected).rule
      (conditionalWriteLocked process path bytes expected)
      (fun _ after => after = .verified bytes)
      (fun _ after => after = .fresh ∨ after = .closed ∨ after.Visible) .fresh := by
  apply wp_publishAndVerify
  apply wp_mono (course_publishLocked process)
  case weakenFailed =>
    intro _ after early
    rcases early with fresh | closed
    · exact .inl fresh
    · exact .inr (.inl closed)
  intro _ after same
  rw [same]
  exact wp_mono (course_verifyPublished trivial) (fun _ _ ended => ended)
    fun _ _ visible => .inr (.inr visible)

end Verify

end EmacsRelay

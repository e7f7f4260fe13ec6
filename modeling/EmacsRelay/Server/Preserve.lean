import EmacsRelay.Server.Linear
import EmacsRelay.Server.Read
import EmacsRelay.Server.Vacant

set_option autoImplicit false

/- What a conditional write keeps of the file that it replaces: owner, group and mode. -/
namespace EmacsRelay

open Trial

/-- The system for a process that has, or has not, the privilege to keep the set-id bits of a file
it writes to. `fchown` may clear them in either case. -/
def Host.posix (process : Process) (keeps : Bool) : Kernel Call Answer Host :=
  (Host.kernel process).restrict fun request choice _ =>
    ∀ file bytes, request = .writeAll file bytes → choice.dropSetId = !keeps

/-- The set-user-id bit or the set-group-id bit. -/
def SetId (mode : Nat) : Prop := mode.testBit 11 = true ∨ mode.testBit 10 = true

instance (mode : Nat) : Decidable (SetId mode) := inferInstanceAs (Decidable (_ ∨ _))

/-- The mode of a file that was given this one and then written to. -/
def modeWritten (keeps : Bool) (mode : Nat) : Nat :=
  if keeps then mode % 0o10000 else mode % 0o10000 &&& 0o1777

theorem modeWritten_eq_iff (keeps : Bool) (mode : Nat) :
    modeWritten keeps mode = mode % 0o10000 ↔ keeps = true ∨ ¬ SetId mode := by
  cases keeps with
  | true => simp [modeWritten]
  | false =>
      have low : mode % 0o10000 &&& 0o1777 = mode % 0o10000 % 0o2000 :=
        Nat.and_two_pow_sub_one_eq_mod (mode % 0o10000) 10
      have user : mode.testBit 11 = decide (mode / 0o4000 % 2 = 1) :=
        Nat.testBit_eq_decide_div_mod_eq
      have group : mode.testBit 10 = decide (mode / 0o2000 % 2 = 1) :=
        Nat.testBit_eq_decide_div_mod_eq
      simp only [modeWritten, SetId, low, user, group, Bool.false_eq_true, if_false, false_or,
        decide_eq_true_eq]
      omega

/-- A file like the original one, but for its bytes and its mode. -/
structure Kin (original : Metadata) (bytes : Bytes) (mode : Nat) (node : Node) : Prop where
  kind : node.kind = .file bytes
  single : node.nlink = 1
  uid : node.uid = original.node.uid
  gid : node.gid = original.node.gid
  mode : node.mode = mode

section Steps

variable {process : Process} {keeps : Bool} {h : Host} {d : Disk} {dir file : Inode} {name : String}
  {node : Node} {original : Metadata} {bytes : Bytes}

/-- Owner, group and mode of the temporary file become those of the original. -/
theorem posix_preserveMetadata (staged : Disk.Staged d h.disk dir name file node)
    (kind : node.kind = .file []) (single : node.nlink = 1) :
    wp (Host.posix process keeps) (preserveMetadata file (some original))
      (fun _ h' => ∃ kin, Disk.Staged d h'.disk dir name file kin ∧
        Kin original [] (original.node.mode % 0o10000) kin) (fun _ _ => True) h := by
  simp only [preserveMetadata, wp_bind]
  intro choice _ choice' _
  exact ⟨_, (staged.modify _).modify _, kind, single, rfl, rfl, rfl⟩

/-- The bytes are written last, and may cost the file its set-id bits. -/
theorem posix_writeTemp (staged : Disk.Staged d h.disk dir name file node)
    (kin : Kin original [] (original.node.mode % 0o10000) node) (some : bytes ≠ []) :
    wp (Host.posix process keeps) (writeTemp file bytes)
      (fun _ h' => ∃ kin, Disk.Staged d h'.disk dir name file kin ∧
        Kin original bytes (modeWritten keeps original.node.mode) kin) (fun _ _ => True) h := by
  simp only [writeTemp, wp_bind]
  intro choice allowed
  have drops : choice.dropSetId = !keeps := allowed.2 file bytes rfl
  show ∃ kin, Disk.Staged d (h.disk.writeAll choice file bytes) dir name file kin ∧ _
  unfold Disk.writeAll
  rw [if_neg some]
  refine ⟨_, staged.modify _, ?_⟩
  rw [kin.kind]
  refine ⟨rfl, kin.single, kin.uid, kin.gid, ?_⟩
  show Disk.dropSetIdBits choice node.mode = modeWritten keeps original.node.mode
  rw [kin.mode]
  unfold Disk.dropSetIdBits
  rw [drops]
  cases keeps <;> rfl

/-- A comparison that succeeds has found what was expected, and changed nothing. -/
theorem posix_conflictForExisting (expected : ExpectedRevision) (path : Path) :
    wp (Host.posix process keeps) (conflictForExisting expected path)
      (fun _ h' => h' = h ∧ h.disk.Meets path expected) (fun _ _ => True) h := by
  apply Program.wp_restrict
  apply (wp_conflictForExisting expected path _).mpr
  cases compared : h.disk.conflictAt expected path with
  | ok value => exact ⟨rfl, (conflictAt_ok expected).mp compared⟩
  | error e => trivial

end Steps

/-- What a write that replaced a file left behind. -/
structure Successor (original : Metadata) (path : Path) (bytes : Bytes) (mode : Nat)
    (revision : Revision) (d : Disk) : Prop where
  found : ∃ after, d.lstat path = .ok after ∧ Kin original bytes mode after.node
  read : d.revisionAt path = .ok ⟨bytes, revision⟩

section Replacement

variable {process : Process} {keeps : Bool} {h : Host} {path : Path} {original : Metadata}
  {bytes : Bytes}

theorem directoryOf_of_lstat {d : Disk} (found : d.lstat path = .ok original) :
    ∃ dir, d.directoryOf path = .ok dir ∧ d.entry dir path.name = some original.inode := by
  have there := (lstat_ok found).1
  unfold Disk.find at there
  cases here : d.directoryOf path with
  | error e =>
      rw [here] at there
      cases there
  | ok dir =>
      rw [here] at there
      dsimp only at there
      refine ⟨dir, rfl, ?_⟩
      cases entry : d.entry dir path.name with
      | none =>
          rw [entry] at there
          cases there
      | some inode =>
          rw [entry] at there
          exact congrArg some (Except.ok.inj there)

/-- From the temporary file to its publication over the original. -/
theorem posix_stageAndPublish {d : Disk} {temp : Path} {dir file : Inode} {content : Bytes}
    (pending : TempFile d path temp dir file [] h.disk)
    (there : d.entry dir path.name = some original.inode)
    (plain : d.kindOf original.inode = some (.file content)) (some : bytes ≠ [])
    (revision : Revision) :
    wp (Host.posix process keeps)
      (do
        preserveMetadata file (Option.some original)
        writeTemp file bytes
        syncTemp file
        conflictForExisting (.present revision) path
        publish (.present revision) temp path)
      (fun _ h' => ∃ node now, Disk.Published d h'.disk dir path.name file node now ∧
        Kin original bytes (modeWritten keeps original.node.mode) node) (fun _ _ => True) h := by
  obtain ⟨node, staged, kind, single⟩ := pending.staged
  rw [wp_bind]
  apply wp_mono (posix_preserveMetadata staged kind single) _ fun _ _ _ => trivial
  intro _ h preserved
  obtain ⟨node, staged, kin⟩ := preserved
  rw [wp_bind]
  apply wp_mono (posix_writeTemp staged kin some) _ fun _ _ _ => trivial
  intro _ h written
  obtain ⟨node, staged, kin⟩ := written
  rw [wp_bind]
  have synced : wp (Host.posix process keeps) (syncTemp file) (fun _ h' => h' = h)
      (fun _ _ => True) h := Program.wp_restrict ((wp_syncTemp file _).mpr rfl)
  apply wp_mono synced _ fun _ _ _ => trivial
  intro _ h' same
  rw [same, wp_bind]
  apply wp_mono (posix_conflictForExisting (.present revision) path) _ fun _ _ _ => trivial
  intro _ h' compared
  rw [compared.1]
  have published : wp (Host.posix process keeps) (publish (.present revision) temp path)
      (fun _ h' => ∃ now, Disk.Published d h'.disk dir path.name file
        { node with ctime := now } now) (fun _ _ => True) h :=
    Program.wp_restrict (wp_publish_staged staged pending.here pending.beside pending.device kin.kind
      there plain revision)
  apply wp_mono published _ fun _ _ _ => trivial
  intro _ h' landed
  obtain ⟨now, published⟩ := landed
  exact ⟨_, now, published, kin.kind, kin.single, kin.uid, kin.gid, kin.mode⟩

theorem posix_conditionalWriteLocked (found : h.disk.lstat path = .ok original)
    (some : bytes ≠ []) (expected : Revision) :
    wp (Host.posix process keeps) (conditionalWriteLocked process path bytes (.present expected))
      (fun revision h' => Successor original path bytes (modeWritten keeps original.node.mode)
        revision h'.disk) (fun _ _ => True) h := by
  unfold conditionalWriteLocked
  rw [wp_bind, wp_require]
  refine ⟨fun small => ?_, fun _ => trivial⟩
  rw [wp_bind, wp_require]
  refine ⟨fun valid => ?_, fun _ => trivial⟩
  rw [wp_bind]
  apply wp_mono (posix_conflictForExisting (.present expected) path) _ fun _ _ _ => trivial
  intro _ h' compared
  obtain ⟨same, meets⟩ := compared
  rw [same, wp_bind]
  have looked : wp (Host.posix process keeps) (checkedLstat path)
      (fun sampled h' => sampled = Option.some original ∧ h' = h) (fun _ _ => True) h := by
    apply Program.wp_restrict
    apply (wp_checkedLstat path _).mpr
    rw [found]
    exact ⟨rfl, rfl⟩
  apply wp_mono looked _ fun _ _ _ => trivial
  intro sampled h' looked
  rw [looked.1, looked.2, wp_bind]
  obtain ⟨dir, here, there⟩ := directoryOf_of_lstat found
  obtain ⟨old, content, entry, isFile⟩ := entry_of_meets_present here meets
  have plain : h.disk.kindOf original.inode = Option.some (.file content) := by
    rw [there] at entry
    rw [Option.some.inj entry]
    exact isFile
  have made : wp (Host.posix process keeps) (newTemp process path 100)
      (fun made h' => TempFile h.disk path made.1 dir made.2 [] h'.disk) (fun _ _ => True) h := by
    apply Program.wp_restrict
    exact wp_mono (wp_newTemp here 100 _ rfl rfl) (fun _ _ made => made.2) fun _ _ _ => trivial
  apply wp_mono made _ fun _ _ _ => trivial
  intro pair h' pending
  rw [wp_bind, wp_guarded]
  apply wp_mono (posix_stageAndPublish pending there plain some expected) _ fun _ h' _ =>
    Program.wp_mono (Program.wp_true (dropTemp pair.1) h') fun _ _ _ => trivial
  intro _ h' landed
  obtain ⟨node, now, published, kin⟩ := landed
  have ordinary : ∀ old, h.disk.entry dir path.name = Option.some old →
      ∃ content, h.disk.kindOf old = Option.some (.file content) := by
    intro old entry
    rw [there] at entry
    exact ⟨content, Option.some.inj entry ▸ plain⟩
  have read := published.revisionAt here ordinary kin.kind kin.single (of_decide_eq_true small) valid
  have reread : wp (Host.posix process keeps) (readWithRevision path)
      (fun read h'' => h'' = h' ∧ h'.disk.revisionAt path = .ok read) (fun _ _ => True) h' := by
    apply Program.wp_restrict
    apply (wp_readWithRevision path _).mpr
    rw [read]
    exact ⟨rfl, rfl⟩
  rw [wp_bind]
  apply wp_mono reread _ fun _ _ _ => trivial
  intro result h'' same
  rw [wp_ite]
  refine ⟨fun bytes_eq => ?_, fun _ => trivial⟩
  rw [wp_pure, same.1]
  refine ⟨⟨_, published.lstat here ordinary, kin⟩, ?_⟩
  rw [same.2, ← bytes_eq]

end Replacement

theorem modeWritten_mod (keeps : Bool) (mode : Nat) :
    modeWritten keeps mode % 0o10000 = modeWritten keeps mode := by
  cases keeps with
  | true => exact Nat.mod_mod mode 0o10000
  | false =>
      have low : mode % 0o10000 &&& 0o1777 = mode % 0o10000 % 0o2000 :=
        Nat.and_two_pow_sub_one_eq_mod (mode % 0o10000) 10
      simp only [modeWritten, low, Bool.false_eq_true, if_false]
      omega

/-- A replacement keeps the original's owner and mode, unless it has set-id bits and the process may
not keep them: they are restored before the bytes are written, and not again. -/
theorem replacement_preserves_iff (process : Process) (keeps : Bool) (h t : Host) (path : Path)
    (original : Metadata) (bytes : Bytes) (expected revision : Revision)
    (found : h.disk.lstat path = .ok original) (nonempty : bytes ≠ [])
    (run : Program.Executes (Host.posix process keeps)
      (conditionalWriteLocked process path bytes (.present expected)) h (.ok revision) t) :
    (∃ after, t.disk.lstat path = .ok after ∧ after.node.kind = .file bytes ∧
      after.node.uid = original.node.uid ∧ after.node.gid = original.node.gid ∧
      after.node.mode % 0o10000 = original.node.mode % 0o10000 ∧
      ∀ result u, Program.Executes (Host.kernel process) (readWithRevision path) t result u →
        result = .ok ⟨bytes, revision⟩) ↔
    keeps = true ∨ ¬ SetId original.node.mode := by
  have written : wp (Host.posix process keeps)
      (conditionalWriteLocked process path bytes (.present expected))
      (fun revision h' => Successor original path bytes (modeWritten keeps original.node.mode)
        revision h'.disk) (fun _ _ => True) h :=
    posix_conditionalWriteLocked found nonempty expected
  have replaced := Program.wp_executes written run
  obtain ⟨after, there, kin⟩ := replaced.found
  rw [← modeWritten_eq_iff keeps original.node.mode]
  constructor
  · intro preserved
    obtain ⟨other, again, _, _, _, mode, _⟩ := preserved
    rw [there] at again
    rw [← Except.ok.inj again, kin.mode, modeWritten_mod] at mode
    exact mode
  · intro mode
    refine ⟨after, there, kin.kind, kin.uid, kin.gid, ?_, ?_⟩
    · rw [kin.mode, modeWritten_mod]
      exact mode
    · intro result u reread
      have same : wp (Host.kernel process) (readWithRevision path)
          (fun read _ => read = ⟨bytes, revision⟩) (fun _ _ => False) t := by
        apply (wp_readWithRevision path _).mpr
        rw [replaced.read]
        rfl
      have read := Program.wp_executes same reread
      cases result with
      | ok value => exact congrArg Except.ok read
      | error reason => exact read.elim

section Sample

variable {process : Process} {program : Program Call Answer (Except RevisionError Revision)}
  {h : Host}

/-- A run in which every write drops the set-id bits, or none does. -/
theorem posix_executes {keeps : Bool} {choices : List (Host.kernel process).Input}
    {value : Except RevisionError Revision}
    (drops : ∀ choice ∈ choices, choice.dropSetId = !keeps)
    (permitted : Program.Permits (Host.kernel process) choices program h)
    (ended : (Program.advance (Host.kernel process) choices program h).1 = .done value) :
    Program.Executes (Host.posix process keeps) program h value
      (Program.advance (Host.kernel process) choices program h).2 := by
  have posix : Program.Permits (Host.posix process keeps) choices program h :=
    Program.permits_restrict (fun choice member _ _ _ _ _ => drops choice member) permitted
  rw [← Program.advance_restrict] at ended ⊢
  exact Program.executes_of_advance posix ended

/-- The mode of the file `f` when a write has succeeded. -/
def modeAfter (ended : Program Call Answer (Except RevisionError Revision) × Host) : Option Nat :=
  match ended.1, ended.2.disk.lstat ⟨[], "f"⟩ with
  | .done (.ok _), .ok after => some after.node.mode
  | _, _ => none

theorem executes_of_modeAfter (choices : List (Host.kernel process).Input) {after : Nat}
    (drops : ∀ choice ∈ choices, choice.dropSetId = true)
    (permitted : Program.Permits (Host.kernel process) choices program h)
    (ends : modeAfter (Program.advance (Host.kernel process) choices program h) = some after) :
    ∃ revision t metadata, Program.Executes (Host.posix process false) program h (.ok revision) t ∧
      t.disk.lstat ⟨[], "f"⟩ = .ok metadata ∧ metadata.node.mode = after := by
  unfold modeAfter at ends
  split at ends
  · rename_i revision metadata finished found
    exact ⟨revision, _, metadata, posix_executes drops permitted finished, found,
      Option.some.inj ends⟩
  · cases ends

end Sample

/-- The sample file, with these mode bits. -/
def withMode (mode : Nat) : Host :=
  ⟨sampleDisk.setNode ⟨1, 10⟩ { sampleNode with mode := mode }, fun _ => 0⟩

def rewriting (mode : Nat) : Io Revision :=
  conditionalWriteLocked sampleProcess ⟨[], "f"⟩ [98]
    (.present (.fromMetadata ⟨⟨1, 10⟩, { sampleNode with mode := mode }⟩ (sha256 [97])))

/-- Every write drops the set-id bits. -/
@[irreducible] def dropping : List KernelChoice :=
  (List.range 28).map fun i => ⟨⟨9, 0⟩, 11 + i, true, 4096⟩

theorem permits_rewriting (mode : Nat) :
    (∀ choice ∈ dropping, choice.dropSetId = true) ∧
      Program.Permits (Host.kernel sampleProcess) dropping (rewriting mode) (withMode mode) := by
  have numbers : numberedFrom 11 dropping = true := by decide +kernel
  have vacant : (withMode mode).disk.Vacant 11 := fun _ _ more => sampleDisk_free (by omega)
  constructor
  · decide +kernel
  · unfold rewriting
    generalize Revision.fromMetadata _ _ = expected
    exact permits_of_numbered numbers
      (follows_conditionalWriteLocked sampleProcess [98] expected) vacant

theorem executes_rewriting {mode after : Nat}
    (ends : modeAfter (Program.advance (Host.kernel sampleProcess) dropping (rewriting mode)
      (withMode mode)) = some after) :
    ∃ revision t metadata, Program.Executes (Host.posix sampleProcess false) (rewriting mode)
        (withMode mode) (.ok revision) t ∧
      t.disk.lstat ⟨[], "f"⟩ = .ok metadata ∧ metadata.node.mode = after := by
  obtain ⟨drops, permitted⟩ := permits_rewriting mode
  exact executes_of_modeAfter dropping drops permitted ends

/-- A set-user-id program of the user's own that is edited. -/
theorem setuid_lost :
    ¬ ∀ (process : Process) (keeps : Bool) (h t : Host) (path : Path) (original : Metadata)
      (bytes : Bytes) (expected revision : Revision), h.disk.lstat path = .ok original →
      bytes ≠ [] → Program.Executes (Host.posix process keeps)
        (conditionalWriteLocked process path bytes (.present expected)) h (.ok revision) t →
      ∃ after, t.disk.lstat path = .ok after ∧
        after.node.mode % 0o10000 = original.node.mode % 0o10000 := by
  intro preserved
  have ends : modeAfter (Program.advance (Host.kernel sampleProcess) dropping (rewriting 0o4755)
      (withMode 0o4755)) = some 0o755 := by decide +kernel
  obtain ⟨revision, t, metadata, run, found, mode⟩ :=
    executes_rewriting ends
  obtain ⟨after, again, same⟩ := preserved _ _ _ _ _ _ _ _ _ rfl (by decide) run
  rw [found] at again
  rw [← Except.ok.inj again, mode] at same
  exact absurd same (by decide)

/-- An ordinary file that is edited. -/
theorem replacement_preserves_iff_ordinary :
    ∃ revision t, Program.Executes (Host.posix sampleProcess false) (rewriting 0o644)
        (withMode 0o644) (.ok revision) t ∧
      ∃ after, t.disk.lstat ⟨[], "f"⟩ = .ok after ∧ after.node.kind = .file [98] ∧
        after.node.uid = 1000 ∧ after.node.gid = 1000 ∧ after.node.mode % 0o10000 = 0o644 ∧
        ∀ result u, Program.Executes (Host.kernel sampleProcess) (readWithRevision ⟨[], "f"⟩) t result u →
          result = .ok ⟨[98], revision⟩ := by
  have ends : modeAfter (Program.advance (Host.kernel sampleProcess) dropping (rewriting 0o644)
      (withMode 0o644)) = some 0o644 := by decide +kernel
  obtain ⟨revision, t, _, run, _, _⟩ :=
    executes_rewriting ends
  exact ⟨revision, t, run, (replacement_preserves_iff sampleProcess false _ t ⟨[], "f"⟩
    ⟨⟨1, 10⟩, { sampleNode with mode := 0o644 }⟩ [98] _ revision rfl (by decide) run).mpr
      (.inr (by decide))⟩

end EmacsRelay

import EmacsRelay.Server.Atomic
import EmacsRelay.Server.Creation

set_option autoImplicit false

/- Requests carried out while others change the file system. A conditional write is left alone from
its second check to its publication only, and then publishes over nothing but what it expects. -/
namespace EmacsRelay

open Trial

/-- A request under way: the host, whether its temporary file is flushed and not yet published, and
the disk it was published on. The second check of a conditional write begins after the flush. -/
structure Underway where
  host : Host
  flushed : Bool := false
  published : Option Disk := none

/-- What others did since the call before, and what the kernel chooses. -/
structure Disturbance where
  change : Option Host := none
  choice : KernelChoice

namespace Underway

def found (s : Underway) (input : Disturbance) : Host := input.change.getD s.host

def flushedAfter (flushed : Bool) : Call → Bool
  | .syncAll _ => true
  | .rename _ _ => false
  | .hardLink _ _ => false
  | _ => flushed

def publishedAfter (published : Option Disk) (found : Disk) :
    (request : Call) → Answer request → Option Disk
  | .rename _ _, .ok _ => some found
  | .hardLink _ _, .ok _ => some found
  | _, _ => published

/-- The system as a request for `path` meets it. Nobody else touches the file at `path` between the
flush and the publication. -/
def kernel (process : Process) (path : Path) : Kernel Call Answer Underway where
  Input := Disturbance
  allowed request input s :=
    Host.Allows request input.choice (s.found input) ∧
      (s.flushed = true → (s.found input).disk.lstat path = s.host.disk.lstat path)
  exec request input s :=
    let result := Host.exec process request input.choice (s.found input)
    (result.1,
      { host := result.2
        flushed := flushedAfter s.flushed request
        published := publishedAfter s.published (s.found input).disk request result.1 })

/-- The write was published over what it expected, if at all. -/
def Clear (path : Path) (expected : ExpectedRevision) (s : Underway) : Prop :=
  ∀ d, s.published = some d → d.Meets path expected

end Underway

section Digest

/-- A revision is that of the bytes it is returned with, whatever happens during the read. -/
theorem readAttempt_digest (target : Path) :
    wp AnyHost (readAttempt target)
      (fun read _ => ∀ found, read = some found → found.revision.sha256 = sha256 found.bytes)
      (fun _ _ => True) () := by
  apply wp_bind_any
  intro file s
  apply wp_bind_any
  intro sampled s
  apply wp_bind_any
  intro before s
  apply wp_bind_any
  intro _ s
  apply wp_bind_any
  intro _ s
  apply wp_bind_any
  intro content s
  apply wp_bind_any
  intro content s
  apply wp_bind_any
  intro _ s
  apply wp_bind_any
  intro sampled s
  apply wp_bind_any
  intro after s
  apply wp_bind_any
  intro _ s
  rw [wp_ite]
  constructor
  · intro _
    apply wp_bind_any
    intro _ s found same
    rw [← Option.some.inj same]
    rfl
  · intro _ found same
    cases same

theorem readAttempts_digest (target : Path) (attempts : Nat) :
    wp AnyHost (readAttempts target attempts)
      (fun read _ => read.revision.sha256 = sha256 read.bytes) (fun _ _ => True) () := by
  induction attempts with
  | zero => trivial
  | succ attempts ih =>
      unfold readAttempts
      rw [wp_bind]
      apply wp_mono (readAttempt_digest target) _ fun _ _ _ => trivial
      intro read t digest
      cases read with
      | none => exact ih
      | some found => exact digest found rfl

theorem readWithRevision_digest (target : Path) :
    wp AnyHost (readWithRevision target)
      (fun read _ => read.revision.sha256 = sha256 read.bytes) (fun _ _ => True) () :=
  readAttempts_digest target readLimit

/-- A write is acknowledged with a revision of its own bytes. -/
theorem conditionalWriteLocked_digest (process : Process) (path : Path) (bytes : Bytes)
    (expected : ExpectedRevision) :
    wp AnyHost (conditionalWriteLocked process path bytes expected)
      (fun revision _ => revision.sha256 = sha256 bytes) (fun _ _ => True) () := by
  apply wp_bind_any
  intro _ s
  apply wp_bind_any
  intro _ s
  apply wp_bind_any
  intro _ s
  apply wp_bind_any
  intro original s
  apply wp_bind_any
  intro temp s
  apply wp_bind_any
  intro _ s
  rw [wp_bind]
  apply wp_mono (readWithRevision_digest path) _ fun _ _ _ => trivial
  intro published t digest
  rw [wp_ite]
  constructor
  · intro same
    rw [← same]
    exact digest
  · exact fun _ => trivial

end Digest

section Clear

variable {process : Process} {path : Path} {expected : ExpectedRevision}

/-- A program after each of whose calls nothing was published that was not expected. -/
abbrev KeepsClear (process : Process) (path : Path) (expected : ExpectedRevision) {α : Type}
    (body : Io α) : Prop :=
  Maintains (Underway.kernel process path) (Underway.Clear path expected) body

/-- A call that publishes nothing. -/
theorem keepsClear_ask (request : Call)
    (silent : ∀ published d answer,
      Underway.publishedAfter published d request answer = published) :
    KeepsClear process path expected (ask request) := by
  apply Maintains.perform
  intro input s clear _ d published
  apply clear d
  rw [← published]
  exact (silent _ _ _).symm

theorem keepsClear_require (test : Bool) (reason : RevisionError) :
    KeepsClear process path expected (require test reason) := by
  cases test with
  | true => exact .pure ()
  | false => exact .stop reason

theorem keepsClear_refuseType (metadata : Metadata) :
    KeepsClear process path expected (refuseType metadata) := by
  unfold refuseType
  cases finalType metadata with
  | none => exact .pure ()
  | some kind => exact .stop _

theorem keepsClear_checkedLstat (target : Path) :
    KeepsClear process path expected (checkedLstat target) := by
  apply (keepsClear_ask (.lstat target) fun _ _ _ => rfl).bind
  intro result
  cases result with
  | ok metadata => exact .pure _
  | error e =>
      cases e with
      | notFound => exact .pure _
      | _ => exact .stop _

theorem keepsClear_openChecked (target : Path) :
    KeepsClear process path expected (openChecked target) := by
  apply (keepsClear_checkedLstat target).bind
  intro initial
  cases initial with
  | none => exact .stop _
  | some metadata =>
      apply (keepsClear_refuseType metadata).bind
      intro _
      apply (keepsClear_ask (.openRead target) fun _ _ _ => rfl).bind
      exact fun opened => .ofExcept _ opened

theorem keepsClear_readToEnd (file : Inode) (offset limit : Nat) :
    KeepsClear process path expected (readToEnd file offset limit) := by
  apply readOn_all
  · exact fun result => .pure result
  · exact fun offset limit next rest =>
      (keepsClear_ask (.read file offset limit) fun _ _ _ => rfl).bind rest
  · exact fun body join rest => rest.bind fun result => .pure (join result)

theorem keepsClear_readAttempt (target : Path) :
    KeepsClear process path expected (readAttempt target) := by
  apply (keepsClear_openChecked target).bind
  intro file
  have sample : KeepsClear process path expected (Sys.fstat file) :=
    keepsClear_ask (.fstat file) fun _ _ _ => rfl
  apply sample.bind
  intro sampled
  apply (Maintains.ofExcept _ sampled).bind
  intro before
  apply (keepsClear_refuseType before).bind
  intro _
  apply (keepsClear_require _ _).bind
  intro _
  apply (keepsClear_readToEnd file 0 (maxReadBytes + 1)).bind
  intro content
  apply (Maintains.ofExcept _ content).bind
  intro content
  apply (keepsClear_require _ _).bind
  intro _
  apply sample.bind
  intro sampled
  apply (Maintains.ofExcept _ sampled).bind
  intro after
  apply (keepsClear_refuseType after).bind
  intro _
  apply Maintains.ite
  · apply (keepsClear_require _ _).bind
    exact fun _ => .pure _
  · exact .pure _

theorem keepsClear_readWithRevision (target : Path) :
    KeepsClear process path expected (readWithRevision target) := by
  have attempted : ∀ attempts, KeepsClear process path expected (readAttempts target attempts) := by
    intro attempts
    induction attempts with
    | zero => exact .stop _
    | succ attempts ih =>
        apply (keepsClear_readAttempt target).bind
        intro read
        cases read with
        | some read => exact .pure read
        | none => exact ih
  exact attempted readLimit

theorem keepsClear_missingAppearanceConflict {α : Type} (target : Path) (metadata : Metadata) :
    KeepsClear process path expected
      (missingAppearanceConflict target metadata : Io α) := by
  unfold missingAppearanceConflict
  split
  · exact .stop _
  · exact .stop _
  · apply (keepsClear_readWithRevision target).bind
    exact fun current => .stop _

theorem keepsClear_conflictForExisting (other : ExpectedRevision) (target : Path) :
    KeepsClear process path expected (conflictForExisting other target) := by
  cases other with
  | missing =>
      apply (keepsClear_checkedLstat target).bind
      intro found
      cases found with
      | none => exact .pure ()
      | some metadata => exact keepsClear_missingAppearanceConflict target metadata
  | present revision =>
      apply (keepsClear_require _ _).bind
      intro _
      apply (keepsClear_checkedLstat target).bind
      intro found
      cases found with
      | none => exact .stop _
      | some metadata =>
          dsimp only
          split
          · exact .stop _
          · exact .stop _
          · apply (keepsClear_readWithRevision target).bind
            intro current
            exact .ite (.pure ()) (.stop _)

theorem keepsClear_newTemp (target : Path) (tries : Nat) :
    KeepsClear process path expected (newTemp process target tries) := by
  induction tries with
  | zero => exact .stop _
  | succ tries ih =>
      apply (keepsClear_ask .fetchAdd fun _ _ _ => rfl).bind
      intro serial
      apply (keepsClear_ask (.createNew (tempPath process target serial) 0o666)
        fun _ _ _ => rfl).bind
      intro created
      cases created with
      | ok file => exact .pure _
      | error e =>
          cases e with
          | alreadyExists => exact ih
          | _ => exact .stop _

theorem keepsClear_preserveMetadata (file : Inode) (original : Option Metadata) :
    KeepsClear process path expected (preserveMetadata file original) := by
  cases original with
  | none => exact .pure ()
  | some metadata =>
      apply (keepsClear_ask (.fchown file metadata.node.uid metadata.node.gid)
        fun _ _ _ => rfl).bind
      intro owned
      apply (Maintains.ofExcept _ owned).bind
      intro _
      apply (keepsClear_ask (.fchmod file (metadata.node.mode % 0o10000)) fun _ _ _ => rfl).bind
      exact fun set => .ofExcept _ set

end Clear

section SecondCheck

variable {process : Process} {path : Path} {expected : ExpectedRevision}
  {looked : Except OsError Metadata} {s : Underway}

/-- The temporary file is flushed, and a look at the path returns this. -/
structure Underway.Still (path : Path) (expected : ExpectedRevision)
    (looked : Except OsError Metadata) (s : Underway) : Prop where
  clear : s.Clear path expected
  flushed : s.flushed = true
  looked : s.host.disk.lstat path = looked

/-- After the flush, on the way to the publication. -/
abbrev Checking (process : Process) (path : Path) (expected : ExpectedRevision) :
    Rule Call Answer Underway :=
  (Underway.kernel process path).always (Underway.Clear path expected)

/-- A call that only looks sees a disk on which a look at the path returns the same. -/
theorem still_ask (still : s.Still path expected looked) {request : Call}
    {post : Answer request → Underway → Prop} {failed : RevisionError → Underway → Prop}
    (looks : ∀ choice h, (Host.exec process request choice h).2 = h)
    (keeps : ∀ flushed, Underway.flushedAfter flushed request = flushed)
    (silent : ∀ published d answer,
      Underway.publishedAfter published d request answer = published)
    (next : ∀ choice t, t.Still path expected looked →
      post (Host.exec process request choice t.host).1 t) :
    wp (Checking process path expected) (ask request) post failed s := by
  intro input allowed
  let after : Underway := { s with host := s.found input }
  have executed : ((Underway.kernel process path).exec request input s).2 = after := by
    simp only [Underway.kernel, looks, keeps, silent]
    rfl
  have clear : after.Clear path expected := still.clear
  have stays : after.Still path expected looked :=
    ⟨clear, still.flushed, (allowed.2 still.flushed).trans still.looked⟩
  rw [executed]
  exact ⟨clear, next input.choice after stays⟩

theorem still_checkedLstat (still : s.Still path expected looked) :
    wp (Checking process path expected) (checkedLstat path)
      (fun found t => t.Still path expected looked ∧
        (∀ metadata, found = some metadata → looked = .ok metadata) ∧
        (found = none → looked = .error .notFound))
      (fun _ t => t.Clear path expected) s := by
  unfold checkedLstat
  rw [wp_bind]
  apply still_ask still (fun _ _ => rfl) (fun _ => rfl) (fun _ _ _ => rfl)
  intro choice t stays
  have answer : (Host.exec process (.lstat path) choice t.host).1 = looked := stays.looked
  rw [answer]
  cases looked with
  | ok metadata =>
      refine ⟨stays, ?_, fun none => by cases none⟩
      intro other same
      cases same
      rfl
  | error e =>
      cases e with
      | notFound =>
          refine ⟨stays, ?_, fun _ => rfl⟩
          intro other same
          cases same
      | _ => exact stays.clear

theorem still_openChecked (still : s.Still path expected looked) :
    wp (Checking process path expected) (openChecked path)
      (fun file t => t.Still path expected looked ∧
        ∃ metadata, looked = .ok metadata ∧ finalType metadata = none ∧ file = metadata.inode)
      (fun _ t => t.Clear path expected) s := by
  unfold openChecked
  rw [wp_bind]
  apply wp_mono (still_checkedLstat still) _ fun _ _ clear => clear
  intro found t seen
  obtain ⟨stays, there, _⟩ := seen
  cases found with
  | none => exact stays.clear
  | some metadata =>
      have same := there metadata rfl
      simp only [wp_bind, wp_refuseType]
      refine ⟨fun plain => ?_, fun _ _ => stays.clear⟩
      apply still_ask stays (fun _ _ => rfl) (fun _ => rfl) (fun _ _ _ => rfl)
      intro choice u later
      have opened : (Host.exec process (.openRead path) choice u.host).1 = .ok metadata.inode :=
        openRead_of_lstat (later.looked.trans same) plain
      rw [opened]
      exact ⟨later, metadata, same, plain, rfl⟩

/-- Reads of the file that was looked at return its bytes, by induction on those that are left. -/
theorem still_readOn (still : s.Still path expected looked) {metadata : Metadata} {bytes : Bytes}
    (same : looked = .ok metadata) (kind : metadata.node.kind = .file bytes)
    (fuel offset limit : Nat) (enough : limit ≤ fuel) :
    wp (Checking process path expected) (readOn metadata.inode fuel offset limit)
      (fun result t => t.Still path expected looked ∧
        result = .ok ((bytes.drop offset).take limit))
      (fun _ t => t.Clear path expected) s := by
  induction fuel generalizing offset limit s with
  | zero =>
      have none : limit = 0 := by omega
      simp only [readOn, wp_pure, none, List.take_zero]
      exact ⟨still, trivial⟩
  | succ fuel ih =>
      simp only [readOn, wp_ite, wp_bind]
      refine ⟨fun none => ⟨still, by rw [none, List.take_zero]⟩, fun some => ?_⟩
      apply still_ask still (fun _ _ => rfl) (fun _ => rfl) (fun _ _ _ => rfl)
      intro choice t stays
      have answer : (Host.exec process (.read metadata.inode offset limit) choice t.host).1 =
          .ok ((bytes.drop offset).take (min limit (max 1 choice.count))) :=
        readAt_of_lstat (stays.looked.trans same) kind choice offset limit
      rw [answer]
      cases chunk : (bytes.drop offset).take (min limit (max 1 choice.count)) with
      | nil =>
          have short := congrArg List.length chunk
          simp only [List.length_take, List.length_nil] at short
          have empty : bytes.drop offset = [] := List.length_eq_zero_iff.mp (by omega)
          exact ⟨stays, by rw [empty, List.take_nil]⟩
      | cons first more =>
          have head : first :: more <+: bytes.drop offset := chunk ▸ List.take_prefix _ _
          have short : (first :: more).length ≤ limit := by
            rw [← chunk, List.length_take]
            omega
          have left : limit - (first :: more).length ≤ fuel := by
            rw [List.length_cons] at short ⊢
            omega
          simp only [wp_bind, wp_pure]
          apply wp_mono (ih stays _ _ left) _ fun _ _ clear => clear
          intro rest u read
          refine ⟨read.1, ?_⟩
          rw [read.2, take_eq_append head short, List.drop_drop]
          rfl

/-- The bytes are read off the file that was looked at. -/
theorem still_readAttempt (still : s.Still path expected looked) :
    wp (Checking process path expected) (readAttempt path)
      (fun read t => t.Still path expected looked ∧ ∀ found, read = some found →
        ∃ metadata, looked = .ok metadata ∧ metadata.read = .ok found)
      (fun _ t => t.Clear path expected) s := by
  unfold readAttempt
  rw [wp_bind]
  apply wp_mono (still_openChecked still) _ fun _ _ clear => clear
  intro file t opened
  obtain ⟨stays, metadata, same, plain, named⟩ := opened
  obtain ⟨⟨bytes, kind⟩, _⟩ := finalType_none.mp plain
  have sampled (choice : KernelChoice) (u : Underway) (later : u.Still path expected looked) :
      (Host.exec process (.fstat file) choice u.host).1 = .ok metadata := by
    rw [named]
    exact metadata_of_lstat (later.looked.trans same)
  rw [wp_bind]
  apply still_ask stays (fun _ _ => rfl) (fun _ => rfl) (fun _ _ _ => rfl)
  intro choice u later
  rw [sampled choice u later]
  simp only [ofExcept_ok, wp_bind, wp_pure, wp_refuseType, wp_require]
  refine ⟨fun _ => ⟨fun _ => ?_, fun _ => later.clear⟩, fun _ _ => later.clear⟩
  rw [named]
  apply wp_mono (still_readOn later same kind _ 0 _ (Nat.le_refl _)) _ fun _ _ clear => clear
  intro content v read
  obtain ⟨reading, content⟩ := read
  rw [content, List.drop_zero]
  simp only [ofExcept_ok, wp_pure, decide_eq_true_eq]
  refine ⟨fun small => ?_, fun _ => reading.clear⟩
  apply still_ask reading (fun _ _ => rfl) (fun _ => rfl) (fun _ _ _ => rfl)
  intro choice w again
  rw [← named, sampled choice w again]
  simp only [ofExcept_ok, wp_bind, wp_pure, wp_ite, wp_require]
  refine ⟨fun _ => ⟨fun _ => ⟨fun valid => ⟨again, ?_⟩, fun _ => again.clear⟩, fun _ => ?_⟩,
    fun _ _ => again.clear⟩
  · intro found returned
    have all : bytes.take (maxReadBytes + 1) = bytes := by
      apply List.take_of_length_le
      rw [List.length_take] at small
      omega
    rw [all] at small valid returned
    refine ⟨metadata, same, ?_⟩
    rw [← Option.some.inj returned]
    simp [Metadata.read, plain, kind, small, valid]
  · refine ⟨again, ?_⟩
    intro found returned
    cases returned

theorem still_readWithRevision (still : s.Still path expected looked) :
    wp (Checking process path expected) (readWithRevision path)
      (fun read t => t.Still path expected looked ∧
        ∃ metadata, looked = .ok metadata ∧ metadata.read = .ok read)
      (fun _ t => t.Clear path expected) s := by
  have attempted : ∀ attempts s, s.Still path expected looked →
      wp (Checking process path expected) (readAttempts path attempts)
        (fun read t => t.Still path expected looked ∧
          ∃ metadata, looked = .ok metadata ∧ metadata.read = .ok read)
        (fun _ t => t.Clear path expected) s := by
    intro attempts
    induction attempts with
    | zero => exact fun s still => still.clear
    | succ attempts ih =>
        intro s still
        unfold readAttempts
        rw [wp_bind]
        apply wp_mono (still_readAttempt still) _ fun _ _ clear => clear
        intro read t seen
        cases read with
        | some found => exact ⟨seen.1, seen.2 found rfl⟩
        | none => exact ih t seen.1
  exact attempted readLimit s still

/-- When the second check passes, the path is as expected. -/
theorem still_conflictForExisting (still : s.Still path expected looked) :
    wp (Checking process path expected) (conflictForExisting expected path)
      (fun _ t => t.Clear path expected ∧ t.flushed = true ∧ t.host.disk.Meets path expected)
      (fun _ t => t.Clear path expected) s := by
  cases expected with
  | missing =>
      simp only [conflictForExisting, wp_bind]
      apply wp_mono (still_checkedLstat still) _ fun _ _ clear => clear
      intro found t seen
      obtain ⟨stays, _, absent⟩ := seen
      cases found with
      | none => exact ⟨stays.clear, stays.flushed, stays.looked.trans (absent rfl)⟩
      | some metadata =>
          dsimp only [missingAppearanceConflict]
          split
          · exact stays.clear
          · exact stays.clear
          · rw [wp_bind]
            exact wp_mono (still_readWithRevision stays) (fun _ _ read => read.1.clear)
              fun _ _ clear => clear
  | present revision =>
      simp only [conflictForExisting, wp_bind, wp_require]
      refine ⟨fun _ => ?_, fun _ => still.clear⟩
      apply wp_mono (still_checkedLstat still) _ fun _ _ clear => clear
      intro found t seen
      obtain ⟨stays, _, _⟩ := seen
      cases found with
      | none => exact stays.clear
      | some metadata =>
          dsimp only
          split
          · exact stays.clear
          · exact stays.clear
          · rw [wp_bind]
            apply wp_mono (still_readWithRevision stays) _ fun _ _ clear => clear
            intro current u read
            obtain ⟨later, metadata, same, readable⟩ := read
            rw [wp_ite]
            refine ⟨fun agrees => ⟨later.clear, later.flushed, current.bytes, ?_⟩,
              fun _ => later.clear⟩
            simp only [Disk.revisionAt, later.looked, same, readable, ← agrees]

end SecondCheck

theorem meets_congr {d e : Disk} {path : Path} (same : e.lstat path = d.lstat path)
    (expected : ExpectedRevision) : e.Meets path expected ↔ d.Meets path expected := by
  cases expected with
  | missing =>
      unfold Disk.Meets
      rw [same]
  | present revision =>
      unfold Disk.Meets Disk.revisionAt
      rw [same]

section Write

variable {process : Process} {path : Path} {expected : ExpectedRevision} {temp : Path}
  {file : Inode} {s : Underway}

/-- The call that publishes meets what the second check met. -/
theorem clear_published (clear : s.Clear path expected) (flushed : s.flushed = true)
    (meets : s.host.disk.Meets path expected) {input : Disturbance} {request : Call}
    (allowed : (Underway.kernel process path).allowed request input s) :
    (((Underway.kernel process path).exec request input s).2).Clear path expected := by
  have here : (s.found input).disk.Meets path expected :=
    (meets_congr (allowed.2 flushed) expected).mpr meets
  intro d published
  simp only [Underway.kernel, Underway.publishedAfter] at published
  split at published
  · rw [← Option.some.inj published]
    exact here
  · rw [← Option.some.inj published]
    exact here
  · exact clear d published

theorem clear_publishing (clear : s.Clear path expected) (flushed : s.flushed = true)
    (meets : s.host.disk.Meets path expected) (request : Call) :
    wp (Checking process path expected) (ask request : Io (Answer request))
      (fun _ t => t.Clear path expected) (fun _ t => t.Clear path expected) s := by
  intro input allowed
  have published := clear_published clear flushed meets allowed
  exact ⟨published, published⟩

theorem clear_publish (clear : s.Clear path expected) (flushed : s.flushed = true)
    (meets : s.host.disk.Meets path expected) :
    wp (Checking process path expected) (publish expected temp path)
      (fun _ t => t.Clear path expected) (fun _ t => t.Clear path expected) s := by
  have unlinked : KeepsClear process path expected (Sys.unlink temp) :=
    keepsClear_ask (.unlink temp) fun _ _ _ => rfl
  cases expected with
  | present revision =>
      simp only [publish, wp_bind]
      apply wp_mono (clear_publishing clear flushed meets (.rename temp path)) _ fun _ _ kept => kept
      exact fun renamed t kept => Maintains.ofExcept _ renamed t kept
  | missing =>
      simp only [publish, wp_bind]
      apply wp_mono (clear_publishing clear flushed meets (.hardLink temp path)) _
        fun _ _ kept => kept
      intro linked t kept
      split
      · exact (unlinked.bind fun removed => Maintains.ofExcept _ removed) t kept
      · refine ((keepsClear_checkedLstat path).bind fun found => ?_) t kept
        cases found with
        | none => exact .stop _
        | some metadata => exact keepsClear_missingAppearanceConflict path metadata
      · exact kept

/-- After the flush the check and the publication are made with the path left alone. -/
theorem clear_afterFlush (clear : s.Clear path expected) (flushed : s.flushed = true) :
    wp (Checking process path expected)
      (do
        conflictForExisting expected path
        publish expected temp path)
      (fun _ t => t.Clear path expected) (fun _ t => t.Clear path expected) s := by
  rw [wp_bind]
  apply wp_mono (still_conflictForExisting ⟨clear, flushed, rfl⟩) _ fun _ _ clear => clear
  intro _ t checked
  exact clear_publish checked.1 checked.2.1 checked.2.2

theorem keepsClear_writeTemp (bytes : Bytes) :
    KeepsClear process path expected (writeTemp file bytes) := by
  apply (keepsClear_ask (.writeAll file bytes) fun _ _ _ => rfl).bind
  exact fun written => Maintains.ofExcept _ written

/-- The flush, and what follows it. -/
theorem keepsClear_flushed (bytes : Bytes) (original : Option Metadata) :
    KeepsClear process path expected
      (do
        preserveMetadata file original
        writeTemp file bytes
        syncTemp file
        conflictForExisting expected path
        publish expected temp path) := by
  apply (keepsClear_preserveMetadata file original).bind
  intro _
  apply (keepsClear_writeTemp bytes).bind
  intro _ s clear
  have synced : wp (Checking process path expected) (syncTemp file)
      (fun _ t => t.Clear path expected ∧ t.flushed = true)
      (fun _ t => t.Clear path expected) s := by
    unfold syncTemp
    rw [wp_bind]
    intro input _
    have after : (((Underway.kernel process path).exec (.syncAll file) input s).2).Clear path
        expected := clear
    exact ⟨after, after, rfl⟩
  rw [wp_bind]
  apply wp_mono synced _ fun _ _ clear => clear
  intro _ t flushed
  exact clear_afterFlush flushed.1 flushed.2

/-- A conditional write publishes over nothing but what it expects, if the path is left alone from
its flush to its publication. -/
theorem keepsClear_conditionalWriteLocked (bytes : Bytes) :
    KeepsClear process path expected (conditionalWriteLocked process path bytes expected) := by
  apply (keepsClear_require _ _).bind
  intro _
  apply (keepsClear_require _ _).bind
  intro _
  apply (keepsClear_conflictForExisting expected path).bind
  intro _
  apply (keepsClear_checkedLstat path).bind
  intro original
  apply (keepsClear_newTemp path 100).bind
  intro created
  apply Maintains.bind
  · intro s clear
    rw [wp_guarded]
    apply wp_mono (keepsClear_flushed bytes original s clear) _ fun _ t kept => ?_
    · exact fun _ _ kept => kept
    · exact fun _ _ => ⟨kept, kept⟩
  · intro _
    apply (keepsClear_readWithRevision path).bind
    exact fun published => .ite (.pure _) (.stop _)

end Write

section Between

variable {process : Process} {path : Path} {expected : ExpectedRevision} {α : Type} {s : Underway}

/-- Others may act before the next call, as long as they leave the path alone after the flush. -/
theorem checking_changed {program : Program Call Answer α}
    (checks : Program.wp (Checking process path expected) program (fun _ _ => True) s) (host : Host)
    (still : s.flushed = true → host.disk.lstat path = s.host.disk.lstat path) :
    Program.wp (Checking process path expected) program (fun _ _ => True) { s with host := host } := by
  cases program with
  | done value => trivial
  | call request next =>
      intro input allowed
      let found : Host := input.change.getD host
      exact checks ⟨some found, input.choice⟩
        ⟨allowed.1, fun flushed => (allowed.2 flushed).trans (still flushed)⟩

/-- A call that nobody has disturbed. -/
theorem checking_call {request : Call} {next : Answer request → Program Call Answer α}
    (checks : Program.wp (Checking process path expected) (.call request next) (fun _ _ => True) s)
    {choice : KernelChoice} (allowed : Host.Allows request choice s.host) :
    let result := Host.exec process request choice s.host
    let after : Underway :=
      { host := result.2
        flushed := Underway.flushedAfter s.flushed request
        published := Underway.publishedAfter s.published s.host.disk request result.1 }
    after.Clear path expected ∧
      Program.wp (Checking process path expected) (next result.1) (fun _ _ => True) after :=
  checks ⟨none, choice⟩ ⟨allowed, fun _ => rfl⟩

end Between

end EmacsRelay

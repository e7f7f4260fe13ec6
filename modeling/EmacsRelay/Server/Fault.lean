import EmacsRelay.Server.Course
import EmacsRelay.Server.Linear
import EmacsRelay.Server.Passage

set_option autoImplicit false

/- A conditional write one of whose system calls may fail, with nobody else changing files. -/
namespace EmacsRelay

open Trial

/-- The answer of a call that fails, if it can. -/
def failedAnswer : (request : Call) → OsError → Option (Answer request)
  | .lstat _, e => some (.error e)
  | .openRead _, e => some (.error e)
  | .openFollow _, e => some (.error e)
  | .fstat _, e => some (.error e)
  | .readFile _, e => some (.error e)
  | .read _ _ _, e => some (.error e)
  | .fetchAdd, _ => none
  | .createNew _ _, e => some (.error e)
  | .openCreate _ _ _, e => some (.error e)
  | .fchown _ _ _, e => some (.error e)
  | .fchmod _ _, e => some (.error e)
  | .writeAll _ _, e => some (.error e)
  | .syncAll _, e => some (.error e)
  | .rename _ _, e => some (.error e)
  | .hardLink _ _, e => some (.error e)
  | .unlink _, e => some (.error e)
  | .pathExists _, _ => none
  | .pathIsDir _, _ => none
  | .mkdir _, e => some (.error e)
  | .rmdir _, e => some (.error e)
  | .removeDirAll _, e => some (.error e)

/-- A write under way: the machine, whether the one failure there may be has happened, whether the
file has been published, whether the failure came `late` and whether it kept the temporary file from
being removed. It is late when the file has been published, or when what could not be removed is the
path itself. -/
structure OneFault where
  host : Host
  spent : Bool := false
  published : Bool := false
  late : Bool := false
  undropped : Bool := false

/-- What the kernel chooses at a call, whether it fails, and how much a failing write has written. -/
structure Attempt where
  choice : KernelChoice
  failure : Option OsError := none
  written : Nat := 0

namespace OneFault

def publishes : (request : Call) → Answer request → Bool
  | .rename _ _, .ok _ => true
  | .hardLink _ _, .ok _ => true
  | _, _ => false

/-- What a call that fails has done. -/
def remains (choice : KernelChoice) (written : Nat) (h : Host) : Call → Host
  | .writeAll file bytes => { h with disk := h.disk.writeAll choice file (bytes.take written) }
  | _ => h

def unlinks : Call → Bool
  | .unlink _ => true
  | _ => false

/-- The call succeeds or fails as the file system has it. -/
def carried (process : Process) (request : Call) (choice : KernelChoice) (s : OneFault) : OneFault :=
  let result := Host.exec process request choice s.host
  { s with
    host := result.2
    published := s.published || publishes request result.1 }

/-- The call fails. -/
def failed (path : Path) (request : Call) (choice : KernelChoice) (written : Nat) (s : OneFault) :
    OneFault where
  host := remains choice written s.host request
  spent := true
  published := s.published
  late := s.late || s.published || decide (request = .unlink path)
  undropped := s.undropped || (unlinks request && !s.published)

/-- The system as the write meets it. -/
def kernel (process : Process) (path : Path) : Kernel Call Answer OneFault where
  Input := Attempt
  allowed request input s :=
    Host.Allows request input.choice s.host ∧ (input.failure ≠ none → s.spent = false)
  exec request input s :=
    match input.failure.bind (failedAnswer request) with
    | some answer => (answer, s.failed path request input.choice input.written)
    | none =>
        ((Host.exec process request input.choice s.host).1,
          s.carried process request input.choice)

end OneFault

/-- Inode, content, owner, group and mode of an entry. -/
def Metadata.entry (metadata : Metadata) : Inode × FileKind × Nat × Nat × Nat :=
  (metadata.inode, metadata.node.kind, metadata.node.uid, metadata.node.gid, metadata.node.mode)

/-- The entry at a path, or why there is none. -/
def Disk.entryAt (d : Disk) (path : Path) :
    Except OsError (Inode × FileKind × Nat × Nat × Nat) :=
  (d.lstat path).map Metadata.entry

/-- The temporary names in a path's directory are what they were. -/
def Disk.SameTemps (d e : Disk) (path : Path) : Prop :=
  ∀ dir name, d.directoryOf path = .ok dir → TempName name → e.entry dir name = d.entry dir name

section Rule

variable {process : Process} {path : Path} {s : OneFault} {failed : RevisionError → OneFault → Prop}

/-- A call does what it does, or is the one that fails. -/
theorem call_oneFault (request : Call) (post : Answer request → OneFault → Prop)
    (carried : ∀ choice, Host.Allows request choice s.host →
      post (Host.exec process request choice s.host).1 (s.carried process request choice))
    (broken : s.spent = false → ∀ e answer choice written, failedAnswer request e = some answer →
      post answer (s.failed path request choice written)) :
    (OneFault.kernel process path).rule.call request post s := by
  intro input allowed
  have answered : ∀ outcome : Option (Answer request),
      outcome = input.failure.bind (failedAnswer request) →
      let result : Answer request × OneFault := match outcome with
        | some answer => (answer, s.failed path request input.choice input.written)
        | none =>
            ((Host.exec process request input.choice s.host).1,
              s.carried process request input.choice)
      post result.1 result.2 := by
    intro outcome same
    cases outcome with
    | none => exact carried input.choice allowed.1
    | some answer =>
        cases failure : input.failure with
        | none =>
            rw [failure] at same
            cases same
        | some e =>
            have unspent := allowed.2 (by rw [failure]; simp)
            rw [failure] at same
            exact broken unspent e answer input.choice input.written same.symm
  exact answered _ rfl

theorem wp_oneFault (request : Call) {post : Answer request → OneFault → Prop}
    (carried : ∀ choice, Host.Allows request choice s.host →
      post (Host.exec process request choice s.host).1 (s.carried process request choice))
    (broken : s.spent = false → ∀ e answer choice written, failedAnswer request e = some answer →
      post answer (s.failed path request choice written)) :
    wp (OneFault.kernel process path) (ask request : Io (Answer request)) post failed s :=
  call_oneFault request post carried broken

theorem run_spent {α : Type} (program : Program Call Answer α) (spent : s.spent = true) :
    Program.wp (OneFault.kernel process path).rule program (fun _ t => t.spent = true) s := by
  induction program generalizing s with
  | done value => exact spent
  | call request next ih =>
      apply call_oneFault
      · exact fun choice _ => ih _ spent
      · exact fun _ _ _ _ _ _ => ih _ rfl

/-- A program during which nothing fails runs as it does on a sound machine. -/
theorem run_unfailed {α : Type} {program : Program Call Answer α} {post : α → Host → Prop}
    (holds : Program.wp (Host.kernel process).rule program post s.host) :
    Program.wp (OneFault.kernel process path).rule program
      (fun value t => t.spent = s.spent → post value t.host) s := by
  induction program generalizing s with
  | done value => exact fun _ => holds
  | call request next ih =>
      apply call_oneFault
      · intro choice allowed
        have carried := holds choice allowed
        exact ih (Host.exec process request choice s.host).1
          (s := s.carried process request choice) carried
      · intro unspent e answer choice written _
        have used : (s.failed path request choice written).spent = true := rfl
        apply Program.wp_mono (run_spent (next answer) used)
        intro value t spent same
        rw [spent, unspent] at same
        cases same

theorem wp_unfailed {α : Type} {body : Io α} {post : α → Host → Prop}
    {refused : RevisionError → Host → Prop}
    (holds : wp (Host.kernel process).rule body post refused s.host) :
    wp (OneFault.kernel process path).rule body (fun value t => t.spent = s.spent → post value t.host)
      (fun reason t => t.spent = s.spent → refused reason t.host) s := by
  apply Program.wp_mono (run_unfailed holds)
  intro result t unfailed
  cases result <;> exact unfailed

end Rule

section Looks

variable {process : Process} {path : Path} {s : OneFault}

/-- What calls that only look have done: nothing, or one of them has failed. -/
structure Looked (s t : OneFault) : Prop where
  host : t.host = s.host
  published : t.published = s.published
  undropped : t.undropped = s.undropped
  late : t.spent = s.spent ∧ t.late = s.late ∨
    s.spent = false ∧ t.spent = true ∧ t.late = (s.late || s.published)

/-- A protocol of looks only. -/
def looking (path : Path) : Protocol Call Answer Unit where
  legal _ request := request.Harmless path
  advance _ _ _ := ()

theorem looking_indifferent (path : Path) : Indifferent (looking path) path () :=
  fun _ harmless => ⟨harmless, fun _ => rfl⟩

theorem looked_carried {t : OneFault} {request : Call} (looked : Looked s t)
    (harmless : request.Harmless path) (choice : KernelChoice) :
    Looked s (t.carried process request choice) where
  host := (host_of_harmless harmless choice t.host).trans looked.host
  published := by
    have silent : ∀ answer, OneFault.publishes request answer = false := by
      intro answer
      cases request <;> first | rfl | exact harmless.elim
    simp [OneFault.carried, silent, looked.published]
  undropped := looked.undropped
  late := looked.late

theorem looked_failed {t : OneFault} {request : Call} (looked : Looked s t)
    (harmless : request.Harmless path) (unspent : t.spent = false) (choice : KernelChoice)
    (written : Nat) : Looked s (t.failed path request choice written) where
  host := by
    have idle : OneFault.remains choice written t.host request = t.host := by
      cases request <;> first | rfl | exact harmless.elim
    exact idle.trans looked.host
  published := looked.published
  undropped := by
    have kept : OneFault.unlinks request = false := by
      cases request <;> first | rfl | exact harmless.elim
    simp [OneFault.failed, kept, looked.undropped]
  late := by
    have other : request ≠ .unlink path := by
      intro same
      rw [same] at harmless
      exact harmless
    rcases looked.late with ⟨spent, late⟩ | ⟨_, spent, _⟩
    · right
      refine ⟨spent ▸ unspent, rfl, ?_⟩
      simp [OneFault.failed, other, late, looked.published]
    · rw [spent] at unspent
      cases unspent

/-- So do the programs that they make up. -/
theorem looks {α : Type} {body : Io α} (stays : Stays (looking path) () body) :
    wp (OneFault.kernel process path).rule body (fun _ t => Looked s t) (fun _ t => Looked s t) s := by
  have start : Looked s s := ⟨rfl, rfl, rfl, .inl ⟨rfl, rfl⟩⟩
  have tracks : Program.Tracks (looking path) (OneFault.kernel process path)
      (fun _ t => Looked s t) := by
    intro _ t request input looked harmless allowed
    have call : (OneFault.kernel process path).rule.call request (fun _ t => Looked s t) t :=
      call_oneFault request _ (fun choice _ => looked_carried looked harmless choice)
        (fun unspent _ _ choice written _ => looked_failed looked harmless unspent choice written)
    exact call input allowed
  apply wp_mono (wp_tracks tracks start stays)
  · intro _ t ended
    obtain ⟨_, looked, _⟩ := ended
    exact looked
  · intro _ t ended
    obtain ⟨_, looked, _⟩ := ended
    exact looked

end Looks

section Fragile

/-- A program that stops as soon as one of its calls fails. -/
def Fragile {α : Type} : Program Call Answer (Except RevisionError α) → Prop
  | .done _ => True
  | .call request next => ∀ answer, Fragile (next answer) ∧
      ∀ e, failedAnswer request e = some answer → ∃ reason, next answer = .done (.error reason)

namespace Fragile

variable {α β : Type}

theorem bind {body : Io α} {next : α → Io β} (first : Fragile body)
    (rest : ∀ value, Fragile (next value)) : Fragile (body >>= next : Io β) := by
  induction body with
  | done result =>
      cases result with
      | ok value => exact rest value
      | error reason => trivial
  | call request continues ih =>
      intro answer
      obtain ⟨fragile, stops⟩ := first answer
      refine ⟨ih answer fragile, ?_⟩
      intro e failed
      obtain ⟨reason, stopped⟩ := stops e failed
      refine ⟨reason, ?_⟩
      show Program.bind (continues answer) _ = _
      rw [stopped]
      rfl

theorem pure (value : α) : Fragile (Pure.pure value : Io α) := trivial

theorem stop (reason : RevisionError) : Fragile (Trial.stop reason : Io α) := trivial

theorem ofExcept {δ : Type} (f : δ → RevisionError) (result : Except δ α) :
    Fragile (Trial.ofExcept f result) := by
  cases result with
  | ok value => trivial
  | error reason => trivial

theorem require (test : Bool) (reason : RevisionError) : Fragile (EmacsRelay.require test reason) := by
  cases test with
  | true => trivial
  | false => trivial

theorem refuseType (metadata : Metadata) : Fragile (EmacsRelay.refuseType metadata) := by
  unfold EmacsRelay.refuseType
  cases finalType metadata with
  | none => trivial
  | some kind => trivial

end Fragile

variable {path : Path}

/-- An answer that is passed on when it is good, and else stops the program. -/
theorem fragile_ofExcept {α β : Type} (request : Call) (result : Answer request → Except OsError α)
    (broken : ∀ e answer, failedAnswer request e = some answer → result answer = .error e)
    (f : OsError → RevisionError) {next : α → Io β} (rest : ∀ value, Fragile (next value)) :
    Fragile ((ask request : Io (Answer request)) >>= fun answer =>
      (Trial.ofExcept f (result answer) : Io α) >>= next : Io β) := by
  intro answer
  constructor
  · exact (Fragile.ofExcept f (result answer)).bind rest
  · intro e failed
    refine ⟨f e, ?_⟩
    show Program.bind (Trial.ofExcept f (result answer)) _ = _
    rw [broken e answer failed]
    rfl

/-- A program that returns an error as soon as one of its calls fails. -/
def Yields : Program Call Answer (Except RevisionError (Except OsError Bytes)) → Prop
  | .done _ => True
  | .call request next => ∀ answer, Yields (next answer) ∧
      ∀ e, failedAnswer request e = some answer → ∃ reason, next answer = .done (.ok (.error reason))

theorem Yields.map {body : Io (Except OsError Bytes)} (yields : Yields body) (join : Bytes → Bytes) :
    Yields (body >>= fun rest => pure (rest.map join) : Io (Except OsError Bytes)) := by
  induction body with
  | done result => cases result <;> trivial
  | call request next ih =>
      intro answer
      obtain ⟨further, stops⟩ := yields answer
      refine ⟨ih answer further, fun e failed => ?_⟩
      obtain ⟨reason, stopped⟩ := stops e failed
      refine ⟨reason, ?_⟩
      show Program.bind (next answer) _ = _
      rw [stopped]
      rfl

theorem yields_readOn (file : Inode) (fuel offset limit : Nat) :
    Yields (readOn file fuel offset limit) := by
  induction fuel generalizing offset limit with
  | zero => trivial
  | succ fuel ih =>
      unfold readOn
      split
      · trivial
      · intro answer
        constructor
        · cases answer with
          | error e => trivial
          | ok chunk =>
              cases chunk with
              | nil => trivial
              | cons first more => exact (ih _ _).map _
        · intro e failed
          have same : answer = .error e := (Option.some.inj failed).symm
          rw [same]
          exact ⟨e, rfl⟩

/-- An error that is returned stops the program that goes on from what was read. -/
theorem Yields.fragile {β : Type} {body : Io (Except OsError Bytes)} (yields : Yields body)
    (f : OsError → RevisionError) {next : Bytes → Io β} (rest : ∀ bytes, Fragile (next bytes)) :
    Fragile (body >>= fun content => (Trial.ofExcept f content : Io Bytes) >>= next : Io β) := by
  induction body with
  | done result =>
      cases result with
      | ok content => exact (Fragile.ofExcept f content).bind rest
      | error reason => trivial
  | call request continues ih =>
      intro answer
      obtain ⟨further, stops⟩ := yields answer
      refine ⟨ih answer further, fun e failed => ?_⟩
      obtain ⟨reason, stopped⟩ := stops e failed
      refine ⟨f reason, ?_⟩
      show Program.bind (continues answer) _ = _
      rw [stopped]
      rfl

/-- A look at the path that ends the program when it finds nothing. -/
theorem fragile_checkedLstat {β : Type} {next : Option Metadata → Io β} {reason : RevisionError}
    (nothing : next none = stop reason) (rest : ∀ metadata, Fragile (next (some metadata))) :
    Fragile (checkedLstat path >>= next : Io β) := by
  intro answer
  constructor
  · cases answer with
    | ok metadata => exact rest metadata
    | error e =>
        cases e with
        | notFound =>
            show Fragile (next none)
            rw [nothing]
            trivial
        | _ => trivial
  · intro e failed
    have same : answer = .error e := (Option.some.inj failed).symm
    rw [same]
    cases e with
    | notFound => exact ⟨reason, nothing⟩
    | _ => exact ⟨_, rfl⟩

theorem fragile_openChecked : Fragile (openChecked path) := by
  unfold openChecked
  apply fragile_checkedLstat rfl
  intro metadata
  apply (Fragile.refuseType metadata).bind
  intro _ answer
  constructor
  · exact Fragile.ofExcept _ answer
  · intro e failed
    have same : answer = .error e := (Option.some.inj failed).symm
    rw [same]
    exact ⟨_, rfl⟩

theorem fragile_readAttempt : Fragile (readAttempt path) := by
  unfold readAttempt
  apply fragile_openChecked.bind
  intro file
  apply fragile_ofExcept (.fstat file) id (fun _ _ failed => (Option.some.inj failed).symm)
  intro before
  apply (Fragile.refuseType before).bind
  intro _
  apply (Fragile.require _ _).bind
  intro _
  have rest : ∀ bytes : Bytes, Fragile (do
      EmacsRelay.require (decide (bytes.length ≤ maxReadBytes)) .tooLarge
      let sampled ← Sys.fstat file
      let after ← Trial.ofExcept (ioError "read") sampled
      EmacsRelay.refuseType after
      if metadataEqual before after then do
        EmacsRelay.require (validUtf8 bytes) .unsupportedEncoding
        Pure.pure (some ⟨bytes, .fromMetadata after (sha256 bytes)⟩)
      else Pure.pure none : Io (Option RevisionRead)) := by
    intro bytes
    apply (Fragile.require _ _).bind
    intro _
    apply fragile_ofExcept (.fstat file) id (fun _ _ failed => (Option.some.inj failed).symm)
    intro after
    apply (Fragile.refuseType after).bind
    intro _
    split
    · apply (Fragile.require _ _).bind
      exact fun _ => .pure _
    · exact .pure _
  exact (yields_readOn file _ 0 _).fragile _ rest

theorem fragile_readWithRevision : Fragile (readWithRevision path) := by
  have attempted : ∀ attempts, Fragile (readAttempts path attempts) := by
    intro attempts
    induction attempts with
    | zero => trivial
    | succ attempts ih =>
        apply fragile_readAttempt.bind
        intro read
        cases read with
        | some read => exact .pure read
        | none => exact ih
  exact attempted readLimit

/-- A comparison with a revision does not take a failure for a success. -/
theorem fragile_conflictForExisting (revision : Revision) :
    Fragile (conflictForExisting (.present revision) path) := by
  rw [conflictForExisting_present]
  apply (Fragile.require _ _).bind
  intro _
  apply fragile_checkedLstat rfl
  intro metadata
  unfold compareFound
  dsimp only
  split
  · exact .stop _
  · exact .stop _
  · apply fragile_readWithRevision.bind
    intro current
    split
    · exact .pure _
    · exact .stop _

theorem fragile_verifyPublished (bytes : Bytes) : Fragile (verifyPublished path bytes) := by
  apply fragile_readWithRevision.bind
  intro published
  split
  · exact .pure _
  · exact .stop _

/-- When it succeeds, nothing has failed. -/
theorem wp_fragile {α : Type} {process : Process} {s : OneFault} {body : Io α}
    (fragile : Fragile body) :
    wp (OneFault.kernel process path).rule body (fun _ t => t.spent = s.spent) (fun _ _ => True)
      s := by
  induction body generalizing s with
  | done result =>
      cases result with
      | ok value => rfl
      | error reason => trivial
  | call request next ih =>
      apply call_oneFault
      · intro choice _
        exact ih _ (s := s.carried process request choice) (fragile _).1
      · intro _ e answer choice written failed
        obtain ⟨reason, stopped⟩ := (fragile answer).2 e failed
        rw [stopped]
        trivial

end Fragile

/-- The file has not been published, and the failure has not come late. -/
structure OneFault.Hidden (s : OneFault) : Prop where
  published : s.published = false
  late : s.late = false
  undropped : s.undropped = false

namespace OneFault.Hidden

variable {process : Process} {path : Path} {s t : OneFault} {request : Call}

theorem looked (hidden : s.Hidden) (looked : Looked s t) : t.Hidden where
  published := looked.published.trans hidden.published
  late := by
    rcases looked.late with ⟨_, late⟩ | ⟨_, _, late⟩
    · exact late.trans hidden.late
    · rw [late, hidden.late, hidden.published]
      rfl
  undropped := looked.undropped.trans hidden.undropped

theorem carried (hidden : s.Hidden) (choice : KernelChoice)
    (silent : OneFault.publishes request (Host.exec process request choice s.host).1 = false) :
    (s.carried process request choice).Hidden where
  published := by simp [OneFault.carried, silent, hidden.published]
  late := hidden.late
  undropped := hidden.undropped

theorem failed (hidden : s.Hidden) (other : ∀ target, request ≠ .unlink target)
    (choice : KernelChoice) (written : Nat) : (s.failed path request choice written).Hidden where
  published := hidden.published
  late := by simp [OneFault.failed, hidden.late, hidden.published, other path]
  undropped := by
    have kept : OneFault.unlinks request = false := by
      cases request with
      | unlink target => exact absurd rfl (other target)
      | _ => rfl
    simp [OneFault.failed, hidden.undropped, kept]

end OneFault.Hidden

section Pieces

variable {process : Process} {d : Disk} {path temp : Path} {dir file : Inode} {content bytes : Bytes}
  {s : OneFault}

/-- The temporary file is all there is to a write so far. -/
def OneFault.Pending (d : Disk) (path temp : Path) (dir file : Inode) (t : OneFault) : Prop :=
  t.Hidden ∧ ∃ content, TempFile d path temp dir file content t.host.disk

/-- The new file is under both of its names, and its temporary one has failed to go. -/
structure OneFault.Stuck (d : Disk) (path temp : Path) (dir file : Inode) (t : OneFault) : Prop where
  spent : t.spent = true
  late : t.late = true
  here : d.directoryOf path = .ok dir
  absent : d.entry dir path.name = none
  closes : ∀ choice, ∃ e node now, t.host.disk.unlink choice temp = .ok e ∧
    Disk.Published d e dir path.name file node now

/-- The new file is in its place, and nothing has failed so far that is not made good. -/
structure OneFault.Shown (d : Disk) (path : Path) (dir file : Inode) (bytes : Bytes)
    (t : OneFault) : Prop where
  published : t.published = true
  late : t.late = false
  here : d.directoryOf path = .ok dir
  plain : ∀ old, d.entry dir path.name = some old → d.Plain old
  landed : Landed d path dir file bytes t.host.disk

theorem fault_createNew {failed : RevisionError → OneFault → Prop}
    (beside : temp.parent = path.parent) (disk : s.host.disk = d) (hidden : s.Hidden)
    {post : Except OsError Inode → OneFault → Prop}
    (made : ∀ dir file t, t.Hidden → TempFile d path temp dir file [] t.host.disk → post (.ok file) t)
    (refused : ∀ e t, t.Hidden → t.host.disk = d → post (.error e) t) :
    wp (OneFault.kernel process path).rule (Sys.createNew temp) post failed s := by
  apply wp_oneFault
  · intro choice allowed
    have silent : OneFault.publishes (.createNew temp 0o666)
        (Host.exec process (.createNew temp 0o666) choice s.host).1 = false := rfl
    have quiet := hidden.carried choice silent
    unfold OneFault.carried at quiet ⊢
    simp only [Host.exec] at quiet ⊢
    cases created : s.host.disk.createNew choice process temp 0o666 with
    | ok pair =>
        obtain ⟨file, after⟩ := pair
        obtain ⟨dir, pending⟩ := tempFile_of_createNew beside created allowed
        rw [created] at quiet
        exact made dir file _ quiet (disk ▸ pending)
    | error e =>
        rw [created] at quiet
        exact refused e _ quiet disk
  · intro _ e answer choice written broken
    rw [← Option.some.inj broken]
    exact refused e _ (hidden.failed (by simp) choice written) disk

theorem fault_newTemp (tries : Nat) (disk : s.host.disk = d) (hidden : s.Hidden) :
    wp (OneFault.kernel process path).rule (newTemp process path tries)
      (fun made t => t.Hidden ∧ ∃ dir, TempFile d path made.1 dir made.2 [] t.host.disk)
      (fun _ t => t.Hidden ∧ t.host.disk = d) s := by
  induction tries generalizing s with
  | zero => exact ⟨hidden, disk⟩
  | succ tries ih =>
      unfold newTemp
      rw [wp_bind]
      apply wp_oneFault
      · intro choice _
        dsimp only
        rw [wp_bind]
        have counted : (s.carried process .fetchAdd choice).Hidden := hidden.carried choice rfl
        have same : (s.carried process .fetchAdd choice).host.disk = d := disk
        have beside : (tempPath process path
            (Host.exec process .fetchAdd choice s.host).1).parent = path.parent := rfl
        apply fault_createNew beside same counted
        · intro dir file t quiet pending
          exact ⟨quiet, dir, pending⟩
        · intro e t quiet same
          cases e with
          | alreadyExists => exact ih same quiet
          | _ => exact ⟨quiet, same⟩
      · intro _ e answer choice written broken
        cases broken

/-- A call on the temporary file: it is made, or it fails and the write stops. -/
theorem fault_modify (request : Call) (result : Answer request → Except OsError Unit)
    (f : OsError → RevisionError) (hidden : s.Hidden) (other : ∀ target, request ≠ .unlink target)
    (silent : ∀ answer, OneFault.publishes request answer = false)
    (good : ∀ choice, result (Host.exec process request choice s.host).1 = .ok ())
    (bad : ∀ e answer, failedAnswer request e = some answer → result answer = .error e)
    {post : Unit → OneFault → Prop} {failed : RevisionError → OneFault → Prop}
    (carried : ∀ choice t, t.Hidden →
      t.host = (Host.exec process request choice s.host).2 → post () t)
    (broken : ∀ e choice written t, t.Hidden →
      t.host = OneFault.remains choice written s.host request → failed (f e) t) :
    wp (OneFault.kernel process path).rule (ask request : Io (Answer request))
      (fun answer t => wp (OneFault.kernel process path).rule (Trial.ofExcept f (result answer))
        post failed t) failed s := by
  apply wp_oneFault
  · intro choice _
    rw [good choice]
    exact carried choice _ (hidden.carried choice (silent _)) rfl
  · intro _ e answer choice written refused
    rw [bad e answer refused]
    exact broken e choice written _ (hidden.failed other choice written) rfl

theorem fault_preserveMetadata (pending : TempFile d path temp dir file content s.host.disk)
    (hidden : s.Hidden) (original : Option Metadata) :
    wp (OneFault.kernel process path).rule (preserveMetadata file original)
      (fun _ t => t.Hidden ∧ TempFile d path temp dir file content t.host.disk)
      (fun _ t => t.Hidden ∧ TempFile d path temp dir file content t.host.disk) s := by
  cases original with
  | none => exact ⟨hidden, pending⟩
  | some metadata =>
      unfold preserveMetadata
      simp only [wp_bind]
      apply fault_modify (.fchown file metadata.node.uid metadata.node.gid) id _ hidden
      · simp
      · exact fun _ => rfl
      · exact fun _ => rfl
      · exact fun _ _ refused => (Option.some.inj refused).symm
      · intro choice t quiet same
        have owned : TempFile d path temp dir file content t.host.disk := by
          rw [same]
          exact pending.fchown choice _ _
        apply fault_modify (.fchmod file (metadata.node.mode % 0o10000)) id _ quiet
        · simp
        · exact fun _ => rfl
        · exact fun _ => rfl
        · exact fun _ _ refused => (Option.some.inj refused).symm
        · intro choice u quiet same
          rw [same]
          exact ⟨quiet, owned.fchmod choice _⟩
        · intro _ _ _ u quiet same
          rw [same]
          exact ⟨quiet, owned⟩
      · intro _ _ _ t quiet same
        rw [same]
        exact ⟨quiet, pending⟩

theorem fault_writeTemp (pending : TempFile d path temp dir file [] s.host.disk)
    (hidden : s.Hidden) :
    wp (OneFault.kernel process path).rule (writeTemp file bytes)
      (fun _ t => t.Hidden ∧ TempFile d path temp dir file bytes t.host.disk)
      (fun _ t => t.Pending d path temp dir file) s := by
  unfold writeTemp
  rw [wp_bind]
  apply fault_modify (.writeAll file bytes) id _ hidden
  · simp
  · exact fun _ => rfl
  · exact fun _ => rfl
  · exact fun _ _ refused => (Option.some.inj refused).symm
  · intro choice t quiet same
    rw [same]
    exact ⟨quiet, pending.writeAll choice⟩
  · intro _ choice written t quiet same
    refine ⟨quiet, bytes.take written, ?_⟩
    rw [same]
    exact pending.writeAll choice

theorem fault_rename (pending : TempFile d path temp dir file bytes s.host.disk)
    (hidden : s.Hidden) {revision : Revision} (meets : d.Meets path (.present revision)) :
    wp (OneFault.kernel process path).rule (publish (.present revision) temp path)
      (fun _ t => t.Shown d path dir file bytes) (fun _ t => t.Pending d path temp dir file) s := by
  obtain ⟨old, content, there, plain⟩ := entry_of_meets_present pending.here meets
  obtain ⟨node, staged, kind, single⟩ := pending.staged
  unfold publish
  rw [wp_bind]
  apply wp_oneFault
  · intro choice _
    obtain ⟨e, renamed, published⟩ :=
      staged.rename choice pending.here kind pending.device there plain
    rw [← pending.tempPath_eq] at renamed
    unfold OneFault.carried
    simp only [Host.exec, renamed, Host.change]
    refine ⟨?_, hidden.late, pending.here, ?_, _, _, published, kind, single⟩
    · simp [OneFault.publishes]
    · intro other entry
      rw [there] at entry
      exact ⟨content, Option.some.inj entry ▸ plain⟩
  · intro _ e answer choice written broken
    rw [← Option.some.inj broken]
    exact ⟨hidden.failed (by simp) choice written, bytes, pending⟩

/-- Looks change nothing on the disk, and what fails among them fails in time. -/
theorem hidden_looks {α : Type} {body : Io α} (kept : Disk → Prop)
    (stays : Stays (looking path) () body) (hidden : s.Hidden) (holds : kept s.host.disk) :
    wp (OneFault.kernel process path).rule body (fun _ t => t.Hidden ∧ kept t.host.disk)
      (fun _ t => t.Hidden ∧ kept t.host.disk) s := by
  have still : ∀ t, Looked s t → t.Hidden ∧ kept t.host.disk := by
    intro t looked
    refine ⟨hidden.looked looked, ?_⟩
    rw [looked.host]
    exact holds
  exact wp_mono (looks stays) (fun _ => still) fun _ => still

theorem pending_looks {α : Type} {body : Io α} (stays : Stays (looking path) () body)
    (pending : s.Pending d path temp dir file) :
    wp (OneFault.kernel process path).rule body (fun _ t => t.Pending d path temp dir file)
      (fun _ t => t.Pending d path temp dir file) s :=
  hidden_looks (fun e => ∃ content, TempFile d path temp dir file content e) stays pending.1
    pending.2

/-- A creation that meets another file is refused. -/
theorem fault_collision {post : Unit → OneFault → Prop}
    (pending : s.Pending d path temp dir file) :
    wp (OneFault.kernel process path).rule
      (do
        let found ← checkedLstat path
        match found with
        | none => stop (.io "write(publish): destination disappeared after collision")
        | some metadata => missingAppearanceConflict path metadata)
      post (fun _ t => t.Pending d path temp dir file) s := by
  rw [wp_bind]
  apply wp_mono (pending_looks (stays_checkedLstat (looking_indifferent path)) pending) _
    fun _ _ pending => pending
  intro found t pending
  cases found with
  | none => exact pending
  | some metadata =>
      dsimp only
      unfold missingAppearanceConflict
      split
      · exact pending
      · exact pending
      · rw [wp_bind]
        exact wp_mono (pending_looks (stays_readWithRevision (looking_indifferent path)) pending)
          (fun _ _ pending => pending) fun _ _ pending => pending

theorem absent_of_hardLink {e linked : Disk} {choice : KernelChoice} {source target : Path}
    (linked : e.hardLink choice source target = .ok linked) (there : e.directoryOf target = .ok dir) :
    e.entry dir target.name = none := by
  unfold Disk.hardLink at linked
  cases found : e.find source with
  | error reason => rw [found] at linked; cases linked
  | ok inode =>
      rw [found, there] at linked
      dsimp only at linked
      cases entry : e.entry dir target.name with
      | none => rfl
      | some other => rw [entry] at linked; cases linked

theorem exec_unlink {e : Disk} {h : Host} {choice : KernelChoice}
    (removed : h.disk.unlink choice temp = .ok e) :
    Host.exec process (.unlink temp) choice h = (.ok (), { h with disk := e }) := by
  simp only [Host.exec, removed, Host.change]
  rfl

theorem carried_unlink (process : Process) {e : Disk} {choice : KernelChoice}
    (removed : s.host.disk.unlink choice temp = .ok e) :
    (s.carried process (.unlink temp) choice).host.disk = e :=
  congrArg (fun result => result.2.disk) (exec_unlink removed)

/-- After the link, the temporary name goes, or the creation is reported as failed. -/
theorem fault_unlinkTemp (published : s.published = true) (late : s.late = false)
    (here : d.directoryOf path = .ok dir) (absent : d.entry dir path.name = none)
    (closes : ∀ choice, ∃ e, s.host.disk.unlink choice temp = .ok e ∧
      Landed d path dir file bytes e) :
    wp (OneFault.kernel process path).rule
      (do
        let removed ← Sys.unlink temp
        ofExcept (ioError "write(publish cleanup)") removed)
      (fun _ t => t.Shown d path dir file bytes) (fun _ t => t.Stuck d path temp dir file) s := by
  rw [wp_bind]
  apply wp_oneFault
  · intro choice _
    obtain ⟨e, removed, landed⟩ := closes choice
    have after := carried_unlink process removed
    rw [exec_unlink removed]
    refine ⟨?_, late, here, ?_, after ▸ landed⟩
    · simp [OneFault.carried, published]
    · intro old there
      rw [absent] at there
      cases there
  · intro _ e answer choice written broken
    rw [← Option.some.inj broken]
    refine ⟨rfl, ?_, here, absent, ?_⟩
    · simp [OneFault.failed, published]
    · intro choice'
      obtain ⟨after, removed, node, now, landed, _⟩ := closes choice'
      exact ⟨after, node, now, removed, landed⟩

/-- A link that succeeds puts the new file in its place, even if its temporary name stays. -/
theorem fault_link (pending : TempFile d path temp dir file bytes s.host.disk) (hidden : s.Hidden) :
    wp (OneFault.kernel process path).rule (publish .missing temp path)
      (fun _ t => t.Shown d path dir file bytes)
      (fun _ t => t.Pending d path temp dir file ∨ t.Stuck d path temp dir file) s := by
  obtain ⟨node, staged, kind, single⟩ := pending.staged
  unfold publish
  rw [wp_bind]
  apply wp_oneFault
  · intro choice _
    cases linked : s.host.disk.hardLink choice temp path with
    | error e =>
        have answered : Host.exec process (.hardLink temp path) choice s.host =
            (.error e, s.host) := by
          simp only [Host.exec, linked, Host.change]
          rfl
        have quiet : (s.carried process (.hardLink temp path) choice).Hidden := by
          apply hidden.carried
          rw [answered]
          rfl
        have kept : (s.carried process (.hardLink temp path) choice).host = s.host :=
          congrArg Prod.snd answered
        have still : (s.carried process (.hardLink temp path) choice).Pending d path temp dir file :=
          ⟨quiet, bytes, kept ▸ pending⟩
        rw [answered]
        cases e with
        | alreadyExists =>
            exact wp_mono (fault_collision still) (fun _ _ shown => shown) fun _ _ => .inl
        | _ => exact .inl still
    | ok after =>
        have vacant := absent_of_hardLink linked (staged.directoryOf pending.here)
        have other : path.name ≠ temp.name := by
          intro same
          rw [staged.entry, if_pos ⟨rfl, same⟩] at vacant
          cases vacant
        have absent : d.entry dir path.name = none := by
          rw [staged.entry, if_neg fun same => other same.2] at vacant
          exact vacant
        have answered : Host.exec process (.hardLink temp path) choice s.host =
            (.ok (), { s.host with disk := after }) := by
          simp only [Host.exec, linked, Host.change]
          rfl
        have visible : (s.carried process (.hardLink temp path) choice).published = true := by
          simp only [OneFault.carried, answered]
          simp [OneFault.publishes]
        have disk : (s.carried process (.hardLink temp path) choice).host.disk = after :=
          congrArg (fun result => result.2.disk) answered
        rw [answered]
        apply wp_mono (fault_unlinkTemp visible hidden.late pending.here absent ?_)
          (fun _ _ shown => shown) fun _ _ => .inr
        intro choice'
        obtain ⟨linked', e, again, removed, published⟩ :=
          staged.link choice pending.here other kind pending.device absent choice'
        rw [← pending.tempPath_eq] at again removed
        have same : linked' = after := Except.ok.inj (again.symm.trans linked)
        rw [disk]
        exact ⟨e, same ▸ removed, _, _, published, kind, single⟩
  · intro _ e answer choice written broken
    have failed : answer = .error e := (Option.some.inj broken).symm
    have kept : (s.failed path (.hardLink temp path) choice written).Pending d path temp dir file :=
      ⟨hidden.failed (by simp) choice written, bytes, pending⟩
    rw [failed]
    cases e with
    | alreadyExists =>
        exact wp_mono (fault_collision kept) (fun _ _ shown => shown) fun _ _ => .inl
    | _ => exact .inl kept

/-- A file to be replaced is the one that is expected. -/
def Disk.Agrees (d : Disk) (path : Path) (expected : ExpectedRevision) : Prop :=
  ∀ revision, expected = .present revision → d.Meets path expected

variable {expected : ExpectedRevision}

theorem fault_publish (pending : TempFile d path temp dir file bytes s.host.disk)
    (hidden : s.Hidden) (agrees : d.Agrees path expected) :
    wp (OneFault.kernel process path).rule (publish expected temp path)
      (fun _ t => t.Shown d path dir file bytes)
      (fun _ t => t.Pending d path temp dir file ∨ t.Stuck d path temp dir file) s := by
  cases expected with
  | missing => exact fault_link pending hidden
  | present revision =>
      exact wp_mono (fault_rename pending hidden (agrees revision rfl)) (fun _ _ shown => shown)
        fun _ _ => .inl

theorem fault_stageAndPublish (pending : TempFile d path temp dir file [] s.host.disk)
    (hidden : s.Hidden) (agrees : d.Agrees path expected) (original : Option Metadata) :
    wp (OneFault.kernel process path).rule
      (do
        preserveMetadata file original
        writeTemp file bytes
        syncTemp file
        conflictForExisting expected path
        publish expected temp path)
      (fun _ t => t.Shown d path dir file bytes)
      (fun _ t => t.Pending d path temp dir file ∨ t.Stuck d path temp dir file) s := by
  have quiet := looking_indifferent path
  rw [wp_bind]
  apply wp_mono (fault_preserveMetadata pending hidden original)
  case weakenFailed => exact fun _ _ refused => .inl ⟨refused.1, [], refused.2⟩
  intro _ t staged
  rw [wp_bind]
  apply wp_mono (fault_writeTemp staged.2 staged.1) _ fun _ _ => .inl
  intro _ t filled
  obtain ⟨hidden, filled⟩ := filled
  rw [wp_bind]
  apply wp_mono (hidden_looks _ (stays_syncTemp quiet file) hidden filled) _
    fun _ _ refused => .inl ⟨refused.1, bytes, refused.2⟩
  intro _ t synced
  rw [wp_bind]
  apply wp_mono (hidden_looks _ (stays_conflictForExisting quiet expected) synced.1 synced.2) _
    fun _ _ refused => .inl ⟨refused.1, bytes, refused.2⟩
  intro _ t compared
  exact fault_publish compared.2 compared.1 agrees

end Pieces

section Outcome

variable {d : Disk} {path temp : Path} {dir file : Inode} {bytes : Bytes}

/-- The entry at the path is what it was, and so are the temporary names if the clean-up has not
failed. -/
structure OneFault.Kept (d : Disk) (path : Path) (t : OneFault) : Prop where
  late : t.late = false
  entry : t.host.disk.entryAt path = d.entryAt path
  temps : t.undropped = false → d.SameTemps t.host.disk path

/-- The entry at the path is another one. -/
structure OneFault.Changed (d : Disk) (path : Path) (t : OneFault) : Prop where
  late : t.late = true
  entry : t.host.disk.entryAt path ≠ d.entryAt path

/-- What a write leaves behind that is refused. -/
def OneFault.Refused (d : Disk) (path : Path) (t : OneFault) : Prop := t.Kept d path ∨ t.Changed d path

theorem OneFault.Hidden.kept {t : OneFault} (hidden : t.Hidden) (disk : t.host.disk = d) :
    t.Kept d path := by
  refine ⟨hidden.late, by rw [disk], ?_⟩
  intro _ inner name _ _
  rw [disk]

theorem entryAt_of_find {inode : Inode} (there : d.find path = .ok inode) {node : Node}
    (known : d.nodes inode = some node) :
    d.entryAt path = .ok (inode, node.kind, node.uid, node.gid, node.mode) := by
  unfold Disk.entryAt Disk.lstat
  rw [there]
  dsimp only [Disk.metadata]
  rw [known]
  rfl

/-- A number that no file used is not the inode of what was at the path. -/
theorem entryAt_ne_of_free {now : Inode × FileKind × Nat × Nat × Nat} (free : d.Free now.1) :
    d.entryAt path ≠ .ok now := by
  intro same
  unfold Disk.entryAt at same
  cases found : d.lstat path with
  | error e => rw [found] at same; cases same
  | ok metadata =>
      rw [found] at same
      obtain ⟨there, _⟩ := lstat_ok found
      obtain ⟨dir, _, entry⟩ := Disk.find_ok.mp there
      have inode : now.1 = metadata.inode := by
        rw [← Except.ok.inj same]
        rfl
      exact free.2 dir path.name (inode ▸ entry)

theorem Disk.SameContents.entryAt {e : Disk} (same : d.SameContents e)
    (here : d.directoryOf path = .ok dir) : e.entryAt path = d.entryAt path := by
  have there : e.directoryOf path = .ok dir := by
    unfold Disk.directoryOf at here ⊢
    rw [same.root]
    apply Disk.walk_congr same.root ?_ here
    intro a n i entry _
    refine ⟨(same.entry a n).trans entry, ?_⟩
    rw [Disk.kindOf, Disk.kindOf, same.nodes i (.inr ⟨a, n, entry⟩)]
  unfold Disk.entryAt Disk.lstat Disk.find
  rw [here, there]
  dsimp only
  rw [same.entry]
  cases entry : d.entry dir path.name with
  | none => rfl
  | some inode =>
      dsimp only [Disk.metadata]
      rw [same.nodes inode (.inr ⟨dir, path.name, entry⟩)]

variable {process : Process} {s : OneFault}

theorem OneFault.changed_of_published {t : OneFault} {node : Node} {now : Time}
    (published : Disk.Published d t.host.disk dir path.name file node now)
    (here : d.directoryOf path = .ok dir)
    (plain : ∀ old, d.entry dir path.name = some old → d.Plain old) (late : t.late = true) :
    t.Changed d path := by
  refine ⟨late, ?_⟩
  have found : t.host.disk.entryAt path = .ok (Metadata.entry ⟨file, node⟩) := by
    unfold Disk.entryAt
    rw [published.lstat here plain]
    rfl
  rw [found]
  exact (entryAt_ne_of_free published.free).symm

theorem fault_dropTemp_pending (pending : s.Pending d path temp dir file) :
    Program.wp (OneFault.kernel process path).rule (dropTemp temp)
      (fun _ t => t.Refused d path) s := by
  obtain ⟨hidden, content, pending⟩ := pending
  apply call_oneFault (.unlink temp)
  · intro choice _
    obtain ⟨e, removed, same⟩ := pending.unlink choice
    have after := carried_unlink process removed
    refine .inl ⟨hidden.late, ?_, ?_⟩
    · rw [after]
      exact same.entryAt pending.here
    · intro _ inner name _ _
      rw [after]
      exact same.entry inner name
  · intro _ e answer choice written _
    obtain ⟨node, staged, kind, _⟩ := pending.staged
    by_cases own : temp.name = path.name
    · have itself : temp = path := by
        rw [pending.tempPath_eq, own]
      refine .inr ⟨?_, ?_⟩
      · simp [OneFault.failed, itself]
      · have there : s.host.disk.find path = .ok file := by
          rw [← itself, pending.tempPath_eq]
          exact staged.find_self pending.here
        have found := entryAt_of_find there staged.node
        show s.host.disk.entryAt path ≠ _
        rw [found]
        exact (entryAt_ne_of_free staged.free).symm
    · have other : temp ≠ path := fun same => own (congrArg Path.name same)
      refine .inl ⟨?_, ?_, ?_⟩
      · simp [OneFault.failed, hidden.late, hidden.published, other]
      · show s.host.disk.entryAt path = _
        unfold Disk.entryAt
        rw [staged.lstat pending.here fun same => own same.symm]
      · intro dropped
        simp [OneFault.failed, hidden.published, OneFault.unlinks] at dropped

theorem fault_dropTemp_stuck (stuck : s.Stuck d path temp dir file) :
    Program.wp (OneFault.kernel process path).rule (dropTemp temp)
      (fun _ t => t.Refused d path) s := by
  apply call_oneFault (.unlink temp)
  · intro choice _
    obtain ⟨e, node, now, removed, published⟩ := stuck.closes choice
    have after := carried_unlink process removed
    rw [← after] at published
    refine .inr (OneFault.changed_of_published published stuck.here ?_ stuck.late)
    intro old there
    rw [stuck.absent] at there
    cases there
  · intro unspent
    rw [stuck.spent] at unspent
    cases unspent

variable {expected : ExpectedRevision}

/-- A comparison that succeeds has found the file that is expected. -/
theorem fault_conflictForExisting (hidden : s.Hidden) (disk : s.host.disk = d) :
    wp (OneFault.kernel process path).rule (conflictForExisting expected path)
      (fun _ t => (t.Hidden ∧ t.host.disk = d) ∧ d.Agrees path expected)
      (fun _ t => t.Hidden ∧ t.host.disk = d) s := by
  have quiet := looking_indifferent path
  have looked : wp (OneFault.kernel process path).rule (conflictForExisting expected path)
      (fun _ t => t.Hidden ∧ t.host.disk = d) (fun _ t => t.Hidden ∧ t.host.disk = d) s :=
    hidden_looks (· = d) (stays_conflictForExisting quiet expected) hidden disk
  cases expected with
  | missing =>
      apply wp_mono looked _ fun _ _ refused => refused
      intro _ t same
      refine ⟨same, ?_⟩
      intro revision differs
      cases differs
  | present revision =>
      have alone : wp (Host.kernel process).rule (conflictForExisting (.present revision) path)
          (fun _ _ => d.Meets path (.present revision)) (fun _ _ => True) s.host := by
        rw [wp_conflictForExisting, disk]
        cases compared : d.conflictAt (.present revision) path with
        | ok value => exact (conflictAt_ok _).mp compared
        | error reason => trivial
      have sound : wp (OneFault.kernel process path).rule
          (conflictForExisting (.present revision) path)
          (fun _ t => t.spent = s.spent) (fun _ _ => True) s :=
        wp_fragile (fragile_conflictForExisting revision)
      apply wp_mono (wp_and looked (wp_and sound (wp_unfailed alone)))
      · intro _ t both
        obtain ⟨same, spent, meets⟩ := both
        refine ⟨same, ?_⟩
        intro _ _
        exact meets spent
      · exact fun _ _ both => both.1

/-- A published file is verified, unless the failure is among the calls of the verification. -/
theorem fault_verifyPublished (shown : s.Shown d path dir file bytes)
    (writable : Writable bytes) :
    wp (OneFault.kernel process path).rule (verifyPublished path bytes)
      (fun _ t => t.late = false) (fun _ t => t.Changed d path) s := by
  obtain ⟨node, now, published, kind, single⟩ := shown.landed
  have read := published.revisionAt shown.here shown.plain kind single writable.small writable.valid
  have alone : wp (Host.kernel process).rule (verifyPublished path bytes) (fun _ _ => True)
      (fun _ _ => False) s.host := by
    unfold verifyPublished
    rw [wp_bind, wp_readWithRevision, read]
    show wp _ (if bytes = bytes then _ else _) _ _ _
    rw [if_pos rfl]
    trivial
  have looked : wp (OneFault.kernel process path).rule (verifyPublished path bytes)
      (fun _ t => Looked s t) (fun _ t => Looked s t) s := by
    apply looks
    apply (stays_readWithRevision (looking_indifferent path)).bind
    intro found
    split
    · exact .pure _
    · exact .stop _
  have sound : wp (OneFault.kernel process path).rule (verifyPublished path bytes)
      (fun _ t => t.spent = s.spent) (fun _ _ => True) s :=
    wp_fragile (fragile_verifyPublished bytes)
  apply wp_mono (wp_and looked (wp_and sound (wp_unfailed alone)))
  · intro _ t both
    obtain ⟨looked, spent, _⟩ := both
    rcases looked.late with ⟨_, late⟩ | ⟨unspent, failed, _⟩
    · exact late.trans shown.late
    · rw [spent, unspent] at failed
      cases failed
  · intro _ t both
    obtain ⟨looked, _, impossible⟩ := both
    rcases looked.late with ⟨same, _⟩ | ⟨_, _, late⟩
    · exact (impossible same).elim
    · rw [← looked.host] at published
      apply OneFault.changed_of_published published shown.here shown.plain
      rw [late, shown.published, Bool.or_true]

/-- Until the file is published. -/
theorem fault_publishLocked (hidden : s.Hidden) (disk : s.host.disk = d) :
    wp (OneFault.kernel process path).rule (publishLocked process path bytes expected)
      (fun _ t => Writable bytes ∧ ∃ dir file, t.Shown d path dir file bytes)
      (fun _ t => t.Refused d path) s := by
  have quiet := looking_indifferent path
  have kept : ∀ (reason : RevisionError) (t : OneFault), t.Hidden ∧ t.host.disk = d →
      t.Refused d path := fun _ t early => .inl (early.1.kept early.2)
  unfold publishLocked
  rw [wp_bind, wp_require]
  refine ⟨fun small => ?_, fun _ => kept .tooLarge s ⟨hidden, disk⟩⟩
  rw [wp_bind, wp_require]
  refine ⟨fun valid => ?_, fun _ => kept .tooLarge s ⟨hidden, disk⟩⟩
  rw [wp_bind]
  apply wp_mono (fault_conflictForExisting hidden disk) _ kept
  intro _ t compared
  obtain ⟨⟨hidden, disk⟩, agrees⟩ := compared
  rw [wp_bind]
  apply wp_mono (hidden_looks (· = d) (stays_checkedLstat quiet) hidden disk) _ kept
  intro original t looked
  rw [wp_bind]
  apply wp_mono (fault_newTemp 100 looked.2 looked.1) _ kept
  intro made t started
  obtain ⟨hidden, dir, pending⟩ := started
  rw [wp_guarded]
  apply wp_mono (fault_stageAndPublish pending hidden agrees original)
  · exact fun _ u shown => ⟨⟨of_decide_eq_true small, valid⟩, dir, made.2, shown⟩
  · intro reason u refused
    rcases refused with pending | stuck
    · exact fault_dropTemp_pending pending
    · exact fault_dropTemp_stuck stuck

theorem fault_conditionalWriteLocked (hidden : s.Hidden) (disk : s.host.disk = d) :
    wp (OneFault.kernel process path).rule (conditionalWriteLocked process path bytes expected)
      (fun _ t => t.late = false) (fun _ t => t.Refused d path) s := by
  apply wp_publishAndVerify
  apply wp_mono (fault_publishLocked hidden disk) _ fun _ _ refused => refused
  intro _ t written
  obtain ⟨writable, dir, file, shown⟩ := written
  exact wp_mono (fault_verifyPublished shown writable) (fun _ _ late => late) fun _ _ => .inr

end Outcome

/-- A write that is refused has left the entry at the path and, unless the clean-up failed, the
temporary names as they were, exactly when no call failed after the publication and none that was to
remove a temporary file at the path itself. -/
theorem refused_write_unchanged_iff (process : Process) (path : Path) (bytes : Bytes)
    (expected : ExpectedRevision) (h : Host) (result : Except RevisionError Revision) (t : OneFault)
    (run : Program.Executes (OneFault.kernel process path)
      (conditionalWriteLocked process path bytes expected) { host := h } result t) :
    (∀ reason, result = .error reason → t.host.disk.entryAt path = h.disk.entryAt path ∧
      (t.undropped = false → h.disk.SameTemps t.host.disk path)) ↔ t.late = false := by
  have hidden : OneFault.Hidden { host := h } := ⟨rfl, rfl, rfl⟩
  have ended := Program.wp_executes (fault_conditionalWriteLocked hidden rfl) run
  cases result with
  | ok revision =>
      have late : t.late = false := ended
      constructor
      · exact fun _ => late
      · intro _ reason differs
        cases differs
  | error reason =>
      have refused : t.Refused h.disk path := ended
      rcases refused with kept | changed
      · exact ⟨fun _ => kept.late, fun _ _ _ => ⟨kept.entry, kept.temps⟩⟩
      · constructor
        · intro unchanged
          exact absurd (unchanged reason rfl).1 changed.entry
        · intro early
          rw [changed.late] at early
          cases early

section Sample

def Attempt.sound : Attempt := { choice := sampleChoice }

def Attempt.broken : Attempt := { choice := sampleChoice, failure := some .inputOutput }

/-- The temporary file cannot be flushed. -/
def unflushed : List Attempt := List.replicate 5 .sound ++ [.broken, .sound]

theorem permits_unflushed : Program.Permits (OneFault.kernel sampleProcess ⟨[], "g"⟩) unflushed
    creating { host := sampleHost } := by
  have fine : ∀ s : OneFault, Attempt.sound.failure ≠ none → s.spent = false :=
    fun _ failed => absurd rfl failed
  refine ⟨⟨trivial, fine _⟩, ⟨trivial, fine _⟩, ⟨trivial, fine _⟩, ⟨?_, fine _⟩, ⟨trivial, fine _⟩,
    ⟨trivial, fun _ => rfl⟩, ⟨trivial, fine _⟩, trivial⟩
  intro dir _
  exact sampleDisk_free (by decide)

theorem refused_write_unchanged_iff_unflushed :
    ∃ reason t, Program.Executes (OneFault.kernel sampleProcess ⟨[], "g"⟩) creating
        { host := sampleHost } (.error reason) t ∧
      t.host.disk.entryAt ⟨[], "g"⟩ = sampleDisk.entryAt ⟨[], "g"⟩ ∧
      sampleDisk.SameTemps t.host.disk ⟨[], "g"⟩ := by
  have steps := Program.steps_of_advance permits_unflushed
  obtain ⟨entry, temps⟩ := (refused_write_unchanged_iff sampleProcess ⟨[], "g"⟩ [98] .missing
    sampleHost _ _ steps).mpr (by decide +kernel) _ rfl
  exact ⟨_, _, steps, entry, temps (by decide +kernel)⟩

/-- The new file is linked, and its temporary name cannot be removed. -/
def unreleased : List Attempt := List.replicate 8 .sound ++ [.broken, .sound]

theorem permits_unreleased : Program.Permits (OneFault.kernel sampleProcess ⟨[], "g"⟩) unreleased
    creating { host := sampleHost } := by
  have fine : ∀ s : OneFault, Attempt.sound.failure ≠ none → s.spent = false :=
    fun _ failed => absurd rfl failed
  refine ⟨⟨trivial, fine _⟩, ⟨trivial, fine _⟩, ⟨trivial, fine _⟩, ⟨?_, fine _⟩, ⟨trivial, fine _⟩,
    ⟨trivial, fine _⟩, ⟨trivial, fine _⟩, ⟨trivial, fine _⟩, ⟨trivial, fun _ => rfl⟩,
    ⟨trivial, fine _⟩, trivial⟩
  intro dir _
  exact sampleDisk_free (by decide)

/-- A creation fails, and the file is there. -/
theorem failed_creation_stays :
    ¬ ∀ (process : Process) (path : Path) (bytes : Bytes) (expected : ExpectedRevision) (h : Host)
      (reason : RevisionError) (t : OneFault), Program.Executes (OneFault.kernel process path)
        (conditionalWriteLocked process path bytes expected) { host := h } (.error reason) t →
      t.host.disk.entryAt path = h.disk.entryAt path := by
  intro unchanged
  have same := unchanged _ _ _ _ _ _ _ (Program.steps_of_advance permits_unreleased)
  exact absurd same (by decide +kernel)

end Sample

end EmacsRelay

import EmacsRelay.Server.Atomic

set_option autoImplicit false

/- The calls of a conditional write that replaces a file, in the order it makes them whatever they
are answered: look, create a temporary file, fill it, rename it or remove it. -/
namespace EmacsRelay

open Trial

/-- How far a conditional write has come. It has `found` a file at the path, it `owns` a temporary
file, it has `published` that file, or it is `closing` because it was refused. -/
inductive WritePhase where
  | fresh
  | found
  | owns (temp : Path) (file : Inode)
  | closing
  | published
deriving DecidableEq, Repr

namespace WritePhase

def Legal (path : Path) : WritePhase → Call → Prop
  | _, .lstat _ => True
  | _, .openRead _ => True
  | _, .fstat _ => True
  | _, .readFile _ => True
  | _, .read _ _ _ => True
  | _, .syncAll _ => True
  | .found, .fetchAdd => True
  | .found, .createNew temp _ => temp.parent = path.parent
  | .owns _ file, .fchown target _ _ => target = file
  | .owns _ file, .fchmod target _ => target = file
  | .owns _ file, .writeAll target _ => target = file
  | .owns temp _, .rename source target => source = temp ∧ target = path
  | .owns temp _, .unlink target => target = temp
  | _, _ => False

def advance (path : Path) : WritePhase → (request : Call) → Answer request → WritePhase
  | .fresh, .lstat target, .ok _ => if target = path then .found else .fresh
  | .found, .createNew temp _, .ok file => .owns temp file
  | .owns _ _, .rename _ _, .ok _ => .published
  | .owns _ _, .unlink _, _ => .closing
  | phase, _, _ => phase

def protocol (path : Path) : Protocol Call Answer WritePhase where
  legal := Legal path
  advance := advance path

end WritePhase

/-- The calls by which the file at a path is read and compared, and a file is flushed. -/
def Call.Harmless (path : Path) : Call → Prop
  | .lstat target => target = path
  | .openRead target => target = path
  | .fstat _ => True
  | .readFile _ => True
  | .read _ _ _ => True
  | .syncAll _ => True
  | _ => False

theorem host_of_harmless {process : Process} {path : Path} {request : Call}
    (harmless : request.Harmless path) (choice : KernelChoice) (h : Host) :
    (Host.exec process request choice h).2 = h := by
  cases request <;> first | rfl | exact harmless.elim

/-- A phase in which all of them are legal, and which none of them ends. -/
def Indifferent {σ : Type} (p : Protocol Call Answer σ) (path : Path) (phase : σ) : Prop :=
  ∀ request : Call, request.Harmless path →
    p.legal phase request ∧ ∀ answer, p.advance phase request answer = phase

section Reads

variable {σ : Type} {p : Protocol Call Answer σ} {path : Path} {phase : σ}

/-- A program that leaves the phase as it is. -/
def Stays {α : Type} (p : Protocol Call Answer σ) (phase : σ) (body : Io α) : Prop :=
  wp p.rule body (fun _ after => after = phase) (fun _ after => after = phase) phase

theorem Stays.bind {α β : Type} {body : Io α} {next : α → Io β} (first : Stays p phase body)
    (rest : ∀ value, Stays p phase (next value)) : Stays p phase (body >>= next) := by
  unfold Stays
  rw [wp_bind]
  apply wp_mono first
  · intro value after same
    rw [same]
    exact rest value
  · intro reason after same
    exact same

theorem Stays.pure {α : Type} (value : α) : Stays p phase (Pure.pure value) := rfl

theorem Stays.stop {α : Type} (reason : RevisionError) :
    Stays p phase (Trial.stop reason : Io α) := rfl

theorem Stays.ofExcept {δ α : Type} (f : δ → RevisionError) (result : Except δ α) :
    Stays p phase (Trial.ofExcept f result) := by
  cases result <;> rfl

theorem Stays.require (test : Bool) (reason : RevisionError) :
    Stays p phase (require test reason) := by
  cases test <;> rfl

theorem Stays.refuseType (metadata : Metadata) : Stays p phase (refuseType metadata) := by
  unfold EmacsRelay.refuseType
  cases finalType metadata <;> rfl

variable (quiet : Indifferent p path phase)

include quiet

theorem Stays.harmless (request : Call) (harmless : request.Harmless path) :
    Stays p phase (ask request : Io (Answer request)) := by
  obtain ⟨legal, stays⟩ := quiet request harmless
  exact ⟨legal, stays⟩

theorem stays_checkedLstat : Stays p phase (checkedLstat path) := by
  apply (Stays.harmless quiet (.lstat path) rfl).bind
  intro result
  split
  · exact .pure _
  · exact .pure _
  · exact .stop _

theorem stays_openChecked : Stays p phase (openChecked path) := by
  apply (stays_checkedLstat quiet).bind
  intro initial
  cases initial with
  | none => exact .stop _
  | some metadata =>
      apply (Stays.refuseType metadata).bind
      intro _
      apply (Stays.harmless quiet (.openRead path) rfl).bind
      exact fun opened => .ofExcept _ opened

theorem stays_readToEnd (file : Inode) (offset limit : Nat) :
    Stays p phase (readToEnd file offset limit) := by
  apply readOn_all
  · exact fun result => .pure result
  · exact fun offset limit next rest =>
      (Stays.harmless quiet (.read file offset limit) trivial).bind rest
  · exact fun body join rest => rest.bind fun result => .pure (join result)

theorem stays_readAttempt : Stays p phase (readAttempt path) := by
  apply (stays_openChecked quiet).bind
  intro file
  have sample : Stays p phase (Sys.fstat file) := .harmless quiet (.fstat file) trivial
  apply sample.bind
  intro sampled
  apply (Stays.ofExcept _ sampled).bind
  intro before
  apply (Stays.refuseType before).bind
  intro _
  apply (Stays.require _ _).bind
  intro _
  apply (stays_readToEnd quiet file 0 _).bind
  intro content
  apply (Stays.ofExcept _ content).bind
  intro content
  apply (Stays.require _ _).bind
  intro _
  apply sample.bind
  intro sampled
  apply (Stays.ofExcept _ sampled).bind
  intro after
  apply (Stays.refuseType after).bind
  intro _
  split
  · apply (Stays.require _ _).bind
    exact fun _ => .pure _
  · exact .pure _

theorem stays_readAttempts (attempts : Nat) : Stays p phase (readAttempts path attempts) := by
  induction attempts with
  | zero => exact .stop _
  | succ attempts ih =>
      apply (stays_readAttempt quiet).bind
      intro read
      cases read with
      | some read => exact .pure _
      | none => exact ih

theorem stays_readWithRevision : Stays p phase (readWithRevision path) :=
  stays_readAttempts quiet readLimit

theorem stays_missingAppearanceConflict {α : Type} (metadata : Metadata) :
    Stays p phase (missingAppearanceConflict path metadata : Io α) := by
  unfold missingAppearanceConflict
  split
  · exact .stop _
  · exact .stop _
  · apply (stays_readWithRevision quiet).bind
    exact fun current => .stop _

omit quiet in
/-- The comparison once something was found at the path. -/
def compareFound (revision : Revision) (path : Path) : Option Metadata → Io Unit
  | none => stop (.conflict .deleted none)
  | some metadata =>
      match finalType metadata with
      | some .hardlink => stop (.unsupportedFinalType .hardlink)
      | some _ => stop (.conflict .typeChanged none)
      | none => do
          let current ← readWithRevision path
          if current.revision = revision then pure ()
          else stop (.conflict .changed (some current.revision))

theorem stays_compareFound (revision : Revision) (found : Option Metadata) :
    Stays p phase (compareFound revision path found) := by
  cases found with
  | none => exact .stop _
  | some metadata =>
      simp only [compareFound]
      split
      · exact .stop _
      · exact .stop _
      · apply (stays_readWithRevision quiet).bind
        intro current
        split
        · exact .pure _
        · exact .stop _

omit quiet in
theorem conflictForExisting_present (revision : Revision) :
    conflictForExisting (.present revision) path = (do
      require revision.isValidFileRevision (.io "write: invalid expected revision")
      let found ← checkedLstat path
      compareFound revision path found) := by
  unfold conflictForExisting compareFound
  congr

theorem stays_conflictForExisting (expected : ExpectedRevision) :
    Stays p phase (conflictForExisting expected path) := by
  cases expected with
  | missing =>
      apply (stays_checkedLstat quiet).bind
      intro found
      cases found with
      | none => exact .pure _
      | some metadata => exact stays_missingAppearanceConflict quiet metadata
  | present revision =>
      rw [conflictForExisting_present]
      apply (Stays.require _ _).bind
      intro _
      apply (stays_checkedLstat quiet).bind
      exact fun found => stays_compareFound quiet revision found

theorem stays_syncTemp (file : Inode) : Stays p phase (syncTemp file) := by
  apply (Stays.harmless quiet (.syncAll file) trivial).bind
  exact fun synced => .ofExcept _ synced

end Reads

variable {path : Path} {phase : WritePhase}

section Calls

variable {failed : RevisionError → WritePhase → Prop}

theorem WritePhase.indifferent (begun : phase ≠ .fresh) :
    Indifferent (WritePhase.protocol path) path phase := by
  intro request harmless
  cases request with
  | lstat target =>
      cases phase with
      | fresh => exact absurd rfl begun
      | _ => exact ⟨trivial, fun _ => rfl⟩
  | openRead target => cases phase <;> exact ⟨trivial, fun _ => rfl⟩
  | fstat file => cases phase <;> exact ⟨trivial, fun _ => rfl⟩
  | readFile file => cases phase <;> exact ⟨trivial, fun _ => rfl⟩
  | read file offset length => cases phase <;> exact ⟨trivial, fun _ => rfl⟩
  | syncAll file => cases phase <;> exact ⟨trivial, fun _ => rfl⟩
  | _ => exact harmless.elim

theorem follows_fetchAdd {post : Nat → WritePhase → Prop} (holds : ∀ serial, post serial .found) :
    wp (WritePhase.protocol path).rule Sys.fetchAdd post failed .found :=
  ⟨trivial, holds⟩

theorem follows_createNew {temp : Path} {post : Except OsError Inode → WritePhase → Prop}
    (beside : temp.parent = path.parent) (made : ∀ file, post (.ok file) (.owns temp file))
    (refused : ∀ e, post (.error e) .found) :
    wp (WritePhase.protocol path).rule (Sys.createNew temp) post failed .found := by
  refine ⟨beside, fun answer => ?_⟩
  cases answer with
  | ok file => exact made file
  | error e => exact refused e

end Calls

section Write

/-- A file found at the path takes the write out of its first phase. -/
theorem follows_checkedLstat :
    wp (WritePhase.protocol path).rule (checkedLstat path)
      (fun found after => found = none ∨ after = .found) (fun _ _ => True) .fresh := by
  unfold checkedLstat
  rw [wp_bind]
  refine ⟨trivial, fun answer => ?_⟩
  cases answer with
  | error e =>
      cases e with
      | notFound => exact .inl rfl
      | _ => trivial
  | ok metadata => exact .inr (if_pos rfl)

theorem follows_conflictForExisting (revision : Revision) :
    wp (WritePhase.protocol path).rule (conflictForExisting (.present revision) path)
      (fun _ after => after = .found) (fun _ _ => True) .fresh := by
  rw [conflictForExisting_present, wp_bind]
  apply wp_mono (Stays.require _ _) _ fun _ _ _ => trivial
  intro _ phase same
  rw [same, wp_bind]
  apply wp_mono follows_checkedLstat _ fun _ _ _ => trivial
  intro found phase known
  have quiet : Indifferent (WritePhase.protocol path) path .found :=
    WritePhase.indifferent (by decide)
  rcases known with absent | same
  · rw [absent]
    trivial
  · rw [same]
    exact wp_mono (stays_compareFound quiet revision found) (fun _ _ same => same)
      fun _ _ _ => trivial

theorem follows_newTemp (process : Process) (tries : Nat) :
    wp (WritePhase.protocol path).rule (newTemp process path tries)
      (fun made after => after = .owns made.1 made.2) (fun _ _ => True) .found := by
  induction tries with
  | zero => trivial
  | succ tries ih =>
      unfold newTemp
      rw [wp_bind]
      apply follows_fetchAdd
      intro serial
      rw [wp_bind]
      apply follows_createNew
      · rfl
      · exact fun file => rfl
      · intro e
        cases e with
        | alreadyExists => exact ih
        | _ => trivial

variable {temp : Path} {file : Inode}

theorem stays_preserveMetadata (original : Option Metadata) :
    Stays (WritePhase.protocol path) (.owns temp file) (preserveMetadata file original) := by
  cases original with
  | none => exact .pure _
  | some metadata =>
      apply Stays.bind
      · exact ⟨rfl, fun _ => rfl⟩
      intro owned
      apply (Stays.ofExcept _ owned).bind
      intro _
      apply Stays.bind
      · exact ⟨rfl, fun _ => rfl⟩
      · exact fun set => .ofExcept _ set

theorem stays_writeTemp (bytes : Bytes) : Stays (WritePhase.protocol path) (.owns temp file) (writeTemp file bytes) := by
  apply Stays.bind
  · exact ⟨rfl, fun _ => rfl⟩
  · exact fun written => .ofExcept _ written

theorem follows_publish (revision : Revision) :
    wp (WritePhase.protocol path).rule (publish (.present revision) temp path)
      (fun _ after => after = .published) (fun _ after => after = .owns temp file)
      (.owns temp file) := by
  unfold publish
  rw [wp_bind]
  refine ⟨⟨rfl, rfl⟩, fun answer => ?_⟩
  cases answer with
  | ok value => rfl
  | error e => rfl

theorem follows_stageAndPublish (bytes : Bytes) (revision : Revision)
    (original : Option Metadata) :
    wp (WritePhase.protocol path).rule
      (do
        preserveMetadata file original
        writeTemp file bytes
        syncTemp file
        conflictForExisting (.present revision) path
        publish (.present revision) temp path)
      (fun _ after => after = .published) (fun _ after => after = .owns temp file)
      (.owns temp file) := by
  have quiet : Indifferent (WritePhase.protocol path) path (.owns temp file) :=
    WritePhase.indifferent (by simp)
  rw [wp_bind]
  apply wp_mono (stays_preserveMetadata original) _ fun _ _ same => same
  intro _ phase same
  rw [same, wp_bind]
  apply wp_mono (stays_writeTemp bytes) _ fun _ _ same => same
  intro _ phase same
  rw [same, wp_bind]
  apply wp_mono (stays_syncTemp quiet file) _ fun _ _ same => same
  intro _ phase same
  rw [same, wp_bind]
  apply wp_mono (stays_conflictForExisting quiet (.present revision)) _ fun _ _ same => same
  intro _ phase same
  rw [same]
  exact follows_publish revision

theorem follows_dropTemp :
    Program.wp (WritePhase.protocol path).rule (dropTemp temp) (fun _ _ => True) (.owns temp file) :=
  ⟨rfl, fun _ => trivial⟩

/-- A conditional write keeps to its phases, and has published its file when it succeeds. -/
theorem follows_conditionalWriteLocked (process : Process) (bytes : Bytes) (revision : Revision) :
    wp (WritePhase.protocol path).rule (conditionalWriteLocked process path bytes (.present revision))
      (fun _ after => after = .published) (fun _ _ => True) .fresh := by
  have quiet : Indifferent (WritePhase.protocol path) path .found :=
    WritePhase.indifferent (by decide)
  have ended : Indifferent (WritePhase.protocol path) path .published :=
    WritePhase.indifferent (by decide)
  unfold conditionalWriteLocked
  rw [wp_bind]
  apply wp_mono (Stays.require _ _) _ fun _ _ _ => trivial
  intro _ phase same
  rw [same, wp_bind]
  apply wp_mono (Stays.require _ _) _ fun _ _ _ => trivial
  intro _ phase same
  rw [same, wp_bind]
  apply wp_mono (follows_conflictForExisting revision) _ fun _ _ _ => trivial
  intro _ phase same
  rw [same, wp_bind]
  apply wp_mono (stays_checkedLstat quiet) _ fun _ _ _ => trivial
  intro original phase same
  rw [same, wp_bind]
  apply wp_mono (follows_newTemp process 100) _ fun _ _ _ => trivial
  intro (temp, file) phase same
  dsimp only at same ⊢
  rw [same, wp_bind, wp_guarded]
  apply wp_mono (follows_stageAndPublish bytes revision original)
  · intro _ phase same
    rw [same, wp_bind]
    apply wp_mono (stays_readWithRevision ended) _ fun _ _ _ => trivial
    intro read phase same
    rw [wp_ite]
    exact ⟨fun _ => same, fun _ => trivial⟩
  · intro reason phase same
    rw [same]
    exact follows_dropTemp

end Write

end EmacsRelay

import EmacsRelay.Lib.Reach
import EmacsRelay.Lib.Timeline
import EmacsRelay.Server.Revision
import EmacsRelay.Server.Stat

set_option autoImplicit false

/- The time that the editor keeps of a visited file, `lisp/relay-file-handler.el` and
`lisp/relay-save.el`: what Auto-Revert learns from it about the file on the server. -/
namespace EmacsRelay.VisitedFile

open Server (Attrs statValue)

/-- A time of the editor. -/
structure LispTime where
  high : Int
  low : Int
  micro : Int
  pico : Int
deriving DecidableEq, Repr

/-- `time-convert` of whole seconds to a list. -/
def timeConvert (seconds : Int) : LispTime := ⟨seconds / 65536, seconds % 65536, 0, 0⟩

/-- Seconds, with the nanoseconds put in. -/
def timeOf (seconds nanoseconds : Int) : LispTime :=
  { timeConvert seconds with
    micro := nanoseconds.tdiv 1000
    pico := nanoseconds.tmod 1000 * 1000 }

/-- `relay--attrs-time`. -/
def attrsTime (attrs : Attrs) : LispTime := timeOf attrs.mtime (attrs.mtimeNsec.getD 0)

/-- `relay-save--revision-time`. -/
def revisionTime (revision : Revision) : LispTime := timeOf revision.mtimeSec revision.mtimeNsec

/-- What the editor keeps for a buffer: seconds and nanoseconds, if anything. -/
inductive Modtime where
  | unknown
  | known (seconds nanoseconds : Int)
deriving DecidableEq, Repr

/-- `set-visited-file-modtime` with a time. -/
def setVisitedFileModtime (time : LispTime) : Modtime :=
  .known (time.high * 65536 + time.low + time.micro / 1000000)
    (time.micro % 1000000 * 1000 + time.pico / 1000)

/-- `visited-file-modtime`, of a time that is known. -/
def visitedFileModtime (seconds nanoseconds : Int) : LispTime where
  high := seconds / 65536
  low := seconds % 65536
  micro := nanoseconds / 1000
  pico := nanoseconds % 1000 * 1000

/-- A file as it is for a while. -/
structure Version where
  bytes : Bytes
  metadata : Server.Metadata
  nanoseconds : 0 ≤ metadata.mtimeNsec ∧ metadata.mtimeNsec < 1000000000

namespace Version

def stamp (v : Version) : Int × Int := (v.metadata.mtime, v.metadata.mtimeNsec)

/-- The revision that a read or a write reports. -/
structure Reports (v : Version) (revision : Revision) : Prop where
  seconds : revision.mtimeSec = v.metadata.mtime
  nanoseconds : revision.mtimeNsec = v.metadata.mtimeNsec

end Version

section Times

/-- A time is kept as it is. -/
theorem setVisitedFileModtime_timeOf {seconds nanoseconds : Int}
    (bounds : 0 ≤ nanoseconds ∧ nanoseconds < 1000000000) :
    setVisitedFileModtime (timeOf seconds nanoseconds) = .known seconds nanoseconds := by
  obtain ⟨nonneg, small⟩ := bounds
  have micro : nanoseconds.tdiv 1000 = nanoseconds / 1000 := Int.tdiv_eq_ediv_of_nonneg nonneg
  have pico : nanoseconds.tmod 1000 = nanoseconds % 1000 := Int.tmod_eq_emod_of_nonneg nonneg
  unfold setVisitedFileModtime timeOf timeConvert
  simp only [micro, pico]
  congr 1
  · omega
  · omega

/-- It is read back as the time that attributes or revisions are turned into. -/
theorem visitedFileModtime_eq_iff {seconds nanoseconds seconds' nanoseconds' : Int}
    (bounds : 0 ≤ nanoseconds ∧ nanoseconds < 1000000000) :
    timeOf seconds nanoseconds = visitedFileModtime seconds' nanoseconds' ↔
      (seconds, nanoseconds) = (seconds', nanoseconds') := by
  have micro : nanoseconds.tdiv 1000 = nanoseconds / 1000 := Int.tdiv_eq_ediv_of_nonneg bounds.1
  have pico : nanoseconds.tmod 1000 = nanoseconds % 1000 := Int.tmod_eq_emod_of_nonneg bounds.1
  unfold timeOf timeConvert visitedFileModtime
  simp only [micro, pico, LispTime.mk.injEq, Prod.mk.injEq]
  constructor
  · rintro ⟨high, low, micros, picos⟩
    exact ⟨by omega, by omega⟩
  · rintro ⟨rfl, rfl⟩
    exact ⟨rfl, rfl, rfl, rfl⟩

end Times

/-- A buffer and the file it visits; `entry` is the file's entry in the listing of its directory, if
one is cached that has it. `reading` is kept for stating properties: what the server has found for a
request that the buffer waits for, and how often the file has changed since. -/
structure Visit where
  file : Timeline (Option Version)
  entry : Option Attrs := none
  bytes : Bytes := []
  based : Bool := false
  modified : Bool := false
  modtime : Modtime := .unknown
  reading : Option (Version × Nat) := none

inductive Event where
  /-- Somebody, other clients and this one included, changes the file. -/
  | change (version : Option Version)
  /-- The server reads the file for a visit or a revert, or has just written it for a synchronous
  save. -/
  | serve
  /-- The reply has come; ANSWER is the server's to `stat`, if it is asked. -/
  | visited (bytes : Bytes) (answer : Option Attrs)
  /-- A listing of the directory is cached, or is no longer. -/
  | listed (entry : Option Attrs)
  | edit
  /-- An asynchronous save of these bytes is confirmed; there may be newer edits. -/
  | saved (bytes : Bytes) (revision : Revision) (newer : Bool)

namespace Visit

def versions (s : Visit) : List (Option Version) := s.file.versions

/-- `relay--stat`: the server is asked only where no cached listing has the file. -/
def relayStat (s : Visit) (answer : Option Attrs) : Option Attrs := s.entry.or answer

/-- `relay--h-set-visited-file-modtime` without a time: what is not found leaves the time as it is. -/
def hSetVisitedFileModtime (attrs : Option Attrs) (before : Modtime) : Modtime :=
  match attrs with
  | some attrs => setVisitedFileModtime (attrsTime attrs)
  | none => before

def step (s : Visit) : Event → Visit
  | .change version =>
      { s with
        file := s.file.advance version
        reading := s.reading.map fun (found, since) => (found, since + 1) }
  | .serve => { s with reading := s.file.now.map fun found => (found, 0) }
  | .visited bytes answer =>
      { s with
        bytes := bytes
        based := true
        modified := false
        modtime := hSetVisitedFileModtime (s.relayStat answer) s.modtime
        reading := none }
  | .listed entry => { s with entry := entry }
  | .edit => { s with modified := true }
  | .saved bytes revision newer =>
      { s with
        bytes := bytes
        based := true
        modified := newer
        modtime := setVisitedFileModtime (revisionTime revision) }

/-- What `stat` finds now. -/
def stat (s : Visit) : Option Attrs := statValue (s.file.now.map (·.metadata))

/-- `relay--h-verify-visited-file-modtime`; the editor does not ask the handler while the time is
unknown. -/
def verify (s : Visit) : Bool :=
  match s.modtime with
  | .unknown => true
  | .known seconds nanoseconds =>
      if s.based && s.modified then true
      else (s.relayStat s.stat).any fun attrs =>
        attrsTime attrs = visitedFileModtime seconds nanoseconds

/-- No listing is cached that says something else of the file than the server would. -/
def ListedNow (s : Visit) : Prop := ∀ attrs, s.entry = some attrs → s.stat = some attrs

/-- The attributes are those that the file had AGO changes ago. -/
def Answers (s : Visit) (ago : Nat) (attrs : Option Attrs) : Prop :=
  ∃ v, s.versions[ago]? = some (some v) ∧ attrs = statValue (some v.metadata)

end Visit

def stampOf (version : Option Version) : Option (Int × Int) := version.map (·.stamp)

/-- A change gives the file a time that it has not had, and what a save reports is what it has
published. -/
def Stamped (s : Visit) : Event → Prop
  | .change version => version.isSome = true → Timeline.Fresh stampOf s.file version
  | .visited bytes _ => ∃ v since, s.reading = some (v, since) ∧ bytes = v.bytes
  | .saved bytes revision _ => ∃ v, some v ∈ s.versions ∧ v.bytes = bytes ∧ v.Reports revision
  | _ => True

/-- The time that is kept with what was read is not that of a later change. -/
def Timely (s : Visit) : Event → Prop
  | .visited _ answer => ∀ v since, s.reading = some (v, since) →
      ∃ ago, since ≤ ago ∧ s.Answers ago (s.relayStat answer)
  | _ => True

/-- The file is there and has these bytes. -/
def Has (bytes : Bytes) (version : Option Version) : Prop := ∃ v, version = some v ∧ v.bytes = bytes

/-- Times are of one version each, and what the server has found is among the versions. -/
structure Sound (s : Visit) : Prop where
  distinct : ∀ v, s.file.now = some v → ∀ earlier ∈ s.file.past, stampOf earlier ≠ some v.stamp
  reading : ∀ v since, s.reading = some (v, since) → s.versions[since]? = some (some v)

/-- A time that is kept vouches for the bytes of the buffer. -/
def Dated (s : Visit) : Prop :=
  ∀ seconds nanoseconds, s.modtime = .known seconds nanoseconds →
    Timeline.Vouches stampOf s.file (some (seconds, nanoseconds)) (Has s.bytes)

section Running

variable {s : Visit} {v : Version}

theorem sound_step (sound : Sound s) (event : Event) (stamped : Stamped s event) :
    Sound (s.step event) := by
  cases event with
  | change version =>
      constructor
      case distinct =>
        rintro v rfl earlier there same
        exact stamped rfl earlier there same
      case reading =>
        intro v since found
        obtain ⟨⟨found', since'⟩, before, same⟩ := Option.map_eq_some_iff.mp found
        obtain ⟨rfl, rfl⟩ := Prod.mk.inj same
        exact sound.reading _ _ before
  | serve =>
      constructor
      case distinct => exact sound.distinct
      case reading =>
        intro v since found
        obtain ⟨found', now, same⟩ := Option.map_eq_some_iff.mp found
        obtain ⟨rfl, rfl⟩ := Prod.mk.inj same
        exact congrArg some now
  | visited bytes answer =>
      constructor
      case distinct => exact sound.distinct
      case reading =>
        intro v since found
        cases found
  | edit => exact ⟨sound.distinct, sound.reading⟩
  | listed entry => exact ⟨sound.distinct, sound.reading⟩
  | saved bytes revision newer => exact ⟨sound.distinct, sound.reading⟩

/-- Only the present version has the stamp of the present one. -/
theorem Sound.ago_eq_zero (sound : Sound s) {ago : Nat} (there : s.versions[ago]? = some (some v))
    (same : stampOf s.file.now = some v.stamp) : ago = 0 := by
  cases ago with
  | zero => rfl
  | succ ago =>
      obtain ⟨now, is_now, stamp⟩ := Option.map_eq_some_iff.mp same
      have member : some v ∈ s.file.past := List.mem_of_getElem? there
      exact absurd (congrArg some stamp.symm) (sound.distinct now is_now _ member)

theorem setVisitedFileModtime_attrs (v : Version) {attrs : Option Attrs} (before : Modtime)
    (found : attrs = statValue (some v.metadata)) :
    Visit.hSetVisitedFileModtime attrs before = .known v.stamp.1 v.stamp.2 := by
  rw [found]
  exact setVisitedFileModtime_timeOf v.nanoseconds

theorem setVisitedFileModtime_revision {revision : Revision} (reports : v.Reports revision) :
    setVisitedFileModtime (revisionTime revision) = .known v.stamp.1 v.stamp.2 := by
  rw [revisionTime, reports.seconds, reports.nanoseconds]
  exact setVisitedFileModtime_timeOf v.nanoseconds

/-- The stamp of a version that has the bytes vouches for them. -/
theorem Sound.vouches (sound : Sound s) {bytes : Bytes} {ago : Nat}
    (there : s.versions[ago]? = some (some v)) (holds : ago = 0 → v.bytes = bytes) :
    Timeline.Vouches stampOf s.file (some v.stamp) (Has bytes) where
  known := ⟨some v, List.mem_of_getElem? there, rfl⟩
  holds now := by
    have here := sound.ago_eq_zero there now
    subst here
    exact ⟨v, Option.some.inj there, holds rfl⟩

theorem dated_step (sound : Sound s) (dated : Dated s) (event : Event) (stamped : Stamped s event)
    (timely : Timely s event) : Dated (s.step event) := by
  cases event with
  | change version =>
      intro seconds nanoseconds known
      have vouches := dated seconds nanoseconds known
      cases version with
      | none =>
          obtain ⟨earlier, there, same⟩ := vouches.known
          have still : earlier ∈ (s.file.advance none).versions := List.mem_cons_of_mem _ there
          constructor
          case known => exact ⟨earlier, still, same⟩
          case holds =>
            intro now
            cases now
      | some version => exact vouches.advance (stamped rfl)
  | serve => exact dated
  | visited bytes answer =>
      obtain ⟨v, since, found, rfl⟩ := stamped
      obtain ⟨ago, later, u, there, answers⟩ := timely v since found
      intro seconds nanoseconds known
      have kept : Modtime.known seconds nanoseconds = .known u.stamp.1 u.stamp.2 :=
        known.symm.trans (setVisitedFileModtime_attrs u s.modtime answers)
      obtain ⟨rfl, rfl⟩ := Modtime.known.inj kept
      refine sound.vouches there fun here => ?_
      -- nothing has changed since the read
      have unchanged : since = 0 := by omega
      have same := sound.reading v since found
      rw [unchanged, ← here, there] at same
      exact congrArg Version.bytes (Option.some.inj (Option.some.inj same))
  | edit => exact dated
  | listed entry => exact dated
  | saved bytes revision newer =>
      obtain ⟨v, there, rfl, reports⟩ := stamped
      intro seconds nanoseconds known
      have kept : Modtime.known seconds nanoseconds = .known v.stamp.1 v.stamp.2 :=
        known.symm.trans (setVisitedFileModtime_revision reports)
      obtain ⟨rfl, rfl⟩ := Modtime.known.inj kept
      obtain ⟨ago, there⟩ := List.mem_iff_getElem?.mp there
      exact sound.vouches there fun _ => rfl

theorem Visit.ListedNow.relayStat (listed : s.ListedNow) : s.relayStat s.stat = s.stat := by
  unfold Visit.relayStat
  cases there : s.entry with
  | none => rfl
  | some attrs => exact (listed attrs there).symm

/-- The handler compares stamps. -/
theorem verify_told_iff {seconds nanoseconds : Int} (known : s.modtime = .known seconds nanoseconds)
    (clean : s.modified = false) {found : Option Version}
    (told : s.relayStat s.stat = statValue (found.map (·.metadata))) :
    s.verify = true ↔ stampOf found = some (seconds, nanoseconds) := by
  unfold Visit.verify
  rw [known, clean, Bool.and_false, told]
  cases found with
  | none => exact iff_of_false Bool.false_ne_true nofun
  | some v =>
      have compared : attrsTime ((statValue (some v.metadata)).get rfl) =
          visitedFileModtime seconds nanoseconds ↔ v.stamp = (seconds, nanoseconds) :=
        visitedFileModtime_eq_iff v.nanoseconds
      show decide _ = true ↔ some v.stamp = some (seconds, nanoseconds)
      rw [decide_eq_true_eq, Option.some.injEq]
      exact compared

theorem verify_listed_iff {seconds nanoseconds : Int}
    (known : s.modtime = .known seconds nanoseconds) (clean : s.modified = false)
    (listed : s.ListedNow) : s.verify = true ↔ stampOf s.file.now = some (seconds, nanoseconds) :=
  verify_told_iff known clean listed.relayStat

/-- After a time of AGO changes ago has been kept, the handler finds the file changed unless that was
the last change. -/
theorem Sound.verify_iff (sound : Sound s) {ago : Nat} (there : s.versions[ago]? = some (some v))
    {t : Visit} (file : t.file = s.file) (clean : t.modified = false)
    (known : t.modtime = .known v.stamp.1 v.stamp.2) (listed : t.ListedNow) :
    t.verify = true ↔ ago = 0 := by
  rw [verify_listed_iff known clean listed, file]
  constructor
  · exact sound.ago_eq_zero there
  · rintro rfl
    have now : s.file.now = some v := Option.some.inj there
    rw [now]
    rfl

end Running

/-- A buffer before the file has been read. -/
def Visit.start (file : Option Version) : Visit := { file := { now := file } }

theorem sound_start (file : Option Version) : Sound (.start file) where
  distinct _ _ _ there := by cases there
  reading _ _ found := by cases found

end EmacsRelay.VisitedFile

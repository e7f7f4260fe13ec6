import EmacsRelay.Server.Alone
import Mathlib.Data.List.Infix

set_option autoImplicit false

/- Reads of a file that others change meanwhile: `read_with_revision` and `read_range` of
`server/src/revisions/read.rs`, with every `read` of a descriptor a call of its own. -/
namespace EmacsRelay

open Trial

/-- `MAX_RANGE_BYTES`. -/
def maxRangeBytes : Nat := 1024 * 1024

/-- One attempt of `read_range`; nothing when the file changed meanwhile. -/
def rangeAttempt (path : Path) (start finish : Nat) : Io (Option Bytes) := do
  let file ← openChecked path
  let sampled ← Sys.fstat file
  let before ← ofExcept (ioError "read_range") sampled
  refuseType before
  let actualEnd := min finish before.size
  if actualEnd < start then pure (some [])
  else do
    let content ← readToEnd file start (actualEnd - start)
    let bytes ← ofExcept (ioError "read_range") content
    let sampled ← Sys.fstat file
    let after ← ofExcept (ioError "read_range") sampled
    pure (if metadataEqual before after then some bytes else none)

def rangeAttempts (path : Path) (start finish : Nat) : Nat → Io Bytes
  | 0 => stop .unstableRead
  | attempts + 1 => do
      let read ← rangeAttempt path start finish
      match read with
      | some bytes => pure bytes
      | none => rangeAttempts path start finish attempts

/-- `read_range`. -/
def readRange (path : Path) (start finish : Nat) : Io Bytes :=
  if finish < start ∨ maxRangeBytes < finish - start then stop .tooLarge
  else rangeAttempts path start finish readLimit

/-- The file system at every instant. -/
abbrev Film : Type := Nat → Disk

/-- The instants that pass before a call, and what the kernel chooses. -/
structure Moment where
  passed : Nat
  choice : KernelChoice

namespace Film

variable (film : Film)

/-- The system as a reader meets it. Its own calls change nothing. -/
def kernel (process : Process) : Kernel Call Answer Nat where
  Input := Moment
  allowed _ _ _ := True
  exec request input now :=
    ((Host.exec process request input.choice ⟨film (now + input.passed), fun _ => 0⟩).1,
      now + input.passed)

/-- What a regular file contains. -/
def content (instant : Nat) (file : Inode) : Option Bytes :=
  match (film instant).kindOf file with
  | some (.file bytes) => some bytes
  | _ => none

/-- A change to a file's content tells its compared metadata before the change from those after. -/
def Telling : Prop :=
  ∀ file change, film.content change file ≠ film.content (change + 1) file →
    ∀ earlier later before after, earlier ≤ change → change < later →
      (film earlier).metadata file = .ok before → (film later).metadata file = .ok after →
      metadataEqual before after = false

/-- Every change to a file's content changes at least one compared metadata field. -/
def Marking : Prop :=
  ∀ file change before after, film.content change file ≠ film.content (change + 1) file →
    (film change).metadata file = .ok before → (film (change + 1)).metadata file = .ok after →
    metadataEqual before after = false

theorem Telling.marking {film : Film} (telling : film.Telling) : film.Marking := by
  intro file change before after differs first second
  exact telling file change differs change (change + 1) before after (Nat.le_refl _)
    (Nat.lt_succ_self _) first second

/-- An instant of a call at which the regular, singly linked file it opened was this one. -/
def Held (path : Path) (start finish : Nat) (metadata : Metadata) : Prop :=
  ∃ opened instant, start ≤ opened ∧ opened ≤ instant ∧ instant ≤ finish ∧
    (film opened).openRead path = .ok metadata.inode ∧
    (film instant).metadata metadata.inode = .ok metadata ∧ finalType metadata = none

/-- A file is only appended to, from one instant to another. -/
structure Grows (file : Inode) (start finish : Nat) (contents : Nat → Bytes) : Prop where
  content : ∀ instant, start ≤ instant → instant ≤ finish →
    film.content instant file = some (contents instant)
  appends : ∀ earlier later, start ≤ earlier → earlier ≤ later → later ≤ finish →
    contents earlier <+: contents later

end Film

section Calls

variable {film : Film} {process : Process} {now : Nat} {failed : RevisionError → Nat → Prop}

/-- A call that only looks is answered from the file system at some later instant. -/
theorem film_look (request : Call) (answer : Disk → Answer request)
    (looks : ∀ choice h, (Host.exec process request choice h).1 = answer h.disk)
    (post : Answer request → Nat → Prop) :
    wp (film.kernel process) (ask request : Io (Answer request)) post failed now ↔
      ∀ later, now ≤ later → post (answer (film later)) later := by
  have unfolded : wp (film.kernel process) (ask request : Io (Answer request)) post failed now ↔
      ∀ moment : Moment, True →
        post (Host.exec process request moment.choice ⟨film (now + moment.passed), fun _ => 0⟩).1
          (now + moment.passed) := Iff.rfl
  rw [unfolded]
  constructor
  · intro all later reached
    have here := all ⟨later - now, default⟩ trivial
    rw [looks, show now + (later - now) = later by omega] at here
    exact here
  · intro all moment _
    rw [looks]
    exact all _ (by omega)

theorem film_lstat (path : Path) (post : Except OsError Metadata → Nat → Prop) :
    wp (film.kernel process) (Sys.lstat path) post failed now ↔
      ∀ later, now ≤ later → post ((film later).lstat path) later :=
  film_look (.lstat path) (fun d => d.lstat path) (fun _ _ => rfl) post

theorem film_openRead (path : Path) (post : Except OsError Inode → Nat → Prop) :
    wp (film.kernel process) (Sys.openRead path) post failed now ↔
      ∀ later, now ≤ later → post ((film later).openRead path) later :=
  film_look (.openRead path) (fun d => d.openRead path) (fun _ _ => rfl) post

theorem film_fstat (file : Inode) (post : Except OsError Metadata → Nat → Prop) :
    wp (film.kernel process) (Sys.fstat file) post failed now ↔
      ∀ later, now ≤ later → post ((film later).metadata file) later :=
  film_look (.fstat file) (fun d => d.metadata file) (fun _ _ => rfl) post

theorem film_read (file : Inode) (offset length : Nat) (post : Except OsError Bytes → Nat → Prop) :
    wp (film.kernel process) (Sys.read file offset length) post failed now ↔
      ∀ later choice, now ≤ later → post ((film later).readAt choice file offset length) later := by
  have unfolded : wp (film.kernel process) (Sys.read file offset length) post failed now ↔
      ∀ moment : Moment, True →
        post ((film (now + moment.passed)).readAt moment.choice file offset length)
          (now + moment.passed) := Iff.rfl
  rw [unfolded]
  constructor
  · intro all later choice reached
    have here := all ⟨later - now, choice⟩ trivial
    rw [show now + (later - now) = later by omega] at here
    exact here
  · intro all moment _
    exact all _ moment.choice (by omega)

theorem film_checkedLstat (path : Path) (post : Option Metadata → Nat → Prop) :
    wp (film.kernel process) (checkedLstat path) post failed now ↔
      ∀ later, now ≤ later →
        match (film later).lstat path with
        | .ok metadata => post (some metadata) later
        | .error .notFound => post none later
        | .error e => failed (ioError "read" e) later := by
  simp only [checkedLstat, wp_bind, film_lstat]
  apply forall_congr'
  intro later
  apply imp_congr_right
  intro _
  cases (film later).lstat path with
  | ok metadata => exact Iff.rfl
  | error e => cases e <;> exact Iff.rfl

/-- The file is looked at, and then opened. -/
theorem film_openChecked (path : Path) (post : Inode → Nat → Prop) :
    wp (film.kernel process) (openChecked path) post failed now ↔
      ∀ looked, now ≤ looked →
        match (film looked).lstat path with
        | .error e => failed (missingFile e) looked
        | .ok metadata =>
            match finalType metadata with
            | some kind => failed (.unsupportedFinalType kind) looked
            | none => ∀ later, looked ≤ later →
                match (film later).openRead path with
                | .ok file => post file later
                | .error e => failed (ioError "read" e) later := by
  simp only [openChecked, wp_bind, film_checkedLstat]
  apply forall_congr'
  intro looked
  apply imp_congr_right
  intro _
  cases (film looked).lstat path with
  | error e => cases e <;> exact Iff.rfl
  | ok metadata =>
      simp only [wp_refuseType, film_openRead]
      cases type : finalType metadata with
      | some kind => simp
      | none =>
          simp only [true_implies, reduceCtorEq, false_implies, implies_true, and_true]
          apply forall_congr'
          intro later
          apply imp_congr_right
          intro _
          cases (film later).openRead path with
          | ok file => simp
          | error e => simp

end Calls

/-- Bytes read from an offset on, while a file grew from `before` to `after`: they are in the file,
and all that was there when the read began. -/
structure Gathered (before after : Bytes) (offset limit : Nat) (bytes : Bytes) : Prop where
  found : bytes <+: after.drop offset
  bounded : bytes.length ≤ limit
  reaches : min limit (before.length - offset) ≤ bytes.length

namespace Gathered

variable {before between after bytes : Bytes} {offset limit : Nat}

theorem nil (short : min limit (before.length - offset) = 0) :
    Gathered before after offset limit [] := by
  constructor
  · exact List.nil_prefix
  · exact Nat.zero_le limit
  · simp [short]

/-- One read, and what is read after it. -/
theorem append {chunk : Bytes} {count : Nat} (grown : before <+: between) (grows : between <+: after)
    (chunk_eq : chunk = (between.drop offset).take (min limit count))
    (rest : Gathered between after (offset + chunk.length) (limit - chunk.length) bytes) :
    Gathered before after offset limit (chunk ++ bytes) := by
  have short : chunk.length ≤ limit := by
    rw [chunk_eq, List.length_take]
    omega
  have here : chunk <+: after.drop offset := by
    rw [chunk_eq]
    exact (List.take_prefix _ _).trans (List.IsPrefix.drop grows offset)
  constructor
  · apply append_isPrefix here
    rw [List.drop_drop]
    exact rest.found
  · have rest_short := rest.bounded
    rw [List.length_append]
    omega
  · have reached := rest.reaches
    have longer := grown.length_le
    rw [List.length_append]
    omega

/-- Of a file that did not change, exactly the part asked for is read. -/
theorem eq_slice (same : Gathered after after offset limit bytes) :
    bytes = (after.drop offset).take limit := by
  have exactly : bytes.length = min limit (after.drop offset).length := by
    have bounded := same.bounded
    have reaches := same.reaches
    have inside := same.found.length_le
    rw [List.length_drop] at inside ⊢
    omega
  have taken := List.prefix_iff_eq_take.mp same.found
  rw [exactly] at taken
  rw [taken, List.take_eq_take_iff]
  omega

end Gathered

section Gathering

variable {film : Film} {process : Process} {file : Inode}

theorem kindOf_of_content {instant : Nat} {bytes : Bytes}
    (content : film.content instant file = some bytes) :
    (film instant).kindOf file = some (.file bytes) := by
  unfold Film.content at content
  split at content
  · rename_i kind
    rw [kind, Option.some.inj content]
  · cases content

theorem readAt_of_content {instant : Nat} {bytes : Bytes} (choice : KernelChoice)
    (offset length : Nat) (content : film.content instant file = some bytes) :
    (film instant).readAt choice file offset length =
      .ok ((bytes.drop offset).take (min length (max 1 choice.count))) := by
  simp [Disk.readAt, kindOf_of_content content]

theorem Film.Grows.later {start later finish : Nat} {contents : Nat → Bytes}
    (grows : film.Grows file start finish contents) (after : start ≤ later) :
    film.Grows file later finish contents := by
  constructor
  · intro instant low high
    exact grows.content instant (by omega) high
  · intro one two low order high
    exact grows.appends one two (by omega) order high

/-- By induction on the reads that are left. -/
theorem film_readOn (fuel offset limit now : Nat) (enough : limit ≤ fuel) :
    wp (film.kernel process) (readOn file fuel offset limit)
      (fun result finish => now ≤ finish ∧ ∀ contents, film.Grows file now finish contents →
        ∃ bytes, result = .ok bytes ∧
          Gathered (contents now) (contents finish) offset limit bytes)
      (fun _ _ => False) now := by
  induction fuel generalizing offset limit now with
  | zero =>
      have none : limit = 0 := by omega
      simp only [readOn, wp_pure]
      refine ⟨Nat.le_refl now, fun contents _ => ⟨[], rfl, .nil (by omega)⟩⟩
  | succ fuel ih =>
      simp only [readOn, wp_ite]
      constructor
      · intro none
        rw [wp_pure]
        exact ⟨Nat.le_refl now, fun contents _ => ⟨[], rfl, .nil (by omega)⟩⟩
      · intro some
        rw [wp_bind, film_read]
        intro later choice passed
        have answered : ∀ contents, film.Grows file now later contents →
            (film later).readAt choice file offset limit =
              .ok (((contents later).drop offset).take (min limit (max 1 choice.count))) := by
          intro contents grows
          exact readAt_of_content choice offset limit (grows.content later passed (Nat.le_refl _))
        cases chunk : (film later).readAt choice file offset limit with
        | error e =>
            rw [chunk] at answered
            refine ⟨passed, fun contents grows => ?_⟩
            cases answered contents grows
        | ok bytes =>
            rw [chunk] at answered
            cases bytes with
            | nil =>
                refine ⟨passed, fun contents grows => ⟨[], rfl, .nil ?_⟩⟩
                have empty := Except.ok.inj (answered contents grows)
                have short := congrArg List.length empty
                have grown := (grows.appends now later (Nat.le_refl _) passed
                  (Nat.le_refl _)).length_le
                simp only [List.length_nil, List.length_take, List.length_drop] at short
                omega
            | cons first more =>
                have read : 1 ≤ (first :: more).length := by simp
                simp only [wp_bind]
                apply wp_mono (ih (offset + (first :: more).length)
                  (limit - (first :: more).length) later (by omega)) _ fun _ _ never => never
                intro result finish rest
                obtain ⟨after, gathered⟩ := rest
                rw [wp_pure]
                refine ⟨Nat.le_trans passed after, fun contents grows => ?_⟩
                have sofar : film.Grows file now later contents := by
                  constructor
                  · intro instant low high
                    exact grows.content instant low (by omega)
                  · intro one two low order high
                    exact grows.appends one two low order (by omega)
                obtain ⟨rest, result_eq, gathered⟩ := gathered contents (grows.later passed)
                refine ⟨(first :: more) ++ rest, by rw [result_eq]; rfl, ?_⟩
                exact gathered.append (grows.appends now later (Nat.le_refl _) passed after)
                  (grows.appends later finish passed after (Nat.le_refl _))
                  (Except.ok.inj (answered contents sofar))

end Gathering

section Stable

variable {film : Film} {process : Process} {path : Path}

/-- Between two samples that are equal the content does not change. -/
theorem Film.Telling.steady (telling : film.Telling) {file : Inode} {start finish : Nat}
    {before after : Metadata} (first : (film start).metadata file = .ok before)
    (second : (film finish).metadata file = .ok after) (same : metadataEqual before after = true)
    (instant : Nat) (low : start ≤ instant) (high : instant ≤ finish) :
    film.content instant file = film.content start file := by
  induction instant, low using Nat.le_induction with
  | base => rfl
  | succ instant low ih =>
      have unchanged := ih (by omega)
      by_cases change : film.content instant file = film.content (instant + 1) file
      · exact change.symm.trans unchanged
      · have told := telling file instant change start finish before after low (by omega) first second
        rw [told] at same
        cases same

theorem content_of_metadata {instant : Nat} {file : Inode} {metadata : Metadata} {bytes : Bytes}
    (sampled : (film instant).metadata file = .ok metadata)
    (kind : metadata.node.kind = .file bytes) :
    metadata.inode = file ∧ film.content instant file = some bytes := by
  unfold Disk.metadata at sampled
  cases node : (film instant).nodes file with
  | none =>
      rw [node] at sampled
      cases sampled
  | some found =>
      rw [node] at sampled
      have named := Except.ok.inj sampled
      have regular : found.kind = .file bytes := by
        rw [← named] at kind
        exact kind
      constructor
      · rw [← named]
      · simp [Film.content, Disk.kindOf, node, regular]

/-- Equal samples pin the content: what is read in between is exactly the part asked for. -/
theorem gathered_of_equal (telling : film.Telling) {file : Inode}
    {sampled read resampled offset limit : Nat} {before after : Metadata} {content : Bytes}
    {result : Except OsError Bytes} {bytes : Bytes}
    (first : (film sampled).metadata file = .ok before) (reading : sampled ≤ read)
    (kind : before.node.kind = .file content)
    (second : (film resampled).metadata file = .ok after) (rereading : read ≤ resampled)
    (same : metadataEqual before after = true) (result_eq : result = .ok bytes)
    (gathered : ∀ contents, film.Grows file sampled read contents → ∃ bytes, result = .ok bytes ∧
      Gathered (contents sampled) (contents read) offset limit bytes) :
    bytes = (content.drop offset).take limit ∧ film.content resampled file = some content := by
  have start := (content_of_metadata first kind).2
  have pinned : ∀ instant, sampled ≤ instant → instant ≤ resampled →
      film.content instant file = some content := by
    intro instant low high
    rw [telling.steady first second same instant low high, start]
  have grows : film.Grows file sampled read fun _ => content := by
    constructor
    · intro instant low high
      exact pinned instant low (by omega)
    · exact fun _ _ _ _ _ => List.prefix_rfl
  obtain ⟨gotten, gotten_eq, parts⟩ := gathered _ grows
  rw [result_eq] at gotten_eq
  rw [Except.ok.inj gotten_eq]
  exact ⟨parts.eq_slice, pinned resampled (by omega) (Nat.le_refl _)⟩

/-- What `read_with_revision` returned is the file it opened, as it was at one instant. -/
def Film.Established (film : Film) (path : Path) (start finish : Nat) (read : RevisionRead) : Prop :=
  ∃ metadata, film.Held path start finish metadata ∧ metadata.node.kind = .file read.bytes ∧
    read.revision = .fromMetadata metadata (sha256 read.bytes)

theorem Film.Held.earlier {start later finish : Nat} {metadata : Metadata}
    (held : film.Held path later finish metadata) (before : start ≤ later) :
    film.Held path start finish metadata := by
  obtain ⟨opened, instant, after, rest⟩ := held
  exact ⟨opened, instant, Nat.le_trans before after, rest⟩

/-- A file that is opened, sampled and found to be ordinary. -/
theorem film_openSample {α : Type} (context : String) (next : Inode → Metadata → Io α)
    {post : α → Nat → Prop} (start : Nat)
    (rest : ∀ opened sampled file before content, start ≤ opened → opened ≤ sampled →
      (film opened).openRead path = .ok file → (film sampled).metadata file = .ok before →
      finalType before = none → before.node.kind = .file content →
      wp (film.kernel process) (next file before) post (fun _ _ => True) sampled) :
    wp (film.kernel process)
      (do
        let file ← openChecked path
        let sampled ← Sys.fstat file
        let before ← ofExcept (ioError context) sampled
        refuseType before
        next file before) post (fun _ _ => True) start := by
  rw [wp_bind, film_openChecked]
  intro looked first
  cases (film looked).lstat path with
  | error e => trivial
  | ok metadata =>
      dsimp only
      cases type : finalType metadata with
      | some kind => trivial
      | none =>
          intro opened second
          cases there : (film opened).openRead path with
          | error e => trivial
          | ok file =>
              dsimp only
              rw [wp_bind, film_fstat]
              intro sampled third
              rw [wp_bind, wp_ofExcept]
              constructor
              · intro before found
                rw [wp_bind, wp_refuseType]
                constructor
                · intro plain
                  obtain ⟨⟨content, kind⟩, _⟩ := finalType_none.mp plain
                  exact rest opened sampled file before content (by omega) third there found plain
                    kind
                · exact fun _ _ => trivial
              · exact fun _ _ => trivial

theorem film_readAttempt (telling : film.Telling) (start : Nat) :
    wp (film.kernel process) (readAttempt path)
      (fun read finish => start ≤ finish ∧
        ∀ found, read = some found → film.Established path start finish found)
      (fun _ _ => True) start := by
  apply film_openSample
  intro opened sampled file before content first second there found plain kind
  rw [wp_bind, wp_require]
  refine ⟨fun small => ?_, fun _ => trivial⟩
  have size : before.size = content.length := by simp [Metadata.size, kind]
  rw [size, decide_eq_true_eq] at small
  rw [wp_bind]
  apply wp_mono (film_readOn (maxReadBytes + 1) 0 (maxReadBytes + 1) sampled (Nat.le_refl _)) _
    fun _ _ never => never.elim
  intro result finish reading
  obtain ⟨third, gathered⟩ := reading
  rw [wp_bind, wp_ofExcept]
  refine ⟨fun bytes result_eq => ?_, fun _ _ => trivial⟩
  rw [wp_bind, wp_require]
  refine ⟨fun _ => ?_, fun _ => trivial⟩
  rw [wp_bind, film_fstat]
  intro resampled fourth
  rw [wp_bind, wp_ofExcept]
  refine ⟨fun after refound => ?_, fun _ _ => trivial⟩
  rw [wp_bind, wp_refuseType]
  refine ⟨fun still => ?_, fun _ _ => trivial⟩
  rw [wp_ite]
  constructor
  · intro same
    rw [wp_bind, wp_require]
    refine ⟨fun _ => ?_, fun _ => trivial⟩
    rw [wp_pure]
    refine ⟨by omega, fun read read_eq => ?_⟩
    have pinned := gathered_of_equal telling found third kind refound fourth same result_eq gathered
    have whole : bytes = content := by
      rw [pinned.1, List.drop_zero, List.take_of_length_le (by omega)]
    obtain ⟨⟨last, last_kind⟩, _⟩ := finalType_none.mp still
    have last_content := (content_of_metadata refound last_kind).2
    rw [pinned.2] at last_content
    rw [← Option.some.inj read_eq]
    refine ⟨after, ⟨opened, resampled, first, by omega, Nat.le_refl _, ?_, ?_, still⟩, ?_, rfl⟩
    · rw [(content_of_metadata refound last_kind).1]
      exact there
    · rw [(content_of_metadata refound last_kind).1]
      exact refound
    · rw [last_kind, whole, Option.some.inj last_content]
  · intro _
    rw [wp_pure]
    exact ⟨by omega, fun _ never => by cases never⟩

/-- By induction on the attempts that are left. -/
theorem film_readAttempts (telling : film.Telling) (attempts start : Nat) :
    wp (film.kernel process)
      (readAttempts path attempts)
      (fun read finish => film.Established path start finish read) (fun _ _ => True) start := by
  induction attempts generalizing start with
  | zero => trivial
  | succ attempts ih =>
      unfold readAttempts
      rw [wp_bind]
      apply wp_mono (film_readAttempt telling start) _ fun _ _ _ => trivial
      intro read later tried
      cases read with
      | some read => exact tried.2 read rfl
      | none =>
          apply wp_mono (ih later) _ fun _ _ _ => trivial
          intro read finish established
          obtain ⟨metadata, held, rest⟩ := established
          exact ⟨metadata, held.earlier tried.1, rest⟩

/-- What `read_range` returned is a slice of the file it opened, as it was at one instant. -/
def Film.Sliced (film : Film) (path : Path) (start finish first last : Nat) (bytes : Bytes) : Prop :=
  ∃ metadata content, film.Held path start finish metadata ∧ metadata.node.kind = .file content ∧
    bytes = (content.drop first).take (min last content.length - first)

theorem film_rangeAttempt (telling : film.Telling) (first last start : Nat) :
    wp (film.kernel process) (rangeAttempt path first last)
      (fun read finish => start ≤ finish ∧
        ∀ bytes, read = some bytes → film.Sliced path start finish first last bytes)
      (fun _ _ => True) start := by
  apply film_openSample
  intro opened sampled file before content after_start second there found plain kind
  have named := (content_of_metadata found kind).1
  have size : before.size = content.length := by simp [Metadata.size, kind]
  have held : ∀ finish, sampled ≤ finish → film.Held path start finish before := by
    intro finish later
    refine ⟨opened, sampled, after_start, second, later, ?_, ?_, plain⟩
    · rw [named]
      exact there
    · rw [named]
      exact found
  simp only [size, wp_ite]
  constructor
  · intro beyond
    rw [wp_pure]
    refine ⟨by omega, fun bytes read => ⟨before, content, held sampled (Nat.le_refl _), kind, ?_⟩⟩
    rw [← Option.some.inj read, show min last content.length - first = 0 by omega, List.take_zero]
  · intro _
    rw [wp_bind]
    apply wp_mono (film_readOn _ first (min last content.length - first) sampled (Nat.le_refl _)) _
      fun _ _ never => never.elim
    intro result finish reading
    obtain ⟨third, gathered⟩ := reading
    rw [wp_bind, wp_ofExcept]
    refine ⟨fun bytes result_eq => ?_, fun _ _ => trivial⟩
    rw [wp_bind, film_fstat]
    intro resampled fourth
    rw [wp_bind, wp_ofExcept]
    refine ⟨fun after refound => ?_, fun _ _ => trivial⟩
    rw [wp_pure]
    refine ⟨by omega, fun slice slice_eq => ⟨before, content, held _ (by omega), kind, ?_⟩⟩
    by_cases same : metadataEqual before after = true
    · rw [if_pos same] at slice_eq
      rw [← Option.some.inj slice_eq]
      exact (gathered_of_equal telling found third kind refound fourth same result_eq gathered).1
    · rw [if_neg same] at slice_eq
      cases slice_eq

theorem film_rangeAttempts (telling : film.Telling) (first last attempts start : Nat) :
    wp (film.kernel process) (rangeAttempts path first last attempts)
      (fun bytes finish => film.Sliced path start finish first last bytes)
      (fun _ _ => True) start := by
  induction attempts generalizing start with
  | zero => trivial
  | succ attempts ih =>
      unfold rangeAttempts
      rw [wp_bind]
      apply wp_mono (film_rangeAttempt telling first last start) _ fun _ _ _ => trivial
      intro read later tried
      cases read with
      | some bytes => exact tried.2 bytes rfl
      | none =>
          apply wp_mono (ih later) _ fun _ _ _ => trivial
          intro bytes finish sliced
          obtain ⟨metadata, content, held, rest⟩ := sliced
          exact ⟨metadata, content, held.earlier tried.1, rest⟩

end Stable

/-- A revision read is never torn, and a range read neither. -/
theorem reads_not_torn (film : Film) (telling : film.Telling) (process : Process) (path : Path)
    (start : Nat) :
    (∀ read finish,
      Program.Executes (film.kernel process) (readWithRevision path) start (.ok read) finish →
      ∃ metadata, film.Held path start finish metadata ∧ metadata.node.kind = .file read.bytes ∧
        read.revision.size = read.bytes.length ∧ read.revision.sha256 = sha256 read.bytes) ∧
    (∀ first last bytes finish,
      Program.Executes (film.kernel process) (readRange path first last) start (.ok bytes) finish →
      ∃ metadata content, film.Held path start finish metadata ∧
        metadata.node.kind = .file content ∧
        bytes = (content.drop first).take (min last content.length - first)) := by
  constructor
  · intro read finish run
    have read_whole : wp (film.kernel process) (readWithRevision path)
        (fun read finish => film.Established path start finish read) (fun _ _ => True) start :=
      film_readAttempts telling readLimit start
    have established := Program.wp_executes read_whole run
    obtain ⟨metadata, held, kind, revision⟩ := established
    refine ⟨metadata, held, kind, ?_, ?_⟩
    · rw [revision]
      simp [Revision.fromMetadata, Metadata.size, kind]
    · rw [revision]
      rfl
  · intro first last bytes finish run
    unfold readRange at run
    split at run
    · have refused : wp (film.kernel process) (stop .tooLarge : Io Bytes) (fun _ _ => False)
          (fun _ _ => True) start := trivial
      exact (Program.wp_executes refused run).elim
    · have read_part : wp (film.kernel process) (rangeAttempts path first last readLimit)
          (fun bytes finish => film.Sliced path start finish first last bytes)
          (fun _ _ => True) start :=
        film_rangeAttempts telling first last readLimit start
      exact Program.wp_executes read_part run

/-- One file, which is appended to after two instants. -/
def appended : Film := fun instant =>
  { root := ⟨1, 2⟩
    nodes := fun inode =>
      if inode = ⟨1, 2⟩ then some ⟨.directory, 0o755, 0, 0, 2, ⟨0, 0⟩, ⟨0, 0⟩⟩
      else if inode = ⟨1, 10⟩ then
        if instant < 2 then some ⟨.file [97], 0o644, 0, 0, 1, ⟨0, 0⟩, ⟨0, 0⟩⟩
        else some ⟨.file [97, 98], 0o644, 0, 0, 1, ⟨1, 0⟩, ⟨1, 0⟩⟩
      else none
    entries := fun inode => if inode = ⟨1, 2⟩ then [("f", ⟨1, 10⟩)] else [] }

theorem appended_telling : appended.Telling := by
  intro file change differs earlier later before after low high first second
  by_cases here : file = ⟨1, 10⟩
  · rw [here] at differs first second
    have changed : change = 1 := by
      by_contra other
      apply differs
      by_cases early : change < 1
      · have still : change + 1 < 2 := by omega
        have yet : change < 2 := by omega
        simp [Film.content, Disk.kindOf, appended, still, yet]
      · have past : ¬ change < 2 := by omega
        have further : ¬ change + 1 < 2 := by omega
        simp [Film.content, Disk.kindOf, appended, past, further]
    have old : earlier < 2 := by omega
    have new : ¬ later < 2 := by omega
    simp [Disk.metadata, appended, old, new] at first second
    rw [← first, ← second]
    decide
  · apply absurd _ differs
    by_cases root : file = ⟨1, 2⟩
    · simp [Film.content, Disk.kindOf, appended, root]
    · simp [Film.content, Disk.kindOf, appended, root, here]

/-- The first attempt reads while the file is appended to, the second reads all of it. -/
def appendedRead : List Moment :=
  let wait (instants : Nat) : Moment := ⟨instants, default⟩
  List.replicate 4 (wait 0) ++ wait 2 :: List.replicate 9 (wait 0)

theorem reads_not_torn_appended :
    ∃ read finish, Program.Executes (appended.kernel ⟨7, 0, 0, 0⟩) (readWithRevision ⟨[], "f"⟩) 0
        (.ok read) finish ∧ read.bytes = [97, 98] ∧
      ∃ metadata, appended.Held ⟨[], "f"⟩ 0 finish metadata ∧
        metadata.node.kind = .file read.bytes ∧ read.revision.size = read.bytes.length ∧
        read.revision.sha256 = sha256 read.bytes := by
  have permitted : Program.Permits (appended.kernel ⟨7, 0, 0, 0⟩) appendedRead
      (readWithRevision ⟨[], "f"⟩) 0 :=
    ⟨trivial, trivial, trivial, trivial, trivial, trivial, trivial, trivial, trivial, trivial,
      trivial, trivial, trivial, trivial, trivial⟩
  have run := Program.steps_of_advance permitted
  exact ⟨_, _, run, rfl,
    (reads_not_torn appended appended_telling ⟨7, 0, 0, 0⟩ ⟨[], "f"⟩ 0).1 _ _ run⟩

/-- One file, rewritten for one instant and then put back, its times included. -/
def putBack : Film := fun instant =>
  { root := ⟨1, 2⟩
    nodes := fun inode =>
      if inode = ⟨1, 2⟩ then some ⟨.directory, 0o755, 0, 0, 2, ⟨0, 0⟩, ⟨0, 0⟩⟩
      else if inode = ⟨1, 10⟩ then
        if instant = 1 then some ⟨.file [99, 100], 0o644, 0, 0, 1, ⟨1, 0⟩, ⟨1, 0⟩⟩
        else some ⟨.file [97, 98], 0o644, 0, 0, 1, ⟨0, 0⟩, ⟨0, 0⟩⟩
      else none
    entries := fun inode => if inode = ⟨1, 2⟩ then [("f", ⟨1, 10⟩)] else [] }

theorem putBack_marking : putBack.Marking := by
  intro file change before after differs first second
  by_cases here : file = ⟨1, 10⟩
  · rw [here] at differs first second
    by_cases starts : change = 0
    · simp [Disk.metadata, putBack, starts] at first second
      rw [← first, ← second]
      decide
    · by_cases ends : change = 1
      · simp [Disk.metadata, putBack, ends] at first second
        rw [← first, ← second]
        decide
      · apply absurd _ differs
        simp [Film.content, Disk.kindOf, putBack, starts, ends]
  · apply absurd _ differs
    by_cases root : file = ⟨1, 2⟩
    · simp [Film.content, Disk.kindOf, putBack, root]
    · simp [Film.content, Disk.kindOf, putBack, root, here]

/-- The file is read a byte at a time, the second byte while it is rewritten. -/
def putBackRead : List Moment :=
  let wait (instants : Nat) : Moment := ⟨instants, { (default : KernelChoice) with count := 1 }⟩
  List.replicate 4 (wait 0) ++ [wait 1, wait 1, wait 0]

/-- A file that is changed and put back between the two samples is read torn, though every change
changed its metadata. -/
theorem putBack_torn :
    ¬ ∀ (film : Film) process path start read finish, film.Marking →
      Program.Executes (film.kernel process) (readWithRevision path) start (.ok read) finish →
      ∃ metadata, film.Held path start finish metadata ∧
        metadata.node.kind = .file read.bytes := by
  intro untorn
  have permitted : Program.Permits (putBack.kernel ⟨7, 0, 0, 0⟩) putBackRead
      (readWithRevision ⟨[], "f"⟩) 0 :=
    ⟨trivial, trivial, trivial, trivial, trivial, trivial, trivial, trivial⟩
  have run := Program.steps_of_advance permitted
  obtain ⟨metadata, ⟨opened, instant, _, _, _, there, sampled, _⟩, kind⟩ :=
    untorn putBack ⟨7, 0, 0, 0⟩ ⟨[], "f"⟩ 0 _ _ putBack_marking run
  have content := (content_of_metadata sampled kind).2
  have named : metadata.inode = ⟨1, 10⟩ := by
    have found : (putBack opened).openRead ⟨[], "f"⟩ = .ok ⟨1, 10⟩ := by
      by_cases during : opened = 1 <;> simp [putBack, during] <;> rfl
    exact Except.ok.inj (there.symm.trans found)
  rw [named] at content
  by_cases during : instant = 1
  · simp [Film.content, Disk.kindOf, putBack, during] at content
  · simp [Film.content, Disk.kindOf, putBack, during] at content
    exact absurd content (by decide)

end EmacsRelay

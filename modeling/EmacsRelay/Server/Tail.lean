import EmacsRelay.Server.Read

set_option autoImplicit false

/- `tail_read` of `server/src/revisions/read.rs`, and reads of a file that is appended to, each from
where the one before it ended. -/
namespace EmacsRelay

open Trial

/-- The largest `u64`. -/
def u64Max : Nat := 0xffffffffffffffff

/-- A sum of two `u64`, if it is one. -/
def checkedAdd (a b : Nat) : Option Nat := if a + b ≤ u64Max then some (a + b) else none

def checkedSub (a b : Nat) : Option Nat := if b ≤ a then some (a - b) else none

def saturatingAdd (a b : Nat) : Nat := min (a + b) u64Max

structure TailRead where
  bytes : Bytes
  start : Nat
  actualEnd : Nat
  fileSize : Nat
  dev : Nat
  ino : Nat
  truncatedOrRotated : Bool
  moreAvailable : Bool
deriving DecidableEq, Repr

/-- `MAX_TAIL_BYTES`. -/
def maxTailBytes : Nat := 1024 * 1024

theorem checkedSub_of_lt {start wantEnd : Nat} (ahead : start < wantEnd) :
    checkedSub wantEnd start = some (wantEnd - start) :=
  if_pos (Nat.le_of_lt ahead)

/-- The caller knew another file, or more of this one than there is. -/
def truncatedOrRotated (metadata : Metadata) (knownOffset : Nat) (knownDev knownIno : Option Nat) :
    Bool :=
  let identityChanged :=
    knownDev.any (· != metadata.inode.dev) || knownIno.any (· != metadata.inode.ino)
  let shrunk := decide (metadata.size < knownOffset)
  identityChanged || shrunk

/-- The bytes of one reply; nothing when a difference overflows. -/
def tailBytes (file : Inode) (start wantEnd : Nat) : Io (Option Bytes) :=
  if start < wantEnd then
    match checkedSub wantEnd start with
    | none => pure none
    | some limit => do
        let content ← readToEnd file start limit
        let bytes ← ofExcept (ioError "tail_read") content
        pure (some bytes)
  else pure (some [])

def tailReply (metadata : Metadata) (start : Nat) (moved : Bool) (bytes : Bytes) :
    Option TailRead :=
  (checkedAdd start bytes.length).map fun actualEnd =>
    { bytes := bytes
      start := start
      actualEnd := actualEnd
      fileSize := metadata.size
      dev := metadata.inode.dev
      ino := metadata.inode.ino
      truncatedOrRotated := moved
      moreAvailable := decide (actualEnd < metadata.size) }

/-- `tail_read`; nothing when its arithmetic overflows. -/
def tailRead (path : Path) (knownOffset : Nat) (knownDev knownIno : Option Nat) (maxBytes : Nat) :
    Io (Option TailRead) := do
  let file ← openChecked path
  let sampled ← Sys.fstat file
  let metadata ← ofExcept (ioError "tail_read") sampled
  refuseType metadata
  let moved := truncatedOrRotated metadata knownOffset knownDev knownIno
  let start := if moved then 0 else knownOffset
  let wantEnd := min (saturatingAdd start (min maxBytes maxTailBytes)) metadata.size
  let read ← tailBytes file start wantEnd
  pure (read.bind (tailReply metadata start moved))

namespace Film

variable (film : Film)

/-- No file is larger than its size can tell. -/
def Sized : Prop := ∀ instant file bytes, film.content instant file = some bytes → bytes.length ≤ u64Max

/-- The path names one regular file all the time, which is only appended to. -/
structure Appended (path : Path) (file : Inode) (contents : Nat → Bytes) : Prop where
  found : ∀ instant, (film instant).find path = .ok file
  content : ∀ instant, film.content instant file = some (contents instant)
  appends : ∀ earlier later, earlier ≤ later → contents earlier <+: contents later

/-- Tail reads one after the other, the first with the anchor given, each of the others anchored at
the reply before it. -/
inductive Chain (process : Process) (path : Path) :
    Nat → Nat → Option Nat → Option Nat → List TailRead → Nat → Prop where
  | nil (now offset : Nat) (dev ino : Option Nat) : Chain process path now offset dev ino [] now
  | cons {now offset later finish : Nat} {dev ino : Option Nat} {reply : TailRead}
      {replies : List TailRead} (maxBytes : Nat) (positive : 1 ≤ maxBytes)
      (call : Program.Executes (film.kernel process) (tailRead path offset dev ino maxBytes) now
        (.ok (some reply)) later)
      (rest : Chain process path later reply.actualEnd (some reply.dev) (some reply.ino) replies
        finish) :
      Chain process path now offset dev ino (reply :: replies) finish

end Film

namespace TailRead

/-- Where a sequence of replies that began at an offset ends. -/
def lastEnd (offset : Nat) (replies : List TailRead) : Nat :=
  replies.foldl (fun _ reply => reply.actualEnd) offset

/-- Each reply starts where the one before it ends. -/
def Contiguous : Nat → List TailRead → Prop
  | _, [] => True
  | offset, reply :: replies => reply.start = offset ∧ Contiguous reply.actualEnd replies

end TailRead

section Overflow

variable {film : Film} {process : Process} {path : Path} {file : Inode}

theorem readAt_short {d : Disk} (choice : KernelChoice) {offset length : Nat} {bytes : Bytes}
    (read : d.readAt choice file offset length = .ok bytes) : bytes.length ≤ length := by
  unfold Disk.readAt at read
  split at read
  · rw [← Except.ok.inj read, List.length_take]
    omega
  · cases read
  · rw [← Except.ok.inj read]
    exact Nat.zero_le length

/-- A read never returns more than it was asked for, whatever happens to the file. -/
theorem film_readOn_short (fuel offset limit now : Nat) :
    wp (film.kernel process) (readOn file fuel offset limit)
      (fun result _ => ∀ bytes, result = .ok bytes → bytes.length ≤ limit) (fun _ _ => True)
      now := by
  have nothing : ∀ bytes : Bytes, (.ok [] : Except OsError Bytes) = .ok bytes →
      bytes.length ≤ limit := by
    intro bytes same
    rw [← Except.ok.inj same]
    exact Nat.zero_le limit
  induction fuel generalizing offset limit now with
  | zero => exact nothing
  | succ fuel ih =>
      simp only [readOn, wp_ite]
      constructor
      · exact fun _ => nothing
      · intro _
        rw [wp_bind, film_read]
        intro later choice _
        cases chunk : (film later).readAt choice file offset limit with
        | error e => exact fun bytes same => by cases same
        | ok bytes =>
            have short := readAt_short choice chunk
            cases bytes with
            | nil => exact nothing
            | cons first more =>
                simp only [wp_bind]
                have fewer : ∀ bytes : Bytes, (.ok [] : Except OsError Bytes) = .ok bytes →
                    bytes.length ≤ limit - (first :: more).length := by
                  intro bytes same
                  rw [← Except.ok.inj same]
                  exact Nat.zero_le _
                apply wp_mono (ih _ (limit - (first :: more).length) later fewer) _
                  fun _ _ _ => trivial
                intro result finish rest
                rw [wp_pure]
                intro bytes joined
                cases result with
                | error e => cases joined
                | ok others =>
                    rw [← Except.ok.inj joined, List.length_append]
                    have rest_short := rest others rfl
                    omega

theorem tailReply_isSome {metadata : Metadata} {start : Nat} {moved : Bool} {bytes : Bytes}
    (small : start + bytes.length ≤ u64Max) :
    (tailReply metadata start moved bytes).isSome = true := by
  simp [tailReply, checkedAdd, small]

theorem film_tailBytes_short (start wantEnd now : Nat) :
    wp (film.kernel process) (tailBytes file start wantEnd)
      (fun read _ => ∃ bytes, read = some bytes ∧ bytes.length ≤ wantEnd - start)
      (fun _ _ => True) now := by
  unfold tailBytes
  rw [wp_ite]
  constructor
  · intro ahead
    rw [checkedSub_of_lt ahead]
    dsimp only
    rw [wp_bind]
    apply wp_mono (film_readOn_short (wantEnd - start) start (wantEnd - start) now) _
      fun _ _ _ => trivial
    intro content later short
    rw [wp_bind, wp_ofExcept]
    exact ⟨fun bytes same => ⟨bytes, rfl, short bytes same⟩, fun _ _ => trivial⟩
  · exact fun _ => ⟨[], rfl, Nat.zero_le _⟩

theorem size_le_of_unmoved {metadata : Metadata} {offset : Nat} {dev ino : Option Nat}
    (unmoved : truncatedOrRotated metadata offset dev ino = false) : offset ≤ metadata.size := by
  by_contra beyond
  have shrunk : truncatedOrRotated metadata offset dev ino = true := by
    simp [truncatedOrRotated, show metadata.size < offset by omega]
  rw [unmoved] at shrunk
  cases shrunk

/-- The arithmetic of a tail read does not overflow. -/
theorem film_tailRead_some (sized : film.Sized) (knownOffset : Nat) (knownDev knownIno : Option Nat)
    (maxBytes now : Nat) :
    wp (film.kernel process) (tailRead path knownOffset knownDev knownIno maxBytes)
      (fun reply _ => reply.isSome = true) (fun _ _ => True) now := by
  apply film_openSample
  intro opened sampled file metadata content _ _ _ found plain kind
  have small : metadata.size ≤ u64Max := by
    have there := (content_of_metadata found kind).2
    have size : metadata.size = content.length := by simp [Metadata.size, kind]
    rw [size]
    exact sized sampled file content there
  dsimp only
  rw [wp_bind]
  apply wp_mono (film_tailBytes_short _ _ sampled) _ fun _ _ _ => trivial
  intro read later short
  obtain ⟨bytes, read_eq, short⟩ := short
  rw [wp_pure, read_eq, Option.bind_some]
  apply tailReply_isSome
  by_cases moved : truncatedOrRotated metadata knownOffset knownDev knownIno = true
  · simp only [moved, if_true] at short ⊢
    omega
  · have inside : knownOffset ≤ metadata.size :=
      size_le_of_unmoved (Bool.eq_false_iff.mpr moved)
    simp only [moved, Bool.false_eq_true, if_false] at short ⊢
    omega

end Overflow

section Appending

variable {film : Film} {process : Process} {path : Path} {file : Inode} {contents : Nat → Bytes}

/-- A reply to a tail read of a file that is appended to, asked for from `offset` on. -/
structure PicksUp (file : Inode) (contents : Nat → Bytes) (now later offset : Nat)
    (reply : TailRead) : Prop where
  passed : now ≤ later
  unmoved : reply.truncatedOrRotated = false
  start : reply.start = offset
  ends : reply.actualEnd = offset + reply.bytes.length
  inside : reply.actualEnd ≤ reply.fileSize
  size : reply.fileSize ≤ (contents later).length
  more : reply.moreAvailable = true → reply.actualEnd < reply.fileSize
  found : reply.bytes <+: (contents later).drop offset
  progress : offset < (contents now).length → reply.bytes ≠ []
  identity : reply.dev = file.dev ∧ reply.ino = file.ino

theorem Film.Appended.lstat (appended : film.Appended path file contents) (instant : Nat) :
    ∃ node, (film instant).lstat path = .ok ⟨file, node⟩ ∧
      (film instant).nodes file = some node ∧ node.kind = .file (contents instant) := by
  have kind := kindOf_of_content (appended.content instant)
  obtain ⟨node, found, regular⟩ := Option.map_eq_some_iff.mp kind
  refine ⟨node, ?_, found, regular⟩
  simp [Disk.lstat, appended.found, Disk.metadata, found]

theorem Film.Appended.grows (appended : film.Appended path file contents) (start finish : Nat) :
    film.Grows file start finish contents where
  content := fun instant _ _ => appended.content instant
  appends := fun earlier later _ order _ => appended.appends earlier later order

theorem finalType_of_file {metadata : Metadata} {bytes : Bytes}
    (kind : metadata.node.kind = .file bytes) :
    finalType metadata = none ∨ finalType metadata = some .hardlink := by
  unfold finalType
  rw [kind]
  by_cases single : metadata.node.nlink ≠ 1
  · exact .inr (if_pos single)
  · exact .inl (if_neg single)

/-- A file that is appended to can be opened, unless it has another link. -/
theorem film_openAppended (appended : film.Appended path file contents) (now : Nat) :
    wp (film.kernel process) (openChecked path) (fun opened later => now ≤ later ∧ opened = file)
      (fun reason _ => reason = .unsupportedFinalType .hardlink) now := by
  rw [film_openChecked]
  intro looked first
  obtain ⟨node, found, _, kind⟩ := appended.lstat looked
  rw [found]
  dsimp only
  have type : finalType ⟨file, node⟩ = none ∨ finalType ⟨file, node⟩ = some .hardlink :=
    finalType_of_file kind
  cases type with
  | inr linked =>
      rw [linked]
  | inl plain =>
      rw [plain]
      intro later second
      have opened : (film later).openRead path = .ok file := by
        have regular := kindOf_of_content (appended.content later)
        simp [Disk.openRead, appended.found, regular]
      rw [opened]
      exact ⟨Nat.le_trans first second, rfl⟩

theorem film_tailBytes (appended : film.Appended path file contents) (start wantEnd now : Nat) :
    wp (film.kernel process) (tailBytes file start wantEnd)
      (fun read later => now ≤ later ∧ ∃ bytes, read = some bytes ∧
        Gathered (contents now) (contents later) start (wantEnd - start) bytes)
      (fun _ _ => False) now := by
  unfold tailBytes
  rw [wp_ite]
  constructor
  · intro ahead
    rw [checkedSub_of_lt ahead]
    dsimp only
    rw [wp_bind]
    apply wp_mono (film_readOn (wantEnd - start) start (wantEnd - start) now (Nat.le_refl _)) _
      fun _ _ never => never
    intro content later reading
    obtain ⟨bytes, content_eq, gathered⟩ := reading.2 contents (appended.grows now later)
    rw [wp_bind, wp_ofExcept, content_eq]
    constructor
    · intro value same
      rw [wp_pure, ← Except.ok.inj same]
      exact ⟨reading.1, bytes, rfl, gathered⟩
    · exact fun reason never => by cases never
  · intro behind
    exact ⟨Nat.le_refl now, [], rfl, .nil (by omega)⟩

theorem tailReply_eq {metadata : Metadata} {start : Nat} {moved : Bool} {bytes : Bytes}
    (small : start + bytes.length ≤ u64Max) :
    tailReply metadata start moved bytes = some
      ⟨bytes, start, start + bytes.length, metadata.size, metadata.inode.dev, metadata.inode.ino,
        moved, decide (start + bytes.length < metadata.size)⟩ := by
  simp [tailReply, checkedAdd, small]

/-- Not flagged: the anchor is that of the file, and not beyond its size. -/
theorem truncatedOrRotated_false {metadata : Metadata} {offset : Nat} {dev ino : Option Nat}
    (sameDev : ∀ d ∈ dev, d = metadata.inode.dev) (sameIno : ∀ i ∈ ino, i = metadata.inode.ino)
    (within : offset ≤ metadata.size) : truncatedOrRotated metadata offset dev ino = false := by
  have known : ∀ (old : Option Nat) (new : Nat), (∀ n ∈ old, n = new) →
      old.any (· != new) = false := by
    intro old new same
    cases old with
    | none => rfl
    | some n => simp [same n rfl]
  unfold truncatedOrRotated
  simp [known dev _ sameDev, known ino _ sameIno, within]

theorem film_tailRead (appended : film.Appended path file contents) (sized : film.Sized)
    {offset now : Nat} {dev ino : Option Nat} {maxBytes : Nat} (sameDev : ∀ d ∈ dev, d = file.dev)
    (sameIno : ∀ i ∈ ino, i = file.ino) (within : offset ≤ (contents now).length)
    (positive : 1 ≤ maxBytes) :
    wp (film.kernel process) (tailRead path offset dev ino maxBytes)
      (fun reply later => ∃ found, reply = some found ∧
        PicksUp file contents now later offset found)
      (fun reason _ => reason = .unsupportedFinalType .hardlink) now := by
  unfold tailRead
  rw [wp_bind]
  apply wp_mono (film_openAppended appended now) _ fun _ _ linked => linked
  intro opened later opening
  obtain ⟨first, same⟩ := opening
  rw [same, wp_bind, film_fstat]
  intro sampled second
  obtain ⟨node, _, there, kind⟩ := appended.lstat sampled
  have found : (film sampled).metadata file = .ok ⟨file, node⟩ := by simp [Disk.metadata, there]
  rw [found, ofExcept_ok, wp_bind, wp_pure, wp_bind, wp_refuseType]
  constructor
  · intro plain
    have size : Metadata.size ⟨file, node⟩ = (contents sampled).length := by
      simp [Metadata.size, kind]
    have grown := (appended.appends now sampled (by omega)).length_le
    have inside : offset ≤ (contents sampled).length := by omega
    have small := sized sampled file _ (appended.content sampled)
    have unmoved : truncatedOrRotated ⟨file, node⟩ offset dev ino = false :=
      truncatedOrRotated_false sameDev sameIno (by rw [size]; exact inside)
    simp only [unmoved, Bool.false_eq_true, if_false, size, wp_bind]
    apply wp_mono (film_tailBytes appended offset _ sampled) _ fun _ _ never => never.elim
    intro read finish reading
    obtain ⟨third, bytes, read_eq, gathered⟩ := reading
    have bounded := gathered.bounded
    have reaches := gathered.reaches
    have longer := (appended.appends sampled finish third).length_le
    have allowed : 1 ≤ maxTailBytes := by decide
    simp only [saturatingAdd] at bounded reaches
    rw [wp_pure, read_eq, Option.bind_some, tailReply_eq (by omega), size]
    refine ⟨_, rfl, ?_⟩
    constructor
    case passed => omega
    case unmoved => rfl
    case start => rfl
    case ends => rfl
    case inside => dsimp only; omega
    case size => exact longer
    case more => exact fun more => of_decide_eq_true more
    case found => exact gathered.found
    case progress =>
      intro ahead empty
      dsimp only at empty
      rw [empty, List.length_nil] at reaches
      omega
    case identity => exact ⟨rfl, rfl⟩
  · intro type refused
    have either : finalType ⟨file, node⟩ = none ∨ finalType ⟨file, node⟩ = some .hardlink :=
      finalType_of_file kind
    rw [refused] at either
    cases either with
    | inl plain => cases plain
    | inr linked => rw [Option.some.inj linked]

/-- What a chain of tail reads from `offset` on returned. -/
structure Gapless (contents : Nat → Bytes) (now finish offset : Nat) (replies : List TailRead) :
    Prop where
  passed : now ≤ finish
  each : ∀ reply ∈ replies, reply.truncatedOrRotated = false ∧
    reply.actualEnd = reply.start + reply.bytes.length ∧ reply.actualEnd ≤ reply.fileSize
  contiguous : TailRead.Contiguous offset replies
  forward : offset ≤ TailRead.lastEnd offset replies
  inside : TailRead.lastEnd offset replies ≤ (contents finish).length
  bytes : replies.flatMap TailRead.bytes =
    ((contents finish).drop offset).take (TailRead.lastEnd offset replies - offset)
  progress : replies.IsChain fun reply next => reply.moreAvailable = true → next.bytes ≠ []
  first : offset < (contents now).length → ∀ reply ∈ replies.head?, reply.bytes ≠ []

theorem Gapless.nil {now offset : Nat} (within : offset ≤ (contents now).length) :
    Gapless contents now now offset [] where
  passed := Nat.le_refl now
  each := fun _ never => absurd never List.not_mem_nil
  contiguous := trivial
  forward := Nat.le_refl offset
  inside := within
  bytes := by simp [TailRead.lastEnd]
  progress := List.IsChain.nil
  first := fun _ _ never => by cases never

/-- One more reply in front: it and the rest are consecutive parts of the file. -/
theorem Gapless.cons {now later finish offset : Nat} {reply : TailRead} {replies : List TailRead}
    (appended : film.Appended path file contents)
    (picksUp : PicksUp file contents now later offset reply)
    (rest : Gapless contents later finish reply.actualEnd replies) :
    Gapless contents now finish offset (reply :: replies) := by
  have ends := picksUp.ends
  have forward := rest.forward
  have last : TailRead.lastEnd offset (reply :: replies) =
      TailRead.lastEnd reply.actualEnd replies := rfl
  constructor
  case passed => exact Nat.le_trans picksUp.passed rest.passed
  case each =>
    intro other member
    cases List.mem_cons.mp member with
    | inl same =>
        rw [same, picksUp.start]
        exact ⟨picksUp.unmoved, ends, picksUp.inside⟩
    | inr behind => exact rest.each other behind
  case contiguous => exact ⟨picksUp.start, rest.contiguous⟩
  case forward =>
    rw [last]
    omega
  case inside =>
    rw [last]
    exact rest.inside
  case bytes =>
    have grown := appended.appends later finish rest.passed
    have head : reply.bytes <+: (contents finish).drop offset :=
      picksUp.found.trans (List.IsPrefix.drop grown offset)
    have short : reply.bytes.length ≤ TailRead.lastEnd reply.actualEnd replies - offset := by omega
    rw [last, List.flatMap_cons, rest.bytes, take_eq_append head short, List.drop_drop, ends,
      Nat.sub_add_eq]
  case progress =>
    cases replies with
    | nil => exact List.IsChain.singleton reply
    | cons next others =>
        apply List.isChain_cons_cons.mpr
        constructor
        · intro more
          apply rest.first _ next rfl
          have size := picksUp.size
          have ahead := picksUp.more more
          omega
        · exact rest.progress
  case first =>
    intro ahead other head
    rw [← Option.some.inj head]
    exact picksUp.progress ahead

/-- By induction on the calls. -/
theorem chain_gapless (appended : film.Appended path file contents) (sized : film.Sized)
    {now finish offset : Nat} {dev ino : Option Nat} {replies : List TailRead}
    (chain : film.Chain process path now offset dev ino replies finish)
    (sameDev : ∀ d ∈ dev, d = file.dev) (sameIno : ∀ i ∈ ino, i = file.ino)
    (within : offset ≤ (contents now).length) : Gapless contents now finish offset replies := by
  induction chain with
  | nil now offset dev ino => exact .nil within
  | cons maxBytes positive call rest ih =>
      have called := Program.wp_executes
        (film_tailRead appended sized sameDev sameIno within positive) call
      obtain ⟨reply, same, picksUp⟩ := called
      rw [Option.some.inj same] at rest ih ⊢
      apply Gapless.cons appended picksUp
      apply ih
      · intro d known
        rw [← Option.some.inj known]
        exact picksUp.identity.1
      · intro i known
        rw [← Option.some.inj known]
        exact picksUp.identity.2
      · exact Nat.le_trans picksUp.inside picksUp.size

end Appending

section Alone

variable {process : Process} {h : Host}

/-- The reply to a tail read that nothing disturbs. -/
structure Answers (metadata : Metadata) (content : Bytes) (offset : Nat) (dev ino : Option Nat)
    (maxBytes : Nat) (reply : TailRead) : Prop where
  identity : reply.dev = metadata.inode.dev ∧ reply.ino = metadata.inode.ino
  flag : reply.truncatedOrRotated = truncatedOrRotated metadata offset dev ino
  start : reply.start = if reply.truncatedOrRotated then 0 else offset
  found : reply.bytes <+: content.drop reply.start
  ends : reply.actualEnd = reply.start + reply.bytes.length
  size : reply.fileSize = content.length
  inside : reply.actualEnd ≤ content.length
  more : reply.moreAvailable = decide (reply.actualEnd < reply.fileSize)
  short : reply.bytes.length ≤ maxBytes
  progress : content.length ≤ u64Max → 1 ≤ maxBytes → reply.start < content.length →
    1 ≤ reply.bytes.length

theorem answers_of_slice {metadata : Metadata} {content : Bytes} {offset : Nat}
    {dev ino : Option Nat} {maxBytes : Nat} {reply : TailRead}
    (kind : metadata.node.kind = .file content) :
    let moved := truncatedOrRotated metadata offset dev ino
    let start := if moved then 0 else offset
    let wantEnd := min (saturatingAdd start (min maxBytes maxTailBytes)) metadata.size
    tailReply metadata start moved ((content.drop start).take (wantEnd - start)) = some reply →
    Answers metadata content offset dev ino maxBytes reply := by
  intro moved start wantEnd replied
  have size : metadata.size = content.length := by simp [Metadata.size, kind]
  have inside : start ≤ content.length := by
    by_cases flagged : moved = true
    · simp [start, flagged]
    · have unmoved : moved = false := by simpa using flagged
      have known := size_le_of_unmoved unmoved
      simp only [start, unmoved, Bool.false_eq_true, if_false]
      omega
  have count : ((content.drop start).take (wantEnd - start)).length = wantEnd - start := by
    rw [List.length_take, List.length_drop]
    omega
  have allowed : 1 ≤ maxTailBytes := by decide
  simp only [tailReply, checkedAdd] at replied
  split at replied
  · rename_i small
    rw [← Option.some.inj replied]
    constructor
    case identity => exact ⟨rfl, rfl⟩
    case flag => rfl
    case start => rfl
    case found => exact List.take_prefix _ _
    case ends => rfl
    case size => exact size
    case inside =>
      dsimp only
      rw [count]
      omega
    case more => rfl
    case short =>
      dsimp only
      rw [count]
      simp only [wantEnd, saturatingAdd]
      omega
    case progress =>
      intro sized positive ahead
      dsimp only at ahead ⊢
      rw [count]
      simp only [wantEnd, saturatingAdd]
      omega
  · cases replied

theorem wp_tailBytes {file : Inode} {content : Bytes}
    (regular : h.disk.kindOf file = some (.file content)) {start wantEnd : Nat}
    {post : Option Bytes → Host → Prop} {failed : RevisionError → Host → Prop}
    (holds : post (some ((content.drop start).take (wantEnd - start))) h) :
    wp (Host.kernel process) (tailBytes file start wantEnd) post failed h := by
  unfold tailBytes
  rw [wp_ite]
  constructor
  · intro ahead
    rw [checkedSub_of_lt ahead]
    dsimp only
    rw [wp_bind]
    apply (wp_readOn regular _ start (wantEnd - start) (Nat.le_refl _) _).mpr
    rw [ofExcept_ok, wp_bind, wp_pure, wp_pure]
    exact holds
  · intro behind
    rw [show wantEnd - start = 0 by omega, List.take_zero] at holds
    exact holds

theorem wp_tailRead (path : Path) (offset : Nat) (dev ino : Option Nat) (maxBytes : Nat) :
    wp (Host.kernel process) (tailRead path offset dev ino maxBytes)
      (fun result _ => ∀ reply, result = some reply →
        ∃ metadata content, h.disk.lstat path = .ok metadata ∧ metadata.node.kind = .file content ∧
          Answers metadata content offset dev ino maxBytes reply)
      (fun _ _ => True) h := by
  unfold tailRead
  rw [wp_bind, wp_openChecked]
  cases found : h.disk.lstat path with
  | error e => trivial
  | ok metadata =>
      dsimp only
      cases type : finalType metadata with
      | some kind => trivial
      | none =>
          obtain ⟨⟨content, kind⟩, _⟩ := finalType_none.mp type
          dsimp only
          rw [wp_bind, wp_fstat, metadata_of_lstat found, ofExcept_ok, wp_bind, wp_pure, wp_bind,
            wp_refuseType]
          refine ⟨fun _ => ?_, fun _ _ => trivial⟩
          have regular : h.disk.kindOf metadata.inode = some (.file content) := by
            simp [Disk.kindOf, (lstat_ok found).2, kind]
          rw [wp_bind]
          apply wp_tailBytes regular
          rw [wp_pure, Option.bind_some]
          intro reply replied
          exact ⟨metadata, content, rfl, kind, answers_of_slice kind replied⟩

end Alone

/-- Tail reads that go on from one another follow a file that is appended to, without gap and
without overlap, and no tail read overflows. -/
theorem tail_reads_follow (film : Film) (sized : film.Sized) (process : Process) (path : Path) :
    (∀ file contents start finish offset dev ino replies, film.Appended path file contents →
      film.Chain process path start offset dev ino replies finish →
      (∀ d ∈ dev, d = file.dev) → (∀ i ∈ ino, i = file.ino) →
      offset ≤ (contents start).length →
      (∀ reply ∈ replies, reply.truncatedOrRotated = false ∧
        reply.actualEnd = reply.start + reply.bytes.length ∧ reply.actualEnd ≤ reply.fileSize) ∧
      TailRead.Contiguous offset replies ∧
      TailRead.lastEnd offset replies ≤ (contents finish).length ∧
      replies.flatMap TailRead.bytes =
        ((contents finish).drop offset).take (TailRead.lastEnd offset replies - offset) ∧
      replies.IsChain fun reply next => reply.moreAvailable = true → next.bytes ≠ []) ∧
    (∀ file contents start finish offset dev ino maxBytes result,
      film.Appended path file contents → (∀ d ∈ dev, d = file.dev) → (∀ i ∈ ino, i = file.ino) →
      offset ≤ (contents start).length → 1 ≤ maxBytes →
      Program.Executes (film.kernel process) (tailRead path offset dev ino maxBytes) start result
        finish →
      (∃ reply, result = .ok (some reply)) ∨ result = .error (.unsupportedFinalType .hardlink)) ∧
    ∀ offset dev ino maxBytes start finish,
      ¬ Program.Executes (film.kernel process) (tailRead path offset dev ino maxBytes) start
        (.ok none) finish := by
  constructor
  · intro file contents start finish offset dev ino replies appended chain sameDev sameIno within
    have gapless := chain_gapless appended sized chain sameDev sameIno within
    exact ⟨gapless.each, gapless.contiguous, gapless.inside, gapless.bytes, gapless.progress⟩
  constructor
  · intro file contents start finish offset dev ino maxBytes result appended sameDev sameIno within
      positive run
    have called := Program.wp_executes
      (film_tailRead appended sized sameDev sameIno within positive) run
    cases result with
    | ok reply =>
        obtain ⟨found, same, _⟩ := called
        exact .inl ⟨found, by rw [same]⟩
    | error reason => exact .inr (congrArg Except.error called)
  · intro offset dev ino maxBytes start finish run
    have called := Program.wp_executes
      (film_tailRead_some sized offset dev ino maxBytes start) run
    cases called

theorem appended_sized : appended.Sized := by
  intro instant file bytes content
  have member : bytes = [97] ∨ bytes = [97, 98] := by
    by_cases root : file = ⟨1, 2⟩
    · simp [Film.content, Disk.kindOf, appended, root] at content
    · by_cases here : file = ⟨1, 10⟩
      · by_cases early : instant < 2
        · simp [Film.content, Disk.kindOf, appended, here, early] at content
          exact .inl content.symm
        · simp [Film.content, Disk.kindOf, appended, here, early] at content
          exact .inr content.symm
      · simp [Film.content, Disk.kindOf, appended, root, here] at content
  cases member with
  | inl short => rw [short]; decide
  | inr long => rw [long]; decide

theorem appended_appended : appended.Appended ⟨[], "f"⟩ ⟨1, 10⟩
    fun instant => if instant < 2 then [97] else [97, 98] := by
  constructor
  · exact fun _ => rfl
  · intro instant
    by_cases early : instant < 2
    · simp [Film.content, Disk.kindOf, appended, early]
    · simp [Film.content, Disk.kindOf, appended, early]
  · intro earlier later order
    by_cases early : later < 2
    · rw [if_pos early, if_pos (by omega)]
    · rw [if_neg early]
      by_cases old : earlier < 2
      · rw [if_pos old]
        exact ⟨[98], rfl⟩
      · rw [if_neg old]

/-- The file is appended to while the first of two tail reads is under way. -/
theorem tail_reads_follow_appended :
    ∃ replies, appended.Chain ⟨7, 0, 0, 0⟩ ⟨[], "f"⟩ 0 0 none none replies 2 ∧
      replies.map TailRead.bytes = [[97], [98]] ∧
      TailRead.Contiguous 0 replies ∧ TailRead.lastEnd 0 replies ≤ [97, 98].length := by
  let wait (instants : Nat) : Moment := ⟨instants, default⟩
  have first : Program.Permits (appended.kernel ⟨7, 0, 0, 0⟩) [wait 0, wait 0, wait 0, wait 2]
      (tailRead ⟨[], "f"⟩ 0 none none 4) 0 := ⟨trivial, trivial, trivial, trivial, trivial⟩
  have second : Program.Permits (appended.kernel ⟨7, 0, 0, 0⟩) [wait 0, wait 0, wait 0, wait 0]
      (tailRead ⟨[], "f"⟩ 1 (some 1) (some 10) 4) 2 := ⟨trivial, trivial, trivial, trivial, trivial⟩
  have chain : appended.Chain ⟨7, 0, 0, 0⟩ ⟨[], "f"⟩ 0 0 none none
      [⟨[97], 0, 1, 1, 1, 10, false, false⟩, ⟨[98], 1, 2, 2, 1, 10, false, false⟩] 2 :=
    .cons 4 (by decide) (Program.steps_of_advance first)
      (.cons 4 (by decide) (Program.steps_of_advance second) (.nil 2 2 (some 1) (some 10)))
  have follow := (tail_reads_follow appended appended_sized ⟨7, 0, 0, 0⟩ ⟨[], "f"⟩).1 ⟨1, 10⟩ _ 0 2 0
    none none _ appended_appended chain (fun _ never => by cases never)
    (fun _ never => by cases never) (Nat.zero_le _)
  exact ⟨_, chain, rfl, follow.2.1, follow.2.2.1⟩

end EmacsRelay

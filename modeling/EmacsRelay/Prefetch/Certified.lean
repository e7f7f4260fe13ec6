import EmacsRelay.Lib.Timeline
import EmacsRelay.Prefetch.Readdir
import EmacsRelay.Prefetch.Warm

set_option autoImplicit false

/- The listing of one directory from `readdir_stream` to the validation after a reconnect: names
that are kept with the attributes captured before they were read. -/
namespace EmacsRelay.RelayPrefetch

open Server

/-- A directory as it is between two changes: the names in it, and its own metadata. -/
structure Version (ν : Type) where
  names : List ν
  metadata : Server.Metadata

/-- How far a `readdir_stream` has come: the directory is open; its attributes are captured, and
some names have been there ever since, others at some time. -/
inductive Scan (ν : Type) where
  | opened
  | captured (selfAttrs : Option Attrs) (throughout ever : List ν)

abbrev Replies := List (ReaddirReply Entry (Option Attrs))

/-- A path, which is a directory or, with metadata of its own, a symbolic link to one; the
directory, the streams that read it, their replies, and the client. -/
structure Site (ν : Type) where
  link : Option Server.Metadata := none
  directory : Timeline (Version ν)
  scans : Nat → Option (Scan ν) := fun _ => none
  sent : List Replies := []
  client : Warmth

/-- The messages of one request are put together in order: the entries of all, and the attributes
of the last. -/
def Assembles (replies : Replies) (entries : List Entry) (selfAttrs : Option Attrs) : Prop :=
  ∃ before rest, replies = before ++ [.last rest selfAttrs] ∧
    entries = before.flatMap ReaddirReply.entries ++ rest

inductive Occurrence (ν : Type) where
  /-- Entries are added, removed or renamed. -/
  | change (version : Version ν)
  | opens (id : Nat)
  | capture (id : Nat)
  /-- The loop has gone through RD, of entries with their metadata, some of which cannot be read. -/
  | finish (id : Nat) (accepts : Nat → Bool) (rd : List (Option (ν × Option Server.Metadata)))
  | client (step : Warmth.Step)
  | reconnect

section Site

variable {ν : Type} [DecidableEq ν] (render : ν → String)
  (size : ReaddirReply Entry (Option Attrs) → Nat) (dir : String)

/-- The key of metadata that there are. -/
def metadataKey (metadata : Server.Metadata) : MtimeKey := attrsMtimeKey (statValue (some metadata))

/-- The key of the directory itself. -/
def Version.stamp (version : Version ν) : MtimeKey := metadataKey version.metadata

/-- `stat_value` of the path: it does not follow a link. -/
def Site.stat (s : Site ν) : Option Attrs :=
  statValue (some (s.link.getD s.directory.now.metadata))

def Site.setScan (s : Site ν) (id : Nat) (scan : Option (Scan ν)) : Site ν :=
  { s with scans := fun other => if other = id then scan else s.scans other }

/-- What a change does to the names a stream may come across. -/
def Scan.change (names : List ν) : Scan ν → Scan ν
  | opened => opened
  | captured selfAttrs throughout ever =>
      captured selfAttrs (throughout.filter (· ∈ names)) (ever ++ names)

/-- `dir_entry_value` of an entry that can be read. -/
def entryOf (entry : ν × Option Server.Metadata) : Entry := dirEntryValue (render entry.1) entry.2

def Site.step (s : Site ν) : Occurrence ν → Site ν
  | .change version =>
      { s with
        directory := s.directory.advance version
        scans := fun id => (s.scans id).map (Scan.change version.names) }
  | .opens id => s.setScan id (some .opened)
  | .capture id =>
      match s.scans id with
      | some .opened =>
          s.setScan id (some (.captured s.stat s.directory.now.names s.directory.now.names))
      | _ => s
  | .finish id accepts rd =>
      match s.scans id with
      | some (.captured selfAttrs _ _) =>
          { s.setScan id none with
            sent := s.sent ++
              [Server.readdirStream size accepts selfAttrs (.ok (rd.map (·.map (entryOf render))))] }
      | _ => s
  | .client step => { s with client := s.client.step step }
  | .reconnect =>
      { s with client := .connect s.client.caches s.client.mtimeKeys s.client.problems }

/-- What is assumed of the file system: a change gives the directory a modification time it has not
had, and the loop comes across every name that is there all the while, and none that never is. -/
def Lawful (s : Site ν) : Occurrence ν → Prop
  | .change version => s.directory.Fresh Version.stamp version
  | .finish id _ rd => ∀ selfAttrs throughout ever,
      s.scans id = some (.captured selfAttrs throughout ever) →
        (∀ n ∈ throughout, ∃ metadata, some (n, metadata) ∈ rd) ∧
          ∀ n metadata, some (n, metadata) ∈ rd → n ∈ ever
  | _ => True

/-- A listing that the client is given is put together from all replies to one request. -/
def Whole (s : Site ν) : Occurrence ν → Prop
  | .client (.reply index (.listing names selfAttrs)) => ∀ epoch,
      s.client.requests[index]? = some (.readdir dir epoch) →
        ∃ replies ∈ s.sent, ∃ entries, Assembles replies entries selfAttrs ∧
          names = entries.map (·.name)
  | _ => True

/-- The texts are those of the names in the directory. -/
def Version.Shows (names : List String) (version : Version ν) : Prop :=
  ∀ name, name ∈ names ↔ ∃ n ∈ version.names, render n = name

end Site

section Client

variable {P : List String → MtimeKey → Prop} {dir : String} {w : Warmth}

/-- A condition on the listings that are kept for a directory, or sent to be validated. -/
structure Keeping (P : List String → MtimeKey → Prop) (dir : String) (w : Warmth) : Prop where
  stored : ∀ entries, w.caches.listingPrefetchCache (w.key dir) = some entries →
    P entries (w.mtimeKeys (w.key dir))
  pending : ∀ epoch entries mtimeKey, .stat dir epoch entries mtimeKey ∈ w.requests →
    P entries mtimeKey

namespace Keeping

open Warmth

theorem mono {Q : List String → MtimeKey → Prop} (keeping : Keeping P dir w)
    (weaker : ∀ entries mtimeKey, P entries mtimeKey → Q entries mtimeKey) : Keeping Q dir w :=
  ⟨fun entries found => weaker _ _ (keeping.stored entries found),
    fun epoch entries mtimeKey member => weaker _ _ (keeping.pending epoch entries mtimeKey member)⟩

/-- Nothing is stored that was not, and nothing is asked that was not. -/
theorem of_fewer {w' : Warmth} (keeping : Keeping P dir w)
    (authority : w'.caches.authority = w.caches.authority)
    (stored : ∀ entries, w'.caches.listingPrefetchCache (w.key dir) = some entries →
      w.caches.listingPrefetchCache (w.key dir) = some entries)
    (mtimeKeys : w'.mtimeKeys = w.mtimeKeys)
    (pending : ∀ epoch entries mtimeKey, .stat dir epoch entries mtimeKey ∈ w'.requests →
      .stat dir epoch entries mtimeKey ∈ w.requests) : Keeping P dir w' := by
  have same : w'.key dir = w.key dir := by
    unfold Warmth.key
    rw [authority]
  constructor
  · intro entries found
    rw [same] at found ⊢
    rw [mtimeKeys]
    exact keeping.stored entries (stored entries found)
  · intro epoch entries mtimeKey member
    exact keeping.pending epoch entries mtimeKey (pending epoch entries mtimeKey member)

theorem send (keeping : Keeping P dir w) {request : Request}
    (other : ∀ epoch entries mtimeKey, request = .stat dir epoch entries mtimeKey →
      P entries mtimeKey) : Keeping P dir (w.send request) := by
  constructor
  · exact keeping.stored
  · intro epoch entries mtimeKey member
    rcases List.mem_append.mp member with before | new
    · exact keeping.pending epoch entries mtimeKey before
    · exact other epoch entries mtimeKey (List.mem_singleton.mp new).symm

theorem rewarm (keeping : Keeping P dir w) (dirs : List String) : Keeping P dir (w.rewarm dirs) := by
  rw [rewarm_eq]
  constructor
  · exact keeping.stored
  · intro epoch entries mtimeKey member
    rcases List.mem_append.mp member with before | new
    · exact keeping.pending epoch entries mtimeKey before
    · obtain ⟨_, _, same⟩ := List.mem_map.mp new
      cases same

theorem populate (keeping : Keeping P dir w) {localdir : String} {entries : List String}
    {mtimeKey : MtimeKey} (certified : localdir = dir → P entries mtimeKey) :
    Keeping P dir (w.populate localdir entries mtimeKey) := by
  constructor
  · intro found listed
    have key_eq : (w.populate localdir entries mtimeKey).key dir = w.key dir := rfl
    rw [key_eq] at listed ⊢
    rw [Warmth.populate_caches, Caches.listingPopulate_listingPrefetchCache] at listed
    rw [Warmth.populate_mtimeKeys]
    split at listed
    · rename_i here
      rw [if_pos here, ← Option.some.inj listed]
      apply certified
      simp only [Bool.and_eq_true, decide_eq_true_eq] at here
      exact (congrArg Prod.snd here.2).symm
    · rename_i elsewhere
      rw [if_neg elsewhere]
      exact keeping.stored found listed
  · exact keeping.pending

theorem eraseIdx (keeping : Keeping P dir w) (index : Nat) :
    Keeping P dir { w with requests := w.requests.eraseIdx index } :=
  keeping.of_fewer rfl (fun _ found => found) rfl
    fun _ _ _ member => List.mem_of_mem_eraseIdx member

theorem callback (keeping : Keeping P dir w) (request : Request) (response : Response)
    (certified : ∀ epoch entries selfAttrs, request = .readdir dir epoch →
      response = .listing entries selfAttrs → P entries (attrsMtimeKey selfAttrs)) :
    Keeping P dir (w.callback request response) := by
  cases request with
  | watch localdir => exact keeping
  | readdir localdir epoch =>
      simp only [Warmth.callback]
      split
      · cases response with
        | listing entries selfAttrs =>
            apply Keeping.send
            · have forgotten : Keeping P dir { w with
                  problems := fun key =>
                    if key = (w.caches.authority, localdir) then none else w.problems key } :=
                ⟨keeping.stored, keeping.pending⟩
              apply forgotten.populate
              intro same
              exact certified epoch entries selfAttrs (same ▸ rfl) rfl
            · intro _ _ _ same
              cases same
        | error text => exact ⟨keeping.stored, keeping.pending⟩
        | stat attrs => exact keeping
        | done => exact keeping
      · exact keeping
  | stat localdir epoch entries mtimeKey =>
      simp only [Warmth.callback]
      split
      · cases response with
        | stat attrs =>
            simp only
            split
            · apply Keeping.send
              · exact ⟨keeping.stored, keeping.pending⟩
              · intro _ _ _ same
                cases same
            · apply keeping.send
              intro _ _ _ same
              cases same
        | _ =>
            apply keeping.send
            intro _ _ _ same
            cases same
      · exact keeping

theorem event (keeping : Keeping P dir w) (event : FsEvent) :
    Keeping P dir (w.step (.event event)) := by
  have stored : ∀ key entries,
      (handleEvent w.caches event).caches.listingPrefetchCache key = some entries →
        w.caches.listingPrefetchCache key = some entries := by
    intro key entries found
    cases event with
    | overflow => exact found
    | changed kind localdir name => exact found
    | selfChanged localdir =>
        have found : (if key = (w.caches.authority, localdir) then none
          else w.caches.listingPrefetchCache key) = some entries := found
        split at found
        · cases found
        · exact found
  have handled : Keeping P dir { w with caches := (handleEvent w.caches event).caches } := by
    apply keeping.of_fewer
    case authority => exact handleEvent_authority w.caches event
    case stored => exact fun entries => stored _ entries
    case mtimeKeys => rfl
    case pending => exact fun _ _ _ member => member
  exact handled.rewarm _

theorem foldl {α : Type} {f : Warmth → α → Warmth}
    (each : ∀ w a, Keeping P dir w → Keeping P dir (f w a)) (as : List α)
    (keeping : Keeping P dir w) : Keeping P dir (as.foldl f w) := by
  induction as generalizing w with
  | nil => exact keeping
  | cons a as ih => exact ih (each w a keeping)

theorem evictDeactivatedListing (keeping : Keeping P dir w) (key : Key) :
    Keeping P dir (w.evictDeactivatedListing key) := by
  unfold Warmth.evictDeactivatedListing
  split
  · exact keeping
  · have fewer : ∀ other entries,
        (if other = key then none else w.caches.listingPrefetchCache other) = some entries →
          w.caches.listingPrefetchCache other = some entries := by
      intro other entries found
      split at found
      · cases found
      · exact found
    simp only
    split
    · apply keeping.of_fewer
      case authority => rfl
      case stored => exact fun entries => fewer _ entries
      case mtimeKeys => rfl
      case pending => exact fun _ _ _ member => member
    · apply keeping.of_fewer
      case authority => rfl
      case stored => exact fun entries => fewer _ entries
      case mtimeKeys => rfl
      case pending => exact fun _ _ _ member => member

theorem evictDeactivatedContent (keeping : Keeping P dir w) (key : Key) :
    Keeping P dir (w.evictDeactivatedContent key) := by
  unfold Warmth.evictDeactivatedContent
  split
  · exact keeping
  · exact ⟨keeping.stored, keeping.pending⟩

theorem profiles (keeping : Keeping P dir w) (active : List Profile) :
    Keeping P dir (w.step (.profiles active)) := by
  have rebuilt : Keeping P dir (w.rebuildLiveMarks active) := ⟨keeping.stored, keeping.pending⟩
  have listing := rebuilt.foldl (fun _ key kept => kept.evictDeactivatedListing key)
    w.caches.listingPrefetchDirs
  have content := listing.foldl (fun _ key kept => kept.evictDeactivatedContent key)
    w.caches.contentPrefetchDirs
  exact content.rewarm _

theorem revalidate (keeping : Keeping P dir w) (localdir : String) :
    Keeping P dir (w.revalidate localdir) := by
  unfold Warmth.revalidate
  split
  · exact keeping.send nofun
  · rename_i entries found
    apply keeping.send
    intro epoch others mtimeKey same
    injection same with dir_eq _ entries_eq key_eq
    rw [← entries_eq, ← key_eq, dir_eq]
    rw [dir_eq] at found
    exact keeping.stored entries found

theorem connect (keeping : Keeping P dir w) :
    Keeping P dir (.connect w.caches w.mtimeKeys w.problems) := by
  have opened : Keeping P dir
      { caches := { w.caches with epoch := 0, dircache := fun _ => none }
        mtimeKeys := w.mtimeKeys
        problems := w.problems } := ⟨keeping.stored, nofun⟩
  exact opened.foldl (fun _ localdir kept => kept.revalidate localdir) _

/-- Only a listing of the directory itself has to meet the condition. -/
theorem step (keeping : Keeping P dir w) (step : Warmth.Step)
    (certified : ∀ index epoch entries selfAttrs, step = .reply index (.listing entries selfAttrs) →
      w.requests[index]? = some (.readdir dir epoch) → P entries (attrsMtimeKey selfAttrs)) :
    Keeping P dir (w.step step) := by
  cases step with
  | event event => exact keeping.event event
  | profiles active => exact keeping.profiles active
  | reply index response =>
      simp only [Warmth.step]
      split
      · rename_i request found
        apply (keeping.eraseIdx index).callback
        intro epoch entries selfAttrs is_readdir is_listing
        rw [is_readdir] at found
        rw [is_listing] at certified
        exact certified index epoch entries selfAttrs rfl found
      · exact keeping

end Keeping

end Client

section Invariant

variable {ν : Type} [DecidableEq ν] {render : ν → String}
  {size : ReaddirReply Entry (Option Attrs) → Nat} {dir : String} {s : Site ν}

/-- What is known of the names under a stamp. -/
def Site.Certifies (render : ν → String) (s : Site ν) (names : List String) (key : MtimeKey) : Prop :=
  s.directory.Vouches Version.stamp key (Version.Shows render names)

/-- What a stream has come across is what there is, until the stamp is another. -/
def Site.Follows (s : Site ν) : Scan ν → Prop
  | .opened => True
  | .captured selfAttrs throughout ever =>
      s.directory.Vouches Version.stamp (attrsMtimeKey selfAttrs) fun version =>
        (∀ n, n ∈ throughout ↔ n ∈ version.names) ∧ ∀ n, n ∈ ever ↔ n ∈ version.names

/-- Names are certified wherever they are: while they are read, in replies, and in the client. -/
structure Certified (render : ν → String) (dir : String) (s : Site ν) : Prop where
  direct : s.link = none
  scans : ∀ id scan, s.scans id = some scan → s.Follows scan
  sent : ∀ replies ∈ s.sent, ∀ entries selfAttrs, Assembles replies entries selfAttrs →
    s.Certifies render (entries.map (·.name)) (attrsMtimeKey selfAttrs)
  client : Keeping (s.Certifies render) dir s.client

theorem certified_change (certified : Certified render dir s) {version : Version ν}
    (fresh : s.directory.Fresh Version.stamp version) :
    Certified render dir (s.step render size (.change version)) := by
  constructor
  case direct => exact certified.direct
  case scans =>
    intro id scan found
    obtain ⟨before, known, same⟩ := Option.map_eq_some_iff.mp found
    have follows := certified.scans id before known
    rw [← same]
    cases before with
    | opened => trivial
    | captured selfAttrs throughout ever => exact follows.advance fresh
  case sent =>
    intro replies member entries selfAttrs assembled
    exact (certified.sent replies member entries selfAttrs assembled).advance fresh
  case client => exact certified.client.mono fun _ _ kept => kept.advance fresh

omit [DecidableEq ν] in
theorem certified_setScan (certified : Certified render dir s) (id : Nat) {scan : Option (Scan ν)}
    (follows : ∀ new, scan = some new → s.Follows new) :
    Certified render dir (s.setScan id scan) := by
  constructor
  case direct => exact certified.direct
  case scans =>
    intro other found known
    have known : (if other = id then scan else s.scans other) = some found := known
    split at known
    · exact follows found known
    · exact certified.scans other found known
  case sent => exact certified.sent
  case client => exact certified.client

/-- The replies of a stream give its entries, whatever else comes of them. -/
theorem assembles_readdirStream {accepts : Nat → Bool} {selfAttrs attrs : Option Attrs}
    {rd : List (Option Entry)} {entries : List Entry}
    (assembled : Assembles (Server.readdirStream size accepts selfAttrs (.ok rd)) entries attrs) :
    entries = readable rd ∧ attrs = selfAttrs := by
  obtain ⟨before, rest, parts, whole⟩ := assembled
  obtain ⟨opened, same, attrs_eq, -, total, -⟩ := readdirStream_last parts
  rw [whole, total, ← Except.ok.inj same]
  exact ⟨rfl, attrs_eq⟩

/-- A reply of a directory that could be opened is a chunk, or the last one. -/
theorem mem_readdirStream {accepts : Nat → Bool} {selfAttrs : Option Attrs}
    {rd : List (Option Entry)} {reply : ReaddirReply Entry (Option Attrs)}
    (member : reply ∈ Server.readdirStream size accepts selfAttrs (.ok rd)) :
    reply.more = true ∨ ∃ rest, reply = .last rest selfAttrs := by
  have chunk : ∀ chunks : List (List Entry), reply ∈ chunks.map .chunk → reply.more = true := by
    intro chunks found
    obtain ⟨_, _, same⟩ := List.mem_map.mp found
    rw [← same]
    rfl
  simp only [Server.readdirStream] at member
  split at member
  · exact .inl (chunk _ member)
  · rcases List.mem_append.mp member with before | last
    · exact .inl (chunk _ before)
    · unfold sendReply at last
      split at last
      · exact .inr ⟨_, List.mem_singleton.mp last⟩
      · cases last

/-- A listing that the callbacks hand over undisturbed is put together from all replies. -/
theorem assembles_of_handed {wire : ReaddirWire Entry (Option Attrs)} {accepts : Nat → Bool}
    {selfAttrs attrs : Option Attrs} {opened : Except String (List (Option Entry))}
    {maxLength id : Nat} {streamed : Streamed} {entries : List Entry}
    (reached : streamed.Reached maxLength id
      ((Server.readdirStream size accepts selfAttrs opened).map (wire.message id)))
    (completes : Server.Completes size accepts selfAttrs opened)
    (handed : .listing entries attrs ∈ (readdirStream wire id streamed.record.entered).done) :
    Assembles (Server.readdirStream size accepts selfAttrs opened) entries attrs := by
  obtain ⟨rd, rfl, entries_eq, attrs_eq⟩ := listing_entries reached handed
  obtain ⟨chunks, last, parts, -, final⟩ := (readdirStream_wellShaped _).mpr completes
  have member : last ∈ Server.readdirStream size accepts selfAttrs (.ok rd) := by
    rw [parts]
    exact List.mem_append_right _ (List.mem_singleton_self _)
  rcases mem_readdirStream member with more | ⟨rest, same⟩
  · rw [final] at more
    cases more
  · rw [same] at parts
    obtain ⟨opened, ok, -, -, total, -⟩ := readdirStream_last parts
    refine ⟨chunks.map .chunk, rest, ?_, ?_⟩
    · rw [attrs_eq]
      exact parts
    · rw [total, entries_eq, Except.ok.inj ok]

omit [DecidableEq ν] in
theorem mem_entries {name : String} {rd : List (Option (ν × Option Server.Metadata))} :
    name ∈ (readable (rd.map (·.map (entryOf render)))).map (·.name) ↔
      ∃ n metadata, some (n, metadata) ∈ rd ∧ render n = name := by
  rw [List.mem_map]
  constructor
  · intro ⟨entry, listed, same⟩
    obtain ⟨found, member, is_entry⟩ := List.mem_filterMap.mp listed
    obtain ⟨read, there, mapped⟩ := List.mem_map.mp member
    cases read with
    | none =>
        rw [← mapped] at is_entry
        cases is_entry
    | some read =>
        obtain ⟨n, metadata⟩ := read
        rw [← mapped] at is_entry
        cases is_entry
        exact ⟨n, metadata, there, same⟩
  · intro ⟨n, metadata, there, same⟩
    refine ⟨entryOf render (n, metadata), ?_, same⟩
    apply List.mem_filterMap.mpr
    exact ⟨_, List.mem_map.mpr ⟨_, there, rfl⟩, rfl⟩

theorem certified_finish (certified : Certified render dir s) (id : Nat) (accepts : Nat → Bool)
    (rd : List (Option (ν × Option Server.Metadata))) (lawful : Lawful s (.finish id accepts rd)) :
    Certified render dir (s.step render size (.finish id accepts rd)) := by
  simp only [Site.step]
  split
  · rename_i selfAttrs throughout ever found
    have follows := certified.scans id _ found
    obtain ⟨complete, sound⟩ := lawful selfAttrs throughout ever found
    have removed := certified_setScan certified id (fun new same => absurd same (Option.some_ne_none new).symm)
    constructor
    case direct => exact removed.direct
    case scans => exact removed.scans
    case client => exact removed.client
    case sent =>
      intro replies member entries attrs assembled
      rcases List.mem_append.mp member with before | new
      · exact removed.sent replies before entries attrs assembled
      · rw [List.mem_singleton.mp new] at assembled
        obtain ⟨entries_eq, attrs_eq⟩ := assembles_readdirStream assembled
        rw [attrs_eq, entries_eq]
        apply follows.mono
        intro version ⟨there, seen⟩ name
        rw [mem_entries]
        constructor
        · intro ⟨n, metadata, read, same⟩
          exact ⟨n, (seen n).mp (sound n metadata read), same⟩
        · intro ⟨n, present, same⟩
          obtain ⟨metadata, read⟩ := complete n ((there n).mpr present)
          exact ⟨n, metadata, read, same⟩
  · exact certified

theorem certified_capture (certified : Certified render dir s) (id : Nat) :
    Certified render dir (s.step render size (.capture id)) := by
  simp only [Site.step]
  split
  · apply certified_setScan certified
    intro new same
    rw [← Option.some.inj same]
    have own : attrsMtimeKey s.stat = s.directory.now.stamp := by
      unfold Site.stat
      rw [certified.direct]
      rfl
    show s.directory.Vouches Version.stamp (attrsMtimeKey s.stat) _
    rw [own]
    exact Timeline.vouches_now ⟨fun _ => Iff.rfl, fun _ => Iff.rfl⟩
  · exact certified

theorem certified_step (certified : Certified render dir s) {occurrence : Occurrence ν}
    (lawful : Lawful s occurrence) (whole : Whole dir s occurrence) :
    Certified render dir (s.step render size occurrence) := by
  cases occurrence with
  | change version => exact certified_change certified lawful
  | opens id =>
      apply certified_setScan certified
      intro new same
      rw [← Option.some.inj same]
      trivial
  | capture id => exact certified_capture certified id
  | finish id accepts rd => exact certified_finish certified id accepts rd lawful
  | client step =>
      constructor
      case direct => exact certified.direct
      case scans => exact certified.scans
      case sent => exact certified.sent
      case client =>
        apply certified.client.step
        intro index epoch names selfAttrs is_reply asked
        rw [is_reply] at whole
        obtain ⟨replies, member, entries, assembled, names_eq⟩ := whole epoch asked
        rw [names_eq]
        exact certified.sent replies member entries selfAttrs assembled
  | reconnect =>
      constructor
      case direct => exact certified.direct
      case scans => exact certified.scans
      case sent => exact certified.sent
      case client => exact certified.client.connect

end Invariant

/-- A path, before it has been listed. -/
def Site.start {ν : Type} (link : Option Server.Metadata) (version : Version ν) (c : Caches) :
    Site ν where
  link := link
  directory := { now := version }
  client := { caches := { c with listingPrefetchCache := fun _ => none } }

/-- For a directory that is not reached through a link: in every state, if the key of a kept listing
is what `stat` returns, for the listings that are being validated and for those that may be, then
its names are those in the directory. -/
theorem listing_certified {ν : Type} [DecidableEq ν] {render : ν → String}
    {size : ReaddirReply Entry (Option Attrs) → Nat} {dir : String} {version : Version ν} {c : Caches}
    {s : Site ν} (reached : Reaches (Site.step render size)
      (fun s occurrence => Lawful s occurrence ∧ Whole dir s occurrence)
      (Site.start none version c) s) :
    (∀ epoch names key, .stat dir epoch names key ∈ s.client.requests → attrsMtimeKey s.stat = key →
      s.directory.now.Shows render names) ∧
    ∀ names, s.client.caches.listingPrefetchCache (s.client.key dir) = some names →
      attrsMtimeKey s.stat = s.client.mtimeKeys (s.client.key dir) →
        s.directory.now.Shows render names := by
  have certified : Certified render dir s := by
    apply Reaches.invariant _ _ reached
    · exact ⟨rfl, nofun, nofun, nofun, nofun⟩
    · exact fun _ _ certified both => certified_step certified both.1 both.2
  have own : attrsMtimeKey s.stat = s.directory.now.stamp := by
    unfold Site.stat
    rw [certified.direct]
    rfl
  rw [own]
  constructor
  · exact fun epoch names key asked same =>
      (certified.client.pending epoch names key asked).holds same
  · exact fun names kept same => (certified.client.stored names kept).holds same

/-- Metadata with a modification time in seconds. -/
def metadataAt (fileType : FileType) (mtime : Int) : Server.Metadata where
  fileType := fileType
  size := 0
  mtime := mtime
  mtimeNsec := 0
  mode := 0

def markedCaches : Caches where
  authority := "h"
  listingPrefetchDirs := [("h", "/l")]

/-- A marked path is listed when it has been connected to. -/
def listedRun (link : Option Server.Metadata) : List (Occurrence String) :=
  [.reconnect, .opens 0, .capture 0, .finish 0 (fun _ => true) [some ("a", none)],
    .client (.reply 0 (.listing ["a"] (statValue (some (link.getD (metadataAt .dir 1))))))]

def listedSite (link : Option Server.Metadata) : Site String :=
  (listedRun link).foldl (Site.step id fun _ => 0)
    (Site.start link ⟨["a"], metadataAt .dir 1⟩ markedCaches)

theorem listedSite_reached (link : Option Server.Metadata) :
    Reaches (Site.step id fun _ => 0) (fun s occurrence => Lawful s occurrence ∧ Whole "/l" s occurrence)
      (Site.start link ⟨["a"], metadataAt .dir 1⟩ markedCaches) (listedSite link) := by
  apply Reaches.of_along .refl
  refine ⟨⟨trivial, trivial⟩, ⟨trivial, trivial⟩, ⟨trivial, trivial⟩, ⟨?_, trivial⟩,
    ⟨trivial, ?_⟩, trivial⟩
  · intro selfAttrs throughout ever captured
    cases captured
    constructor
    · intro n there
      rw [List.mem_singleton.mp there]
      exact ⟨none, List.mem_singleton_self _⟩
    · intro n metadata read
      cases List.mem_singleton.mp read
      exact List.mem_singleton_self _
  · intro epoch _
    refine ⟨_, List.mem_singleton_self _, [entryOf id ("a", none)], ⟨[], _, rfl, rfl⟩, rfl⟩

/-- Nothing has changed when the directory is connected to again. -/
theorem listing_certified_again :
    (listedSite none).directory.now.Shows id ["a"] := by
  have reached : Reaches (Site.step id fun _ => 0)
      (fun s occurrence => Lawful s occurrence ∧ Whole "/l" s occurrence)
      (Site.start none ⟨["a"], metadataAt .dir 1⟩ markedCaches)
      ((listedSite none).step id (fun _ => 0) .reconnect) :=
    (listedSite_reached none).next ⟨trivial, trivial⟩
  exact (listing_certified reached).1 0 ["a"] (some 1, some 0) (List.mem_singleton_self _) rfl

/-- An entry is added to a directory that is listed by way of a link: the link is as it was. -/
theorem link_misleads :
    ∃ s : Site String, Reaches (Site.step id fun _ => 0)
        (fun s occurrence => Lawful s occurrence ∧ Whole "/l" s occurrence)
        (Site.start (some (metadataAt .symlink 0)) ⟨["a"], metadataAt .dir 1⟩ markedCaches) s ∧
      .stat "/l" 0 ["a"] (some 0, some 0) ∈ s.client.requests ∧
      attrsMtimeKey s.stat = (some 0, some 0) ∧ ¬ s.directory.now.Shows id ["a"] := by
  have changed : Reaches (Site.step id fun _ => 0)
      (fun s occurrence => Lawful s occurrence ∧ Whole "/l" s occurrence)
      (Site.start (some (metadataAt .symlink 0)) ⟨["a"], metadataAt .dir 1⟩ markedCaches)
      (((listedSite (some (metadataAt .symlink 0))).step id (fun _ => 0)
        (.change ⟨["a", "b"], metadataAt .dir 2⟩)).step id (fun _ => 0) .reconnect) := by
    apply Reaches.next
    · apply (listedSite_reached _).next
      refine ⟨?_, trivial⟩
      intro version known
      rw [List.mem_singleton.mp known]
      decide
    · exact ⟨trivial, trivial⟩
  refine ⟨_, changed, List.mem_singleton_self _, rfl, ?_⟩
  intro shows
  have missing := (shows "b").mpr ⟨"b", List.mem_cons_of_mem _ (List.mem_singleton_self _), rfl⟩
  revert missing
  decide

end EmacsRelay.RelayPrefetch

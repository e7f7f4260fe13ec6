import EmacsRelay.Prefetch.Content
import EmacsRelay.Prefetch.Warm

set_option autoImplicit false

/- The attributes that `relay--stat` answers from listings, after the marked directories of a new
connection have been validated, `lisp/relay-prefetch.el`. -/
namespace EmacsRelay.RelayPrefetch

open Server

/-- `file-name-nondirectory`. -/
def fileNameNondirectory (file : String) : String :=
  String.ofList (file.toList.reverse.takeWhile (· ≠ '/')).reverse

/-- `relay--basename`. -/
def relayBasename (loc : String) : String := fileNameNondirectory (directoryFileName loc)

/-- The path of an entry. -/
def entryPath (dir name : String) : String := fileNameAsDirectory dir ++ name

/-- A name in a directory. -/
structure Component (name : String) : Prop where
  some_char : name.toList ≠ []
  no_slash : '/' ∉ name.toList

/-- A directory as it is marked: `directory-file-name` of a local name. -/
structure Bare (dir : String) : Prop where
  some_char : dir.toList ≠ []
  stripped : directoryFileName dir = dir

section Paths

variable {dir name : String}

theorem takeWhile_mark {mark : Char} {u v : List Char} (none : mark ∉ u) :
    (u ++ mark :: v).takeWhile (· ≠ mark) = u := by
  have passes : ∀ c ∈ u, decide (c ≠ mark) = true :=
    fun c member => decide_eq_true fun same => none (same ▸ member)
  rw [List.takeWhile_append_of_pos passes, List.takeWhile_cons_of_neg (by simp), List.append_nil]

theorem dropWhile_mark {mark : Char} {u v : List Char} (none : mark ∉ u) :
    (u ++ mark :: v).dropWhile (· ≠ mark) = mark :: v := by
  have passes : ∀ c ∈ u, decide (c ≠ mark) = true :=
    fun c member => decide_eq_true fun same => none (same ▸ member)
  rw [List.dropWhile_append_of_pos passes, List.dropWhile_cons_of_neg (by simp)]

/-- A name that ends in no slash has none to strip. -/
theorem directoryFileName_of_last {file : String} {c : Char} {chars : List Char}
    (ends : file.toList.reverse = c :: chars) (differs : c ≠ '/') : directoryFileName file = file := by
  have double : file ≠ "//" := by
    intro same
    rw [same] at ends
    cases ends
    exact differs rfl
  have kept : file.toList.reverse.dropWhile (· = '/') = c :: chars := by
    rw [ends, List.dropWhile_cons, if_neg (by simpa using differs)]
  simp only [directoryFileName, double, if_false, kept]
  rw [← ends, List.reverse_reverse, String.ofList_toList]

theorem fileNameAsDirectory_ends (some_char : dir.toList ≠ []) :
    ∃ chars, (fileNameAsDirectory dir).toList.reverse = '/' :: chars := by
  unfold fileNameAsDirectory
  rw [if_neg some_char]
  by_cases ends : dir.toList.getLast? = some '/'
  · rw [if_pos ends]
    rw [List.getLast?_eq_head?_reverse] at ends
    obtain ⟨chars, same⟩ := List.head?_eq_some_iff.mp ends
    exact ⟨chars, same⟩
  · rw [if_neg ends]
    exact ⟨dir.toList.reverse, by simp⟩

theorem directoryFileName_fileNameAsDirectory (bare : Bare dir) :
    directoryFileName (fileNameAsDirectory dir) = dir := by
  unfold fileNameAsDirectory
  rw [if_neg bare.some_char]
  by_cases ends : dir.toList.getLast? = some '/'
  · rw [if_pos ends, bare.stripped]
  · rw [if_neg ends]
    cases reversed : dir.toList.reverse with
    | nil => exact absurd (List.reverse_eq_nil_iff.mp reversed) bare.some_char
    | cons c chars =>
        have differs : c ≠ '/' := by
          intro same
          apply ends
          rw [List.getLast?_eq_head?_reverse, reversed, same]
          rfl
        have double : dir ++ "/" ≠ "//" := by
          intro same
          have lists := congrArg (fun s => s.toList.reverse) same
          simp only [String.toList_append, List.reverse_append] at lists
          rw [reversed] at lists
          have first := congrArg (fun s => s[1]?) lists
          exact differs (Option.some.inj first)
        have stripped : (dir ++ "/").toList.reverse.dropWhile (· = '/') = c :: chars := by
          rw [String.toList_append, List.reverse_append, reversed]
          show List.dropWhile (· = '/') ('/' :: c :: chars) = c :: chars
          rw [List.dropWhile_cons, if_pos (by simp), List.dropWhile_cons,
            if_neg (by simpa using differs)]
        simp only [directoryFileName, double, if_false, stripped]
        rw [← reversed, List.reverse_reverse, String.ofList_toList]

theorem entryPath_reverse (name : String) (some_char : dir.toList ≠ []) :
    ∃ chars, (fileNameAsDirectory dir).toList.reverse = '/' :: chars ∧
      (entryPath dir name).toList.reverse = name.toList.reverse ++ '/' :: chars := by
  obtain ⟨chars, ends⟩ := fileNameAsDirectory_ends some_char
  refine ⟨chars, ends, ?_⟩
  rw [entryPath, String.toList_append, List.reverse_append, ends]

theorem directoryFileName_entryPath (some_char : dir.toList ≠ []) (component : Component name) :
    directoryFileName (entryPath dir name) = entryPath dir name := by
  obtain ⟨chars, -, reversed⟩ := entryPath_reverse name some_char
  cases last : name.toList.reverse with
  | nil => exact absurd (List.reverse_eq_nil_iff.mp last) component.some_char
  | cons c rest =>
      rw [last] at reversed
      apply directoryFileName_of_last reversed
      intro same
      apply component.no_slash
      rw [← List.mem_reverse, last, same]
      exact List.mem_cons_self

/-- An entry is looked up in the listing of its directory, under its name. -/
theorem relayDirname_entryPath (bare : Bare dir) (component : Component name) :
    relayDirname (entryPath dir name) = dir := by
  obtain ⟨chars, ends, reversed⟩ := entryPath_reverse name bare.some_char
  have no_slash : '/' ∉ name.toList.reverse := by
    rw [List.mem_reverse]
    exact component.no_slash
  have parent : fileNameDirectory (entryPath dir name) = some (fileNameAsDirectory dir) := by
    unfold fileNameDirectory
    rw [reversed, dropWhile_mark no_slash]
    simp only
    rw [← ends, List.reverse_reverse, String.ofList_toList]
  unfold relayDirname
  rw [directoryFileName_entryPath bare.some_char component, parent]
  exact directoryFileName_fileNameAsDirectory bare

theorem relayBasename_entryPath (some_char : dir.toList ≠ []) (component : Component name) :
    relayBasename (entryPath dir name) = name := by
  obtain ⟨chars, -, reversed⟩ := entryPath_reverse name some_char
  have no_slash : '/' ∉ name.toList.reverse := by
    rw [List.mem_reverse]
    exact component.no_slash
  unfold relayBasename fileNameNondirectory
  rw [directoryFileName_entryPath some_char component, reversed, takeWhile_mark no_slash,
    List.reverse_reverse, String.ofList_toList]

theorem entryPath_ne_root (some_char : dir.toList ≠ []) (component : Component name) :
    entryPath dir name ≠ "/" := by
  intro same
  have base := relayBasename_entryPath some_char component
  rw [same] at base
  have empty : relayBasename "/" = "" := by decide
  rw [empty] at base
  apply component.some_char
  rw [← base]
  rfl

end Paths

/-- What the server finds: the metadata of each path, and the names in each directory that can be
read. -/
structure Files where
  lstat : String → Option Server.Metadata
  readdir : String → Option (List String)

/-- A request under way, with what its callback closes over. -/
inductive Query where
  | readdir (dir : String) (epoch : Nat)
  | stat (dir : String) (epoch : Nat) (entries : List Entry) (mtimeKey : MtimeKey)
  | watch (dir : String)
deriving DecidableEq, Repr

/-- The directory that a request is about. -/
def Query.dir : Query → String
  | readdir dir _ => dir
  | stat dir _ _ _ => dir
  | watch dir => dir

/-- The marks of one authority, `relay--listing-prefetch-cache`, and the listings of a connection,
with the attributes of their entries. -/
structure Session where
  listingPrefetch : Bool := true
  listingPrefetchDirs : List String := []
  contentPrefetchDirs : List String := []
  listingPrefetchCache : String → Option (List Entry × MtimeKey) := fun _ => none
  epoch : Nat := 0
  dircache : String → Option (List Entry) := fun _ => none
  queries : List Query := []

namespace Session

/-- `relay--prefetch-key-active-p`. -/
def active (s : Session) (dir : String) : Bool :=
  dir ∈ s.listingPrefetchDirs || dir ∈ s.contentPrefetchDirs

@[simps] def send (s : Session) (query : Query) : Session :=
  { s with queries := s.queries ++ [query] }

/-- `relay--listing-rewarm-async`. -/
def listingRewarmAsync (s : Session) (dir : String) : Session := s.send (.readdir dir s.epoch)

/-- `relay--listing-populate`. -/
@[simps] def listingPopulate (s : Session) (dir : String) (entries : List Entry)
    (selfAttrs : Option Attrs) : Session :=
  { s with
    dircache := fun other => if other = dir then some entries else s.dircache other
    listingPrefetchCache := fun other =>
      if s.listingPrefetch && dir ∈ s.listingPrefetchDirs && other = dir then
        some (entries, attrsMtimeKey selfAttrs)
      else s.listingPrefetchCache other }

/-- What `relay--revalidate-marked-on-connect` sends for one directory. -/
def revalidate (s : Session) (dir : String) : Session :=
  match s.listingPrefetchCache dir with
  | none => s.listingRewarmAsync dir
  | some (entries, mtimeKey) => s.send (.stat dir s.epoch entries mtimeKey)

/-- `relay--revalidate-marked-on-connect`, on the caches of a new connection. -/
def connect (s : Session) : Session :=
  (s.listingPrefetchDirs ++ s.contentPrefetchDirs).dedup.foldl revalidate
    { s with epoch := 0, dircache := fun _ => none, queries := [] }

/-- The listing `readdir_stream` makes of a directory. -/
def listed (files : Files) (dir : String) (names : List String) : List Entry :=
  names.map fun name => dirEntryValue name (files.lstat (entryPath dir name))

/-- The callback of a request that the server has answered. -/
def callback (files : Files) (s : Session) : Query → Session
  | .readdir dir epoch =>
      if epoch = s.epoch && s.active dir then
        match files.readdir dir with
        | some names =>
            (s.listingPopulate dir (listed files dir names) (statValue (files.lstat dir))).send
              (.watch dir)
        | none => s
      else s
  | .stat dir epoch entries mtimeKey =>
      if epoch = s.epoch && s.active dir then
        if attrsMtimeKey (statValue (files.lstat dir)) = mtimeKey then
          { s with
            dircache := fun other =>
              if other = dir then some entries else s.dircache other }.send (.watch dir)
        else s.listingRewarmAsync dir
      else s
  | .watch _ => s

/-- The server, whose files stay as they are, answers a request. -/
def answer (files : Files) (s : Session) (index : Nat) : Session :=
  match s.queries[index]? with
  | some query => { s with queries := s.queries.eraseIdx index }.callback files query
  | none => s

/-- `relay--entry-if-cached`. -/
def entryIfCached (s : Session) (localdir name : String) : Option Entry :=
  (s.dircache localdir).bind fun cached => cached.find? (·.name = name)

/-- `relay--stat`. -/
def stat (files : Files) (s : Session) (loc : String) : Option Attrs :=
  let entry := if loc = "/" then none else s.entryIfCached (relayDirname loc) (relayBasename loc)
  match entry with
  | some entry => some entry.attrs
  | none => statValue (files.lstat loc)

end Session

/-- What is compared of attributes. -/
def shown (attrs : Attrs) : Kind × Nat × Int × Nat :=
  (attrs.kind, attrs.size, attrs.mtime, attrs.mode)

/-- What `readdir_stream` had found when a listing was kept: the metadata of the directory, and of
each entry, if it was still there when they were read. -/
structure Taken where
  own : Option Server.Metadata
  entries : List (String × Option Server.Metadata)

def Taken.listing (t : Taken) : List Entry := t.entries.map fun (name, found) => dirEntryValue name found

def Taken.key (t : Taken) : MtimeKey := attrsMtimeKey (statValue t.own)

/-- What a session remembers of an authority between two connections. -/
structure Memory where
  listingPrefetch : Bool := true
  listingPrefetchDirs : List String
  contentPrefetchDirs : List String := []
  taken : String → Option Taken
  bare : ∀ dir ∈ listingPrefetchDirs ++ contentPrefetchDirs, Bare dir
  components : ∀ dir t, taken dir = some t → ∀ entry ∈ t.entries, Component entry.1

namespace Memory

def marked (m : Memory) : List String := m.listingPrefetchDirs ++ m.contentPrefetchDirs

def session (m : Memory) : Session where
  listingPrefetch := m.listingPrefetch
  listingPrefetchDirs := m.listingPrefetchDirs
  contentPrefetchDirs := m.contentPrefetchDirs
  listingPrefetchCache dir := (m.taken dir).map fun t => (t.listing, t.key)

/-- The listing of a marked directory whose key is what it was. -/
structure Reinstalled (m : Memory) (files : Files) (dir : String) (t : Taken) : Prop where
  marked : dir ∈ m.marked
  taken : m.taken dir = some t
  same : attrsMtimeKey (statValue (files.lstat dir)) = t.key

/-- Metadata show what an entry was listed with, which is made up if there was nothing. -/
def Unchanged (found now : Option Server.Metadata) : Prop :=
  ∃ metadata, now = some metadata ∧
    (statValue (some metadata)).map shown = some (shown ((statValue found).getD absentAttrs))

/-- In the directories with the key they had, each entry is as it was listed. -/
def Unmoved (m : Memory) (files : Files) : Prop :=
  ∀ dir t, m.Reinstalled files dir t → ∀ entry, t.entries.find? (·.1 = entry.1) = some entry →
    Unchanged entry.2 (files.lstat (entryPath dir entry.1))

end Memory

section Answering

open RelayPrefetch.Session

variable {m : Memory} {files : Files} {s : Session} {dir : String} {t : Taken}

/-- The request that validates or fetches a directory. -/
def Session.question (s : Session) (dir : String) : Query :=
  match s.listingPrefetchCache dir with
  | none => .readdir dir s.epoch
  | some (entries, mtimeKey) => .stat dir s.epoch entries mtimeKey

theorem revalidates (s : Session) (dirs : List String) :
    dirs.foldl revalidate s = { s with queries := s.queries ++ dirs.map s.question } := by
  induction dirs generalizing s with
  | nil => simp
  | cons dir dirs ih =>
      have asked : s.revalidate dir = s.send (s.question dir) := by
        unfold revalidate Session.question
        cases s.listingPrefetchCache dir with
        | none => rfl
        | some kept => rfl
      rw [List.foldl_cons, ih, asked]
      simp only [Session.send, List.map_cons, List.append_assoc, List.singleton_append]
      rfl

/-- The validation of a directory with its old key is under way or has been taken, and nothing else
concerns that directory. -/
structure Restored (m : Memory) (files : Files) (s : Session) : Prop where
  epoch : s.epoch = 0
  active : ∀ dir ∈ m.marked, s.active dir = true
  asked : ∀ dir t, m.Reinstalled files dir t →
    .stat dir 0 t.listing t.key ∈ s.queries ∨ s.dircache dir = some t.listing
  unread : ∀ dir t, m.Reinstalled files dir t → ∀ epoch, .readdir dir epoch ∉ s.queries
  alone : ∀ dir t, m.Reinstalled files dir t → ∀ epoch entries mtimeKey,
    .stat dir epoch entries mtimeKey ∈ s.queries →
      epoch = 0 ∧ entries = t.listing ∧ mtimeKey = t.key

theorem question_reinstalled (reinstalled : m.Reinstalled files dir t) :
    m.session.question dir = .stat dir 0 t.listing t.key := by
  have kept : m.session.listingPrefetchCache dir = some (t.listing, t.key) := by
    show (m.taken dir).map _ = _
    rw [reinstalled.taken]
    rfl
  unfold Session.question
  rw [kept]
  rfl

theorem question_dir (s : Session) (dir : String) : (s.question dir).dir = dir := by
  unfold Session.question
  split
  · rfl
  · rfl

theorem restored_connect : Restored m files m.session.connect := by
  have connected : m.session.connect = { m.session with
      queries := (m.listingPrefetchDirs ++ m.contentPrefetchDirs).dedup.map m.session.question } := by
    unfold Session.connect
    rw [revalidates]
    rfl
  rw [connected]
  constructor
  case epoch => rfl
  case active =>
    intro dir marked
    rcases List.mem_append.mp marked with listing | content
    · simp [Session.active, Memory.session, listing]
    · simp [Session.active, Memory.session, content]
  case asked =>
    intro dir t reinstalled
    left
    rw [← question_reinstalled reinstalled]
    exact List.mem_map.mpr ⟨dir, List.mem_dedup.mpr reinstalled.marked, rfl⟩
  case unread =>
    intro dir t reinstalled epoch asked
    obtain ⟨other, -, same⟩ := List.mem_map.mp asked
    have here : dir = other :=
      (congrArg Query.dir same).symm.trans (question_dir m.session other)
    rw [← here, question_reinstalled reinstalled] at same
    cases same
  case alone =>
    intro dir t reinstalled epoch entries mtimeKey asked
    obtain ⟨other, -, same⟩ := List.mem_map.mp asked
    have here : dir = other :=
      (congrArg Query.dir same).symm.trans (question_dir m.session other)
    rw [← here, question_reinstalled reinstalled] at same
    injection same with _ epoch_eq entries_eq key_eq
    exact ⟨epoch_eq.symm, entries_eq.symm, key_eq.symm⟩

/-- An answer that leaves the listing of a directory alone, and asks nothing about it. -/
theorem restored_of_apart (restored : Restored m files s) {s' : Session} {index : Nat} {query : Query}
    (found : s.queries[index]? = some query) (epoch : s'.epoch = s.epoch)
    (active : ∀ dir, s'.active dir = s.active dir)
    (kept : ∀ q ∈ s.queries.eraseIdx index, q ∈ s'.queries)
    (unread : ∀ dir t, m.Reinstalled files dir t → ∀ epoch,
      .readdir dir epoch ∈ s'.queries → .readdir dir epoch ∈ s.queries)
    (alone : ∀ dir epoch entries mtimeKey,
      .stat dir epoch entries mtimeKey ∈ s'.queries → .stat dir epoch entries mtimeKey ∈ s.queries)
    (asked : ∀ dir t, m.Reinstalled files dir t →
      query = .stat dir 0 t.listing t.key ∨ s.dircache dir = some t.listing →
        s'.dircache dir = some t.listing) : Restored m files s' where
  epoch := epoch.trans restored.epoch
  active dir marked := (active dir).trans (restored.active dir marked)
  asked dir t reinstalled := by
    rcases restored.asked dir t reinstalled with pending | installed
    · by_cases same : query = .stat dir 0 t.listing t.key
      · exact .inr (asked dir t reinstalled (.inl same))
      · left
        apply kept
        exact Warmth.mem_eraseIdx_of_ne found pending fun is => same is.symm
    · exact .inr (asked dir t reinstalled (.inr installed))
  unread dir t reinstalled epoch member :=
    restored.unread dir t reinstalled epoch (unread dir t reinstalled epoch member)
  alone dir t reinstalled epoch entries mtimeKey member :=
    restored.alone dir t reinstalled epoch entries mtimeKey
      (alone dir epoch entries mtimeKey member)

/-- A request that is answered without a further one, and installs nothing it should not. -/
theorem restored_dropped (restored : Restored m files s) {index : Nat} {query : Query}
    (found : s.queries[index]? = some query)
    (other : ∀ dir t, m.Reinstalled files dir t → query ≠ .stat dir 0 t.listing t.key) :
    Restored m files { s with queries := s.queries.eraseIdx index } := by
  apply restored_of_apart restored found
  case epoch => rfl
  case active => exact fun _ => rfl
  case kept => exact fun _ member => member
  case unread => exact fun _ _ _ _ member => List.mem_of_mem_eraseIdx member
  case alone => exact fun _ _ _ _ member => List.mem_of_mem_eraseIdx member
  case asked =>
    intro dir t reinstalled cause
    exact cause.resolve_left (other dir t reinstalled)

theorem restored_readdir (restored : Restored m files s) {index : Nat} {dir : String} {epoch : Nat}
    (found : s.queries[index]? = some (.readdir dir epoch)) :
    Restored m files ({ s with queries := s.queries.eraseIdx index }.callback files
      (.readdir dir epoch)) := by
  have dropped := restored_dropped restored found fun _ _ _ => nofun
  have asked : .readdir dir epoch ∈ s.queries := List.mem_of_getElem? found
  simp only [Session.callback]
  split
  · split
    · rename_i names read
      apply restored_of_apart restored found
      case epoch => rfl
      case active => exact fun _ => rfl
      case kept => exact fun _ member => List.mem_append_left _ member
      case unread =>
        intro other t _ epoch member
        rcases List.mem_append.mp member with before | new
        · exact List.mem_of_mem_eraseIdx before
        · cases List.mem_singleton.mp new
      case alone =>
        intro other epoch entries mtimeKey member
        rcases List.mem_append.mp member with before | new
        · exact List.mem_of_mem_eraseIdx before
        · cases List.mem_singleton.mp new
      case asked =>
        intro other t reinstalled cause
        have apart : other ≠ dir := by
          intro same
          rw [same] at reinstalled
          exact restored.unread dir t reinstalled epoch asked
        rcases cause with is_stat | installed
        · cases is_stat
        · exact (if_neg apart).trans installed
    · exact dropped
  · exact dropped

theorem restored_stat (restored : Restored m files s) {index : Nat} {dir : String} {epoch : Nat}
    {entries : List Entry} {mtimeKey : MtimeKey}
    (found : s.queries[index]? = some (.stat dir epoch entries mtimeKey)) :
    Restored m files ({ s with queries := s.queries.eraseIdx index }.callback files
      (.stat dir epoch entries mtimeKey)) := by
  have asked : .stat dir epoch entries mtimeKey ∈ s.queries := List.mem_of_getElem? found
  -- A directory that is to be installed again passes all three tests.
  have passes : ∀ t, m.Reinstalled files dir t → epoch = s.epoch ∧ s.active dir = true ∧
      attrsMtimeKey (statValue (files.lstat dir)) = mtimeKey ∧ entries = t.listing := by
    intro t reinstalled
    obtain ⟨now, entries_eq, key_eq⟩ := restored.alone dir t reinstalled _ _ _ asked
    exact ⟨now.trans restored.epoch.symm, restored.active dir reinstalled.marked,
      reinstalled.same.trans key_eq.symm, entries_eq⟩
  have dropped : (∀ t, ¬ m.Reinstalled files dir t) →
      Restored m files { s with queries := s.queries.eraseIdx index } := by
    intro none
    apply restored_dropped restored found
    intro other t reinstalled same
    injection same with dir_eq
    rw [← dir_eq] at reinstalled
    exact none t reinstalled
  simp only [Session.callback]
  split
  · split
    · apply restored_of_apart restored found
      case epoch => rfl
      case active => exact fun _ => rfl
      case kept => exact fun _ member => List.mem_append_left _ member
      case unread =>
        intro other t _ epoch member
        rcases List.mem_append.mp member with before | new
        · exact List.mem_of_mem_eraseIdx before
        · cases List.mem_singleton.mp new
      case alone =>
        intro other epoch entries mtimeKey member
        rcases List.mem_append.mp member with before | new
        · exact List.mem_of_mem_eraseIdx before
        · cases List.mem_singleton.mp new
      case asked =>
        intro other t reinstalled cause
        by_cases same : other = dir
        · rw [same] at reinstalled
          rw [(passes t reinstalled).2.2.2]
          exact if_pos same
        · rcases cause with is_stat | installed
          · injection is_stat with dir_eq
            exact absurd dir_eq.symm same
          · exact (if_neg same).trans installed
    · rename_i differs
      have none : ∀ t, ¬ m.Reinstalled files dir t :=
        fun t reinstalled => differs (passes t reinstalled).2.2.1
      have rest := dropped none
      constructor
      case epoch => exact rest.epoch
      case active => exact rest.active
      case asked =>
        intro other t reinstalled
        rcases rest.asked other t reinstalled with pending | installed
        · exact .inl (List.mem_append_left _ pending)
        · exact .inr installed
      case unread =>
        intro other t reinstalled epoch member
        rcases List.mem_append.mp member with before | new
        · exact rest.unread other t reinstalled epoch before
        · cases List.mem_singleton.mp new
          exact none t reinstalled
      case alone =>
        intro other t reinstalled epoch entries mtimeKey member
        rcases List.mem_append.mp member with before | new
        · exact rest.alone other t reinstalled epoch entries mtimeKey before
        · cases List.mem_singleton.mp new
  · rename_i refused
    apply dropped
    intro t reinstalled
    apply refused
    rw [Bool.and_eq_true]
    exact ⟨decide_eq_true (passes t reinstalled).1, (passes t reinstalled).2.1⟩

theorem restored_answer (restored : Restored m files s) (index : Nat) :
    Restored m files (s.answer files index) := by
  unfold Session.answer
  cases found : s.queries[index]? with
  | none => exact restored
  | some query =>
      cases query with
      | readdir dir epoch => exact restored_readdir restored found
      | stat dir epoch entries mtimeKey => exact restored_stat restored found
      | watch dir => exact restored_dropped restored found fun _ _ _ => nofun

/-- What `relay--stat` answers for an entry of a listing that is cached. -/
theorem stat_entry {entry : String × Option Server.Metadata}
    (bare : Bare dir) (component : Component entry.1)
    (listed : s.dircache dir = some t.listing)
    (first : t.entries.find? (·.1 = entry.1) = some entry) :
    s.stat files (entryPath dir entry.1) = some ((statValue entry.2).getD absentAttrs) := by
  have looked : s.entryIfCached (relayDirname (entryPath dir entry.1))
      (relayBasename (entryPath dir entry.1)) = some (dirEntryValue entry.1 entry.2) := by
    rw [relayDirname_entryPath bare component, relayBasename_entryPath bare.some_char component]
    unfold Session.entryIfCached
    rw [listed]
    show (t.entries.map _).find? _ = _
    rw [List.find?_map]
    have same : ((fun e : Entry => decide (e.name = entry.1)) ∘
        fun found : String × Option Server.Metadata => dirEntryValue found.1 found.2) =
        fun found => decide (found.1 = entry.1) := rfl
    rw [same, first]
    rfl
  unfold Session.stat
  rw [if_neg (entryPath_ne_root bare.some_char component), looked]
  rfl

end Answering

/-- Once all requests of a new connection have been answered, `relay--stat` returns for the entries
of the listings installed again what the server's `stat` does, exactly when they are unmoved. -/
theorem attributes_after_reconnect {m : Memory} {files : Files} {s : Session}
    (reached : Reaches (Session.answer files) (fun _ _ => True) m.session.connect s)
    (answered : ∀ query ∈ s.queries, ∃ dir, query = .watch dir) :
    (∀ dir t, m.Reinstalled files dir t → s.dircache dir = some t.listing) ∧
      ((∀ dir t, m.Reinstalled files dir t → ∀ entry ∈ t.listing,
        (s.stat files (entryPath dir entry.name)).map shown =
          (statValue (files.lstat (entryPath dir entry.name))).map shown) ↔ m.Unmoved files) := by
  have restored : Restored m files s := by
    apply Reaches.invariant _ _ reached
    · exact restored_connect
    · exact fun _ index restored _ => restored_answer restored index
  have installed : ∀ dir t, m.Reinstalled files dir t → s.dircache dir = some t.listing := by
    intro dir t reinstalled
    apply (restored.asked dir t reinstalled).resolve_left
    intro pending
    obtain ⟨_, same⟩ := answered _ pending
    cases same
  -- The server's answer is compared with what the first entry of the name was listed with.
  have compared : ∀ dir t, m.Reinstalled files dir t → ∀ entry,
      t.entries.find? (·.1 = entry.1) = some entry →
      ((s.stat files (entryPath dir entry.1)).map shown =
        (statValue (files.lstat (entryPath dir entry.1))).map shown ↔
          Memory.Unchanged entry.2 (files.lstat (entryPath dir entry.1))) := by
    intro dir t reinstalled entry first
    have member := List.mem_of_find?_eq_some first
    have bare := m.bare dir reinstalled.marked
    have component := m.components dir t reinstalled.taken entry member
    rw [stat_entry bare component (installed dir t reinstalled) first]
    cases files.lstat (entryPath dir entry.1) with
    | none =>
        constructor
        · intro same
          cases same
        · intro ⟨_, same, _⟩
          cases same
    | some metadata =>
        constructor
        · exact fun same => ⟨metadata, rfl, same.symm⟩
        · intro ⟨_, same, shows⟩
          cases same
          exact shows.symm
  refine ⟨installed, ?_, ?_⟩
  · intro current dir t reinstalled entry first
    apply (compared dir t reinstalled entry first).mp
    have member := List.mem_of_find?_eq_some first
    exact current dir t reinstalled _ (List.mem_map.mpr ⟨entry, member, rfl⟩)
  · intro unmoved dir t reinstalled listed member
    obtain ⟨entry, there, same⟩ := List.mem_map.mp member
    have name : listed.name = entry.1 := by
      rw [← same]
      rfl
    rw [name]
    obtain ⟨first, found⟩ : ∃ first, t.entries.find? (·.1 = entry.1) = some first := by
      apply Option.isSome_iff_exists.mp
      rw [List.find?_isSome]
      exact ⟨entry, there, decide_eq_true rfl⟩
    have passes := List.find?_some found
    have is_first : first.1 = entry.1 := by simpa using passes
    rw [← is_first] at found ⊢
    exact (compared dir t reinstalled first found).mpr (unmoved dir t reinstalled first found)

/-- A marked directory with one file. -/
def oneFileKept : Memory where
  listingPrefetchDirs := ["/d"]
  taken dir := if dir = "/d" then
      some ⟨some ⟨.dir, 0, 7, 0, 493, none⟩, [("f", some ⟨.other, 3, 5, 0, 420, none⟩)]⟩
    else none
  bare := by
    intro dir marked
    rw [List.mem_singleton.mp marked]
    exact ⟨by decide, by decide⟩
  components := by
    intro dir t taken entry member
    by_cases same : dir = "/d"
    · rw [if_pos same] at taken
      cases taken
      rw [List.mem_singleton.mp member]
      exact ⟨by decide, by decide⟩
    · rw [if_neg same] at taken
      cases taken

/-- The directory is as it was kept; its file is as given. -/
def oneFileThere (file : Server.Metadata) : Files where
  lstat path :=
    if path = "/d" then some ⟨.dir, 0, 7, 0, 493, none⟩
    else if path = "/d/f" then some file
    else none
  readdir _ := some ["f"]

theorem oneFile_reached (file : Server.Metadata) :
    Reaches (Session.answer (oneFileThere file)) (fun _ _ => True) oneFileKept.session.connect
      (oneFileKept.session.connect.answer (oneFileThere file) 0) :=
  Reaches.refl.next trivial

theorem oneFile_reinstalled (file : Server.Metadata) {dir : String} {t : Taken}
    (reinstalled : oneFileKept.Reinstalled (oneFileThere file) dir t) :
    dir = "/d" ∧ t.entries = [("f", some ⟨.other, 3, 5, 0, 420, none⟩)] := by
  have same : dir = "/d" := List.mem_singleton.mp reinstalled.marked
  have taken := reinstalled.taken
  rw [same] at taken
  cases taken
  exact ⟨same, rfl⟩

/-- Nothing has changed when the directory is connected to again. -/
theorem attributes_after_reconnect_unmoved :
    (oneFileKept.session.connect.answer
      (oneFileThere ⟨.other, 3, 5, 0, 420, none⟩) 0).stat (oneFileThere ⟨.other, 3, 5, 0, 420, none⟩)
        "/d/f" = statValue (some ⟨.other, 3, 5, 0, 420, none⟩) ∧
    oneFileKept.Unmoved (oneFileThere ⟨.other, 3, 5, 0, 420, none⟩) := by
  constructor
  · decide
  · have compared := attributes_after_reconnect (oneFile_reached ⟨.other, 3, 5, 0, 420, none⟩)
      (fun query member => ⟨"/d", List.mem_singleton.mp member⟩)
    apply compared.2.mp
    intro dir t reinstalled entry member
    obtain ⟨same, entries⟩ := oneFile_reinstalled _ reinstalled
    rw [Taken.listing, entries] at member
    rw [same, List.mem_singleton.mp member]
    decide

/-- The file is rewritten in place while the connection is down: the directory has the key it had. -/
theorem rewritten_entry_stale :
    ∃ s, Reaches (Session.answer (oneFileThere ⟨.other, 9, 8, 0, 420, none⟩)) (fun _ _ => True)
        oneFileKept.session.connect s ∧
      (∀ query ∈ s.queries, ∃ dir, query = .watch dir) ∧
      (∃ t, oneFileKept.Reinstalled (oneFileThere ⟨.other, 9, 8, 0, 420, none⟩) "/d" t ∧
        s.dircache "/d" = some t.listing) ∧
      (s.stat (oneFileThere ⟨.other, 9, 8, 0, 420, none⟩) (entryPath "/d" "f")).map shown =
        some (.file, 3, 5, 420) ∧
      (statValue ((oneFileThere ⟨.other, 9, 8, 0, 420, none⟩).lstat (entryPath "/d" "f"))).map shown =
        some (.file, 9, 8, 420) := by
  refine ⟨_, oneFile_reached _, ?_, ?_, ?_, ?_⟩
  · exact fun query member => ⟨"/d", List.mem_singleton.mp member⟩
  · exact ⟨_, ⟨by decide, rfl, by decide⟩, by decide⟩
  · decide
  · decide

end EmacsRelay.RelayPrefetch

import EmacsRelay.Client.Modtime
import EmacsRelay.Prefetch.Recency
import EmacsRelay.Prefetch.Reconnect
import EmacsRelay.System.Names

set_option autoImplicit false

/- What `lisp/relay-file-handler.el` tells Emacs of files and directories: from the listings of a
connection where they have the answer, and from the server where they have not. Functions go by their
own names, without the prefix. -/
namespace EmacsRelay.RelayFileHandler

open RelayPrefetch Server

/-- `nil`, `t`, or the target of a link. -/
inductive Leads where
  | nil
  | t
  | target (text : String)
deriving DecidableEq, Repr

/-- What `file-attributes` gives, without its constants: all times are the one of modification. -/
structure FileAttributes where
  type : Leads
  time : VisitedFile.LispTime
  size : Nat
  modes : String
deriving DecidableEq, Repr

def modeString (mode : Nat) (kind : Kind) : String :=
  let first := match kind with
    | .dir => 'd'
    | .symlink => 'l'
    | .file => '-'
  .ofList (first :: (List.range 9).map fun i =>
    if mode.testBit (8 - i) then "rwxrwxrwx".toList.getD i '-' else '-')

example : modeString 0o100644 .file = "-rw-r--r--" := by decide

/-- `relay--attrs->file-attributes`, of attributes that there are. -/
def fileAttributesOf (attrs : Attrs) : FileAttributes where
  type := match attrs.kind with
    | .dir => .t
    | .symlink => attrs.target.elim .t .target
    | .file => .nil
  time := VisitedFile.attrsTime attrs
  size := attrs.size
  modes := modeString attrs.mode attrs.kind

/-- What a completion offers of an entry. -/
def candidate (name : String) (isDirectory : Bool) : String :=
  if isDirectory then name ++ "/" else name

/-- What Emacs asks about files, by their names. -/
inductive Question where
  | fileAttributes (filename : String)
  | fileExistsP (filename : String)
  | fileDirectoryP (filename : String)
  | fileRegularP (filename : String)
  | fileSymlinkP (filename : String)
  | fileReadableP (filename : String)
  | fileWritableP (filename : String)
  | fileModes (filename : String)
  /-- KEEPS is what MATCH matches. -/
  | directoryFiles (directory : String) (full nosort : Bool) (keeps : String → Bool)
  | directoryFilesAndAttributes (directory : String) (full nosort : Bool) (keeps : String → Bool)
  | fileNameAllCompletions (file directory : String)

inductive Finding where
  | attributes (attributes : Option FileAttributes)
  | truth (value : Bool)
  | leads (value : Leads)
  | modes (modes : Option Nat)
  | names (names : List String)
  | listed (files : List (String × Option FileAttributes))
  /-- An error is signalled. -/
  | failed
deriving DecidableEq, Repr

def Finding.ofNames (names : Option (List String)) : Finding := names.elim .failed .names

def Finding.ofListed (files : Option (List (String × Option FileAttributes))) : Finding :=
  files.elim .failed .listed

/-- A name in a directory, other than those that every directory has. -/
structure EntryName (name : String) : Prop extends RelayPrefetch.Component name where
  not_self : name ≠ "."
  not_parent : name ≠ ".."

/-- A file system whose directories are read without these. -/
structure Remote extends RelayPrefetch.Files where
  named : ∀ dir names, readdir dir = some names → ∀ name ∈ names, EntryName name

/-- The servers of all authorities, and the connections to them. -/
structure Browser where
  hosts : String → Remote
  sessions : String → RelayPrefetch.Session

namespace Browser

def setSession (b : Browser) (authority : String) (session : RelayPrefetch.Session) : Browser :=
  { b with sessions := fun other => if other = authority then session else b.sessions other }

/-- `relay--stat`, on the connection to an authority. -/
def stat (b : Browser) (authority loc : String) : Option Attrs :=
  (b.sessions authority).stat (b.hosts authority).toFiles loc

/-- `relay--listing`, while the files stay as they are. A listing without entries is read again. -/
def listing (b : Browser) (authority localdir : String) : Option (List Entry) × Browser :=
  let s := b.sessions authority
  let files := (b.hosts authority).toFiles
  match (s.dircache localdir).getD [] with
  | entry :: entries => (some (entry :: entries), b)
  | [] =>
      match files.readdir localdir with
      | some names =>
          let entries := RelayPrefetch.Session.listed files localdir names
          (some entries, b.setSession authority
            ((s.send (.watch localdir)).listingPopulate localdir entries
              (statValue (files.lstat localdir))))
      | none => (none, b)

section

variable (table : FoldTable) (b : Browser)

/-- A question about the attributes of one file. -/
def ofStat {α : Type} (ask : Option Attrs → α) (filename : String) : α :=
  ask ((table.relayParse filename).bind fun (authority, loc) => b.stat authority loc)

def fileAttributes : String → Option FileAttributes := b.ofStat table (·.map fileAttributesOf)

def fileExistsP : String → Bool := b.ofStat table (·.isSome)

def fileDirectoryP : String → Bool := b.ofStat table (·.any (·.kind = .dir))

def fileRegularP : String → Bool := b.ofStat table (·.any (·.kind = .file))

def fileSymlinkP : String → Leads := b.ofStat table fun
  | some attrs => if attrs.kind = .symlink then attrs.target.elim .t .target else .nil
  | none => .nil

def fileReadableP (filename : String) : Bool := b.fileExistsP table filename

def fileWritableP (filename : String) : Bool :=
  (table.relayParse filename).any fun (authority, loc) =>
    b.fileExistsP table filename ||
      b.fileExistsP table (relayWrap authority (relayDirname loc))

def fileModes : String → Option Nat := b.ofStat table (·.map (·.mode))

def directoryFiles (directory : String) (full nosort : Bool) (keeps : String → Bool) :
    Option (List String) × Browser :=
  match table.relayParse directory with
  | none => (none, b)
  | some (authority, loc) =>
      let (entries, after) := b.listing authority (directoryFileName loc)
      (entries.map fun entries =>
        let names := ([".", ".."] ++ entries.map (·.name)).filter keeps
        let names := if nosort then names else names.mergeSort fun one other => one ≤ other
        if full then names.map (fileNameAsDirectory directory ++ ·) else names, after)

def directoryFilesAndAttributes (directory : String) (full nosort : Bool) (keeps : String → Bool) :
    Option (List (String × Option FileAttributes)) × Browser :=
  match table.relayParse directory with
  | none => (none, b)
  | some (authority, loc) =>
      let (names, after) := b.directoryFiles table directory full nosort keeps
      (names.map fun names => names.map fun name =>
        let found := after.stat authority
          (entryPath (directoryFileName loc) (fileNameNondirectory name))
        (name, found.map fileAttributesOf), after)

def completionArguments (file directory : String) : Option (String × String × String) :=
  match table.relayParse directory with
  | some (authority, loc) => some (authority, directoryFileName loc, file)
  | none => (table.relayParse file).map fun (authority, loc) =>
      (authority, relayDirname loc, relayBasename loc)

def fileNameAllCompletions (file directory : String) : Option (List String) × Browser :=
  match completionArguments table file directory with
  | none => (none, b)
  | some (authority, localdir, start) =>
      let (entries, after) := b.listing authority localdir
      (entries.map fun entries =>
        ((entries.filter (stringPrefixP start ·.name)).map fun entry =>
          candidate entry.name (entry.attrs.kind = .dir)).reverse, after)

/-- What Emacs is told, and how that leaves the connections. -/
def answer : Question → Finding × Browser
  | .fileAttributes filename => (.attributes (b.fileAttributes table filename), b)
  | .fileExistsP filename => (.truth (b.fileExistsP table filename), b)
  | .fileDirectoryP filename => (.truth (b.fileDirectoryP table filename), b)
  | .fileRegularP filename => (.truth (b.fileRegularP table filename), b)
  | .fileSymlinkP filename => (.leads (b.fileSymlinkP table filename), b)
  | .fileReadableP filename => (.truth (b.fileReadableP table filename), b)
  | .fileWritableP filename => (.truth (b.fileWritableP table filename), b)
  | .fileModes filename => (.modes (b.fileModes table filename), b)
  | .directoryFiles directory full nosort keeps =>
      let (names, after) := b.directoryFiles table directory full nosort keeps
      (.ofNames names, after)
  | .directoryFilesAndAttributes directory full nosort keeps =>
      let (files, after) := b.directoryFilesAndAttributes table directory full nosort keeps
      (.ofListed files, after)
  | .fileNameAllCompletions file directory =>
      let (names, after) := b.fileNameAllCompletions table file directory
      (.ofNames names, after)

end

/-- What happens to the browser. -/
inductive Turn where
  | ask (question : Question)
  /-- The files of an authority change, and events drop listings of its connection. -/
  | change (authority : String) (remote : Remote) (session : RelayPrefetch.Session)
  | connect (authority : String)
  /-- The server answers a request that nobody waits for. -/
  | answer (authority : String) (index : Nat)
  /-- `dired-uncache`. -/
  | uncache (directory : String)

section

variable (table : FoldTable) (b : Browser)

def step : Turn → Browser
  | .ask question => (b.answer table question).2
  | .change authority remote session =>
      { b.setSession authority session with
        hosts := fun other => if other = authority then remote else b.hosts other }
  | .connect authority => b.setSession authority (b.sessions authority).connect
  | .answer authority index =>
      b.setSession authority ((b.sessions authority).answer (b.hosts authority).toFiles index)
  | .uncache directory =>
      match table.relayParse directory with
      | some (authority, loc) =>
          b.setSession authority { b.sessions authority with
            dircache := fun dir =>
              if dir = directoryFileName loc then none else (b.sessions authority).dircache dir }
      | none => b

/-- Events drop the listings that a change makes out of date. -/
def Lawful : Turn → Prop
  | .change authority remote session => ∀ dir entries, session.dircache dir = some entries →
      (b.sessions authority).dircache dir = some entries ∧
        remote.readdir dir = (b.hosts authority).readdir dir ∧
        ∀ names, remote.readdir dir = some names → ∀ name ∈ names,
          remote.lstat (entryPath dir name) = (b.hosts authority).lstat (entryPath dir name)
  | _ => True

/-- A listing that an earlier connection has left is still that of its directory, names and
attributes, where a new connection finds the modification time that it was left with. -/
def Undeceived : Turn → Prop
  | .answer authority index => ∀ dir epoch entries mtimeKey,
      (b.sessions authority).queries[index]? = some (.stat dir epoch entries mtimeKey) →
      attrsMtimeKey (statValue ((b.hosts authority).lstat dir)) = mtimeKey →
      ∃ names, (b.hosts authority).readdir dir = some names ∧
        entries = RelayPrefetch.Session.listed (b.hosts authority).toFiles dir names
  | _ => True

/-- New connections, with what is remembered of earlier ones. -/
def start (hosts : String → Remote) (sessions : String → RelayPrefetch.Session) : Browser where
  hosts := hosts
  sessions authority := (sessions authority).connect

end

end Browser

/-- Every listing is that of its directory. -/
def Mirrors (files : RelayPrefetch.Files) (s : RelayPrefetch.Session) : Prop :=
  ∀ dir entries, s.dircache dir = some entries →
    ∃ names, files.readdir dir = some names ∧ entries = RelayPrefetch.Session.listed files dir names

/-- A file is listed, if it is, with what `stat` finds. -/
def Plain (files : RelayPrefetch.Files) (loc : String) : Prop :=
  loc ≠ "/" → ∀ names, files.readdir (relayDirname loc) = some names → relayBasename loc ∈ names →
    statValue (files.lstat loc) =
      some (dirEntryValue (relayBasename loc)
        (files.lstat (entryPath (relayDirname loc) (relayBasename loc)))).attrs

section Stat

variable {files : RelayPrefetch.Files} {s : RelayPrefetch.Session} {loc : String}

/-- What `relay--stat` answers from the listing of a directory. -/
theorem entryIfCached_eq (mirrors : Mirrors files s) {dir name : String} {entry : Entry}
    (found : s.entryIfCached dir name = some entry) :
    ∃ names, files.readdir dir = some names ∧ name ∈ names ∧
      entry = dirEntryValue name (files.lstat (entryPath dir name)) := by
  obtain ⟨entries, cached, picked⟩ := Option.bind_eq_some_iff.mp found
  obtain ⟨names, read, listed⟩ := mirrors dir entries cached
  have same : entry.name = name := by simpa using List.find?_some picked
  have member := List.mem_of_find?_eq_some picked
  rw [listed] at member
  obtain ⟨other, there, made⟩ := List.mem_map.mp member
  have named : other = name := by
    rw [← same, ← made]
    rfl
  exact ⟨names, read, named ▸ there, by rw [← made, named]⟩

theorem stat_plain (mirrors : Mirrors files s) (plain : Plain files loc) :
    s.stat files loc = statValue (files.lstat loc) := by
  unfold RelayPrefetch.Session.stat
  by_cases root : loc = "/"
  · simp [root]
  · simp only [root, if_false]
    cases found : s.entryIfCached (relayDirname loc) (relayBasename loc) with
    | none => rfl
    | some entry =>
        obtain ⟨names, read, member, same⟩ := entryIfCached_eq mirrors found
        rw [plain root names read member, same]

/-- The path of an entry that can be looked at is plain. -/
theorem plain_entryPath {dir name : String} (bare : Bare dir)
    (component : RelayPrefetch.Component name)
    (there : (files.lstat (entryPath dir name)).isSome) : Plain files (entryPath dir name) := by
  obtain ⟨metadata, found⟩ := Option.isSome_iff_exists.mp there
  intro _ names _ _
  rw [relayDirname_entryPath bare component, relayBasename_entryPath bare.some_char component, found]
  rfl

end Stat

section Truth

variable (table : FoldTable) (hosts : String → Remote)

/-- What there is of a file, by its name. -/
def metadata (filename : String) : Option Server.Metadata :=
  (table.relayParse filename).bind fun (authority, loc) => (hosts authority).lstat loc

/-- The names in a directory that are kept, with the two that every directory has. -/
def filesIn (directory : String) (full nosort : Bool) (keeps : String → Bool) :
    Option (List String) :=
  (table.relayParse directory).bind fun (authority, loc) =>
    ((hosts authority).readdir (directoryFileName loc)).map fun names =>
      let names := ("." :: ".." :: names).filter keeps
      let names := if nosort then names else names.mergeSort fun one other => one ≤ other
      if full then names.map (fileNameAsDirectory directory ++ ·) else names

/-- What a link leads to, of a file that may be none. -/
def leads (md : Server.Metadata) : Leads :=
  if md.fileType = .symlink then md.readLink.elim .t .target else .nil

def attributesOf (md : Server.Metadata) : FileAttributes where
  type := if md.fileType = .dir then .t else leads md
  time := VisitedFile.timeOf md.mtime md.mtimeNsec
  size := md.size
  modes := modeString md.mode <| match md.fileType with
    | .dir => .dir
    | .symlink => .symlink
    | .other => .file

/-- And what there is of each. -/
def listedIn (directory : String) (full nosort : Bool) (keeps : String → Bool) :
    Option (List (String × Option FileAttributes)) :=
  (table.relayParse directory).bind fun (authority, loc) =>
    (filesIn table hosts directory full nosort keeps).map fun names => names.map fun name =>
      let found := (hosts authority).lstat
        (entryPath (directoryFileName loc) (fileNameNondirectory name))
      (name, found.map attributesOf)

/-- The names in a directory that begin so, with a slash behind those of directories. -/
def completions (authority localdir start : String) : Option (List String) :=
  ((hosts authority).readdir localdir).map fun names =>
    ((names.filter (stringPrefixP start)).map fun name =>
      candidate name
        (((hosts authority).lstat (entryPath localdir name)).any (·.fileType = .dir))).reverse

/-- There is the file, or the directory that it would be in. -/
def placed (filename : String) : Bool :=
  (table.relayParse filename).any fun (authority, loc) =>
    (metadata table hosts filename).isSome ||
      (metadata table hosts (relayWrap authority (relayDirname loc))).isSome

/-- The answers that the files themselves give. -/
def truth : Question → Finding
  | .fileAttributes filename => .attributes ((metadata table hosts filename).map attributesOf)
  | .fileExistsP filename => .truth (metadata table hosts filename).isSome
  | .fileDirectoryP filename => .truth ((metadata table hosts filename).any (·.fileType = .dir))
  | .fileRegularP filename => .truth ((metadata table hosts filename).any (·.fileType = .other))
  | .fileSymlinkP filename => .leads ((metadata table hosts filename).elim .nil leads)
  | .fileReadableP filename => .truth (metadata table hosts filename).isSome
  | .fileWritableP filename => .truth (placed table hosts filename)
  | .fileModes filename => .modes ((metadata table hosts filename).map (·.mode))
  | .directoryFiles directory full nosort keeps =>
      .ofNames (filesIn table hosts directory full nosort keeps)
  | .directoryFilesAndAttributes directory full nosort keeps =>
      .ofListed (listedIn table hosts directory full nosort keeps)
  | .fileNameAllCompletions file directory =>
      .ofNames ((Browser.completionArguments table file directory).bind
        fun (authority, localdir, start) => completions hosts authority localdir start)

/-- A name whose file is plain. -/
def PlainName (filename : String) : Prop :=
  ∀ authority loc, table.relayParse filename = some (authority, loc) →
    Plain (hosts authority).toFiles loc

/-- The files that a question looks at are plain. -/
def Question.Plain : Question → Prop
  | .fileAttributes filename | .fileExistsP filename | .fileDirectoryP filename
  | .fileRegularP filename | .fileSymlinkP filename | .fileReadableP filename
  | .fileModes filename => PlainName table hosts filename
  | .fileWritableP filename => PlainName table hosts filename ∧
      ∀ authority loc, table.relayParse filename = some (authority, loc) →
        PlainName table hosts (relayWrap authority (relayDirname loc))
  | .directoryFilesAndAttributes directory full nosort keeps =>
      ∀ authority loc, table.relayParse directory = some (authority, loc) →
        ∀ names, filesIn table hosts directory full nosort keeps = some names → ∀ name ∈ names,
          RelayFileHandler.Plain (hosts authority).toFiles
            (entryPath (directoryFileName loc) (fileNameNondirectory name))
  | .directoryFiles .. | .fileNameAllCompletions .. => True

end Truth

namespace Browser

/-- All connections mirror their servers. -/
def Mirroring (b : Browser) : Prop :=
  ∀ authority, Mirrors (b.hosts authority).toFiles (b.sessions authority)

section Listings

variable {b : Browser}

theorem setSession_mirroring (mirroring : b.Mirroring) {authority : String}
    {session : RelayPrefetch.Session}
    (mirrors : Mirrors (b.hosts authority).toFiles session) :
    (b.setSession authority session).Mirroring := by
  intro other
  show Mirrors (b.hosts other).toFiles (if other = authority then session else b.sessions other)
  split
  · rename_i here
    rw [here]
    exact mirrors
  · exact mirroring other

/-- A listing is installed that is that of its directory. -/
theorem mirrors_install {files : RelayPrefetch.Files} {s s' : RelayPrefetch.Session}
    (mirrors : Mirrors files s) {dir : String} {names : List String}
    (read : files.readdir dir = some names) {entries : List Entry}
    (listed : entries = RelayPrefetch.Session.listed files dir names)
    (installed : s'.dircache = fun other => if other = dir then some entries else s.dircache other) :
    Mirrors files s' := by
  intro other found cached
  rw [installed] at cached
  dsimp only at cached
  split at cached
  · rename_i here
    rw [here]
    exact ⟨names, read, (Option.some.inj cached).symm.trans listed⟩
  · exact mirrors other found cached

theorem listing_mirroring (mirroring : b.Mirroring) (authority dir : String) :
    (b.listing authority dir).2.Mirroring := by
  unfold listing
  dsimp only
  split
  · exact mirroring
  · split
    · rename_i names read
      apply setSession_mirroring mirroring
      exact mirrors_install (mirroring authority) read rfl rfl
    · exact mirroring

theorem listing_hosts (authority dir : String) : (b.listing authority dir).2.hosts = b.hosts := by
  unfold listing
  dsimp only
  split
  · rfl
  · split <;> rfl

/-- A directory is listed at most. -/
theorem directoryFiles_after (table : FoldTable) (directory : String) (full nosort : Bool)
    (keeps : String → Bool) :
    (b.directoryFiles table directory full nosort keeps).2 = b ∨
      ∃ authority dir, (b.directoryFiles table directory full nosort keeps).2 =
        (b.listing authority dir).2 := by
  unfold directoryFiles
  split
  · exact .inl rfl
  · exact .inr ⟨_, _, rfl⟩

theorem completions_after (table : FoldTable) (file directory : String) :
    (b.fileNameAllCompletions table file directory).2 = b ∨
      ∃ authority dir, (b.fileNameAllCompletions table file directory).2 =
        (b.listing authority dir).2 := by
  unfold fileNameAllCompletions
  split
  · exact .inl rfl
  · exact .inr ⟨_, _, rfl⟩

/-- What is left after a directory has been listed, or not. -/
theorem listed_after {after : Browser} (mirroring : b.Mirroring)
    (listed : after = b ∨ ∃ authority dir, after = (b.listing authority dir).2) :
    after.Mirroring ∧ after.hosts = b.hosts := by
  rcases listed with same | ⟨authority, dir, same⟩
  · rw [same]
    exact ⟨mirroring, rfl⟩
  · rw [same]
    exact ⟨listing_mirroring mirroring authority dir, listing_hosts authority dir⟩

end Listings

section Answers

variable {table : FoldTable} {b : Browser} {authority dir : String}

theorem listing_eq (mirroring : b.Mirroring) :
    (b.listing authority dir).1 = ((b.hosts authority).readdir dir).map
      (RelayPrefetch.Session.listed (b.hosts authority).toFiles dir) := by
  unfold listing
  dsimp only
  cases kept : ((b.sessions authority).dircache dir).getD [] with
  | nil => cases (b.hosts authority).readdir dir <;> rfl
  | cons entry entries =>
      have cached : (b.sessions authority).dircache dir = some (entry :: entries) := by
        cases found : (b.sessions authority).dircache dir with
        | none =>
            rw [found] at kept
            cases kept
        | some others =>
            rw [found] at kept
            exact congrArg some kept
      obtain ⟨names, read, same⟩ := mirroring authority dir _ cached
      rw [read]
      exact congrArg some same

/-- A question about one file. -/
theorem ofStat_eq {α : Type} (mirroring : b.Mirroring) (ask : Option Attrs → α) {filename : String}
    (plain : PlainName table b.hosts filename) :
    b.ofStat table ask filename = ask (statValue (metadata table b.hosts filename)) := by
  unfold ofStat metadata
  cases parsed : table.relayParse filename with
  | none => rfl
  | some name =>
      have found : b.stat name.1 name.2 = _ := stat_plain (mirroring name.1) (plain _ _ parsed)
      exact congrArg ask found

theorem fileExistsP_eq (mirroring : b.Mirroring) {filename : String}
    (plain : PlainName table b.hosts filename) :
    b.fileExistsP table filename = (metadata table b.hosts filename).isSome := by
  refine (ofStat_eq mirroring _ plain).trans ?_
  exact Option.isSome_map

theorem fileDirectoryP_eq (mirroring : b.Mirroring) {filename : String}
    (plain : PlainName table b.hosts filename) :
    b.fileDirectoryP table filename =
      (metadata table b.hosts filename).any (·.fileType = .dir) := by
  refine (ofStat_eq mirroring _ plain).trans ?_
  cases metadata table b.hosts filename with
  | none => rfl
  | some md => cases kind : md.fileType <;> simp [statValue, kind]

theorem fileWritableP_eq (mirroring : b.Mirroring) {filename : String}
    (plain : PlainName table b.hosts filename)
    (above : ∀ authority loc, table.relayParse filename = some (authority, loc) →
      PlainName table b.hosts (relayWrap authority (relayDirname loc))) :
    b.fileWritableP table filename = placed table b.hosts filename := by
  unfold fileWritableP placed
  rw [fileExistsP_eq mirroring plain]
  cases parsed : table.relayParse filename with
  | none => rfl
  | some name =>
      dsimp only [Option.any_some]
      rw [fileExistsP_eq mirroring (above name.1 name.2 parsed)]

theorem fileAttributesOf_statValue (md : Option Server.Metadata) :
    (statValue md).map fileAttributesOf = md.map attributesOf := by
  cases md with
  | none => rfl
  | some md => cases kind : md.fileType <;>
      simp [statValue, fileAttributesOf, attributesOf, leads, VisitedFile.attrsTime, kind]

theorem directoryFiles_eq (mirroring : b.Mirroring) (directory : String) (full nosort : Bool)
    (keeps : String → Bool) :
    (b.directoryFiles table directory full nosort keeps).1 =
      filesIn table b.hosts directory full nosort keeps := by
  unfold directoryFiles filesIn
  cases table.relayParse directory with
  | none => rfl
  | some name =>
      obtain ⟨authority, loc⟩ := name
      dsimp only [Option.bind_some]
      rw [listing_eq mirroring, Option.map_map]
      congr 1
      funext names
      have listed : (RelayPrefetch.Session.listed (b.hosts authority).toFiles (directoryFileName loc)
          names).map (·.name) = names := by
        simp [RelayPrefetch.Session.listed, dirEntryValue, Function.comp_def]
      dsimp only [Function.comp]
      rw [listed]
      rfl

theorem directoryFilesAndAttributes_eq (mirroring : b.Mirroring) {directory : String}
    {full nosort : Bool} {keeps : String → Bool}
    (plain : (Question.directoryFilesAndAttributes directory full nosort keeps).Plain table
      b.hosts) :
    (b.directoryFilesAndAttributes table directory full nosort keeps).1 =
      listedIn table b.hosts directory full nosort keeps := by
  have files : (b.directoryFiles table directory full nosort keeps).1 = _ :=
    directoryFiles_eq mirroring directory full nosort keeps
  obtain ⟨later, kept⟩ :=
    listed_after mirroring (directoryFiles_after table directory full nosort keeps)
  unfold directoryFilesAndAttributes listedIn
  cases parsed : table.relayParse directory with
  | none => rfl
  | some name =>
      obtain ⟨authority, loc⟩ := name
      dsimp only [Option.bind_some]
      rw [files]
      cases named : filesIn table b.hosts directory full nosort keeps with
      | none => rfl
      | some names =>
          refine congrArg some (List.map_congr_left ?_)
          intro name member
          have there := stat_plain (later authority)
            (kept ▸ plain authority loc parsed names named name member)
          refine congrArg (Prod.mk name) ?_
          unfold stat
          rw [there, kept]
          exact fileAttributesOf_statValue _

theorem completions_eq (mirroring : b.Mirroring) (file directory : String) :
    (b.fileNameAllCompletions table file directory).1 =
      (completionArguments table file directory).bind fun (authority, localdir, start) =>
        completions b.hosts authority localdir start := by
  unfold fileNameAllCompletions
  cases completionArguments table file directory with
  | none => rfl
  | some arguments =>
      obtain ⟨authority, localdir, start⟩ := arguments
      dsimp only [Option.bind_some]
      rw [listing_eq mirroring, Option.map_map]
      unfold completions
      congr 1
      funext names
      have offered : ∀ md : Option Server.Metadata,
          decide (((statValue md).getD absentAttrs).kind = .dir) = md.any (·.fileType = .dir) := by
        intro md
        cases md with
        | none => rfl
        | some md => cases kind : md.fileType <;> simp [statValue, kind]
      simp [RelayPrefetch.Session.listed, dirEntryValue, List.filter_map, Function.comp_def, offered]

/-- Emacs is told what is true. -/
theorem answer_truth (mirroring : b.Mirroring) {question : Question}
    (plain : question.Plain table b.hosts) :
    (b.answer table question).1 = truth table b.hosts question := by
  cases question with
  | fileAttributes filename =>
      refine congrArg Finding.attributes ((ofStat_eq mirroring _ plain).trans ?_)
      exact fileAttributesOf_statValue _
  | fileExistsP filename => exact congrArg Finding.truth (fileExistsP_eq mirroring plain)
  | fileReadableP filename => exact congrArg Finding.truth (fileExistsP_eq mirroring plain)
  | fileDirectoryP filename => exact congrArg Finding.truth (fileDirectoryP_eq mirroring plain)
  | fileRegularP filename =>
      refine congrArg Finding.truth ((ofStat_eq mirroring _ plain).trans ?_)
      cases metadata table b.hosts filename with
      | none => rfl
      | some md => cases kind : md.fileType <;> simp [statValue, kind]
  | fileSymlinkP filename =>
      refine congrArg Finding.leads ((ofStat_eq mirroring _ plain).trans ?_)
      cases metadata table b.hosts filename with
      | none => rfl
      | some md => cases kind : md.fileType <;> simp [statValue, leads, kind]
  | fileModes filename =>
      refine congrArg Finding.modes ((ofStat_eq mirroring _ plain).trans ?_)
      exact Option.map_map _ _ _
  | fileWritableP filename =>
      exact congrArg Finding.truth (fileWritableP_eq mirroring plain.1 plain.2)
  | directoryFiles directory full nosort keeps =>
      exact congrArg Finding.ofNames
        (directoryFiles_eq mirroring directory full nosort keeps)
  | directoryFilesAndAttributes directory full nosort keeps =>
      exact congrArg Finding.ofListed (directoryFilesAndAttributes_eq mirroring plain)
  | fileNameAllCompletions file directory =>
      exact congrArg Finding.ofNames (completions_eq mirroring file directory)

end Answers

section Turns

variable {table : FoldTable} {b : Browser}

theorem answer_mirroring (mirroring : b.Mirroring) (question : Question) :
    (b.answer table question).2.Mirroring := by
  cases question with
  | directoryFiles directory full nosort keeps =>
      exact (listed_after mirroring (directoryFiles_after table directory full nosort keeps)).1
  | directoryFilesAndAttributes directory full nosort keeps =>
      show (b.directoryFilesAndAttributes table directory full nosort keeps).2.Mirroring
      unfold directoryFilesAndAttributes
      split
      · exact mirroring
      · exact (listed_after mirroring (directoryFiles_after table directory full nosort keeps)).1
  | fileNameAllCompletions file directory =>
      exact (listed_after mirroring (completions_after table file directory)).1
  | _ => exact mirroring

theorem connect_dircache (s : RelayPrefetch.Session) (dir : String) :
    s.connect.dircache dir = none := by
  have kept : ∀ (dirs : List String) (s : RelayPrefetch.Session),
      (dirs.foldl RelayPrefetch.Session.revalidate s).dircache = s.dircache := by
    intro dirs
    induction dirs with
    | nil => exact fun _ => rfl
    | cons first dirs ih =>
        intro s
        rw [List.foldl_cons, ih]
        unfold RelayPrefetch.Session.revalidate
        split <;> rfl
  unfold RelayPrefetch.Session.connect
  rw [kept]

theorem mirrors_connect (files : RelayPrefetch.Files) (s : RelayPrefetch.Session) :
    Mirrors files s.connect := by
  intro dir entries cached
  rw [connect_dircache] at cached
  cases cached

/-- The callback of a request that nobody waits for. -/
theorem mirrors_answer {files : RelayPrefetch.Files} {s : RelayPrefetch.Session}
    (mirrors : Mirrors files s) {index : Nat}
    (validated : ∀ dir epoch entries mtimeKey,
      s.queries[index]? = some (.stat dir epoch entries mtimeKey) →
      attrsMtimeKey (statValue (files.lstat dir)) = mtimeKey →
      ∃ names, files.readdir dir = some names ∧
        entries = RelayPrefetch.Session.listed files dir names) :
    Mirrors files (s.answer files index) := by
  unfold RelayPrefetch.Session.answer
  cases asked : s.queries[index]? with
  | none => exact mirrors
  | some query =>
      dsimp only
      cases query with
      | readdir dir epoch =>
          unfold RelayPrefetch.Session.callback
          dsimp only
          split
          · split
            · rename_i names read
              exact mirrors_install mirrors read rfl rfl
            · exact mirrors
          · exact mirrors
      | stat dir epoch entries mtimeKey =>
          unfold RelayPrefetch.Session.callback
          dsimp only
          split
          · split
            · rename_i same
              obtain ⟨names, read, listed⟩ := validated dir epoch entries mtimeKey asked same
              exact mirrors_install mirrors read listed rfl
            · exact mirrors
          · exact mirrors
      | watch dir => exact mirrors

theorem step_mirroring (mirroring : b.Mirroring) {turn : Turn} (lawful : b.Lawful turn)
    (undeceived : b.Undeceived turn) : (b.step table turn).Mirroring := by
  cases turn with
  | ask question => exact answer_mirroring mirroring question
  | change authority remote session =>
      intro other
      show Mirrors (if other = authority then remote else b.hosts other).toFiles
        (if other = authority then session else b.sessions other)
      split
      · intro dir entries cached
        obtain ⟨before, readdir, lstat⟩ := lawful dir entries cached
        obtain ⟨names, read, listed⟩ := mirroring authority dir entries before
        have now : remote.readdir dir = some names := readdir.trans read
        refine ⟨names, now, listed.trans ?_⟩
        apply List.map_congr_left
        intro name member
        rw [lstat names now name member]
      · exact mirroring other
  | connect authority =>
      exact setSession_mirroring mirroring (mirrors_connect _ _)
  | answer authority index =>
      exact setSession_mirroring mirroring (mirrors_answer (mirroring authority) undeceived)
  | uncache directory =>
      unfold step
      dsimp only
      split
      · rename_i authority loc _
        apply setSession_mirroring mirroring
        intro dir entries cached
        dsimp only at cached
        split at cached
        · cases cached
        · exact mirroring authority dir entries cached
      · exact mirroring

theorem mirroring_reached {hosts : String → Remote} {sessions : String → RelayPrefetch.Session}
    (reached : Reaches (step table) (fun b turn => b.Lawful turn ∧ b.Undeceived turn)
      (start hosts sessions) b) : b.Mirroring := by
  apply Reaches.invariant _ _ reached
  · exact fun authority => mirrors_connect _ _
  · exact fun b turn mirroring both => step_mirroring mirroring both.1 both.2

end Turns

theorem entryName_f : EntryName "f" := ⟨⟨by decide, by decide⟩, by decide, by decide⟩

/-- A directory with one entry, which is a link to a directory. -/
def oneLink : RelayPrefetch.Files where
  lstat path :=
    if path = "/d" then some ⟨.dir, 0, 7, 0, 493, none⟩
    else if path = "/d/f" then some ⟨.symlink, 1, 5, 0, 511, some "/"⟩
    else if path = "/d/f/" then some ⟨.dir, 0, 3, 0, 493, none⟩
    else none
  readdir dir := if dir = "/d" then some ["f"] else none

theorem named_oneLink (dir : String) (names : List String) (read : oneLink.readdir dir = some names)
    (name : String) (member : name ∈ names) : EntryName name := by
  unfold oneLink at read
  dsimp only at read
  split at read
  · rw [← Option.some.inj read, List.mem_singleton] at member
    exact member ▸ entryName_f
  · cases read

/-- A server with it, which nothing has been asked yet. -/
def newcomer : Browser := start (fun _ => ⟨oneLink, named_oneLink⟩) fun _ => {}

/-- The directory has been listed. -/
def listedLink : Browser :=
  newcomer.step .exact (.ask (.directoryFiles "/relay:h:/d" false false fun _ => true))

theorem reached_listed : Reaches (step .exact) (fun b turn => b.Lawful turn ∧ b.Undeceived turn)
    newcomer listedLink :=
  Reaches.refl.next ⟨trivial, trivial⟩

end Browser

section Names

variable {table : FoldTable}

theorem led_front {chars more : List Char} (led : Led (chars ++ more)) (some_char : chars ≠ []) :
    Led chars := by
  cases chars with
  | nil => exact absurd rfl some_char
  | cons first chars =>
      generalize whole : first :: chars ++ more = all at led
      cases led with
      | absolute rest =>
          cases (List.cons.inj whole).1
          exact .absolute _
      | home =>
          cases (List.cons.inj whole).1
          rw [(List.append_eq_nil_iff.mp (List.cons.inj whole).2).1]
          exact .home
      | below_home rest =>
          cases (List.cons.inj whole).1
          cases chars with
          | nil => exact .home
          | cons second chars =>
              cases (List.cons.inj (List.cons.inj whole).2).1
              exact .below_home _

theorem directoryFileName_some {file : String} (some_char : file.toList ≠ []) :
    (directoryFileName file).toList ≠ [] := by
  have named : file ≠ "" := by
    intro same
    rw [same] at some_char
    exact some_char rfl
  unfold directoryFileName
  split
  · exact some_char
  · split
    · simp
    · rename_i chars kept
      rw [String.toList_ofList]
      exact fun empty => kept (List.reverse_eq_nil_iff.mp empty)

/-- The path of an entry is a local name where that of the directory is. -/
theorem led_entryPath {dir : String} (led : Led dir.toList) (name : String) :
    Led (entryPath dir name).toList := by
  obtain ⟨slash, extends_dir⟩ := fileNameAsDirectory_extends dir
  have parts : (entryPath dir name).toList = dir.toList ++ (slash.toList ++ name.toList) := by
    rw [entryPath, extends_dir, String.toList_append, String.toList_append, List.append_assoc]
  generalize whole : dir.toList = chars at led parts
  cases led with
  | absolute rest =>
      rw [parts]
      exact .absolute _
  | below_home rest =>
      rw [parts]
      exact .below_home _
  | home =>
      have home : dir = "~" := String.toList_inj.mp whole
      rw [home, entryPath, String.toList_append]
      exact .below_home _

/-- The directory that a name says, and the names of its entries. -/
theorem directory_parsed {directory authority loc : String}
    (parsed : table.relayParse directory = some (authority, loc)) :
    Bare (directoryFileName loc) ∧ ∀ name : String, '\n' ∉ name.toList →
      table.relayParse (relayWrap authority (entryPath (directoryFileName loc) name)) =
        some (authority, entryPath (directoryFileName loc) name) := by
  obtain ⟨_, parts⟩ := relayParse_eq_some_iff.mp parsed
  have some_char : loc.toList ≠ [] := by
    intro none
    have led := parts.remote.led
    rw [none] at led
    cases led
  have bare : Bare (directoryFileName loc) :=
    ⟨directoryFileName_some some_char, directoryFileName_idem loc⟩
  refine ⟨bare, ?_⟩
  intro name unbroken
  obtain ⟨rest, whole⟩ := directoryFileName_start loc
  have led : Led (directoryFileName loc).toList := by
    have longer : Led ((directoryFileName loc).toList ++ rest.toList) := by
      rw [← String.toList_append, ← whole]
      exact parts.remote.led
    exact led_front longer bare.some_char
  have lines : '\n' ∉ (directoryFileName loc).toList := by
    intro broken
    apply parts.lines
    rw [whole, String.toList_append]
    exact List.mem_append_left _ broken
  rw [relayParse_wrap_iff]
  refine ⟨⟨parts.remote.named, parts.remote.bare, led_entryPath led name⟩, ?_⟩
  intro broken
  rw [entryPath, String.toList_append, List.mem_append] at broken
  rcases broken with before | after
  · unfold fileNameAsDirectory at before
    split at before
    · simp at before
    · split at before
      · exact lines before
      · rw [String.toList_append, List.mem_append] at before
        rcases before with before | slash
        · exact lines before
        · simp at slash
  · exact unbroken after

end Names

/-- Entries of a directory can be looked at, and what can be looked at is an entry. -/
def Searchable (files : RelayPrefetch.Files) (dir : String) : Prop :=
  ∀ names, files.readdir dir = some names → ∀ name, EntryName name →
    (name ∈ names ↔ (files.lstat (entryPath dir name)).isSome)

namespace Browser

section Completed

variable {table : FoldTable} {b : Browser} {authority dir name : String}

/-- The name of an entry is plain. -/
theorem plainName_entryPath (bare : Bare dir) (entry : EntryName name)
    (searchable : Searchable (b.hosts authority).toFiles dir)
    (parsed : table.relayParse (relayWrap authority (entryPath dir name)) =
      some (authority, entryPath dir name)) :
    PlainName table b.hosts (relayWrap authority (entryPath dir name)) := by
  intro other loc again
  rw [parsed] at again
  cases again
  intro root names read member
  rw [relayDirname_entryPath bare entry.toComponent] at read
  rw [relayBasename_entryPath bare.some_char entry.toComponent] at member
  have there := (searchable names read name entry).mp member
  exact plain_entryPath bare entry.toComponent there root names
    (by rwa [relayDirname_entryPath bare entry.toComponent])
    (by rwa [relayBasename_entryPath bare.some_char entry.toComponent])

theorem unbroken_of_candidate {isDirectory : Bool}
    (unbroken : '\n' ∉ (candidate name isDirectory).toList) : '\n' ∉ name.toList := by
  intro broken
  apply unbroken
  unfold candidate
  split
  · rw [String.toList_append]
    exact List.mem_append_left _ broken
  · exact broken

end Completed

/-- Whatever has been asked before: what is offered as a completion, in a directory whose entries
can be looked at, are the names that begin so of files which Emacs is then told exist, with a slash
where it is told that they are directories. -/
theorem completions_lead {table : FoldTable} {hosts : String → Remote}
    {sessions : String → RelayPrefetch.Session} {b : Browser}
    (reached : Reaches (step table) (fun b turn => b.Lawful turn ∧ b.Undeceived turn)
      (start hosts sessions) b)
    {file directory authority loc : String}
    (parsed : table.relayParse directory = some (authority, loc))
    (searchable : Searchable (b.hosts authority).toFiles (directoryFileName loc))
    {names : List String} (offered : (b.fileNameAllCompletions table file directory).1 = some names)
    {text : String} (unbroken : '\n' ∉ text.toList) :
    text ∈ names ↔ ∃ name, EntryName name ∧ stringPrefixP file name = true ∧
      let after := (b.fileNameAllCompletions table file directory).2
      let path := relayWrap authority (entryPath (directoryFileName loc) name)
      after.fileExistsP table path = true ∧
        text = candidate name (after.fileDirectoryP table path) := by
  have mirroring : b.Mirroring := mirroring_reached reached
  obtain ⟨bare, names_parsed⟩ := directory_parsed parsed
  rw [completions_eq mirroring, completionArguments, parsed] at offered
  obtain ⟨entries, read, same⟩ := Option.map_eq_some_iff.mp offered
  have listed : ∀ name, EntryName name → (name ∈ entries ↔
      ((b.hosts authority).lstat (entryPath (directoryFileName loc) name)).isSome) :=
    searchable entries read
  obtain ⟨later, kept⟩ := listed_after mirroring (completions_after table file directory)
  generalize (b.fileNameAllCompletions table file directory).2 = after at later kept ⊢
  have told : ∀ name, EntryName name → '\n' ∉ name.toList →
      let path := relayWrap authority (entryPath (directoryFileName loc) name)
      let found := (b.hosts authority).lstat (entryPath (directoryFileName loc) name)
      after.fileExistsP table path = found.isSome ∧
        after.fileDirectoryP table path = found.any (·.fileType = .dir) := by
    intro name entry unbroken path found
    have plain : PlainName table after.hosts path := by
      rw [kept]
      exact plainName_entryPath bare entry searchable (names_parsed name unbroken)
    have there : metadata table after.hosts path = found := by
      rw [kept, metadata, names_parsed name unbroken]
      rfl
    rw [fileExistsP_eq later plain, fileDirectoryP_eq later plain, there]
    exact ⟨rfl, rfl⟩
  rw [← same, List.mem_reverse, List.mem_map]
  constructor
  · rintro ⟨name, member, made⟩
    obtain ⟨known, begins⟩ := List.mem_filter.mp member
    have entry := (b.hosts authority).named _ _ read name known
    obtain ⟨found, kind⟩ := told name entry (unbroken_of_candidate (made ▸ unbroken))
    exact ⟨name, entry, begins, found.trans ((listed name entry).mp known), by rw [kind, made]⟩
  · rintro ⟨name, entry, begins, there, made⟩
    obtain ⟨found, kind⟩ := told name entry (unbroken_of_candidate (made ▸ unbroken))
    have known := (listed name entry).mpr (found.symm.trans there)
    exact ⟨name, List.mem_filter.mpr ⟨known, begins⟩, by rw [made, kind]⟩

theorem searchable_oneLink : Searchable oneLink "/d" := by
  intro names read name entry
  have only : names = ["f"] := (Option.some.inj read).symm
  have behind : ∀ rest : String, entryPath "/d" name = "/d/" ++ rest → name = rest := by
    intro rest same
    have lists := congrArg String.toList same
    rw [entryPath, String.toList_append, String.toList_append] at lists
    exact String.toList_inj.mp (List.append_cancel_left lists)
  have shown : (oneLink.lstat (entryPath "/d" name)).isSome ↔ name = "f" := by
    constructor
    · intro found
      unfold oneLink at found
      dsimp only at found
      split at found
      · rename_i itself
        have lengths := congrArg String.length itself
        rw [entryPath, String.length_append] at lengths
        exact absurd lengths (by
          have three : (fileNameAsDirectory "/d").length = 3 := by decide
          have two : "/d".length = 2 := by decide
          omega)
      · split at found
        · rename_i here
          exact behind "f" here
        · split at found
          · rename_i slashed
            have no_slash := entry.no_slash
            rw [behind "f/" slashed] at no_slash
            exact absurd (by decide) no_slash
          · cases found
    · intro same
      rw [same]
      rfl
  rw [only, List.mem_singleton, shown]

theorem completions_lead_link :
    (newcomer.fileNameAllCompletions .exact "" "/relay:h:/d").1 = some ["f"] ∧
      ∃ name, EntryName name ∧
        (newcomer.fileNameAllCompletions .exact "" "/relay:h:/d").2.fileExistsP .exact
          (relayWrap "h" (entryPath "/d" name)) = true := by
  have parsed : FoldTable.exact.relayParse "/relay:h:/d" = some ("h", "/d") := by decide +kernel
  have offered : (newcomer.fileNameAllCompletions .exact "" "/relay:h:/d").1 = some ["f"] := by
    decide +kernel
  have same : directoryFileName "/d" = "/d" := by decide
  obtain ⟨name, entry, -, there, -⟩ := (completions_lead .refl parsed
    (same.symm ▸ searchable_oneLink) offered (by decide)).mp (List.mem_singleton_self "f")
  rw [same] at there
  exact ⟨offered, name, entry, there⟩

section Links

variable {dir name : String}

/-- The path of an entry with a slash is looked up as the one without. -/
theorem directoryFileName_slash (bare : Bare dir) (component : RelayPrefetch.Component name) :
    directoryFileName (fileNameAsDirectory (entryPath dir name)) = entryPath dir name := by
  apply directoryFileName_fileNameAsDirectory
  refine ⟨?_, directoryFileName_entryPath bare.some_char component⟩
  intro none
  obtain ⟨chars, -, reversed⟩ := entryPath_reverse name bare.some_char
  rw [none] at reversed
  simp at reversed

end Links

/-- Where a name ends in a slash, and a link is what it names otherwise, the answer depends on what
has been asked: Emacs is told of the directory that the link leads to as long as the one that the
link is in has not been listed, and afterwards of the link. -/
theorem linked_directory_iff {table : FoldTable} {hosts : String → Remote}
    {sessions : String → RelayPrefetch.Session} {b : Browser}
    (reached : Reaches (step table) (fun b turn => b.Lawful turn ∧ b.Undeceived turn)
      (start hosts sessions) b)
    {filename authority dir name : String} (bare : Bare dir)
    (parsed : table.relayParse filename =
      some (authority, fileNameAsDirectory (entryPath dir name)))
    {names : List String} (read : (b.hosts authority).readdir dir = some names)
    (member : name ∈ names) {link directory : Server.Metadata}
    (linked : (b.hosts authority).lstat (entryPath dir name) = some link)
    (symbolic : link.fileType = .symlink)
    (followed : (b.hosts authority).lstat (fileNameAsDirectory (entryPath dir name)) =
      some directory)
    (leads : directory.fileType = .dir) :
    b.fileDirectoryP table filename = true ↔ (b.sessions authority).dircache dir = none := by
  have mirrors := mirroring_reached reached authority
  have component := ((b.hosts authority).named dir names read name member).toComponent
  have stripped := directoryFileName_slash bare component
  have above : relayDirname (fileNameAsDirectory (entryPath dir name)) = dir := by
    rw [← relayDirname_directoryFileName, stripped, relayDirname_entryPath bare component]
  have base : relayBasename (fileNameAsDirectory (entryPath dir name)) = name := by
    rw [relayBasename, stripped, ← directoryFileName_entryPath bare.some_char component]
    exact relayBasename_entryPath bare.some_char component
  have inner : fileNameAsDirectory (entryPath dir name) ≠ "/" := by
    intro root
    rw [root] at stripped
    exact entryPath_ne_root bare.some_char component stripped.symm
  have asked : b.fileDirectoryP table filename =
      (b.stat authority (fileNameAsDirectory (entryPath dir name))).any (·.kind = .dir) := by
    unfold fileDirectoryP ofStat
    rw [parsed]
    rfl
  rw [asked]
  unfold stat RelayPrefetch.Session.stat
  simp only [inner, if_false, above, base]
  cases cached : (b.sessions authority).dircache dir with
  | none =>
      have unlisted : (b.sessions authority).entryIfCached dir name = none := by
        unfold RelayPrefetch.Session.entryIfCached
        rw [cached]
        rfl
      rw [unlisted, followed]
      simp [statValue, leads]
  | some entries =>
      have there : ((b.sessions authority).entryIfCached dir name).isSome := by
        obtain ⟨names', read', listed⟩ := mirrors dir entries cached
        have same : names' = names := Option.some.inj (read'.symm.trans read)
        unfold RelayPrefetch.Session.entryIfCached
        rw [cached, Option.bind_some, List.find?_isSome, listed, same]
        exact ⟨_, List.mem_map_of_mem member, decide_eq_true rfl⟩
      obtain ⟨entry, found⟩ := Option.isSome_iff_exists.mp there
      obtain ⟨_, _, _, same⟩ := entryIfCached_eq mirrors found
      rw [found, same, linked]
      simp [dirEntryValue, statValue, symbolic]

/-- The link counts as a directory before the directory that it is in is listed, and not after. -/
theorem linked_directory_iff_once :
    newcomer.fileDirectoryP .exact "/relay:h:/d/f/" = true ∧
      listedLink.fileDirectoryP .exact "/relay:h:/d/f/" = false := by
  have parsed : FoldTable.exact.relayParse "/relay:h:/d/f/" =
      some ("h", fileNameAsDirectory (entryPath "/d" "f")) := by decide +kernel
  have bare : Bare "/d" := ⟨by decide, by decide⟩
  have member : "f" ∈ ["f"] := List.mem_singleton_self "f"
  have unlisted : newcomer.fileDirectoryP .exact "/relay:h:/d/f/" = true ↔
      (newcomer.sessions "h").dircache "/d" = none :=
    linked_directory_iff .refl bare parsed rfl member rfl rfl rfl rfl
  have listed : listedLink.fileDirectoryP .exact "/relay:h:/d/f/" = true ↔
      (listedLink.sessions "h").dircache "/d" = none :=
    linked_directory_iff reached_listed bare parsed rfl member rfl rfl rfl rfl
  refine ⟨unlisted.mpr rfl, ?_⟩
  rw [← Bool.not_eq_true, listed]
  decide +kernel

end Browser

end EmacsRelay.RelayFileHandler

import EmacsRelay.Lib.Reach
import EmacsRelay.Lib.Sexp
import EmacsRelay.Prefetch.Content
import Mathlib.Data.Finset.Insert
import Mathlib.Data.List.AList

set_option autoImplicit false

/- Prefetch profiles, the commands on them and their configuration file, `lisp/relay-prefetch.el` and
the mark commands of `lisp/relay-content-prefetch.el`. A property that a profile lacks reads as nil,
so that it is not told apart from one that is nil. What the commands do to caches is left out.
Functions go by their own names, without the prefix. -/
namespace EmacsRelay.RelayPrefetch

/-- The two kinds of marks, `:listing` and `:content`. -/
inductive MarkKind where
  | listing
  | content
deriving DecidableEq, Repr

structure MarkProfile where
  root : Sexp
  listing : List Sexp
  content : List Sexp
deriving DecidableEq, Repr

def MarkProfile.keys (profile : MarkProfile) : MarkKind → List Sexp
  | .listing => profile.listing
  | .content => profile.content

def MarkProfile.setKeys (profile : MarkProfile) (kind : MarkKind) (keys : List Sexp) : MarkProfile :=
  match kind with
  | .listing => { profile with listing := keys }
  | .content => { profile with content := keys }

/-- `relay--prefetch-profiles`, `relay--prefetch-active-profiles`,
`relay--prefetch-selected-profile` and the two live mark sets. -/
structure Profiles where
  table : AList fun _ : Sexp => MarkProfile
  active : List Sexp
  selected : Sexp
  listingDirs : Finset Sexp
  contentDirs : Finset Sexp

/-- The name of the profile that is there for commands that name none. -/
def defaultName : Sexp := .str "default"

namespace Profiles

def profile (s : Profiles) (name : Sexp) : Option MarkProfile := s.table.lookup name

def live (s : Profiles) : MarkKind → Finset Sexp
  | .listing => s.listingDirs
  | .content => s.contentDirs

def profilePut (s : Profiles) (name : Sexp) (profile : MarkProfile) : Profiles :=
  { s with table := s.table.insert name profile }

def ensureProfile (s : Profiles) (name root : Sexp) : Profiles :=
  match s.profile name with
  | some _ => s
  | none => s.profilePut name ⟨root, [], []⟩

def profileAddKey (s : Profiles) (name : Sexp) (kind : MarkKind) (key : Sexp) : Profiles :=
  let made := s.ensureProfile name .nil
  match made.profile name with
  | none => made
  | some profile =>
      if key ∈ profile.keys kind then made
      else made.profilePut name (profile.setKeys kind (key :: profile.keys kind))

def profileRemoveKey (s : Profiles) (name : Sexp) (kind : MarkKind) (key : Sexp) : Profiles :=
  match s.profile name with
  | none => s
  | some profile =>
      s.profilePut name (profile.setKeys kind ((profile.keys kind).filter (· ≠ key)))

/-- The keys of a profile enter the set, if there is such a profile. -/
def addKeys (s : Profiles) (kind : MarkKind) (live : Finset Sexp) (name : Sexp) : Finset Sexp :=
  match s.profile name with
  | none => live
  | some profile => (profile.keys kind).foldl (fun live key => insert key live) live

/-- The marks of one kind that `relay--prefetch-rebuild-live-marks` puts into the cleared set. -/
def activeMarks (s : Profiles) (kind : MarkKind) : Finset Sexp :=
  s.active.foldl (s.addKeys kind) ∅

def rebuildLiveMarks (s : Profiles) : Profiles :=
  let active := s.active.filter fun name => (s.profile name).isSome
  { s with
    listingDirs := s.activeMarks .listing
    contentDirs := s.activeMarks .content
    active := active
    selected :=
      if (s.profile s.selected).isSome then s.selected
      else (active.headD .nil).orElse defaultName }

/-- `relay--prefetch-apply-active-profiles`, but for the caches. -/
def applyActiveProfiles (s : Profiles) : Profiles := s.rebuildLiveMarks

/-- `cl-pushnew`, onto the active names. -/
def pushActive (s : Profiles) (name : Sexp) : Profiles :=
  { s with active := if name ∈ s.active then s.active else name :: s.active }

end Profiles

/-- `relay-prefetch-config-file` as a load finds it; a broken one cannot be opened or read. -/
inductive ConfigFile where
  | missing
  | empty
  | broken
  | text (data : Sexp)
deriving DecidableEq, Repr

def ConfigFile.read : ConfigFile → Except SexpError Sexp
  | .missing => .ok .nil
  | .empty => .ok .nil
  | .broken => .error .unreadable
  | .text data => .ok data

/-- The value of a keyword in a property list. -/
def property (data : Sexp) (keyword : String) : Sexp := data.plistGet (.symbol keyword)

/-- Lisp that works on the profiles and may stop with a signal, at the state it has reached. -/
abbrev ProfileM (α : Type) : Type := EStateM SexpError Profiles α

namespace Profiles

open SexpError (raise)

/-- One profile of a configuration; a malformed name drops it. -/
def loadProfile (profile : Sexp) : ProfileM Unit :=
  match property profile ":name" with
  | .str name =>
      if name = "" then pure ()
      else do
        let listing ← raise (property profile ":listing").copySequence
        let content ← raise (property profile ":content").copySequence
        modify fun s => s.profilePut (.str name) ⟨property profile ":root", listing, content⟩
  | _ => pure ()

/-- The active names that a configuration lists. -/
def listedActive (data : Sexp) : Sexp := (property data ":active").orElse (.list [defaultName])

def prefetchConfigLoad (file : ConfigFile) : ProfileM Unit := do
  modify fun s => { s with table := ∅ }
  let data ← raise file.read
  let present ← raise (data.plistMember (.symbol ":profiles"))
  if present then do
    (property data ":profiles").dolist loadProfile
    let active ← raise (listedActive data).copySequence
    modify fun s =>
      { s with
        active := active
        selected := ((property data ":selected").orElse (active.headD .nil)).orElse defaultName }
  else do
    let listing ← raise (property data ":listing").copySequence
    let content ← raise (property data ":content").copySequence
    modify fun s =>
      { s.profilePut defaultName ⟨.nil, listing, content⟩ with
        active := [defaultName]
        selected := defaultName }
  modify fun s => s.ensureProfile defaultName .nil
  modify rebuildLiveMarks

def profileNames (s : Profiles) : List Sexp :=
  s.table.keys.mergeSort fun one other =>
    match one, other with
    | .str one, .str other => decide (¬ other < one)
    | _, _ => true

/-- A profile as it is printed. -/
def printed (name : Sexp) (profile : MarkProfile) : Sexp :=
  .list [.symbol ":name", name, .symbol ":root", profile.root,
    .symbol ":listing", .list profile.listing, .symbol ":content", .list profile.content]

def printedProfile (s : Profiles) (name : Sexp) : Sexp :=
  match s.profile name with
  | none => .nil
  | some profile => printed name profile

def prefetchConfigSave (s : Profiles) : Sexp :=
  .list [.symbol ":version", .int 2,
    .symbol ":profiles", .list (s.profileNames.map s.printedProfile),
    .symbol ":active", .list s.active,
    .symbol ":selected", s.selected]

end Profiles

/-- `relay-listing-prefetch-confirm-threshold` and `relay-content-prefetch-confirm-threshold`. -/
structure Thresholds where
  listing : Nat := 1000
  content : Nat := 200

/-- What a mark command meets: the directory's authority and local name, if the name is one of this
kind, whether its server is connected, how many entries are listed, or eligible, unless the listing
fails, and what the user answers if asked. -/
structure Encounter where
  parsed : Option (String × String)
  connects : Bool
  counted : Option Nat
  confirmed : Bool
deriving DecidableEq, Repr

def markKey (parsed : String × String) : Sexp :=
  .cons (.str parsed.1) (.str (directoryFileName parsed.2))

namespace Profiles

def createProfile (s : Profiles) (name : String) (root : Sexp) : Profiles :=
  if name = "" ∨ (s.profile (.str name)).isSome then s
  else { s.ensureProfile (.str name) root with selected := .str name }

def activateProfile (s : Profiles) (name : String) : Profiles :=
  if (s.profile (.str name)).isSome then
    { s.pushActive (.str name) with selected := .str name }.applyActiveProfiles
  else s

def deactivateProfile (s : Profiles) (name : String) : Profiles :=
  { s with active := s.active.filter (· ≠ Sexp.str name) }.applyActiveProfiles

def renameProfile (s : Profiles) (name newName : String) : Profiles :=
  if newName = "" ∨ (s.profile (.str newName)).isSome then s
  else
    match s.profile (.str name) with
    | none => s
    | some profile =>
        applyActiveProfiles
          { s with
            table := (s.table.erase (.str name)).insert (.str newName) profile
            active := s.active.map fun candidate =>
              if candidate = .str name then .str newName else candidate
            selected := if s.selected = .str name then .str newName else s.selected }

def deleteProfile (s : Profiles) (name : String) : Profiles :=
  if (s.profile (.str name)).isSome then
    applyActiveProfiles
      { s with
        table :=
          if Sexp.str name = defaultName then s.table.insert defaultName ⟨.nil, [], []⟩
          else s.table.erase (.str name)
        active := s.active.filter (· ≠ Sexp.str name)
        selected := if s.selected = .str name then defaultName else s.selected }
  else s

def switchProfile (s : Profiles) (name : String) : Profiles :=
  if (s.profile (.str name)).isSome then
    { s with active := [.str name], selected := .str name }.applyActiveProfiles
  else s

/-- The mark itself: it enters the selected profile, which becomes active. -/
def addMark (s : Profiles) (kind : MarkKind) (key : Sexp) : Profiles :=
  let added := s.profileAddKey s.selected kind key
  (added.pushActive added.selected).rebuildLiveMarks

/-- `relay-mark-listing-prefetch`. The mark is there while the directory is listed. -/
def markListingPrefetch (thresholds : Thresholds) (s : Profiles) (met : Encounter) : Profiles :=
  match met.parsed with
  | none => s
  | some parsed =>
      if met.connects then
        let marked := s.addMark .listing (markKey parsed)
        match met.counted with
        | none => marked
        | some count =>
            if thresholds.listing < count ∧ ¬ met.confirmed then
              (marked.profileRemoveKey marked.selected .listing (markKey parsed)).rebuildLiveMarks
            else marked
      else s

def markContentPrefetch (thresholds : Thresholds) (s : Profiles) (met : Encounter) : Profiles :=
  match met.parsed with
  | none => s
  | some parsed =>
      if met.connects then
        match met.counted with
        | none => s
        | some count =>
            if thresholds.content < count ∧ ¬ met.confirmed then s
            else s.addMark .content (markKey parsed)
      else s

/-- The two commands that take a mark away. -/
def unmarkPrefetch (kind : MarkKind) (s : Profiles) (parsed : Option (String × String)) : Profiles :=
  match parsed with
  | none => s
  | some parsed => (s.profileRemoveKey s.selected kind (markKey parsed)).applyActiveProfiles

def unmarkListingPrefetch : Profiles → Option (String × String) → Profiles := unmarkPrefetch .listing

def unmarkContentPrefetch : Profiles → Option (String × String) → Profiles := unmarkPrefetch .content

end Profiles

/-- The profile and mark commands. -/
inductive ProfileCommand where
  | create (name : String) (root : Sexp)
  | activate (name : String)
  | deactivate (name : String)
  | rename (name newName : String)
  | delete (name : String)
  | switch (name : String)
  | markListing (met : Encounter)
  | unmarkListing (parsed : Option (String × String))
  | markContent (met : Encounter)
  | unmarkContent (parsed : Option (String × String))
  | load (file : ConfigFile)

namespace Profiles

def finalState {α : Type} : EStateM.Result SexpError Profiles α → Profiles
  | .ok _ s => s
  | .error _ s => s

/-- One command, be it completed or stopped by a signal. -/
def step (thresholds : Thresholds) (s : Profiles) : ProfileCommand → Profiles
  | .create name root => s.createProfile name root
  | .activate name => s.activateProfile name
  | .deactivate name => s.deactivateProfile name
  | .rename name newName => s.renameProfile name newName
  | .delete name => s.deleteProfile name
  | .switch name => s.switchProfile name
  | .markListing met => s.markListingPrefetch thresholds met
  | .unmarkListing parsed => s.unmarkListingPrefetch parsed
  | .markContent met => s.markContentPrefetch thresholds met
  | .unmarkContent parsed => s.unmarkContentPrefetch parsed
  | .load file => finalState (prefetchConfigLoad file s)

/-- The variables before their file is loaded. -/
def initial : Profiles where
  table := ∅
  active := [defaultName]
  selected := defaultName
  listingDirs := ∅
  contentDirs := ∅

/-- What the package's own load at the start leaves. -/
def started (file : ConfigFile) : Profiles := finalState (prefetchConfigLoad file initial)

end Profiles

end EmacsRelay.RelayPrefetch

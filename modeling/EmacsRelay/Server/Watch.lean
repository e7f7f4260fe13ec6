import Mathlib.Data.List.Basic

set_option autoImplicit false

/- The watch table of `server/src/control.rs`, and what the watcher of `server/src/main.rs` sends
for a path that changed. -/
namespace EmacsRelay.Server

/-- An absolute path, by the names on it from the root. -/
structure FsPath where
  components : List String
deriving DecidableEq, Repr

namespace FsPath

/-- `Path::to_string_lossy`. -/
def render (p : FsPath) : String := "/" ++ "/".intercalate p.components

def parent (p : FsPath) : Option FsPath :=
  if p.components = [] then none else some ⟨p.components.dropLast⟩

def fileName (p : FsPath) : Option String := p.components.getLast?

end FsPath

/-- Canonical path of what is watched, to the paths it was asked for by. -/
abbrev WatchTable := String → Option (List String)

def WatchTable.aliases (watched : WatchTable) (canon : String) : List String :=
  (watched canon).getD []

/-- What the operating system's watcher does: there may be none, and it may refuse. -/
inductive Watching where
  | accepts
  | refuses
  | absent
deriving DecidableEq, Repr

/-- `"watch"` of `handle_ctl`, where `path` is `canon` in canonical form. -/
def watch (watched : WatchTable) (path canon : String) (watcher : Watching) : WatchTable × Bool :=
  let aliases := watched.aliases canon
  let added := if path ∈ aliases then aliases else aliases ++ [path]
  let kept : WatchTable := fun key => if key = canon then some added else watched key
  if (watched canon).isSome then (kept, true)
  else
    match watcher with
    | .accepts => (kept, true)
    | .refuses => (fun key => if key = canon then none else watched key, false)
    | .absent => (kept, false)

inductive ChangeKind where
  | created
  | removed
  | modified
deriving DecidableEq, Repr

inductive FsEvent where
  | overflow
  | selfChanged (dir : String)
  | changed (kind : ChangeKind) (dir name : String)
deriving DecidableEq, Repr

/-- What the watcher's callback sends for one path of an event. -/
def pathEvents (watched : WatchTable) (kind : ChangeKind) (p : FsPath) : List FsEvent :=
  match watched p.render with
  | some aliases => aliases.map .selfChanged
  | none =>
      let dirCanon := (p.parent.map FsPath.render).getD ""
      let name := p.fileName.getD ""
      ((watched dirCanon).getD [dirCanon]).map (.changed kind · name)

end EmacsRelay.Server

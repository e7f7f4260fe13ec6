import EmacsRelay.Server.Digest
import EmacsRelay.Lib.Program
import Mathlib.Logic.Function.Basic

set_option autoImplicit false

/- The file system as the server's system calls see it: inodes, directory entries, symbolic links
and link counts. Times of directories are left out, nothing reads them. -/
namespace EmacsRelay

/-- Device and inode number. -/
structure Inode where
  dev : Nat
  ino : Nat
deriving DecidableEq, Repr

instance nanoseconds : NeZero 1000000000 := ⟨by decide⟩

structure Time where
  sec : Int
  nsec : Fin 1000000000
deriving DecidableEq, Repr

inductive FileKind where
  | file (bytes : Bytes)
  | directory
  | symlink (absolute : Bool) (target : List String)
  | fifo
  | other
deriving DecidableEq, Repr

structure Node where
  kind : FileKind
  mode : Nat
  uid : Nat
  gid : Nat
  nlink : Nat
  mtime : Time
  ctime : Time
deriving DecidableEq, Repr

/-- A path by its components from the root. The root itself is its own entry `.`. -/
structure Path where
  parent : List String
  name : String
deriving DecidableEq, Repr

/-- What a system call reports when it fails: because of the state of the file system or, the last
three, for reasons of the system's own. -/
inductive OsError where
  | notFound
  | alreadyExists
  | notADirectory
  | isADirectory
  | notEmpty
  | tooManyLinks
  | crossDevice
  | notPermitted
  | invalidInput
  | badDescriptor
  | permissionDenied
  | inputOutput
  | storageFull
deriving DecidableEq, Repr

/-- How Rust displays it. -/
def OsError.text : OsError → String
  | .notFound => "No such file or directory (os error 2)"
  | .alreadyExists => "File exists (os error 17)"
  | .notADirectory => "Not a directory (os error 20)"
  | .isADirectory => "Is a directory (os error 21)"
  | .notEmpty => "Directory not empty (os error 39)"
  | .tooManyLinks => "Too many levels of symbolic links (os error 40)"
  | .crossDevice => "Invalid cross-device link (os error 18)"
  | .notPermitted => "Operation not permitted (os error 1)"
  | .invalidInput => "Invalid argument (os error 22)"
  | .badDescriptor => "Bad file descriptor (os error 9)"
  | .permissionDenied => "Permission denied (os error 13)"
  | .inputOutput => "Input/output error (os error 5)"
  | .storageFull => "No space left on device (os error 28)"

/-- The entries of one directory, in the order of `readdir`. -/
abbrev Entries := List (String × Inode)

namespace Entries

def get (entries : Entries) (name : String) : Option Inode :=
  (entries.find? (·.1 == name)).map (·.2)

def remove (entries : Entries) (name : String) : Entries := entries.filter (·.1 != name)

/-- An entry keeps its place when it is replaced. -/
def put (entries : Entries) (name : String) (inode : Inode) : Entries :=
  if (get entries name).isSome then
    entries.map fun entry => if entry.1 == name then (name, inode) else entry
  else entries ++ [(name, inode)]

theorem mem_of_get {entries : Entries} {name : String} {inode : Inode}
    (found : entries.get name = some inode) : (name, inode) ∈ entries := by
  obtain ⟨entry, first, same⟩ := Option.map_eq_some_iff.mp found
  have named : entry.1 = name := by simpa using List.find?_some first
  have member := List.mem_of_find?_eq_some first
  rw [← named, ← same]
  exact member

theorem get_remove (entries : Entries) (name other : String) :
    (entries.remove name).get other = if other = name then none else entries.get other := by
  induction entries with
  | nil => simp [remove, get]
  | cons entry entries ih =>
      simp only [remove, get, List.filter_cons, List.find?_cons] at ih ⊢
      by_cases gone : entry.1 = name
      · simp only [gone, bne_self_eq_false, Bool.false_eq_true, ↓reduceIte, ih]
        by_cases same : other = name
        · simp [same]
        · have differs : (name == other) = false := by simpa using fun eq => same eq.symm
          simp [same, differs]
      · have kept : (entry.1 != name) = true := by simpa using gone
        simp only [kept, ↓reduceIte, List.find?_cons]
        by_cases hit : entry.1 = other
        · have differs : other ≠ name := fun same => gone (hit.trans same)
          simp [hit, differs]
        · have missed : (entry.1 == other) = false := by simpa using hit
          simp only [missed]
          exact ih

theorem get_replace (entries : Entries) (name other : String) (inode : Inode) :
    get (entries.map fun entry => if entry.1 == name then (name, inode) else entry) other =
      if other = name then (get entries name).map fun _ => inode else get entries other := by
  induction entries with
  | nil => simp [get]
  | cons entry entries ih =>
      simp only [get, List.map_cons, List.find?_cons] at ih ⊢
      by_cases here : entry.1 = name
      · by_cases same : other = name
        · simp [here, same]
        · have differs : (name == other) = false := by simpa using fun eq => same eq.symm
          simpa [here, same, differs] using ih
      · have missed : (entry.1 == name) = false := by simpa using here
        by_cases hit : entry.1 = other
        · have differs : other ≠ name := fun same => here (hit.trans same)
          simp [hit, differs]
        · have passed : (entry.1 == other) = false := by simpa using hit
          simpa [missed, passed] using ih

@[simp] theorem get_put (entries : Entries) (name other : String) (inode : Inode) :
    (entries.put name inode).get other = if other = name then some inode else entries.get other := by
  unfold put
  split
  · rename_i there
    rw [get_replace]
    by_cases same : other = name
    · obtain ⟨old, found⟩ := Option.isSome_iff_exists.mp there
      simp [same, found]
    · simp [same]
  · rename_i absent
    have none : get entries name = none := by simpa using absent
    by_cases same : other = name
    · have missing : entries.find? (·.1 == name) = Option.none := by
        simpa [get] using none
      simp [get, same, List.find?_append, missing]
    · have differs : (name == other) = false := by simpa using fun eq => same eq.symm
      simp [get, same, List.find?_append, differs]

end Entries

structure Disk where
  root : Inode
  nodes : Inode → Option Node
  entries : Inode → Entries

namespace Disk

def entry (d : Disk) (dir : Inode) (name : String) : Option Inode := (d.entries dir).get name

def kindOf (d : Disk) (inode : Inode) : Option FileKind := (d.nodes inode).map Node.kind

/-- Steps a lookup may take before it gives up on symbolic links. -/
def maxSteps : Nat := 4096

/-- Look up components from a directory, following symbolic links. -/
def walk (d : Disk) : Nat → Inode → List String → Except OsError Inode
  | _, dir, [] => .ok dir
  | 0, _, _ :: _ => .error .tooManyLinks
  | fuel + 1, dir, name :: rest =>
      match d.entry dir name with
      | none => .error .notFound
      | some inode =>
          match d.kindOf inode with
          | none => .error .notFound
          | some .directory => d.walk fuel inode rest
          | some (.symlink absolute target) =>
              d.walk fuel (if absolute then d.root else dir) (target ++ rest)
          | some _ => .error .notADirectory

/-- The directory a path's last component is looked up in. -/
def directoryOf (d : Disk) (path : Path) : Except OsError Inode :=
  d.walk maxSteps d.root path.parent

/-- The inode of a path whose last component is not followed. -/
def find (d : Disk) (path : Path) : Except OsError Inode :=
  match d.directoryOf path with
  | .error e => .error e
  | .ok dir =>
      match d.entry dir path.name with
      | none => .error .notFound
      | some inode => .ok inode

/-- Directory and name that a path stands for when its last component is followed. -/
def follow (d : Disk) : Nat → Inode → String → Except OsError (Inode × String)
  | 0, _, _ => .error .tooManyLinks
  | fuel + 1, dir, name =>
      match (d.entry dir name).bind d.kindOf with
      | some (.symlink absolute target) =>
          match target.getLast? with
          | none => .ok (d.root, ".")
          | some last =>
              match d.walk maxSteps (if absolute then d.root else dir) target.dropLast with
              | .error e => .error e
              | .ok dir => d.follow fuel dir last
      | _ => .ok (dir, name)

def followed (d : Disk) (path : Path) : Except OsError (Inode × String) :=
  match d.directoryOf path with
  | .error e => .error e
  | .ok dir => d.follow maxSteps dir path.name

section Updates

variable (d : Disk)

def setNode (inode : Inode) (node : Node) : Disk :=
  { d with nodes := Function.update d.nodes inode (some node) }

def modifyNode (inode : Inode) (f : Node → Node) : Disk :=
  { d with nodes := Function.update d.nodes inode ((d.nodes inode).map f) }

def putEntry (dir : Inode) (name : String) (inode : Inode) : Disk :=
  { d with entries := Function.update d.entries dir ((d.entries dir).put name inode) }

def removeEntry (dir : Inode) (name : String) : Disk :=
  { d with entries := Function.update d.entries dir ((d.entries dir).remove name) }

/-- One link fewer. The inode lives on while a descriptor is open. -/
def dropLink (inode : Inode) (now : Time) : Disk :=
  d.modifyNode inode fun node => { node with nlink := node.nlink - 1, ctime := now }

end Updates

/-- A number that no file uses. -/
def Free (d : Disk) (inode : Inode) : Prop :=
  inode ≠ d.root ∧ ∀ dir name, d.entry dir name ≠ some inode

end Disk

end EmacsRelay

import Mathlib.Data.List.Basic

set_option autoImplicit false

/- Attributes as `server/src/fs_handlers.rs` reports them. -/
namespace EmacsRelay.Server

inductive FileType where
  | dir
  | symlink
  | other
deriving DecidableEq, Repr

/-- What `symlink_metadata` and `read_link` find. -/
structure Metadata where
  fileType : FileType
  size : Nat
  mtime : Int
  mtimeNsec : Int
  mode : Nat
  readLink : Option String := none
deriving DecidableEq, Repr

inductive Kind where
  | dir
  | symlink
  | file
deriving DecidableEq, Repr

/-- The object `stat_value` makes; `mtime_nsec` may be missing. -/
structure Attrs where
  kind : Kind
  size : Nat
  mtime : Int
  mtimeNsec : Option Int
  mode : Nat
  symlink : Bool
  target : Option String
deriving DecidableEq, Repr

/-- `stat_value`: null when there are no metadata. -/
def statValue (md : Option Metadata) : Option Attrs :=
  md.map fun md =>
    { kind := match md.fileType with
        | .dir => .dir
        | .symlink => .symlink
        | .other => .file
      size := md.size
      mtime := md.mtime
      mtimeNsec := some md.mtimeNsec
      mode := md.mode
      symlink := md.fileType = .symlink
      target := if md.fileType = .symlink then md.readLink else none }

/-- What stands in for the attributes of an entry that has none. -/
def absentAttrs : Attrs where
  kind := .file
  size := 0
  mtime := 0
  mtimeNsec := none
  mode := 0
  symlink := false
  target := none

/-- One of the `entries` of a listing. -/
structure Entry where
  name : String
  attrs : Attrs
deriving DecidableEq, Repr

/-- `dir_entry_value`. -/
def dirEntryValue (name : String) (md : Option Metadata) : Entry :=
  ⟨name, (statValue md).getD absentAttrs⟩

end EmacsRelay.Server

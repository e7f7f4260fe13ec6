import Mathlib.Logic.Basic

set_option autoImplicit false

/- Revision tokens and errors of the server, `server/src/revisions/types.rs`. -/
namespace EmacsRelay

abbrev Bytes := List UInt8

inductive RevisionState where
  | present
deriving DecidableEq, Repr

inductive RevisionKind where
  | file
deriving DecidableEq, Repr

/-- The exact identity and content facts a client uses as its save base. -/
structure Revision where
  schema : Nat
  state : RevisionState
  kind : RevisionKind
  dev : Nat
  ino : Nat
  size : Nat
  mtimeSec : Int
  mtimeNsec : Int
  ctimeSec : Int
  ctimeNsec : Int
  mode : Nat
  sha256 : String
deriving DecidableEq, Repr

inductive ExpectedRevision where
  | present (revision : Revision)
  | missing
deriving DecidableEq, Repr

inductive ConflictKind where
  | changed
  | deleted
  | appeared
  | typeChanged
deriving DecidableEq, Repr

/-- What `final_type` reports for a path that is not an ordinary single-link file. -/
inductive FinalType where
  | symlink
  | directory
  | fifo
  | nonregular
  | hardlink
deriving DecidableEq, Repr

inductive RevisionError where
  | unstableRead
  | conflict (kind : ConflictKind) (currentRevision : Option Revision)
  | unsupportedFinalType (kind : FinalType)
  | unsupportedEncoding
  | tooLarge
  | io (message : String)
deriving DecidableEq, Repr

/-- `error_code` of a reply; a `conflict` reply carries its kind as well. -/
inductive ErrorCode where
  | conflict
  | unstableRead
  | unsupportedFileType
  | unsupportedEncoding
  | fileTooLarge
  | io
deriving DecidableEq, Repr

def maxReadBytes : Nat := 16 * 1024 * 1024

/-- A lowercase hexadecimal digit, as `is_valid_file_revision` tests each byte of a digest. -/
def isHexDigit (c : Char) : Bool :=
  ('0' ≤ c && c ≤ '9') || ('a' ≤ c && c ≤ 'f')

namespace Revision

def isValidFileRevision (r : Revision) : Bool :=
  r.schema == 1 && r.state == .present && r.kind == .file &&
    decide (0 ≤ r.mtimeNsec) && decide (r.mtimeNsec < 1000000000) &&
    decide (0 ≤ r.ctimeNsec) && decide (r.ctimeNsec < 1000000000) &&
    decide (r.mode ≤ 0o7777) && r.sha256.toList.length == 64 && r.sha256.toList.all isHexDigit

end Revision

namespace ConflictKind

def wireName : ConflictKind → String
  | .changed => "changed"
  | .deleted => "deleted"
  | .appeared => "appeared"
  | .typeChanged => "type_changed"

def readableName : ConflictKind → String
  | .changed => "remote file changed"
  | .deleted => "remote file was deleted"
  | .appeared => "remote file appeared"
  | .typeChanged => "remote file type changed"

end ConflictKind

def FinalType.text : FinalType → String
  | .symlink => "symlink"
  | .directory => "directory"
  | .fifo => "fifo"
  | .nonregular => "nonregular"
  | .hardlink => "hardlink"

namespace RevisionError

def readable : RevisionError → String
  | .conflict kind _ => "write conflict: " ++ kind.readableName
  | .unstableRead => "read: file changed while being read"
  | .unsupportedFinalType kind => "read: unsupported final file type: " ++ kind.text
  | .unsupportedEncoding => "read/write: file is not valid UTF-8"
  | .tooLarge => "read: file exceeds " ++ toString maxReadBytes ++ "-byte limit"
  | .io message => message

/-- The `error_code` that `wire_error` puts in the reply. -/
def code : RevisionError → ErrorCode
  | .conflict _ _ => .conflict
  | .unstableRead => .unstableRead
  | .unsupportedFinalType _ => .unsupportedFileType
  | .unsupportedEncoding => .unsupportedEncoding
  | .tooLarge => .fileTooLarge
  | .io _ => .io

/-- The `conflict` object that `wire_error` adds, for conflicts only. -/
def conflictKind : RevisionError → Option ConflictKind
  | .conflict kind _ => some kind
  | _ => none

end RevisionError

end EmacsRelay

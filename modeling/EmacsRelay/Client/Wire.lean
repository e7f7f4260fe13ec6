import EmacsRelay.Client.Conflict
import EmacsRelay.Lib.Base64
import EmacsRelay.Lib.Json

set_option autoImplicit false

/- Write requests as property lists, `lisp/relay-conflict.el`. -/
namespace EmacsRelay

open Datum

/-- The plist `(:schema 1 :state "missing")`. -/
def missingToken : Datum := .plist [("schema", .int 1), ("state", .str "missing")]

/-- `relay-conflict--revision-missing-p`. -/
def revisionMissingP (revision : Datum) : Bool :=
  match revision.get "state" with
  | .str state => state = "missing"
  | _ => false

inductive Purpose where
  | visited
  | unvisited
deriving DecidableEq, Repr

/-- `relay-conflict--write-arguments`. -/
def writeArguments (bytes : Bytes) (revision : Datum) (purpose : Purpose) (append mustBeNew : Bool) :
    List (String × Datum) :=
  if append then [("bytes", .bytes bytes), ("append", .t)]
  else if mustBeNew then [("bytes", .bytes bytes), ("must_be_new", .t)]
  else
    match purpose with
    | .visited => [("bytes", .bytes bytes), ("expected_revision", revision)]
    | .unvisited => [("bytes", .bytes bytes), ("legacy", .t)]

/-- The arguments of `relay-conflict--write-snapshot`. -/
def snapshotArguments (bytes : Bytes) (revision : Datum) (path : Option String) :
    List (String × Datum) :=
  let arguments := writeArguments bytes revision .visited false false
  match path with
  | none => arguments
  | some path => plistPut arguments "path" (.str path)

/-- What `relay-conflict--prepare-rpc` returns. -/
structure RpcSpec where
  op : String
  identity : Identity
  wireArguments : List (String × Datum)

/-- The conversions of the arguments in `relay-conflict--prepare-rpc`. -/
def wireArguments (arguments : List (String × Datum)) : List (String × Datum) :=
  let args := plistWithout arguments "path"
  let args :=
    if plistMember args "bytes" then
      match plistGet arguments "bytes" with
      | .bytes raw =>
          plistPut (plistWithout args "bytes") "bytes_b64" (.str (.ofList (base64Encode raw)))
      | _ => args
    else args
  if revisionMissingP (plistGet args "expected_revision") then
    plistPut (plistWithout args "expected_revision") "expected_state" (.str "missing")
  else args

/-- `relay-conflict--prepare-rpc`. `visited` is what `relay-conflict--file-identity` gives, and
`:bytes`, where it is among the arguments, are raw bytes. -/
def prepareRpc (op : String) (arguments : List (String × Datum)) (identity visited : Option Identity) :
    Except String RpcSpec :=
  match identity.or visited with
  | none => .error "relay conflict save requires a visited relay file"
  | some identity =>
      let path :=
        match plistGet arguments "path" with
        | .str path => some path
        | _ => none
      match RelayConflict.rpcTarget identity path with
      | none => .error "Save As must use the same relay authority"
      | some target => .ok ⟨op, target, ("path", .str target.path) :: wireArguments arguments⟩

/-- The message `relay--request` sends: `relay--send` serializes a plist. -/
def requestMessage (id : Nat) (op : String) (args : List (String × Datum)) : Option Json :=
  (Datum.plist (("id", .int id) :: ("op", .str op) :: args)).serialize

end EmacsRelay

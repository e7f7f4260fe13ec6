import EmacsRelay.Client.Wire
import EmacsRelay.Server.Atomic
import EmacsRelay.Server.Wire

set_option autoImplicit false

/- A precondition from the server's token to the server's parser: by way of the reply, the plist
that the client keeps, and the write request it makes of it. -/
namespace EmacsRelay

open Trial

/-- The token a client keeps: the parsed `:revision` of a reply. -/
def storedToken (revision : Revision) : Datum := revision.toValue.parse

/-- Every write request that is made with the token has the precondition, as the server parses it.
None is made only when the path of the file is a name of another authority. -/
def Survives (token : Datum) (expected : ExpectedRevision) : Prop :=
  ∀ (bytes : Bytes) (identity : Identity) (visited : Option Identity) (id : Nat),
    match prepareRpc "write" (writeArguments bytes token .visited false false) (some identity)
      visited with
    | .ok spec => ∃ req, requestMessage id spec.op spec.wireArguments = some req ∧
        expectedRevisionFromRequest req = .ok (some expected)
    | .error _ => ∃ authority localName, relayParse identity.path = some (authority, localName) ∧
        authority ≠ identity.authority

section Tokens

variable {revision : Revision}

/-- The outcome of `relay-conflict--prepare-rpc` depends on the path alone. -/
theorem survives_of_wire {token : Datum} {expected : ExpectedRevision}
    (wire : ∀ (bytes : Bytes) (id : Nat) (target : String), ∃ req,
      requestMessage id "write" (("path", .str target) ::
        wireArguments (writeArguments bytes token .visited false false)) = some req ∧
      expectedRevisionFromRequest req = .ok (some expected)) : Survives token expected := by
  intro bytes identity visited id
  have unnamed : Datum.plistGet (writeArguments bytes token .visited false false) "path" = .nil := rfl
  simp only [prepareRpc, Option.some_or, unnamed]
  cases directed : RelayConflict.rpcTarget identity none with
  | none => exact RelayConflict.rpcTarget_none directed
  | some target => exact wire bytes id target.path

/-- The request of a write that is to create its file. -/
def missingMessage (id : Nat) (target : String) (bytes : Bytes) : Json :=
  .obj [("id", .int id), ("op", .str "write"), ("path", .str target),
    ("bytes_b64", .str (.ofList (base64Encode bytes))),
    ("expected_state", .str "missing")]

/-- The request of a write with this value as the revision that it expects. -/
def expectingMessage (id : Nat) (target : String) (bytes : Bytes) (value : Json) : Json :=
  .obj [("id", .int id), ("op", .str "write"), ("path", .str target),
    ("expected_revision", value),
    ("bytes_b64", .str (.ofList (base64Encode bytes)))]

theorem requestMessage_missing (bytes : Bytes) (id : Nat) (target : String) :
    requestMessage id "write" (("path", .str target) ::
      wireArguments (writeArguments bytes missingToken .visited false false)) =
      some (missingMessage id target bytes) := by
  have kept : wireArguments (writeArguments bytes missingToken .visited false false) =
      [("bytes_b64", .str (.ofList (base64Encode bytes))),
        ("expected_state", .str "missing")] := by
    simp [writeArguments, wireArguments, missingToken, revisionMissingP, Datum.plistWithout,
      Datum.plistPut, Datum.plistGet, Datum.plistMember, Datum.get, List.lookup_cons]
  simp only [kept, requestMessage, Datum.serialize, Datum.serializeFields]
  rfl

theorem expectedRevision_missing (bytes : Bytes) (id : Nat) (target : String) :
    expectedRevisionFromRequest (missingMessage id target bytes) = .ok (some .missing) := by
  simp [missingMessage, expectedRevisionFromRequest, Json.get, List.lookup_cons, Json.asStr]

/-- A token other than the missing one is sent as the value that it serializes to. -/
theorem requestMessage_expecting {token : Datum} {value : Json}
    (there : revisionMissingP token = false) (serialized : token.serialize = some value)
    (bytes : Bytes) (id : Nat) (target : String) :
    requestMessage id "write" (("path", .str target) ::
      wireArguments (writeArguments bytes token .visited false false)) =
      some (expectingMessage id target bytes value) := by
  have kept : wireArguments (writeArguments bytes token .visited false false) =
      [("expected_revision", token),
        ("bytes_b64", .str (.ofList (base64Encode bytes)))] := by
    simp [writeArguments, wireArguments, Datum.plistWithout, Datum.plistPut, Datum.plistGet,
      Datum.plistMember, there]
  simp [kept, requestMessage, Datum.serialize, Datum.serializeFields, serialized, expectingMessage]

theorem missing_survives : Survives missingToken .missing := by
  apply survives_of_wire
  intro bytes id target
  exact ⟨_, requestMessage_missing bytes id target, expectedRevision_missing bytes id target⟩

@[simp] theorem revisionMissingP_storedToken :
    revisionMissingP (storedToken revision) = false := by
  simp [storedToken, Revision.toValue, Revision.fields, Json.parse, Json.parseFields,
    revisionMissingP, Datum.get, Datum.plistGet, List.lookup_cons]

theorem serialize_storedToken : (storedToken revision).serialize = some revision.toValue := by
  apply Json.serialize_parse_obj
  · exact nofun
  · cases revision with
    | mk schema state kind dev ino size mtimeSec mtimeNsec ctimeSec ctimeNsec mode sha256 =>
        cases kind
        simp [Revision.fields, Json.Plain]

theorem expectedRevision_expecting (bytes : Bytes) (id : Nat) (target : String) (value : Json) :
    expectedRevisionFromRequest (expectingMessage id target bytes value) =
      match Revision.fromValue value with
      | .ok revision => .ok (some (.present revision))
      | .error error => .error ("write: invalid expected_revision: " ++ error) := by
  have stateless : (expectingMessage id target bytes value).get "expected_state" = none := by
    simp [expectingMessage, Json.get, List.lookup_cons]
  have given : (expectingMessage id target bytes value).get "expected_revision" = some value := by
    simp [expectingMessage, Json.get, List.lookup_cons]
  cases read : Revision.fromValue value <;>
    simp only [expectedRevisionFromRequest, stateless, given, Option.bind_none, read]

theorem present_survives (ranged : revision.Ranged) (valid : revision.isValidFileRevision = true) :
    Survives (storedToken revision) (.present revision) := by
  apply survives_of_wire
  intro bytes id target
  refine ⟨_, requestMessage_expecting revisionMissingP_storedToken serialize_storedToken bytes id
    target, ?_⟩
  rw [expectedRevision_expecting, Revision.fromValue_toValue ranged valid]

end Tokens

/-- The numbers in metadata are in the ranges of the types they are returned in. -/
structure Metadata.Ranged (metadata : Metadata) : Prop where
  dev : metadata.inode.dev < 2 ^ 64
  ino : metadata.inode.ino < 2 ^ 64
  size : metadata.size < 2 ^ 64
  mtime : -2 ^ 63 ≤ metadata.node.mtime.sec ∧ metadata.node.mtime.sec < 2 ^ 63
  ctime : -2 ^ 63 ≤ metadata.node.ctime.sec ∧ metadata.node.ctime.sec < 2 ^ 63

theorem ranged_fromMetadata {metadata : Metadata} (ranged : metadata.Ranged) (digest : String) :
    (Revision.fromMetadata metadata digest).Ranged := by
  have mtime := metadata.node.mtime.nsec.isLt
  have ctime := metadata.node.ctime.nsec.isLt
  constructor
  case schema => show 1 < 2 ^ 8; omega
  case dev => exact ranged.dev
  case ino => exact ranged.ino
  case size => exact ranged.size
  case mtimeSec => exact ranged.mtime
  case mtimeNsec => simp only [Revision.fromMetadata]; omega
  case ctimeSec => exact ranged.ctime
  case ctimeNsec => simp only [Revision.fromMetadata]; omega
  case mode => simp only [Revision.fromMetadata]; omega

/-- Calls return metadata in the ranges of their types, and anything else as they like. -/
def RangedAnswer : (request : Call) → Answer request → Prop
  | .lstat _, answer => ∀ metadata, answer = .ok metadata → metadata.Ranged
  | .fstat _, answer => ∀ metadata, answer = .ok metadata → metadata.Ranged
  | _, _ => True

section Issued

/-- Whatever calls return, a revision read off metadata is issued. -/
abbrev Surroundings : Rule Call Answer Unit := (Kernel.answering RangedAnswer).rule

theorem readAttempt_survives (path : Path) :
    wp Surroundings (readAttempt path)
      (fun read _ => ∀ found, read = some found →
        Survives (storedToken found.revision) (.present found.revision)) (fun _ _ => True) () := by
  apply wp_bind_any
  intro file s
  apply wp_bind_any
  intro sampled s
  apply wp_bind_any
  intro before s
  apply wp_bind_any
  intro _ s
  apply wp_bind_any
  intro _ s
  apply wp_bind_any
  intro content s
  apply wp_bind_any
  intro content s
  apply wp_bind_any
  intro _ s
  rw [wp_bind]
  have sampled : ∀ result : Except OsError Metadata,
      (∀ metadata, result = .ok metadata → metadata.Ranged) →
      wp Surroundings (ofExcept (ioError "read") result)
        (fun after _ => after.Ranged) (fun _ _ => True) () := by
    intro result ranged
    rw [wp_ofExcept]
    exact ⟨ranged, fun _ _ => trivial⟩
  intro input ranged
  show wp Surroundings (ofExcept (ioError "read") (input (.fstat file)) >>= _) _ _ ()
  rw [wp_bind]
  apply wp_mono (sampled (input (.fstat file)) ranged) _ fun _ _ _ => trivial
  intro after t ranged
  apply wp_bind_any
  intro _ s
  rw [wp_ite]
  constructor
  · intro _
    apply wp_bind_any
    intro _ s found same
    rw [← Option.some.inj same]
    exact present_survives (ranged_fromMetadata ranged _) (isValidFileRevision_fromMetadata _ _)
  · intro _ found same
    cases same

theorem readWithRevision_survives (path : Path) :
    wp Surroundings (readWithRevision path)
      (fun read _ => Survives (storedToken read.revision) (.present read.revision))
      (fun _ _ => True) () := by
  have attempts : ∀ n, wp Surroundings (readAttempts path n)
      (fun read _ => Survives (storedToken read.revision) (.present read.revision))
      (fun _ _ => True) () := by
    intro n
    induction n with
    | zero => trivial
    | succ n ih =>
        unfold readAttempts
        rw [wp_bind]
        apply wp_mono (readAttempt_survives path) _ fun _ _ _ => trivial
        intro read t survives
        cases read with
        | none => exact ih
        | some found => exact survives found rfl
  exact attempts readLimit

theorem conditionalWriteLocked_survives (process : Process) (path : Path) (bytes : Bytes)
    (expected : ExpectedRevision) :
    wp Surroundings (conditionalWriteLocked process path bytes expected)
      (fun revision _ => Survives (storedToken revision) (.present revision)) (fun _ _ => True) () := by
  apply wp_bind_any
  intro _ s
  apply wp_bind_any
  intro _ s
  apply wp_bind_any
  intro _ s
  apply wp_bind_any
  intro original s
  apply wp_bind_any
  intro temp s
  apply wp_bind_any
  intro _ s
  rw [wp_bind]
  apply wp_mono (readWithRevision_survives path) _ fun _ _ _ => trivial
  intro published t survives
  rw [wp_ite]
  exact ⟨fun _ => survives, fun _ => trivial⟩

end Issued

/-- Tokens that a read or a write returns, and the missing token, come back to the server as the
preconditions they stand for; and a JSON value is accepted as a revision exactly when it has the
fields of one, in range and valid. -/
theorem preconditions_survive :
    (∀ path, wp Surroundings (readWithRevision path)
      (fun read _ => Survives (storedToken read.revision) (.present read.revision))
      (fun _ _ => True) ()) ∧
    (∀ process path bytes expected,
      wp Surroundings (conditionalWriteLocked process path bytes expected)
        (fun revision _ => Survives (storedToken revision) (.present revision))
        (fun _ _ => True) ()) ∧
    Survives missingToken .missing ∧
    ∀ value revision, Revision.fromValue value = .ok revision ↔
      value.isObject = true ∧
        (∀ name ∈ Revision.fieldNames, value.get name = revision.toValue.get name) ∧
        revision.Ranged ∧ revision.isValidFileRevision = true :=
  ⟨readWithRevision_survives, conditionalWriteLocked_survives, missing_survives,
    fun _ _ => Revision.fromValue_ok⟩

end EmacsRelay

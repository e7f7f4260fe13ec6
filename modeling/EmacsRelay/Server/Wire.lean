import EmacsRelay.Lib.Json
import EmacsRelay.Server.Revision

set_option autoImplicit false

/- Revision tokens and preconditions as JSON, `server/src/revisions/types.rs` and
`server/src/fs_handlers.rs`. -/
namespace EmacsRelay

namespace Revision

/-- Every field is in the range of its type. -/
structure Ranged (r : Revision) : Prop where
  schema : r.schema < 2 ^ 8
  dev : r.dev < 2 ^ 64
  ino : r.ino < 2 ^ 64
  size : r.size < 2 ^ 64
  mtimeSec : -2 ^ 63 ≤ r.mtimeSec ∧ r.mtimeSec < 2 ^ 63
  mtimeNsec : -2 ^ 63 ≤ r.mtimeNsec ∧ r.mtimeNsec < 2 ^ 63
  ctimeSec : -2 ^ 63 ≤ r.ctimeSec ∧ r.ctimeSec < 2 ^ 63
  ctimeNsec : -2 ^ 63 ≤ r.ctimeNsec ∧ r.ctimeNsec < 2 ^ 63
  mode : r.mode < 2 ^ 32

/-- The object `to_value` makes. -/
def fields (r : Revision) : List (String × Json) :=
  [("schema", .int r.schema), ("state", .str "present"),
    ("kind", match r.kind with | .file => .str "file"),
    ("dev", .int r.dev), ("ino", .int r.ino), ("size", .int r.size),
    ("mtime_sec", .int r.mtimeSec), ("mtime_nsec", .int r.mtimeNsec),
    ("ctime_sec", .int r.ctimeSec), ("ctime_nsec", .int r.ctimeNsec),
    ("mode", .int r.mode), ("sha256", .str r.sha256)]

/-- `to_value`. -/
def toValue (r : Revision) : Json := .obj r.fields

/-- `ok_or_else`. -/
def okOr {α : Type} (value : Option α) (error : String) : Except String α :=
  match value with
  | some value => .ok value
  | none => .error error

def asObject (value : Json) : Except String Json :=
  if value.isObject then .ok value else .error "expected an object"

def unsigned (object : Json) (name : String) : Except String Nat :=
  okOr ((object.get name).bind Json.asU64) ("missing or invalid " ++ name)

def signed (object : Json) (name : String) : Except String Int :=
  okOr ((object.get name).bind Json.asI64) ("missing or invalid " ++ name)

def text (object : Json) (name : String) : Except String String :=
  okOr ((object.get name).bind Json.asStr) ("missing or invalid " ++ name)

/-- `try_from` to an unsigned type of so many bits. -/
def narrow (bits : Nat) (error : String) (n : Nat) : Except String Nat :=
  if n < 2 ^ bits then .ok n else .error error

def stateOf (state : String) : Except String RevisionState :=
  if state = "present" then .ok .present else .error "invalid state (expected present)"

def kindOf (kind : String) : Except String RevisionKind :=
  if kind = "file" then .ok .file else .error "invalid kind"

/-- `from_value`. -/
def fromValue (value : Json) : Except String Revision := do
  let object ← asObject value
  let state ← text object "state"
  let state ← stateOf state
  let kind ← text object "kind"
  let kind ← kindOf kind
  let schema ← unsigned object "schema"
  let schema ← narrow 8 "invalid schema" schema
  let dev ← unsigned object "dev"
  let ino ← unsigned object "ino"
  let size ← unsigned object "size"
  let mtimeSec ← signed object "mtime_sec"
  let mtimeNsec ← signed object "mtime_nsec"
  let ctimeSec ← signed object "ctime_sec"
  let ctimeNsec ← signed object "ctime_nsec"
  let mode ← unsigned object "mode"
  let mode ← narrow 32 "invalid mode" mode
  let sha256 ← text object "sha256"
  let revision : Revision :=
    { schema, state, kind, dev, ino, size, mtimeSec, mtimeNsec, ctimeSec, ctimeNsec, mode, sha256 }
  if revision.isValidFileRevision then .ok revision
  else .error "invalid revision schema, metadata, or sha256"

end Revision

/-- `expected_revision_from_request`. -/
def expectedRevisionFromRequest (req : Json) : Except String (Option ExpectedRevision) :=
  match (req.get "expected_state").bind Json.asStr with
  | some state =>
      if state = "missing" then .ok (some .missing)
      else if state = "present" then
        .error "write: expected_state present requires expected_revision"
      else .error ("write: invalid expected_state: " ++ state)
  | none =>
      match req.get "expected_revision" with
      | none => .ok none
      | some value =>
          match Revision.fromValue value with
          | .ok revision => .ok (some (.present revision))
          | .error error => .error ("write: invalid expected_revision: " ++ error)

namespace Revision

section Fields

variable {value : Json} {name : String}

theorem okOr_ok {α : Type} {found : Option α} {error : String} {a : α} :
    okOr found error = .ok a ↔ found = some a := by
  cases found with
  | none => simp [okOr]
  | some b => simp [okOr]

theorem asObject_ok {object : Json} :
    asObject value = .ok object ↔ value.isObject = true ∧ value = object := by
  unfold asObject
  by_cases is_object : value.isObject = true
  · simp [is_object]
  · simp [is_object]

theorem unsigned_ok {n : Nat} :
    unsigned value name = .ok n ↔ value.get name = some (.int n) ∧ n < 2 ^ 64 := by
  rw [unsigned, okOr_ok, Option.bind_eq_some_iff]
  constructor
  · rintro ⟨field, found, same⟩
    obtain ⟨rfl, small⟩ := Json.asU64_eq_some.mp same
    exact ⟨found, small⟩
  · rintro ⟨found, small⟩
    exact ⟨_, found, Json.asU64_eq_some.mpr ⟨rfl, small⟩⟩

theorem signed_ok {n : Int} :
    signed value name = .ok n ↔
      value.get name = some (.int n) ∧ -2 ^ 63 ≤ n ∧ n < 2 ^ 63 := by
  rw [signed, okOr_ok, Option.bind_eq_some_iff]
  constructor
  · rintro ⟨field, found, same⟩
    obtain ⟨rfl, bounds⟩ := Json.asI64_eq_some.mp same
    exact ⟨found, bounds⟩
  · rintro ⟨found, bounds⟩
    exact ⟨_, found, Json.asI64_eq_some.mpr ⟨rfl, bounds⟩⟩

theorem text_ok {s : String} : text value name = .ok s ↔ value.get name = some (.str s) := by
  rw [text, okOr_ok, Option.bind_eq_some_iff]
  constructor
  · rintro ⟨field, found, same⟩
    rw [found, Json.asStr_eq_some.mp same]
  · intro found
    exact ⟨_, found, rfl⟩

theorem narrow_ok {bits n m : Nat} {error : String} :
    narrow bits error n = .ok m ↔ n = m ∧ n < 2 ^ bits := by
  unfold narrow
  by_cases small : n < 2 ^ bits
  · simp [small]
  · simp [small]

theorem stateOf_ok {s : String} {state : RevisionState} : stateOf s = .ok state ↔ s = "present" := by
  cases state
  unfold stateOf
  by_cases same : s = "present"
  · simp [same]
  · simp [same]

theorem kindOf_ok {s : String} {kind : RevisionKind} : kindOf s = .ok kind ↔ s = "file" := by
  cases kind
  unfold kindOf
  by_cases same : s = "file"
  · simp [same]
  · simp [same]

theorem bind_ok {α β : Type} {first : Except String α} {next : α → Except String β} {b : β} :
    (first >>= next) = .ok b ↔ ∃ a, first = .ok a ∧ next a = .ok b := by
  cases first with
  | error e => simp [bind, Except.bind]
  | ok a => simp [bind, Except.bind]

end Fields

/-- The names of the fields of a revision. -/
def fieldNames : List String :=
  ["schema", "state", "kind", "dev", "ino", "size", "mtime_sec", "mtime_nsec", "ctime_sec",
    "ctime_nsec", "mode", "sha256"]

/-- A field of `to_value`, read back from an object with the same fields. -/
theorem get_iff {value : Json} {r : Revision} :
    (∀ name ∈ fieldNames, value.get name = r.toValue.get name) ↔
      value.get "schema" = some (.int r.schema) ∧ value.get "state" = some (.str "present") ∧
      value.get "kind" = some (.str "file") ∧ value.get "dev" = some (.int r.dev) ∧
      value.get "ino" = some (.int r.ino) ∧ value.get "size" = some (.int r.size) ∧
      value.get "mtime_sec" = some (.int r.mtimeSec) ∧
      value.get "mtime_nsec" = some (.int r.mtimeNsec) ∧
      value.get "ctime_sec" = some (.int r.ctimeSec) ∧
      value.get "ctime_nsec" = some (.int r.ctimeNsec) ∧
      value.get "mode" = some (.int r.mode) ∧ value.get "sha256" = some (.str r.sha256) := by
  simp only [fieldNames, List.forall_mem_cons, List.not_mem_nil, false_implies, implies_true,
    and_true]
  cases r with
  | mk schema state kind dev ino size mtimeSec mtimeNsec ctimeSec ctimeNsec mode sha256 =>
      cases kind
      exact Iff.rfl

/-- A value is accepted as a revision exactly when it is an object with the fields of that revision,
which are in the range of their types, and the revision is valid. -/
theorem fromValue_ok {value : Json} {r : Revision} :
    fromValue value = .ok r ↔
      value.isObject = true ∧ (∀ name ∈ fieldNames, value.get name = r.toValue.get name) ∧
        r.Ranged ∧ r.isValidFileRevision = true := by
  rw [get_iff]
  cases r with
  | mk schema state kind dev ino size mtimeSec mtimeNsec ctimeSec ctimeNsec mode sha256 =>
      cases state
      cases kind
      simp only [fromValue, bind_ok, asObject_ok, unsigned_ok, signed_ok, text_ok, narrow_ok, stateOf_ok,
        kindOf_ok]
      constructor
      · rintro ⟨_, ⟨is_object, rfl⟩, _, state, _, rfl, _, kind, _, rfl, _, ⟨schema, _⟩, _,
          ⟨rfl, small⟩, _, ⟨dev, dev_small⟩, _, ⟨ino, ino_small⟩, _, ⟨size, size_small⟩,
          _, ⟨mtimeSec, mtimeSec_bounds⟩, _, ⟨mtimeNsec, mtimeNsec_bounds⟩,
          _, ⟨ctimeSec, ctimeSec_bounds⟩, _, ⟨ctimeNsec, ctimeNsec_bounds⟩,
          _, ⟨mode, _⟩, _, ⟨rfl, mode_small⟩, _, sha256, accepted⟩
        split at accepted
        · rename_i valid
          cases accepted
          exact ⟨is_object,
            ⟨schema, state, kind, dev, ino, size, mtimeSec, mtimeNsec, ctimeSec, ctimeNsec, mode,
              sha256⟩,
            ⟨small, dev_small, ino_small, size_small, mtimeSec_bounds, mtimeNsec_bounds,
              ctimeSec_bounds, ctimeNsec_bounds, mode_small⟩, valid⟩
        · cases accepted
      · rintro ⟨is_object, ⟨schema, state, kind, dev, ino, size, mtimeSec, mtimeNsec, ctimeSec,
          ctimeNsec, mode, sha256⟩, ranged, valid⟩
        have schema_small := Nat.lt_trans ranged.schema (show 2 ^ 8 < 2 ^ 64 by omega)
        have mode_small := Nat.lt_trans ranged.mode (show 2 ^ 32 < 2 ^ 64 by omega)
        exact ⟨_, ⟨is_object, rfl⟩, _, state, .present, rfl, _, kind, .file, rfl,
          _, ⟨schema, schema_small⟩, _, ⟨rfl, ranged.schema⟩, _, ⟨dev, ranged.dev⟩,
          _, ⟨ino, ranged.ino⟩, _, ⟨size, ranged.size⟩, _, ⟨mtimeSec, ranged.mtimeSec⟩,
          _, ⟨mtimeNsec, ranged.mtimeNsec⟩, _, ⟨ctimeSec, ranged.ctimeSec⟩,
          _, ⟨ctimeNsec, ranged.ctimeNsec⟩, _, ⟨mode, mode_small⟩, _, ⟨rfl, ranged.mode⟩,
          _, sha256, if_pos valid⟩

/-- What the server writes of a valid revision it reads back. -/
theorem fromValue_toValue {r : Revision} (ranged : r.Ranged) (valid : r.isValidFileRevision = true) :
    fromValue r.toValue = .ok r :=
  fromValue_ok.mpr ⟨rfl, fun _ _ => rfl, ranged, valid⟩

end Revision

end EmacsRelay

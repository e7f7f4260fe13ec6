import EmacsRelay.Lib.JsonText
import EmacsRelay.Lib.Lossy
import EmacsRelay.Server.Readdir
import EmacsRelay.Server.Stat

set_option autoImplicit false

/- The replies of `readdir_stream` as the bytes that go out, and how many there are. -/
namespace EmacsRelay.Server

/-- What `symlink_metadata` and `read_link` find, the link in bytes. -/
structure RawMetadata where
  fileType : FileType
  size : Nat
  mtime : Int
  mtimeNsec : Int
  mode : Nat
  readLink : Option Bytes := none

/-- A directory entry: its name in bytes, and its metadata if there are any. -/
structure DirEntry where
  fileName : Bytes
  metadata : Option RawMetadata

/-- `to_string_lossy`. -/
def toStringLossy (bytes : Bytes) : String := .ofList (Lossy.decode bytes)

def RawMetadata.decoded (md : RawMetadata) : Metadata :=
  { fileType := md.fileType
    size := md.size
    mtime := md.mtime
    mtimeNsec := md.mtimeNsec
    mode := md.mode
    readLink := md.readLink.map toStringLossy }

/-- What is pushed to the batch. -/
def DirEntry.value (e : DirEntry) : Entry :=
  dirEntryValue (toStringLossy e.fileName) (e.metadata.map RawMetadata.decoded)

def Kind.text : Kind → String
  | .dir => "dir"
  | .symlink => "symlink"
  | .file => "file"

def targetJson : Option String → Json
  | none => .null
  | some target => .str target

/-- The fields that come before `name` in the order of keys. -/
def Attrs.firstFields (a : Attrs) : List (String × Json) :=
  [("kind", .str a.kind.text), ("mode", .int a.mode), ("mtime", .int a.mtime)] ++
    match a.mtimeNsec with
    | none => []
    | some nsec => [("mtime_nsec", .int nsec)]

def Attrs.lastFields (a : Attrs) : List (String × Json) :=
  [("size", .int a.size), ("symlink", .bool a.symlink), ("target", targetJson a.target)]

def Attrs.toJson (a : Attrs) : Json := .obj (a.firstFields ++ a.lastFields)

def Entry.toJson (e : Entry) : Json :=
  .obj (e.attrs.firstFields ++ ("name", .str e.name) :: e.attrs.lastFields)

def selfJson : Option Attrs → Json
  | none => .null
  | some attrs => attrs.toJson

/-- The message under an ID. -/
def ReaddirReply.toJson (id : Int) : ReaddirReply Entry (Option Attrs) → Json
  | .chunk entries =>
      .obj [("entries", .arr (entries.map Entry.toJson)), ("id", .int id), ("more", .bool true),
        ("ok", .bool true)]
  | .last entries selfAttrs =>
      .obj [("entries", .arr (entries.map Entry.toJson)), ("id", .int id), ("ok", .bool true),
        ("self_attrs", selfJson selfAttrs)]
  | .error text => .obj [("error", .str text), ("id", .int id), ("ok", .bool false)]

/-- `to_string().into_bytes()`. -/
def payload (id : Int) (reply : ReaddirReply Entry (Option Attrs)) : Bytes :=
  utf8Bytes (reply.toJson id).text

section Costs

open Json (decimals quotedSize)

/-- The bytes of a link's target. -/
def targetCost : Option Bytes → Nat
  | none => 4
  | some target => quotedSize (Lossy.decode target)

/-- The bytes of an object of attributes. -/
def attrsCost (md : RawMetadata) : Nat :=
  decimals md.size + decimals md.mtime + decimals md.mtimeNsec + decimals md.mode +
    match md.fileType with
    | .dir => 83
    | .symlink => 82 + targetCost md.readLink
    | .other => 84

/-- The bytes of an entry: its name, and its attributes. -/
def entryCost (e : DirEntry) : Nat :=
  quotedSize (Lossy.decode e.fileName) +
    match e.metadata with
    | none => 81
    | some md => 8 + attrsCost md

/-- The bytes of a full chunk. -/
def chunkCost (id : Int) (batch : List DirEntry) : Nat :=
  42 + decimals id + (batch.map entryCost).sum + (batch.length - 1)

/-- The bytes of the last message. -/
def lastCost (id : Int) (selfMd : Option RawMetadata) (batch : List DirEntry) : Nat :=
  44 + decimals id + (batch.map entryCost).sum + (batch.length - 1) +
    match selfMd with
    | none => 4
    | some md => attrsCost md

theorem keySizes :
    Json.keySize "kind" = 7 ∧ Json.keySize "mode" = 7 ∧ Json.keySize "mtime" = 8 ∧
      Json.keySize "mtime_nsec" = 13 ∧ Json.keySize "name" = 7 ∧ Json.keySize "size" = 7 ∧
      Json.keySize "symlink" = 10 ∧ Json.keySize "target" = 9 ∧ Json.keySize "entries" = 10 ∧
      Json.keySize "id" = 5 ∧ Json.keySize "more" = 7 ∧ Json.keySize "ok" = 5 ∧
      Json.keySize "self_attrs" = 13 := by decide

theorem size_target (target : Option Bytes) :
    (targetJson (target.map toStringLossy)).size = targetCost target := by
  cases target with
  | none => exact Json.size_null
  | some target => simp [targetJson, targetCost, toStringLossy]

/-- The fields but for the name, with their commas. -/
def fieldsSize (a : Attrs) : Nat :=
  ((a.firstFields ++ a.lastFields).map fun field => Json.keySize field.1 + field.2.size).sum +
    (a.firstFields ++ a.lastFields).length

theorem fieldsSize_decoded (md : RawMetadata) (attrs : Attrs)
    (found : statValue (some md.decoded) = some attrs) : fieldsSize attrs = attrsCost md - 1 := by
  have kinds : quotedSize ['d', 'i', 'r'] = 5 ∧ quotedSize ['f', 'i', 'l', 'e'] = 6 ∧
      quotedSize ['s', 'y', 'm', 'l', 'i', 'n', 'k'] = 9 := by decide
  rw [← Option.some.inj found]
  cases type : md.fileType with
  | dir =>
      simp [fieldsSize, Attrs.firstFields, Attrs.lastFields, attrsCost, keySizes, Kind.text,
        RawMetadata.decoded, type, targetJson]
      omega
  | symlink =>
      simp [fieldsSize, Attrs.firstFields, Attrs.lastFields, attrsCost, keySizes, Kind.text,
        RawMetadata.decoded, type, size_target]
      omega
  | other =>
      simp [fieldsSize, Attrs.firstFields, Attrs.lastFields, attrsCost, keySizes, Kind.text,
        RawMetadata.decoded, type, targetJson]
      omega

theorem size_attrs (md : RawMetadata) (attrs : Attrs)
    (found : statValue (some md.decoded) = some attrs) : attrs.toJson.size = attrsCost md := by
  have fields := fieldsSize_decoded md attrs found
  unfold fieldsSize at fields
  have some_field : 0 < (attrs.firstFields ++ attrs.lastFields).length := by
    simp [Attrs.lastFields]
  rw [Attrs.toJson, Json.size_obj]
  omega

theorem size_entry (e : DirEntry) : e.value.toJson.size = entryCost e := by
  have name : (Json.str (toStringLossy e.fileName)).size = quotedSize (Lossy.decode e.fileName) := by
    simp [toStringLossy]
  have whole : ∀ attrs : Attrs, (Entry.toJson ⟨toStringLossy e.fileName, attrs⟩).size =
      quotedSize (Lossy.decode e.fileName) + 9 + fieldsSize attrs := by
    intro attrs
    rw [Entry.toJson, Json.size_obj]
    simp only [List.map_append, List.map_cons, List.sum_append, List.sum_cons, List.length_append,
      List.length_cons, fieldsSize, name, keySizes]
    omega
  unfold DirEntry.value dirEntryValue entryCost
  cases metadata : e.metadata with
  | none =>
      have absent : fieldsSize absentAttrs = 72 := by decide
      rw [Option.map_none, whole]
      show _ + 9 + fieldsSize absentAttrs = _ + 81
      omega
  | some md =>
      cases found : statValue (some md.decoded) with
      | none => cases found
      | some attrs =>
          have fields := fieldsSize_decoded md attrs found
          have some_field : 0 < fieldsSize attrs := Nat.add_pos_right _ (by simp [Attrs.lastFields])
          rw [Option.map_some, found, whole]
          show _ + 9 + fieldsSize attrs = _ + (8 + attrsCost md)
          omega

theorem length_chunk (id : Int) (batch : List DirEntry) :
    (payload id (.chunk (batch.map DirEntry.value))).length = chunkCost id batch := by
  have entries : ((batch.map DirEntry.value).map Entry.toJson).map Json.size =
      batch.map entryCost := by simp [size_entry]
  show Json.size _ = _
  simp only [ReaddirReply.toJson, Json.size_obj, Json.size_arr, List.map_cons, List.map_nil,
    List.sum_cons, List.sum_nil, List.length_cons, List.length_nil, entries, List.length_map,
    keySizes, Json.size_int, Json.size_bool, if_true, chunkCost]
  omega

theorem length_last (id : Int) (selfMd : Option RawMetadata) (batch : List DirEntry) :
    (payload id (.last (batch.map DirEntry.value) (statValue (selfMd.map RawMetadata.decoded)))).length =
      lastCost id selfMd batch := by
  have entries : ((batch.map DirEntry.value).map Entry.toJson).map Json.size =
      batch.map entryCost := by simp [size_entry]
  have itself : (selfJson (statValue (selfMd.map RawMetadata.decoded))).size =
      match selfMd with
      | none => 4
      | some md => attrsCost md := by
    cases selfMd with
    | none => exact Json.size_null
    | some md => exact size_attrs md _ rfl
  show Json.size _ = _
  simp only [ReaddirReply.toJson, Json.size_obj, Json.size_arr, List.map_cons, List.map_nil,
    List.sum_cons, List.sum_nil, List.length_cons, List.length_nil, entries, List.length_map, itself,
    keySizes, Json.size_int, Json.size_bool, if_true, lastCost]
  omega

end Costs

end EmacsRelay.Server

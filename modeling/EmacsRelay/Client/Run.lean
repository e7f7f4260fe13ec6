import EmacsRelay.Client.Save
import EmacsRelay.Lib.Reach

set_option autoImplicit false

/- Runs of the save machine of one buffer: the user, the hooks, the request layer and other
parts of the client act in any order. -/
namespace EmacsRelay

abbrev AnyReply := WriteReply ⊕ ReadReply

inductive Event where
  | edit (buffer : Buffer)
  | narrow (buffer : Buffer)
  | rename (fileName : Option String)
  | toggleModified (modified : Bool)
  /-- `revert-buffer`: a fresh read of the visited file is installed. -/
  | reload (bytes : Bytes) (revision : Token)
  | save (env : Env)
  | applyMerge (merge : Nat) (merged : Bytes) (env : Env)
  | abandonMerge (merge : Nat)
  /-- A call's callback is run; calls may be answered late, out of order and repeatedly. -/
  | reply (rpc : Nat) (reply : AnyReply) (env : Env)
  /-- The success lighter times out. -/
  | expire (generation : Nat)
  /-- Content prefetch stores a read reply in the cache. -/
  | prefetch (authority path : String) (bytes : Bytes) (revision : Token)
  | evict (key : CacheKey)
  | kill

def Event.env : Event → Env
  | .save env => env
  | .applyMerge _ _ env => env
  | .reply _ _ env => env
  | _ => {}

def Rpc.reports (rpc : Rpc) (reply : AnyReply) : List Report :=
  match rpc.request, reply with
  | some (.read authority path), .inr (.ok bytes revision) => [⟨authority, path, bytes, revision⟩]
  | some (.write authority path bytes _), .inl (.ok revision) =>
      [⟨authority, path, bytes, revision⟩]
  | some (.write authority path _ _), .inl (.refused _ (some .deleted) _) =>
      [⟨authority, path, [], .missing⟩]
  | _, _ => []

/-- A call that could not be prepared is only ever answered with a transport failure. -/
def Rpc.accepts (rpc : Rpc) (reply : AnyReply) : Bool :=
  rpc.request.isSome ||
    match reply with
    | .inl (.transport _) => true
    | .inr (.failed _) => true
    | _ => false

namespace Machine

/-- The buffer just after `find-file` read `bytes` at `revision`, or found no such file. -/
def opened (codec : Codec) (identity : Identity) (bytes : Bytes) (revision : Token) : Machine :=
  { fileName := some identity.filename
    buffer := .whole (codec.decode bytes)
    base := some ⟨some bytes, revision, .utf8⟩
    history := { reports := [⟨identity.authority, identity.path, bytes, revision⟩] } }

def reload (codec : Codec) (m : Machine) (bytes : Bytes) (revision : Token) : Machine :=
  match m.fileIdentity with
  | none => m
  | some identity =>
      { m with
        buffer := .whole (codec.decode bytes)
        modified := false
        base := some ⟨some bytes, revision, .utf8⟩
        history := { m.history with
          reports := m.history.reports ++ [⟨identity.authority, identity.path, bytes, revision⟩]
          erasures := m.history.erasures ++ [⟨.reload, m.buffer, some bytes, none⟩]
          cleaned := some ⟨m.fileIdentity, m.fileIdentity⟩ } }

end Machine

def stepLive (codec : Codec) (m : Machine) : Event → Machine
  | .edit buffer => m.edit buffer
  | .narrow buffer => if buffer.full = m.buffer.full then { m with buffer := buffer } else m
  | .rename fileName => { m with fileName := fileName }
  | .toggleModified modified =>
      { m with modified := modified, history := { m.history with cleaned := none } }
  | .reload bytes revision => m.reload codec bytes revision
  | .save env => (RelaySave.saveBufferAsync codec env).after m
  | .applyMerge merge merged env => (RelaySave.applyMergeAsync codec env merge merged).after m
  | .expire generation =>
      if generation = m.generation ∧ m.status = some .saved then { m with status := none } else m
  | .kill => { m with live := false }
  | _ => m

/-- One event. Replies and the cache outlive the buffer. -/
def step (codec : Codec) (m : Machine) (event : Event) : Machine :=
  match event with
  | .reply index reply env =>
      match m.rpcs[index]? with
      | none => m
      | some rpc =>
          if rpc.accepts reply then
            (RelaySave.runCallback codec env rpc.callback reply).after (m.note (rpc.reports reply))
          else m
  | .abandonMerge merge => (RelaySave.abandonMerge merge).after m
  | .prefetch authority path bytes revision =>
      { m with
        cache := fun key => if key = (authority, path) then some (bytes, revision) else m.cache key
        history := { m.history with
          reports := m.history.reports ++ [⟨authority, path, bytes, revision⟩] } }
  | .evict evicted =>
      { m with cache := fun key => if key = evicted then none else m.cache key }
  | event => if m.live then stepLive codec m event else m

abbrev Runs (codec : Codec) (permitted : Machine → Event → Prop) (start m : Machine) : Prop :=
  Reaches (step codec) permitted start m

abbrev AnyStep : Machine → Event → Prop := fun _ _ => True

abbrev runAll (codec : Codec) (start : Machine) (events : List Event) : Machine :=
  events.foldl (step codec) start

theorem runs_any (codec : Codec) (start : Machine) (events : List Event) :
    Runs codec AnyStep start (runAll codec start events) := by
  refine Reaches.of_along .refl ?_
  induction events generalizing start with
  | nil => trivial
  | cons event events ih => exact ⟨trivial, ih _⟩

/-- The coding system on characters below 128, where UTF-8 is the identity on codes. -/
def asciiCodec : Codec where
  encode text := text.map fun c => UInt8.ofNat c.toNat
  decode bytes := bytes.map fun b => Char.ofNat b.toNat

/-- A well-formed revision, told apart by its inode number. -/
def sampleToken (ino : Nat) : Token :=
  .present ⟨1, .present, .file, 1, ino, 1, 0, 0, 0, 0, 0o644, String.ofList (List.replicate 64 '0')⟩

def visitedFile : Machine :=
  .opened asciiCodec ⟨"/relay:h:/f", "h", "/f"⟩ [97] (sampleToken 1)

/-- A file "a", edited to "ab", whose save met REMOTE "z". -/
def conflicted : List Event :=
  [.edit (.whole ['a', 'b']), .save {},
    .reply 0 (.inl (.refused (some .conflict) (some .changed) none)) {},
    .reply 1 (.inr (.ok [122] (sampleToken 2))) {}]

end EmacsRelay

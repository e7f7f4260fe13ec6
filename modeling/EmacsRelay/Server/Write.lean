import EmacsRelay.Server.Syscall

set_option autoImplicit false

/- Revision reads and conditional writes, `server/src/revisions/read.rs` and `write.rs`, and the
mutations of `server/src/fs_handlers.rs`, as programs of system calls. -/
namespace EmacsRelay

abbrev Io (α : Type) : Type := Trial Call Answer RevisionError α

open Trial (stop ofExcept guarded)

/-- One system call. -/
def ask {ε : Type} (request : Call) : Trial Call Answer ε (Answer request) := Trial.perform request

namespace Sys

def lstat (path : Path) : Io (Except OsError Metadata) := ask (.lstat path)

def openRead (path : Path) : Io (Except OsError Inode) := ask (.openRead path)

def fstat (file : Inode) : Io (Except OsError Metadata) := ask (.fstat file)

def read (file : Inode) (offset length : Nat) : Io (Except OsError Bytes) :=
  ask (.read file offset length)

def fetchAdd : Io Nat := ask .fetchAdd

def createNew (path : Path) : Io (Except OsError Inode) := ask (.createNew path 0o666)

def fchown (file : Inode) (uid gid : Nat) : Io (Except OsError Unit) :=
  ask (.fchown file uid gid)

def fchmod (file : Inode) (mode : Nat) : Io (Except OsError Unit) := ask (.fchmod file mode)

def writeAll (file : Inode) (bytes : Bytes) : Io (Except OsError Unit) :=
  ask (.writeAll file bytes)

def syncAll (file : Inode) : Io (Except OsError Unit) := ask (.syncAll file)

def rename (source target : Path) : Io (Except OsError Unit) :=
  ask (.rename source target)

def hardLink (source target : Path) : Io (Except OsError Unit) :=
  ask (.hardLink source target)

def unlink (path : Path) : Io (Except OsError Unit) := ask (.unlink path)

end Sys

/-- `io_error`. -/
def ioError (context : String) (e : OsError) : RevisionError := .io (context ++ ": " ++ e.text)

/-- `std::str::from_utf8` accepts the bytes. -/
def validUtf8 (bytes : Bytes) : Bool := (ByteArray.mk bytes.toArray).validateUTF8

/-- `final_type`. -/
def finalType (metadata : Metadata) : Option FinalType :=
  match metadata.node.kind with
  | .symlink _ _ => some .symlink
  | .directory => some .directory
  | .fifo => some .fifo
  | .other => some .nonregular
  | .file _ => if metadata.node.nlink ≠ 1 then some .hardlink else none

/-- `Revision::from_metadata`. -/
def Revision.fromMetadata (metadata : Metadata) (digest : String) : Revision :=
  { schema := 1
    state := .present
    kind := .file
    dev := metadata.inode.dev
    ino := metadata.inode.ino
    size := metadata.size
    mtimeSec := metadata.node.mtime.sec
    mtimeNsec := metadata.node.mtime.nsec.val
    ctimeSec := metadata.node.ctime.sec
    ctimeNsec := metadata.node.ctime.nsec.val
    mode := metadata.node.mode % 0o10000
    sha256 := digest }

/-- The file type bits of `st_mode`. -/
def FileKind.typeBits : FileKind → Nat
  | .file _ => 0o100000
  | .directory => 0o040000
  | .symlink _ _ => 0o120000
  | .fifo => 0o010000
  | .other => 0o020000

/-- `metadata_equal`. -/
def metadataEqual (before after : Metadata) : Bool :=
  before.inode == after.inode && before.size == after.size &&
    before.node.mtime == after.node.mtime && before.node.ctime == after.node.ctime &&
    before.node.kind.typeBits == after.node.kind.typeBits && before.node.mode == after.node.mode &&
    before.node.uid == after.node.uid && before.node.gid == after.node.gid &&
    before.node.nlink == after.node.nlink

/-- Stop when the file is of a type that revisions do not cover. -/
def refuseType (metadata : Metadata) : Io Unit :=
  match finalType metadata with
  | some kind => stop (.unsupportedFinalType kind)
  | none => pure ()

/-- Stop unless a test succeeds. -/
def require (test : Bool) (reason : RevisionError) : Io Unit :=
  if test then pure () else stop reason

/-- `checked_lstat`. -/
def checkedLstat (path : Path) : Io (Option Metadata) := do
  let result ← Sys.lstat path
  match result with
  | .ok metadata => pure (some metadata)
  | .error .notFound => pure none
  | .error e => stop (ioError "read" e)

/-- `open_checked`. -/
def openChecked (path : Path) : Io Inode := do
  let initial ← checkedLstat path
  match initial with
  | none => stop (.io "read: file not found")
  | some metadata => do
      refuseType metadata
      let opened ← Sys.openRead path
      ofExcept (ioError "read") opened

structure RevisionRead where
  bytes : Bytes
  revision : Revision
deriving DecidableEq, Repr

/-- `read_to_end` from an offset, of so many bytes at most. Reads go on until one returns nothing,
and each of the others returns a byte at least. -/
def readOn (file : Inode) : Nat → Nat → Nat → Io (Except OsError Bytes)
  | 0, _, _ => pure (.ok [])
  | fuel + 1, offset, limit =>
      if limit = 0 then pure (.ok [])
      else do
        let chunk ← Sys.read file offset limit
        match chunk with
        | .error e => pure (.error e)
        | .ok [] => pure (.ok [])
        | .ok bytes => do
            let rest ← readOn file fuel (offset + bytes.length) (limit - bytes.length)
            pure (rest.map fun more => bytes ++ more)

def readToEnd (file : Inode) (offset limit : Nat) : Io (Except OsError Bytes) :=
  readOn file limit offset limit

/-- What holds of every single read and of what follows it holds of reading to the end, by induction
on the reads that are left. -/
theorem readOn_all {holds : Io (Except OsError Bytes) → Prop} {file : Inode}
    (done : ∀ result, holds (pure result))
    (read : ∀ offset limit (next : Except OsError Bytes → Io (Except OsError Bytes)),
      (∀ chunk, holds (next chunk)) → holds (Sys.read file offset limit >>= next))
    (joined : ∀ (body : Io (Except OsError Bytes)) (join : Except OsError Bytes → Except OsError Bytes),
      holds body → holds (body >>= fun rest => pure (join rest)))
    (fuel offset limit : Nat) : holds (readOn file fuel offset limit) := by
  induction fuel generalizing offset limit with
  | zero => exact done _
  | succ fuel ih =>
      unfold readOn
      split
      · exact done _
      · apply read
        intro chunk
        split
        · exact done _
        · exact done _
        · exact joined _ _ (ih _ _)

/-- One attempt of `read_with_revision`; nothing when the file changed meanwhile. -/
def readAttempt (path : Path) : Io (Option RevisionRead) := do
  let file ← openChecked path
  let sampled ← Sys.fstat file
  let before ← ofExcept (ioError "read") sampled
  refuseType before
  require (decide (before.size ≤ maxReadBytes)) .tooLarge
  let content ← readToEnd file 0 (maxReadBytes + 1)
  let bytes ← ofExcept (ioError "read") content
  require (decide (bytes.length ≤ maxReadBytes)) .tooLarge
  let sampled ← Sys.fstat file
  let after ← ofExcept (ioError "read") sampled
  refuseType after
  if metadataEqual before after then do
    require (validUtf8 bytes) .unsupportedEncoding
    pure (some ⟨bytes, .fromMetadata after (sha256 bytes)⟩)
  else pure none

def readAttempts (path : Path) : Nat → Io RevisionRead
  | 0 => stop .unstableRead
  | attempts + 1 => do
      let read ← readAttempt path
      match read with
      | some read => pure read
      | none => readAttempts path attempts

/-- `READ_ATTEMPTS`. -/
def readLimit : Nat := 3

/-- `read_with_revision`. -/
def readWithRevision (path : Path) : Io RevisionRead := readAttempts path readLimit

/-- `missing_appearance_conflict`, raised. -/
def missingAppearanceConflict {α : Type} (path : Path) (metadata : Metadata) : Io α :=
  match finalType metadata with
  | some .hardlink => stop (.unsupportedFinalType .hardlink)
  | some _ => stop (.conflict .typeChanged none)
  | none => do
      let current ← readWithRevision path
      stop (.conflict .appeared (some current.revision))

/-- `conflict_for_existing`. -/
def conflictForExisting (expected : ExpectedRevision) (path : Path) : Io Unit :=
  match expected with
  | .missing => do
      let found ← checkedLstat path
      match found with
      | none => pure ()
      | some metadata => missingAppearanceConflict path metadata
  | .present revision => do
      require revision.isValidFileRevision (.io "write: invalid expected revision")
      let found ← checkedLstat path
      match found with
      | none => stop (.conflict .deleted none)
      | some metadata =>
          match finalType metadata with
          | some .hardlink => stop (.unsupportedFinalType .hardlink)
          | some _ => stop (.conflict .typeChanged none)
          | none => do
              let current ← readWithRevision path
              if current.revision = revision then pure ()
              else stop (.conflict .changed (some current.revision))

/-- A temporary name beside `path`. -/
def tempPath (process : Process) (path : Path) (serial : Nat) : Path :=
  ⟨path.parent, ".relay-tmp-" ++ toString process.pid ++ "-" ++ toString serial⟩

/-- `PendingTemp::new`, with so many names left to try. -/
def newTemp (process : Process) (path : Path) : Nat → Io (Path × Inode)
  | 0 => stop (.io "write(temp): exhausted unique temporary names")
  | tries + 1 => do
      let serial ← Sys.fetchAdd
      let temp := tempPath process path serial
      let created ← Sys.createNew temp
      match created with
      | .ok file => pure (temp, file)
      | .error .alreadyExists => newTemp process path tries
      | .error e => stop (ioError "write(temp)" e)

/-- `preserve_metadata`. -/
def preserveMetadata (file : Inode) (original : Option Metadata) : Io Unit :=
  match original with
  | none => pure ()
  | some metadata => do
      let owned ← Sys.fchown file metadata.node.uid metadata.node.gid
      ofExcept (ioError "write(set ownership)") owned
      let set ← Sys.fchmod file (metadata.node.mode % 0o10000)
      ofExcept (ioError "write(set mode)") set

/-- `write_all` of the temporary file. -/
def writeTemp (file : Inode) (bytes : Bytes) : Io Unit := do
  let written ← Sys.writeAll file bytes
  ofExcept (ioError "write(temp)") written

/-- `sync_all` of the temporary file. -/
def syncTemp (file : Inode) : Io Unit := do
  let synced ← Sys.syncAll file
  ofExcept (ioError "write(sync)") synced

/-- The temporary file takes its place: it replaces the file, or is linked where there is none. -/
def publish (expected : ExpectedRevision) (temp path : Path) : Io Unit :=
  match expected with
  | .present _ => do
      let renamed ← Sys.rename temp path
      ofExcept (ioError "write(rename)") renamed
  | .missing => do
      let linked ← Sys.hardLink temp path
      match linked with
      | .ok _ => do
          let removed ← Sys.unlink temp
          ofExcept (ioError "write(publish cleanup)") removed
      | .error .alreadyExists => do
          let found ← checkedLstat path
          match found with
          | none => stop (.io "write(publish): destination disappeared after collision")
          | some metadata => missingAppearanceConflict path metadata
      | .error e => stop (ioError "write(publish missing)" e)

/-- The temporary file is removed when a write stops before it is published. -/
def dropTemp (temp : Path) : Program Call Answer Unit :=
  Program.bind (Program.perform (.unlink temp)) fun _ => .done ()

/-- `conditional_write_locked`. -/
def conditionalWriteLocked (process : Process) (path : Path) (bytes : Bytes)
    (expected : ExpectedRevision) : Io Revision := do
  require (decide (bytes.length ≤ maxReadBytes)) .tooLarge
  require (validUtf8 bytes) .unsupportedEncoding
  conflictForExisting expected path
  let original ← checkedLstat path
  let (temp, file) ← newTemp process path 100
  guarded
    (do
      preserveMetadata file original
      writeTemp file bytes
      syncTemp file
      conflictForExisting expected path
      publish expected temp path)
    (dropTemp temp)
  let published ← readWithRevision path
  if published.bytes = bytes then pure published.revision
  else stop (.conflict .changed (some published.revision))

/-- The mutations among the requests of `handle_fs`, once decoded. -/
inductive FsRequest where
  | write (path : Path) (bytes : Bytes) (append mustBeNew : Bool)
      (expected : Option ExpectedRevision)
  | mkdir (path : Path) (parents : Bool)
  | rmdir (path : Path) (recursive : Bool)
  | delete (path : Path)
  | rename (path target : Path) (okIfExists : Bool)
  | copy (path target : Path) (okIfExists : Bool)
deriving DecidableEq, Repr

inductive FsReply where
  | revision (revision : Revision)
  | refused (reason : RevisionError)
  | ok
  | failed (message : String)
deriving DecidableEq, Repr

namespace FsHandlers

/-- Operations that report the system's error as text. -/
abbrev Op (α : Type) : Type := Trial Call Answer String α

/-- A call whose error is reported as `context` and the system's text. -/
def attempt {α : Type} (context : String) (request : Op (Except OsError α)) : Op α := do
  let answer ← request
  ofExcept (fun e => context ++ ": " ++ e.text) answer

/-- `write_file`. -/
def writeFile (path : Path) (bytes : Bytes) (append mustBeNew : Bool) : Op Unit := do
  if mustBeNew then do
    let file ← attempt "write(create new)" (ask (.createNew path 0o666))
    attempt "write(create new)" (ask (.writeAll file bytes))
  else if append then do
    let file ← attempt "write(open append)" (ask (.openCreate path 0o666 false))
    attempt "write(append)" (ask (.writeAll file bytes))
  else do
    let file ← attempt "write" (ask (.openCreate path 0o666 true))
    attempt "write" (ask (.writeAll file bytes))

/-- `fs::create_dir_all` on a path given from its last component up. -/
def createDirAll : List String → Op Unit
  | [] => pure ()
  | name :: above => do
      let path : Path := ⟨above.reverse, name⟩
      let made : Except OsError Unit ← ask (.mkdir path)
      match made with
      | .ok _ => pure ()
      | .error .notFound => do
          createDirAll above
          let again : Except OsError Unit ← ask (.mkdir path)
          match again with
          | .ok _ => pure ()
          | .error e => do
              let there : Bool ← ask (.pathIsDir path)
              if there then pure () else stop ("mkdir: " ++ e.text)
      | .error e => do
          let there : Bool ← ask (.pathIsDir path)
          if there then pure () else stop ("mkdir: " ++ e.text)

def displayPath (path : Path) : String :=
  "/" ++ "/".intercalate (path.parent ++ [path.name])

/-- A destination that must not exist. -/
def refuseExisting (context : String) (target : Path) (okIfExists : Bool) : Op Unit :=
  if okIfExists then pure ()
  else do
    let there : Bool ← ask (.pathExists target)
    if there then stop (context ++ ": destination exists: " ++ displayPath target) else pure ()

/-- `fs::copy`. -/
def copy (path target : Path) : Op Unit := do
  let source ← attempt "copy" (ask (.openFollow path))
  let metadata ← attempt "copy" (ask (.fstat source))
  match metadata.node.kind with
  | .file _ => do
      let mode := metadata.node.mode % 0o10000
      let copied ← attempt "copy" (ask (.openCreate target mode true))
      let written ← attempt "copy" (ask (.fstat copied))
      (match written.node.kind with
      | .file _ => attempt "copy" (ask (.fchmod copied mode))
      | _ => pure ())
      let bytes ← attempt "copy" (ask (.readFile source))
      attempt "copy" (ask (.writeAll copied bytes))
  | _ =>
      stop "copy: the source path is neither a regular file nor a symlink to a regular file"

/-- Reply of an operation without a result. -/
def finish (op : Op Unit) : Program Call Answer FsReply :=
  Program.bind op fun
    | .ok _ => .done .ok
    | .error message => .done (.failed message)

/-- Reply of a conditional write, `finish_revision`. -/
def finishRevision (write : Io Revision) : Program Call Answer FsReply :=
  Program.bind write fun
    | .ok revision => .done (.revision revision)
    | .error reason => .done (.refused reason)

/-- The mutating branches of `handle_fs`: what each does once it holds the mutation lock. -/
def handleFs (process : Process) : FsRequest → Program Call Answer FsReply
  | .write path bytes append mustBeNew expected =>
      match expected, append, mustBeNew with
      | some expected, false, false =>
          finishRevision (conditionalWriteLocked process path bytes expected)
      | _, append, mustBeNew => finish (writeFile path bytes append mustBeNew)
  | .mkdir path true => finish (createDirAll (path.name :: path.parent.reverse))
  | .mkdir path false => finish (attempt "mkdir" (ask (.mkdir path)))
  | .rmdir path true => finish (attempt "rmdir" (ask (.removeDirAll path)))
  | .rmdir path false => finish (attempt "rmdir" (ask (.rmdir path)))
  | .delete path => finish (attempt "delete" (ask (.unlink path)))
  | .rename path target okIfExists =>
      finish (do
        refuseExisting "rename" target okIfExists
        attempt "rename" (ask (.rename path target)))
  | .copy path target okIfExists =>
      finish (do
        refuseExisting "copy" target okIfExists
        copy path target)

end FsHandlers

end EmacsRelay

import EmacsRelay.Server.Disk

set_option autoImplicit false

/- System calls of the server's file operations. The state of the file system alone decides which
fail; clock, inode numbers and the clearing of set-id bits are the kernel's choice. -/
namespace EmacsRelay

/-- `fs::Metadata`. -/
structure Metadata where
  inode : Inode
  node : Node
deriving DecidableEq, Repr

def Metadata.size (metadata : Metadata) : Nat :=
  match metadata.node.kind with
  | .file bytes => bytes.length
  | _ => 0

/-- What a process brings to its calls. -/
structure Process where
  pid : Nat
  uid : Nat
  gid : Nat
  umask : Nat
deriving DecidableEq, Repr

/-- What the kernel chooses at one call. A `read` returns so many bytes at most, or one. -/
structure KernelChoice where
  now : Time
  fresh : Nat
  dropSetId : Bool
  count : Nat
deriving DecidableEq, Repr

namespace Process

def creationMode (process : Process) (mode : Nat) : Nat :=
  mode &&& (0o7777 ^^^ (process.umask &&& 0o7777))

def newNode (process : Process) (kind : FileKind) (mode : Nat) (now : Time) : Node :=
  { kind := kind
    mode := process.creationMode mode
    uid := process.uid
    gid := process.gid
    nlink := 1
    mtime := now
    ctime := now }

end Process

namespace Disk

variable (d : Disk) (choice : KernelChoice)

def metadata (inode : Inode) : Except OsError Metadata :=
  match d.nodes inode with
  | none => .error .badDescriptor
  | some node => .ok ⟨inode, node⟩

/-- `fs::symlink_metadata`. -/
def lstat (path : Path) : Except OsError Metadata :=
  match d.find path with
  | .error e => .error e
  | .ok inode => d.metadata inode

/-- `open` for reading with `O_NOFOLLOW`. -/
def openRead (path : Path) : Except OsError Inode :=
  match d.find path with
  | .error e => .error e
  | .ok inode =>
      match d.kindOf inode with
      | some (.symlink _ _) => .error .tooManyLinks
      | _ => .ok inode

/-- The inode of a path whose last component is followed. -/
def openFollow (path : Path) : Except OsError Inode :=
  match d.followed path with
  | .error e => .error e
  | .ok (dir, name) =>
      match d.entry dir name with
      | none => .error .notFound
      | some inode => .ok inode

def readFile (file : Inode) : Except OsError Bytes :=
  match d.kindOf file with
  | some (.file bytes) => .ok bytes
  | some .directory => .error .isADirectory
  | _ => .ok []

/-- `read` at an offset, into a buffer of this length. -/
def readAt (file : Inode) (offset length : Nat) : Except OsError Bytes :=
  match d.kindOf file with
  | some (.file bytes) => .ok ((bytes.drop offset).take (min length (max 1 choice.count)))
  | some .directory => .error .isADirectory
  | _ => .ok []

def create (dir : Inode) (name : String) (inode : Inode) (node : Node) : Disk :=
  (d.setNode inode node).putEntry dir name inode

/-- `create_new(true)`. -/
def createNew (process : Process) (path : Path) (mode : Nat) : Except OsError (Inode × Disk) :=
  match d.directoryOf path with
  | .error e => .error e
  | .ok dir =>
      match d.entry dir path.name with
      | some _ => .error .alreadyExists
      | none =>
          let inode : Inode := ⟨dir.dev, choice.fresh⟩
          .ok (inode, d.create dir path.name inode (process.newNode (.file []) mode choice.now))

/-- `open` with `O_CREAT`, and with `O_TRUNC` or `O_APPEND`. -/
def openCreate (process : Process) (path : Path) (mode : Nat) (truncate : Bool) :
    Except OsError (Inode × Disk) :=
  match d.followed path with
  | .error e => .error e
  | .ok (dir, name) =>
      match d.entry dir name with
      | none =>
          let inode : Inode := ⟨dir.dev, choice.fresh⟩
          .ok (inode, d.create dir name inode (process.newNode (.file []) mode choice.now))
      | some inode =>
          match d.kindOf inode with
          | some .directory => .error .isADirectory
          | some (.file _) =>
              .ok (inode,
                if truncate then
                  d.modifyNode inode fun node =>
                    { node with kind := .file [], mtime := choice.now, ctime := choice.now }
                else d)
          | _ => .ok (inode, d)

def dropSetIdBits (mode : Nat) : Nat := if choice.dropSetId then mode &&& 0o1777 else mode

def fchown (file : Inode) (uid gid : Nat) : Disk :=
  d.modifyNode file fun node =>
    { node with uid := uid, gid := gid, mode := dropSetIdBits choice node.mode, ctime := choice.now }

def fchmod (file : Inode) (mode : Nat) : Disk :=
  d.modifyNode file fun node => { node with mode := mode, ctime := choice.now }

/-- `write_all`, at the end of a file that is new, truncated or open for appending. -/
def writeAll (file : Inode) (bytes : Bytes) : Disk :=
  if bytes = [] then d
  else
    d.modifyNode file fun node =>
      match node.kind with
      | .file content =>
          { node with
            kind := .file (content ++ bytes)
            mode := dropSetIdBits choice node.mode
            mtime := choice.now
            ctime := choice.now }
      | _ => node

def isDirectory (inode : Inode) : Bool := d.kindOf inode = some .directory

def isEmptyDirectory (inode : Inode) : Bool :=
  (d.entries inode).all fun entry => entry.1 == "." || entry.1 == ".."

/-- The directory lies in `tree`, by its `..` entries. -/
def within (tree : Inode) : Nat → Inode → Bool
  | 0, _ => false
  | fuel + 1, dir =>
      dir == tree ||
        match d.entry dir ".." with
        | none => false
        | some parent => if parent = dir then false else within tree fuel parent

/-- An entry moves, and replaces the one it meets. -/
def moveEntry (source : Inode) (sourceName : String) (target : Inode) (targetName : String)
    (moved : Inode) : Disk :=
  let away := d.removeEntry source sourceName
  let placed := away.putEntry target targetName moved
  let stamped := placed.modifyNode moved fun node => { node with ctime := choice.now }
  match d.entry target targetName with
  | none => stamped
  | some old => stamped.dropLink old choice.now

def rename (source target : Path) : Except OsError Disk :=
  match d.directoryOf source, d.find source, d.directoryOf target with
  | .error e, _, _ => .error e
  | _, .error e, _ => .error e
  | _, _, .error e => .error e
  | .ok sourceDir, .ok moved, .ok targetDir =>
      if moved.dev ≠ targetDir.dev then .error .crossDevice
      else if d.isDirectory moved ∧ d.within moved maxSteps targetDir then .error .invalidInput
      else
        match d.entry targetDir target.name with
        | none => .ok (d.moveEntry choice sourceDir source.name targetDir target.name moved)
        | some old =>
            -- two names of one file: nothing happens
            if old = moved then .ok d
            else if ¬ d.isDirectory moved ∧ d.isDirectory old then .error .isADirectory
            else if d.isDirectory moved ∧ ¬ d.isDirectory old then .error .notADirectory
            else if d.isDirectory moved ∧ ¬ d.isEmptyDirectory old then .error .notEmpty
            else .ok (d.moveEntry choice sourceDir source.name targetDir target.name moved)

def hardLink (source target : Path) : Except OsError Disk :=
  match d.find source, d.directoryOf target with
  | .error e, _ => .error e
  | _, .error e => .error e
  | .ok inode, .ok dir =>
      match d.entry dir target.name with
      | some _ => .error .alreadyExists
      | none =>
          if inode.dev ≠ dir.dev then .error .crossDevice
          else if d.isDirectory inode then .error .notPermitted
          else
            .ok ((d.putEntry dir target.name inode).modifyNode inode fun node =>
              { node with nlink := node.nlink + 1, ctime := choice.now })

/-- `fs::remove_file`. -/
def unlink (path : Path) : Except OsError Disk :=
  match d.directoryOf path, d.find path with
  | .error e, _ => .error e
  | _, .error e => .error e
  | .ok dir, .ok inode =>
      if d.isDirectory inode then .error .isADirectory
      else .ok ((d.removeEntry dir path.name).dropLink inode choice.now)

/-- `fs::create_dir`. -/
def mkdir (process : Process) (path : Path) : Except OsError Disk :=
  match d.directoryOf path with
  | .error e => .error e
  | .ok dir =>
      match d.entry dir path.name with
      | some _ => .error .alreadyExists
      | none =>
          let inode : Inode := ⟨dir.dev, choice.fresh⟩
          let made := d.create dir path.name inode (process.newNode .directory 0o777 choice.now)
          .ok { made with
            entries := Function.update made.entries inode [(".", inode), ("..", dir)] }

/-- `fs::remove_dir`. -/
def rmdir (path : Path) : Except OsError Disk :=
  match d.directoryOf path, d.find path with
  | .error e, _ => .error e
  | _, .error e => .error e
  | .ok dir, .ok inode =>
      if ¬ d.isDirectory inode then .error .notADirectory
      else if ¬ d.isEmptyDirectory inode then .error .notEmpty
      else .ok ((d.removeEntry dir path.name).dropLink inode choice.now)

/-- Everything below a directory goes, and links are not followed. -/
def removeTree : Nat → Disk → Inode → Disk
  | 0, d, _ => d
  | fuel + 1, d, dir =>
      ((d.entries dir).filter fun entry => entry.1 != "." && entry.1 != "..").foldl
        (fun d entry =>
          let emptied := if d.isDirectory entry.2 then removeTree fuel d entry.2 else d
          (emptied.removeEntry dir entry.1).dropLink entry.2 choice.now) d

/-- `fs::remove_dir_all`. -/
def removeDirAll (path : Path) : Except OsError Disk :=
  match d.directoryOf path, d.find path with
  | .error e, _ => .error e
  | _, .error e => .error e
  | .ok dir, .ok inode =>
      match d.kindOf inode with
      | some .directory =>
          .ok (((removeTree choice maxSteps d inode).removeEntry dir path.name).dropLink inode
            choice.now)
      | some (.symlink _ _) => .ok ((d.removeEntry dir path.name).dropLink inode choice.now)
      | _ => .error .notADirectory

/-- `Path::exists`. -/
def pathExists (path : Path) : Bool :=
  match d.openFollow path with
  | .ok _ => true
  | .error _ => false

/-- `Path::is_dir`. -/
def pathIsDir (path : Path) : Bool :=
  match d.openFollow path with
  | .ok inode => d.isDirectory inode
  | .error _ => false

end Disk

/-- What the server's file operations ask of the system; `fetchAdd` is `NEXT_TEMP`. -/
inductive Call where
  | lstat (path : Path)
  | openRead (path : Path)
  | openFollow (path : Path)
  | fstat (file : Inode)
  | readFile (file : Inode)
  | read (file : Inode) (offset length : Nat)
  | fetchAdd
  | createNew (path : Path) (mode : Nat)
  | openCreate (path : Path) (mode : Nat) (truncate : Bool)
  | fchown (file : Inode) (uid gid : Nat)
  | fchmod (file : Inode) (mode : Nat)
  | writeAll (file : Inode) (bytes : Bytes)
  | syncAll (file : Inode)
  | rename (source target : Path)
  | hardLink (source target : Path)
  | unlink (path : Path)
  | pathExists (path : Path)
  | pathIsDir (path : Path)
  | mkdir (path : Path)
  | rmdir (path : Path)
  | removeDirAll (path : Path)
deriving DecidableEq, Repr

def Answer : Call → Type
  | .lstat _ => Except OsError Metadata
  | .openRead _ => Except OsError Inode
  | .openFollow _ => Except OsError Inode
  | .fstat _ => Except OsError Metadata
  | .readFile _ => Except OsError Bytes
  | .read _ _ _ => Except OsError Bytes
  | .fetchAdd => Nat
  | .createNew _ _ => Except OsError Inode
  | .openCreate _ _ _ => Except OsError Inode
  | .pathExists _ => Bool
  | .pathIsDir _ => Bool
  | _ => Except OsError Unit

/-- A machine: its file system, and each server process's counter of temporary names. -/
structure Host where
  disk : Disk
  nextTemp : Nat → Nat

namespace Host

/-- A call that changes the file system or fails. -/
def change (h : Host) : Except OsError Disk → Except OsError Unit × Host
  | .ok disk => (.ok (), { h with disk := disk })
  | .error e => (.error e, h)

/-- The same for a call that opens a file. -/
def opening (h : Host) : Except OsError (Inode × Disk) → Except OsError Inode × Host
  | .ok (inode, disk) => (.ok inode, { h with disk := disk })
  | .error e => (.error e, h)

def countTemp (h : Host) (pid : Nat) : Host :=
  { h with nextTemp := Function.update h.nextTemp pid (h.nextTemp pid + 1) }

def exec (process : Process) (request : Call) (choice : KernelChoice) (h : Host) :
    Answer request × Host :=
  match request with
  | .lstat path => (h.disk.lstat path, h)
  | .openRead path => (h.disk.openRead path, h)
  | .openFollow path => (h.disk.openFollow path, h)
  | .fstat file => (h.disk.metadata file, h)
  | .readFile file => (h.disk.readFile file, h)
  | .read file offset length => (h.disk.readAt choice file offset length, h)
  | .fetchAdd => (h.nextTemp process.pid, h.countTemp process.pid)
  | .createNew path mode => h.opening (h.disk.createNew choice process path mode)
  | .openCreate path mode truncate => h.opening (h.disk.openCreate choice process path mode truncate)
  | .fchown file uid gid => (.ok (), { h with disk := h.disk.fchown choice file uid gid })
  | .fchmod file mode => (.ok (), { h with disk := h.disk.fchmod choice file mode })
  | .writeAll file bytes => (.ok (), { h with disk := h.disk.writeAll choice file bytes })
  | .syncAll _ => (.ok (), h)
  | .rename source target => h.change (h.disk.rename choice source target)
  | .hardLink source target => h.change (h.disk.hardLink choice source target)
  | .unlink path => h.change (h.disk.unlink choice path)
  | .pathExists path => (h.disk.pathExists path, h)
  | .pathIsDir path => (h.disk.pathIsDir path, h)
  | .mkdir path => h.change (h.disk.mkdir choice process path)
  | .rmdir path => h.change (h.disk.rmdir choice path)
  | .removeDirAll path => h.change (h.disk.removeDirAll choice path)

/-- A new inode gets a number that is not in use. -/
def Allows (request : Call) (choice : KernelChoice) (h : Host) : Prop :=
  match request with
  | .createNew path _ => ∀ dir, h.disk.directoryOf path = .ok dir →
      h.disk.Free ⟨dir.dev, choice.fresh⟩
  | .mkdir path => ∀ dir, h.disk.directoryOf path = .ok dir → h.disk.Free ⟨dir.dev, choice.fresh⟩
  | .openCreate path _ _ => ∀ slot, h.disk.followed path = .ok slot →
      h.disk.Free ⟨slot.1.dev, choice.fresh⟩
  | _ => True

/-- The system as one process meets it. -/
def kernel (process : Process) : Kernel Call Answer Host where
  Input := KernelChoice
  allowed := Allows
  exec := exec process

end Host

end EmacsRelay

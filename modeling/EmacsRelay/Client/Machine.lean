import EmacsRelay.Client.Conflict
import EmacsRelay.Lib.Routine
import Mathlib.Tactic.Simps.Basic

set_option autoImplicit false

/- The state of one visited buffer, of the Emacs objects its saves create, and of the
requests it has issued; with the editor primitives the save functions are made of. -/
namespace EmacsRelay

abbrev Text := List Char

/-- The editor's `utf-8` coding system. -/
structure Codec where
  encode : Text → Bytes
  decode : Bytes → Text

/-- Buffer text around the accessible portion: narrowing hides `before` and `behind`. -/
structure Buffer where
  before : Text
  visible : Text
  behind : Text
deriving DecidableEq, Repr

namespace Buffer

def full (b : Buffer) : Text := b.before ++ b.visible ++ b.behind

def whole (text : Text) : Buffer := ⟨[], text, []⟩

def Narrowed (b : Buffer) : Prop := b.before ++ b.behind ≠ []

instance (b : Buffer) : Decidable b.Narrowed := inferInstanceAs (Decidable (_ ≠ _))

theorem full_of_not_narrowed {b : Buffer} (wide : ¬ b.Narrowed) : b.full = b.visible := by
  have empty : b.before = [] ∧ b.behind = [] := by
    simpa [Narrowed] using wide
  simp [full, empty.1, empty.2]

@[simp] theorem full_whole (text : Text) : (whole text).full = text := by
  simp [full, whole]

end Buffer

inductive Status where
  | saving
  | saved
  | savedNewer
  | conflict
  | unknown
  | failed
deriving DecidableEq, Repr

/-- A captured save, `relay-save--active` or `relay-save--queued`. Every dispatched operation
has a generation of its own, so equality of operations is object identity. -/
structure Operation where
  identity : Option Identity
  bytes : Option Bytes
  base : Option Base
  expected : Option Token := none
  choice : Option Choice := none
  snapshot : Option ConflictState := none
  saveAs : Option String := none
  targetIdentity : Option Identity := none
  statusExtra : Bool := false
  localRecovery : Option Nat := none
  remoteRecovery : Option Nat := none
  mergeBuffer : Option Nat := none
  generation : Option Nat := none
deriving DecidableEq, Repr

/-- `relay-save--result`, the most recent terminal result. -/
inductive SaveResult where
  | saved (revision : Token) (newerEdits : Bool)
  | savedAs (revision : Token) (conflict : Option ConflictState)
  | adoptedRemote (localRecovery : Nat)
  | conflict (snapshot : ConflictState)
  | outcome (outcome : Outcome)
  | retained (state : Option ConflictState)
  | uncertain (error : String)
  | failed (reason : Reason) (error : String)
  | mergeRefused (conflict : ConflictState) (mergeRecovery : Nat)
deriving DecidableEq, Repr

/-- The closures the save functions hand to the request layer. -/
inductive Callback where
  | writeDone (operation : Operation)
  | reconcileRead (operation : Operation) (failure : Option String)
  | conflictRead (operation : Operation) (reason : Reason)
  | inspected (operation : Operation) (state : Option ConflictState)
  | mergeVerified (operation : Operation)
  | mergeWriteDone (operation : Operation)
  | mergeLossRead (operation : Operation)
  | mergeConflictRead (operation : Operation) (reason : Reason)
deriving DecidableEq, Repr

def Callback.operation : Callback → Operation
  | .writeDone op => op
  | .reconcileRead op _ => op
  | .conflictRead op _ => op
  | .inspected op _ => op
  | .mergeVerified op => op
  | .mergeWriteDone op => op
  | .mergeLossRead op => op
  | .mergeConflictRead op _ => op

/-- A request on the wire. A nil expected revision is sent as such, never dropped. -/
inductive Request where
  | read (authority path : String)
  | write (authority path : String) (bytes : Bytes) (expected : Option Token)
deriving DecidableEq, Repr

/-- An issued call. When preparing it failed there is no request, and the callback is run
from a timer with a transport failure. -/
structure Rpc where
  request : Option Request
  callback : Callback
deriving DecidableEq, Repr

def Request.isWrite : Request → Bool
  | .read _ _ => false
  | .write _ _ _ _ => true

/-- An Ediff result buffer. -/
structure MergeBuffer where
  snapshot : Option ConflictState
  active : Bool
  modified : Bool
deriving DecidableEq, Repr

/-- A pair the server vouched for: read from `path`, acknowledged as written there, or, for
the missing state, reported absent. -/
structure Report where
  authority : String
  path : String
  bytes : Bytes
  revision : Token
deriving DecidableEq, Repr

inductive Installer where
  | keepRemote
  | restoreBase
  | merge
  | reload
deriving DecidableEq, Repr

/-- One replacement of the live text: what was there, what was put there, and the recovery
buffer made for it. -/
structure Erasure where
  installer : Installer
  erased : Buffer
  installed : Option Bytes
  recovery : Option Nat
deriving DecidableEq, Repr

/-- Who cleared the modified bit last: the identity its completion was for and the identity
visited at that moment. -/
structure Cleaning where
  owner : Option Identity
  visited : Option Identity
deriving DecidableEq, Repr

/-- What a run has done, kept for stating properties; no function of the client reads it.
`cleaned` lasts until an edit or until the bit is set again; `unsettled` is the operation
whose write was sent last, dropped when another save or merge starts and kept by an
inspection. -/
structure History where
  reports : List Report := []
  erasures : List Erasure := []
  cleaned : Option Cleaning := none
  unsettled : Option Operation := none
deriving Repr

/-- `relay-conflict--pending-read`: a read that no visit has claimed yet. -/
structure PendingRead where
  filename : String
  bytes : Bytes
  revision : Token
deriving DecidableEq, Repr

/-- Key of the content cache. -/
abbrev CacheKey := String × String

structure Machine where
  live : Bool := true
  fileName : Option String
  buffer : Buffer
  modified : Bool := false
  base : Option Base := none
  state : Option ConflictState := none
  pendingRead : Option PendingRead := none
  active : Option Operation := none
  queued : Option Operation := none
  generation : Nat := 0
  status : Option Status := none
  result : Option SaveResult := none
  recovery : List Text := []
  merges : List MergeBuffer := []
  cache : CacheKey → Option (Bytes × Token) := fun _ => none
  rpcs : List Rpc := []
  history : History := {}

/-- A Lisp error that reached the code under study. -/
inductive LispError where
  | userError (message : String)
  | wrongType
  | signalled (message : String)
deriving DecidableEq, Repr

/-- The steps that may signal: changing text, running a hook, filling the cache, creating a
buffer, issuing a request. Each is executed at most once in the body of an event, and at most
once more in the handler of an error the body signalled. -/
inductive Site where
  | cachePut
  | afterSaveHook
  | beforeSaveHook
  | erase
  | insert
  | localRecovery
  | remoteRecovery
  | mergeRecovery
  | ediff
  | writeRpc
  | readRpc
deriving DecidableEq, Repr

/-- Answer of the user to the conflict menu. -/
inductive Key where
  | choice (choice : Choice)
  | ret
deriving DecidableEq, Repr

/-- What surrounds one event: which steps signal, what the hooks edit, what the user answers. -/
structure Env where
  fails : Site → Bool := fun _ => false
  failsHandling : Site → Bool := fun _ => false
  finalNewline : Bool := false
  beforeSave : Option Buffer := none
  afterSave : Option Buffer := none
  key : Key := .choice .cancel
  saveAsName : String := ""

namespace Env

/-- The surroundings of the error handler. -/
def handling (env : Env) : Env := { env with fails := env.failsHandling }

/-- No step signals. -/
def Quiet (env : Env) : Prop :=
  (∀ site, env.fails site = false) ∧ ∀ site, env.failsHandling site = false

end Env

abbrev Lisp (α : Type) := Routine Machine LispError α

namespace Machine

/-- `relay-conflict--bytes`: only the accessible portion is encoded. -/
def bytes (codec : Codec) (m : Machine) : Bytes := codec.encode m.buffer.visible

def fileIdentity (m : Machine) : Option Identity := RelayConflict.fileIdentity m.fileName

end Machine

/-- `relay-save--identity-equal-p`. -/
def identityEqual (left right : Option Identity) : Bool :=
  match left, right with
  | some a, some b => a.authority == b.authority && a.path == b.path
  | _, _ => false

@[simp] theorem identityEqual_self (identity : Identity) :
    identityEqual (some identity) (some identity) = true := by
  simp [identityEqual]

namespace Machine

/-- `relay-save--live-identity-equal-p`. -/
def liveIdentityEqual (m : Machine) (identity : Option Identity) : Bool :=
  identityEqual identity m.fileIdentity

/-- `relay-save--operation-current-p`. -/
def operationCurrent (m : Machine) (operation : Operation) : Bool :=
  m.active == some operation && operation.generation == some m.generation

/-- An edit of the live text sets the modified bit. -/
@[simps] def edit (m : Machine) (b : Buffer) : Machine :=
  { m with buffer := b, modified := true, history := { m.history with cleaned := none } }

/-- What a hook did to the text, if it edited at all. -/
def hooked (m : Machine) (edited : Option Buffer) : Machine :=
  match edited with
  | none => m
  | some b => m.edit b

/-- `(set-buffer-modified-p t)`. -/
@[simps] def markModified (m : Machine) : Machine :=
  { m with modified := true, history := { m.history with cleaned := none } }

/-- `(set-buffer-modified-p nil)`, by a completion that was for `owner`. -/
@[simps] def markClean (m : Machine) (owner : Option Identity) : Machine :=
  { m with
    modified := false
    history := { m.history with cleaned := some ⟨owner, m.fileIdentity⟩ } }

/-- `(erase-buffer)`, in order to install `bytes`. -/
@[simps] def erase (m : Machine) (installer : Installer) (recovery : Option Nat)
    (bytes : Option Bytes) : Machine :=
  { m with
    buffer := .whole []
    modified := true
    history := { m.history with
      cleaned := none
      erasures := m.history.erasures ++ [⟨installer, m.buffer, bytes, recovery⟩] } }

@[simps] def addRecovery (m : Machine) (text : Text) : Machine :=
  { m with recovery := m.recovery ++ [text] }

/-- `relay-conflict--record-base`. -/
@[simps] def recordBase (m : Machine) (bytes : Option Bytes) (revision : Token)
    (coding : Coding) : Machine :=
  { m with base := some ⟨bytes, revision, coding⟩ }

@[simps] def setState (m : Machine) (state : Option ConflictState) : Machine :=
  { m with state := state }

/-- `relay-save--set-status`. -/
@[simps] def setStatus (m : Machine) (status : Status) (result : Option SaveResult) : Machine :=
  { m with status := some status, result := result }

/-- `(setq relay-save--active nil relay-save--queued nil)`. -/
@[simps] def clearOperations (m : Machine) : Machine :=
  { m with active := none, queued := none }

@[simps] def setQueued (m : Machine) (queued : Option Operation) : Machine :=
  { m with queued := queued }

/-- A save or merge becomes the active operation of the next generation. -/
@[simps] def activate (m : Machine) (operation : Operation) : Machine :=
  { m with
    generation := m.generation + 1
    active := some operation
    history := { m.history with unsettled := none } }

/-- An inspection becomes active; the write it inspects stays the unsettled one. -/
@[simps] def activateInspection (m : Machine) (operation : Operation) : Machine :=
  { m with generation := m.generation + 1, active := some operation }

@[simps] def issue (m : Machine) (rpc : Rpc) : Machine :=
  { m with rpcs := m.rpcs ++ [rpc] }

/-- A write that could be prepared is on its way. -/
@[simps] def issueWrite (m : Machine) (rpc : Rpc) : Machine :=
  { m with
    rpcs := m.rpcs ++ [rpc]
    history := { m.history with
      unsettled := if rpc.request.isSome then some rpc.callback.operation
        else m.history.unsettled } }

/-- `relay--content-cache-put`; entries that the size limits drop are evictions of their own. -/
@[simps] def cachePut (m : Machine) (identity : Option Identity) (bytes : Option Bytes)
    (revision : Token) : Machine :=
  { m with
    cache := fun key =>
      if identity.map (fun id => (id.authority, id.path)) = some key then
        bytes.map (·, revision)
      else m.cache key }

@[simps] def setMerges (m : Machine) (merges : List MergeBuffer) : Machine :=
  { m with merges := merges }

@[simps] def note (m : Machine) (reports : List Report) : Machine :=
  { m with history := { m.history with reports := m.history.reports ++ reports } }

end Machine

/-- `(plist-put operation :generation GENERATION)`. -/
@[simps] def Operation.number (operation : Operation) (generation : Nat) : Operation :=
  { operation with generation := some generation }

/-- A queued save is given the acknowledged snapshot as its BASE and precondition. -/
@[simps] def Operation.rebase (operation : Operation) (base : Base) : Operation :=
  { operation with base := some base, expected := some base.revision }

/-- `relay-save--operation-target`. -/
def Operation.target (operation : Operation) : Option Identity :=
  operation.targetIdentity <|> operation.identity

namespace Editor

def mayFail (env : Env) (site : Site) : Lisp Unit :=
  if env.fails site then .signal (.signalled "step signalled") else pure ()

/-- `(erase-buffer)` then `(insert (decode-coding-string BYTES 'utf-8))`. -/
def eraseAndInsert (codec : Codec) (env : Env) (installer : Installer) (recovery : Option Nat)
    (bytes : Option Bytes) : Lisp Unit := do
  mayFail env .erase
  .update (·.erase installer recovery bytes)
  match bytes with
  | none => .signal .wrongType
  | some bytes => do
      mayFail env .insert
      .update (·.edit (.whole (codec.decode bytes)))

/-- `relay-conflict--recovery-buffer`: a new read-only buffer holding decoded BYTES. -/
def recoveryBuffer (codec : Codec) (env : Env) (site : Site) (bytes : Option Bytes) : Lisp Nat := do
  mayFail env site
  match bytes with
  | none => .signal .wrongType
  | some bytes => do
      let m ← .fetch
      .update (·.addRecovery (codec.decode bytes))
      pure m.recovery.length

/-- A hook may edit, and may signal after that. -/
def runHook (env : Env) (site : Site) (edited : Option Buffer) : Lisp Unit := do
  .update (·.hooked edited)
  mayFail env site

open Routine

variable (codec : Codec) (env : Env) (site : Site)

@[simp] theorem wp_mayFail (post : Unit → Machine → Prop) (failed : LispError → Machine → Prop)
    (m : Machine) :
    wp (mayFail env site) post failed m ↔
      (env.fails site = true → failed (.signalled "step signalled") m) ∧
      (env.fails site = false → post () m) := by
  cases fails : env.fails site <;> simp [mayFail, fails]

@[simp] theorem wp_runHook (edited : Option Buffer) (post : Unit → Machine → Prop)
    (failed : LispError → Machine → Prop) (m : Machine) :
    wp (runHook env site edited) post failed m ↔
      (env.fails site = true → failed (.signalled "step signalled") (m.hooked edited)) ∧
      (env.fails site = false → post () (m.hooked edited)) := by
  simp [runHook]

@[simp] theorem wp_recoveryBuffer (bytes : Bytes) (post : Nat → Machine → Prop)
    (failed : LispError → Machine → Prop) (m : Machine) :
    wp (recoveryBuffer codec env site (some bytes)) post failed m ↔
      (env.fails site = true → failed (.signalled "step signalled") m) ∧
      (env.fails site = false → post m.recovery.length (m.addRecovery (codec.decode bytes))) := by
  simp [recoveryBuffer]

/-- Nothing can be decoded from nil. -/
@[simp] theorem wp_recoveryBuffer_none (post : Nat → Machine → Prop)
    (failed : LispError → Machine → Prop) (m : Machine) :
    wp (recoveryBuffer codec env site none) post failed m ↔
      (env.fails site = true → failed (.signalled "step signalled") m) ∧
      (env.fails site = false → failed .wrongType m) := by
  simp [recoveryBuffer]

@[simp] theorem wp_eraseAndInsert (installer : Installer) (recovery : Option Nat) (bytes : Bytes)
    (post : Unit → Machine → Prop) (failed : LispError → Machine → Prop) (m : Machine) :
    wp (eraseAndInsert codec env installer recovery (some bytes)) post failed m ↔
      (env.fails .erase = true → failed (.signalled "step signalled") m) ∧
      (env.fails .erase = false →
        (env.fails .insert = true →
          failed (.signalled "step signalled") (m.erase installer recovery (some bytes))) ∧
        (env.fails .insert = false →
          post () ((m.erase installer recovery (some bytes)).edit
            (.whole (codec.decode bytes))))) := by
  simp [eraseAndInsert]

@[simp] theorem wp_eraseAndInsert_none (installer : Installer) (recovery : Option Nat)
    (post : Unit → Machine → Prop) (failed : LispError → Machine → Prop) (m : Machine) :
    wp (eraseAndInsert codec env installer recovery none) post failed m ↔
      (env.fails .erase = true → failed (.signalled "step signalled") m) ∧
      (env.fails .erase = false → failed .wrongType (m.erase installer recovery none)) := by
  simp [eraseAndInsert]

end Editor

end EmacsRelay

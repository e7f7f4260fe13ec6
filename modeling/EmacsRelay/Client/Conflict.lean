import EmacsRelay.Server.Revision

set_option autoImplicit false

/- Data and pure decisions of `lisp/relay-conflict.el`: names, snapshots, replies and
the three-way classification. -/
namespace EmacsRelay

/-- The revision plist a client holds: a token the server sent, or the missing state. -/
inductive Token where
  | missing
  | present (revision : Revision)
deriving DecidableEq, Repr

/-- `relay--parse`, where `case-fold-search` is on, as it is unless it is set: the authority and
local part of a `/relay:AUTHORITY:LOCAL` name. -/
def relayParse (filename : String) : Option (String × String) :=
  let chars := filename.toList
  -- the letters of the pattern match in either case
  if (chars.take 7).map Char.toLower = "/relay:".toList then
    let rest := chars.drop 7
    let authority := rest.takeWhile (· ≠ ':')
    match rest.dropWhile (· ≠ ':') with
    | ':' :: localPart =>
        let shape := match localPart with
          | '/' :: _ => true
          | ['~'] => true
          | '~' :: '/' :: _ => true
          | _ => false
        -- `.` in the pattern matches no newline
        if authority ≠ [] && shape && localPart.all (· ≠ '\n') then
          some (String.ofList authority, String.ofList localPart)
        else none
    | _ => none
  else none

example : relayParse "/Relay:h:/f" = some ("h", "/f") := by decide

theorem relayParse_shorter {filename authority localName : String}
    (parsed : relayParse filename = some (authority, localName)) :
    localName.toList.length < filename.toList.length := by
  unfold relayParse at parsed
  dsimp only at parsed
  split at parsed
  · split at parsed
    · rename_i localPart behind
      have named := (Option.ite_none_right_eq_some.mp parsed).2
      have suffix : ':' :: localPart <:+ filename.toList.drop 7 := by
        rw [← behind]
        exact List.dropWhile_suffix _
      have shorter := (suffix.trans (List.drop_suffix 7 _)).length_le
      cases named
      rw [String.toList_ofList]
      exact shorter
    · cases parsed
  · cases parsed

/-- `relay--wrap`. -/
def relayWrap (authority localName : String) : String :=
  "/relay:" ++ authority ++ ":" ++ localName

structure Identity where
  filename : String
  authority : String
  path : String
deriving DecidableEq, Repr

/-- The only coding system the client records. -/
inductive Coding where
  | utf8
deriving DecidableEq, Repr

/-- BASE, the last known good snapshot. -/
structure Base where
  bytes : Option Bytes
  revision : Token
  coding : Coding
deriving DecidableEq, Repr

/-- REMOTE, as read back from the server or standing for a deleted file. -/
structure Remote where
  bytes : Bytes
  revision : Token
  deleted : Bool
deriving DecidableEq, Repr

inductive Classification where
  | convergent (revision : Token)
  | unchanged
  | remoteOnly
  | localOnly
  | divergent
deriving DecidableEq, Repr

/-- The `:reason` of a conflict state or of a result. -/
inductive Reason where
  | kind (kind : ConflictKind)
  | transport
  | liveChanged
  | serverError
  | clientError
  | conflictRead
  | missingBase
  | remoteMatchesLocal
  | remoteMatchesBase
  | thirdVersion
deriving DecidableEq, Repr

/-- The `:status` a retained state may carry; a plain conflict snapshot has none. -/
inductive StateStatus where
  | retry
  | uncertain
deriving DecidableEq, Repr

/-- `relay-conflict--state`. Buffers are named by their index in the order of creation.
`owner` is the identity the snapshot was taken for; the client keeps no such record and
no function reads it. -/
structure ConflictState where
  status : Option StateStatus := none
  reason : Reason
  base : Option Base
  localBytes : Option Bytes
  remote : Option Remote := none
  classification : Option Classification := none
  revision : Option Token := none
  error : Option String := none
  localRecovery : Option Nat := none
  remoteRecovery : Option Nat := none
  mergeRecovery : Option Nat := none
  owner : Option Identity := none
deriving DecidableEq, Repr

inductive Choice where
  | keepLocal
  | keepRemote
  | restoreBase
  | merge
  | saveAs
  | cancel
deriving DecidableEq, Repr

inductive WriteReply where
  | ok (revision : Token)
  | transport (error : Option String)
  | refused (code : Option ErrorCode) (conflict : Option ConflictKind) (error : Option String)
deriving DecidableEq, Repr

inductive ReadReply where
  | ok (bytes : Bytes) (revision : Token)
  | failed (error : Option String)
deriving DecidableEq, Repr

/-- Verdict of a read made after an ambiguous write. -/
inductive Verdict where
  | saved
  | retry
  | conflict
deriving DecidableEq, Repr

structure Outcome where
  status : Verdict
  reason : Reason
  revision : Token
  error : Option String
deriving DecidableEq, Repr

namespace RelayConflict

/-- `relay-conflict--file-identity`. -/
def fileIdentity (filename : Option String) : Option Identity :=
  filename.bind fun name =>
    (relayParse name).map fun parsed => ⟨name, parsed.1, parsed.2⟩

/-- The `:identity` of `relay-conflict--prepare-rpc`. PATH, or else the path of the identity itself,
is parsed again: where it is a Relay name, that name is the target and must be on the same
authority. -/
def rpcTarget (identity : Identity) (path : Option String) : Option Identity :=
  match relayParse (path.getD identity.path) with
  | none =>
      let target := path.getD identity.path
      some ⟨relayWrap identity.authority target, identity.authority, target⟩
  | some (authority, localName) =>
      if authority = identity.authority then
        some ⟨relayWrap identity.authority localName, identity.authority, localName⟩
      else none

/-- `relay-conflict--classify`. BASE and LOCAL may be nil, REMOTE never is. -/
def classify (base localBytes : Option Bytes) (remote : Bytes) (remoteRevision : Option Token) :
    Classification :=
  if localBytes = some remote then
    match remoteRevision with
    | some revision => .convergent revision
    | none => .unchanged
  else if localBytes = base then .remoteOnly
  else if some remote = base then .localOnly
  else .divergent

/-- Choices of `relay-conflict--menu-state`. -/
def menuChoices (reason : Option Reason) : List Choice :=
  if reason = some (.kind .typeChanged) then [.saveAs, .cancel]
  else [.keepLocal, .keepRemote, .restoreBase, .merge, .saveAs, .cancel]

/-- `relay-conflict--reply-reason`. -/
def replyReason : WriteReply → Option Reason
  | .refused code conflict _ =>
      match conflict with
      | some kind => some (.kind kind)
      | none =>
          if code = some .unsupportedFileType ∨ code = some .unsupportedEncoding ∨
              code = some .fileTooLarge then some (.kind .typeChanged)
          else none
  | _ => none

/-- `relay-conflict--reconcile-uncertain`. -/
def reconcileUncertain (base localBytes : Option Bytes) (remote : Bytes) (revision : Token) :
    Outcome :=
  if localBytes = some remote then ⟨.saved, .remoteMatchesLocal, revision, none⟩
  else if base = some remote then
    ⟨.retry, .remoteMatchesBase, revision,
      some "Remote still equals BASE; retry explicitly when ready"⟩
  else ⟨.conflict, .thirdVersion, revision, none⟩

section Target

variable {identity target : Identity} {path : Option String}

theorem rpcTarget_cases (sent : rpcTarget identity path = some target) :
    (relayParse (path.getD identity.path) = none ∧
      (target.authority, target.path) = (identity.authority, path.getD identity.path)) ∨
    ∃ localName, relayParse (path.getD identity.path) = some (identity.authority, localName) ∧
      (target.authority, target.path) = (identity.authority, localName) := by
  unfold rpcTarget at sent
  cases parsed : relayParse (path.getD identity.path) with
  | none =>
      simp only [parsed] at sent
      cases sent
      exact .inl ⟨rfl, rfl⟩
  | some named =>
      obtain ⟨authority, localName⟩ := named
      simp only [parsed] at sent
      split at sent
      · rename_i own
        cases sent
        exact .inr ⟨localName, by rw [own], rfl⟩
      · cases sent

/-- A request that cannot be made is for a file of another authority. -/
theorem rpcTarget_none (unsent : rpcTarget identity path = none) :
    ∃ authority localName, relayParse (path.getD identity.path) = some (authority, localName) ∧
      authority ≠ identity.authority := by
  unfold rpcTarget at unsent
  cases parsed : relayParse (path.getD identity.path) with
  | none =>
      simp only [parsed] at unsent
      cases unsent
  | some named =>
      obtain ⟨authority, localName⟩ := named
      simp only [parsed] at unsent
      split at unsent
      · cases unsent
      · rename_i other
        exact ⟨authority, localName, rfl, other⟩

/-- Requests for the file go to the file: its path is not a Relay name of its own authority. -/
def Direct (identity : Identity) : Prop :=
  ∀ localName, relayParse identity.path ≠ some (identity.authority, localName)

theorem direct_of_unparsed (unparsed : relayParse identity.path = none) : Direct identity := by
  intro localName parsed
  rw [unparsed] at parsed
  cases parsed

theorem rpcTarget_direct (direct : Direct identity) (sent : rpcTarget identity none = some target) :
    (target.authority, target.path) = (identity.authority, identity.path) := by
  obtain ⟨_, same⟩ | ⟨localName, parsed, _⟩ := rpcTarget_cases sent
  · exact same
  · exact absurd parsed (direct localName)

end Target

/-- REMOTE standing for a path the server reported deleted. -/
def deletedRemote : Remote := ⟨[], .missing, true⟩

theorem classify_convergent {base localBytes : Option Bytes} {remote : Bytes}
    {remoteRevision : Option Token} {revision : Token}
    (convergent : classify base localBytes remote remoteRevision = .convergent revision) :
    localBytes = some remote ∧ remoteRevision = some revision := by
  unfold classify at convergent
  split at convergent
  · rename_i same
    cases remoteRevision with
    | none => cases convergent
    | some token => exact ⟨same, congrArg some (Classification.convergent.inj convergent)⟩
  · split at convergent
    · cases convergent
    · split at convergent <;> cases convergent

theorem classify_same (base : Option Bytes) (remote : Bytes) (revision : Token) :
    classify base (some remote) remote (some revision) = .convergent revision := by
  simp [classify]

theorem reconcileUncertain_saved {base localBytes : Option Bytes} {remote : Bytes}
    {revision : Token}
    (saved : (reconcileUncertain base localBytes remote revision).status = .saved) :
    localBytes = some remote := by
  unfold reconcileUncertain at saved
  split at saved
  · assumption
  · split at saved <;> cases saved

theorem reconcileUncertain_retry {base localBytes : Option Bytes} {remote : Bytes}
    {revision : Token}
    (retry : (reconcileUncertain base localBytes remote revision).status = .retry) :
    base = some remote := by
  unfold reconcileUncertain at retry
  split at retry
  · cases retry
  · split at retry
    · assumption
    · cases retry

end RelayConflict

end EmacsRelay

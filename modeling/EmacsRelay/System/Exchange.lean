import EmacsRelay.Client.HeldRun
import EmacsRelay.Server.Disturbed
import EmacsRelay.Server.Fault
import EmacsRelay.Server.Request
import EmacsRelay.System.Precondition

set_option autoImplicit false

/- One request of the client: the message that it is sent as, what a thread of the server does with
it, and the reply as the client takes it. -/
namespace EmacsRelay

open Trial (wp_bind)
open FsHandlers (handleWrite requestPath)

namespace Request

def authority : Request → String
  | .read authority _ => authority
  | .write authority _ _ _ => authority

def path : Request → String
  | .read _ path => path
  | .write _ path _ _ => path

def op : Request → String
  | .read _ _ => "read"
  | .write _ _ _ _ => "write"

/-- The file that the server takes the path for. -/
def location (r : Reader) (request : Request) : Path :=
  r.locate (Server.expandHome r.home request.path)

end Request

/-- The plist of a token, which is nil where there is none. -/
def tokenDatum : Option Token → Datum
  | none => .nil
  | some .missing => missingToken
  | some (.present revision) => storedToken revision

def Token.expected : Token → ExpectedRevision
  | .missing => .missing
  | .present revision => .present revision

namespace Request

/-- What `relay-conflict--prepare-rpc` is given. -/
def arguments : Request → List (String × Datum)
  | .read _ _ => []
  | .write _ _ bytes expected => writeArguments bytes (tokenDatum expected) .visited false false

def message (id : Nat) (request : Request) : Option Json :=
  requestMessage id request.op (("path", .str request.path) :: wireArguments request.arguments)

end Request

/-- The reply to a write. An `ok` without a revision answers none that has a precondition. -/
def FsReply.toClient : FsReply → Option WriteReply
  | .revision written => some (.ok (.present written))
  | .refused reason => some (.refused (some reason.code) reason.conflictKind (some reason.readable))
  | .failed message => some (.refused none none (some message))
  | .ok => none

/-- The reply to a read. -/
def readReply : Except RevisionError RevisionRead → ReadReply
  | .ok read => .ok read.bytes (.present read.revision)
  | .error reason => .failed (some reason.readable)

/-- What a thread of the server does with a message, and the reply. -/
def Request.served (r : Reader) (process : Process) (req : Json) :
    Request → Program Call Answer (Option AnyReply)
  | .read _ _ =>
      Program.bind (readWithRevision (requestPath r req)) fun read =>
        .done (some (.inr (readReply read)))
  | .write _ _ _ _ =>
      Program.bind (handleWrite r process req) fun reply => .done (reply.toClient.map .inl)

def Request.handled (r : Reader) (process : Process) (id : Nat) (request : Request) :
    Program Call Answer (Option AnyReply) :=
  match request.message id with
  | some req => request.served r process req
  | none => .done none

/-- The decoder takes back what the client encodes. -/
def Reader.Decodes (r : Reader) : Prop :=
  ∀ bytes, r.decode (.ofList (base64Encode bytes)) = .ok bytes

section Wire

variable {r : Reader} {process : Process} {id : Nat}

/-- A revision is read back as itself, if at all. -/
theorem fromValue_toValue_eq {revision other : Revision}
    (read : Revision.fromValue revision.toValue = .ok other) : other = revision := by
  have own := Revision.get_iff.mp fun name (_ : name ∈ Revision.fieldNames) =>
    (rfl : revision.toValue.get name = revision.toValue.get name)
  have fields := Revision.get_iff.mp (Revision.fromValue_ok.mp read).2.1
  simp only [own, Option.some.injEq, Json.int.injEq, Json.str.injEq, Int.natCast_inj] at fields
  cases revision with
  | mk _ state kind _ _ _ _ _ _ _ _ _ =>
      cases other with
      | mk _ state' kind' _ _ _ _ _ _ _ _ _ =>
          cases state
          cases state'
          cases kind
          cases kind'
          simp_all

theorem handleWrite_accepts {req : Json} {expected : ExpectedRevision} {encoded : String}
    {bytes : Bytes} (stated : expectedRevisionFromRequest req = .ok (some expected))
    (append : FsHandlers.flag req "append" = false)
    (mustBeNew : FsHandlers.flag req "must_be_new" = false)
    (content : (req.get "bytes_b64").bind Json.asStr = some encoded)
    (decoded : r.decode encoded = .ok bytes) :
    handleWrite r process req =
      FsHandlers.finishRevision
        (conditionalWriteLocked process (requestPath r req) bytes expected) := by
  simp [handleWrite, stated, append, mustBeNew, content, decoded]

/-- A write with a token is made under the precondition that the token stands for, or refused; one
without a token is refused. -/
theorem handleWrite_message (process : Process) (decodes : r.Decodes) {authority path : String}
    {bytes : Bytes} {expected : Option Token} {req : Json}
    (sent : (Request.write authority path bytes expected).message id = some req) :
    (∃ error, handleWrite r process req = .done (.failed error)) ∨
    ∃ token, expected = some token ∧ handleWrite r process req =
      FsHandlers.finishRevision (conditionalWriteLocked process
        ((Request.write authority path bytes expected).location r) bytes token.expected) := by
  have refused : ∀ error, expectedRevisionFromRequest req = .error error →
      handleWrite r process req = .done (.failed error) := by
    intro error stated
    simp [handleWrite, stated]
  unfold Request.message at sent
  cases expected with
  | none =>
      have same := (requestMessage_expecting rfl (rfl : Datum.nil.serialize = some (.obj [])) bytes id
        path).symm.trans sent
      cases same
      exact .inl ⟨_, refused _ (expectedRevision_expecting _ _ _ _)⟩
  | some token =>
      cases token with
      | missing =>
          have same := (requestMessage_missing bytes id path).symm.trans sent
          cases same
          exact .inr ⟨_, rfl,
            handleWrite_accepts (expectedRevision_missing _ _ _) rfl rfl rfl (decodes bytes)⟩
      | present revision =>
          have same := (requestMessage_expecting revisionMissingP_storedToken
            serialize_storedToken bytes id path).symm.trans sent
          cases same
          have stated := expectedRevision_expecting bytes id path revision.toValue
          cases read : Revision.fromValue revision.toValue with
          | error error =>
              rw [read] at stated
              exact .inl ⟨_, refused _ stated⟩
          | ok other =>
              rw [read, fromValue_toValue_eq read] at stated
              exact .inr ⟨_, rfl, handleWrite_accepts stated rfl rfl rfl (decodes bytes)⟩

end Wire

/-- The revision is one of these bytes. -/
def Digested (bytes : Bytes) (token : Token) : Prop :=
  ∀ revision, token = .present revision → revision.sha256 = sha256 bytes

/-- The bytes that a reply vouches for come with a revision of theirs. -/
def Request.Vouched (request : Request) (reply : AnyReply) : Prop :=
  match request, reply with
  | .read _ _, .inr (.ok bytes revision) => Digested bytes revision
  | .write _ _ bytes _, .inl (.ok revision) => Digested bytes revision
  | _, _ => True

/-- A call by which a write is published. -/
def Call.Publishes : Call → Prop
  | .rename _ _ => True
  | .hardLink _ _ => True
  | _ => False

namespace Request

variable {r : Reader} {process : Process} {id : Nat} {request : Request}

/-- Whatever its calls are answered, a thread replies with digests of the bytes it vouches for. -/
theorem handled_vouched (decodes : r.Decodes) :
    Program.wp AnyHost (request.handled r process id)
      (fun reply _ => ∀ answer, reply = some answer → request.Vouched answer) () := by
  unfold handled
  cases sent : request.message id with
  | none => exact fun _ none => nomatch none
  | some req =>
      cases request with
      | read authority path =>
          apply (Program.wp_bind _ _ _ _).mpr
          apply Program.wp_mono (readWithRevision_digest _)
          rintro read t digest _ ⟨⟩
          cases read with
          | error reason => trivial
          | ok read =>
              rintro _ ⟨⟩
              exact digest
      | write authority path bytes expected =>
          apply (Program.wp_bind _ _ _ _).mpr
          rcases handleWrite_message process decodes sent with
            ⟨error, refused⟩ | ⟨token, _, written⟩
          · rw [refused]
            rintro _ ⟨⟩
            trivial
          · rw [written]
            apply (Program.wp_bind _ _ _ _).mpr
            apply Program.wp_mono (conditionalWriteLocked_digest process _ bytes token.expected)
            intro result t digest
            cases result with
            | error reason =>
                rintro _ ⟨⟩
                trivial
            | ok revision =>
                rintro _ ⟨⟩
                rintro _ ⟨⟩
                exact digest

/-- A read leaves the machine as it is. -/
theorem handled_looks (read : request.isWrite = false) :
    ∃ path, Program.wp (looking path).rule (request.handled r process id) (fun _ _ => True) () := by
  unfold handled
  cases request.message id with
  | none => exact ⟨⟨[], ""⟩, trivial⟩
  | some req =>
      cases request with
      | write authority path bytes expected => cases read
      | read authority path =>
          refine ⟨requestPath r req, (Program.wp_bind _ _ _ _).mpr ?_⟩
          apply Program.wp_mono (stays_readWithRevision (looking_indifferent (requestPath r req)))
          exact fun _ _ _ => trivial

/-- A write that may be published has a token, and is published over nothing but what the token
stands for, if the path is left alone from its flush to its publication. -/
theorem handled_checks (decodes : r.Decodes) {authority path : String} {bytes : Bytes}
    {expected : Option Token} (same : request = .write authority path bytes expected)
    (publishes : (request.handled r process id).Leads Call.Publishes) :
    ∃ token, expected = some token ∧ ∀ host,
      Program.wp (Checking process (request.location r) token.expected)
        (request.handled r process id) (fun _ _ => True) { host := host } := by
  unfold handled at publishes ⊢
  cases sent : request.message id with
  | none =>
      rw [sent] at publishes
      exact publishes.elim
  | some req =>
      rw [sent] at publishes
      subst same
      rcases handleWrite_message process decodes sent with
        ⟨error, refused⟩ | ⟨token, there, written⟩
      · simp only [served, refused] at publishes
        exact publishes.elim
      · refine ⟨token, there, fun host => (Program.wp_bind _ _ _ _).mpr ?_⟩
        rw [written]
        apply (Program.wp_bind _ _ _ _).mpr
        apply Program.wp_mono (keepsClear_conditionalWriteLocked bytes { host := host } nofun)
        intro result t _
        cases result <;> trivial

end Request

end EmacsRelay

import EmacsRelay.Server.Linear
import EmacsRelay.Server.Watched
import EmacsRelay.Server.Wire

set_option autoImplicit false

/- The write request as `handle_fs` of `server/src/fs_handlers.rs` takes it off its JSON. -/
namespace EmacsRelay

open Trial (ofExcept)

/-- What the server takes from elsewhere: the variable `HOME`, the base64 decoder, and how the
system takes a path apart. -/
structure Reader where
  home : Option String
  decode : String → Except String Bytes
  locate : String → Path

namespace FsHandlers

def textField (req : Json) (name : String) : String := ((req.get name).bind Json.asStr).getD ""

/-- A flag that is false unless it is given. -/
def flag (req : Json) (name : String) : Bool := ((req.get name).bind Json.asBool).getD false

def requestPath (r : Reader) (req : Json) : Path :=
  r.locate (Server.expandHome r.home (textField req "path"))

/-- The `"write"` arm of the second `match`. -/
def legacyWrite (r : Reader) (req : Json) : Program Call Answer FsReply :=
  finish (do
    let bytes ← ofExcept (fun e => "write decode: " ++ e) (r.decode (textField req "bytes_b64"))
    writeFile (requestPath r req) bytes (flag req "append") (flag req "must_be_new"))

/-- The `op == "write"` of `handle_fs`. -/
def handleWrite (r : Reader) (process : Process) (req : Json) : Program Call Answer FsReply :=
  match expectedRevisionFromRequest req with
  | .ok (some expected) =>
      if !flag req "append" && !flag req "must_be_new" then
        match (req.get "bytes_b64").bind Json.asStr with
        | some encoded =>
            match r.decode encoded with
            | .ok bytes =>
                finishRevision (conditionalWriteLocked process (requestPath r req) bytes expected)
            | .error e => .done (.failed ("write decode: " ++ e))
        | none => .done (.failed "write: missing bytes_b64")
      else legacyWrite r req
  | .ok none => legacyWrite r req
  | .error e => .done (.failed e)

end FsHandlers

/-- The precondition that a request states: its `expected_state`, if that is a text, comes first. -/
def States (req : Json) (expected : ExpectedRevision) : Prop :=
  req.get "expected_state" = some (.str "missing") ∧ expected = .missing ∨
    (∀ state, req.get "expected_state" ≠ some (.str state)) ∧ ∃ value revision,
      req.get "expected_revision" = some value ∧ Revision.fromValue value = .ok revision ∧
        expected = .present revision

def FsReply.isError : FsReply → Bool
  | .refused _ => true
  | .failed _ => true
  | _ => false

/-- A write has gone through because the stated precondition held, or it is refused. -/
def Heeded (req : Json) (path : Path) (h : Host) (reply : FsReply) (h' : Host) : Prop :=
  (∃ expected bytes revision, States req expected ∧ h.disk.Meets path expected ∧
    reply = .revision revision ∧ h.disk.Replaced h'.disk path bytes revision) ∨
  reply.isError = true ∧ h.disk.SameContents h'.disk

open FsHandlers

section Preconditions

variable {r : Reader} {process : Process} {req : Json} {h h' : Host} {reply : FsReply}

theorem expectedRevision_states {expected : ExpectedRevision} :
    expectedRevisionFromRequest req = .ok (some expected) ↔ States req expected := by
  unfold expectedRevisionFromRequest States
  have given : ∀ state, (req.get "expected_state").bind Json.asStr = some state ↔
      req.get "expected_state" = some (.str state) := by
    intro state
    rw [Option.bind_eq_some_iff]
    constructor
    · intro found
      obtain ⟨value, there, text⟩ := found
      rw [there, Json.asStr_eq_some.mp text]
    · exact fun found => ⟨_, found, rfl⟩
  cases text : (req.get "expected_state").bind Json.asStr with
  | some state =>
      have there := (given state).mp text
      rw [there]
      dsimp only
      by_cases missing : state = "missing"
      · rw [if_pos missing, missing]
        simp [eq_comm]
      · rw [if_neg missing]
        have refused : ∀ result : Except String (Option ExpectedRevision),
            (if state = "present" then
              .error "write: expected_state present requires expected_revision"
            else .error ("write: invalid expected_state: " ++ state)) ≠ result ∨
              ∃ e, result = .error e := by
          intro result
          cases result with
          | error e => exact .inr ⟨e, rfl⟩
          | ok value => left; split <;> simp
        constructor
        · intro accepted
          rcases refused (.ok (some expected)) with never | ⟨e, never⟩
          · exact absurd accepted never
          · cases never
        · intro states
          rcases states with ⟨same, _⟩ | ⟨none, _⟩
          · exact absurd (Json.str.inj (Option.some.inj same)) missing
          · exact absurd rfl (none state)
  | none =>
      have none : ∀ state, req.get "expected_state" ≠ some (.str state) := by
        intro state found
        rw [(given state).mpr found] at text
        cases text
      dsimp only
      cases req.get "expected_revision" with
      | none => simp [none]
      | some value =>
          dsimp only
          cases read : Revision.fromValue value with
          | error e => simp [none, read]
          | ok revision => simp [none, read, eq_comm]

/-- A precondition is found in a request with a text for a state, or with a revision. -/
theorem expectedRevision_stated
    (stated : (∃ state, req.get "expected_state" = some (.str state)) ∨
      req.get "expected_revision" ≠ none) : expectedRevisionFromRequest req ≠ .ok none := by
  unfold expectedRevisionFromRequest
  cases text : (req.get "expected_state").bind Json.asStr with
  | some state =>
      dsimp only
      split
      · simp
      · split <;> simp
  | none =>
      have there : req.get "expected_revision" ≠ none := by
        rcases stated with ⟨state, found⟩ | there
        · rw [found] at text
          cases text
        · exact there
      obtain ⟨value, found⟩ := Option.ne_none_iff_exists'.mp there
      rw [found]
      dsimp only
      split <;> simp

theorem same_of_done {reply' : FsReply}
    (run : Program.Executes (Host.kernel process) (.done reply') h reply h') :
    reply = reply' ∧ h' = h := by
  let ended (final : FsReply) (t : Host) : Prop := final = reply' ∧ t = h
  have holds : Program.wp (Host.kernel process).rule (.done reply') ended h := ⟨rfl, rfl⟩
  have last : ended reply h' := Program.wp_executes holds run
  exact last

theorem heeded_of_done {reply' : FsReply} {path : Path} (refusal : reply'.isError = true)
    (run : Program.Executes (Host.kernel process) (.done reply') h reply h') :
    Heeded req path h reply h' := by
  obtain ⟨same, unchanged⟩ := same_of_done run
  rw [same, unchanged]
  exact .inr ⟨refusal, .refl _⟩

theorem heeded_of_conditional {expected : ExpectedRevision} {path : Path} {bytes : Bytes}
    (states : States req expected)
    (run : Program.Executes (Host.kernel process)
      (finishRevision (conditionalWriteLocked process path bytes expected)) h reply h') :
    Heeded req path h reply h' := by
  rcases atomic_conditionalWrite run with ⟨revision, same, accepts, replaced⟩ | ⟨reason, same, _, kept⟩
  · exact .inl ⟨expected, bytes, revision, states, accepts.meets, same, replaced⟩
  · rw [same]
    exact .inr ⟨rfl, kept⟩

end Preconditions

/-- Of the write requests that state a precondition as a text or as a revision, those that replace
the file heed it. Those that append, or that must make the file, are refused if the precondition
cannot be read; else they are handled as they are without it. -/
theorem stated_precondition_heeded (r : Reader) (process : Process) (req : Json)
    (stated : (∃ state, req.get "expected_state" = some (.str state)) ∨
      req.get "expected_revision" ≠ none) (h h' : Host) (reply : FsReply)
    (run : Program.Executes (Host.kernel process) (handleWrite r process req) h reply h') :
    (flag req "append" = false → flag req "must_be_new" = false →
      Heeded req (requestPath r req) h reply h') ∧
    (flag req "append" = true ∨ flag req "must_be_new" = true →
      (∀ expected, ¬ States req expected) ∧ reply.isError = true ∧ h' = h ∨
      (∃ expected, States req expected) ∧
        Program.Executes (Host.kernel process) (legacyWrite r req) h reply h') := by
  unfold handleWrite at run
  cases parsed : expectedRevisionFromRequest req with
  | error e =>
      rw [parsed] at run
      have same := same_of_done run
      refine ⟨fun _ _ => heeded_of_done rfl run, fun _ => .inl ⟨?_, ?_, same.2⟩⟩
      · intro expected states
        rw [expectedRevision_states.mpr states] at parsed
        cases parsed
      · rw [same.1]
        rfl
  | ok found =>
      cases found with
      | none => exact absurd parsed (expectedRevision_stated stated)
      | some expected =>
          have states := expectedRevision_states.mp parsed
          rw [parsed] at run
          dsimp only at run
          constructor
          · intro append mustBeNew
            rw [append, mustBeNew, if_pos (show (!false && !false) = true from rfl)] at run
            cases content : (req.get "bytes_b64").bind Json.asStr with
            | none =>
                rw [content] at run
                exact heeded_of_done rfl run
            | some encoded =>
                rw [content] at run
                dsimp only at run
                cases decoded : r.decode encoded with
                | error e =>
                    rw [decoded] at run
                    exact heeded_of_done rfl run
                | ok bytes =>
                    rw [decoded] at run
                    exact heeded_of_conditional states run
          · intro flagged
            have legacy : ¬ (!flag req "append" && !flag req "must_be_new") = true := by
              rcases flagged with append | mustBeNew
              · simp [append]
              · simp [mustBeNew]
            rw [if_neg legacy] at run
            exact .inr ⟨⟨expected, states⟩, run⟩

/-- `f` is read as a path, and `Yg==` as one byte. -/
def sampleReader : Reader where
  home := none
  decode text := if text = "Yg==" then .ok [98] else .error "Invalid padding"
  locate _ := ⟨[], "f"⟩

def missingWrite (append : Bool) : Json :=
  .obj [("op", .str "write"), ("path", .str "/f"), ("bytes_b64", .str "Yg=="),
    ("expected_state", .str "missing"), ("append", .bool append)]

theorem stated_precondition_heeded_appeared :
    ∃ reply h', Program.Executes (Host.kernel sampleProcess)
        (handleWrite sampleReader sampleProcess (missingWrite false)) sampleHost reply h' ∧
      Heeded (missingWrite false) ⟨[], "f"⟩ sampleHost reply h' := by
  have permitted : Program.Permits (Host.kernel sampleProcess) (List.replicate 7 sampleChoice)
      (handleWrite sampleReader sampleProcess (missingWrite false)) sampleHost :=
    ⟨trivial, trivial, trivial, trivial, trivial, trivial, trivial, trivial⟩
  have run := Program.executes_of_advance permitted rfl
  exact ⟨_, _, run, (stated_precondition_heeded sampleReader sampleProcess (missingWrite false)
    (.inl ⟨"missing", rfl⟩) sampleHost _ _ run).1 rfl rfl⟩

/-- A byte is added to a file that the request states to be missing. -/
theorem stated_precondition_set_aside :
    ¬ ∀ (r : Reader) (process : Process) (req : Json),
      req.get "expected_state" ≠ none ∨ req.get "expected_revision" ≠ none →
      ∀ (h h' : Host) (reply : FsReply),
        Program.Executes (Host.kernel process) (handleWrite r process req) h reply h' →
        Heeded req (requestPath r req) h reply h' := by
  intro heeded
  have permitted : Program.Permits (Host.kernel sampleProcess) (List.replicate 2 sampleChoice)
      (handleWrite sampleReader sampleProcess (missingWrite true)) sampleHost :=
    ⟨fun slot _ => sampleDisk_free (by decide), trivial, trivial⟩
  have run := Program.executes_of_advance permitted rfl
  have stated : (missingWrite true).get "expected_state" ≠ none := by simp [missingWrite, Json.get]
  rcases heeded _ _ _ (.inl stated) _ _ _ run with ⟨_, _, _, _, _, same, _⟩ | ⟨refusal, _⟩
  · cases same
  · cases refusal

end EmacsRelay

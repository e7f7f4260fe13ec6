import EmacsRelay.Core.Exec
import EmacsRelay.Server.Outcome
import EmacsRelay.System.Conversation
import EmacsRelay.System.Fitting

set_option autoImplicit false

/- `relay-exec-raw` of `lisp/relay-exec.el` and `exec` of the server: the command that is run is the one
that was called, and what the client returns is what the command has written, unless it has ceased to
wait for it. -/
namespace EmacsRelay

open Json (keySize size_obj)
open RelayCore (CaseTable MatchesAbort Signal errorMessageString requestSignal)
open Server (ExecCommand Excuse Handles execCommand execOutputLimit execValue expandHome maxFrameBytes
  requestId requestOp)

namespace RelayExec

/-- `stringp`. -/
def isString : Datum → Bool
  | .str _ => true
  | .bytes _ => true
  | _ => false

/-- `relay--exec-validate-command`, with the printer of `%S`; a property list has symbols in it. -/
def validateCommand (printed : Datum → String) (command : Datum) : Except String (List Datum) :=
  match command with
  | .nil => .error "relay-exec-raw: COMMAND must not be empty"
  | .list [] => .error "relay-exec-raw: COMMAND must not be empty"
  | .plist [] => .error "relay-exec-raw: COMMAND must not be empty"
  | .list items =>
      if items.all isString then .ok items
      else .error ("relay-exec-raw: COMMAND must be a list of strings, got " ++ printed command)
  | _ => .error ("relay-exec-raw: COMMAND must be a list of strings, got " ++ printed command)

/-- The check of `cwd` in `relay--exec-validate-options`. -/
def validateCwd (printed : Datum → String) (cwd : Datum) : Except String Unit :=
  match cwd with
  | .nil => .ok ()
  | cwd =>
      if isString cwd then .ok ()
      else .error ("relay-exec-raw: CWD must be a string, got " ++ printed cwd)

def validateTimeout (printed : Datum → String) (timeoutMs : Datum) : Except String Unit :=
  match timeoutMs with
  | .nil => .ok ()
  | .int n =>
      if 0 < n then .ok ()
      else .error ("relay-exec-raw: TIMEOUT-MS must be a positive integer, got " ++ printed timeoutMs)
  | _ => .error ("relay-exec-raw: TIMEOUT-MS must be a positive integer, got " ++ printed timeoutMs)

/-- `relay--exec-validate-options`. -/
def validateOptions (printed : Datum → String) (cwd timeoutMs : Datum) : Except String Unit := do
  validateCwd printed cwd
  validateTimeout printed timeoutMs

/-- A property of the request, which is left out where it is nil. -/
def option (name : String) (value : Datum) : Option (List (String × Json)) :=
  match value with
  | .nil => some []
  | value => value.serialize.map fun value => [(name, value)]

/-- The message of the request: the command is sent as a vector. Raw bytes are no JSON. -/
def message (id : Nat) (command : List Datum) (cwd timeoutMs : Datum) : Option Json := do
  let items ← command.mapM Datum.serialize
  let cwd ← option "cwd" cwd
  let timeoutMs ← option "timeout_ms" timeoutMs
  some (.obj ([("id", .int id), ("op", .str "exec"), ("command", .arr items)] ++ cwd ++ timeoutMs))

/-- The checks, and the message that is sent. -/
def call (printed : Datum → String) (id : Nat) (command cwd timeoutMs : Datum) :
    Except String (Option Json) := do
  let items ← validateCommand printed command
  validateOptions printed cwd timeoutMs
  pure (message id items cwd timeoutMs)

/-- How the wait of `relay--request` ends: with the server's message, with the error that
`relay--transport-error` finds, at its deadline, or by a quit; or it cannot be sent. -/
inductive Ending where
  | reply (m : Json)
  | transport (error : String)
  | deadline
  | quit
  | unsent (text : String)

namespace Ending

/-- What `relay--request` signals. -/
def signal : Ending → Option Signal
  | .reply m => requestSignal "" (.reply (some (.message (messageOf m))))
  | .transport error => requestSignal "" (.reply (some (.transport error)))
  | .deadline => requestSignal "" .timedOut
  | .quit => some .quit
  | .unsent text => requestSignal text .unsent

/-- What `relay--request` returns, if it does not signal. -/
def value : Ending → Datum
  | .reply m => m.parse
  | _ => .nil

/-- `relay-exec-raw` closes the connection before it signals again. -/
def Aborts (table : CaseTable) (ending : Ending) : Prop :=
  ∃ signal, ending.signal = some signal ∧
    (signal = .quit ∨ MatchesAbort table (errorMessageString signal))

end Ending

/-- `relay-request-timeout` as `relay-exec-raw` binds it, in milliseconds. -/
def requestTimeout (configured : Nat) (timeoutMs : Datum) : Nat :=
  match timeoutMs with
  | .int n => 2000 + n.toNat
  | _ => max configured 32000

/-- The plist that is returned, or what is signalled. -/
inductive Outcome where
  | returned (exitCode : Datum) (stdout stderr : Option Bytes)
  | signalled (signal : Signal)

/-- `base64-decode-string` of what is there, or of nothing. -/
def decoded : Datum → Option Bytes
  | .nil => base64Decode []
  | .str encoded => base64Decode encoded.toList
  | _ => none

/-- `relay-exec-raw`, once its request has been made. -/
def outcome (ending : Ending) : Outcome :=
  match ending.signal with
  | some signal => .signalled signal
  | none =>
      let reply := ending.value
      .returned (reply.get "exit_code") (decoded (reply.get "stdout_b64"))
        (decoded (reply.get "stderr_b64"))

/-- A call as the server should understand it. -/
structure Asked where
  argv : List String
  cwd : Option String
  timeoutMs : Option Nat

/-- What is run for it. -/
def Asked.command (home : Option String) (asked : Asked) : ExecCommand :=
  ⟨asked.argv, asked.cwd.map (expandHome home), asked.timeoutMs.getD Server.defaultExecTimeoutMs⟩

/-- The arguments of a call that is accepted and can be sent. -/
structure Accepted (asked : Asked) (command cwd timeoutMs : Datum) : Prop where
  command : command = .list (asked.argv.map .str)
  some_word : asked.argv ≠ []
  cwd : cwd = asked.cwd.elim .nil .str
  timeoutMs : timeoutMs = asked.timeoutMs.elim .nil fun n => .int n
  positive : ∀ n, asked.timeoutMs = some n → 0 < n

section Calls

variable {printed : Datum → String} {id : Nat} {command cwd timeoutMs : Datum}

theorem mapM_serialize {items : List Datum} {values : List Json} (strings : items.all isString = true)
    (sent : items.mapM Datum.serialize = some values) :
    ∃ argv : List String, items = argv.map .str ∧ values = argv.map .str := by
  induction items generalizing values with
  | nil =>
      cases sent
      exact ⟨[], rfl, rfl⟩
  | cons item items ih =>
      rw [List.all_cons, Bool.and_eq_true] at strings
      rw [List.mapM_cons] at sent
      cases item with
      | str text =>
          cases others : items.mapM Datum.serialize with
          | none =>
              rw [others] at sent
              cases sent
          | some rest =>
              rw [others] at sent
              cases sent
              obtain ⟨argv, rfl, rfl⟩ := ih strings.2 others
              exact ⟨text :: argv, rfl, rfl⟩
      | bytes raw => cases sent
      | _ => cases strings.1

theorem validateCommand_ok {items : List Datum} (valid : validateCommand printed command = .ok items) :
    command = .list items ∧ items ≠ [] ∧ items.all isString = true := by
  unfold validateCommand at valid
  split at valid
  · cases valid
  · cases valid
  · cases valid
  · rename_i given some_item
    split at valid
    · rename_i strings
      cases valid
      exact ⟨rfl, fun none => some_item (none ▸ rfl), strings⟩
    · cases valid
  · cases valid

theorem option_cwd (valid : validateCwd printed cwd = .ok ()) {sent : List (String × Json)}
    (serialized : option "cwd" cwd = some sent) :
    ∃ text : Option String, cwd = text.elim .nil .str ∧
      sent = text.elim [] fun text => [("cwd", .str text)] := by
  cases cwd with
  | nil =>
      cases serialized
      exact ⟨none, rfl, rfl⟩
  | str text =>
      cases serialized
      exact ⟨some text, rfl, rfl⟩
  | bytes raw => cases serialized
  | _ => cases valid

theorem option_timeout (valid : validateTimeout printed timeoutMs = .ok ()) {sent : List (String × Json)}
    (serialized : option "timeout_ms" timeoutMs = some sent) :
    ∃ limit : Option Nat, timeoutMs = limit.elim .nil (fun n => .int n) ∧
      (∀ n, limit = some n → 0 < n) ∧ sent = limit.elim [] fun n => [("timeout_ms", .int n)] := by
  cases timeoutMs with
  | nil =>
      cases serialized
      exact ⟨none, rfl, nofun, rfl⟩
  | int n =>
      cases serialized
      unfold validateTimeout at valid
      dsimp only at valid
      split at valid
      · rename_i positive
        have natural : ((n.toNat : Nat) : Int) = n := by omega
        refine ⟨some n.toNat, ?_, ?_, ?_⟩
        · simp [natural]
        · rintro m ⟨⟩
          omega
        · simp [natural]
      · cases valid
  | _ => cases valid

/-- The message that the server should get. -/
def Asked.message (id : Nat) (asked : Asked) : Json :=
  .obj ([("id", .int id), ("op", .str "exec"), ("command", .arr (asked.argv.map .str))] ++
    (asked.cwd.elim [] fun text => [("cwd", .str text)]) ++
    asked.timeoutMs.elim [] fun n => [("timeout_ms", .int n)])

theorem call_sent {req : Json} (sent : call printed id command cwd timeoutMs = .ok (some req)) :
    ∃ asked, Accepted asked command cwd timeoutMs ∧ req = asked.message id := by
  unfold call at sent
  cases first : validateCommand printed command with
  | error error =>
      rw [first] at sent
      cases sent
  | ok items =>
      rw [first] at sent
      obtain ⟨rfl, some_item, strings⟩ := validateCommand_ok first
      cases place : validateCwd printed cwd with
      | error error =>
          simp only [validateOptions, place] at sent
          cases sent
      | ok _ =>
          cases limit : validateTimeout printed timeoutMs with
          | error error =>
              simp only [validateOptions, place, limit] at sent
              cases sent
          | ok _ =>
              simp only [validateOptions, place, limit] at sent
              have made : message id items cwd timeoutMs = some req := Except.ok.inj sent
              unfold message at made
              obtain ⟨values, words, made⟩ := Option.bind_eq_some_iff.mp made
              obtain ⟨there, where_sent, made⟩ := Option.bind_eq_some_iff.mp made
              obtain ⟨bound, bound_sent, made⟩ := Option.bind_eq_some_iff.mp made
              obtain ⟨argv, rfl, rfl⟩ := mapM_serialize strings words
              obtain ⟨text, same_cwd, rfl⟩ := option_cwd place where_sent
              obtain ⟨n, same_limit, positive, rfl⟩ := option_timeout limit bound_sent
              have nonempty : argv ≠ [] := fun none => some_item (by rw [none]; rfl)
              exact ⟨⟨argv, text, n⟩, ⟨rfl, nonempty, same_cwd, same_limit, positive⟩,
                (Option.some.inj made).symm⟩

/-- The fields of the message. -/
theorem get_message (asked : Asked) (name : String) :
    (asked.message id).get name =
      if name = "id" then some (.int id)
      else if name = "op" then some (.str "exec")
      else if name = "command" then some (.arr (asked.argv.map .str))
      else if name = "cwd" then asked.cwd.map .str
      else if name = "timeout_ms" then asked.timeoutMs.map fun n : Nat => Json.int n
      else none := by
  obtain ⟨argv, text, limit⟩ := asked
  have field : ∀ fields, (Json.obj fields).get name = fields.lookup name := fun _ => rfl
  unfold Asked.message
  rw [field]
  by_cases place : name = "cwd"
  · cases text <;> cases limit <;> simp [Server.lookup_cons_eq, place]
  · cases text <;> cases limit <;> simp [Server.lookup_cons_eq, place]

theorem mapM_asStr (argv : List String) : (argv.map Json.str).mapM Json.asStr = some argv := by
  induction argv with
  | nil => rfl
  | cons text argv ih =>
      rw [List.map_cons, List.mapM_cons, ih]
      rfl

theorem asU64_natCast (n : Nat) : (Json.int n).asU64 = if n < 2 ^ 64 then some n else none := by
  split
  · rename_i small
    exact Json.asU64_eq_some.mpr ⟨rfl, small⟩
  · rename_i large
    rw [Option.eq_none_iff_forall_not_mem]
    intro m member
    obtain ⟨same, small⟩ := Json.asU64_eq_some.mp member
    have equal := Json.int.inj same
    omega

/-- A limit that is no number of 64 bits is refused. -/
def Asked.InRange (asked : Asked) : Prop := ∀ n, asked.timeoutMs = some n → n < 2 ^ 64

section Server

variable {home : Option String} {req word : Json} {others : List Json} {argv : List String}

theorem execCommand_unlimited (words : (req.get "command").bind Server.asArray = some (word :: others))
    (strings : (word :: others).mapM Json.asStr = some argv) (limit : req.get "timeout_ms" = none)
    {text : Option String} (place : req.get "cwd" = text.map .str) :
    execCommand home req = .ok ⟨argv, text.map (expandHome home), Server.defaultExecTimeoutMs⟩ := by
  unfold execCommand
  rw [words, limit, place]
  dsimp only
  rw [strings]
  cases text <;> rfl

theorem execCommand_limited (words : (req.get "command").bind Server.asArray = some (word :: others))
    (strings : (word :: others).mapM Json.asStr = some argv) {value : Json}
    (limit : req.get "timeout_ms" = some value) {n : Nat} (number : value.asU64.filter (0 < ·) = some n)
    {text : Option String} (place : req.get "cwd" = text.map .str) :
    execCommand home req = .ok ⟨argv, text.map (expandHome home), n⟩ := by
  unfold execCommand
  rw [words, limit, place]
  dsimp only
  rw [strings, number]
  cases text <;> rfl

theorem execCommand_refused (words : (req.get "command").bind Server.asArray = some (word :: others))
    (strings : (word :: others).mapM Json.asStr = some argv) {value : Json}
    (limit : req.get "timeout_ms" = some value) (number : value.asU64.filter (0 < ·) = none) :
    execCommand home req = .error "exec: \"timeout_ms\" must be a positive integer" := by
  unfold execCommand
  rw [words, limit]
  dsimp only
  rw [strings, number]

end Server

/-- What the server finds in the message, the limit apart. -/
theorem words_message (id : Nat) {asked : Asked} (some_word : asked.argv ≠ []) :
    ∃ word others, ((asked.message id).get "command").bind Server.asArray = some (word :: others) ∧
      (word :: others).mapM Json.asStr = some asked.argv := by
  have words : ((asked.message id).get "command").bind Server.asArray =
      some (asked.argv.map .str) := by
    rw [get_message]
    rfl
  have strings := mapM_asStr asked.argv
  obtain ⟨word, others, parts⟩ := List.exists_cons_of_ne_nil some_word
  rw [parts, List.map_cons] at words strings
  exact ⟨_, _, words, by rw [strings, parts]⟩

theorem cwd_message (asked : Asked) : (asked.message id).get "cwd" = asked.cwd.map .str := by
  rw [get_message]
  rfl

theorem timeout_message (id : Nat) (asked : Asked) :
    (asked.message id).get "timeout_ms" = asked.timeoutMs.map fun n : Nat => Json.int n := by
  rw [get_message]
  rfl

theorem execCommand_inRange (home : Option String) {asked : Asked} (some_word : asked.argv ≠ [])
    (positive : ∀ n, asked.timeoutMs = some n → 0 < n) (inRange : asked.InRange) :
    execCommand home (asked.message id) = .ok (asked.command home) := by
  obtain ⟨word, others, words, strings⟩ := words_message id some_word
  have limit := timeout_message id asked
  cases bound : asked.timeoutMs with
  | none =>
      rw [bound] at limit
      rw [execCommand_unlimited words strings limit (cwd_message asked), Asked.command, bound]
      rfl
  | some n =>
      have above := positive n bound
      have number : (Json.int (n : Int)).asU64.filter (0 < ·) = some n := by
        rw [asU64_natCast, if_pos (inRange n bound)]
        exact Option.filter_some_pos (decide_eq_true above)
      rw [bound] at limit
      rw [execCommand_limited words strings limit number (cwd_message asked), Asked.command, bound]
      rfl

theorem execCommand_beyond (home : Option String) {asked : Asked} (some_word : asked.argv ≠ [])
    (beyond : ¬ asked.InRange) :
    execCommand home (asked.message id) =
      .error "exec: \"timeout_ms\" must be a positive integer" := by
  obtain ⟨word, others, words, strings⟩ := words_message id some_word
  have limit := timeout_message id asked
  cases bound : asked.timeoutMs with
  | none => exact absurd (fun n same => by rw [bound] at same; cases same) beyond
  | some n =>
      have large : ¬ n < 2 ^ 64 := by
        intro small
        apply beyond
        intro m same
        rw [bound] at same
        cases same
        exact small
      have number : (Json.int (n : Int)).asU64.filter (0 < ·) = none := by
        rw [asU64_natCast, if_neg large]
        rfl
      rw [bound] at limit
      exact execCommand_refused words strings limit number

theorem requestOp_message (asked : Asked) : requestOp (asked.message id) = "exec" := by
  have op : (asked.message id).get "op" = some (.str "exec") := by
    rw [get_message]
    rfl
  rw [requestOp, op]
  rfl

theorem requestId_message (asked : Asked) (small : id < 9223372036854775808) :
    requestId (asked.message id) = id := by
  have named : (asked.message id).get "id" = some (.int id) := by
    rw [get_message]
    rfl
  have number : (Json.int (id : Int)).asI64 = some (id : Int) :=
    Json.asI64_eq_some.mpr ⟨rfl, by omega, by omega⟩
  rw [requestId, named, Option.bind_some, number]
  rfl

end Calls

section Replies

variable {id : Int} {told : String → Prop}

/-- The reply to a command that has exited fits a frame. -/
theorem value_single (ranged : (Json.int id).size ≤ 20) {exitCode : Option Int}
    (status : ∀ n, exitCode = some n → -2147483648 ≤ n ∧ n < 2147483648) {stdout stderr : Bytes}
    (small : stdout.length + stderr.length ≤ execOutputLimit) :
    ∃ m, Server.finish id (.ok (execValue exitCode stdout stderr)) = [m] := by
  apply finish_single ranged
  have code : (exitCode.elim Json.null .int).size ≤ 20 := by
    cases exitCode with
    | none => decide
    | some n => exact Json.decimals_le (by have := status n rfl; omega) (by have := status n rfl; omega)
  have out := size_contents stdout (Nat.le_refl _)
  have err := size_contents stderr (Nat.le_refl _)
  have most : maxFrameBytes = 33554432 := rfl
  have limit : execOutputLimit = 8388608 := rfl
  have keys : keySize "exit_code" = 12 ∧ keySize "stdout_b64" = 13 ∧ keySize "stderr_b64" = 13 := by
    decide
  rw [size_obj]
  simp only [List.map_cons, List.map_nil, List.sum_cons, List.sum_nil, List.length_cons,
    List.length_nil, keys]
  omega

theorem length_timedOut {timeoutMs : Nat} (small : timeoutMs < 2 ^ 64) :
    (Server.execTimedOut timeoutMs).toList.length ≤ 200 := by
  have digits : (toString timeoutMs).toList.length ≤ 20 := by
    have written : (toString timeoutMs).toList = Nat.toDigits 10 timeoutMs := Nat.toList_repr
    have tiny : timeoutMs < 10 ^ 20 := by omega
    rw [written]
    exact (Nat.length_toDigits_le_iff (by decide) (by decide)).mpr tiny
  have texts : "exec: timed out after ".toList.length = 22 ∧
      "ms, process killed".toList.length = 18 := by decide
  have joined : ∀ start middle rest : String, (start ++ middle ++ rest).toList.length =
      start.toList.length + middle.toList.length + rest.toList.length := by
    intro start middle rest
    rw [String.toList_append, String.toList_append, List.length_append, List.length_append]
  have total := joined "exec: timed out after " (toString timeoutMs) "ms, process killed"
  unfold Server.execTimedOut
  omega

theorem length_excuse (brief : ∀ error, told error → error.toList.length ≤ 100) {timeoutMs : Nat}
    (small : timeoutMs < 2 ^ 64) {error : String} (excuse : Excuse told timeoutMs error) :
    error.toList.length ≤ 200 := by
  have joined : ∀ start : String, start.toList.length ≤ 40 → ∀ detail, told detail →
      (start ++ detail).toList.length ≤ 200 := by
    intro start short detail known
    have rest := brief detail known
    rw [String.toList_append, List.length_append]
    omega
  cases excuse with
  | overflow => decide
  | timedOut => exact length_timedOut small
  | spawn detail known => exact joined _ (by decide) _ known
  | wait detail known => exact joined _ (by decide) _ known
  | read detail known => exact joined _ (by decide) _ known

theorem decoded_encode (bytes : Bytes) :
    decoded (.str (.ofList (base64Encode bytes))) = some bytes := by
  rw [decoded, String.toList_ofList, base64Decode_encode]

/-- What the client returns for a value that the server sends. -/
theorem outcome_value {exitCode : Option Int} {stdout stderr : Bytes} {m : Json}
    (sent : Server.finish id (.ok (execValue exitCode stdout stderr)) = [m]) :
    outcome (.reply m) =
      .returned (exitCode.elim .nil .int) (some stdout) (some stderr) := by
  have member : m ∈ Server.finish id (.ok (execValue exitCode stdout stderr)) := by
    rw [sent]
    exact List.mem_singleton_self m
  obtain ⟨rfl, -⟩ := send_eq_of_mem member
  have good : Ending.signal (.reply (.obj (Server.insertField "ok" (.bool true)
      (Server.insertField "id" (.int id) [("exit_code", exitCode.elim .null .int),
        ("stdout_b64", .str (.ofList (base64Encode stdout))),
        ("stderr_b64", .str (.ofList (base64Encode stderr)))])))) = none := by
    have ok : (Json.obj (Server.insertField "ok" (.bool true)
        (Server.insertField "id" (.int id) [("exit_code", exitCode.elim .null .int),
          ("stdout_b64", .str (.ofList (base64Encode stdout))),
          ("stderr_b64", .str (.ofList (base64Encode stderr)))]))).get "ok" = some (.bool true) := by
      rw [Server.get_obj, Server.lookup_insertField, if_pos rfl]
    simp [Ending.signal, requestSignal, messageOf, ok, Server.present, Json.parse]
  have code : (exitCode.elim Json.null .int).parse = exitCode.elim .nil .int := by
    cases exitCode <;> rfl
  unfold outcome
  rw [good]
  simp only [Ending.value, get_finished]
  simp [Server.lookup_cons_eq, Json.parse, decoded_encode, code]

theorem outcome_failure {error : String} {m : Json} (sent : Server.finish id (.error error) = [m]) :
    (messageOf m).error = error ∧ outcome (.reply m) =
      .signalled (.requestError ("relay: exec: " ++ error) (some (.message (messageOf m)))) := by
  have member : m ∈ Server.finish id (.error error) := by
    rw [sent]
    exact List.mem_singleton_self m
  obtain ⟨rfl, -⟩ := send_eq_of_mem member
  exact ⟨rfl, rfl⟩

/-- A client that is given no reply signals, and if it has sent the request, closes the connection. -/
theorem signals_unanswered (table : CaseTable) {ending : Ending}
    (unanswered : ∀ m, ending ≠ .reply m) : (∃ signal, outcome ending = .signalled signal) ∧
      ((∀ text, ending ≠ .unsent text) → ending.Aborts table) := by
  cases ending with
  | reply m => exact absurd rfl (unanswered m)
  | unsent text => exact ⟨⟨_, rfl⟩, fun sent => absurd rfl (sent text)⟩
  | transport error =>
      exact ⟨⟨_, rfl⟩, fun _ => ⟨_, rfl, .inr (RelayCore.matches_transport _ error)⟩⟩
  | deadline =>
      refine ⟨⟨_, rfl⟩, fun _ => ⟨_, rfl, .inr ?_⟩⟩
      exact RelayCore.matches_of_infix "timed out".toList (by decide) (by decide)
  | quit => exact ⟨⟨_, rfl⟩, fun _ => ⟨_, rfl, .inl rfl⟩⟩

/-- The client waits two seconds longer than the command may run. -/
theorem requestTimeout_outlasts (configured : Nat) (home : Option String) {asked : Asked}
    {command cwd timeoutMs : Datum} (accepted : Accepted asked command cwd timeoutMs) :
    2000 + (asked.command home).timeoutMs ≤ requestTimeout configured timeoutMs := by
  rw [accepted.timeoutMs]
  unfold Asked.command
  cases asked.timeoutMs with
  | none =>
      have default : Server.defaultExecTimeoutMs = 30000 := rfl
      simp only [Option.getD_none, Option.elim_none, requestTimeout]
      omega
  | some n => exact Nat.le_refl _

theorem handles_exec {req : Json} (op : requestOp req = "exec") (exitCode : Option Int)
    (stdout stderr : Bytes) :
    Handles req (Server.finish (requestId req) (.ok (execValue exitCode stdout stderr))) := by
  apply Handles.finished (.ok [("exit_code", exitCode.elim .null .int),
    ("stdout_b64", .str (.ofList (base64Encode stdout))),
    ("stderr_b64", .str (.ofList (base64Encode stderr)))])
  · rw [op]
    decide
  · rintro fields ⟨⟩
    rw [op]
    show ("exec", ["exit_code", "stdout_b64", "stderr_b64"]) ∈ Server.replyKeys
    decide

end Replies

/-- What the client takes a result for, where the streams were written so. -/
def Returns (codes : Option Int → Prop) (told : String → Prop) (timeoutMs : Nat) (stdout stderr : Bytes)
    (found : Outcome) : Except String Json → Prop
  | .ok _ => ∃ exitCode, codes exitCode ∧
      found = .returned (exitCode.elim .nil .int) (some stdout) (some stderr)
  | .error error => Excuse told timeoutMs error ∧ ∃ reply : RelayCore.Message,
      reply.error = error ∧
        found = .signalled (.requestError ("relay: exec: " ++ error) (some (.message reply)))

/-- A call that the client accepts is run by the server as it was made: these words, in that directory,
for that time. Whatever happens then, the result is one message, and a client whose wait ends with it
returns the status and every byte that was written to both streams, or signals one of the errors of
`exec`, which names the caller's own limit. Only a limit that is no number of 64 bits is refused. A
client that is given no reply, though it waits two seconds longer than the command may run, signals. -/
theorem exec_round_trip (printed : Datum → String) (home : Option String) (codes : Option Int → Prop)
    (told : String → Prop) (ranged : ∀ n, codes (some n) → -2147483648 ≤ n ∧ n < 2147483648)
    (brief : ∀ error, told error → error.toList.length ≤ 100) (table : CaseTable) (configured : Nat)
    {id : Nat} {command cwd timeoutMs : Datum} {req : Json}
    (sent : call printed id command cwd timeoutMs = .ok (some req)) :
    ∃ asked, Accepted asked command cwd timeoutMs ∧ requestOp req = "exec" ∧
      (id < 9223372036854775808 → requestId req = id) ∧
      (asked.InRange → execCommand home req = .ok (asked.command home) ∧
        ∀ job, Server.Job.Runs home codes told req job → ∀ result, job.result = some result →
          Handles req (Server.finish (requestId req) result) ∧
          ∃ m, Server.finish (requestId req) result = [m] ∧
            Returns codes told (asked.command home).timeoutMs job.stdout.written job.stderr.written
              (outcome (.reply m)) result) ∧
      (¬ asked.InRange →
        execCommand home req = .error "exec: \"timeout_ms\" must be a positive integer") ∧
      2000 + (asked.command home).timeoutMs ≤ requestTimeout configured timeoutMs ∧
      ∀ ending, (∀ m, ending ≠ .reply m) → (∃ signal, outcome ending = .signalled signal) ∧
        ((∀ text, ending ≠ .unsent text) → ending.Aborts table) := by
  obtain ⟨asked, accepted, rfl⟩ := call_sent sent
  refine ⟨asked, accepted, requestOp_message asked, requestId_message asked, ?_,
    execCommand_beyond home accepted.some_word, requestTimeout_outlasts configured home accepted,
    fun _ unanswered => signals_unanswered table unanswered⟩
  intro inRange
  have understood : execCommand home (asked.message id) = .ok (asked.command home) :=
    execCommand_inRange home accepted.some_word accepted.positive inRange
  refine ⟨understood, ?_⟩
  intro job runs result returned
  have op : requestOp (asked.message id) = "exec" := requestOp_message asked
  have small := size_requestId (asked.message id)
  have limit : (asked.command home).timeoutMs < 2 ^ 64 := by
    show asked.timeoutMs.getD Server.defaultExecTimeoutMs < 2 ^ 64
    cases bound : asked.timeoutMs with
    | none =>
        have default : Server.defaultExecTimeoutMs = 30000 := rfl
        rw [Option.getD_none]
        omega
    | some n => exact inRange n bound
  cases result with
  | ok value =>
      obtain ⟨exitCode, known, rfl, within⟩ := runs.value understood returned
      obtain ⟨m, single⟩ := value_single small (fun n same => ranged n (same ▸ known)) within
      exact ⟨handles_exec op _ _ _, m, single, exitCode, known, outcome_value single⟩
  | error error =>
      have excuse : Excuse told (asked.command home).timeoutMs error := runs.concludes understood returned
      obtain ⟨m, single⟩ := failure_single small (length_excuse brief limit excuse)
      refine ⟨?_, m, single, excuse, messageOf m, outcome_failure single⟩
      exact .finished (.error error) (by rw [op]; decide) nofun

/-- A call that prints a byte. -/
def printfCall : RelayExec.Asked := ⟨["printf", "h"], none, none⟩

/-- It prints, and exits. -/
def printfDone : Server.Job :=
  [.take, .spawn (.ok 7), .register, .write .stdout [104], .close .stdout, .read .stdout 16,
    .count .stdout, .poll .running, .load, .read .stdout 16, .close .stderr, .read .stderr 16,
    .time false, .send .stderr, .poll (.exited (some 0)), .collect false, .send .stdout,
    .collect false, .collect false].foldl (Server.Job.step none)
      { stage := .queued (printfCall.message 1) }

theorem exec_round_trip_printf :
    ∃ m, Server.finish 1 (.ok (execValue (some 0) [104] [])) = [m] ∧
      outcome (.reply m) = .returned (.int 0) (some [104]) (some []) := by
  have runs : Server.Job.Runs none (· = some 0) (fun _ => False) (printfCall.message 1) printfDone :=
    Reaches.of_along .refl (by simp only [Reaches.Along, Server.Reports, and_self])
  have sent : call (fun _ => "") 1 (.list [.str "printf", .str "h"]) .nil .nil =
      .ok (some (printfCall.message 1)) := rfl
  obtain ⟨asked, accepted, -, id, within, -⟩ := exec_round_trip (fun _ => "") none (· = some 0)
    (fun _ => False) (by rintro n ⟨⟩; decide) (fun _ none => none.elim) .exact 30000 sent
  have inRange : asked.InRange := by
    intro n given
    have limit := accepted.timeoutMs
    rw [given] at limit
    cases limit
  obtain ⟨-, m, single, exitCode, zero, found⟩ :=
    (within inRange).2 printfDone runs (.ok (execValue (some 0) [104] [])) rfl
  rw [id (by decide)] at single
  refine ⟨m, single, ?_⟩
  rw [found, zero]
  rfl

end RelayExec

end EmacsRelay

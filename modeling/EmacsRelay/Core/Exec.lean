import EmacsRelay.Core.Connect
import EmacsRelay.Lib.Search

set_option autoImplicit false

/- `relay-exec-raw`, `lisp/relay-exec.el`: when the error of an exec request closes the connection
it was sent on. -/
namespace EmacsRelay.RelayCore

open Search Routine

/-- The `:error` of a reply that is not ok. -/
def Message.error (m : Message) : String := m.body

/-- An error that is signalled. -/
inductive Signal where
  | quit
  | error (text : String)
  /-- `relay-request-error`, with the reply. -/
  | requestError (text : String) (reply : Option Reply)
deriving DecidableEq, Repr

/-- A string as `prin1` prints it. -/
def prin1 (text : List Char) : List Char :=
  '"' :: escape (fun c => c = '"' ∨ c = '\\') '\\' text ++ ['"']

/-- A reply as `prin1` prints it. The server's failures have the keys `error`, `id` and `ok`. -/
def prin1Reply : Option Reply → List Char
  | none => "nil".toList
  | some (.message m) =>
      "(:error ".toList ++ prin1 m.error.toList ++ " :id ".toList ++
        (m.id.elim "nil" toString).toList ++ " :ok nil)".toList
  | some (.transport error) =>
      "(:ok nil :error ".toList ++ prin1 error.toList ++ " :transport t)".toList
  | some .timeout => "(:ok nil :error \"relay: request timed out\" :timeout t)".toList

theorem prin1Reply_message (m : Message) :
    prin1Reply (some (.message m)) =
      "(:error ".toList ++ prin1 m.error.toList ++ " :id ".toList ++
        (m.id.elim "nil" toString).toList ++ " :ok nil)".toList := rfl

theorem prin1Reply_transport (error : String) :
    prin1Reply (some (.transport error)) =
      "(:ok nil :error ".toList ++ prin1 error.toList ++ " :transport t)".toList := rfl

/-- `error-message-string`. -/
def errorMessageString : Signal → List Char
  | .quit => "Quit".toList
  | .error text => text.toList
  | .requestError text reply =>
      "relay request failed: ".toList ++ prin1 text.toList ++ ", ".toList ++ prin1Reply reply

theorem errorMessageString_requestError (text : String) (reply : Option Reply) :
    errorMessageString (.requestError text reply) =
      "relay request failed: ".toList ++ prin1 text.toList ++ ", ".toList ++ prin1Reply reply := rfl

/-- The case table that a search folds characters by, or none if it does not fold case: ASCII
characters are folded with their other case only. -/
structure CaseTable where
  canonicalize : Char → Char
  ascii : ∀ c d : Char, c.toNat < 128 → d.toNat < 128 →
    canonicalize c = canonicalize d → c.toLower = d.toLower

/-- `case-fold-search` is nil. -/
def CaseTable.exact : CaseTable where
  canonicalize := id
  ascii := fun _ _ _ _ same => congrArg Char.toLower same

/-- The alternatives of the pattern. -/
def abortWords : List (List Char) :=
  ["timed out".toList, "transport".toList, "connection".toList]

/-- `string-match-p` with the pattern of `relay-exec-raw`. -/
def MatchesAbort (table : CaseTable) (text : List Char) : Prop :=
  ∃ word ∈ abortWords, Found table.canonicalize word text

instance (table : CaseTable) (text : List Char) : Decidable (MatchesAbort table text) :=
  inferInstanceAs (Decidable (∃ word ∈ abortWords, _))

section Matching

variable {table : CaseTable}

/-- ASCII characters without a letter of the pattern, in either case. -/
def Free (letter : Char) (text : List Char) : Prop :=
  ∀ c ∈ text, c.toNat < 128 ∧ c.toLower ≠ letter.toLower

theorem apart_of_free {letter : Char} {text : List Char} (ascii : letter.toNat < 128)
    (free : Free letter text) : Apart table.canonicalize letter text := by
  intro c there same
  exact (free c there).2 (table.ascii c letter (free c there).1 ascii same)

/-- A punctuation mark is in no alternative. -/
theorem apart_word {mark : Char} (ascii : mark.toNat < 128)
    (free : ∀ word ∈ abortWords, Free mark word) :
    ∀ word ∈ abortWords, Apart table.canonicalize mark word :=
  fun word known => apart_of_free ascii (free word known)

theorem word_head : ∀ word ∈ abortWords, ∃ letter, word.head? = some letter ∧
    letter.toNat < 128 ∧ letter.toLower ≠ ' '.toLower := by
  intro word known
  rcases List.mem_cons.mp known with rfl | known
  · exact ⟨'t', rfl, by decide, by decide⟩
  · rcases List.mem_cons.mp known with rfl | known
    · exact ⟨'t', rfl, by decide, by decide⟩
    · rcases List.mem_singleton.mp known with rfl
      exact ⟨'c', rfl, by decide, by decide⟩

instance (letter : Char) (text : List Char) : Decidable (Free letter text) :=
  List.decidableBAll _ text

/-- What has no letter that every alternative has is not matched. -/
theorem not_matches_of_free (letter : Char) {text : List Char} (ascii : letter.toNat < 128)
    (common : ∀ word ∈ abortWords, letter ∈ word) (free : Free letter text) :
    ¬ MatchesAbort table text := by
  rintro ⟨word, known, found⟩
  exact not_found (common word known) (apart_of_free ascii free) found

/-- A match lies on one side of a punctuation mark. -/
theorem matches_append_cons {mark : Char} {start rest : List Char} (ascii : mark.toNat < 128)
    (free : ∀ word ∈ abortWords, Free mark word) :
    MatchesAbort table (start ++ mark :: rest) ↔
      MatchesAbort table start ∨ MatchesAbort table rest := by
  constructor
  · rintro ⟨word, known, found⟩
    rcases (found_append_cons (apart_word ascii free word known)).mp found with left | right
    · exact .inl ⟨word, known, left⟩
    · exact .inr ⟨word, known, right⟩
  · rintro (⟨word, known, found⟩ | ⟨word, known, found⟩)
    · exact ⟨word, known, (found_append_cons (apart_word ascii free word known)).mpr (.inl found)⟩
    · exact ⟨word, known, (found_append_cons (apart_word ascii free word known)).mpr (.inr found)⟩

/-- The operation does not add to a match in what follows it. -/
theorem matches_exec (text : List Char) :
    MatchesAbort table ("relay: exec: ".toList ++ text) ↔ MatchesAbort table text := by
  have parts : "relay: exec: ".toList ++ text = "relay: exec".toList ++ ':' :: ' ' :: text := rfl
  have front : ¬ MatchesAbort table "relay: exec".toList :=
    not_matches_of_free 't' (by decide) (by decide) (by decide)
  rw [parts, matches_append_cons (by decide) (by decide), or_iff_right front]
  have blank : ∀ word ∈ abortWords, Found table.canonicalize word (' ' :: text) ↔
      Found table.canonicalize word text := by
    intro word known
    obtain ⟨letter, first, ascii, other⟩ := word_head word known
    exact found_cons first fun same => other (table.ascii letter ' ' ascii (by decide) same)
  exact exists_congr fun word => and_congr_right (blank word)

/-- A string is matched whether it is printed or not. -/
theorem matches_escape (text : List Char) :
    MatchesAbort table (escape (fun c => c = '"' ∨ c = '\\') '\\' text) ↔
      MatchesAbort table text := by
  refine exists_congr fun word => and_congr_right fun known => ?_
  obtain ⟨letter, first, -, -⟩ := word_head word known
  refine found_escape first (apart_word (by decide) (by decide) word known) ?_ text
  rintro symbol (rfl | rfl)
  · exact apart_word (by decide) (by decide) word known
  · exact apart_word (by decide) (by decide) word known

/-- An id has no letters, as it is printed. -/
theorem free_id (id : Option Int) : Free 't' (id.elim "nil" toString).toList := by
  have digit : ∀ c : Char, c.isDigit = true → c.toNat < 128 ∧ c.toLower ≠ 't'.toLower := by
    intro c isDigit
    have bounds : 48 ≤ c.toNat ∧ c.toNat ≤ 57 := by
      simpa [Char.isDigit, Char.le_def, UInt32.le_iff_toNat_le] using isDigit
    have same : c.toLower = c := by
      unfold Char.toLower
      rw [dif_neg]
      intro upper
      have above : 65 ≤ c.toNat := UInt32.le_iff_toNat_le.mp upper.1
      omega
    refine ⟨by omega, ?_⟩
    rw [same]
    rintro rfl
    revert bounds
    decide
  have number : ∀ n : Nat, Free 't' n.repr.toList := by
    intro n c there
    rw [Nat.toList_repr] at there
    exact digit c (Nat.isDigit_of_mem_toDigits (by decide) (by decide) there)
  cases id with
  | none => decide
  | some id =>
      cases id with
      | ofNat n => exact number n
      | negSucc n =>
          intro c there
          change c ∈ ("-" ++ (n + 1).repr).toList at there
          rw [String.toList_append] at there
          rcases List.mem_append.mp there with sign | digits
          · exact (by decide : Free 't' "-".toList) c sign
          · exact number _ c digits

/-- A printed string is matched by what it says, or by what stands on either side. -/
theorem matches_prin1 (start text rest : List Char) :
    MatchesAbort table (start ++ prin1 text ++ rest) ↔
      MatchesAbort table start ∨ MatchesAbort table text ∨ MatchesAbort table rest := by
  have parts : start ++ prin1 text ++ rest =
      start ++ '"' :: (escape (fun c => c = '"' ∨ c = '\\') '\\' text ++ '"' :: rest) := by
    unfold prin1
    rw [List.append_assoc, List.cons_append, List.cons_append, List.append_assoc]
    rfl
  rw [parts, matches_append_cons (by decide) (by decide),
    matches_append_cons (by decide) (by decide), matches_escape]

/-- The printed error of the server is matched if and only if its text is. -/
theorem matches_server_error (m : Message) :
    MatchesAbort table (errorMessageString
      (.requestError ("relay: exec: " ++ m.error) (some (.message m)))) ↔
        MatchesAbort table m.error.toList := by
  have shown : errorMessageString
      (.requestError ("relay: exec: " ++ m.error) (some (.message m))) =
        "relay request failed: ".toList ++ prin1 ("relay: exec: ".toList ++ m.error.toList) ++
          ((", ".toList ++ "(:error ".toList) ++ prin1 m.error.toList ++
            (" :id ".toList ++ (m.id.elim "nil" toString).toList ++ " :ok nil)".toList)) := by
    rw [errorMessageString_requestError, prin1Reply_message, String.toList_append]
    simp only [List.append_assoc]
  have first : ¬ MatchesAbort table "relay request failed: ".toList :=
    not_matches_of_free 'o' (by decide) (by decide) (by decide)
  have between : ¬ MatchesAbort table (", ".toList ++ "(:error ".toList) :=
    not_matches_of_free 't' (by decide) (by decide) (by decide)
  have last : ¬ MatchesAbort table
      (" :id ".toList ++ (m.id.elim "nil" toString).toList ++ " :ok nil)".toList) := by
    refine not_matches_of_free 't' (by decide) (by decide) ?_
    intro c there
    rcases List.mem_append.mp there with front | back
    · rcases List.mem_append.mp front with label | id
      · exact (by decide : Free 't' " :id ".toList) c label
      · exact free_id m.id c id
    · exact (by decide : Free 't' " :ok nil)".toList) c back
  rw [shown, matches_prin1, matches_prin1, matches_exec]
  simp only [first, between, last, false_or, or_false, or_self]

/-- What stands in a text as it is is found in it. -/
theorem matches_of_infix (word : List Char) {text : List Char} (known : word ∈ abortWords) (inside : word <:+: text) :
    MatchesAbort table text := ⟨word, known, inside.map table.canonicalize⟩

/-- A lost transport is matched, however its error is worded. -/
theorem matches_transport (text error : String) :
    MatchesAbort table (errorMessageString (.requestError text (some (.transport error)))) := by
  have shown : errorMessageString (.requestError text (some (.transport error))) =
      ("relay request failed: ".toList ++ prin1 text.toList ++ ", ".toList ++
        "(:ok nil :error ".toList) ++ prin1 error.toList ++ " :transport t)".toList := by
    rw [errorMessageString_requestError, prin1Reply_transport]
    simp only [List.append_assoc]
  rw [shown]
  have tag : "transport".toList <:+: " :transport t)".toList := by decide
  apply matches_of_infix "transport".toList (by decide)
  exact tag.trans (List.suffix_append _ _).isInfix

end Matching

/-- What a blocking request signals, for what it ends with; `unsent` is what its send signalled. -/
def requestSignal (unsent : String) : Result → Option Signal
  | .unsent => some (.error ("relay: exec: " ++ unsent))
  | .timedOut => some (.error "relay: exec timed out")
  | .reply reply =>
      match reply with
      | some (.message m) =>
          if m.ok then none else some (.requestError ("relay: exec: " ++ m.error) reply)
      | some (.transport error) => some (.requestError ("relay: exec: " ++ error) reply)
      | some .timeout => some (.requestError "relay: exec: relay: request timed out" reply)
      | none => some (.requestError "relay: exec: unknown error" none)

/-- What happens to the exec request of a connection: the innermost one that waits there, if it
was sent. -/
inductive ExecAct where
  | request
  /-- It cannot be sent, because the transport is lost or because it cannot be serialized; `text`
  is what `relay--transport-error` makes of that. -/
  | unsent (lost : Bool) (text : String)
  /-- `accept-process-output` returns. -/
  | wake (expired : Bool)
  | quit
deriving DecidableEq, Repr

namespace Client

variable (maxLength : Nat)

/-- An event of the requests of connection `k`, none of which is its hello. -/
def advance (c : Client) (k : Nat) (act : Act) : Client :=
  c.set k { c.attempts k with conn := (c.attempts k).conn.step maxLength act }

/-- What the last request to end on connection `k` ended with, if one did since `before`. -/
def concluded (c : Client) (k : Nat) (before : Conn) : Option Result :=
  (((c.attempts k).conn.results.drop before.results.length).head?).map (·.2)

/-- `relay--request` in `relay-exec-raw`, up to its next wait or to what it signals. -/
def execRequest (c : Client) (k : Nat) : ExecAct → Option Signal × Client
  | .request => (none, c.advance maxLength k (.request true))
  | .unsent _ text =>
      let after := c.advance maxLength k (.request false)
      ((after.concluded k (c.attempts k).conn).bind (requestSignal text), after)
  | .wake expired =>
      let after := c.advance maxLength k (.awake expired)
      ((after.concluded k (c.attempts k).conn).bind (requestSignal ""), after)
  | .quit => (some .quit, c.set k { c.attempts k with conn := (c.attempts k).conn.leave })

/-- `relay-exec-raw`, from one event of its request to the next or to its end. -/
def execRaw (table : CaseTable) (c : Client) (k : Nat) (act : ExecAct) : Option Signal × Client :=
  let after := (c.execRequest maxLength k act).2
  match (c.execRequest maxLength k act).1 with
  | none => (none, after)
  | some .quit => (some .quit, after.step maxLength (.abort k))
  | some signal =>
      (some signal,
        if MatchesAbort table (errorMessageString signal) then after.step maxLength (.abort k)
        else after)

/-- The connection is registered and live. -/
structure Open (c : Client) (k : Nat) : Prop where
  registered : c.table = some k
  live : (c.attempts k).conn.live = true

/-- The server has answered the exec request with an error, and the request is about to see it. -/
structure Answered (c : Client) (k : Nat) (act : ExecAct) (id : Nat) (m : Message) : Prop where
  wakes : ∃ expired, act = .wake expired
  waits : (c.attempts k).conn.frames.head? = some (.waiting id)
  replied : (c.attempts k).conn.pending id = some (.replied (.message m))
  failed : m.ok = false

/-- The client quits, times out or has lost the transport. -/
def GivesUp (c : Client) (k : Nat) : ExecAct → Prop
  | .request => False
  | .unsent lost _ => lost = true
  | .wake expired =>
      expired = true ∨ ∃ id reply, (c.attempts k).conn.frames.head? = some (.waiting id) ∧
        (c.attempts k).conn.pending id = some (.replied reply) ∧ ∀ m, reply ≠ .message m
  | .quit => True

/-- An error of the server is signalled, and leaves the connection and its other requests as they
are; only a client that gives up closes the connection. -/
structure LeavesAlone (table : CaseTable) (c : Client) (k : Nat) (act : ExecAct) : Prop where
  signals : ∀ id m, c.Answered k act id m →
    (c.execRaw maxLength table k act).1 =
      some (.requestError ("relay: exec: " ++ m.error) (some (.message m)))
  remains : ∀ id m, c.Answered k act id m → (c.execRaw maxLength table k act).2.Open k
  pending : ∀ id m, c.Answered k act id m → ∀ other, other ≠ id →
    ((c.execRaw maxLength table k act).2.attempts k).conn.pending other =
      (c.attempts k).conn.pending other
  closes : ¬ (c.execRaw maxLength table k act).2.Open k → c.GivesUp k act

/-- The request sees the server's error before its deadline, and neither the server's error nor
that of a request which cannot be serialized has a word of the pattern. -/
structure Harmless (table : CaseTable) (c : Client) (k : Nat) (act : ExecAct) : Prop where
  intime : ∀ id m, c.Answered k act id m → act = .wake false
  server : ∀ id m, c.Answered k act id m → ¬ MatchesAbort table m.error.toList
  request : ∀ text, act = .unsent false text → ¬ MatchesAbort table text.toList

section Waking

variable (expired : Bool) {conn : Conn} {id : Nat}

/-- A request that waits on a live connection goes on, or ends with what it was given. -/
theorem step_awake (waits : conn.frames.head? = some (.waiting id)) (live : conn.live = true) :
    conn.step maxLength (.awake expired) =
      if expired then (((conn.record []).remove id).leave).conclude id .timedOut
      else if conn.pending id = some .waiting then conn.record []
      else (((conn.record []).remove id).leave).conclude id (.reply
        (match conn.pending id with
        | some (.replied reply) => some reply
        | _ => none)) := by
  obtain ⟨rest, frames⟩ : ∃ rest, conn.frames = .waiting id :: rest := by
    cases frames : conn.frames with
    | nil => simp [frames] at waits
    | cons frame rest =>
        rw [frames] at waits
        cases waits
        exact ⟨rest, rfl⟩
  have quiet : (conn.record []).noticed id = conn.record [] := by
    unfold Conn.noticed
    simp [live]
  have ends : conn.ends (.awake expired) = [] := rfl
  unfold Conn.step
  rw [ends]
  simp only [RelayCore.perform, after_fetch_bind, Conn.record_frames, frames]
  rw [awake_after, quiet]
  rfl

/-- Nobody who waits is woken. -/
theorem step_awake_other (other : ∀ id, conn.frames.head? ≠ some (.waiting id)) :
    conn.step maxLength (.awake expired) = conn.record [] := by
  unfold Conn.step
  simp only [RelayCore.perform, after_fetch_bind, Conn.record_frames]
  split
  · rename_i id rest frames
    exact absurd (congrArg List.head? frames) (other id)
  · rfl

end Waking

section Ending

variable {maxLength} {table : CaseTable} {c : Client} {k id : Nat} {act : ExecAct}
  {expired : Bool}

theorem advance_conn (act : Act) :
    ((c.advance maxLength k act).attempts k).conn = (c.attempts k).conn.step maxLength act := by
  simp [advance]

theorem concluded_advance {act : Act} {result : Result}
    (ended : ((c.attempts k).conn.step maxLength act).results =
      (c.attempts k).conn.results ++ [(id, result)]) :
    (c.advance maxLength k act).concluded k (c.attempts k).conn = some result := by
  unfold concluded
  rw [advance_conn, ended, List.drop_left]
  rfl

theorem concluded_none {act : Act}
    (same : ((c.attempts k).conn.step maxLength act).results = (c.attempts k).conn.results) :
    (c.advance maxLength k act).concluded k (c.attempts k).conn = none := by
  unfold concluded
  rw [advance_conn, same, List.drop_length]
  rfl

/-- What a wait that ends signals. -/
theorem wake_signal (maxLength : Nat) (expired : Bool) (isOpen : c.Open k)
    (waits : (c.attempts k).conn.frames.head? = some (.waiting id)) :
    (c.execRequest maxLength k (.wake expired)).1 =
      if expired then some (.error "relay: exec timed out")
      else if (c.attempts k).conn.pending id = some .waiting then none
      else requestSignal "" (.reply
        (match (c.attempts k).conn.pending id with
        | some (.replied reply) => some reply
        | _ => none)) := by
  have woken := step_awake maxLength expired waits isOpen.live
  change Option.bind _ _ = _
  cases expired with
  | true =>
      rw [if_pos rfl] at woken ⊢
      have ended : ((c.attempts k).conn.step maxLength (.awake true)).results =
          (c.attempts k).conn.results ++ [(id, .timedOut)] := by
        rw [woken]
        rfl
      rw [concluded_advance ended]
      rfl
  | false =>
      rw [if_neg (by decide)] at woken ⊢
      split at woken
      · rename_i waiting
        rw [concluded_none (by rw [woken]; rfl), if_pos waiting]
        rfl
      · rename_i waiting
        have ended : ((c.attempts k).conn.step maxLength (.awake false)).results =
            (c.attempts k).conn.results ++ [(id, .reply
              (match (c.attempts k).conn.pending id with
              | some (.replied reply) => some reply
              | _ => none))] := by
          rw [woken]
          rfl
        rw [if_neg waiting, concluded_advance ended]
        rfl

/-- A wait leaves the connection open, and the other requests as they are. -/
theorem wake_open (maxLength : Nat) (expired : Bool) (isOpen : c.Open k) :
    (c.execRequest maxLength k (.wake expired)).2.Open k ∧
      ∀ id, (c.attempts k).conn.frames.head? = some (.waiting id) → ∀ other, other ≠ id →
        ((c.execRequest maxLength k (.wake expired)).2.attempts k).conn.pending other =
          (c.attempts k).conn.pending other := by
  have conn : ((c.execRequest maxLength k (.wake expired)).2.attempts k).conn =
      (c.attempts k).conn.step maxLength (.awake expired) := advance_conn _
  by_cases waiting : ∃ id, (c.attempts k).conn.frames.head? = some (.waiting id)
  · obtain ⟨id, waits⟩ := waiting
    have woken := step_awake maxLength expired waits isOpen.live
    refine ⟨⟨isOpen.registered, ?_⟩, ?_⟩
    · rw [conn, woken]
      split
      · exact isOpen.live
      · split <;> exact isOpen.live
    · intro id' waits' other differs
      have same : id' = id := by
        rw [waits] at waits'
        cases waits'
        rfl
      subst same
      rw [conn, woken]
      split
      · simp [differs]
      · split <;> simp [differs]
  · have others : ∀ id, (c.attempts k).conn.frames.head? ≠ some (.waiting id) :=
      fun id waits => waiting ⟨id, waits⟩
    have slept := step_awake_other maxLength expired others
    refine ⟨⟨isOpen.registered, ?_⟩, fun id waits => absurd waits (others id)⟩
    rw [conn, slept]
    exact isOpen.live

/-- A request leaves the connection open, whether it can be sent or not. -/
theorem request_open (isOpen : c.Open k) (sends : Bool) :
    (c.advance maxLength k (.request sends)).Open k := by
  refine ⟨isOpen.registered, ?_⟩
  rw [advance_conn]
  cases sends <;> exact isOpen.live

theorem unsent_signal (lost : Bool) (text : String) :
    (c.execRequest maxLength k (.unsent lost text)).1 =
      some (.error ("relay: exec: " ++ text)) := by
  have ended : ((c.attempts k).conn.step maxLength (.request false)).results =
      (c.attempts k).conn.results ++ [((c.attempts k).conn.nextId + 1, .unsent)] := rfl
  change Option.bind _ _ = _
  rw [concluded_advance ended]
  rfl

theorem abort_closes (maxLength : Nat) (c : Client) (k : Nat) :
    ¬ (c.step maxLength (.abort k)).Open k := by
  intro isOpen
  have live := isOpen.live
  simp [Client.step] at live

theorem execRaw_none (signals : (c.execRequest maxLength k act).1 = none) :
    c.execRaw maxLength table k act = (none, (c.execRequest maxLength k act).2) := by
  unfold execRaw
  rw [signals]

theorem execRaw_signal {signal : Signal}
    (signals : (c.execRequest maxLength k act).1 = some signal) (noQuit : signal ≠ .quit) :
    c.execRaw maxLength table k act =
      (some signal, if MatchesAbort table (errorMessageString signal) then
        (c.execRequest maxLength k act).2.step maxLength (.abort k)
        else (c.execRequest maxLength k act).2) := by
  unfold execRaw
  rw [signals]
  cases signal with
  | quit => exact absurd rfl noQuit
  | error text => rfl
  | requestError text reply => rfl

/-- The error of the server is signalled if it is seen in time. -/
theorem answered_signal {m : Message} (isOpen : c.Open k) (answered : c.Answered k act id m)
    (intime : act = .wake false) :
    (c.execRequest maxLength k act).1 =
      some (.requestError ("relay: exec: " ++ m.error) (some (.message m))) := by
  subst intime
  rw [wake_signal maxLength _ isOpen answered.waits, answered.replied]
  simp [requestSignal, answered.failed]

/-- A connection that an event leaves is closed if the pattern matches what is signalled. -/
theorem execRaw_open {signal : Signal}
    (signals : (c.execRequest maxLength k act).1 = some signal) (noQuit : signal ≠ .quit)
    (stays : (c.execRequest maxLength k act).2.Open k) :
    (c.execRaw maxLength table k act).2.Open k ↔
      ¬ MatchesAbort table (errorMessageString signal) := by
  rw [execRaw_signal signals noQuit]
  by_cases taken : MatchesAbort table (errorMessageString signal)
  · rw [if_pos taken]
    exact iff_of_false (abort_closes maxLength _ k) fun quiet => quiet taken
  · rw [if_neg taken]
    exact iff_of_true stays taken

theorem unsent_open (isOpen : c.Open k) (lost : Bool) (text : String) :
    (c.execRaw maxLength table k (.unsent lost text)).2.Open k ↔
      ¬ MatchesAbort table text.toList := by
  have stays : (c.execRequest maxLength k (.unsent lost text)).2.Open k :=
    request_open isOpen false
  rw [execRaw_open (unsent_signal lost text) nofun stays]
  have shown : errorMessageString (.error ("relay: exec: " ++ text)) =
      "relay: exec: ".toList ++ text.toList := String.toList_append
  rw [shown, matches_exec]

theorem answered_open {m : Message} (isOpen : c.Open k) (answered : c.Answered k act id m)
    (intime : act = .wake false) :
    (c.execRaw maxLength table k act).2.Open k ↔ ¬ MatchesAbort table m.error.toList := by
  have stays : (c.execRequest maxLength k act).2.Open k := by
    rw [intime]
    exact (wake_open maxLength _ isOpen).1
  rw [execRaw_open (answered_signal isOpen answered intime) nofun stays, matches_server_error]

/-- The error of a request whose entry is gone is not matched. -/
theorem unknown_quiet :
    ¬ MatchesAbort table
      (errorMessageString (.requestError "relay: exec: unknown error" none)) := by
  have shown : errorMessageString (.requestError "relay: exec: unknown error" none) =
      "relay request failed: ".toList ++ prin1 "relay: exec: unknown error".toList ++
        (", ".toList ++ "nil".toList) := by
    rw [errorMessageString_requestError, List.append_assoc]
    rfl
  rw [shown, matches_prin1]
  rintro (front | text | back)
  · exact not_matches_of_free 'o' (by decide) (by decide) (by decide) front
  · exact not_matches_of_free 't' (by decide) (by decide) (by decide) text
  · exact not_matches_of_free 't' (by decide) (by decide) (by decide) back

/-- What wakes a client up and closes its connection is a deadline or a lost transport. -/
theorem wake_closes (isOpen : c.Open k) (harmless : c.Harmless table k (.wake expired))
    (closed : ¬ (c.execRaw maxLength table k (.wake expired)).2.Open k) :
    c.GivesUp k (.wake expired) := by
  cases expired with
  | true => exact .inl rfl
  | false =>
      have stays := (wake_open maxLength false isOpen).1
      have silent : (c.execRequest maxLength k (.wake false)).1 ≠ none := by
        intro signals
        rw [execRaw_none signals] at closed
        exact closed stays
      by_cases waiting : ∃ id, (c.attempts k).conn.frames.head? = some (.waiting id)
      · obtain ⟨id, waits⟩ := waiting
        have signals := wake_signal maxLength false isOpen waits
        rw [if_neg (by decide)] at signals
        have gone : (c.execRequest maxLength k (.wake false)).1 =
            some (.requestError "relay: exec: unknown error" none) → False :=
          fun unknown => closed ((execRaw_open unknown nofun stays).mpr unknown_quiet)
        cases entry : (c.attempts k).conn.pending id with
        | none => exact (gone (by rw [signals, entry]; rfl)).elim
        | some entry' =>
            rw [entry] at signals
            cases entry' with
            | waiting => exact absurd signals silent
            | callback => exact (gone signals).elim
            | stream => exact (gone signals).elim
            | replied reply =>
                cases reply with
                | transport error => exact .inr ⟨id, _, waits, entry, nofun⟩
                | timeout => exact .inr ⟨id, _, waits, entry, nofun⟩
                | message m =>
                    cases ok : m.ok with
                    | true =>
                        rw [if_neg nofun] at signals
                        simp only [requestSignal, ok, if_true] at signals
                        exact absurd signals silent
                    | false =>
                        have answered : c.Answered k (.wake false) id m :=
                          ⟨⟨false, rfl⟩, waits, entry, ok⟩
                        exact absurd ((answered_open isOpen answered rfl).mpr
                          (harmless.server id m answered)) closed
      · have others : ∀ id, (c.attempts k).conn.frames.head? ≠ some (.waiting id) :=
          fun id waits => waiting ⟨id, waits⟩
        have none_left : (c.execRequest maxLength k (.wake false)).1 = none := by
          change Option.bind _ _ = _
          rw [concluded_none (by rw [step_awake_other maxLength false others]; rfl)]
          rfl
        exact absurd none_left silent

/-- An exec request meets its promises if and only if no error that it signals by itself or for
the server has a word of the pattern, and the server's are seen in time. -/
theorem leavesAlone_iff (maxLength : Nat) (table : CaseTable) (c : Client) (k : Nat)
    (act : ExecAct) (isOpen : c.Open k) :
    c.LeavesAlone maxLength table k act ↔ c.Harmless table k act := by
  constructor
  · intro alone
    have intime : ∀ id m, c.Answered k act id m → act = .wake false := by
      intro id m answered
      obtain ⟨expired, rfl⟩ := answered.wakes
      cases expired with
      | false => rfl
      | true =>
          have timed := wake_signal maxLength true isOpen answered.waits
          have signals := alone.signals id m answered
          rw [if_pos rfl] at timed
          rw [execRaw_signal timed nofun] at signals
          cases signals
    refine ⟨intime, ?_, ?_⟩
    · intro id m answered
      exact (answered_open isOpen answered (intime id m answered)).mp
        (alone.remains id m answered)
    · rintro text rfl taken
      have closed : ¬ (c.execRaw maxLength table k (.unsent false text)).2.Open k :=
        fun stays => (unsent_open isOpen false text).mp stays taken
      cases alone.closes closed
  · intro harmless
    have remains : ∀ id m, c.Answered k act id m → (c.execRaw maxLength table k act).2.Open k :=
      fun id m answered => (answered_open isOpen answered (harmless.intime id m answered)).mpr
        (harmless.server id m answered)
    refine ⟨?_, remains, ?_, ?_⟩
    · intro id m answered
      rw [execRaw_signal (answered_signal isOpen answered (harmless.intime id m answered)) nofun]
    · intro id m answered other differs
      have intime := harmless.intime id m answered
      have quiet : ¬ MatchesAbort table (errorMessageString
          (.requestError ("relay: exec: " ++ m.error) (some (.message m)))) :=
        fun taken => harmless.server id m answered ((matches_server_error m).mp taken)
      rw [execRaw_signal (answered_signal isOpen answered intime) nofun, if_neg quiet, intime]
      exact (wake_open maxLength _ isOpen).2 id answered.waits other differs
    · intro closed
      cases act with
      | request => exact absurd (request_open isOpen true) closed
      | quit => trivial
      | unsent lost text =>
          cases lost with
          | true => rfl
          | false =>
              exact absurd ((unsent_open isOpen false text).mpr (harmless.request text rfl)) closed
      | wake expired => exact wake_closes isOpen harmless closed

end Ending

/-- A connection with a save under way and an exec request that the server answers with TEXT. -/
def beside (text : String) : Client :=
  [.connection {},
    .act 0 (.message
      { id := some 1, ok := true, protocolVersion := some 1, capabilities := ["revisions-v1"] }) {},
    .act 0 (.awake false) {},
    .act 0 (.requestAsync false true) {},
    .act 0 (.request true) {},
    .act 0 (.message { id := some 3, body := text }) {}].foldl (Client.step 8) {}

theorem leavesAlone_beside :
    (beside "exec: wait failed: No child processes").LeavesAlone 8 .exact 0 (.wake false) := by
  refine (leavesAlone_iff 8 .exact _ 0 (.wake false) ⟨rfl, rfl⟩).mpr ⟨fun _ _ _ => rfl, ?_, nofun⟩
  rintro id m ⟨-, waits, replied, -⟩
  cases waits
  cases replied
  decide

/-- The server's own timeout closes the connection under the save. -/
theorem server_timeout_closes :
    (beside "exec: timed out after 300ms, process killed").Open 0 ∧
      ((beside "exec: timed out after 300ms, process killed").attempts 0).conn.pending 2 =
        some .callback ∧
      ¬ (beside "exec: timed out after 300ms, process killed").LeavesAlone 8 .exact 0
        (.wake false) := by
  refine ⟨⟨rfl, rfl⟩, rfl, fun alone => ?_⟩
  have answered : (beside "exec: timed out after 300ms, process killed").Answered 0 (.wake false) 3
      { id := some 3, body := "exec: timed out after 300ms, process killed" } :=
    ⟨⟨false, rfl⟩, rfl, rfl, rfl⟩
  have stays := (answered_open ⟨rfl, rfl⟩ answered rfl).mp (alone.remains _ _ answered)
  revert stays
  decide

end Client

end EmacsRelay.RelayCore

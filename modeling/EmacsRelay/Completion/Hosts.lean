import EmacsRelay.System.Names
import Mathlib.Data.String.Basic

set_option autoImplicit false

/- The hosts that `lisp/relay-completion.el` finds in the SSH files of the user. -/
namespace EmacsRelay.RelayCompletion

open Regexp

/-- `split-string` with OMIT-NULLS. -/
def splitString (separator : Char → Bool) (text : List Char) : List (List Char) :=
  (text.splitOnP separator).filter (· ≠ [])

section Patterns

variable (table : FoldTable)

/-- A bracket of these characters. -/
def oneOf (letters : List Char) (c : Char) : Bool :=
  decide (table.canonicalize c ∈ letters.map table.canonicalize)

/-- The bracket of the source that is meant for blanks and tabs: in a bracket of the regexp a backslash
stands for itself, and the letter after it too. -/
def blank : Char → Bool := oneOf table [' ', '\\', 't']

def unblank (c : Char) : Bool := !blank table c

/-- `[Hh][Oo][Ss][Tt]` -/
def keywordRegexp : Regexp Char :=
  .seq (.symbol (oneOf table ['H', 'h'])) <| .seq (.symbol (oneOf table ['O', 'o'])) <|
    .seq (.symbol (oneOf table ['S', 's'])) (.symbol (oneOf table ['T', 't']))

/-- The pattern of a line with `Host` in it. -/
def hostRegexp : Regexp Char :=
  .seq .bos <| .seq (.star (blank table)) <| .seq (keywordRegexp table) <|
    .seq (plus (blank table)) <|
    .seq (.group 1 (plus fun c => table.canonicalize c ≠ '\n')) .eos

/-- `[*!?]` is found in the name. -/
def isPattern (host : List Char) : Bool := host.any (oneOf table ['*', '!', '?'])

/-- What is left of a line when it is split at `#`. -/
def uncommented (line : List Char) : List Char := (splitString (· = '#') line).headD []

/-- The names of a line. -/
def lineHosts (line : List Char) : List (List Char) :=
  match search (hostRegexp table) (uncommented line) with
  | none => []
  | some groups =>
      (splitString (blank table) ((groups.lookup 1).getD [])).filter fun host =>
        !(isPattern table host || ['!'].isPrefixOf host)

/-- `relay--ssh-hosts-from-config`, of what is in the file; names are pushed. -/
def sshHostsFromConfig (contents : List Char) : List (List Char) :=
  ((contents.splitOn '\n').flatMap (lineHosts table)).reverse

/-- The pattern of an empty line, or of a comment. -/
def skippedRegexp : Regexp Char :=
  .seq .bos <| .seq (.star (blank table)) (.alt (table.verbatim "#") .eos)

/-- The pattern of the first field, after a marker. -/
def fieldRegexp : Regexp Char :=
  .seq .bos <|
    .seq (opt (.seq (table.verbatim "@") (.seq (plus (unblank table)) (plus (blank table)))))
      (.group 1 (plus (unblank table)))

/-- The pattern of a host with a port. -/
def portRegexp : Regexp Char :=
  .seq .bos <| .seq (table.verbatim "[") <|
    .seq (.group 1 (plus fun c => table.canonicalize c ≠ table.canonicalize ']')) <|
    .seq (table.verbatim "]") <| .seq (table.verbatim ":") <|
    .seq (plus (oneOf table ['0', '1', '2', '3', '4', '5', '6', '7', '8', '9'])) .eos

/-- One of the names of a field. -/
def knownHost (name : List Char) : Option (List Char) :=
  match search (portRegexp table) name with
  | some groups => some ((groups.lookup 1).getD [])
  | none => if !(['|'].isPrefixOf name) && !isPattern table name then some name else none

def lineKnownHosts (line : List Char) : List (List Char) :=
  if (search (skippedRegexp table) line).isSome then []
  else
    match search (fieldRegexp table) line with
    | none => []
    | some groups => (splitString (· = ',') ((groups.lookup 1).getD [])).filterMap (knownHost table)

/-- `relay--ssh-hosts-from-known-hosts`. -/
def sshHostsFromKnownHosts (contents : List Char) : List (List Char) :=
  ((contents.splitOn '\n').flatMap (lineKnownHosts table)).reverse

/-- The files in `.ssh`, as far as they can be read. -/
structure SshFiles where
  config : Option (List Char)
  knownHosts : Option (List Char)

/-- What `relay--ssh-hosts` finds: without duplicates, in order. Which of two equal names stays makes no
difference to what is sorted. -/
def scannedHosts (files : SshFiles) : List String :=
  (((((files.config.map (sshHostsFromConfig table)).getD [] ++
    (files.knownHosts.map (sshHostsFromKnownHosts table)).getD []).map String.ofList).dedup).mergeSort
      fun one other => one ≤ other)

end Patterns

section Splitting

variable {separator : Char → Bool} {text gap rest word : List Char}

/-- Pieces are of the text, and have no separator in them. -/
theorem mem_splitOnP (text : List Char) : ∀ word ∈ text.splitOnP separator, ∀ c ∈ word,
    c ∈ text ∧ separator c = false := by
  induction text with
  | nil => simp
  | cons first text ih =>
      have later : ∀ word ∈ text.splitOnP separator, ∀ c ∈ word,
          c ∈ first :: text ∧ separator c = false := by
        intro word there c inside
        obtain ⟨known, free⟩ := ih word there c inside
        exact ⟨List.mem_cons_of_mem first known, free⟩
      rw [List.splitOnP_cons_eq_if_modifyHead]
      split
      · rintro word (_ | ⟨_, there⟩)
        · exact nofun
        · exact later word there
      · rename_i other
        cases parts : text.splitOnP separator with
        | nil => simp
        | cons part parts' =>
            rw [parts] at later
            rw [List.modifyHead_cons]
            rintro word (_ | ⟨_, there⟩)
            · rintro c (_ | ⟨_, inside⟩)
              · exact ⟨List.mem_cons_self, by simpa using other⟩
              · exact later part List.mem_cons_self c inside
            · exact later word (List.mem_cons_of_mem part there)

theorem splitString_free (member : word ∈ splitString separator text) :
    word ≠ [] ∧ ∀ c ∈ word, separator c = false := by
  obtain ⟨there, nonempty⟩ := List.mem_filter.mp member
  exact ⟨by simpa using nonempty, fun c inside => (mem_splitOnP text word there c inside).2⟩

/-- Separators in front make no difference. -/
theorem splitString_cons {c : Char} (separates : separator c = true) :
    splitString separator (c :: rest) = splitString separator rest := by
  rw [splitString, List.splitOnP_cons_eq_if_modifyHead, if_pos separates, List.filter_cons_of_neg]
  · rfl
  · simp

theorem splitString_append (all : ∀ c ∈ gap, separator c = true) :
    splitString separator (gap ++ rest) = splitString separator rest := by
  induction gap with
  | nil => rfl
  | cons c gap ih =>
      obtain ⟨first, others⟩ := List.forall_mem_cons.mp all
      rw [List.cons_append, splitString_cons first, ih others]

/-- A comment sign in front of a line is dropped with the empty piece before it. -/
theorem uncommented_comment (line : List Char) : uncommented ('#' :: line) = uncommented line := by
  rw [uncommented, uncommented, splitString_cons (decide_eq_true rfl)]

end Splitting

/-- The keyword, letter by letter. -/
def keywords (table : FoldTable) : Language Char :=
  {taken | List.Forall₂ (fun c letters => oneOf table letters c = true) taken
    [['H', 'h'], ['O', 'o'], ['S', 's'], ['T', 't']]}

/-- A line of the configuration that declares names: after blanks there is the keyword, and the names
after more of them. -/
structure Declares (table : FoldTable) (text lead keyword gap names : List Char) : Prop where
  whole : text = lead ++ (keyword ++ (gap ++ names))
  lead : ∀ c ∈ lead, blank table c = true
  keyword : keyword ∈ keywords table
  some_gap : gap ≠ []
  gap : ∀ c ∈ gap, blank table c = true
  some_name : names ≠ []
  line : '\n' ∉ names

section Declarations

variable {table : FoldTable} {text rest : List Char}

theorem oneOf_self {letters : List Char} {c : Char} (member : c ∈ letters) :
    oneOf table letters c = true :=
  decide_eq_true (List.mem_map_of_mem member)

/-- The keyword begins with a letter that is no blank. -/
theorem unblank_keyword {c : Char} (letter : oneOf table ['H', 'h'] c = true) :
    blank table c = false := by
  rw [Bool.eq_false_iff]
  intro found
  obtain ⟨h, member, same⟩ := List.mem_map.mp (of_decide_eq_true letter)
  obtain ⟨b, member', same'⟩ := List.mem_map.mp (of_decide_eq_true found)
  have lows : ∀ h ∈ ['H', 'h'], ∀ b ∈ [' ', '\\', 't'], h.toNat < 128 ∧ b.toNat < 128 ∧
      h.toLower ≠ b.toLower := by simp
  obtain ⟨low, low', apart⟩ := lows h member b member'
  exact apart (table.ascii h b low low' (same.trans same'.symm))

theorem takes_keywordRegexp : (keywordRegexp table).Takes (keywords table) := by
  apply ((takes_symbol _).seq ((takes_symbol _).seq ((takes_symbol _).seq (takes_symbol _)))).congr
  intro taken
  constructor
  · intro known
    obtain ⟨_, ⟨h, isH, rfl⟩, _, more, rfl⟩ := Language.mem_mul.mp known
    obtain ⟨_, ⟨o, isO, rfl⟩, _, most, rfl⟩ := Language.mem_mul.mp more
    obtain ⟨_, ⟨s, isS, rfl⟩, _, ⟨t, isT, rfl⟩, rfl⟩ := Language.mem_mul.mp most
    exact List.Forall₂.cons isH (.cons isO (.cons isS (.cons isT .nil)))
  · intro known
    cases known with
    | cons isH known =>
    cases known with
    | cons isO known =>
    cases known with
    | cons isS known =>
    cases known with
    | cons isT known =>
    cases known
    have last : ∀ c letters, oneOf table letters c = true → [c] ∈ single (oneOf table letters) :=
      fun c letters found => ⟨c, found, rfl⟩
    exact Language.append_mem_mul (last _ _ isH) (Language.append_mem_mul (last _ _ isO)
      (Language.append_mem_mul (last _ _ isS) (last _ _ isT)))

theorem matches_hostRegexp {whole : List Char} {groups after : Groups Char} :
    (hostRegexp table).Matches whole groups text after rest ↔
      text.length = whole.length ∧ rest = [] ∧ ∃ lead keyword gap names,
        Declares table text lead keyword gap names ∧ after = (1, names) :: groups := by
  have lines : ∀ names : List Char,
      (∀ c ∈ names, decide (table.canonicalize c ≠ '\n') = true) ↔ '\n' ∉ names := by
    intro names
    constructor
    · intro all newline
      exact of_decide_eq_true (all _ newline) (canonicalize_newline.mpr rfl)
    · intro none c there
      exact decide_eq_true fun same => none (canonicalize_newline.mp same ▸ there)
  constructor
  · rintro ⟨_, _, ⟨rfl, rfl, front⟩, line⟩
    obtain ⟨lead, blanks, _, rfl, afterLead⟩ := (takes_star _).matches_seq.mp line
    obtain ⟨word, host, _, rfl, afterWord⟩ := takes_keywordRegexp.matches_seq.mp afterLead
    obtain ⟨gap, known, _, rfl, afterGap⟩ := (takes_plus _).matches_seq.mp afterWord
    obtain ⟨names, named, _, rfl, rfl, rfl, rfl⟩ := (takes_plus _).matches_group_seq.mp afterGap
    obtain ⟨some_gap, gap_blank⟩ := mem_plus.mp known
    obtain ⟨some_name, unbroken⟩ := mem_plus.mp named
    rw [List.append_nil] at front ⊢
    exact ⟨front, rfl, lead, word, gap, names,
      ⟨rfl, blanks, host, some_gap, gap_blank, some_name, (lines names).mp unbroken⟩, rfl⟩
  · rintro ⟨front, rfl, lead, word, gap, names, declares, rfl⟩
    refine ⟨groups, text, ⟨rfl, rfl, front⟩, ?_⟩
    apply (takes_star _).matches_seq.mpr
    refine ⟨lead, declares.lead, _, declares.whole, ?_⟩
    apply takes_keywordRegexp.matches_seq.mpr
    refine ⟨word, declares.keyword, _, rfl, ?_⟩
    apply (takes_plus _).matches_seq.mpr
    refine ⟨gap, mem_plus.mpr ⟨declares.some_gap, declares.gap⟩, names, rfl, ?_⟩
    apply (takes_plus _).matches_group_seq.mpr
    exact ⟨names, mem_plus.mpr ⟨declares.some_name, (lines names).mpr declares.line⟩, [],
      (List.append_nil _).symm, rfl, rfl, rfl⟩

/-- However the blanks are shared out, the names are the same. -/
theorem Declares.names_eq {lead keyword gap names lead' keyword' gap' names' : List Char}
    (declares : Declares table text lead keyword gap names)
    (declares' : Declares table text lead' keyword' gap' names') :
    splitString (blank table) names = splitString (blank table) names' := by
  have front : ∀ {lead keyword gap names : List Char}, Declares table text lead keyword gap names →
      text.takeWhile (blank table) = lead := by
    intro lead keyword gap names declares
    obtain ⟨h, others, rfl, letter⟩ : ∃ h others, keyword = h :: others ∧
        oneOf table ['H', 'h'] h = true := by
      have known := declares.keyword
      cases known with
      | cons isH known => exact ⟨_, _, rfl, isH⟩
    have stops : ¬ blank table h = true := by
      rw [unblank_keyword letter]
      exact Bool.false_ne_true
    rw [declares.whole, List.takeWhile_append_of_pos declares.lead, List.cons_append,
      List.takeWhile_cons_of_neg stops, List.append_nil]
  have same_lead : lead = lead' := (front declares).symm.trans (front declares')
  have lengths : keyword.length = keyword'.length :=
    (List.Forall₂.length_eq declares.keyword).trans (List.Forall₂.length_eq declares'.keyword).symm
  have whole := declares.whole.symm.trans declares'.whole
  rw [same_lead] at whole
  have same := (List.append_inj (List.append_cancel_left whole) lengths).2
  calc splitString (blank table) names
      = splitString (blank table) (gap ++ names) := (splitString_append declares.gap).symm
    _ = splitString (blank table) (gap' ++ names') := by rw [same]
    _ = splitString (blank table) names' := splitString_append declares'.gap

theorem mem_lineHosts {line host : List Char} :
    host ∈ lineHosts table line ↔ ∃ lead keyword gap names,
      Declares table (uncommented line) lead keyword gap names ∧
        host ∈ splitString (blank table) names ∧ isPattern table host = false := by
  have marked : ∀ host, isPattern table host = false → ['!'].isPrefixOf host = false := by
    intro host plain
    cases host with
    | nil => rfl
    | cons c host =>
        rw [Bool.eq_false_iff]
        intro starts
        have bang : '!' = c := by simpa using starts
        have found : isPattern table (c :: host) = true := by
          rw [isPattern, List.any_cons, ← bang, oneOf_self (by decide), Bool.true_or]
        rw [plain] at found
        cases found
  constructor
  · intro member
    unfold lineHosts at member
    split at member
    · cases member
    · rename_i groups found
      obtain ⟨start, _, suffix, matched⟩ := search_some found
      obtain ⟨lengths, -, lead, keyword, gap, names, declares, rfl⟩ := matches_hostRegexp.mp matched
      rw [suffix.eq_of_length lengths] at declares
      obtain ⟨word, plain⟩ := List.mem_filter.mp member
      have unmarked : isPattern table host = false := by
        by_contra pattern
        simp [Bool.not_eq_false _ ▸ pattern] at plain
      exact ⟨lead, keyword, gap, names, declares, word, unmarked⟩
  · rintro ⟨lead, keyword, gap, names, declares, word, plain⟩
    have matched : (hostRegexp table).Matches (uncommented line) [] (uncommented line) [(1, names)] [] :=
      matches_hostRegexp.mpr ⟨rfl, rfl, lead, keyword, gap, names, declares, rfl⟩
    obtain ⟨groups, found⟩ := Option.isSome_iff_exists.mp (search_isSome List.suffix_rfl matched)
    obtain ⟨start, _, suffix, other⟩ := search_some found
    obtain ⟨lengths, -, lead', keyword', gap', names', declares', rfl⟩ := matches_hostRegexp.mp other
    rw [suffix.eq_of_length lengths] at declares'
    have given : ([(1, names')] : Groups Char).lookup 1 = some names' := rfl
    unfold lineHosts
    rw [found]
    dsimp only
    rw [given, Option.getD_some, List.mem_filter, ← declares.names_eq declares', plain, marked host plain]
    exact ⟨word, rfl⟩

end Declarations

section Unblank

variable {table : FoldTable} {text : List Char} {groups : Groups Char}

/-- The first field has no blank in it. -/
theorem unblank_field (found : search (fieldRegexp table) text = some groups) :
    ∀ c ∈ (groups.lookup 1).getD [], blank table c = false := by
  obtain ⟨start, _, suffix, matched⟩ := search_some found
  obtain ⟨_, _, -, _, _, -, inside, taken, field, parts, rfl⟩ := matched
  obtain ⟨-, taken', known, parts'⟩ := (takes_plus _ _ _ _ _ _).mp field
  have same : taken' = taken := List.append_cancel_right (parts'.symm.trans parts)
  have given : ((1, taken) :: inside).lookup 1 = some taken := rfl
  rw [given, Option.getD_some, ← same]
  intro c there
  have passes := (mem_plus.mp known).2 c there
  simpa [unblank] using passes

theorem mem_of_knownHost {name host : List Char} (known : knownHost table name = some host) :
    ∀ c ∈ host, c ∈ name := by
  unfold knownHost at known
  split at known
  · rename_i groups found
    rw [← Option.some.inj known]
    exact mem_of_search found 1
  · split at known
    · rw [← Option.some.inj known]
      exact fun c there => there
    · cases known

theorem mem_of_splitString {separator : Char → Bool} {word : List Char}
    (member : word ∈ splitString separator text) : ∀ c ∈ word, c ∈ text :=
  fun c inside => (mem_splitOnP text word (List.mem_of_mem_filter member) c inside).1

theorem unblank_config {contents host : List Char} (member : host ∈ sshHostsFromConfig table contents) :
    ∀ c ∈ host, blank table c = false := by
  obtain ⟨line, -, named⟩ := List.mem_flatMap.mp (List.mem_reverse.mp member)
  obtain ⟨_, _, _, _, -, word, -⟩ := mem_lineHosts.mp named
  exact (splitString_free word).2

theorem unblank_knownHosts {contents host : List Char}
    (member : host ∈ sshHostsFromKnownHosts table contents) : ∀ c ∈ host, blank table c = false := by
  obtain ⟨line, -, named⟩ := List.mem_flatMap.mp (List.mem_reverse.mp member)
  unfold lineKnownHosts at named
  split at named
  · cases named
  · split at named
    · cases named
    · rename_i groups found
      obtain ⟨name, word, known⟩ := List.mem_filterMap.mp named
      intro c there
      exact unblank_field found c (mem_of_splitString word c (mem_of_knownHost known c there))

end Unblank

section Scanning

variable {table : FoldTable} {files : SshFiles}

theorem mem_scannedHosts {host : String} : host ∈ scannedHosts table files ↔
    (∃ contents, files.config = some contents ∧ host.toList ∈ sshHostsFromConfig table contents) ∨
      ∃ contents, files.knownHosts = some contents ∧
        host.toList ∈ sshHostsFromKnownHosts table contents := by
  have given : ∀ (file : Option (List Char)) (hosts : List Char → List (List Char)) name,
      name ∈ (file.map hosts).getD [] ↔ ∃ contents, file = some contents ∧ name ∈ hosts contents := by
    intro file hosts name
    cases file <;> simp
  unfold scannedHosts
  rw [List.mem_mergeSort, List.mem_dedup, List.mem_map]
  simp only [List.mem_append, given]
  constructor
  · rintro ⟨name, found, rfl⟩
    rw [String.toList_ofList]
    exact found
  · exact fun found => ⟨host.toList, found, String.ofList_toList⟩

theorem pairwise_scannedHosts : (scannedHosts table files).Pairwise (· < ·) := by
  have sorted : ∀ hosts : List String, hosts.Nodup →
      (hosts.mergeSort fun one other => one ≤ other).Pairwise (· < ·) := by
    intro hosts nodup
    have ordered : (hosts.mergeSort fun one other => one ≤ other).Pairwise (· ≤ ·) :=
      List.pairwise_mergeSort' (· ≤ ·) hosts
    have distinct : (hosts.mergeSort fun one other => one ≤ other).Nodup :=
      (List.mergeSort_perm hosts _).nodup_iff.mpr nodup
    exact (ordered.and distinct).imp fun both => lt_of_le_of_ne both.1 both.2
  exact sorted _ (List.nodup_dedup _)

/-- The configuration with a comment sign in front of line K. -/
def commentedOut (contents : List Char) (k : Nat) : List Char :=
  ['\n'].intercalate ((contents.splitOn '\n').modify k ('#' :: ·))

theorem forall_mem_modify {α : Type} {f : α → α} {P : α → Prop} (kept : ∀ x, P x → P (f x))
    {l : List α} (all : ∀ x ∈ l, P x) (k : Nat) : ∀ x ∈ l.modify k f, P x := by
  induction l generalizing k with
  | nil => simp
  | cons x l ih =>
      obtain ⟨first, others⟩ := List.forall_mem_cons.mp all
      cases k with
      | zero => simpa using ⟨kept x first, others⟩
      | succ k => simpa using ⟨first, ih others k⟩

theorem lines_commentedOut (contents : List Char) (k : Nat) :
    (commentedOut contents k).splitOn '\n' = (contents.splitOn '\n').modify k ('#' :: ·) := by
  have unbroken : ∀ line ∈ contents.splitOn '\n', '\n' ∉ line := by
    intro line there inside
    have free := (mem_splitOnP contents line there '\n' inside).2
    cases free
  apply List.splitOn_intercalate
  · apply forall_mem_modify _ unbroken
    intro line none
    simpa using none
  · intro empty
    have lengths := congrArg List.length empty
    rw [List.length_modify] at lengths
    exact List.splitOn_ne_nil '\n' contents (List.eq_nil_of_length_eq_zero lengths)

theorem flatMap_modify {α β : Type} {f : α → α} {g : α → List β} (same : ∀ x, g (f x) = g x)
    (l : List α) (k : Nat) : (l.modify k f).flatMap g = l.flatMap g := by
  induction l generalizing k with
  | nil => simp
  | cons x l ih =>
      cases k with
      | zero => simp [same]
      | succ k => simp [ih]

/-- A comment sign in front of a line makes no difference. -/
theorem sshHostsFromConfig_comment (contents : List Char) (k : Nat) :
    sshHostsFromConfig table (commentedOut contents k) = sshHostsFromConfig table contents := by
  have same : ∀ line, lineHosts table ('#' :: line) = lineHosts table line := by
    intro line
    rw [lineHosts, lineHosts, uncommented_comment]
  unfold sshHostsFromConfig
  rw [lines_commentedOut, flatMap_modify same]

end Scanning

example : (sshHostsFromConfig .lettersFolded "Host github.com devbox\n#Host old".toList).map String.ofList =
    ["old", "devbox", "hub.com", "gi"] := by decide +kernel

end EmacsRelay.RelayCompletion


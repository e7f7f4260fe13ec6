import EmacsRelay.Client.Conflict
import EmacsRelay.Core.Exec
import EmacsRelay.Lib.Regexp
import EmacsRelay.Prefetch.Reconnect

set_option autoImplicit false

/- Remote names: how `lisp/relay-core.el` takes them apart and puts them together again, and what
the handler of `lisp/relay-file-handler.el` does with a name. -/
namespace EmacsRelay

open Regexp RelayCore RelayPrefetch

/-- A case table in which characters without case stand for themselves only. -/
structure FoldTable extends CaseTable where
  idempotent : ∀ c, canonicalize (canonicalize c) = canonicalize c
  caseless : ∀ c d : Char, d.toNat < 128 → d.isAlpha = false →
    canonicalize c = canonicalize d → c = d

theorem toNat_toLower (c : Char) :
    c.toLower.toNat = if 65 ≤ c.toNat ∧ c.toNat ≤ 90 then c.toNat + 32 else c.toNat := by
  unfold Char.toLower
  split
  · rename_i upper
    have bounds : 65 ≤ c.toNat ∧ c.toNat ≤ 90 :=
      ⟨UInt32.le_iff_toNat_le.mp upper.1, UInt32.le_iff_toNat_le.mp upper.2⟩
    rw [if_pos bounds]
    show (c.val.toNat + 32) % 2 ^ 32 = c.val.toNat + 32
    exact Nat.mod_eq_of_lt (by have := bounds.2; unfold Char.toNat at this; omega)
  · rename_i other
    rw [if_neg]
    exact fun bounds => other
      ⟨UInt32.le_iff_toNat_le.mpr bounds.1, UInt32.le_iff_toNat_le.mpr bounds.2⟩

theorem isAlpha_false {c : Char} (caseless : c.isAlpha = false) :
    ¬ (65 ≤ c.toNat ∧ c.toNat ≤ 90) ∧ ¬ (97 ≤ c.toNat ∧ c.toNat ≤ 122) := by
  obtain ⟨upper, lower⟩ := Bool.or_eq_false_iff.mp caseless
  have capital : ¬ (c.val ≥ 'A'.val ∧ c.val ≤ 'Z'.val) := by
    intro bounds
    exact absurd upper (ne_false_of_eq_true (decide_eq_true bounds))
  have small : ¬ (c.val ≥ 'a'.val ∧ c.val ≤ 'z'.val) := by
    intro bounds
    have both : c.isLower = true :=
      Bool.and_eq_true_iff.mpr ⟨decide_eq_true bounds.1, decide_eq_true bounds.2⟩
    exact absurd lower (ne_false_of_eq_true both)
  simp only [ge_iff_le, UInt32.le_iff_toNat_le] at capital small
  exact ⟨capital, small⟩

namespace FoldTable

/-- `case-fold-search` is nil. -/
def exact : FoldTable where
  toCaseTable := .exact
  idempotent _ := rfl
  caseless _ _ _ _ same := same

/-- `case-fold-search` is t, as far as ASCII goes. -/
def lettersFolded : FoldTable where
  canonicalize := Char.toLower
  ascii _ _ _ _ same := same
  idempotent c := by
    apply Char.toNat_inj.mp
    rw [toNat_toLower c.toLower, if_neg]
    rw [toNat_toLower]
    split <;> omega
  caseless c d _ caseless same := by
    have other := isAlpha_false caseless
    have equal := congrArg Char.toNat same
    rw [toNat_toLower, toNat_toLower, if_neg other.1] at equal
    apply Char.toNat_inj.mp
    split at equal <;> omega

variable (table : FoldTable)

def verbatim (text : String) : Regexp Char := literal table.canonicalize text.toList

/-- `.*` -/
def anything : Regexp Char := star fun c => table.canonicalize c ≠ '\n'

/-- `/.*\|~\(?:/.*\)?` -/
def localRegexp : Regexp Char :=
  .alt (.seq (table.verbatim "/") table.anything)
    (.seq (table.verbatim "~") (opt (.seq (table.verbatim "/") table.anything)))

/-- The pattern of `relay--parse`. -/
def nameRegexp : Regexp Char :=
  .seq .bos <| .seq (table.verbatim "/relay:") <|
    .seq (.group 1 (plus fun c => table.canonicalize c ≠ table.canonicalize ':')) <|
    .seq (table.verbatim ":") <| .seq (.group 2 table.localRegexp) .eos

/-- `relay--parse`, where `string-match` folds case by this table. -/
def relayParse (filename : String) : Option (String × String) :=
  (search table.nameRegexp filename.toList).map fun groups =>
    (.ofList ((groups.lookup 1).getD []), .ofList ((groups.lookup 2).getD []))

end FoldTable

/-- A local name that is absolute, the remote home, or below it. -/
inductive Led : List Char → Prop where
  | absolute (rest : List Char) : Led ('/' :: rest)
  | home : Led ['~']
  | below_home (rest : List Char) : Led ('~' :: '/' :: rest)

/-- The authority and the local name of a file. -/
structure RemoteName (authority localName : List Char) : Prop where
  named : authority ≠ []
  bare : ':' ∉ authority
  led : Led localName

/-- Texts without newlines, which the dot does not match. -/
def unbroken : Language Char := {taken | '\n' ∉ taken}

def localNames : Language Char := {taken | Led taken ∧ '\n' ∉ taken}

section Parsing

variable {table : FoldTable}

theorem eq_of_canonicalize_colon {c : Char} :
    table.canonicalize c = table.canonicalize ':' ↔ c = ':' :=
  ⟨table.caseless c ':' (by decide) (by decide), congrArg table.canonicalize⟩

theorem canonicalize_newline {c : Char} : table.canonicalize c = '\n' ↔ c = '\n' := by
  have itself : table.canonicalize '\n' = '\n' :=
    table.caseless _ '\n' (by decide) (by decide) (table.idempotent '\n')
  constructor
  · intro same
    exact table.caseless c '\n' (by decide) (by decide) (same.trans itself.symm)
  · rintro rfl
    exact itself

/-- A character without case is matched by itself. -/
theorem takes_caseless {c : Char} {word : String} (one : word.toList = [c]) (low : c.toNat < 128)
    (caseless : c.isAlpha = false) : (table.verbatim word).Takes {[c]} := by
  apply (takes_literal _ _).congr
  intro taken
  rw [one]
  constructor
  · intro same
    obtain ⟨d, rfl, equal⟩ := List.map_eq_singleton_iff.mp same
    exact congrArg (fun d => [d]) (table.caseless d c low caseless equal)
  · rintro rfl
    rfl

theorem takes_anything : table.anything.Takes unbroken := by
  apply (takes_star _).congr
  intro taken
  constructor
  · intro all newline
    exact of_decide_eq_true (all _ newline) (canonicalize_newline.mpr rfl)
  · intro none c there
    exact decide_eq_true fun same => none (canonicalize_newline.mp same ▸ there)

theorem newline_cons {c : Char} {rest : List Char} (other : c ≠ '\n') :
    '\n' ∉ c :: rest ↔ '\n' ∉ rest := by
  rw [List.mem_cons, not_or]
  exact and_iff_right other.symm

theorem takes_localRegexp : table.localRegexp.Takes localNames := by
  have slash : (table.verbatim "/").Takes {['/']} := takes_caseless rfl (by decide) (by decide)
  have tilde : (table.verbatim "~").Takes {['~']} := takes_caseless rfl (by decide) (by decide)
  have below : (seq (table.verbatim "/") table.anything).Takes ({['/']} * unbroken) :=
    slash.seq takes_anything
  apply (below.alt (tilde.seq below.opt)).congr
  intro taken
  constructor
  · rintro (absolute | home)
    · obtain ⟨_, rfl, rest, lines, rfl⟩ := Language.mem_mul.mp absolute
      exact ⟨.absolute rest, (newline_cons (by decide)).mpr lines⟩
    · obtain ⟨_, rfl, _, absolute | rfl, rfl⟩ := Language.mem_mul.mp home
      · obtain ⟨_, rfl, rest, lines, rfl⟩ := Language.mem_mul.mp absolute
        exact ⟨.below_home rest, (newline_cons (by decide)).mpr
          ((newline_cons (by decide)).mpr lines)⟩
      · exact ⟨.home, by decide⟩
  · rintro ⟨led, lines⟩
    cases led with
    | absolute rest =>
        have lines := (newline_cons (by decide)).mp lines
        exact .inl (Language.mem_mul.mpr ⟨['/'], rfl, rest, lines, rfl⟩)
    | home => exact .inr (Language.mem_mul.mpr ⟨['~'], rfl, [], .inr rfl, rfl⟩)
    | below_home rest =>
        have lines := (newline_cons (by decide)).mp ((newline_cons (by decide)).mp lines)
        exact .inr (Language.mem_mul.mpr ⟨['~'], rfl, '/' :: rest,
          .inl (Language.mem_mul.mpr ⟨['/'], rfl, rest, lines, rfl⟩), rfl⟩)

/-- What the pattern takes for the parts of a name; START stands for `/relay:`. -/
structure Parts (table : FoldTable) (text start authority localName : List Char) : Prop where
  whole : text = start ++ (authority ++ ':' :: localName)
  start : start.map table.canonicalize = "/relay:".toList.map table.canonicalize
  remote : RemoteName authority localName
  lines : '\n' ∉ localName

theorem mem_authorities {authority : List Char} :
    (authority ∈ single (fun c => table.canonicalize c ≠ table.canonicalize ':') *
        every fun c => table.canonicalize c ≠ table.canonicalize ':') ↔
      authority ≠ [] ∧ ':' ∉ authority := by
  rw [mem_plus]
  simp only [decide_eq_true_eq, ne_eq, eq_of_canonicalize_colon]
  exact and_congr_right fun _ =>
    ⟨fun others there => others _ there rfl, fun none c there same => none (same ▸ there)⟩

theorem matches_nameRegexp {whole text rest : List Char} {groups after : Groups Char} :
    table.nameRegexp.Matches whole groups text after rest ↔
      text.length = whole.length ∧ rest = [] ∧ ∃ start authority localName,
        Parts table text start authority localName ∧
          after = (2, localName) :: (1, authority) :: groups := by
  have colon : (table.verbatim ":").Takes {[':']} := takes_caseless rfl (by decide) (by decide)
  have relay : (table.verbatim "/relay:").Takes (alike table.canonicalize "/relay:".toList) :=
    takes_literal _ _
  constructor
  · rintro ⟨_, _, ⟨rfl, rfl, front⟩, name⟩
    obtain ⟨start, same, _, rfl, afterStart⟩ := relay.matches_seq.mp name
    obtain ⟨authority, known, _, rfl, afterName⟩ := (takes_plus _).matches_group_seq.mp afterStart
    obtain ⟨named, bare⟩ := mem_authorities.mp known
    obtain ⟨_, rfl, _, rfl, afterColon⟩ := colon.matches_seq.mp afterName
    obtain ⟨localName, ⟨led, lines⟩, _, rfl, rfl, rfl, rfl⟩ :=
      takes_localRegexp.matches_group_seq.mp afterColon
    rw [List.append_nil] at front ⊢
    exact ⟨front, rfl, start, authority, localName, ⟨rfl, same, ⟨named, bare, led⟩, lines⟩, rfl⟩
  · rintro ⟨front, rfl, start, authority, localName, parts, rfl⟩
    refine ⟨groups, text, ⟨rfl, rfl, front⟩, ?_⟩
    apply relay.matches_seq.mpr
    refine ⟨start, parts.start, _, parts.whole, ?_⟩
    apply (takes_plus _).matches_group_seq.mpr
    refine ⟨authority, mem_authorities.mpr ⟨parts.remote.named, parts.remote.bare⟩, _, rfl, ?_⟩
    apply colon.matches_seq.mpr
    refine ⟨[':'], rfl, localName, rfl, ?_⟩
    apply takes_localRegexp.matches_group_seq.mpr
    exact ⟨localName, ⟨parts.remote.led, parts.lines⟩, [], (List.append_nil _).symm, rfl, rfl, rfl⟩

/-- An authority ends at the first colon. -/
theorem colon_inj {authority other localName localName' : List Char} (bare : ':' ∉ authority)
    (bare' : ':' ∉ other) (same : authority ++ ':' :: localName = other ++ ':' :: localName') :
    authority = other ∧ localName = localName' := by
  have front := congrArg (List.takeWhile (· ≠ ':')) same
  rw [takeWhile_mark bare, takeWhile_mark bare'] at front
  subst front
  exact ⟨rfl, (List.cons.inj (List.append_cancel_left same)).2⟩

theorem Parts.unique {text start start' authority other localName localName' : List Char}
    (parts : Parts table text start authority localName)
    (parts' : Parts table text start' other localName') :
    authority = other ∧ localName = localName' := by
  have lengths : start.length = start'.length := by
    have same := congrArg List.length (parts.start.trans parts'.start.symm)
    rwa [List.length_map, List.length_map] at same
  have same := List.append_inj_right (parts.whole.symm.trans parts'.whole) lengths
  exact colon_inj parts.remote.bare parts'.remote.bare same

theorem parts_of_search {text : List Char} {groups : Groups Char}
    (found : search table.nameRegexp text = some groups) :
    ∃ start authority localName, Parts table text start authority localName ∧
      groups = [(2, localName), (1, authority)] := by
  obtain ⟨front, end_, suffix, matched⟩ := search_some found
  obtain ⟨lengths, -, known⟩ := matches_nameRegexp.mp matched
  rw [suffix.eq_of_length lengths] at known
  exact known

theorem Parts.search {text start authority localName : List Char}
    (parts : Parts table text start authority localName) :
    search table.nameRegexp text = some [(2, localName), (1, authority)] := by
  have matched : table.nameRegexp.Matches text [] text [(2, localName), (1, authority)] [] :=
    matches_nameRegexp.mpr ⟨rfl, rfl, start, authority, localName, parts, rfl⟩
  obtain ⟨groups, found⟩ := Option.isSome_iff_exists.mp (search_isSome List.suffix_rfl matched)
  obtain ⟨start', other, localName', parts', rfl⟩ := parts_of_search found
  obtain ⟨rfl, rfl⟩ := parts.unique parts'
  exact found

/-- `relay--parse` accepts what has these parts. -/
theorem relayParse_eq_some_iff {filename authority localName : String} :
    table.relayParse filename = some (authority, localName) ↔
      ∃ start, Parts table filename.toList start authority.toList localName.toList := by
  unfold FoldTable.relayParse
  rw [Option.map_eq_some_iff]
  constructor
  · rintro ⟨groups, found, same⟩
    obtain ⟨start, _, _, parts, rfl⟩ := parts_of_search found
    obtain ⟨rfl, rfl⟩ := Prod.mk.inj same
    refine ⟨start, ?_⟩
    rw [String.toList_ofList, String.toList_ofList]
    exact parts
  · rintro ⟨start, parts⟩
    refine ⟨_, parts.search, ?_⟩
    exact Prod.ext String.ofList_toList String.ofList_toList

theorem toList_relayWrap (authority localName : String) :
    (relayWrap authority localName).toList =
      "/relay:".toList ++ (authority.toList ++ ':' :: localName.toList) := by
  unfold relayWrap
  rw [String.toList_append, String.toList_append, String.toList_append, List.append_assoc,
    List.append_assoc]
  rfl

theorem prefix_relayWrap (authority localName : String) :
    stringPrefixP "/relay:" (relayWrap authority localName) = true := by
  rw [stringPrefixP_iff]
  exact ⟨authority ++ (":" ++ localName), String.append_assoc.trans String.append_assoc⟩

theorem relayParse_wrap_iff {authority localName : String} :
    table.relayParse (relayWrap authority localName) = some (authority, localName) ↔
      RemoteName authority.toList localName.toList ∧ '\n' ∉ localName.toList := by
  rw [relayParse_eq_some_iff]
  constructor
  · rintro ⟨start, parts⟩
    exact ⟨parts.remote, parts.lines⟩
  · rintro ⟨remote, lines⟩
    exact ⟨_, toList_relayWrap authority localName, rfl, remote, lines⟩

example : FoldTable.lettersFolded.relayParse "/relay:ssh+devbox:~/project/file" =
    some ("ssh+devbox", "~/project/file") := by decide +kernel

/-- The name is put together again from what `relay--parse` makes of it. -/
def WrapsBack (table : FoldTable) (filename : String) : Prop :=
  ∀ authority localName, table.relayParse filename = some (authority, localName) →
    filename = relayWrap authority localName

/-- A remote name, were it not for the case of the letters in `/relay:`, which the table does not
tell apart. -/
def Disguised (table : FoldTable) (filename : String) : Prop :=
  ∃ (start : List Char) (authority localName : String),
    Parts table filename.toList start authority.toList localName.toList ∧
      start ≠ "/relay:".toList

theorem wrapsBack_iff {filename : String} :
    WrapsBack table filename ↔ ¬ Disguised table filename := by
  constructor
  · rintro wraps ⟨start, authority, localName, parts, other⟩
    have accepted := relayParse_eq_some_iff.mpr ⟨start, parts⟩
    have same := congrArg String.toList (wraps authority localName accepted)
    rw [toList_relayWrap, parts.whole] at same
    exact other (List.append_cancel_right same)
  · intro plain authority localName accepted
    obtain ⟨start, parts⟩ := relayParse_eq_some_iff.mp accepted
    apply String.toList_inj.mp
    rw [toList_relayWrap, parts.whole]
    by_cases same : start = "/relay:".toList
    · rw [same]
    · exact absurd ⟨start, _, _, parts, same⟩ plain

/-- The local names that `relayParse` tests for. -/
theorem led_iff (localName : List Char) :
    (match localName with
      | '/' :: _ => true
      | ['~'] => true
      | '~' :: '/' :: _ => true
      | _ => false) = true ↔ Led localName := by
  constructor
  · intro shape
    split at shape
    · exact .absolute _
    · exact .home
    · exact .below_home _
    · cases shape
  · intro led
    cases led <;> rfl

/-- `relayParse` accepts what has these parts where letters are folded. -/
theorem relayParse_iff_parts {filename authority localName : String} :
    EmacsRelay.relayParse filename = some (authority, localName) ↔
      ∃ start, Parts .lettersFolded filename.toList start authority.toList localName.toList := by
  have folded : "/relay:".toList.map Char.toLower = "/relay:".toList := by decide
  constructor
  · intro accepted
    unfold EmacsRelay.relayParse at accepted
    dsimp only at accepted
    split at accepted
    · rename_i front
      split at accepted
      · rename_i localPart after
        obtain ⟨passes, same⟩ := Option.ite_none_right_eq_some.mp accepted
        simp only [Bool.and_eq_true, decide_eq_true_eq, List.all_eq_true] at passes
        obtain ⟨⟨named, shape⟩, lines⟩ := passes
        cases same
        rw [String.toList_ofList, String.toList_ofList]
        refine ⟨filename.toList.take 7, ?_, front.trans folded.symm, ⟨named, ?_, ?_⟩, ?_⟩
        · rw [← after, List.takeWhile_append_dropWhile, List.take_append_drop]
        · intro there
          have other := List.mem_takeWhile_imp there
          exact of_decide_eq_true other rfl
        · exact (led_iff localPart).mp shape
        · exact fun there => lines _ there rfl
      · cases accepted
    · cases accepted
  · rintro ⟨start, parts⟩
    have seven : start.length = 7 := by
      have same := congrArg List.length parts.start
      rwa [List.length_map, List.length_map] at same
    have front : start.map Char.toLower = "/relay:".toList := Eq.trans parts.start folded
    have remote := parts.remote
    simp only [EmacsRelay.relayParse, parts.whole, List.take_left' seven, List.drop_left' seven,
      front, takeWhile_mark remote.bare, dropWhile_mark remote.bare]
    rw [if_pos trivial, if_pos, String.ofList_toList, String.ofList_toList]
    simp only [Bool.and_eq_true, decide_eq_true_eq, List.all_eq_true]
    exact ⟨⟨remote.named, (led_iff _).mpr remote.led⟩,
      fun c there same => parts.lines (same ▸ there)⟩

/-- The search is the decision of `relayParse`, where `case-fold-search` is on. -/
theorem relayParse_lettersFolded (filename : String) :
    FoldTable.lettersFolded.relayParse filename = EmacsRelay.relayParse filename := by
  apply Option.ext
  rintro ⟨authority, localName⟩
  rw [relayParse_iff_parts, relayParse_eq_some_iff]

/-- Emacs calls the handler for names that are not disguised. -/
theorem plain_of_starts {filename : String} (starts : stringPrefixP "/relay:" filename = true) :
    ¬ Disguised table filename := by
  rintro ⟨start, authority, localName, parts, other⟩
  obtain ⟨rest, rfl⟩ := (stringPrefixP_iff _ _).mp starts
  have lengths : "/relay:".toList.length = start.length := by
    have same := congrArg List.length parts.start
    rw [List.length_map, List.length_map] at same
    exact same.symm
  have whole := parts.whole
  rw [String.toList_append] at whole
  exact other (List.append_inj_left whole lengths).symm

/-- On names that are not disguised, all tables find the same. -/
theorem relayParse_of_plain {other : FoldTable} {filename : String}
    (plain : ¬ Disguised table filename) (also : ¬ Disguised other filename) :
    table.relayParse filename = other.relayParse filename := by
  have parsed : ∀ {table : FoldTable}, ¬ Disguised table filename → ∀ authority localName,
      table.relayParse filename = some (authority, localName) ↔
        filename = relayWrap authority localName ∧
          RemoteName authority.toList localName.toList ∧ '\n' ∉ localName.toList := by
    intro table plain authority localName
    constructor
    · intro accepted
      have same := wrapsBack_iff.mpr plain authority localName accepted
      rw [same] at accepted
      exact ⟨same, relayParse_wrap_iff.mp accepted⟩
    · rintro ⟨rfl, remote⟩
      exact relayParse_wrap_iff.mpr remote
  apply Option.ext
  rintro ⟨authority, localName⟩
  rw [parsed plain, parsed also]

/-- Of the names that Emacs gives to the handler, the save path and the handler find the same. -/
theorem relayParse_of_starts {filename : String}
    (starts : stringPrefixP "/relay:" filename = true) :
    table.relayParse filename = EmacsRelay.relayParse filename := by
  rw [← relayParse_lettersFolded]
  exact relayParse_of_plain (plain_of_starts starts) (plain_of_starts starts)

end Parsing

/-- The operations of `relay--handlers` and `relay--pure-path-ops`, and any other. -/
inductive FileOperation where
  | expandFileName
  | fileAttributes
  | fileExistsP
  | fileDirectoryP
  | fileRegularP
  | fileSymlinkP
  | fileReadableP
  | fileWritableP
  | directoryFiles
  | fileNameAllCompletions
  | fileNameCompletion
  | insertDirectory
  | insertFileContents
  | writeRegion
  | fileTruename
  | fileRemoteP
  | fileLocalCopy
  | fileNotifyAddWatch
  | fileNotifyRmWatch
  | directoryFilesAndAttributes
  | makeDirectory
  | deleteDirectory
  | deleteFile
  | copyFile
  | renameFile
  | getFileBuffer
  | fileNewerThanFileP
  | fileSystemInfo
  | setVisitedFileModtime
  | verifyVisitedFileModtime
  | findBackupFileName
  | makeAutoSaveFileName
  | diredUncache
  | fileModes
  | lockFile
  | unlockFile
  | fileLockedP
  | vcRegistered
  | processFile
  | startFileProcess
  | shellCommand
  | directoryFileName
  | fileNameAsDirectory
  | fileNameDirectory
  | fileNameNondirectory
  | fileNameSansVersions
  | unhandledFileNameDirectory
  | abbreviateFileName
  | substituteInFileName
  | fileNameCaseInsensitiveP
  | other (symbol : String)
deriving DecidableEq

/-- `relay--h-` and the name of the operation, or `relay--h-unsupported` with that name. -/
inductive HandlerFunction where
  | relayH (operation : FileOperation)
  | unsupported (operation : FileOperation)
deriving DecidableEq

/-- The operations with a function of their own. -/
def ownOperations : List FileOperation :=
  [.expandFileName, .fileAttributes, .fileExistsP, .fileDirectoryP, .fileRegularP, .fileSymlinkP,
    .fileReadableP, .fileWritableP, .directoryFiles, .fileNameAllCompletions, .fileNameCompletion,
    .insertDirectory, .insertFileContents, .writeRegion, .fileTruename, .fileRemoteP,
    .fileLocalCopy, .fileNotifyAddWatch, .fileNotifyRmWatch, .directoryFilesAndAttributes,
    .makeDirectory, .deleteDirectory, .deleteFile, .copyFile, .renameFile, .getFileBuffer,
    .fileNewerThanFileP, .fileSystemInfo, .setVisitedFileModtime, .verifyVisitedFileModtime,
    .findBackupFileName, .makeAutoSaveFileName, .diredUncache, .fileModes, .lockFile, .unlockFile,
    .fileLockedP, .vcRegistered]

def unsupportedOperations : List FileOperation := [.processFile, .startFileProcess, .shellCommand]

/-- `relay--handlers`. -/
def relayHandlers : List (FileOperation × HandlerFunction) :=
  ownOperations.map (fun operation => (operation, .relayH operation)) ++
    unsupportedOperations.map fun operation => (operation, .unsupported operation)

/-- `relay--pure-path-ops`. -/
def relayPurePathOps : List FileOperation :=
  [.directoryFileName, .fileNameAsDirectory, .fileNameDirectory, .fileNameNondirectory,
    .fileNameSansVersions, .unhandledFileNameDirectory, .abbreviateFileName,
    .substituteInFileName, .fileNameCaseInsensitiveP]

/-- What becomes of an operation. -/
inductive Dispatch where
  /-- `relay--run-real` -/
  | runReal
  | apply (function : HandlerFunction)
  /-- The file name itself, or nil, is the value. -/
  | unchanged
  | nil
  | userError (text : String)
  /-- The error that the operation is not implemented yet. -/
  | notImplemented (operation : FileOperation)
deriving DecidableEq

/-- Operations that answer nil for an incomplete name. -/
def absentOperations : List FileOperation :=
  [.fileExistsP, .fileDirectoryP, .fileRegularP, .fileReadableP, .fileWritableP, .fileSymlinkP,
    .fileAttributes]

def incompletePath : String :=
  "relay: incomplete path; press TAB for ssh+ and a host, or use /relay:ssh+HOST:/path"

/-- `relay-file-name-handler`, by the first argument where that is a string. -/
def relayFileNameHandler (table : FoldTable) (operation : FileOperation) (filename : Option String) :
    Dispatch :=
  if operation ∈ relayPurePathOps then .runReal
  else if filename.any fun name => stringPrefixP "/relay:" name && (table.relayParse name).isNone
  then
    if operation = .expandFileName then .unchanged
    else if operation ∈ absentOperations then .nil
    else .userError incompletePath
  else match relayHandlers.lookup operation with
    | some function => .apply function
    | none => .notImplemented operation

/-- Emacs gives the name to the handler, every operation on it goes to its function, and that
takes it for this file. -/
structure Addressed (table : FoldTable) (filename authority localName : String) : Prop where
  called : stringPrefixP "/relay:" filename = true
  handled : ∀ operation function, (operation, function) ∈ relayHandlers →
    relayFileNameHandler table operation (some filename) = .apply function
  parsed : table.relayParse filename = some (authority, localName)

section Addressing

variable {table : FoldTable} {authority localName : String}

theorem relayHandlers_found : ∀ entry ∈ relayHandlers,
    entry.1 ∉ relayPurePathOps ∧ relayHandlers.lookup entry.1 = some entry.2 := by decide +kernel

theorem addressed_iff :
    Addressed table (relayWrap authority localName) authority localName ↔
      RemoteName authority.toList localName.toList ∧ '\n' ∉ localName.toList := by
  rw [← relayParse_wrap_iff]
  constructor
  · exact Addressed.parsed
  · intro parsed
    constructor
    case called => exact prefix_relayWrap authority localName
    case handled =>
      intro operation function there
      obtain ⟨real, found⟩ := relayHandlers_found _ there
      simp [relayFileNameHandler, real, parsed, found]
    case parsed => exact parsed

theorem led_cons_iff {c : Char} {rest : List Char} :
    Led (c :: rest) ↔ c = '/' ∨ c = '~' ∧ (rest = [] ∨ ∃ more, rest = '/' :: more) := by
  constructor
  · intro led
    cases led with
    | absolute => exact .inl rfl
    | home => exact .inr ⟨rfl, .inl rfl⟩
    | below_home more => exact .inr ⟨rfl, .inr ⟨more, rfl⟩⟩
  · rintro (rfl | ⟨rfl, rfl | ⟨more, rfl⟩⟩)
    · exact .absolute rest
    · exact .home
    · exact .below_home more

/-- The slash that `file-name-as-directory` puts at the end, if it does. -/
def closing (chars : List Char) : List Char := if chars.getLast? = some '/' then [] else ['/']

theorem toList_entryPath {dir : String} (entry : String) (some_char : dir.toList ≠ []) :
    (entryPath dir entry).toList = dir.toList ++ (closing dir.toList ++ entry.toList) := by
  unfold entryPath fileNameAsDirectory closing
  rw [if_neg some_char]
  by_cases ends : dir.toList.getLast? = some '/'
  · rw [if_pos ends, if_pos ends, String.toList_append, List.nil_append]
  · rw [if_neg ends, if_neg ends, String.toList_append, String.toList_append, List.append_assoc]
    rfl

theorem led_entryPath_iff {dir : String} (entry : String) (some_char : dir.toList ≠ []) :
    Led (entryPath dir entry).toList ↔ Led dir.toList := by
  rw [toList_entryPath entry some_char]
  cases text : dir.toList with
  | nil => exact absurd text some_char
  | cons c chars =>
      rw [List.cons_append, led_cons_iff, led_cons_iff]
      apply or_congr_right
      apply and_congr_right
      rintro rfl
      cases chars with
      | nil => exact iff_of_true (.inr ⟨entry.toList, rfl⟩) (.inl rfl)
      | cons d chars => simp

/-- The name of an entry of a wrapped directory is the wrapped name of the entry. -/
theorem entryPath_relayWrap {dir : String} (entry : String) (some_char : dir.toList ≠ []) :
    entryPath (relayWrap authority dir) entry = relayWrap authority (entryPath dir entry) := by
  have wrapped : (relayWrap authority dir).toList ≠ [] := by
    rw [toList_relayWrap]
    exact nofun
  have parts : (relayWrap authority dir).toList =
      ("/relay:".toList ++ (authority.toList ++ [':'])) ++ dir.toList := by
    rw [toList_relayWrap, List.append_assoc, List.append_assoc]
    rfl
  have same : closing (relayWrap authority dir).toList = closing dir.toList := by
    unfold closing
    rw [parts, List.getLast?_append_of_ne_nil _ some_char]
  apply String.toList_inj.mp
  rw [toList_entryPath entry wrapped, same, toList_relayWrap, toList_relayWrap,
    toList_entryPath entry some_char]
  simp only [List.append_assoc, List.cons_append]

theorem entry_addressed_iff {dir entry : String} :
    Addressed table (entryPath (relayWrap authority dir) entry) authority (entryPath dir entry) ↔
      RemoteName authority.toList dir.toList ∧ '\n' ∉ dir.toList ∧ '\n' ∉ entry.toList := by
  by_cases some_char : dir.toList = []
  · have blank : dir = "" := String.toList_inj.mp some_char
    apply iff_of_false
    · intro addressed
      obtain ⟨start, parts⟩ := relayParse_eq_some_iff.mp addressed.parsed
      have relative : (entryPath dir entry).toList = '.' :: '/' :: entry.toList := by
        rw [blank, entryPath, String.toList_append]
        rfl
      have led := parts.remote.led
      rw [relative] at led
      cases led
    · rintro ⟨remote, -⟩
      have led := remote.led
      rw [some_char] at led
      cases led
  · rw [entryPath_relayWrap entry some_char, addressed_iff]
    have closed : '\n' ∉ closing dir.toList := by
      unfold closing
      split <;> decide
    have lines : '\n' ∉ (entryPath dir entry).toList ↔
        '\n' ∉ dir.toList ∧ '\n' ∉ entry.toList := by
      rw [toList_entryPath entry some_char, List.mem_append, List.mem_append, not_or, not_or]
      exact and_congr_right fun _ => and_iff_right closed
    rw [lines]
    apply and_congr_left
    intro _
    constructor
    · exact fun remote =>
        ⟨remote.named, remote.bare, (led_entryPath_iff entry some_char).mp remote.led⟩
    · exact fun remote =>
        ⟨remote.named, remote.bare, (led_entryPath_iff entry some_char).mpr remote.led⟩

end Addressing

/-- A name is parsed back if it has an authority without colons and a local name that is absolute
or in the remote home, without newlines; what is parsed is wrapped back unless only the table makes
`/relay:` of its front; and an entry of a listing can be addressed under such a directory if its
name has no newline. -/
theorem names_parse_back_iff (table : FoldTable) :
    (∀ authority localName,
      table.relayParse (relayWrap authority localName) = some (authority, localName) ↔
        RemoteName authority.toList localName.toList ∧ '\n' ∉ localName.toList) ∧
    (∀ filename, WrapsBack table filename ↔ ¬ Disguised table filename) ∧
    ∀ authority dir entry,
      Addressed table (entryPath (relayWrap authority dir) entry) authority
          (entryPath dir entry) ↔
        RemoteName authority.toList dir.toList ∧ '\n' ∉ dir.toList ∧ '\n' ∉ entry.toList :=
  ⟨fun _ _ => relayParse_wrap_iff, fun _ => wrapsBack_iff, fun _ _ _ => entry_addressed_iff⟩

/-- The file `a`, newline, `b` in the root directory, and a name in capitals. -/
theorem newline_not_parsed :
    (RemoteName "h".toList "/a\nb".toList ∧ '\x00' ∉ "/a\nb".toList ∧
      FoldTable.lettersFolded.relayParse (relayWrap "h" "/a\nb") = none ∧
      relayFileNameHandler .lettersFolded .fileExistsP (some (relayWrap "h" "/a\nb")) = .nil) ∧
    FoldTable.lettersFolded.relayParse "/RELAY:h:/f" = some ("h", "/f") ∧
      relayWrap "h" "/f" ≠ "/RELAY:h:/f" := by
  refine ⟨⟨⟨by decide, by decide, .absolute _⟩, by decide, ?_, ?_⟩, ?_, by decide⟩
  · decide +kernel
  · decide +kernel
  · decide +kernel

end EmacsRelay

import EmacsRelay.Completion.Candidates

set_option autoImplicit false

/- The advice of `lisp/relay-completion.el` around the completion functions of the editor: what each
of them offers for a name that is not complete yet. -/
namespace EmacsRelay.RelayCompletion

open RelayPrefetch

/-- What a completion function returns an element of: some return the symbols of methods too. -/
inductive Provided where
  | string (text : String)
  | symbol (name : String)
deriving DecidableEq, Repr

/-- The elements for which `stringp` holds. -/
def stringps (provided : List Provided) : List String :=
  provided.filterMap fun
    | .string text => some text
    | .symbol _ => none

/-- `relay--completion-fullname`. -/
def completionFullname (file directory : String) : String :=
  if stringPrefixP "/" file then file
  else if stringPrefixP "/relay:" directory then directory ++ file
  else fileNameAsDirectory directory ++ file

/-- `relay--completion-directory-prefix`. -/
def completionDirectoryPrefix (directory : String) : String :=
  if stringPrefixP "/relay:" directory then directory else fileNameAsDirectory directory

/-- What is left of a candidate behind START, if it begins with that. -/
def relativeTo (start candidate : String) : String :=
  if stringPrefixP start candidate then String.ofList (candidate.toList.drop start.toList.length)
  else candidate

/-- What the minibuffer completes with: the hosts, and whether it completes a file name. -/
structure Minibuffer where
  table : FoldTable
  hosts : List String
  completing : Bool := true

namespace Minibuffer

variable (minibuffer : Minibuffer)

def candidates (fullname : String) : List String :=
  partialCompletionCandidates minibuffer.table minibuffer.hosts fullname

/-- `relay--minibuffer-completion-candidates`; an argument that is no string is none. -/
def completionCandidates (file directory : Option String) : List String :=
  match file, directory with
  | some file, some directory =>
      if minibuffer.completing then
        (minibuffer.candidates (completionFullname file directory)).map
          (relativeTo (completionDirectoryPrefix directory))
      else []
  | _, _ => []

/-- At the local root, with a name that is not a remote one. -/
def atRoot (file directory : String) : Bool :=
  directory = "/" && !stringPrefixP "/relay:" (completionFullname file directory)

/-- `relay--advice-file-name-all-completions`. -/
def fileNameAllCompletions (original : Option String → Option String → List Provided)
    (file directory : Option String) : List Provided :=
  match minibuffer.completionCandidates file directory, file, directory with
  | candidate :: candidates, some file', some directory' =>
      if atRoot file' directory' then
        ((candidate :: candidates) ++ stringps (original file directory)).eraseDups.map .string
      else (candidate :: candidates).map .string
  | _, _, _ => original file directory

/-- What `try-completion` is called with, after a message. -/
structure TryCompletion where
  file : String
  collection : List String
  predicate : Option (String → Bool)
  message : Option String

/-- `relay--advice-file-name-completion`; none where it leaves it to the original function. The call
of `file-name-all-completions` in it is advised. -/
def fileNameCompletion (original : Option String → Option String → List Provided)
    (expandFileName : String → String → String) (file directory : Option String)
    (predicate : Option (String → Bool)) : Option TryCompletion :=
  match minibuffer.completionCandidates file directory, file, directory with
  | candidate :: candidates, some file', some directory' =>
      let fullname := completionFullname file' directory'
      let allCandidates :=
        if fullname = "/relay:" then
          (candidate :: candidates).filter fun text => "ssh+".toList.isSuffixOf text.toList
        else if atRoot file' directory' then
          ((candidate :: candidates) ++
            stringps (minibuffer.fileNameAllCompletions original file directory)).eraseDups
        else candidate :: candidates
      some
        { file := file'
          collection := allCandidates
          predicate :=
            if atRoot file' directory' then
              predicate.map fun accepts entry =>
                stringPrefixP "relay:" entry || accepts (expandFileName entry directory')
            else none
          message :=
            if (Regexp.search (.seq .bos (.seq (minibuffer.table.verbatim "/relay:ssh+") .eos))
                fullname.toList).isSome && 1 < allCandidates.length then
              some ("relay SSH targets: " ++ ", ".intercalate allCandidates ++
                " (type a prefix to narrow)")
            else none }
  | _, _, _ => none

/-- `relay--advice-completion-all-completions`: what replaces the text from a position on, and the
position; none where it leaves it to the original function. -/
def completionAllCompletions (string : Option String) (collection : String) :
    Option (List String × Nat) :=
  match string with
  | none => none
  | some string =>
      if collection = "read-file-name-internal" ∨ collection = "completion-file-name-table" then
        if stringPrefixP "/relay:" string then
          match minibuffer.candidates string with
          | [] => none
          | candidates =>
              let base :=
                if stringPrefixP "/relay:ssh+" string then "/relay:ssh+".toList.length
                else "/relay:".toList.length
              some (candidates.map fun candidate => String.ofList (candidate.toList.drop base), base)
        else none
      else none

end Minibuffer

section Duplicates

variable {α : Type} [BEq α] [LawfulBEq α]

theorem nodup_eraseDups (texts : List α) : texts.eraseDups.Nodup := by
  induction length : texts.length using Nat.strongRecOn generalizing texts with
  | ind n ih =>
      cases texts with
      | nil => simp
      | cons text texts =>
          rw [List.eraseDups_cons, List.nodup_cons]
          constructor
          · rw [List.mem_eraseDups, List.mem_filter]
            simp
          · apply ih _ _ _ rfl
            have fewer := List.length_filter_le (fun other => !other == text) texts
            rw [← length, List.length_cons]
            omega

theorem eraseDups_of_nodup {texts : List α} (nodup : texts.Nodup) : texts.eraseDups = texts := by
  induction texts with
  | nil => rfl
  | cons text texts ih =>
      obtain ⟨absent, nodup⟩ := List.nodup_cons.mp nodup
      have all : texts.filter (fun other => !other == text) = texts := by
        apply List.filter_eq_self.mpr
        intro other there
        simp only [Bool.not_eq_true', beq_eq_false_iff_ne]
        exact fun same => absent (same ▸ there)
      rw [List.eraseDups_cons, all, ih nodup]

/-- Once duplicates of a list are gone, its front can be put before it again. -/
theorem eraseDups_append_eraseDups (front back : List α) :
    (front ++ (front ++ back).eraseDups).eraseDups = (front ++ back).eraseDups := by
  have parts : (front ++ back).eraseDups = front.eraseDups ++ (back.removeAll front).eraseDups :=
    List.eraseDups_append
  have none : front.eraseDups.removeAll front = [] := by
    apply List.filter_eq_nil_iff.mpr
    intro text there
    simpa using List.mem_eraseDups.mp there
  have rest : (back.removeAll front).eraseDups.removeAll front =
      (back.removeAll front).eraseDups := by
    apply List.filter_eq_self.mpr
    intro text there
    exact (List.mem_filter.mp (List.mem_eraseDups.mp there)).2
  have removed : (front ++ back).eraseDups.removeAll front = (back.removeAll front).eraseDups := by
    rw [parts, List.removeAll, List.filter_append]
    change front.eraseDups.removeAll front ++ (back.removeAll front).eraseDups.removeAll front = _
    rw [none, rest, List.nil_append]
  rw [List.eraseDups_append, removed, eraseDups_of_nodup (nodup_eraseDups _), parts]

end Duplicates

section Inserting

variable {table : FoldTable} {hosts : List String} {fullname candidate : String}

theorem relativeTo_append {start : String} (begins : start.toList <+: candidate.toList) :
    start ++ relativeTo start candidate = candidate := by
  obtain ⟨rest, whole⟩ := begins
  have starts : stringPrefixP start candidate = true :=
    List.isPrefixOf_iff_prefix.mpr ⟨rest, whole⟩
  rw [relativeTo, if_pos starts, ← whole, List.drop_left]
  apply String.toList_inj.mp
  rw [String.toList_append, String.toList_ofList, whole]

/-- A candidate is spelled as the prefix of remote names is. -/
theorem Offer.begins (offer : Offer table hosts fullname candidate) :
    "/relay:".toList <+: candidate.toList := by
  cases offer with
  | relay => exact List.prefix_rfl
  | toLocal => exact ⟨"local:/".toList, rfl⟩
  | toSsh => exact ⟨"ssh+".toList, rfl⟩
  | host lead start host =>
      rw [toList_hostCandidate]
      exact ⟨"ssh+".toList ++ (host.toList ++ [':', '/']), rfl⟩

/-- Behind the transport there are hosts only. -/
theorem Offer.begins_ssh (offer : Offer table hosts fullname candidate)
    (behind : "/relay:ssh+".toList <+: fullname.toList) :
    "/relay:ssh+".toList <+: candidate.toList := by
  have long : 11 ≤ fullname.toList.length := behind.length_le
  cases offer with
  | relay start whole begins =>
      have few : start.length ≤ 5 := begins.length_le
      rw [whole, List.length_cons] at long
      omega
  | toLocal named =>
      have seven : fullname.toList.length = 7 := length_alike named
      omega
  | toSsh named =>
      have seven : fullname.toList.length = 7 := length_alike named
      omega
  | host lead start host =>
      rw [toList_hostCandidate]
      exact List.prefix_append _ _

end Inserting

/-- The directories that the editor splits a name into which is not complete yet. -/
def unfinished : List String := ["/", "/relay:", "/relay:ssh+"]

namespace Minibuffer

variable {minibuffer : Minibuffer} {file directory : String}

theorem completionFullname_unfinished (split : directory ∈ unfinished)
    (bare : stringPrefixP "/" file = false) :
    completionFullname file directory = directory ++ file ∧
      completionDirectoryPrefix directory = directory := by
  have cases : ∀ directory ∈ unfinished, stringPrefixP "/relay:" directory = true ∨
      stringPrefixP "/relay:" directory = false ∧ fileNameAsDirectory directory = directory := by
    decide
  unfold completionFullname completionDirectoryPrefix
  rw [bare, if_neg Bool.false_ne_true]
  rcases cases directory split with remote | ⟨plain, same⟩
  · rw [remote, if_pos rfl, if_pos rfl]
    exact ⟨rfl, rfl⟩
  · rw [plain, if_neg Bool.false_ne_true, if_neg Bool.false_ne_true, same]
    exact ⟨rfl, rfl⟩

/-- A candidate for a name in an unfinished directory begins with the directory. -/
theorem begins_unfinished {hosts : List String} {table : FoldTable} {candidate : String}
    (split : directory ∈ unfinished) (offer : Offer table hosts (directory ++ file) candidate) :
    directory.toList <+: candidate.toList := by
  rcases List.mem_cons.mp split with rfl | split
  · exact List.IsPrefix.trans ⟨"relay:".toList, rfl⟩ offer.begins
  · rcases List.mem_cons.mp split with rfl | split
    · exact offer.begins
    · rw [List.mem_singleton.mp split] at offer ⊢
      apply offer.begins_ssh
      rw [String.toList_append]
      exact List.prefix_append _ _

variable (minibuffer)

theorem completionCandidates_eq (completes : minibuffer.completing = true) (file directory : String) :
    minibuffer.completionCandidates (some file) (some directory) =
      (minibuffer.candidates (completionFullname file directory)).map
        (relativeTo (completionDirectoryPrefix directory)) := by
  rw [completionCandidates, if_pos completes]

/-- What is inserted behind an unfinished directory makes a candidate. -/
theorem insert_unfinished (completes : minibuffer.completing = true) (split : directory ∈ unfinished)
    (bare : stringPrefixP "/" file = false) :
    (minibuffer.completionCandidates (some file) (some directory)).map (directory ++ ·) =
        minibuffer.candidates (directory ++ file) ∧
      ∀ text ∈ minibuffer.completionCandidates (some file) (some directory),
        Extends minibuffer.table file text := by
  obtain ⟨whole, start⟩ := completionFullname_unfinished split bare
  rw [completionCandidates_eq minibuffer completes, whole, start]
  have joined : ∀ candidate ∈ minibuffer.candidates (directory ++ file),
      directory ++ relativeTo directory candidate = candidate :=
    fun candidate member => relativeTo_append (begins_unfinished split (mem_candidates.mp member))
  constructor
  · rw [List.map_map]
    calc (minibuffer.candidates (directory ++ file)).map _
        = (minibuffer.candidates (directory ++ file)).map id := List.map_congr_left joined
      _ = minibuffer.candidates (directory ++ file) := List.map_id _
  · intro text member
    obtain ⟨candidate, offered, rfl⟩ := List.mem_map.mp member
    have extends_ : Extends minibuffer.table (directory ++ file) candidate :=
      (mem_candidates.mp offered).extends.1
    rw [← joined candidate offered] at extends_
    unfold Extends at extends_ ⊢
    rw [String.toList_append, String.toList_append, List.map_append, List.map_append] at extends_
    exact (List.prefix_append_right_inj _).mp extends_

theorem stringps_map (texts : List String) : stringps (texts.map .string) = texts := by
  rw [stringps, List.filterMap_map]
  exact List.filterMap_some

/-- The tables of the two functions are the same but for a name without a transport. -/
theorem collection_eq {original : Option String → Option String → List Provided}
    {expandFileName : String → String → String} {predicate : Option (String → Bool)}
    {called : TryCompletion} (calls : minibuffer.fileNameCompletion original expandFileName (some file)
      (some directory) predicate = some called) :
    called.collection =
      if completionFullname file directory = "/relay:" then
        (minibuffer.completionCandidates (some file) (some directory)).filter fun text =>
          "ssh+".toList.isSuffixOf text.toList
      else stringps (minibuffer.fileNameAllCompletions original (some file) (some directory)) := by
  have agree : ∀ candidates : List String, candidates ≠ [] →
      minibuffer.completionCandidates (some file) (some directory) = candidates →
      minibuffer.fileNameAllCompletions original (some file) (some directory) =
        if atRoot file directory then
          (candidates ++ stringps (original (some file) (some directory))).eraseDups.map .string
        else candidates.map .string := by
    intro candidates some_candidate same
    obtain ⟨candidate, candidates, rfl⟩ := List.exists_cons_of_ne_nil some_candidate
    simp only [fileNameAllCompletions, same]
  unfold fileNameCompletion at calls
  cases found : minibuffer.completionCandidates (some file) (some directory) with
  | nil =>
      rw [found] at calls
      cases calls
  | cons candidate candidates =>
      have table := agree _ (List.cons_ne_nil candidate candidates) found
      rw [found] at calls
      dsimp only at calls
      rw [← Option.some.inj calls, table]
      dsimp only
      split
      · rfl
      · split
        · rw [stringps_map, eraseDups_append_eraseDups]
        · rw [stringps_map]

/-- No candidate is rejected by the caller's predicate. -/
theorem predicate_accepts {original : Option String → Option String → List Provided}
    {expandFileName : String → String → String} {predicate : Option (String → Bool)}
    {called : TryCompletion} (completes : minibuffer.completing = true)
    (calls : minibuffer.fileNameCompletion original expandFileName (some file)
      (some directory) predicate = some called) :
    ∀ text ∈ minibuffer.completionCandidates (some file) (some directory),
      called.predicate.elim true (· text) = true := by
  intro text member
  unfold fileNameCompletion at calls
  split at calls
  · rename_i candidate candidates file' directory' found same same'
    obtain rfl := Option.some.inj same
    obtain rfl := Option.some.inj same'
    rw [← Option.some.inj calls]
    dsimp only
    split
    · rename_i root
      obtain ⟨local_root, -⟩ := Bool.and_eq_true_iff.mp root
      rw [completionCandidates_eq minibuffer completes] at member
      obtain ⟨whole, offered, rfl⟩ := List.mem_map.mp member
      have start : completionDirectoryPrefix directory = "/" := by
        rw [of_decide_eq_true local_root]
        decide
      have begins : "/relay:".toList <+: whole.toList := (mem_candidates.mp offered).begins
      have joined : "/" ++ relativeTo "/" whole = whole :=
        relativeTo_append (List.IsPrefix.trans ⟨"relay:".toList, rfl⟩ begins)
      have relative : "relay:".toList <+: (relativeTo "/" whole).toList := by
        rw [← joined, String.toList_append] at begins
        exact (List.prefix_cons_inj '/').mp begins
      have accepted : stringPrefixP "relay:" (relativeTo "/" whole) = true :=
        List.isPrefixOf_iff_prefix.mpr relative
      rw [start]
      cases predicate with
      | none => rfl
      | some accepts => exact Bool.or_eq_true_iff.mpr (.inl accepted)
    · rfl
  · cases calls

/-- What replaces the text behind the position makes a candidate. -/
theorem replace_behind {string collection : String} {texts : List String} {base : Nat}
    (completes : minibuffer.completionAllCompletions (some string) collection = some (texts, base)) :
    texts.map (String.ofList (string.toList.take base) ++ ·) = minibuffer.candidates string := by
  unfold completionAllCompletions at completes
  dsimp only at completes
  split at completes
  · split at completes
    · rename_i remote
      cases found : minibuffer.candidates string with
      | nil =>
          rw [found] at completes
          cases completes
      | cons candidate candidates =>
          rw [found] at completes
          obtain ⟨rfl, rfl⟩ := Prod.mk.inj (Option.some.inj completes)
          have relay : "/relay:".toList <+: string.toList := List.isPrefixOf_iff_prefix.mp remote
          have front : ∀ {start : List Char} {text : String}, start <+: string.toList →
              start <+: text.toList → String.ofList (string.toList.take start.length) ++
                String.ofList (text.toList.drop start.length) = text := by
            rintro start text ⟨rest, whole⟩ ⟨rest', whole'⟩
            apply String.toList_inj.mp
            rw [String.toList_append, String.toList_ofList, String.toList_ofList, ← whole, ← whole',
              List.take_left, List.drop_left]
          rw [← found, List.map_map]
          calc (minibuffer.candidates string).map _
              = (minibuffer.candidates string).map id := by
                apply List.map_congr_left
                intro text member
                have offer := mem_candidates.mp member
                rw [Function.comp_apply, id]
                split
                · rename_i ssh
                  have behind := List.isPrefixOf_iff_prefix.mp ssh
                  exact front behind (offer.begins_ssh behind)
                · exact front relay offer.begins
            _ = minibuffer.candidates string := List.map_id _
    · cases completes
  · cases completes

/-- Names that begin as remote ones do are not asked about elsewhere. -/
theorem fileNameAllCompletions_remote {original : Option String → Option String → List Provided}
    (remote : stringPrefixP "/relay:" (completionFullname file directory) = true)
    (offers : minibuffer.completionCandidates (some file) (some directory) ≠ []) :
    minibuffer.fileNameAllCompletions original (some file) (some directory) =
      (minibuffer.completionCandidates (some file) (some directory)).map .string := by
  obtain ⟨candidate, candidates, same⟩ := List.exists_cons_of_ne_nil offers
  have elsewhere : atRoot file directory = false := by
    rw [atRoot, remote, Bool.not_true, Bool.and_false]
  simp only [fileNameAllCompletions, same, elsewhere, Bool.false_eq_true, if_false]

end Minibuffer

example : ({ table := .lettersFolded, hosts := ["devbox", "hub"] } : Minibuffer).completionCandidates
    (some "d") (some "/relay:ssh+") = ["devbox:/"] := by decide +kernel

end EmacsRelay.RelayCompletion

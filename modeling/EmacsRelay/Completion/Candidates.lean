import EmacsRelay.Completion.Hosts
import EmacsRelay.Lib.Reach

set_option autoImplicit false

/- The candidates that `lisp/relay-completion.el` has for a name that is not complete yet, and where
they lead: the process that `relay--auth-command` starts for a candidate that is complete. -/
namespace EmacsRelay.RelayCompletion

open Regexp RelayPrefetch

/-- The options of the transports. -/
structure Transports where
  serverLocalPath : String := "relay-server"
  sshExecutable : String := "ssh"
  sshExtraArgs : List String := []
  sshConnectTimeout : Option Nat := some 5
  serverRemotePath : String := "~/.cache/relay/relay-server"

/-- The command that reaches a host. -/
def sshCommand (options : Transports) (dest : String) : List String :=
  [options.sshExecutable] ++ options.sshExtraArgs ++
    (match options.sshConnectTimeout with
      | none => []
      | some seconds =>
          ["-o", "ConnectTimeout=" ++ toString seconds, "-o", "ConnectionAttempts=1"]) ++
    [dest, options.serverRemotePath]

/-- `relay--auth-command`; none where it signals that the transport is unknown. -/
def authCommand (options : Transports) (authority : String) : Option (List String) :=
  let type := String.ofList (authority.toList.takeWhile (· ≠ '+'))
  let dest := String.ofList (authority.toList.dropWhile (· ≠ '+')).tail
  if type = "local" then some [options.serverLocalPath]
  else if type = "ssh" then some (sshCommand options dest)
  else none

section Patterns

variable (table : FoldTable)

/-- A name that begins with WORD and goes on with these characters only. -/
def beginning (word : String) (allowed : Char → Bool) : Regexp Char :=
  .seq .bos <| .seq (table.verbatim word) <| .seq (.group 1 (.star allowed)) .eos

/-- None of these characters. -/
def noneOf (letters : List Char) (c : Char) : Bool := !oneOf table letters c

/-- The pattern of a name in the root. -/
def rootRegexp : Regexp Char := beginning table "/" (noneOf table ['/'])

/-- The pattern of a name without a transport. -/
def relayRegexp : Regexp Char := .seq .bos <| .seq (table.verbatim "/relay:") .eos

/-- The pattern of a host that is not complete. -/
def sshRegexp : Regexp Char := beginning table "/relay:ssh+" (noneOf table [':', '/'])

/-- `relay--partial-completion-candidates`. -/
def partialCompletionCandidates (hosts : List String) (fullname : String) : List String :=
  if fullname = "/" then ["/relay:"]
  else if (search (rootRegexp table) fullname.toList).any fun groups =>
      ((groups.lookup 1).getD []).isPrefixOf "relay".toList
  then ["/relay:"]
  else if (search (relayRegexp table) fullname.toList).isSome then ["/relay:local:/", "/relay:ssh+"]
  else match search (sshRegexp table) fullname.toList with
    | none => []
    | some groups =>
        ((hosts.filter fun host => ((groups.lookup 1).getD []).isPrefixOf host.toList).mergeSort
          fun one other => one ≤ other).map fun host => relayWrap ("ssh+" ++ host) "/"

end Patterns

/-- `relay--ssh-host-cache`. -/
inductive HostCache where
  | uninitialized
  | null
  | empty
  | hosts (hosts : List String)
deriving DecidableEq, Repr

/-- The cache, and the files as they are; beside them, as they were when they were scanned. -/
structure Lookup where
  cache : HostCache := .uninitialized
  files : SshFiles
  scanned : Option SshFiles := none

inductive LookupEvent where
  /-- Something is completed that hosts are looked up for. -/
  | complete
  /-- `relay-clear-ssh-host-cache`. -/
  | clear
  /-- Others write to the files. -/
  | change (files : SshFiles)

namespace Lookup

variable (table : FoldTable)

/-- `relay--ssh-hosts`: the hosts, and what becomes of the cache. -/
def sshHosts (s : Lookup) : List String × Lookup :=
  let filled :=
    if s.cache = .uninitialized ∨ s.cache = .null then
      let hosts := scannedHosts table s.files
      { s with
        cache := if hosts = [] then .empty else .hosts hosts
        scanned := some s.files }
    else s
  (match filled.cache with
    | .hosts hosts => hosts
    | _ => [], filled)

def step (s : Lookup) : LookupEvent → Lookup
  | .complete => (s.sshHosts table).2
  | .clear => { s with cache := .uninitialized, scanned := none }
  | .change files => { s with files := files }

/-- The files whose hosts are offered. -/
def source (s : Lookup) : SshFiles := s.scanned.getD s.files

/-- The cache holds what a scan has found. -/
def Filled (s : Lookup) : Prop :=
  match s.scanned with
  | none => s.cache = .uninitialized
  | some files => s.cache =
      if scannedHosts table files = [] then .empty else .hosts (scannedHosts table files)

theorem filled_step {s : Lookup} (filled : s.Filled table) (event : LookupEvent) :
    (s.step table event).Filled table := by
  cases event with
  | complete =>
      unfold step sshHosts
      dsimp only
      split
      · rfl
      · exact filled
  | clear => rfl
  | change files => exact filled

/-- What is looked up are the hosts of the files as they were at the first lookup. -/
theorem sshHosts_eq {s : Lookup} (filled : s.Filled table) :
    (s.sshHosts table).1 = scannedHosts table s.source := by
  have read : ∀ hosts : List String,
      (match (if hosts = [] then HostCache.empty else .hosts hosts) with
        | .hosts hosts => hosts
        | _ => []) = hosts := by
    intro hosts
    by_cases none : hosts = []
    · rw [if_pos none, none]
    · rw [if_neg none]
  unfold Filled at filled
  unfold sshHosts source
  cases scanned : s.scanned with
  | none =>
      rw [scanned] at filled
      rw [if_pos (.inl filled)]
      exact read _
  | some files =>
      rw [scanned] at filled
      have full : ¬ (s.cache = .uninitialized ∨ s.cache = .null) := by
        rw [show s.cache = _ from filled]
        split <;> simp
      rw [if_neg full]
      dsimp only
      rw [show s.cache = _ from filled, read]
      rfl

end Lookup

/-- FULLNAME begins the candidate, up to case. -/
def Extends (table : FoldTable) (fullname candidate : String) : Prop :=
  fullname.toList.map table.canonicalize <+: candidate.toList.map table.canonicalize

/-- What is offered for a name: the prefix of remote names for names in the root that begin it, its
transports, and hosts. -/
inductive Offer (table : FoldTable) (hosts : List String) (fullname : String) : String → Prop where
  | relay (start : List Char) (whole : fullname.toList = '/' :: start)
      (begins : start <+: "relay".toList) : Offer table hosts fullname "/relay:"
  | toLocal (named : fullname.toList ∈ alike table.canonicalize "/relay:".toList) :
      Offer table hosts fullname "/relay:local:/"
  | toSsh (named : fullname.toList ∈ alike table.canonicalize "/relay:".toList) :
      Offer table hosts fullname "/relay:ssh+"
  | host (lead start : List Char) (host : String) (whole : fullname.toList = lead ++ start)
      (named : lead ∈ alike table.canonicalize "/relay:ssh+".toList)
      (free : ':' ∉ start ∧ '/' ∉ start) (known : host ∈ hosts) (begins : start <+: host.toList) :
      Offer table hosts fullname (relayWrap ("ssh+" ++ host) "/")

section Matching

variable {table : FoldTable}

theorem mem_every_noneOf {letters : List Char}
    (caseless : ∀ letter ∈ letters, letter.toNat < 128 ∧ letter.isAlpha = false) {taken : List Char} :
    taken ∈ every (noneOf table letters) ↔ ∀ letter ∈ letters, letter ∉ taken := by
  constructor
  · intro free letter member there
    have other := free letter there
    rw [noneOf, oneOf_self member] at other
    cases other
  · intro absent c there
    rw [noneOf, Bool.not_eq_true']
    apply decide_eq_false
    intro found
    obtain ⟨letter, member, same⟩ := List.mem_map.mp found
    obtain ⟨low, plain⟩ := caseless letter member
    have equal := table.caseless c letter low plain same.symm
    exact absent letter member (equal ▸ there)

theorem matches_beginning {word : String} {allowed : Char → Bool} {whole text rest : List Char}
    {groups after : Groups Char} :
    (beginning table word allowed).Matches whole groups text after rest ↔
      text.length = whole.length ∧ rest = [] ∧ ∃ lead start, text = lead ++ start ∧
        lead ∈ alike table.canonicalize word.toList ∧ start ∈ every allowed ∧
          after = (1, start) :: groups := by
  have takes : (table.verbatim word).Takes (alike table.canonicalize word.toList) :=
    takes_literal _ _
  constructor
  · rintro ⟨_, _, ⟨rfl, rfl, front⟩, named⟩
    obtain ⟨lead, same, _, rfl, afterLead⟩ := takes.matches_seq.mp named
    obtain ⟨start, all, _, rfl, rfl, rfl, rfl⟩ := (takes_star _).matches_group_seq.mp afterLead
    rw [List.append_nil] at front ⊢
    exact ⟨front, rfl, lead, start, rfl, same, all, rfl⟩
  · rintro ⟨front, rfl, lead, start, rfl, same, all, rfl⟩
    refine ⟨groups, lead ++ start, ⟨rfl, rfl, front⟩, ?_⟩
    apply takes.matches_seq.mpr
    refine ⟨lead, same, start, rfl, ?_⟩
    apply (takes_star _).matches_group_seq.mpr
    exact ⟨start, all, [], (List.append_nil _).symm, rfl, rfl, rfl⟩

theorem length_alike {word : String} {lead : List Char}
    (same : lead ∈ alike table.canonicalize word.toList) : lead.length = word.toList.length := by
  have lengths := congrArg List.length same
  rwa [List.length_map, List.length_map] at lengths

/-- A search for a name that begins with a word finds the rest of the name. -/
theorem search_beginning {word : String} {allowed : Char → Bool} {text : List Char}
    {groups : Groups Char} :
    search (beginning table word allowed) text = some groups ↔ ∃ lead start, text = lead ++ start ∧
      lead ∈ alike table.canonicalize word.toList ∧ start ∈ every allowed ∧
        groups = [(1, start)] := by
  have sound : ∀ {groups : Groups Char}, search (beginning table word allowed) text = some groups →
      ∃ lead start, text = lead ++ start ∧ lead ∈ alike table.canonicalize word.toList ∧
        start ∈ every allowed ∧ groups = [(1, start)] := by
    intro groups found
    obtain ⟨front, end_, suffix, matched⟩ := search_some found
    obtain ⟨lengths, -, known⟩ := matches_beginning.mp matched
    rw [suffix.eq_of_length lengths] at known
    exact known
  constructor
  · exact sound
  · rintro ⟨lead, start, whole, same, all, rfl⟩
    have matched : (beginning table word allowed).Matches text [] text [(1, start)] [] :=
      matches_beginning.mpr ⟨rfl, rfl, lead, start, whole, same, all, rfl⟩
    obtain ⟨groups, found⟩ := Option.isSome_iff_exists.mp (search_isSome List.suffix_rfl matched)
    obtain ⟨lead', start', whole', same', -, rfl⟩ := sound found
    have lengths : lead'.length = lead.length := (length_alike same').trans (length_alike same).symm
    rw [found, (List.append_inj (whole'.symm.trans whole) lengths).2]

theorem search_relayRegexp {text : List Char} :
    (search (relayRegexp table) text).isSome = true ↔
      text ∈ alike table.canonicalize "/relay:".toList := by
  have takes : (table.verbatim "/relay:").Takes (alike table.canonicalize "/relay:".toList) :=
    takes_literal _ _
  constructor
  · intro some_groups
    obtain ⟨groups, found⟩ := Option.isSome_iff_exists.mp some_groups
    obtain ⟨front, end_, suffix, _, _, ⟨rfl, rfl, lengths⟩, named⟩ := search_some found
    obtain ⟨lead, same, _, whole, -, -, rfl⟩ := takes.matches_seq.mp named
    rw [← suffix.eq_of_length lengths, whole, List.append_nil]
    exact same
  · intro named
    have matched : (relayRegexp table).Matches text [] text [] [] := by
      refine ⟨[], text, ⟨rfl, rfl, rfl⟩, ?_⟩
      exact takes.matches_seq.mpr ⟨text, named, [], (List.append_nil _).symm, rfl, rfl, rfl⟩
    exact search_isSome List.suffix_rfl matched

theorem search_rootRegexp {text : List Char} :
    ((search (rootRegexp table) text).any fun groups =>
      ((groups.lookup 1).getD []).isPrefixOf "relay".toList) = true ↔
        ∃ start, text = '/' :: start ∧ start <+: "relay".toList := by
  have slash : (table.verbatim "/").Takes {['/']} := takes_caseless rfl (by decide) (by decide)
  have single : ∀ lead, lead ∈ alike table.canonicalize "/".toList ↔ lead = ['/'] := by
    intro lead
    constructor
    · intro same
      have taken : (table.verbatim "/").Matches lead [] lead [] [] :=
        (takes_literal table.canonicalize _ _ _ _ _ _).mpr
          ⟨rfl, lead, same, (List.append_nil _).symm⟩
      obtain ⟨-, _, rfl, whole⟩ := (slash _ _ _ _ _).mp taken
      exact whole
    · rintro rfl
      rfl
  rw [Option.any_eq_true]
  constructor
  · rintro ⟨groups, found, begins⟩
    obtain ⟨lead, start, rfl, same, -, rfl⟩ := search_beginning.mp found
    rw [(single lead).mp same]
    exact ⟨start, rfl, List.isPrefixOf_iff_prefix.mp begins⟩
  · rintro ⟨start, rfl, begins⟩
    refine ⟨[(1, start)], ?_, List.isPrefixOf_iff_prefix.mpr begins⟩
    refine search_beginning.mpr ⟨['/'], start, rfl, (single _).mpr rfl, ?_, rfl⟩
    apply (mem_every_noneOf (by simp)).mpr
    intro letter member there
    have within := begins.subset there
    rw [List.mem_singleton.mp member] at within
    revert within
    decide

theorem search_sshRegexp {text : List Char} {groups : Groups Char} :
    search (sshRegexp table) text = some groups ↔ ∃ lead start, text = lead ++ start ∧
      lead ∈ alike table.canonicalize "/relay:ssh+".toList ∧ (':' ∉ start ∧ '/' ∉ start) ∧
        groups = [(1, start)] := by
  have free : ∀ start, start ∈ every (noneOf table [':', '/']) ↔ ':' ∉ start ∧ '/' ∉ start := by
    intro start
    rw [mem_every_noneOf (by simp)]
    simp
  rw [sshRegexp, search_beginning]
  simp only [free]

end Matching

section Offering

variable {table : FoldTable} {hosts : List String} {fullname candidate : String}

/-- The cases of a name exclude one another by its length. -/
theorem mem_candidates : candidate ∈ partialCompletionCandidates table hosts fullname ↔
    Offer table hosts fullname candidate := by
  have relay_length : ∀ {text : List Char}, text ∈ alike table.canonicalize "/relay:".toList →
      text.length = 7 := fun named => length_alike named
  have ssh_length : ∀ {text : List Char}, text ∈ alike table.canonicalize "/relay:ssh+".toList →
      text.length = 11 := fun named => length_alike named
  have root_length : ∀ {start : List Char}, start <+: "relay".toList → start.length ≤ 5 :=
    fun begins => begins.length_le
  unfold partialCompletionCandidates
  split
  · rename_i root
    have whole : fullname.toList = ['/'] := by
      rw [root]
      rfl
    constructor
    · intro member
      rw [List.mem_singleton.mp member]
      exact .relay [] whole (List.nil_prefix)
    · intro offer
      have one : fullname.toList.length = 1 := congrArg List.length whole
      cases offer with
      | relay => exact List.mem_cons_self
      | toLocal named => exact absurd (relay_length named) (by omega)
      | toSsh named => exact absurd (relay_length named) (by omega)
      | host lead start host parts named =>
          rw [parts, List.length_append, ssh_length named] at one
          omega
  · split
    · rename_i begins
      obtain ⟨start, whole, starts⟩ := search_rootRegexp.mp begins
      have short : fullname.toList.length ≤ 6 := by
        rw [whole, List.length_cons]
        have few := root_length starts
        omega
      constructor
      · intro member
        rw [List.mem_singleton.mp member]
        exact .relay start whole starts
      · intro offer
        cases offer with
        | relay => exact List.mem_cons_self
        | toLocal named => exact absurd (relay_length named) (by omega)
        | toSsh named => exact absurd (relay_length named) (by omega)
        | host lead start host parts named =>
            rw [parts, List.length_append, ssh_length named] at short
            omega
    · rename_i elsewhere
      have unrooted : ∀ start, fullname.toList = '/' :: start → ¬ start <+: "relay".toList :=
        fun start whole starts => elsewhere (search_rootRegexp.mpr ⟨start, whole, starts⟩)
      split
      · rename_i some_groups
        have named := search_relayRegexp.mp some_groups
        constructor
        · intro member
          rcases List.mem_cons.mp member with rfl | last
          · exact .toLocal named
          · rw [List.mem_singleton.mp last]
            exact .toSsh named
        · intro offer
          cases offer with
          | relay start whole starts => exact absurd starts (unrooted start whole)
          | toLocal => exact List.mem_cons_self
          | toSsh => exact List.mem_cons_of_mem _ List.mem_cons_self
          | host lead start host parts long =>
              have seven := relay_length named
              rw [parts, List.length_append, ssh_length long] at seven
              omega
      · rename_i no_groups
        have unnamed : fullname.toList ∉ alike table.canonicalize "/relay:".toList :=
          fun named => no_groups (search_relayRegexp.mpr named)
        cases found : search (sshRegexp table) fullname.toList with
        | none =>
            constructor
            · exact nofun
            · intro offer
              cases offer with
              | relay start whole starts => exact absurd starts (unrooted start whole)
              | toLocal named => exact absurd named unnamed
              | toSsh named => exact absurd named unnamed
              | host lead start host parts named free =>
                  have there := search_sshRegexp.mpr ⟨lead, start, parts, named, free, rfl⟩
                  rw [found] at there
                  cases there
        | some groups =>
            obtain ⟨lead, start, parts, named, free, rfl⟩ := search_sshRegexp.mp found
            have given : (([(1, start)] : Groups Char).lookup 1).getD [] = start := rfl
            dsimp only
            rw [List.mem_map, given]
            simp only [List.mem_mergeSort, List.mem_filter, List.isPrefixOf_iff_prefix]
            constructor
            · rintro ⟨host, ⟨known, begins⟩, rfl⟩
              exact .host lead start host parts named free known begins
            · intro offer
              cases offer with
              | relay start whole starts => exact absurd starts (unrooted start whole)
              | toLocal named => exact absurd named unnamed
              | toSsh named => exact absurd named unnamed
              | host lead' start' host parts' named' free' known begins =>
                  have lengths := (ssh_length named').trans (ssh_length named).symm
                  have same := (List.append_inj (parts'.symm.trans parts) lengths).2
                  exact ⟨host, ⟨known, same ▸ begins⟩, rfl⟩

theorem toList_hostCandidate (host : String) :
    (relayWrap ("ssh+" ++ host) "/").toList = "/relay:ssh+".toList ++ (host.toList ++ [':', '/']) := by
  rw [toList_relayWrap, String.toList_append]
  rfl

/-- A candidate is the name with more behind it. -/
theorem Offer.extends (offer : Offer table hosts fullname candidate) :
    Extends table fullname candidate ∧ fullname.length < candidate.length := by
  have longer : ∀ (word rest : String) {text : List Char},
      text ∈ alike table.canonicalize word.toList →
      text.map table.canonicalize <+: (word.toList ++ rest.toList).map table.canonicalize := by
    intro word rest text same
    rw [List.map_append, ← (show text.map table.canonicalize = _ from same)]
    exact List.prefix_append _ _
  unfold Extends
  rw [← String.length_toList, ← String.length_toList]
  cases offer with
  | relay start whole begins =>
      rw [whole]
      constructor
      · apply List.IsPrefix.map
        exact (List.prefix_cons_inj '/').mpr (begins.trans ⟨[':'], rfl⟩)
      · have few : start.length ≤ 5 := begins.length_le
        show start.length + 1 < 7
        omega
  | toLocal named =>
      refine ⟨longer "/relay:" "local:/" named, ?_⟩
      rw [length_alike named]
      decide
  | toSsh named =>
      refine ⟨longer "/relay:" "ssh+" named, ?_⟩
      rw [length_alike named]
      decide
  | host lead start host whole named free known begins =>
      rw [whole, toList_hostCandidate]
      constructor
      · rw [List.map_append, List.map_append, (show lead.map table.canonicalize = _ from named)]
        apply (List.prefix_append_right_inj _).mpr
        exact (begins.trans (List.prefix_append _ _)).map _
      · have few := begins.length_le
        rw [List.length_append, List.length_append, List.length_append, length_alike named]
        show _ < _ + (_ + 2)
        omega

/-- What is before the first plus decides about the transport. -/
theorem authCommand_ssh (options : Transports) (dest : String) :
    authCommand options ("ssh+" ++ dest) = some (sshCommand options dest) := by
  have text : ("ssh+" ++ dest).toList = "ssh".toList ++ '+' :: dest.toList := by
    rw [String.toList_append]
    rfl
  have bare : '+' ∉ "ssh".toList := by decide
  unfold authCommand
  simp only [text, takeWhile_mark bare, dropWhile_mark bare, List.tail_cons, String.ofList_toList]
  rfl

theorem takeWhile_marked {mark : Char} {u v : List Char} :
    (u ++ mark :: v).takeWhile (· ≠ mark) = u.takeWhile (· ≠ mark) := by
  induction u with
  | nil => simp
  | cons c u ih => rw [List.cons_append, List.takeWhile_cons, List.takeWhile_cons, ih]

/-- The candidate of a host is a name on that host unless there is a colon in it; then it is a name on
what is before the colon, if it is one at all. -/
theorem hostCandidate_leads {options : Transports} (host : String) :
    (table.relayParse (relayWrap ("ssh+" ++ host) "/") = some ("ssh+" ++ host, "/") ↔
      ':' ∉ host.toList) ∧
    ∀ authority localName,
      table.relayParse (relayWrap ("ssh+" ++ host) "/") = some (authority, localName) →
        authCommand options authority =
          some (sshCommand options (String.ofList (host.toList.takeWhile (· ≠ ':')))) := by
  constructor
  · rw [relayParse_wrap_iff, String.toList_append]
    constructor
    · rintro ⟨remote, -⟩ there
      exact remote.bare (List.mem_append_right _ there)
    · intro absent
      refine ⟨⟨nofun, ?_, .absolute []⟩, by decide⟩
      rw [List.mem_append, not_or]
      exact ⟨by decide, absent⟩
  · intro authority localName parsed
    obtain ⟨start, parts⟩ := relayParse_eq_some_iff.mp parsed
    have lengths : start.length = "/relay:".toList.length := length_alike parts.start
    have whole := parts.whole
    rw [toList_relayWrap] at whole
    have same : ("ssh+" ++ host).toList ++ [':', '/'] = authority.toList ++ ':' :: localName.toList :=
      (List.append_inj whole lengths.symm).2
    have front : authority.toList = "ssh+".toList ++ host.toList.takeWhile (· ≠ ':') := by
      rw [← takeWhile_mark (v := localName.toList) parts.remote.bare, ← same, String.toList_append,
        List.append_assoc, List.takeWhile_append_of_pos (by simp), takeWhile_marked]
    have named : authority = "ssh+" ++ String.ofList (host.toList.takeWhile (· ≠ ':')) := by
      apply String.toList_inj.mp
      rw [front, String.toList_append]
      exact congrArg ("ssh+".toList ++ ·) String.toList_ofList.symm
    rw [named, authCommand_ssh]

end Offering

/-- However the SSH files change between lookups, the candidates of a name are those for the hosts of
the files as they were at the first lookup after the cache was cleared. Each of them is the name with
more behind it. Those that are not complete have candidates again; the others are the name of the
local server, and for each host the root on it, which ssh is started for if there is no colon in the
host. Otherwise it is started for what is before the colon, or not at all. -/
theorem candidates_lead_to_hosts (table : FoldTable) (options : Transports) (files : SshFiles)
    (events : List LookupEvent) :
    let s := events.foldl (Lookup.step table) { files := files }
    let hosts := scannedHosts table s.source
    (s.sshHosts table).1 = hosts ∧
    (∀ fullname candidate, candidate ∈ partialCompletionCandidates table hosts fullname ↔
      Offer table hosts fullname candidate) ∧
    (∀ fullname, ∀ candidate ∈ partialCompletionCandidates table hosts fullname,
      Extends table fullname candidate ∧ fullname.length < candidate.length) ∧
    (table.relayParse "/relay:" = none ∧ table.relayParse "/relay:ssh+" = none ∧
      table.relayParse "/relay:local:/" = some ("local", "/") ∧
      authCommand options "local" = some [options.serverLocalPath]) ∧
    (∀ host ∈ hosts, relayWrap ("ssh+" ++ host) "/" ∈
      partialCompletionCandidates table hosts "/relay:ssh+") ∧
    ∀ host,
      (table.relayParse (relayWrap ("ssh+" ++ host) "/") = some ("ssh+" ++ host, "/") ↔
        ':' ∉ host.toList) ∧
      ∀ authority localName,
        table.relayParse (relayWrap ("ssh+" ++ host) "/") = some (authority, localName) →
          authCommand options authority =
            some (sshCommand options (String.ofList (host.toList.takeWhile (· ≠ ':')))) := by
  have filled : ∀ (events : List LookupEvent) (s : Lookup), s.Filled table →
      (events.foldl (Lookup.step table) s).Filled table := by
    intro events
    induction events with
    | nil => exact fun _ filled => filled
    | cons event events ih => exact fun s filled => ih _ (Lookup.filled_step table filled event)
  have absent : ∀ name : String, (∀ start authority localName : List Char,
      ¬ Parts table name.toList start authority localName) → table.relayParse name = none := by
    intro name unnamed
    cases parsed : table.relayParse name with
    | none => rfl
    | some found =>
        obtain ⟨start, parts⟩ := relayParse_eq_some_iff.mp parsed
        exact absurd parts (unnamed start _ _)
  intro s hosts
  refine ⟨Lookup.sshHosts_eq table (filled events _ rfl), fun _ _ => mem_candidates,
    fun _ _ member => (mem_candidates.mp member).extends, ⟨?_, ?_, ?_, rfl⟩, ?_,
    fun host => hostCandidate_leads host⟩
  · apply absent
    intro start authority localName parts
    have lengths := congrArg List.length parts.whole
    have seven : start.length = 7 := length_alike parts.start
    rw [List.length_append, List.length_append, seven, List.length_cons] at lengths
    change 7 = 7 + (_ + (_ + 1)) at lengths
    omega
  · apply absent
    intro start authority localName parts
    have seven : start.length = 7 := length_alike parts.start
    have whole : "/relay:".toList ++ ['s', 's', 'h', '+'] = start ++ (authority ++ ':' :: localName) :=
      parts.whole
    have rest : ['s', 's', 'h', '+'] = authority ++ ':' :: localName :=
      (List.append_inj whole seven.symm).2
    have colon : ':' ∈ ['s', 's', 'h', '+'] := rest ▸ List.mem_append_right _ List.mem_cons_self
    revert colon
    decide
  · have wrapped : table.relayParse (relayWrap "local" "/") = some ("local", "/") :=
      relayParse_wrap_iff.mpr ⟨⟨by decide, by decide, .absolute []⟩, by decide⟩
    exact wrapped
  · intro host known
    exact mem_candidates.mpr (.host _ [] host (List.append_nil _).symm rfl ⟨nofun, nofun⟩ known
      List.nil_prefix)

example : partialCompletionCandidates .lettersFolded ["devbox", "hub"] "/relay:ssh+d" =
    ["/relay:ssh+devbox:/"] := by decide +kernel

end EmacsRelay.RelayCompletion

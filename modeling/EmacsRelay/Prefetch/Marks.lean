import EmacsRelay.Prefetch.Profiles

set_option autoImplicit false

/- The live marks are those of the active profiles after every command, as long as the
configuration files that are loaded are well formed and name no active profile twice. -/
namespace EmacsRelay.RelayPrefetch

open SexpError (raise)

namespace Profiles

variable {s : Profiles} {name other key : Sexp} {profile : MarkProfile} {kind : MarkKind}

theorem profile_profilePut (s : Profiles) (name other : Sexp) (profile : MarkProfile) :
    (s.profilePut name profile).profile other =
      if other = name then some profile else s.profile other := by
  unfold profilePut Profiles.profile
  by_cases same : other = name
  · rw [if_pos same, same]
    exact AList.lookup_insert s.table
  · rw [if_neg same]
    exact AList.lookup_insert_ne same

/-- A profile that is put does not make another one go away. -/
theorem isSome_profilePut (there : (s.profile other).isSome = true) :
    ((s.profilePut name profile).profile other).isSome = true := by
  rw [profile_profilePut]
  split
  · rfl
  · exact there

theorem isSome_ensureProfile (root : Sexp) :
    ((s.ensureProfile name root).profile name).isSome = true := by
  unfold ensureProfile
  split
  · rename_i found
    rw [found]
    rfl
  · rw [profile_profilePut, if_pos rfl]
    rfl

theorem mem_foldl_insert (keys : List Sexp) (live : Finset Sexp) :
    key ∈ keys.foldl (fun live key => insert key live) live ↔ key ∈ live ∨ key ∈ keys := by
  induction keys generalizing live with
  | nil => simp
  | cons first keys ih =>
      rw [List.foldl_cons, ih, Finset.mem_insert, List.mem_cons]
      tauto

theorem mem_addKeys (live : Finset Sexp) :
    key ∈ s.addKeys kind live name ↔
      key ∈ live ∨ ∃ profile, s.profile name = some profile ∧ key ∈ profile.keys kind := by
  unfold addKeys
  cases found : s.profile name with
  | none => simp
  | some profile => simp [mem_foldl_insert]

/-- The rebuilt set is the union of the keys of the active profiles. -/
theorem mem_activeMarks :
    key ∈ s.activeMarks kind ↔
      ∃ name ∈ s.active, ∃ profile, s.profile name = some profile ∧ key ∈ profile.keys kind := by
  have added : ∀ (names : List Sexp) (live : Finset Sexp),
      key ∈ names.foldl (s.addKeys kind) live ↔ key ∈ live ∨
        ∃ name ∈ names, ∃ profile, s.profile name = some profile ∧ key ∈ profile.keys kind := by
    intro names
    induction names with
    | nil => simp
    | cons name names ih =>
        intro live
        rw [List.foldl_cons, ih, mem_addKeys]
        simp only [List.mem_cons, exists_eq_or_imp]
        exact or_assoc
  unfold activeMarks
  rw [added]
  simp

/-- Live sets, active names and the selected name are in step with the profiles. -/
structure Settled (s : Profiles) : Prop where
  live : ∀ kind key, key ∈ s.live kind ↔
    ∃ name ∈ s.active, ∃ profile, s.profile name = some profile ∧ key ∈ profile.keys kind
  existing : ∀ name ∈ s.active, (s.profile name).isSome = true
  selected : (s.profile s.selected).isSome = true ∨ s.selected = defaultName

/-- The live marks are the union over the active profiles, each of which exists and is active once;
the selected profile exists or is the default one. -/
structure Consistent (s : Profiles) : Prop extends Settled s where
  once : s.active.Nodup

theorem rebuildLiveMarks_settled (s : Profiles) : s.rebuildLiveMarks.Settled := by
  have kept : ∀ name, name ∈ s.rebuildLiveMarks.active ↔
      name ∈ s.active ∧ (s.profile name).isSome = true := fun name => List.mem_filter
  constructor
  · intro kind key
    have rebuilt : s.rebuildLiveMarks.live kind = s.activeMarks kind := by cases kind <;> rfl
    rw [rebuilt, mem_activeMarks]
    constructor
    · rintro ⟨name, active, profile, found, member⟩
      have there : (s.profile name).isSome = true := by rw [found]; rfl
      exact ⟨name, (kept name).mpr ⟨active, there⟩, profile, found, member⟩
    · rintro ⟨name, active, profile, found, member⟩
      exact ⟨name, ((kept name).mp active).1, profile, found, member⟩
  · intro name active
    exact ((kept name).mp active).2
  · show (s.profile (if (s.profile s.selected).isSome then _ else _)).isSome = true ∨
      (if (s.profile s.selected).isSome then _ else _) = defaultName
    by_cases there : (s.profile s.selected).isSome = true
    · simp only [there, if_true, true_or]
    · simp only [there]
      cases active : s.active.filter fun name => (s.profile name).isSome with
      | nil => exact .inr rfl
      | cons first others =>
          have exists_first : (s.profile first).isSome = true := by
            apply ((kept first).mp _).2
            show first ∈ s.active.filter _
            rw [active]
            exact List.mem_cons_self
          by_cases empty : first = .nil
          · right
            simp [Sexp.orElse, empty]
          · left
            simpa [Sexp.orElse, empty] using exists_first

theorem rebuildLiveMarks_selected (there : (s.profile s.selected).isSome = true) :
    s.rebuildLiveMarks.selected = s.selected :=
  if_pos there

theorem pushActive_nodup (once : s.active.Nodup) (name : Sexp) :
    (s.pushActive name).active.Nodup := by
  unfold pushActive
  by_cases active : name ∈ s.active
  · simpa [active] using once
  · simpa [active] using once

/-- A profile without marks is made, under a name that is not active. -/
theorem Settled.put (settled : s.Settled) (absent : s.profile name = none) (profile : MarkProfile) :
    Settled { s.profilePut name profile with selected := name } := by
  have same : ∀ other ∈ s.active, (s.profilePut name profile).profile other = s.profile other := by
    intro other active
    rw [profile_profilePut, if_neg]
    intro new
    have there := settled.existing other active
    rw [new, absent] at there
    cases there
  constructor
  · intro kind key
    apply (settled.live kind key).trans
    constructor
    · rintro ⟨other, active, profile, found, member⟩
      exact ⟨other, active, profile, (same other active).trans found, member⟩
    · rintro ⟨other, active, profile, found, member⟩
      exact ⟨other, active, profile, (same other active).symm.trans found, member⟩
  · intro other active
    exact isSome_profilePut (settled.existing other active)
  · left
    show ((s.profilePut name profile).profile name).isSome = true
    rw [profile_profilePut, if_pos rfl]
    rfl

theorem createProfile_settled (settled : s.Settled) (name : String) (root : Sexp) :
    (s.createProfile name root).Settled ∧ (s.createProfile name root).active = s.active := by
  unfold createProfile
  split
  · exact ⟨settled, rfl⟩
  · rename_i free
    have absent : s.profile (.str name) = none := by
      rw [not_or] at free
      simpa using free.2
    have made : s.ensureProfile (.str name) root = s.profilePut (.str name) ⟨root, [], []⟩ := by
      unfold ensureProfile
      rw [absent]
    rw [made]
    exact ⟨settled.put absent _, rfl⟩

section Names

/-- A name that no active profile has takes the place of another one. -/
theorem rename_nodup {names : List Sexp} {newName : Sexp} (once : names.Nodup)
    (fresh : newName ∉ names) :
    (names.map fun candidate => if candidate = name then newName else candidate).Nodup := by
  apply List.Nodup.map_on _ once
  intro one first other second same
  by_cases here : one = name
  · by_cases there : other = name
    · exact here.trans there.symm
    · simp only [here, there, if_true, if_false] at same
      exact absurd (same ▸ second) fresh
  · by_cases there : other = name
    · simp only [here, there, if_true, if_false] at same
      exact absurd (same ▸ first) fresh
    · simpa only [here, there, if_false] using same

theorem ensureProfile_active (name root : Sexp) : (s.ensureProfile name root).active = s.active := by
  unfold ensureProfile
  split <;> rfl

theorem profileAddKey_active (name : Sexp) (kind : MarkKind) (key : Sexp) :
    (s.profileAddKey name kind key).active = s.active := by
  have made : (s.ensureProfile name .nil).active = s.active := ensureProfile_active name .nil
  unfold profileAddKey
  dsimp only
  split
  · exact made
  · split
    · exact made
    · exact made

theorem profileRemoveKey_active (name : Sexp) (kind : MarkKind) (key : Sexp) :
    (s.profileRemoveKey name kind key).active = s.active := by
  unfold profileRemoveKey
  split <;> rfl

/-- The names of profiles are texts, and none is empty. -/
def Named (s : Profiles) : Prop :=
  ∀ name, (s.profile name).isSome = true → ∃ text, name = .str text ∧ text ≠ ""

theorem named_default : ∃ text, defaultName = .str text ∧ text ≠ "" := ⟨"default", rfl, by decide⟩

theorem Named.put (named : s.Named) (proper : ∃ text, name = .str text ∧ text ≠ "")
    (profile : MarkProfile) : (s.profilePut name profile).Named := by
  intro other there
  rw [profile_profilePut] at there
  by_cases same : other = name
  · rw [same]
    exact proper
  · rw [if_neg same] at there
    exact named other there

theorem Named.ensure (named : s.Named) (proper : ∃ text, name = .str text ∧ text ≠ "")
    (root : Sexp) : (s.ensureProfile name root).Named := by
  unfold ensureProfile
  split
  · exact named
  · exact named.put proper _

theorem Named.addKey (named : s.Named) (proper : ∃ text, name = .str text ∧ text ≠ "")
    (kind : MarkKind) (key : Sexp) : (s.profileAddKey name kind key).Named := by
  have made := named.ensure proper .nil
  unfold profileAddKey
  dsimp only
  split
  · exact made
  · split
    · exact made
    · exact made.put proper _

theorem Named.removeKey (named : s.Named) (name : Sexp) (kind : MarkKind) (key : Sexp) :
    (s.profileRemoveKey name kind key).Named := by
  unfold profileRemoveKey
  split
  · exact named
  · rename_i profile found
    apply named.put
    apply named
    rw [found]
    rfl

theorem Named.erase (named : s.Named) (name : Sexp) :
    Named { s with table := s.table.erase name } := by
  intro other there
  apply named
  have lookup : (s.table.erase name).lookup other = s.table.lookup other := by
    apply AList.lookup_erase_ne
    intro same
    rw [same] at there
    have gone : (s.table.erase name).lookup name = none := AList.lookup_erase name s.table
    rw [Profiles.profile, gone] at there
    cases there
  rw [Profiles.profile, lookup] at there
  exact there

theorem Settled.selected_named (settled : s.Settled) (named : s.Named) :
    ∃ text, s.selected = .str text ∧ text ≠ "" := by
  rcases settled.selected with there | standard
  · exact named _ there
  · rw [standard]
    exact named_default

end Names

end Profiles

/-- The value is a proper list. -/
def IsList (value : Sexp) : Prop := value.elements.isSome = true

instance (value : Sexp) : Decidable (IsList value) := inferInstanceAs (Decidable (_ = true))

/-- The name of a profile of a configuration, unless it is malformed. -/
def declaredName (profile : Sexp) : Option Sexp :=
  match property profile ":name" with
  | .str name => if name = "" then none else some (.str name)
  | _ => none

/-- The profiles that a configuration lists. -/
def listedProfiles (data : Sexp) : List Sexp := ((property data ":profiles").elements).getD []

/-- The configuration is of the second version. -/
def Versioned (data : Sexp) : Prop := data.plistMember (.symbol ":profiles") = .ok true

instance (data : Sexp) : Decidable (Versioned data) :=
  match h : data.plistMember (.symbol ":profiles") with
  | .ok true => .isTrue h
  | .ok false => .isFalse fun same => by rw [Versioned, h] at same; cases same
  | .error _ => .isFalse fun same => by rw [Versioned, h] at same; cases same

/-- Lists where the load needs lists. -/
structure WellShaped (data : Sexp) : Prop where
  whole : IsList data
  profiles : Versioned data → IsList (property data ":profiles")
  marks : Versioned data → ∀ profile ∈ listedProfiles data, (declaredName profile).isSome = true →
    IsList (property profile ":listing") ∧ IsList (property profile ":content")
  active : Versioned data → IsList (Profiles.listedActive data)
  legacy : ¬ Versioned data → IsList (property data ":listing") ∧ IsList (property data ":content")

/-- A configuration file that can be read, and holds lists where the load needs lists. -/
def ConfigFile.WellFormed (file : ConfigFile) : Prop :=
  ∃ data, file.read = .ok data ∧ WellShaped data

/-- The configuration has a profile of that name, or it is the one that is always made. -/
def Declares (data name : Sexp) : Prop :=
  name = defaultName ∨ ∃ profile ∈ listedProfiles data, declaredName profile = some name

/-- No profile is listed as active twice. -/
def ConfigFile.ActiveOnce (file : ConfigFile) : Prop :=
  ∀ data names, file.read = .ok data → Versioned data →
    (Profiles.listedActive data).elements = some names →
    ∀ name, Declares data name → names.count name ≤ 1

namespace Profiles

section Load

variable {s : Profiles} {data name : Sexp} {file : ConfigFile}

/-- What is left of a malformed list, for definitions that are used where there is none. -/
def listOr (value : Sexp) : List Sexp := value.elements.getD []

/-- `loadProfile`, of a profile whose marks are lists. -/
def install (s : Profiles) (profile : Sexp) : Profiles :=
  match declaredName profile with
  | none => s
  | some name =>
      s.profilePut name ⟨property profile ":root", listOr (property profile ":listing"),
        listOr (property profile ":content")⟩

/-- The profiles, active names and selection that a configuration gives. -/
def configured (data : Sexp) (s : Profiles) : Profiles :=
  if Versioned data then
    let active := listOr (listedActive data)
    { (listedProfiles data).foldl install { s with table := ∅ } with
      active := active
      selected := ((property data ":selected").orElse (active.headD .nil)).orElse defaultName }
  else
    { { s with table := ∅ }.profilePut defaultName
        ⟨.nil, listOr (property data ":listing"), listOr (property data ":content")⟩ with
      active := [defaultName]
      selected := defaultName }

/-- What a load that completes leaves. -/
def loaded (data : Sexp) (s : Profiles) : Profiles :=
  ((configured data s).ensureProfile defaultName .nil).rebuildLiveMarks

theorem copySequence_of_isList {value : Sexp} (proper : IsList value) :
    value.copySequence = .ok (listOr value) := by
  obtain ⟨items, same⟩ := Option.isSome_iff_exists.mp proper
  rw [Sexp.copySequence_of_elements same, listOr, same]
  rfl

theorem list_listOr {value : Sexp} (proper : IsList value) : value = .list (listOr value) := by
  obtain ⟨items, same⟩ := Option.isSome_iff_exists.mp proper
  rw [listOr, same]
  exact Sexp.list_of_elements same

theorem loadProfile_ok {profile : Sexp}
    (marks : (declaredName profile).isSome = true →
      IsList (property profile ":listing") ∧ IsList (property profile ":content")) :
    loadProfile profile s = .ok () (s.install profile) := by
  unfold loadProfile install
  cases named : property profile ":name" with
  | str name =>
      by_cases empty : name = ""
      · simp only [declaredName, named, empty, if_true]
        rfl
      · have declared : declaredName profile = some (.str name) := by
          simp [declaredName, named, empty]
        obtain ⟨listing, content⟩ := marks (by rw [declared]; rfl)
        simp only [empty, if_false, declared, copySequence_of_isList listing,
          copySequence_of_isList content]
        rfl
  | _ =>
      simp only [declaredName, named]
      rfl

/-- A well-shaped configuration loads without a signal. -/
theorem prefetchConfigLoad_ok (read : file.read = .ok data) (shaped : WellShaped data) :
    prefetchConfigLoad file s = .ok () (loaded data s) := by
  obtain ⟨present, member⟩ := Sexp.plistMember_ok shaped.whole (.symbol ":profiles")
  have profiled : ∀ s : Profiles, Versioned data → (property data ":profiles").dolist loadProfile s =
      .ok () ((listedProfiles data).foldl install s) := by
    intro s versioned
    rw [list_listOr (shaped.profiles versioned)]
    apply Sexp.dolist_list
    intro profile listed s
    exact loadProfile_ok (shaped.marks versioned profile listed)
  unfold prefetchConfigLoad
  rw [read]
  cases present with
  | true =>
      have versioned : Versioned data := member
      show EStateM.bind (raise (data.plistMember _)) _ { s with table := ∅ } = _
      unfold EStateM.bind
      rw [member]
      show EStateM.bind ((property data ":profiles").dolist loadProfile) _
        { s with table := ∅ } = _
      unfold EStateM.bind
      rw [profiled _ versioned, copySequence_of_isList (shaped.active versioned)]
      unfold loaded configured
      rw [if_pos versioned]
      rfl
  | false =>
      have other : ¬ Versioned data := by
        intro versioned
        rw [Versioned, member] at versioned
        cases versioned
      obtain ⟨listing, content⟩ := shaped.legacy other
      show EStateM.bind (raise (data.plistMember _)) _ { s with table := ∅ } = _
      unfold EStateM.bind
      rw [member, copySequence_of_isList listing, copySequence_of_isList content]
      unfold loaded configured
      rw [if_neg other]
      rfl

theorem install_isSome (profile : Sexp) :
    ((s.install profile).profile name).isSome = true ↔
      declaredName profile = some name ∨ (s.profile name).isSome = true := by
  unfold install
  cases declared : declaredName profile with
  | none => simp
  | some other =>
      simp only [profile_profilePut]
      by_cases same : name = other
      · simp [same]
      · have differs : other ≠ name := fun eq => same eq.symm
        simp [same, differs]

theorem installed_isSome (profiles : List Sexp) :
    ((profiles.foldl install s).profile name).isSome = true ↔
      (∃ profile ∈ profiles, declaredName profile = some name) ∨
        (s.profile name).isSome = true := by
  induction profiles generalizing s with
  | nil => simp
  | cons first profiles ih =>
      rw [List.foldl_cons, ih, install_isSome]
      simp only [List.mem_cons, exists_eq_or_imp]
      constructor
      · rintro (later | here | before)
        · exact .inl (.inr later)
        · exact .inl (.inl here)
        · exact .inr before
      · rintro ((here | later) | before)
        · exact .inr (.inl here)
        · exact .inl later
        · exact .inr (.inr before)

/-- The profiles there are after a load are those that the configuration has. -/
theorem declares_of_isSome (versioned : Versioned data)
    (there : (((configured data s).ensureProfile defaultName .nil).profile name).isSome = true) :
    Declares data name := by
  by_cases standard : name = defaultName
  · exact .inl standard
  right
  have before : ((configured data s).profile name).isSome = true := by
    unfold ensureProfile at there
    split at there
    · exact there
    · rw [profile_profilePut, if_neg standard] at there
      exact there
  unfold configured at before
  rw [if_pos versioned] at before
  have installed := (installed_isSome (listedProfiles data)).mp before
  rcases installed with listed | none
  · exact listed
  · cases none

/-- A load that completes settles the marks. -/
theorem loaded_consistent (read : file.read = .ok data) (shaped : WellShaped data)
    (once : file.ActiveOnce) : (loaded data s).Consistent := by
  refine ⟨rebuildLiveMarks_settled _, ?_⟩
  show (((configured data s).ensureProfile defaultName .nil).active.filter _).Nodup
  rw [ensureProfile_active]
  by_cases versioned : Versioned data
  · have active : (configured data s).active = listOr (listedActive data) := by
      unfold configured
      rw [if_pos versioned]
    have proper : (listedActive data).elements = some (listOr (listedActive data)) := by
      obtain ⟨items, same⟩ := Option.isSome_iff_exists.mp (shaped.active versioned)
      rw [listOr, same]
      rfl
    rw [active, List.nodup_iff_count_le_one]
    intro name
    by_cases there :
        (((configured data s).ensureProfile defaultName .nil).profile name).isSome = true
    · have single := once data _ read versioned proper name (declares_of_isSome versioned there)
      exact (List.filter_sublist.count_le name).trans single
    · rw [List.count_eq_zero_of_not_mem]
      · exact Nat.zero_le 1
      · intro member
        exact there (List.mem_filter.mp member).2
  · apply List.Nodup.filter
    unfold configured
    rw [if_neg versioned]
    exact List.nodup_singleton _

end Load

/-- The files that are loaded are well formed and name no active profile twice. -/
def Regular : ProfileCommand → Prop
  | .load file => file.WellFormed ∧ file.ActiveOnce
  | _ => True

/-- What a command has made of the profiles when it rebuilds the live marks. -/
structure Prepared (s r : Profiles) : Prop where
  once : s.active.Nodup → r.active.Nodup
  named : s.Named → r.Named

/-- What a command other than a load can do. -/
inductive Outcome (s : Profiles) : Profiles → Prop where
  | unchanged : Outcome s s
  | created (name : String) (root : Sexp) : Outcome s (s.createProfile name root)
  | rebuilt {r : Profiles} (prepared : Prepared s r) : Outcome s r.rebuildLiveMarks

section Commands

variable {s : Profiles} (settled : s.Settled)

include settled

theorem addMark_prepared (kind : MarkKind) (key : Sexp) :
    ∃ r, s.addMark kind key = r.rebuildLiveMarks ∧ Prepared s r := by
  refine ⟨_, rfl, ?_, ?_⟩
  · intro once
    apply pushActive_nodup
    rw [profileAddKey_active]
    exact once
  · intro named
    exact named.addKey (settled.selected_named named) kind key

theorem renameProfile_outcome (name newName : String) :
    Outcome s (s.renameProfile name newName) := by
  unfold renameProfile
  split
  · exact .unchanged
  · rename_i free
    rw [not_or] at free
    split
    · exact .unchanged
    · apply Outcome.rebuilt
      constructor
      · intro once
        apply rename_nodup once
        intro active
        exact free.2 (settled.existing _ active)
      · intro named
        exact (named.erase (.str name)).put ⟨newName, rfl, free.1⟩ _

omit settled in
theorem deleteProfile_outcome (name : String) : Outcome s (s.deleteProfile name) := by
  unfold deleteProfile
  split
  · apply Outcome.rebuilt
    constructor
    · exact fun once => once.filter _
    · intro named
      by_cases standard : Sexp.str name = defaultName
      · simp only [standard, if_true]
        exact named.put named_default _
      · simp only [standard, if_false]
        exact named.erase (.str name)
  · exact .unchanged

theorem markListingPrefetch_outcome (thresholds : Thresholds) (met : Encounter) :
    Outcome s (s.markListingPrefetch thresholds met) := by
  unfold markListingPrefetch
  split
  · exact .unchanged
  · rename_i parsed _
    obtain ⟨r, marked, prepared⟩ := addMark_prepared settled .listing (markKey parsed)
    split
    · dsimp only
      rw [marked]
      split
      · exact .rebuilt prepared
      · split
        · apply Outcome.rebuilt
          constructor
          · intro once
            rw [profileRemoveKey_active]
            exact (prepared.once once).filter _
          · intro named
            have rebuilt : r.rebuildLiveMarks.Named := prepared.named named
            exact rebuilt.removeKey _ .listing _
        · exact .rebuilt prepared
    · exact .unchanged

theorem markContentPrefetch_outcome (thresholds : Thresholds) (met : Encounter) :
    Outcome s (s.markContentPrefetch thresholds met) := by
  unfold markContentPrefetch
  split
  · exact .unchanged
  · rename_i parsed _
    obtain ⟨r, marked, prepared⟩ := addMark_prepared settled .content (markKey parsed)
    split
    · split
      · exact .unchanged
      · split
        · exact .unchanged
        · rw [marked]
          exact .rebuilt prepared
    · exact .unchanged

omit settled in
theorem unmarkPrefetch_outcome (kind : MarkKind) (parsed : Option (String × String)) :
    Outcome s (unmarkPrefetch kind s parsed) := by
  unfold unmarkPrefetch
  split
  · exact .unchanged
  · apply Outcome.rebuilt
    constructor
    · intro once
      rw [profileRemoveKey_active]
      exact once
    · intro named
      exact named.removeKey _ kind _

theorem step_outcome (thresholds : Thresholds) (command : ProfileCommand)
    (other : ∀ file, command ≠ .load file) : Outcome s (s.step thresholds command) := by
  cases command with
  | create name root => exact .created name root
  | activate name =>
      show Outcome s (s.activateProfile name)
      unfold activateProfile
      split
      · exact .rebuilt ⟨fun once => pushActive_nodup once _, fun named => named⟩
      · exact .unchanged
  | deactivate name => exact .rebuilt ⟨fun once => once.filter _, fun named => named⟩
  | rename name newName => exact renameProfile_outcome settled name newName
  | delete name => exact deleteProfile_outcome name
  | switch name =>
      show Outcome s (s.switchProfile name)
      unfold switchProfile
      split
      · exact .rebuilt ⟨fun _ => List.nodup_singleton _, fun named => named⟩
      · exact .unchanged
  | markListing met => exact markListingPrefetch_outcome settled thresholds met
  | unmarkListing parsed => exact unmarkPrefetch_outcome .listing parsed
  | markContent met => exact markContentPrefetch_outcome settled thresholds met
  | unmarkContent parsed => exact unmarkPrefetch_outcome .content parsed
  | load file => exact absurd rfl (other file)

variable {s' : Profiles}

theorem Outcome.keeps_settled (outcome : Outcome s s') : s'.Settled := by
  cases outcome with
  | unchanged => exact settled
  | created name root => exact (createProfile_settled settled name root).1
  | rebuilt prepared => exact rebuildLiveMarks_settled _

theorem Outcome.keeps_once (outcome : Outcome s s') (once : s.active.Nodup) : s'.active.Nodup := by
  cases outcome with
  | unchanged => exact once
  | created name root =>
      rw [(createProfile_settled settled name root).2]
      exact once
  | rebuilt prepared => exact (prepared.once once).filter _

omit settled in
theorem Outcome.keeps_named (outcome : Outcome s s') (named : s.Named) : s'.Named := by
  cases outcome with
  | unchanged => exact named
  | created name root =>
      unfold createProfile
      split
      · exact named
      · rename_i free
        rw [not_or] at free
        exact named.ensure ⟨name, rfl, free.1⟩ root
  | rebuilt prepared => exact prepared.named named

end Commands

/-- Every command keeps the marks in step. -/
theorem step_consistent {s : Profiles} (consistent : s.Consistent) (thresholds : Thresholds)
    (command : ProfileCommand) (regular : Regular command) :
    (s.step thresholds command).Consistent := by
  by_cases load : ∃ file, command = .load file
  · obtain ⟨file, same⟩ := load
    subst same
    obtain ⟨⟨data, read, shaped⟩, once⟩ := regular
    show (finalState (prefetchConfigLoad file s)).Consistent
    rw [prefetchConfigLoad_ok read shaped]
    exact loaded_consistent read shaped once
  · have other : ∀ file, command ≠ .load file := fun file same => load ⟨file, same⟩
    have outcome := step_outcome consistent.toSettled thresholds command other
    exact ⟨outcome.keeps_settled consistent.toSettled, outcome.keeps_once consistent.toSettled consistent.once⟩

/-- The profiles after commands that load regular files only, the first one at the start. -/
def RegularRun (thresholds : Thresholds) (file : ConfigFile) : Profiles → Prop :=
  Reaches (step thresholds) (fun _ command => Regular command) (started file)

/-- After any such commands the live marks are the union of those of the active profiles. -/
theorem live_marks_union {thresholds : Thresholds} {file : ConfigFile} {s : Profiles}
    (formed : file.WellFormed) (once : file.ActiveOnce) (run : RegularRun thresholds file s) :
    s.Consistent := by
  apply Reaches.invariant _ _ run
  · obtain ⟨data, read, shaped⟩ := formed
    show (finalState (prefetchConfigLoad file initial)).Consistent
    rw [prefetchConfigLoad_ok read shaped]
    exact loaded_consistent read shaped once
  · intro s command consistent regular
    exact step_consistent consistent thresholds command regular

theorem wellFormed_missing : ConfigFile.missing.WellFormed :=
  ⟨.nil, rfl, ⟨by decide, by decide, by decide, by decide, by decide⟩⟩

theorem activeOnce_missing : ConfigFile.missing.ActiveOnce := by
  intro data names read versioned
  cases read
  exact absurd versioned (by decide)

/-- A profile is made and activated, a directory marked in it, and it is renamed. -/
def markedAndRenamed : List ProfileCommand :=
  [.create "work" .nil, .activate "work", .markListing ⟨some ("host", "/src/"), true, some 3, false⟩,
    .rename "work" "old", .delete "default"]

theorem live_marks_union_renamed :
    let s := markedAndRenamed.foldl (step {}) (started .missing)
    s.live .listing = {markKey ("host", "/src")} ∧ s.Consistent := by
  refine ⟨by decide, ?_⟩
  apply live_marks_union wellFormed_missing activeOnce_missing
  exact Reaches.of_along .refl ⟨trivial, trivial, trivial, trivial, trivial, trivial⟩

/-- A file whose active names, edited by hand, have one of them twice. -/
def activeTwice : Sexp :=
  .list [.symbol ":version", .int 2,
    .symbol ":profiles", .list [.list [.symbol ":name", .str "work"]],
    .symbol ":active", .list [.str "work", .str "work"], .symbol ":selected", .str "work"]

/-- A name that is active twice in the file is active twice after the load, and a file that cannot
be read leaves active names without their profiles. -/
theorem loads_leave_marks_unsettled :
    ¬ (started (.text activeTwice)).active.Nodup ∧
      ∃ name ∈ ((started .missing).step {} (.load .broken)).active,
        ((started .missing).step {} (.load .broken)).profile name = none := by
  refine ⟨by decide, defaultName, by decide, by decide⟩

end Profiles

end EmacsRelay.RelayPrefetch

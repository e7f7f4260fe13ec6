import EmacsRelay.Prefetch.Marks

set_option autoImplicit false

/- Saving the profiles and loading the file again: what comes back, and what a file of the first
version becomes. -/
namespace EmacsRelay.RelayPrefetch.Profiles

/-- From whatever state it is loaded, the saved file brings back profiles, active names, selection
and live marks. -/
def Restores (s : Profiles) : Prop :=
  ∀ t, ∃ u, prefetchConfigLoad (.text s.prefetchConfigSave) t = .ok () u ∧
    (∀ name, u.profile name = s.profile name) ∧ u.active = s.active ∧ u.selected = s.selected ∧
    ∀ kind, u.live kind = s.live kind

/-- A file of the first version, with these marks. -/
structure Legacy (data : Sexp) (listing content : List Sexp) : Prop where
  whole : IsList data
  unversioned : ¬ Versioned data
  listing : (property data ":listing").elements = some listing
  content : (property data ":content").elements = some content

section Saved

variable {s : Profiles}

theorem versioned_save : Versioned s.prefetchConfigSave := by
  simp [Versioned, prefetchConfigSave, Sexp.list, Sexp.plistMember]

theorem profiles_save :
    property s.prefetchConfigSave ":profiles" = .list (s.profileNames.map s.printedProfile) := by
  simp [property, prefetchConfigSave, Sexp.list, Sexp.plistGet]

theorem active_save : property s.prefetchConfigSave ":active" = .list s.active := by
  simp [property, prefetchConfigSave, Sexp.list, Sexp.plistGet]

theorem selected_save : property s.prefetchConfigSave ":selected" = s.selected := by
  simp [property, prefetchConfigSave, Sexp.list, Sexp.plistGet]

theorem listedProfiles_save :
    listedProfiles s.prefetchConfigSave = s.profileNames.map s.printedProfile := by
  rw [listedProfiles, profiles_save, Sexp.elements_list]
  rfl

theorem isList_list (items : List Sexp) : IsList (.list items) := by
  rw [IsList, Sexp.elements_list]
  rfl

theorem listOr_list (items : List Sexp) : listOr (.list items) = items := by
  rw [listOr, Sexp.elements_list]
  rfl

/-- An empty list of active names is read as none being given. -/
theorem listedActive_save :
    listedActive s.prefetchConfigSave =
      .list (if s.active = [] then [defaultName] else s.active) := by
  rw [listedActive, active_save]
  cases s.active with
  | nil => rfl
  | cons name names => rfl

theorem printed_marks (name : Sexp) (profile : MarkProfile) :
    property (printed name profile) ":name" = name ∧
      property (printed name profile) ":root" = profile.root ∧
      property (printed name profile) ":listing" = .list profile.listing ∧
      property (printed name profile) ":content" = .list profile.content := by
  simp [property, printed, Sexp.list, Sexp.plistGet]

theorem mem_profileNames (name : Sexp) :
    name ∈ s.profileNames ↔ (s.profile name).isSome = true := by
  unfold profileNames Profiles.profile
  rw [List.mem_mergeSort, AList.lookup_isSome, AList.mem_keys]

theorem printedProfile_of_mem {name : Sexp} (listed : name ∈ s.profileNames) :
    ∃ profile, s.profile name = some profile ∧ s.printedProfile name = printed name profile := by
  obtain ⟨profile, found⟩ := Option.isSome_iff_exists.mp ((mem_profileNames name).mp listed)
  refine ⟨profile, found, ?_⟩
  rw [printedProfile, found]

theorem wellShaped_save : WellShaped s.prefetchConfigSave where
  whole := isList_list _
  profiles _ := by
    rw [profiles_save]
    exact isList_list _
  marks _ := by
    intro item listed _
    rw [listedProfiles_save] at listed
    obtain ⟨name, member, same⟩ := List.mem_map.mp listed
    obtain ⟨profile, _, is_printed⟩ := printedProfile_of_mem member
    obtain ⟨_, _, listing, content⟩ := printed_marks name profile
    rw [← same, is_printed, listing, content]
    exact ⟨isList_list _, isList_list _⟩
  active _ := by
    rw [listedActive_save]
    exact isList_list _
  legacy other := absurd versioned_save other

theorem install_printed {t : Profiles} {name : Sexp} {profile : MarkProfile}
    (proper : ∃ text, name = .str text ∧ text ≠ "") :
    t.install (printed name profile) = t.profilePut name profile := by
  obtain ⟨text, same, some_text⟩ := proper
  obtain ⟨named, root, listing, content⟩ := printed_marks name profile
  have declared : declaredName (printed name profile) = some name := by
    rw [declaredName, named, same]
    simp [some_text]
  unfold install
  rw [declared, root, listing, content, listOr_list, listOr_list]

/-- The profiles of a saved file are those that were saved. -/
theorem profile_installed (named : s.Named) (t : Profiles) (name : Sexp) :
    ((s.profileNames.map s.printedProfile).foldl install { t with table := ∅ }).profile name =
      s.profile name := by
  have installed : ∀ (names : List Sexp) (t : Profiles), (∀ other ∈ names, other ∈ s.profileNames) →
      ((names.map s.printedProfile).foldl install t).profile name =
        if name ∈ names then s.profile name else t.profile name := by
    intro names
    induction names with
    | nil => simp
    | cons first names ih =>
        intro t all
        have listed := all first List.mem_cons_self
        obtain ⟨profile, found, same⟩ := printedProfile_of_mem listed
        have proper := named first ((mem_profileNames first).mp listed)
        rw [List.map_cons, List.foldl_cons, same, install_printed proper,
          ih _ fun other later => all other (List.mem_cons_of_mem _ later), profile_profilePut]
        by_cases later : name ∈ names
        · simp [later]
        · by_cases same : name = first
          · simp [same, found]
          · simp [later, same]
  rw [installed s.profileNames _ fun other listed => listed]
  by_cases there : (s.profile name).isSome = true
  · rw [if_pos ((mem_profileNames name).mpr there)]
  · rw [if_neg fun listed => there ((mem_profileNames name).mp listed)]
    have absent : s.profile name = none := by simpa using there
    rw [absent]
    rfl

end Saved

section Restored

variable {s : Profiles} (settled : s.Settled) (named : s.Named)

include named

/-- What a load of the saved file has set before it rebuilds the live marks. -/
theorem configured_save (settled : s.Settled) (t : Profiles) :
    (∀ name, (configured s.prefetchConfigSave t).profile name = s.profile name) ∧
      (configured s.prefetchConfigSave t).active =
        (if s.active = [] then [defaultName] else s.active) ∧
      (configured s.prefetchConfigSave t).selected = s.selected := by
  obtain ⟨text, selected, _⟩ := settled.selected_named named
  have kept : ∀ other, s.selected.orElse other = s.selected := by
    intro other
    rw [Sexp.orElse, if_neg]
    rw [selected]
    exact fun same => by cases same
  unfold configured
  rw [if_pos versioned_save, listedProfiles_save, listedActive_save, listOr_list, selected_save]
  refine ⟨profile_installed named t, rfl, ?_⟩
  show (s.selected.orElse _).orElse _ = s.selected
  rw [kept, kept]

/-- A saved file restores the profiles exactly when some profile is active and the default one is
there. -/
theorem restores_iff (settled : s.Settled) :
    s.Restores ↔ s.active ≠ [] ∧ (s.profile defaultName).isSome = true := by
  constructor
  · intro restores
    obtain ⟨u, loads, profiles, active, _, _⟩ := restores initial
    rw [prefetchConfigLoad_ok rfl wellShaped_save] at loads
    have same : u = loaded s.prefetchConfigSave initial := by
      injection loads with _ state
      exact state.symm
    obtain ⟨_, names, _⟩ := configured_save named settled initial
    have standard : (u.profile defaultName).isSome = true := by
      rw [same]
      exact isSome_ensureProfile (s := configured s.prefetchConfigSave initial) .nil
    constructor
    · intro empty
      rw [if_pos empty] at names
      have still : u.active = [defaultName] := by
        rw [same]
        show (((configured _ initial).ensureProfile defaultName .nil).active.filter _) = _
        rw [ensureProfile_active, names]
        apply List.filter_eq_self.mpr
        intro name member
        rw [List.mem_singleton.mp member]
        exact isSome_ensureProfile .nil
      rw [active, empty] at still
      cases still
    · rw [← profiles]
      exact standard
  · rintro ⟨some_active, standard⟩ t
    obtain ⟨profiles, names, selected⟩ := configured_save named settled t
    rw [if_neg some_active] at names
    have ensured : (configured s.prefetchConfigSave t).ensureProfile defaultName .nil =
        configured s.prefetchConfigSave t := by
      obtain ⟨profile, found⟩ := Option.isSome_iff_exists.mp standard
      rw [← profiles] at found
      unfold ensureProfile
      rw [found]
    have state : loaded s.prefetchConfigSave t =
        (configured s.prefetchConfigSave t).rebuildLiveMarks := by
      rw [loaded, ensured]
    refine ⟨_, prefetchConfigLoad_ok rfl wellShaped_save, ?_⟩
    rw [state]
    refine ⟨profiles, ?_, ?_, ?_⟩
    · show (configured s.prefetchConfigSave t).active.filter _ = s.active
      rw [names]
      apply List.filter_eq_self.mpr
      intro name member
      rw [profiles]
      exact settled.existing name member
    · apply (rebuildLiveMarks_selected _).trans selected
      rw [selected, profiles]
      rcases settled.selected with there | same
      · exact there
      · rw [same]
        exact standard
    · intro kind
      have rebuilt : (configured s.prefetchConfigSave t).rebuildLiveMarks.live kind =
          (configured s.prefetchConfigSave t).activeMarks kind := by cases kind <;> rfl
      ext key
      rw [rebuilt, mem_activeMarks, settled.live, names]
      simp only [profiles]

end Restored

/-- The default profile, with the marks of the file and nothing else, becomes active. -/
theorem legacy_migrated {data : Sexp} {listing content : List Sexp}
    (legacy : Legacy data listing content) (t : Profiles) :
    ∃ u, prefetchConfigLoad (.text data) t = .ok () u ∧
      (∀ name, u.profile name =
        if name = defaultName then some ⟨.nil, listing, content⟩ else none) ∧
      u.active = [defaultName] ∧ u.selected = defaultName ∧
      ∀ key, (key ∈ u.listingDirs ↔ key ∈ listing) ∧ (key ∈ u.contentDirs ↔ key ∈ content) := by
  have shaped : WellShaped data := by
    constructor
    · exact legacy.whole
    · exact fun versioned => absurd versioned legacy.unversioned
    · exact fun versioned => absurd versioned legacy.unversioned
    · exact fun versioned => absurd versioned legacy.unversioned
    · intro _
      rw [IsList, IsList, legacy.listing, legacy.content]
      exact ⟨rfl, rfl⟩
  let base : Profiles := { t with table := ∅ }
  let set : Profiles :=
    { base.profilePut defaultName ⟨.nil, listing, content⟩ with
      active := [defaultName]
      selected := defaultName }
  have profiles : ∀ name, set.profile name =
      if name = defaultName then some ⟨.nil, listing, content⟩ else none := by
    intro name
    have put := profile_profilePut base defaultName name ⟨.nil, listing, content⟩
    have empty : base.profile name = none := rfl
    rw [empty] at put
    exact put
  have standard : (set.profile defaultName).isSome = true := by
    rw [profiles, if_pos rfl]
    rfl
  have state : loaded data t = set.rebuildLiveMarks := by
    have configured : configured data t = set := by
      unfold configured
      rw [if_neg legacy.unversioned, listOr, listOr, legacy.listing, legacy.content]
      rfl
    have ensured : set.ensureProfile defaultName .nil = set := by
      obtain ⟨profile, found⟩ := Option.isSome_iff_exists.mp standard
      unfold ensureProfile
      rw [found]
    rw [loaded, configured, ensured]
  have marks : ∀ kind key, key ∈ set.activeMarks kind ↔
      key ∈ (MarkProfile.mk .nil listing content).keys kind := by
    intro kind key
    rw [mem_activeMarks]
    constructor
    · rintro ⟨name, active, profile, found, member⟩
      rw [List.mem_singleton.mp active, profiles, if_pos rfl] at found
      rw [Option.some.inj found]
      exact member
    · intro member
      exact ⟨defaultName, List.mem_singleton_self _, _, profiles defaultName, member⟩
  refine ⟨_, prefetchConfigLoad_ok rfl shaped, ?_⟩
  rw [state]
  refine ⟨profiles, ?_, ?_, ?_⟩
  · apply List.filter_eq_self.mpr
    intro name member
    rw [List.mem_singleton.mp member]
    exact standard
  · exact rebuildLiveMarks_selected standard
  · exact fun key => ⟨marks .listing key, marks .content key⟩

/-- The files that are loaded are well formed. -/
def Formed : ProfileCommand → Prop
  | .load file => file.WellFormed
  | _ => True

/-- The profiles after commands that load well-formed files only, the first one at the start. -/
def FormedRun (thresholds : Thresholds) (file : ConfigFile) : Profiles → Prop :=
  Reaches (step thresholds) (fun _ command => Formed command) (started file)

theorem loaded_named {data : Sexp} (t : Profiles) : (loaded data t).Named := by
  have empty : Named { t with table := ∅ } := by
    intro name there
    cases there
  have installed : ∀ (profiles : List Sexp) (s : Profiles), s.Named →
      (profiles.foldl install s).Named := by
    intro profiles
    induction profiles with
    | nil => exact fun _ named => named
    | cons first profiles ih =>
        intro s named
        apply ih
        unfold install
        split
        · exact named
        · rename_i name declared
          apply named.put
          unfold declaredName at declared
          split at declared
          · rename_i text _
            split at declared
            · cases declared
            · rename_i some_text
              cases declared
              exact ⟨text, rfl, some_text⟩
          · cases declared
  have configured : (configured data t).Named := by
    unfold Profiles.configured
    split
    · exact installed _ _ empty
    · exact empty.put named_default _
  exact configured.ensure named_default .nil

theorem settled_of_run {thresholds : Thresholds} {file : ConfigFile} {s : Profiles}
    (formed : file.WellFormed) (run : FormedRun thresholds file s) : s.Settled ∧ s.Named := by
  have loads : ∀ (file : ConfigFile) (t : Profiles), file.WellFormed →
      (finalState (prefetchConfigLoad file t)).Settled ∧
        (finalState (prefetchConfigLoad file t)).Named := by
    intro file t formed
    obtain ⟨data, read, shaped⟩ := formed
    rw [prefetchConfigLoad_ok read shaped]
    exact ⟨rebuildLiveMarks_settled _, loaded_named t⟩
  apply Reaches.invariant _ _ run
  · exact loads file initial formed
  · intro s command both formed
    by_cases load : ∃ file, command = .load file
    · obtain ⟨file, same⟩ := load
      subst same
      exact loads file s formed
    · have other : ∀ file, command ≠ .load file := fun file same => load ⟨file, same⟩
      have outcome := step_outcome both.1 thresholds command other
      exact ⟨outcome.keeps_settled both.1, outcome.keeps_named both.2⟩

/-- The profiles that commands lead to are restored from their file exactly when one is active and
the default one is there; and the marks of a file of the first version become those of the default
profile. -/
theorem profiles_persist {thresholds : Thresholds} {file : ConfigFile} {s : Profiles}
    (formed : file.WellFormed) (run : FormedRun thresholds file s) :
    (s.Restores ↔ s.active ≠ [] ∧ (s.profile defaultName).isSome = true) ∧
      ∀ data listing content, Legacy data listing content → ∀ t, ∃ u,
        prefetchConfigLoad (.text data) t = .ok () u ∧
        (∀ name, u.profile name =
          if name = defaultName then some ⟨.nil, listing, content⟩ else none) ∧
        u.active = [defaultName] ∧ u.selected = defaultName ∧
        ∀ key, (key ∈ u.listingDirs ↔ key ∈ listing) ∧ (key ∈ u.contentDirs ↔ key ∈ content) := by
  obtain ⟨settled, named⟩ := settled_of_run formed run
  exact ⟨restores_iff named settled, fun data listing content => legacy_migrated⟩

def renamedAndMarked : List ProfileCommand :=
  [.create "work" (.str "/relay:host:/src"), .activate "work",
    .markContent ⟨some ("host", "/src/"), true, some 3, false⟩, .rename "work" "old",
    .deactivate "default"]

theorem profiles_persist_renamed :
    (renamedAndMarked.foldl (step {}) (started .missing)).Restores := by
  apply (profiles_persist wellFormed_missing _).1.mpr ⟨by decide, by decide⟩
  · exact {}
  · exact Reaches.of_along .refl ⟨trivial, trivial, trivial, trivial, trivial, trivial⟩

/-- Without an active profile the default one comes back active, and a default one that was renamed
comes back besides. -/
theorem profiles_not_restored :
    ¬ ((started .missing).step {} (.deactivate "default")).Restores ∧
      ¬ ((started .missing).step {} (.rename "default" "work")).Restores := by
  have runs : ∀ command, Formed command →
      ((started .missing).step {} command).Settled ∧ ((started .missing).step {} command).Named :=
    fun command formed => settled_of_run wellFormed_missing (Reaches.next .refl formed)
  constructor
  · obtain ⟨settled, named⟩ := runs (.deactivate "default") trivial
    rw [restores_iff named settled]
    decide
  · obtain ⟨settled, named⟩ := runs (.rename "default" "work") trivial
    rw [restores_iff named settled]
    decide

end EmacsRelay.RelayPrefetch.Profiles

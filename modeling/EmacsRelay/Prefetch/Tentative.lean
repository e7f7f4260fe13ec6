import EmacsRelay.Prefetch.Marks

set_option autoImplicit false

/- The mark of `relay-mark-listing-prefetch` is made before the directory is listed. When the
command that does not complete leaves everything as it was. -/
namespace EmacsRelay.RelayPrefetch

/-- The command stops before it keeps the mark: the name is no Relay directory, there is no
connection, the listing fails, or the user declines. -/
def Encounter.Incomplete (thresholds : Thresholds) (met : Encounter) : Prop :=
  met.parsed = none ∨ met.connects = false ∨ met.counted = none ∨
    ∃ count, met.counted = some count ∧ thresholds.listing < count ∧ met.confirmed = false

/-- A key enters a profile, unless it is there. -/
def MarkProfile.adding (profile : MarkProfile) (kind : MarkKind) (key : Sexp) : MarkProfile :=
  if key ∈ profile.keys kind then profile else profile.setKeys kind (key :: profile.keys kind)

/-- A key leaves a profile. -/
def MarkProfile.removing (profile : MarkProfile) (kind : MarkKind) (key : Sexp) : MarkProfile :=
  profile.setKeys kind ((profile.keys kind).filter (· ≠ key))

namespace Profiles

/-- Profiles, active names, the selected name and the live marks are the same. -/
structure Unchanged (s s' : Profiles) : Prop where
  profile : ∀ name, s'.profile name = s.profile name
  active : s'.active = s.active
  selected : s'.selected = s.selected
  live : ∀ kind, s'.live kind = s.live kind

/-- Where a tentative mark can be undone by what the command does: the selected profile exists and
is active, everything derived is up to date, and the mark is there already if and only if the
command will leave it there. -/
structure Restorable (s : Profiles) (key : Sexp) (counted : Option Nat) : Prop where
  rebuilt : ∀ kind, s.live kind = s.activeMarks kind
  existing : ∀ name ∈ s.active, (s.profile name).isSome = true
  active : s.selected ∈ s.active
  marked : ∃ profile, s.profile s.selected = some profile ∧ (key ∈ profile.listing ↔ counted = none)

section Undo

variable {s r : Profiles} {name other key : Sexp} {profile : MarkProfile} {kind : MarkKind}

theorem profile_ensureProfile (s : Profiles) (name other root : Sexp) :
    (s.ensureProfile name root).profile other =
      if other = name then some ((s.profile name).getD ⟨root, [], []⟩) else s.profile other := by
  unfold ensureProfile
  cases found : s.profile name with
  | none => exact profile_profilePut s name other _
  | some profile =>
      by_cases same : other = name
      · rw [if_pos same, same]
        exact found
      · rw [if_neg same]

/-- What a key makes of the profiles that it enters. -/
theorem profile_profileAddKey (s : Profiles) (name : Sexp) (kind : MarkKind) (key other : Sexp) :
    (s.profileAddKey name kind key).profile other =
      if other = name then some (((s.profile name).getD ⟨.nil, [], []⟩).adding kind key)
      else s.profile other := by
  have made := profile_ensureProfile s name
  unfold profileAddKey
  simp only [made name, if_true]
  unfold MarkProfile.adding
  split
  · rw [made]
  · rw [profile_profilePut, made]
    by_cases same : other = name
    · simp only [same, if_true]
    · simp only [same, if_false]

theorem profile_profileRemoveKey (s : Profiles) (name : Sexp) (kind : MarkKind) (key other : Sexp) :
    (s.profileRemoveKey name kind key).profile other =
      if other = name then (s.profile name).map (·.removing kind key) else s.profile other := by
  unfold profileRemoveKey
  cases found : s.profile name with
  | none =>
      by_cases same : other = name
      · rw [if_pos same, same]
        exact found
      · rw [if_neg same]
  | some profile => exact profile_profilePut s name other _

theorem profileAddKey_selected (s : Profiles) (name : Sexp) (kind : MarkKind) (key : Sexp) :
    (s.profileAddKey name kind key).selected = s.selected := by
  unfold profileAddKey ensureProfile
  cases found : s.profile name with
  | none =>
      simp only [profile_profilePut, if_true]
      split <;> rfl
  | some profile =>
      simp only [found]
      split <;> rfl

theorem profileRemoveKey_selected (s : Profiles) (name : Sexp) (kind : MarkKind) (key : Sexp) :
    (s.profileRemoveKey name kind key).selected = s.selected := by
  unfold profileRemoveKey
  split <;> rfl

theorem mem_listing_adding : key ∈ (profile.adding .listing key).listing := by
  unfold MarkProfile.adding
  split
  · rename_i there
    exact there
  · exact List.mem_cons_self

theorem adding_eq_iff : profile.adding .listing key = profile ↔ key ∈ profile.listing := by
  constructor
  · intro same
    rw [← same]
    exact mem_listing_adding
  · exact fun there => if_pos there

/-- A key that was added is taken away without a trace if it was not there before. -/
theorem removing_adding_iff :
    (profile.adding .listing key).removing .listing key = profile ↔ key ∉ profile.listing := by
  constructor
  · intro same there
    rw [← same] at there
    have kept : key ∈ (profile.adding .listing key).listing.filter (· ≠ key) := there
    simpa using (List.mem_filter.mp kept).2
  · intro absent
    have others : profile.listing.filter (· ≠ key) = profile.listing := by
      apply List.filter_eq_self.mpr
      intro other there
      simpa using fun same : other = key => absent (same ▸ there)
    have added : profile.adding .listing key =
        { profile with listing := key :: profile.listing } := if_neg absent
    rw [added]
    unfold MarkProfile.removing
    simp only [MarkProfile.setKeys, MarkProfile.keys]
    rw [List.filter_cons_of_neg (by simp), others]

theorem activeMarks_congr (names : ∀ name, name ∈ r.active ∧ (r.profile name).isSome = true ↔
      name ∈ s.active ∧ (s.profile name).isSome = true)
    (profiles : ∀ name, r.profile name = s.profile name) (kind : MarkKind) :
    r.activeMarks kind = s.activeMarks kind := by
  ext key
  simp only [mem_activeMarks]
  constructor
  · rintro ⟨name, active, profile, found, member⟩
    have there := (names name).mp ⟨active, by rw [found]; rfl⟩
    exact ⟨name, there.1, profile, (profiles name).symm.trans found, member⟩
  · rintro ⟨name, active, profile, found, member⟩
    have there := (names name).mpr ⟨active, by rw [found]; rfl⟩
    exact ⟨name, there.1, profile, (profiles name).trans found, member⟩

/-- The active names that are left when a name that has a profile becomes active. -/
theorem kept_eq_iff (exists_name : (r.profile name).isSome = true) :
    (s.pushActive name).active.filter (fun name => (r.profile name).isSome) = s.active ↔
      name ∈ s.active ∧ ∀ other ∈ s.active, (r.profile other).isSome = true := by
  have pushed : name ∈ (s.pushActive name).active := by
    unfold pushActive
    by_cases active : name ∈ s.active <;> simp [active]
  constructor
  · intro same
    have kept : ∀ other ∈ s.active, (r.profile other).isSome = true := by
      intro other active
      rw [← same] at active
      exact (List.mem_filter.mp active).2
    refine ⟨?_, kept⟩
    rw [← same]
    exact List.mem_filter.mpr ⟨pushed, exists_name⟩
  · rintro ⟨active, existing⟩
    have stays : (s.pushActive name).active = s.active := if_pos active
    rw [stays]
    exact List.filter_eq_self.mpr existing

/-- What is rebuilt last decides whether everything is as it was. -/
theorem unchanged_rebuild_iff (selected : r.selected = s.selected)
    (there : (r.profile r.selected).isSome = true) :
    s.Unchanged r.rebuildLiveMarks ↔ (∀ name, r.profile name = s.profile name) ∧
      r.active.filter (fun name => (r.profile name).isSome) = s.active ∧
      ∀ kind, s.live kind = s.activeMarks kind := by
  have rebuilt : ∀ kind, r.rebuildLiveMarks.live kind = r.activeMarks kind := by
    intro kind
    cases kind <;> rfl
  have names : r.active.filter (fun name => (r.profile name).isSome) = s.active →
      (∀ name, r.profile name = s.profile name) → ∀ name,
      name ∈ r.active ∧ (r.profile name).isSome = true ↔
        name ∈ s.active ∧ (s.profile name).isSome = true := by
    intro active profiles name
    rw [← active, ← profiles name, List.mem_filter]
    tauto
  constructor
  · rintro ⟨profiles, active, -, live⟩
    refine ⟨profiles, active, ?_⟩
    intro kind
    rw [← live kind, rebuilt kind]
    exact activeMarks_congr (names active profiles) profiles kind
  · rintro ⟨profiles, active, live⟩
    refine ⟨profiles, active, ?_, ?_⟩
    · rw [rebuildLiveMarks_selected there, selected]
    · intro kind
      rw [rebuilt kind, live kind]
      exact activeMarks_congr (names active profiles) profiles kind

/-- A command that changes the selected profile and makes it active, before the last rebuild. -/
structure Reworked (s r : Profiles) (change : MarkProfile → MarkProfile) : Prop where
  selected : r.selected = s.selected
  profile : ∀ other, r.profile other =
    if other = s.selected then some (change ((s.profile s.selected).getD ⟨.nil, [], []⟩))
    else s.profile other
  active : r.active.filter (fun name => (r.profile name).isSome) =
    (s.pushActive s.selected).active.filter (fun name => (r.profile name).isSome)

theorem Reworked.exists_selected {change : MarkProfile → MarkProfile}
    (reworked : Reworked s r change) : (r.profile s.selected).isSome = true := by
  rw [reworked.profile, if_pos rfl]
  rfl

/-- Such a command changes nothing where its change does nothing to the profile, which exists and
is active. -/
theorem Reworked.unchanged_iff {change : MarkProfile → MarkProfile}
    (reworked : Reworked s r change) :
    s.Unchanged r.rebuildLiveMarks ↔ (∀ kind, s.live kind = s.activeMarks kind) ∧
      (∀ name ∈ s.active, (s.profile name).isSome = true) ∧ s.selected ∈ s.active ∧
      ∃ profile, s.profile s.selected = some profile ∧ change profile = profile := by
  have there := reworked.exists_selected
  rw [unchanged_rebuild_iff reworked.selected (reworked.selected.symm ▸ there), reworked.active,
    kept_eq_iff there]
  constructor
  · rintro ⟨same, ⟨chosen, existing⟩, live⟩
    refine ⟨live, fun name known => same name ▸ existing name known, chosen, ?_⟩
    have own := same s.selected
    rw [reworked.profile, if_pos rfl] at own
    cases found : s.profile s.selected with
    | none =>
        rw [found] at own
        cases own
    | some profile =>
        rw [found] at own
        exact ⟨profile, rfl, Option.some.inj own⟩
  · rintro ⟨live, existing, chosen, profile, found, fixed⟩
    have same : ∀ name, r.profile name = s.profile name := by
      intro name
      rw [reworked.profile]
      split
      · rename_i own
        rw [own, found, Option.getD_some, fixed]
      · rfl
    exact ⟨same, ⟨chosen, fun name known => (same name).symm ▸ existing name known⟩, live⟩

/-- The state that the tentative mark is rebuilt from. -/
theorem addMark_reworks (s : Profiles) (key : Sexp) : ∃ r : Profiles,
    s.addMark .listing key = r.rebuildLiveMarks ∧
      r.active = (s.pushActive s.selected).active ∧ Reworked s r (·.adding .listing key) := by
  have active : ((s.profileAddKey s.selected .listing key).pushActive
      (s.profileAddKey s.selected .listing key).selected).active =
        (s.pushActive s.selected).active := by
    unfold pushActive
    rw [profileAddKey_active, profileAddKey_selected]
  refine ⟨_, rfl, active, profileAddKey_selected s _ _ _, profile_profileAddKey s _ _ _, ?_⟩
  rw [active]

/-- The state that the withdrawn mark is rebuilt from. -/
theorem declined_reworks (s : Profiles) (key : Sexp) :
    Reworked s ((s.addMark .listing key).profileRemoveKey (s.addMark .listing key).selected
      .listing key) fun profile => (profile.adding .listing key).removing .listing key := by
  obtain ⟨r, marked, active, reworked⟩ := addMark_reworks s key
  have selected : r.rebuildLiveMarks.selected = s.selected := by
    rw [rebuildLiveMarks_selected (reworked.selected.symm ▸ reworked.exists_selected),
      reworked.selected]
  have profiles : ∀ name, r.rebuildLiveMarks.profile name = r.profile name := fun _ => rfl
  have removed : ∀ other, (r.rebuildLiveMarks.profileRemoveKey s.selected .listing key).profile
      other = if other = s.selected then
        some ((((s.profile s.selected).getD ⟨.nil, [], []⟩).adding .listing key).removing
          .listing key)
      else s.profile other := by
    intro other
    rw [profile_profileRemoveKey, profiles, profiles, reworked.profile, if_pos rfl]
    by_cases own : other = s.selected
    · simp only [own, if_true, Option.map_some]
    · simp only [own, if_false, reworked.profile]
  have same_exists : ∀ name,
      ((r.rebuildLiveMarks.profileRemoveKey s.selected .listing key).profile name).isSome =
        (r.profile name).isSome := by
    intro name
    rw [removed, reworked.profile]
    split <;> rfl
  rw [marked, selected]
  refine ⟨?_, removed, ?_⟩
  · rw [profileRemoveKey_selected, selected]
  · have rebuilt : r.rebuildLiveMarks.active = r.active.filter fun name =>
      (r.profile name).isSome := rfl
    rw [profileRemoveKey_active, rebuilt, active, List.filter_filter]
    simp only [same_exists, Bool.and_self]

/-- A listing that fails leaves the tentative mark. -/
theorem addMark_unchanged_iff (s : Profiles) (key : Sexp) :
    s.Unchanged (s.addMark .listing key) ↔ s.Restorable key none := by
  obtain ⟨r, marked, -, reworked⟩ := addMark_reworks s key
  rw [marked, reworked.unchanged_iff]
  simp only [adding_eq_iff]
  constructor
  · rintro ⟨live, existing, chosen, profile, found, listed⟩
    exact ⟨live, existing, chosen, profile, found, iff_of_true listed rfl⟩
  · rintro ⟨live, existing, chosen, profile, found, listed⟩
    exact ⟨live, existing, chosen, profile, found, listed.mpr rfl⟩

/-- The user who declines has the mark taken away, whoever made it. -/
theorem declined_unchanged_iff (s : Profiles) (key : Sexp) (count : Nat) :
    s.Unchanged (((s.addMark .listing key).profileRemoveKey (s.addMark .listing key).selected
      .listing key).rebuildLiveMarks) ↔ s.Restorable key (some count) := by
  rw [(declined_reworks s key).unchanged_iff]
  simp only [removing_adding_iff]
  constructor
  · rintro ⟨live, existing, chosen, profile, found, absent⟩
    exact ⟨live, existing, chosen, profile, found, iff_of_false absent nofun⟩
  · rintro ⟨live, existing, chosen, profile, found, listed⟩
    exact ⟨live, existing, chosen, profile, found, fun member => nomatch listed.mp member⟩

end Undo

/-- The command that does not complete leaves everything as it was if and only if it did not reach
the listing or met a state that it can restore. -/
theorem incomplete_mark_unchanged_iff (thresholds : Thresholds) (s : Profiles) (met : Encounter)
    (incomplete : met.Incomplete thresholds) :
    s.Unchanged (s.markListingPrefetch thresholds met) ↔
      ∀ parsed, met.parsed = some parsed → met.connects = true →
        s.Restorable (markKey parsed) met.counted := by
  have same : s.Unchanged s := ⟨fun _ => rfl, rfl, rfl, fun _ => rfl⟩
  unfold markListingPrefetch
  cases directory : met.parsed with
  | none => exact iff_of_true same nofun
  | some parsed =>
      by_cases connects : met.connects = true
      · simp only [connects, if_true, Option.some.injEq, forall_const, forall_eq']
        cases counted : met.counted with
        | none => exact addMark_unchanged_iff s (markKey parsed)
        | some count =>
            have declined : thresholds.listing < count ∧ ¬ met.confirmed = true := by
              rcases incomplete with unnamed | alone | failed | ⟨listed, known, many, refused⟩
              · rw [directory] at unnamed
                cases unnamed
              · rw [connects] at alone
                cases alone
              · rw [counted] at failed
                cases failed
              · rw [counted] at known
                cases known
                exact ⟨many, by simp [refused]⟩
            dsimp only
            rw [if_pos declined]
            exact declined_unchanged_iff s (markKey parsed) count
      · simp only [connects, if_false, Bool.false_eq_true]
        exact iff_of_true same fun _ _ reached => nomatch reached

/-- A directory is marked in the selected profile, which is active. -/
def markedOnce : Profiles :=
  { initial with
    table := (∅ : AList fun _ : Sexp => MarkProfile).insert defaultName
      ⟨.nil, [markKey ("h", "/a")], []⟩
    listingDirs := {markKey ("h", "/a")} }

/-- The listing of another directory fails. -/
def listingFails : Encounter := ⟨some ("h", "/b"), true, none, false⟩

/-- The mark of the directory is declined. -/
def declinesAgain : Encounter := ⟨some ("h", "/a"), true, some 2000, false⟩

/-- The mark of another one is declined. -/
def declines : Encounter := ⟨some ("h", "/b"), true, some 2000, false⟩

theorem incomplete_mark_unchanged_iff_declined :
    markedOnce.Unchanged (markedOnce.markListingPrefetch {} declines) := by
  have incomplete : declines.Incomplete {} := .inr (.inr (.inr ⟨2000, rfl, by decide, rfl⟩))
  apply (incomplete_mark_unchanged_iff {} markedOnce declines incomplete).mpr
  intro parsed named _
  cases named
  constructor
  case rebuilt =>
    intro kind
    cases kind <;> decide
  case existing => decide
  case active => decide
  case marked => exact ⟨_, rfl, by decide⟩

/-- A listing that fails leaves the new mark, and declining takes away the old one. -/
theorem incomplete_marks_change :
    ¬ markedOnce.Unchanged (markedOnce.markListingPrefetch {} listingFails) ∧
      ¬ markedOnce.Unchanged (markedOnce.markListingPrefetch {} declinesAgain) := by
  constructor
  · intro same
    have live := same.live .listing
    exact absurd live (by decide)
  · intro same
    have live := same.live .listing
    exact absurd live (by decide)

end Profiles

end EmacsRelay.RelayPrefetch

import EmacsRelay.Prefetch.Recency
import EmacsRelay.Prefetch.Tentative
import EmacsRelay.Prefetch.Warm

set_option autoImplicit false

/- What the commands that take profiles or marks away evict from the content cache. A mark is for
one directory, an eviction for all that is below it. -/
namespace EmacsRelay.RelayPrefetch

/-- A key as it stands in a profile. -/
def keySexp (key : Key) : Sexp := .cons (.str key.1) (.str key.2)

/-- The key that stands in a profile. -/
def asKey : Sexp → Option Key
  | .cons (.str authority) (.str localdir) => some (authority, localdir)
  | _ => none

theorem asKey_eq_some {mark : Sexp} {key : Key} : asKey mark = some key ↔ mark = keySexp key := by
  constructor
  · intro found
    unfold asKey at found
    split at found
    · cases found
      rfl
    · cases found
  · rintro rfl
    rfl

/-- The directories of a profile. -/
def MarkProfile.directories (profile : MarkProfile) : Profile where
  listing := profile.listing.filterMap asKey
  content := profile.content.filterMap asKey

/-- The profiles that are active, by their directories. -/
def Profiles.activeProfiles (s : Profiles) : List Profile :=
  s.active.filterMap fun name => (s.profile name).map MarkProfile.directories

/-- The live marks of a kind, on the side of the caches. -/
def Warmth.marks (w : Warmth) : MarkKind → List Key
  | .listing => w.caches.listingPrefetchDirs
  | .content => w.caches.contentPrefetchDirs

def Profile.keys (profile : Profile) : MarkKind → List Key
  | .listing => profile.listing
  | .content => profile.content

/-- The commands that may take marks out of the live sets. -/
inductive SwitchCommand where
  | activate (name : String)
  | deactivate (name : String)
  | switch (name : String)
  | delete (name : String)
  | unmarkListing (parsed : Option (String × String))
  | unmarkContent (parsed : Option (String × String))
deriving DecidableEq, Repr

namespace SwitchCommand

/-- What the command does to the profiles. -/
def edit (s : Profiles) : SwitchCommand → Profiles
  | .activate name => s.activateProfile name
  | .deactivate name => s.deactivateProfile name
  | .switch name => s.switchProfile name
  | .delete name => s.deleteProfile name
  | .unmarkListing parsed => s.unmarkListingPrefetch parsed
  | .unmarkContent parsed => s.unmarkContentPrefetch parsed

/-- The command gets as far as `relay--prefetch-apply-active-profiles`. -/
def applies (s : Profiles) : SwitchCommand → Bool
  | .activate name => (s.profile (.str name)).isSome
  | .deactivate _ => true
  | .switch name => (s.profile (.str name)).isSome
  | .delete name => (s.profile (.str name)).isSome
  | .unmarkListing parsed => parsed.isSome
  | .unmarkContent parsed => parsed.isSome

/-- The name is active after the command, if it has a profile. -/
def StaysActive (s : Profiles) (name : Sexp) : SwitchCommand → Prop
  | .activate activated => name ∈ s.active ∨ name = .str activated
  | .deactivate deactivated => name ∈ s.active ∧ name ≠ .str deactivated
  | .switch only => if (s.profile (.str only)).isSome then name = .str only else name ∈ s.active
  | .delete deleted => name ∈ s.active ∧ name ≠ .str deleted
  | .unmarkListing _ => name ∈ s.active
  | .unmarkContent _ => name ∈ s.active

/-- The command takes the content mark out of the profile. -/
def TakesFrom (s : Profiles) (name mark : Sexp) : SwitchCommand → Prop
  | .unmarkContent (some parsed) => name = s.selected ∧ mark = markKey parsed
  | _ => False

/-- A profile that stays active keeps the directory content-marked. -/
def Keeps (s : Profiles) (command : SwitchCommand) (key : Key) : Prop :=
  ∃ name, command.StaysActive s name ∧ ¬ command.TakesFrom s name (keySexp key) ∧
    ∃ profile, s.profile name = some profile ∧ keySexp key ∈ profile.content

end SwitchCommand

section Caches

variable {w : Warmth} {active : List Profile}

/-- An eviction for the directory takes the key away. -/
def evictedBy (mark key : Key) : Bool := key.1 = mark.1 && Caches.nested mark.2 key.2

theorem evictPrefix_bytes (cache : ContentCache) (mark key : Key) :
    (cache.evictPrefix mark.1 mark.2).bytes key =
      if evictedBy mark key then none else cache.bytes key :=
  evict_order cache (evictedBy mark) key

/-- Evictions for several directories take away what lies within one of them. -/
theorem evictPrefixes_bytes (gone : List Key) (cache : ContentCache) (key : Key) :
    (gone.foldl (fun cache mark => cache.evictPrefix mark.1 mark.2) cache).bytes key =
      if gone.any (evictedBy · key) then none else cache.bytes key := by
  induction gone generalizing cache with
  | nil => rfl
  | cons mark gone ih =>
      rw [List.foldl_cons, ih, evictPrefix_bytes, List.any_cons]
      by_cases here : evictedBy mark key = true
      · simp [here]
      · rw [if_neg here, Bool.eq_false_of_not_eq_true here, Bool.false_or]

theorem retains_evictPrefixes (gone : List Key) (cache : ContentCache) :
    cache.Retains (gone.foldl (fun cache mark => cache.evictPrefix mark.1 mark.2) cache) := by
  induction gone generalizing cache with
  | nil => exact .refl
  | cons mark gone ih => exact (ContentCache.retains_evicts _).trans (ih _)

theorem evictDeactivatedListing_content (w : Warmth) (key : Key) :
    (w.evictDeactivatedListing key).caches.content = w.caches.content ∧
      ∀ kind, (w.evictDeactivatedListing key).marks kind = w.marks kind := by
  unfold Warmth.evictDeactivatedListing
  split
  · exact ⟨rfl, fun _ => rfl⟩
  · dsimp only
    split
    · exact ⟨rfl, fun kind => by cases kind <;> rfl⟩
    · exact ⟨rfl, fun kind => by cases kind <;> rfl⟩

theorem evictDeactivatedListings_content (keys : List Key) (w : Warmth) :
    (keys.foldl Warmth.evictDeactivatedListing w).caches.content = w.caches.content ∧
      ∀ kind, (keys.foldl Warmth.evictDeactivatedListing w).marks kind = w.marks kind := by
  induction keys generalizing w with
  | nil => exact ⟨rfl, fun _ => rfl⟩
  | cons key keys ih =>
      obtain ⟨content, marks⟩ := evictDeactivatedListing_content w key
      obtain ⟨later, kept⟩ := ih (w.evictDeactivatedListing key)
      exact ⟨later.trans content, fun kind => (kept kind).trans (marks kind)⟩

theorem evictDeactivatedContents_content (keys : List Key) (w : Warmth) :
    (keys.foldl Warmth.evictDeactivatedContent w).caches.content =
        (keys.filter (· ∉ w.marks .content)).foldl
          (fun cache mark => cache.evictPrefix mark.1 mark.2) w.caches.content ∧
      ∀ kind, (keys.foldl Warmth.evictDeactivatedContent w).marks kind = w.marks kind := by
  induction keys generalizing w with
  | nil => exact ⟨rfl, fun _ => rfl⟩
  | cons key keys ih =>
      obtain ⟨content, marks⟩ := ih (w.evictDeactivatedContent key)
      by_cases marked : key ∈ w.marks .content
      · have same : w.evictDeactivatedContent key = w := if_pos marked
        rw [same] at content marks
        rw [List.foldl_cons, same, List.filter_cons_of_neg (by simpa using marked)]
        exact ⟨content, marks⟩
      · have kept : ∀ kind, (w.evictDeactivatedContent key).marks kind = w.marks kind := by
          intro kind
          unfold Warmth.evictDeactivatedContent
          cases kind <;> simp only [Warmth.marks] <;> split <;> rfl
        have evicted : (w.evictDeactivatedContent key).caches.content =
            w.caches.content.evictPrefix key.1 key.2 := by
          have absent : key ∉ w.caches.contentPrefetchDirs := marked
          unfold Warmth.evictDeactivatedContent
          rw [if_neg absent]
          rfl
        rw [List.foldl_cons, List.filter_cons_of_pos (by simpa using marked), List.foldl_cons,
          ← evicted]
        rw [kept .content] at content
        exact ⟨content, fun kind => (marks kind).trans (kept kind)⟩

/-- Applying the active profiles leaves their marks, and evicts for the marks that went. -/
theorem applyActiveProfiles_content (w : Warmth) (active : List Profile) :
    (w.applyActiveProfiles active).caches.content =
        ((w.marks .content).filter (· ∉ active.flatMap (·.content))).foldl
          (fun cache mark => cache.evictPrefix mark.1 mark.2) w.caches.content ∧
      ∀ kind, (w.applyActiveProfiles active).marks kind = active.flatMap (·.keys kind) := by
  have rebuilt : ∀ kind, (w.rebuildLiveMarks active).marks kind = active.flatMap (·.keys kind) := by
    intro kind
    cases kind <;> rfl
  obtain ⟨content, marks⟩ := evictDeactivatedListings_content w.caches.listingPrefetchDirs
    (w.rebuildLiveMarks active)
  obtain ⟨evicted, kept⟩ := evictDeactivatedContents_content w.caches.contentPrefetchDirs
    (w.caches.listingPrefetchDirs.foldl Warmth.evictDeactivatedListing (w.rebuildLiveMarks active))
  rw [content, marks, rebuilt] at evicted
  unfold Warmth.applyActiveProfiles Warmth.evictDeactivated
  rw [Warmth.rewarm_eq]
  exact ⟨evicted, fun kind => (kept kind).trans ((marks kind).trans (rebuilt kind))⟩

end Caches

section Edits

variable {s : Profiles} {name : Sexp} {profile : MarkProfile} {key : Key}

theorem mem_pushActive (s : Profiles) (pushed name : Sexp) :
    name ∈ (s.pushActive pushed).active ↔ name ∈ s.active ∨ name = pushed := by
  unfold Profiles.pushActive
  by_cases active : pushed ∈ s.active
  · simp only [active, if_true]
    exact ⟨Or.inl, fun known => known.elim id (· ▸ active)⟩
  · simp only [active, if_false, List.mem_cons]
    exact or_comm

/-- Marks leave a profile, and none enters it. -/
theorem mem_removing {kind other : MarkKind} {removed mark : Sexp} :
    mark ∈ (profile.removing kind removed).keys other ↔
      mark ∈ profile.keys other ∧ ¬ (other = kind ∧ mark = removed) := by
  cases kind <;> cases other <;>
    simp [MarkProfile.removing, MarkProfile.setKeys, MarkProfile.keys]

theorem mark_profileRemoveKey {kind other : MarkKind} {chosen removed mark : Sexp} :
    (∃ profile, (s.profileRemoveKey chosen kind removed).profile name = some profile ∧
        mark ∈ profile.keys other) ↔
      ∃ profile, s.profile name = some profile ∧ mark ∈ profile.keys other ∧
        ¬ (name = chosen ∧ other = kind ∧ mark = removed) := by
  rw [Profiles.profile_profileRemoveKey]
  by_cases own : name = chosen
  · subst own
    simp only [if_true, Option.map_eq_some_iff, true_and]
    constructor
    · rintro ⟨_, ⟨profile, found, rfl⟩, member⟩
      exact ⟨profile, found, mem_removing.mp member⟩
    · rintro ⟨profile, found, member⟩
      exact ⟨_, ⟨profile, found, rfl⟩, mem_removing.mpr member⟩
  · simp only [own, if_false, false_and, not_false_eq_true, and_true]

/-- The table of `relay-prefetch-delete-profile` has the other profiles, and no mark of this one. -/
theorem mark_deleted {deleted mark : Sexp} {kind : MarkKind} {t : Profiles}
    (table : t.table = if deleted = defaultName then s.table.insert defaultName ⟨.nil, [], []⟩
      else s.table.erase deleted) :
    (∃ profile, t.profile name = some profile ∧ mark ∈ profile.keys kind) ↔
      name ≠ deleted ∧ ∃ profile, s.profile name = some profile ∧ mark ∈ profile.keys kind := by
  unfold Profiles.profile
  rw [table]
  by_cases own : name = deleted
  · subst own
    simp only [ne_eq, not_true_eq_false, false_and, iff_false, not_exists, not_and]
    intro profile found
    split at found
    · rename_i standard
      rw [standard, AList.lookup_insert] at found
      cases found
      cases kind <;> exact List.not_mem_nil
    · rw [AList.lookup_erase] at found
      cases found
  · simp only [own, ne_eq, not_false_eq_true, true_and]
    split
    · rename_i standard
      rw [AList.lookup_insert_ne (standard ▸ own)]
    · rw [AList.lookup_erase_ne own]

namespace SwitchCommand

theorem edit_of_not_applies {command : SwitchCommand} (stops : ¬ command.applies s = true) :
    command.edit s = s := by
  cases command with
  | activate name => exact if_neg stops
  | deactivate name => exact absurd rfl stops
  | switch name => exact if_neg stops
  | delete name => exact if_neg stops
  | unmarkListing parsed =>
      cases parsed with
      | none => rfl
      | some parsed => exact absurd rfl stops
  | unmarkContent parsed =>
      cases parsed with
      | none => rfl
      | some parsed => exact absurd rfl stops

/-- Which profiles a command that applies leaves before it rebuilds the live marks: each has no more
marks than a profile had before, and those of the ones that are active are the marks that stay. -/
theorem edit_of_applies {command : SwitchCommand} (applies : command.applies s = true) :
    ∃ r : Profiles, command.edit s = r.rebuildLiveMarks ∧
      (∀ name profile, r.profile name = some profile → ∀ kind, ∀ mark ∈ profile.keys kind,
        ∃ before, s.profile name = some before ∧ mark ∈ before.keys kind) ∧
      ∀ key, keySexp key ∈ r.activeMarks .content ↔ command.Keeps s key := by
  have kept : ∀ name profile, s.profile name = some profile → ∀ kind, ∀ mark ∈ profile.keys kind,
      ∃ before, s.profile name = some before ∧ mark ∈ before.keys kind :=
    fun _ profile found _ _ member => ⟨profile, found, member⟩
  cases command with
  | activate activated =>
      refine ⟨_, if_pos applies, kept, ?_⟩
      intro key
      rw [Profiles.mem_activeMarks]
      simp only [Keeps, StaysActive, TakesFrom, not_false_eq_true, true_and]
      apply exists_congr
      intro name
      exact and_congr_left' (mem_pushActive s _ name)
  | deactivate deactivated =>
      refine ⟨_, rfl, kept, ?_⟩
      intro key
      rw [Profiles.mem_activeMarks]
      simp only [Keeps, StaysActive, TakesFrom, not_false_eq_true, true_and]
      apply exists_congr
      intro name
      exact and_congr_left' (by simp)
  | switch only =>
      refine ⟨_, if_pos applies, kept, ?_⟩
      intro key
      have there : (s.profile (.str only)).isSome = true := applies
      rw [Profiles.mem_activeMarks]
      simp only [Keeps, StaysActive, TakesFrom, not_false_eq_true, true_and, there, if_true]
      apply exists_congr
      intro name
      exact and_congr_left' List.mem_singleton
  | delete deleted =>
      refine ⟨_, if_pos applies, ?_, ?_⟩
      · intro name profile found kind mark member
        exact ((mark_deleted rfl).mp ⟨profile, found, member⟩).2
      · intro key
        rw [Profiles.mem_activeMarks]
        simp only [Keeps, StaysActive, TakesFrom, not_false_eq_true, true_and]
        apply exists_congr
        intro name
        rw [mark_deleted (s := s) rfl]
        simp only [List.mem_filter, decide_not, Bool.not_eq_true', decide_eq_false_iff_not]
        tauto
  | unmarkListing parsed =>
      obtain ⟨parsed, rfl⟩ := Option.isSome_iff_exists.mp applies
      refine ⟨s.profileRemoveKey s.selected .listing (markKey parsed), rfl, ?_, ?_⟩
      · intro name profile found kind mark member
        obtain ⟨before, known, there, -⟩ := mark_profileRemoveKey.mp ⟨profile, found, member⟩
        exact ⟨before, known, there⟩
      · intro key
        rw [Profiles.mem_activeMarks, Profiles.profileRemoveKey_active]
        simp only [Keeps, StaysActive, TakesFrom, not_false_eq_true, true_and]
        apply exists_congr
        intro name
        rw [mark_profileRemoveKey]
        simp [MarkProfile.keys]
  | unmarkContent parsed =>
      obtain ⟨parsed, rfl⟩ := Option.isSome_iff_exists.mp applies
      refine ⟨s.profileRemoveKey s.selected .content (markKey parsed), rfl, ?_, ?_⟩
      · intro name profile found kind mark member
        obtain ⟨before, known, there, -⟩ := mark_profileRemoveKey.mp ⟨profile, found, member⟩
        exact ⟨before, known, there⟩
      · intro key
        rw [Profiles.mem_activeMarks, Profiles.profileRemoveKey_active]
        simp only [Keeps, StaysActive, TakesFrom]
        apply exists_congr
        intro name
        rw [mark_profileRemoveKey]
        simp only [true_and, MarkProfile.keys]
        constructor
        · rintro ⟨active, profile, found, member, spared⟩
          exact ⟨active, spared, profile, found, member⟩
        · rintro ⟨active, spared, profile, found, member⟩
          exact ⟨active, profile, found, member, spared⟩

/-- A command that does not apply keeps all that is active. -/
theorem staysActive_of_not_applies {command : SwitchCommand} (stops : ¬ command.applies s = true)
    (mark : Sexp) (found : s.profile name = some profile) :
    command.StaysActive s name ∧ ¬ command.TakesFrom s name mark ↔ name ∈ s.active := by
  have other : ∀ text, ¬ (s.profile (.str text)).isSome = true → name ≠ .str text := by
    rintro text absent rfl
    rw [found] at absent
    exact absent rfl
  cases command with
  | activate activated => simp [StaysActive, TakesFrom, other activated stops]
  | deactivate deactivated => exact absurd rfl stops
  | switch only =>
      have absent : ¬ (s.profile (.str only)).isSome = true := stops
      simp [StaysActive, TakesFrom, absent]
  | delete deleted => simp [StaysActive, TakesFrom, other deleted stops]
  | unmarkListing parsed => simp [StaysActive, TakesFrom]
  | unmarkContent parsed =>
      cases parsed with
      | none => simp [StaysActive, TakesFrom]
      | some parsed => exact absurd rfl stops

/-- The marks that are live after a command are those of the profiles that stay active. -/
theorem live_edit (settled : s.Settled) (command : SwitchCommand) (key : Key) :
    keySexp key ∈ (command.edit s).contentDirs ↔ command.Keeps s key := by
  by_cases applies : command.applies s = true
  · obtain ⟨r, edited, -, marks⟩ := edit_of_applies applies
    rw [edited]
    exact marks key
  · rw [edit_of_not_applies applies]
    have live := settled.live .content (keySexp key)
    refine live.trans ?_
    unfold Keeps
    apply exists_congr
    intro name
    constructor
    · rintro ⟨active, profile, found, member⟩
      obtain ⟨stays, spared⟩ := (staysActive_of_not_applies applies _ found).mpr active
      exact ⟨stays, spared, profile, found, member⟩
    · rintro ⟨stays, spared, profile, found, member⟩
      have active := (staysActive_of_not_applies applies _ found).mp ⟨stays, spared⟩
      exact ⟨active, profile, found, member⟩

end SwitchCommand

end Edits

/-- The profiles, the caches and the connection they are used on. The marks of the profiles are
directories of hosts, and the live sets hold those of the profiles that are active. -/
structure Prefetching where
  profiles : Profiles
  warmth : Warmth
  settled : profiles.Settled
  keyed : ∀ name profile, profiles.profile name = some profile → ∀ kind, ∀ mark ∈ profile.keys kind,
    ∃ key, mark = keySexp key
  agree : ∀ kind key, key ∈ warmth.marks kind ↔ keySexp key ∈ profiles.live kind

theorem mem_activeProfiles {s : Profiles} (kind : MarkKind) {key : Key} :
    key ∈ s.activeProfiles.flatMap (·.keys kind) ↔
      ∃ name ∈ s.active, ∃ profile, s.profile name = some profile ∧
        keySexp key ∈ profile.keys kind := by
  have listed : ∀ profile : MarkProfile,
      key ∈ profile.directories.keys kind ↔ keySexp key ∈ profile.keys kind := by
    intro profile
    have member : ∀ marks : List Sexp, key ∈ marks.filterMap asKey ↔ keySexp key ∈ marks := by
      intro marks
      rw [List.mem_filterMap]
      constructor
      · rintro ⟨mark, there, found⟩
        exact asKey_eq_some.mp found ▸ there
      · exact fun there => ⟨_, there, asKey_eq_some.mpr rfl⟩
    cases kind
    · exact member profile.listing
    · exact member profile.content
  simp only [Profiles.activeProfiles, List.mem_flatMap, List.mem_filterMap, Option.map_eq_some_iff]
  constructor
  · rintro ⟨_, ⟨name, active, profile, found, rfl⟩, member⟩
    exact ⟨name, active, profile, found, (listed profile).mp member⟩
  · rintro ⟨name, active, profile, found, member⟩
    exact ⟨_, ⟨name, active, profile, found, rfl⟩, (listed profile).mpr member⟩

namespace Prefetching

/-- One command, on profiles and caches. -/
def step (s : Prefetching) (command : SwitchCommand) : Prefetching :=
  if applies : command.applies s.profiles = true then
    { profiles := command.edit s.profiles
      warmth := s.warmth.applyActiveProfiles (command.edit s.profiles).activeProfiles
      settled := by
        obtain ⟨r, edited, -, -⟩ := SwitchCommand.edit_of_applies applies
        rw [edited]
        exact Profiles.rebuildLiveMarks_settled r
      keyed := by
        obtain ⟨r, edited, kept, -⟩ := SwitchCommand.edit_of_applies applies
        rw [edited]
        intro name profile found kind mark member
        obtain ⟨before, known, there⟩ := kept name profile found kind mark member
        exact s.keyed name before known kind mark there
      agree := by
        obtain ⟨r, edited, -, -⟩ := SwitchCommand.edit_of_applies applies
        intro kind key
        have settled : (command.edit s.profiles).Settled := by
          rw [edited]
          exact Profiles.rebuildLiveMarks_settled r
        rw [(applyActiveProfiles_content _ _).2, mem_activeProfiles]
        exact (settled.live kind (keySexp key)).symm }
  else s

def content (s : Prefetching) : ContentCache := s.warmth.caches.content

/-- An active profile has the directory marked for content prefetch. -/
def ContentMarked (s : Prefetching) (key : Key) : Prop :=
  ∃ name ∈ s.profiles.active, ∃ profile, s.profiles.profile name = some profile ∧
    keySexp key ∈ profile.content

/-- What is cached of a directory that lost its content mark is gone, and what is cached of one that
is still marked is as it was. -/
def EvictsExactly (s t : Prefetching) : Prop :=
  ∀ key bytes dir, s.content.bytes key = some bytes → parentDirectory key.2 = some dir →
    s.ContentMarked (key.1, dir) →
      (¬ t.ContentMarked (key.1, dir) → t.content.bytes key = none) ∧
      (t.ContentMarked (key.1, dir) → t.content.bytes key = some bytes ∧
        t.content.revisions key = s.content.revisions key)

/-- No cached file of a directory that stays marked lies below one that loses its mark. -/
def Undisturbed (s : Prefetching) (command : SwitchCommand) : Prop :=
  ∀ key dir, s.content.bytes key ≠ none → parentDirectory key.2 = some dir →
    s.ContentMarked (key.1, dir) → command.Keeps s.profiles (key.1, dir) →
      ∀ localdir, s.ContentMarked (key.1, localdir) → Within localdir key.2 →
        command.Keeps s.profiles (key.1, localdir)

section Step

variable {s : Prefetching} {command : SwitchCommand} {key : Key}

theorem contentMarked_iff : s.ContentMarked key ↔ key ∈ s.warmth.marks .content := by
  rw [s.agree]
  exact (s.settled.live .content (keySexp key)).symm

theorem step_profiles (s : Prefetching) (command : SwitchCommand) :
    (s.step command).profiles = command.edit s.profiles := by
  unfold step
  split
  · rfl
  · rename_i stops
    exact (SwitchCommand.edit_of_not_applies stops).symm

theorem contentMarked_step :
    (s.step command).ContentMarked key ↔ command.Keeps s.profiles key := by
  rw [← SwitchCommand.live_edit s.settled, ← step_profiles]
  exact ((s.step command).settled.live .content (keySexp key)).symm

/-- The marks that an applied command leaves. -/
theorem mem_marks_step :
    key ∈ (command.edit s.profiles).activeProfiles.flatMap (·.content) ↔
      command.Keeps s.profiles key := by
  rw [← contentMarked_step, ← step_profiles]
  exact mem_activeProfiles .content

/-- What is cached after a command. -/
theorem content_step (s : Prefetching) (command : SwitchCommand) (key : Key) :
    s.content.Retains (s.step command).content ∧
      ((s.step command).content.bytes key = none ↔ s.content.bytes key = none ∨
        ∃ localdir, s.ContentMarked (key.1, localdir) ∧
          ¬ command.Keeps s.profiles (key.1, localdir) ∧ Within localdir key.2) := by
  by_cases applies : command.applies s.profiles = true
  · have stepped : (s.step command).content =
        (s.warmth.applyActiveProfiles (command.edit s.profiles).activeProfiles).caches.content := by
      unfold step content
      rw [dif_pos applies]
    have evicted := (applyActiveProfiles_content s.warmth
      (command.edit s.profiles).activeProfiles).1
    rw [stepped, evicted]
    refine ⟨retains_evictPrefixes _ _, ?_⟩
    rw [evictPrefixes_bytes]
    have gone : (((s.warmth.marks .content).filter
        (· ∉ (command.edit s.profiles).activeProfiles.flatMap (·.content))).any
          (evictedBy · key)) = true ↔ ∃ localdir, s.ContentMarked (key.1, localdir) ∧
            ¬ command.Keeps s.profiles (key.1, localdir) ∧ Within localdir key.2 := by
      simp only [List.any_eq_true, List.mem_filter, decide_not, Bool.not_eq_true',
        decide_eq_false_iff_not, mem_marks_step, ← contentMarked_iff, evictedBy, Bool.and_eq_true,
        decide_eq_true_eq, nested_iff]
      constructor
      · rintro ⟨⟨authority, localdir⟩, ⟨marked, lost⟩, same, within⟩
        cases same
        exact ⟨localdir, marked, lost, within⟩
      · rintro ⟨localdir, marked, lost, within⟩
        exact ⟨(key.1, localdir), ⟨marked, lost⟩, rfl, within⟩
    rw [← gone]
    by_cases taken : (((s.warmth.marks .content).filter
        (· ∉ (command.edit s.profiles).activeProfiles.flatMap (·.content))).any
          (evictedBy · key)) = true
    · simp only [taken, if_true, or_true]
    · simp only [taken, if_false, or_false, Bool.false_eq_true]
      rfl
  · have same : s.step command = s := dif_neg applies
    rw [same]
    refine ⟨.refl, (or_iff_left ?_).symm⟩
    rintro ⟨localdir, marked, lost, -⟩
    apply lost
    rw [← contentMarked_step, same]
    exact marked

end Step

theorem evictsExactly_iff (s : Prefetching) (command : SwitchCommand) :
    s.EvictsExactly (s.step command) ↔ s.Undisturbed command := by
  constructor
  · intro exactly key dir cached parent marked stays localdir around within
    obtain ⟨bytes, found⟩ := Option.ne_none_iff_exists'.mp cached
    have kept := ((exactly key bytes dir found parent marked).2 (contentMarked_step.mpr stays)).1
    by_contra lost
    have gone := (content_step s command key).2.mpr (.inr ⟨localdir, around, lost, within⟩)
    rw [kept] at gone
    cases gone
  · intro undisturbed key bytes dir found parent marked
    obtain ⟨retains, gone⟩ := content_step s command key
    constructor
    · intro lost
      apply gone.mpr
      -- the directory of a file is one that the eviction for its own mark reaches
      refine .inr ⟨dir, marked, fun stays => lost (contentMarked_step.mpr stays), ?_⟩
      exact .inr ((stringPrefixP_iff _ _).mp (stringPrefixP_of_parent parent))
    · intro stays
      have cached : s.content.bytes key ≠ none := by simp [found]
      have left : (s.step command).content.bytes key ≠ none := by
        intro absent
        rcases gone.mp absent with before | ⟨localdir, around, lost, within⟩
        · exact cached before
        · exact lost (undisturbed key dir cached parent marked (contentMarked_step.mp stays)
            localdir around within)
      rcases retains key with absent | ⟨bytes_same, revision⟩
      · exact absurd absent left
      · exact ⟨bytes_same.trans found, revision⟩

/-- Profiles whose live marks have been rebuilt, with caches that have seen no other marks. -/
def rebuilt (r : Profiles) (caches : Caches)
    (keyed : ∀ name profile, r.profile name = some profile → ∀ kind, ∀ mark ∈ profile.keys kind,
      ∃ key, mark = keySexp key) : Prefetching where
  profiles := r.rebuildLiveMarks
  warmth := Warmth.rebuildLiveMarks ⟨caches, fun _ => (none, none), fun _ => none, []⟩
    r.rebuildLiveMarks.activeProfiles
  settled := Profiles.rebuildLiveMarks_settled r
  keyed := keyed
  agree kind key := by
    have marks : (Warmth.rebuildLiveMarks ⟨caches, fun _ => (none, none), fun _ => none, []⟩
        r.rebuildLiveMarks.activeProfiles).marks kind =
          r.rebuildLiveMarks.activeProfiles.flatMap (·.keys kind) := by cases kind <;> rfl
    rw [marks, mem_activeProfiles]
    exact ((Profiles.rebuildLiveMarks_settled r).live kind (keySexp key)).symm

/-- The default profile marks a directory, another profile one inside it. -/
def nestedProfiles : Profiles :=
  { Profiles.initial with
    table := ((∅ : AList fun _ : Sexp => MarkProfile).insert (.str "inner")
      ⟨.nil, [], [keySexp ("h", "/a/b")]⟩).insert defaultName ⟨.nil, [], [keySexp ("h", "/a")]⟩
    active := [defaultName, .str "inner"] }

theorem nestedProfiles_keyed (name : Sexp) (profile : MarkProfile)
    (found : nestedProfiles.profile name = some profile) (kind : MarkKind) :
    ∀ mark ∈ profile.keys kind, ∃ key, mark = keySexp key := by
  unfold Profiles.profile nestedProfiles at found
  by_cases standard : name = defaultName
  · rw [standard, AList.lookup_insert] at found
    cases found
    cases kind with
    | listing => exact nofun
    | content => exact fun mark member => ⟨("h", "/a"), List.mem_singleton.mp member⟩
  · rw [AList.lookup_insert_ne standard] at found
    by_cases inner : name = .str "inner"
    · rw [inner, AList.lookup_insert] at found
      cases found
      cases kind with
      | listing => exact nofun
      | content => exact fun mark member => ⟨("h", "/a/b"), List.mem_singleton.mp member⟩
    · rw [AList.lookup_insert_ne inner] at found
      cases found

/-- A file of the inner directory is cached. -/
def nestedMarks : Prefetching :=
  rebuilt nestedProfiles
    { authority := "h", content := ContentCache.empty.insert ("h", "/a/b/f") "text" (some "r") }
    nestedProfiles_keyed

/-- Deactivating the profile of the outer directory takes the file of the inner one. -/
theorem deactivation_evicts_marked :
    ¬ nestedMarks.EvictsExactly (nestedMarks.step (.deactivate "default")) := by
  intro exactly
  have outer : nestedMarks.ContentMarked ("h", "/a") :=
    ⟨defaultName, by decide, ⟨.nil, [], [keySexp ("h", "/a")]⟩, by decide, by decide⟩
  have inner : nestedMarks.ContentMarked ("h", "/a/b") :=
    ⟨.str "inner", by decide, ⟨.nil, [], [keySexp ("h", "/a/b")]⟩, by decide, by decide⟩
  have stays : SwitchCommand.Keeps nestedMarks.profiles (.deactivate "default") ("h", "/a/b") :=
    ⟨.str "inner", ⟨by decide, by decide⟩, not_false, ⟨.nil, [], [keySexp ("h", "/a/b")]⟩,
      by decide, by decide⟩
  have lost : ¬ SwitchCommand.Keeps nestedMarks.profiles (.deactivate "default") ("h", "/a") := by
    rw [← SwitchCommand.live_edit nestedMarks.settled]
    decide
  have kept := (exactly ("h", "/a/b/f") "text" "/a/b" (by decide) (by decide) inner).2
    (contentMarked_step.mpr stays)
  have gone := (content_step nestedMarks (.deactivate "default") ("h", "/a/b/f")).2.mpr
    (.inr ⟨"/a", outer, lost, (nested_iff "/a" "/a/b/f").mp (by decide)⟩)
  rw [kept.1] at gone
  cases gone

end Prefetching

end EmacsRelay.RelayPrefetch

import EmacsRelay.Prefetch.Events

set_option autoImplicit false

/- What the messages for a changed path remove from the caches: all that shows the path, unless
the path is watched itself and its directory is watched too. -/
namespace EmacsRelay.RelayPrefetch

open Server

/-- At or below the path ASKED. -/
def Within (asked path : String) : Prop :=
  path = asked ∨ ∃ rest, path = fileNameAsDirectory asked ++ rest

section Names

theorem stringPrefixP_iff (start string : String) :
    stringPrefixP start string = true ↔ ∃ rest, string = start ++ rest := by
  unfold stringPrefixP
  rw [List.isPrefixOf_iff_prefix]
  constructor
  · rintro ⟨rest, parts⟩
    refine ⟨String.ofList rest, ?_⟩
    apply String.toList_inj.mp
    rw [String.toList_append, String.toList_ofList, parts]
  · rintro ⟨rest, rfl⟩
    exact ⟨rest.toList, String.toList_append.symm⟩

theorem nested_iff (localdir path : String) :
    Caches.nested localdir path = true ↔ Within localdir path := by
  simp only [Caches.nested, Bool.or_eq_true, decide_eq_true_eq, stringPrefixP_iff, Within]

/-- A name starts the directory name made of it. -/
theorem fileNameAsDirectory_extends (file : String) :
    ∃ slash, fileNameAsDirectory file = file ++ slash := by
  unfold fileNameAsDirectory
  split
  · rename_i empty
    refine ⟨"./", ?_⟩
    have blank : file = "" := String.toList_inj.mp empty
    rw [blank]
    rfl
  · split
    · exact ⟨"", by simp⟩
    · exact ⟨"/", rfl⟩

theorem Within.below {asked dir : String} (within : Within asked dir) (rest : String) :
    Within asked (fileNameAsDirectory dir ++ rest) := by
  rcases within with rfl | ⟨middle, rfl⟩
  · exact .inr ⟨rest, rfl⟩
  · obtain ⟨slash, same⟩ := fileNameAsDirectory_extends (fileNameAsDirectory asked ++ middle)
    right
    refine ⟨middle ++ slash ++ rest, ?_⟩
    rw [same]
    simp only [String.append_assoc]

theorem Within.trans {asked dir path : String} (outer : Within asked dir)
    (inner : Within dir path) : Within asked path := by
  rcases inner with rfl | ⟨rest, rfl⟩
  · exact outer
  · exact outer.below rest

end Names

/-- The event drops the listing of DIR. -/
def evictsListing (dir : String) : FsEvent → Bool
  | .overflow => true
  | .selfChanged localdir => Caches.nested localdir dir
  | .changed _ parent name => dir = parent || Caches.nested (fileNameAsDirectory parent ++ name) dir

/-- The event drops the contents of PATH. -/
def evictsContent (path : String) : FsEvent → Bool
  | .overflow => true
  | .selfChanged localdir => Caches.nested localdir path
  | .changed _ parent name => Caches.nested (fileNameAsDirectory parent ++ name) path

section Handling

variable (c : Caches)

theorem evict_bytes (keys : List Key) (cache : ContentCache) (key : Key) :
    (keys.foldl ContentCache.evict cache).bytes key =
      if key ∈ keys then none else cache.bytes key := by
  induction keys generalizing cache with
  | nil => simp
  | cons first keys ih =>
      rw [List.foldl_cons, ih]
      by_cases later : key ∈ keys
      · simp [later]
      · by_cases same : key = first
        · simp [same, ContentCache.evict]
        · simp [later, same, ContentCache.evict]

/-- All entries of the order that pass a test are evicted, so that nothing that passes is left. -/
theorem evict_order (cache : ContentCache) (test : Key → Bool) (key : Key) :
    ((cache.order.filter test).foldl ContentCache.evict cache).bytes key =
      if test key then none else cache.bytes key := by
  rw [evict_bytes]
  by_cases passes : test key = true
  · by_cases known : key ∈ cache.order
    · simp [passes, known]
    · have absent : cache.bytes key = none := by
        apply Classical.byContradiction
        intro present
        exact known (cache.ordered key present)
      simp [passes, known, absent]
  · simp [passes]

theorem handleEvent_authority (event : FsEvent) :
    (handleEvent c event).caches.authority = c.authority := by
  cases event <;> rfl

theorem handleEvent_epoch (event : FsEvent) :
    (handleEvent c event).caches.epoch = c.epoch + 1 := by
  cases event <;> rfl

theorem handleEvent_dircache (event : FsEvent) (dir : String) :
    (handleEvent c event).caches.dircache dir =
      if evictsListing dir event then none else c.dircache dir := by
  cases event with
  | overflow => rfl
  | selfChanged localdir => rfl
  | changed kind parent name =>
      simp only [handleEvent, Caches.contentCacheEvictPrefix_dircache,
        Caches.dircacheEvictPrefix_dircache, Caches.dropListing_dircache,
        Caches.advanceCacheEpoch_dircache, evictsListing, Bool.or_eq_true, decide_eq_true_eq]
      by_cases below : Caches.nested (fileNameAsDirectory parent ++ name) dir = true
      · simp [below]
      · simp [below]

theorem handleEvent_content (event : FsEvent) (path : String) :
    (handleEvent c event).caches.content.bytes (c.authority, path) =
      if evictsContent path event then none else c.content.bytes (c.authority, path) := by
  cases event with
  | overflow =>
      have evicted := evict_order c.content (fun key => decide (key.1 = c.authority))
        (c.authority, path)
      exact evicted.trans (by simp [evictsContent])
  | selfChanged localdir =>
      have evicted := evict_order c.content
        (fun key => key.1 = c.authority && Caches.nested localdir key.2) (c.authority, path)
      simp only [decide_true, Bool.true_and] at evicted
      exact evicted
  | changed kind parent name =>
      have evicted := evict_order c.content
        (fun key => key.1 = c.authority &&
          Caches.nested (fileNameAsDirectory parent ++ name) key.2) (c.authority, path)
      simp only [decide_true, Bool.true_and] at evicted
      exact evicted

theorem handleEvents_authority (events : List FsEvent) :
    (handleEvents c events).authority = c.authority := by
  induction events generalizing c with
  | nil => rfl
  | cons event events ih => exact (ih _).trans (handleEvent_authority c event)

theorem handleEvents_dircache (events : List FsEvent) (dir : String) :
    (handleEvents c events).dircache dir =
      if events.any (evictsListing dir) then none else c.dircache dir := by
  induction events generalizing c with
  | nil => rfl
  | cons event events ih =>
      show (handleEvents (handleEvent c event).caches events).dircache dir = _
      rw [ih, handleEvent_dircache, List.any_cons]
      by_cases first : evictsListing dir event = true
      · simp [first]
      · simp [first]

theorem handleEvents_content (events : List FsEvent) (path : String) :
    (handleEvents c events).content.bytes (c.authority, path) =
      if events.any (evictsContent path) then none else c.content.bytes (c.authority, path) := by
  induction events generalizing c with
  | nil => rfl
  | cons event events ih =>
      have later := ih (handleEvent c event).caches
      rw [handleEvent_authority, handleEvent_content] at later
      show (handleEvents (handleEvent c event).caches events).content.bytes _ = _
      rw [later, List.any_cons]
      by_cases first : evictsContent path event = true
      · simp [first]
      · simp [first]

end Handling

/-- The names of P that a client may hold: those it is watched by, and those through its
directory. -/
def aliasesOf (watched : WatchTable) (p : FsPath) : List String :=
  watched.aliases p.render ++
    (p.parent.elim [] fun q => watched.aliases q.render).map
      (fileNameAsDirectory · ++ p.fileName.getD "")

/-- No cache shows P. -/
structure Purged (watched : WatchTable) (p : FsPath) (c : Caches) : Prop where
  parent : ∀ q, p.parent = some q → ∀ dir ∈ watched.aliases q.render, c.dircache dir = none
  listings : ∀ asked ∈ aliasesOf watched p, ∀ dir, Within asked dir → c.dircache dir = none
  contents : ∀ asked ∈ aliasesOf watched p, ∀ path, Within asked path →
    c.content.bytes (c.authority, path) = none

/-- Whatever was cached, the messages for a change of P leave nothing that shows it. -/
def Invalidates (watched : WatchTable) (kind : ChangeKind) (p : FsPath) : Prop :=
  ∀ c, Purged watched p (handleEvents c (pathEvents watched kind p))

section Purging

variable {watched : WatchTable} {kind : ChangeKind} {p q : FsPath}

theorem purged_of_evicts (c : Caches) (events : List FsEvent)
    (parent : ∀ q, p.parent = some q → ∀ dir ∈ watched.aliases q.render,
      ∃ event ∈ events, evictsListing dir event = true)
    (below : ∀ asked ∈ aliasesOf watched p, ∀ path, Within asked path →
      ∃ event ∈ events, evictsListing path event = true ∧ evictsContent path event = true) :
    Purged watched p (handleEvents c events) where
  parent q found dir member := by
    rw [handleEvents_dircache, if_pos (List.any_eq_true.mpr (parent q found dir member))]
  listings asked member dir within := by
    obtain ⟨event, sent, evicts, -⟩ := below asked member dir within
    rw [handleEvents_dircache, if_pos (List.any_eq_true.mpr ⟨event, sent, evicts⟩)]
  contents asked member path within := by
    obtain ⟨event, sent, -, evicts⟩ := below asked member path within
    rw [handleEvents_authority, handleEvents_content,
      if_pos (List.any_eq_true.mpr ⟨event, sent, evicts⟩)]

theorem mem_aliasesOf {asked : String} (member : asked ∈ aliasesOf watched p) :
    asked ∈ watched.aliases p.render ∨ ∃ q, p.parent = some q ∧ ∃ dir ∈ watched.aliases q.render,
      asked = fileNameAsDirectory dir ++ p.fileName.getD "" := by
  rcases List.mem_append.mp member with own | through
  · exact .inl own
  · obtain ⟨dir, listed, rfl⟩ := List.mem_map.mp through
    cases found : p.parent with
    | none => simp [found] at listed
    | some q =>
        rw [found] at listed
        exact .inr ⟨q, rfl, dir, listed, rfl⟩

/-- The directory of a path that is not watched itself is named by each of its names. -/
theorem mem_pathEvents_changed (unwatched : watched p.render = none) (found : p.parent = some q)
    {dir : String} (member : dir ∈ watched.aliases q.render) :
    .changed kind dir (p.fileName.getD "") ∈ pathEvents watched kind p := by
  simp only [pathEvents, unwatched, found]
  apply List.mem_map.mpr
  refine ⟨dir, ?_, rfl⟩
  cases entry : watched q.render with
  | none => simp [WatchTable.aliases, entry] at member
  | some aliases => simpa [WatchTable.aliases, entry] using member

theorem pathEvents_watched {aliases : List String} (entry : watched p.render = some aliases) :
    pathEvents watched kind p = aliases.map .selfChanged := by
  simp only [pathEvents, entry]

/-- The messages for a changed path remove all that shows it exactly when it is not watched
itself, or each name its directory is watched by lies at or below one of its own. -/
theorem invalidates_iff (watched : WatchTable) (kind : ChangeKind) (p : FsPath) :
    Invalidates watched kind p ↔
      watched p.render = none ∨ ∀ q, p.parent = some q → ∀ dir ∈ watched.aliases q.render,
        ∃ asked ∈ watched.aliases p.render, Within asked dir := by
  constructor
  · intro invalidates
    cases entry : watched p.render with
    | none => exact .inl rfl
    | some aliases =>
        right
        intro q found dir member
        apply Classical.byContradiction
        intro apart
        -- A listing of the directory that no message names survives.
        have gone := (invalidates { authority := "", dircache := fun _ => some [] }).parent
          q found dir member
        rw [handleEvents_dircache, pathEvents_watched entry] at gone
        split at gone
        · rename_i evicted
          obtain ⟨event, sent, evicts⟩ := List.any_eq_true.mp evicted
          obtain ⟨asked, own, rfl⟩ := List.mem_map.mp sent
          apply apart
          refine ⟨asked, ?_, (nested_iff asked dir).mp evicts⟩
          simpa [WatchTable.aliases, entry] using own
        · cases gone
  · intro condition c
    cases entry : watched p.render with
    | none =>
        apply purged_of_evicts
        · intro q found dir member
          refine ⟨_, mem_pathEvents_changed entry found member, ?_⟩
          simp [evictsListing]
        · intro asked member path within
          rcases mem_aliasesOf member with own | ⟨q, found, dir, listed, rfl⟩
          · simp [WatchTable.aliases, entry] at own
          · have below := (nested_iff _ _).mpr within
            refine ⟨_, mem_pathEvents_changed entry found listed, ?_, below⟩
            simp [evictsListing, below]
    | some aliases =>
        have covered := condition.resolve_left (by simp [entry])
        have sent : ∀ asked ∈ watched.aliases p.render,
            .selfChanged asked ∈ pathEvents watched kind p := by
          intro asked own
          rw [pathEvents_watched entry]
          apply List.mem_map.mpr
          refine ⟨asked, ?_, rfl⟩
          simpa [WatchTable.aliases, entry] using own
        apply purged_of_evicts
        · intro q found dir member
          obtain ⟨asked, own, within⟩ := covered q found dir member
          exact ⟨_, sent asked own, (nested_iff asked dir).mpr within⟩
        · intro asked member path within
          rcases mem_aliasesOf member with own | ⟨q, found, dir, listed, rfl⟩
          · have below := (nested_iff asked path).mpr within
            exact ⟨_, sent asked own, below, below⟩
          · obtain ⟨above, own, outer⟩ := covered q found dir listed
            have below := (nested_iff above path).mpr ((outer.below _).trans within)
            exact ⟨_, sent above own, below, below⟩

end Purging

/-- A directory and one of its subdirectories are both watched. -/
def watchedTogether : WatchTable := fun canon =>
  if canon = "/root" then some ["/root"] else if canon = "/root/a" then some ["/root/a"] else none

/-- The subdirectory is removed: its directory's listing is left in the cache. -/
theorem removed_watched_child_listed : ¬ ∀ watched kind p, Invalidates watched kind p := by
  intro always
  have purged := always watchedTogether .removed ⟨["root", "a"]⟩
    { authority := "local", dircache := fun dir => if dir = "/root" then some ["a"] else none }
  have gone := purged.parent ⟨["root"]⟩ rfl "/root" (by decide)
  exact absurd gone (by decide)

end EmacsRelay.RelayPrefetch

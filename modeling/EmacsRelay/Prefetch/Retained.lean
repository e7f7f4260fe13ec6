import EmacsRelay.Prefetch.Recency

set_option autoImplicit false

/- What a put evicts from the content cache of `lisp/relay-content-prefetch.el` to keep its
limits, and when the entry it inserts is among it. -/
namespace EmacsRelay.RelayPrefetch.ContentCache

/-- The key lies directly in the directory. -/
def directly (authority localdir : String) (key : Key) : Bool :=
  key.1 = authority && relayDirname key.2 = localdir

/-- The key counts for the directory in `relay--content-cache-dir-count`. -/
def countsFor (authority localdir : String) (key : Key) : Bool :=
  key.1 = authority && stringPrefixP (fileNameAsDirectory localdir) key.2

/-- The cached files that the directory is charged for and that lie in it more deeply. -/
def nestedCount (cache : ContentCache) (authority localdir : String) : Nat :=
  cache.order.countP fun key =>
    countsFor authority localdir key && !directly authority localdir key

/-- What a key adds to the count of its own directory. -/
def ownCount (key : Key) : Nat :=
  if countsFor key.1 (relayDirname key.2) key then 1 else 0

/-- In an order of use the first key was used after the second. -/
def UsedAfter (order : List Key) (recent old : Key) : Prop :=
  [recent, old].Sublist order

/-- What is missing was evicted for the limit of this directory: it lies there directly, and what
is left of the directory was used after it. -/
def LeastRecent (authority localdir : String) (inserted trimmed : ContentCache) : Prop :=
  ∀ gone ∈ inserted.order, gone ∉ trimmed.order → directly authority localdir gone = true ∧
    ∀ kept ∈ trimmed.order, directly authority localdir kept = true →
      UsedAfter inserted.order kept gone

/-- A put keeps what it inserts, and evicts for its directory what was used least recently. -/
def Retained (caps : Caps) (cache : ContentCache) (key : Key) (bytes : String)
    (revision : Option String) : Prop :=
  ((cache.put caps key bytes revision).getEntry key).1 = some ⟨bytes, revision⟩ ∧
    LeastRecent key.1 (relayDirname key.2) (cache.insert key bytes revision)
      ((cache.insert key bytes revision).trimDirectory caps.perDirLimit key.1
        (relayDirname key.2))

section Eviction

variable {caps : Caps} {cache after : ContentCache} {key : Key} {bytes : String}
  {revision : Option String} {authority localdir : String} {limit : Nat}

theorem getEntry_fst (cache : ContentCache) (key : Key) :
    (cache.getEntry key).1 = (cache.bytes key).map fun bytes => ⟨bytes, cache.revisions key⟩ := by
  simp only [getEntry, get, touch_revisions]

/-- The victim of the first loop lies in the directory, and nothing else there is older. -/
theorem last_directly {order : List Key} {victim : Key}
    (found : order.reverse.find? (directly authority localdir) = some victim) :
    directly authority localdir victim = true ∧ ∃ newer older, order = newer ++ victim :: older ∧
      ∀ other ∈ older, directly authority localdir other = false := by
  obtain ⟨direct, older, newer, split, none_there⟩ := List.find?_eq_some_iff_append.mp found
  refine ⟨direct, newer.reverse, older.reverse, ?_, ?_⟩
  · rw [← List.reverse_reverse order, split]
    simp
  · intro other known
    simpa using none_there other (List.mem_reverse.mp known)

theorem usedAfter_victim {order : List Key} {victim kept : Key}
    (found : order.reverse.find? (directly authority localdir) = some victim)
    (known : kept ∈ order) (other : kept ≠ victim)
    (direct : directly authority localdir kept = true) : UsedAfter order kept victim := by
  obtain ⟨-, newer, older, rfl, none_there⟩ := last_directly found
  have first : kept ∈ newer := by
    rcases List.mem_append.mp known with before | rest
    · exact before
    · rcases List.mem_cons.mp rest with same | later
      · exact absurd same other
      · rw [none_there kept later] at direct
        cases direct
  have one : [kept].Sublist newer := List.singleton_sublist.mpr first
  have two : [victim].Sublist (victim :: older) := List.singleton_sublist.mpr List.mem_cons_self
  exact one.append two

theorem leastRecent_refl (cache : ContentCache) : LeastRecent authority localdir cache cache :=
  fun _ known gone => absurd known gone

/-- One more eviction for the directory. -/
theorem LeastRecent.evict {inserted : ContentCache} {victim : Key}
    (least : LeastRecent authority localdir inserted cache)
    (within : cache.order.Sublist inserted.order)
    (found : cache.order.reverse.find? (directly authority localdir) = some victim) :
    LeastRecent authority localdir inserted (cache.evict victim) := by
  intro gone known missing
  have fewer : ∀ kept ∈ (cache.evict victim).order, kept ∈ cache.order ∧ kept ≠ victim := by
    intro kept left
    simpa using List.mem_filter.mp left
  by_cases same : gone = victim
  · subst same
    refine ⟨(last_directly found).1, ?_⟩
    intro kept left direct
    obtain ⟨here, other⟩ := fewer kept left
    exact (usedAfter_victim found here other direct).trans within
  · have absent : gone ∉ cache.order := by
      intro present
      exact missing (List.mem_filter.mpr ⟨present, by simpa using same⟩)
    obtain ⟨direct, newer⟩ := least gone known absent
    exact ⟨direct, fun kept left => newer kept (fewer kept left).1⟩

theorem leastRecent_trimDirectory (limit : Nat) (cache : ContentCache) :
    LeastRecent authority localdir cache (cache.trimDirectory limit authority localdir) := by
  have both : LeastRecent authority localdir cache (cache.trimDirectory limit authority localdir) ∧
      (cache.trimDirectory limit authority localdir).order.Sublist cache.order := by
    apply (trimDirectory_ends limit authority localdir cache).invariant
      (fun s => LeastRecent authority localdir cache s ∧ s.order.Sublist cache.order)
    · exact ⟨leastRecent_refl cache, List.Sublist.refl _⟩
    · rintro s t ⟨least, within⟩ taken
      obtain ⟨-, victim, rfl, found⟩ := directoryTurn_some taken
      exact ⟨least.evict within found, (evict_sublist s victim).trans within⟩
  exact both.1

/-- Files that lie more deeply are never victims. -/
theorem nestedCount_evict {victim : Key} (direct : directly authority localdir victim = true) :
    (cache.evict victim).nestedCount authority localdir =
      cache.nestedCount authority localdir := by
  unfold nestedCount ContentCache.evict
  rw [List.countP_filter]
  apply List.countP_congr
  intro other _
  by_cases same : other = victim
  · simp [same, direct]
  · simp [same]

theorem nestedCount_trimDirectory (limit : Nat) (cache : ContentCache) :
    (cache.trimDirectory limit authority localdir).nestedCount authority localdir =
      cache.nestedCount authority localdir := by
  apply (trimDirectory_ends limit authority localdir cache).invariant
    (fun s => s.nestedCount authority localdir = cache.nestedCount authority localdir)
  · rfl
  · intro s t same taken
    obtain ⟨-, victim, rfl, found⟩ := directoryTurn_some taken
    rw [nestedCount_evict (last_directly found).1, same]

theorem directly_self (key : Key) : directly key.1 (relayDirname key.2) key = true := by
  simp [directly]

theorem nestedCount_insert (cache : ContentCache) (key : Key) (bytes : String)
    (revision : Option String) :
    (cache.insert key bytes revision).nestedCount key.1 (relayDirname key.2) =
      cache.nestedCount key.1 (relayDirname key.2) := by
  unfold nestedCount ContentCache.insert
  rw [List.countP_cons_of_neg (by simp [directly_self]), List.countP_filter]
  apply List.countP_congr
  intro other _
  by_cases same : other = key
  · simp [same, directly_self]
  · simp [same]

theorem dirCount_split (cache : ContentCache) (authority localdir : String) :
    cache.dirCount authority localdir = cache.nestedCount authority localdir +
      cache.order.countP fun key =>
        countsFor authority localdir key && directly authority localdir key := by
  have apart := List.countP_eq_countP_filter_add cache.order (countsFor authority localdir)
    (fun key => !directly authority localdir key)
  have counted : cache.dirCount authority localdir =
      cache.order.countP (countsFor authority localdir) := rfl
  rw [counted, apart, List.countP_filter, List.countP_filter, nestedCount]
  congr 1
  apply List.countP_congr
  intro other _
  simp

/-- As long as its key is cached, a directory is charged for it and for the deeper files. -/
theorem charged_le (known : key ∈ cache.order) :
    cache.nestedCount key.1 (relayDirname key.2) + ownCount key ≤
      cache.dirCount key.1 (relayDirname key.2) := by
  rw [dirCount_split]
  apply Nat.add_le_add_left
  unfold ownCount
  split
  · rename_i counts
    apply List.countP_pos_iff.mpr
    exact ⟨key, known, by simp [counts, directly_self]⟩
  · exact Nat.zero_le _

/-- Where the newest entry is the only one left in its directory, it is charged for no others. -/
theorem charged_eq {rest : List Key} (order : cache.order = key :: rest)
    (alone : ∀ other ∈ rest, directly key.1 (relayDirname key.2) other = false) :
    cache.dirCount key.1 (relayDirname key.2) =
      cache.nestedCount key.1 (relayDirname key.2) + ownCount key := by
  rw [dirCount_split, order]
  congr 1
  have none_there : rest.countP (fun other => countsFor key.1 (relayDirname key.2) other &&
      directly key.1 (relayDirname key.2) other) = 0 := by
    apply List.countP_eq_zero.mpr
    intro other known
    simp [alone other known]
  unfold ownCount
  by_cases counts : countsFor key.1 (relayDirname key.2) key = true
  · rw [List.countP_cons_of_pos (by simp [counts, directly_self]), none_there, if_pos counts]
  · rw [List.countP_cons_of_neg (by simp [counts]), none_there, if_neg counts]

/-- An eviction of another key leaves the newest one in front. -/
theorem evict_front {victim : Key} {rest : List Key} (order : cache.order = key :: rest)
    (other : key ≠ victim) : ∃ rest, (cache.evict victim).order = key :: rest := by
  refine ⟨rest.filter (· ≠ victim), ?_⟩
  unfold ContentCache.evict
  simp [order, other]

/-- The newest entry is no victim as long as there is room for the deeper files and for it. -/
theorem newest_spared {victim : Key} {rest : List Key} (once : cache.order.Nodup)
    (order : cache.order = key :: rest)
    (room : cache.nestedCount key.1 (relayDirname key.2) + ownCount key ≤ limit)
    (exceeds : limit < cache.dirCount key.1 (relayDirname key.2))
    (found : cache.order.reverse.find? (directly key.1 (relayDirname key.2)) = some victim) :
    key ≠ victim := by
  intro same
  subst same
  obtain ⟨-, newer, older, split, none_older⟩ := last_directly found
  have front : newer = [] := by
    cases newer with
    | nil => rfl
    | cons first newer =>
        have head : first = key := (List.cons.inj (split.symm.trans order)).1
        rw [split, head, List.cons_append] at once
        exact absurd (List.mem_append_right newer List.mem_cons_self) (List.nodup_cons.mp once).1
  rw [front, List.nil_append] at split
  have charged := charged_eq split none_older
  omega

/-- With that room the newest entry survives the first loop. -/
theorem front_trimDirectory {rest : List Key} (once : cache.order.Nodup)
    (order : cache.order = key :: rest)
    (room : cache.nestedCount key.1 (relayDirname key.2) + ownCount key ≤ limit) :
    ∃ rest, (cache.trimDirectory limit key.1 (relayDirname key.2)).order = key :: rest := by
  have kept := (trimDirectory_ends limit key.1 (relayDirname key.2) cache).invariant
    (fun s => s.order.Nodup ∧ (∃ rest, s.order = key :: rest) ∧
      s.nestedCount key.1 (relayDirname key.2) + ownCount key ≤ limit) ⟨once, ⟨rest, order⟩, room⟩
  refine (kept ?_).2.1
  rintro s t ⟨once, ⟨rest, order⟩, room⟩ taken
  obtain ⟨exceeds, victim, rfl, found⟩ := directoryTurn_some taken
  rw [nestedCount_evict (last_directly found).1]
  exact ⟨once.filter _, evict_front order (newest_spared once order room exceeds found), room⟩

/-- Without it the first loop evicts the newest entry too. -/
theorem gone_trimDirectory
    (tight : limit < cache.nestedCount key.1 (relayDirname key.2) + ownCount key) :
    key ∉ (cache.trimDirectory limit key.1 (relayDirname key.2)).order := by
  intro known
  have stopped := (trimDirectory_ends limit key.1 (relayDirname key.2) cache).stopped
  have charged := charged_le known
  rw [nestedCount_trimDirectory] at charged
  unfold directoryTurn at stopped
  rw [if_pos (by omega), Option.map_eq_none_iff, List.find?_eq_none] at stopped
  exact stopped key (List.mem_reverse.mpr known) (directly_self key)

/-- The newest entry survives the second loop. -/
theorem front_trimTotal {rest : List Key} (once : cache.order.Nodup)
    (order : cache.order = key :: rest) (some_room : 1 ≤ limit) :
    ∃ rest, (cache.trimTotal limit).order = key :: rest := by
  have kept := (trimTotal_ends limit cache).invariant
    (fun s => s.order.Nodup ∧ ∃ rest, s.order = key :: rest) ⟨once, rest, order⟩
  refine (kept ?_).2
  rintro s t ⟨once, rest, order⟩ taken
  obtain ⟨exceeds, victim, rfl, found⟩ := totalTurn_some taken
  refine ⟨once.filter _, evict_front order ?_⟩
  intro same
  subst same
  cases rest with
  | nil =>
      rw [order, List.length_singleton] at exceeds
      omega
  | cons second rest =>
      rw [order] at found once
      rw [List.getLast?_cons_cons] at found
      exact (List.nodup_cons.mp once).1 (List.mem_of_getLast? found)

/-- No loop brings a key back. -/
theorem order_trimTotal (limit : Nat) (cache : ContentCache) :
    (cache.trimTotal limit).order.Sublist cache.order := by
  apply (trimTotal_ends limit cache).invariant (fun s => s.order.Sublist cache.order)
  · exact List.Sublist.refl _
  · intro s t within taken
    obtain ⟨-, victim, rfl, -⟩ := totalTurn_some taken
    exact (evict_sublist s victim).trans within

theorem getEntry_put_iff (inStep : cache.InStep) (key : Key) (bytes : String)
    (revision : Option String) :
    ((cache.put caps key bytes revision).getEntry key).1 = some ⟨bytes, revision⟩ ↔
      key ∈ (cache.put caps key bytes revision).order := by
  have after : (cache.put caps key bytes revision).InStep :=
    put_invariant (inStep.insert key bytes revision) fun _ other holds => holds.evict other
  rw [getEntry_fst, after.table]
  rcases retains_put cache caps key bytes revision key with gone | ⟨same, token⟩
  · simp [gone]
  · rw [same, token]
    simp [ContentCache.insert]

theorem mem_put_iff (inStep : cache.InStep) (some_room : 1 ≤ caps.lruSize) (key : Key)
    (bytes : String) (revision : Option String) :
    key ∈ (cache.put caps key bytes revision).order ↔
      cache.nestedCount key.1 (relayDirname key.2) + ownCount key ≤ caps.perDirLimit := by
  have inserted := inStep.insert key bytes revision
  constructor
  · intro known
    by_contra tight
    rw [← nestedCount_insert cache key bytes revision] at tight
    exact gone_trimDirectory (by omega) ((order_trimTotal _ _).subset known)
  · intro room
    rw [← nestedCount_insert cache key bytes revision] at room
    obtain ⟨rest, front⟩ := front_trimDirectory inserted.once rfl room
    have once : ((cache.insert key bytes revision).trimDirectory caps.perDirLimit key.1
        (relayDirname key.2)).order.Nodup := by
      apply (trimDirectory_ends _ _ _ _).invariant (fun s => s.order.Nodup) inserted.once
      intro s t once taken
      obtain ⟨-, victim, rfl, -⟩ := directoryTurn_some taken
      exact once.filter _
    obtain ⟨rest, front⟩ := front_trimTotal once front some_room
    unfold put
    rw [front]
    exact List.mem_cons_self

end Eviction

/-- A put keeps what it inserts if and only if the files that lie more deeply in its directory
leave room for it below the limit of the directory. -/
theorem retained_iff (caps : Caps) (operations : List Operation) (key : Key) (bytes : String)
    (revision : Option String) (some_room : 1 ≤ caps.lruSize) :
    Retained caps (run caps operations) key bytes revision ↔
      (run caps operations).nestedCount key.1 (relayDirname key.2) + ownCount key ≤
        caps.perDirLimit := by
  have inStep := (sound_run caps operations).toInStep
  rw [← mem_put_iff inStep some_room key bytes revision,
    ← getEntry_put_iff inStep key bytes revision]
  exact and_iff_left (leastRecent_trimDirectory _ _)

theorem retained_iff_beside :
    Retained ⟨1, 50⟩ (run ⟨1, 50⟩ [.put ("h", "/a/b/f") "one" (some "r")]) ("h", "/c/f") "two"
      (some "s") := by
  have cached : run ⟨1, 50⟩ [.put ("h", "/a/b/f") "one" (some "r")] =
      empty.insert ("h", "/a/b/f") "one" (some "r") :=
    put_of_room (by decide) (by decide)
  apply (retained_iff ⟨1, 50⟩ _ ("h", "/c/f") "two" (some "s") (by decide)).mpr
  rw [cached]
  decide

/-- A file of a directory inside takes the place of the file that is put in the directory. -/
theorem fresh_entry_evicted :
    ¬ Retained ⟨1, 50⟩ (run ⟨1, 50⟩ [.put ("h", "/a/b/f") "one" (some "r")]) ("h", "/a/f") "two"
      (some "s") := by
  have cached : run ⟨1, 50⟩ [.put ("h", "/a/b/f") "one" (some "r")] =
      empty.insert ("h", "/a/b/f") "one" (some "r") :=
    put_of_room (by decide) (by decide)
  have nested : (empty.insert ("h", "/a/b/f") "one" (some "r")).nestedCount "h"
      (relayDirname "/a/f") + ownCount ("h", "/a/f") = 2 := by decide
  intro retained
  have inStep := (sound_run ⟨1, 50⟩ [.put ("h", "/a/b/f") "one" (some "r")]).toInStep
  have known := (getEntry_put_iff inStep ("h", "/a/f") "two" (some "s")).mp retained.1
  have room := (mem_put_iff inStep (by decide) _ _ _).mp known
  rw [cached, nested] at room
  exact absurd room (by decide)

end EmacsRelay.RelayPrefetch.ContentCache

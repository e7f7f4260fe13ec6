import EmacsRelay.Lib.Loop
import EmacsRelay.Prefetch.Content

set_option autoImplicit false

/- The content cache of `lisp/relay-content-prefetch.el` over all its operations: the table, the
revisions and the order of use agree, and both limits are kept. -/
namespace EmacsRelay.RelayPrefetch

/-- The directory that a file lies in directly. A name without a slash has none. -/
def parentDirectory (loc : String) : Option String :=
  (fileNameDirectory (directoryFileName loc)).map directoryFileName

section Parents

theorem relayDirname_eq (loc : String) : relayDirname loc = (parentDirectory loc).getD "/" := by
  unfold relayDirname parentDirectory
  cases fileNameDirectory (directoryFileName loc) with
  | none => rfl
  | some dir => rfl

theorem relayDirname_of_parent {loc dir : String} (parent : parentDirectory loc = some dir) :
    relayDirname loc = dir := by
  rw [relayDirname_eq, parent]
  rfl

/-- The characters of a name are those that a test drops from its end, after all the others. -/
theorem toList_dropWhile (file : String) (test : Char → Bool) :
    file.toList = (file.toList.reverse.dropWhile test).reverse ++
      (file.toList.reverse.takeWhile test).reverse := by
  rw [← List.reverse_append, List.takeWhile_append_dropWhile, List.reverse_reverse]

theorem directoryFileName_start (file : String) :
    ∃ rest, file = directoryFileName file ++ rest := by
  unfold directoryFileName
  by_cases double : file = "//"
  · exact ⟨"", by simp [double]⟩
  · rw [if_neg double]
    have parts := toList_dropWhile file (· = '/')
    cases stripped : file.toList.reverse.dropWhile (· = '/') with
    | nil =>
        by_cases empty : file = ""
        · exact ⟨"", by simp [empty]⟩
        · rw [stripped] at parts
          simp only [empty, if_false]
          cases slashes : (file.toList.reverse.takeWhile (· = '/')).reverse with
          | nil =>
              rw [slashes] at parts
              exact absurd (String.toList_inj.mp parts) empty
          | cons first more =>
              have isSlash : first = '/' := by
                have member : first ∈ file.toList.reverse.takeWhile (· = '/') := by
                  rw [← List.mem_reverse, slashes]
                  exact List.mem_cons_self
                simpa using List.mem_takeWhile_imp member
              refine ⟨String.ofList more, String.toList_inj.mp ?_⟩
              rw [parts, slashes, isSlash, String.toList_append, String.toList_ofList]
              simp
    | cons last chars =>
        rw [stripped] at parts
        refine ⟨String.ofList (file.toList.reverse.takeWhile (· = '/')).reverse,
          String.toList_inj.mp ?_⟩
        rw [String.toList_append, String.toList_ofList, String.toList_ofList]
        exact parts

theorem fileNameDirectory_some {file dir : String} (named : fileNameDirectory file = some dir) :
    (∃ rest, file = dir ++ rest) ∧ ∃ start, dir.toList = start ++ ['/'] := by
  unfold fileNameDirectory at named
  have parts := toList_dropWhile file (· ≠ '/')
  cases dropped : file.toList.reverse.dropWhile (· ≠ '/') with
  | nil => rw [dropped] at named; cases named
  | cons last chars =>
      rw [dropped] at named parts
      cases named
      constructor
      · refine ⟨String.ofList (file.toList.reverse.takeWhile (· ≠ '/')).reverse,
          String.toList_inj.mp ?_⟩
        rw [String.toList_append, String.toList_ofList, String.toList_ofList]
        exact parts
      · have nonempty : file.toList.reverse.dropWhile (· ≠ '/') ≠ [] := by
          rw [dropped]
          exact List.cons_ne_nil last chars
        have slash := List.head_dropWhile_not (fun c => decide (c ≠ '/')) nonempty
        simp only [dropped, List.head_cons, decide_eq_false_iff_not, ne_eq, not_not] at slash
        refine ⟨chars.reverse, ?_⟩
        rw [String.toList_ofList, List.reverse_cons, slash]

/-- The name of a directory, stripped and given its slash again, starts that name. -/
theorem fileNameAsDirectory_start {dir : String} (ends : ∃ start, dir.toList = start ++ ['/']) :
    ∃ rest, dir = fileNameAsDirectory (directoryFileName dir) ++ rest := by
  obtain ⟨start, slashed⟩ := ends
  unfold directoryFileName
  by_cases double : dir = "//"
  · exact ⟨"", by rw [if_pos double, double]; decide⟩
  · rw [if_neg double]
    have parts := toList_dropWhile dir (· = '/')
    cases stripped : dir.toList.reverse.dropWhile (· = '/') with
    | nil =>
        have full : dir ≠ "" := by
          intro empty
          rw [empty] at slashed
          simp at slashed
        obtain ⟨rest, same⟩ := directoryFileName_start dir
        refine ⟨rest, ?_⟩
        have root : directoryFileName dir = "/" := by
          simp [directoryFileName, double, stripped, full]
        simp only [full, if_false]
        rw [root] at same
        rw [same]
        simp [fileNameAsDirectory]
    | cons last chars =>
        have nonempty : dir.toList.reverse.dropWhile (· = '/') ≠ [] := by simp [stripped]
        have other := List.head_dropWhile_not (fun c => decide (c = '/')) nonempty
        simp only [stripped, List.head_cons, decide_eq_false_iff_not] at other
        rw [stripped] at parts
        have trailing : (dir.toList.reverse.takeWhile (· = '/')).reverse ≠ [] := by
          intro none_left
          rw [none_left, List.append_nil, slashed] at parts
          simp only [List.reverse_cons] at parts
          exact other (List.append_inj_right' parts rfl |> List.cons.inj |>.1).symm
        cases slashes : (dir.toList.reverse.takeWhile (· = '/')).reverse with
        | nil => exact absurd slashes trailing
        | cons first more =>
            have isSlash : first = '/' := by
              have member : first ∈ dir.toList.reverse.takeWhile (· = '/') := by
                rw [← List.mem_reverse, slashes]
                exact List.mem_cons_self
              simpa using List.mem_takeWhile_imp member
            have named : fileNameAsDirectory (String.ofList (last :: chars).reverse) =
                String.ofList (last :: chars).reverse ++ "/" := by
              simp [fileNameAsDirectory, other]
            refine ⟨String.ofList more, String.toList_inj.mp ?_⟩
            simp only
            rw [named, parts, slashes, isSlash]
            simp
end Parents

/-- The prefix that the cache counts by is one of the names of all files of the directory. -/
theorem stringPrefixP_of_parent {loc dir : String} (parent : parentDirectory loc = some dir) :
    stringPrefixP (fileNameAsDirectory dir) loc = true := by
  obtain ⟨named, found, rfl⟩ := Option.map_eq_some_iff.mp parent
  obtain ⟨⟨inner, within⟩, slashed⟩ := fileNameDirectory_some found
  obtain ⟨rest, same⟩ := fileNameAsDirectory_start slashed
  obtain ⟨outer, whole⟩ := directoryFileName_start loc
  apply (stringPrefixP_iff _ _).mpr
  refine ⟨rest ++ inner ++ outer, ?_⟩
  calc loc = directoryFileName loc ++ outer := whole
    _ = named ++ inner ++ outer := by rw [← within]
    _ = fileNameAsDirectory (directoryFileName named) ++ (rest ++ inner ++ outer) := by
      rw [← String.append_assoc, ← String.append_assoc, ← same]

namespace ContentCache

/-- What `relay--content-cache-get-entry` returns. -/
structure CachedEntry where
  bytes : String
  revision : Option String
deriving DecidableEq, Repr

/-- `relay--content-cache-get`. -/
def get (cache : ContentCache) (key : Key) : Option String × ContentCache :=
  (cache.bytes key, cache.touch key)

/-- `relay--content-cache-get-entry`. -/
def getEntry (cache : ContentCache) (key : Key) : Option CachedEntry × ContentCache :=
  let (bytes, cache) := cache.get key
  (bytes.map fun bytes => ⟨bytes, cache.revisions key⟩, cache)

/-- `relay--content-cache-evict-prefix`. -/
def evictPrefix (cache : ContentCache) (authority localdir : String) : ContentCache :=
  (cache.order.filter fun key =>
    key.1 = authority && Caches.nested localdir key.2).foldl evict cache

/-- `relay--content-cache-evict-authority`. -/
def evictAuthority (cache : ContentCache) (authority : String) : ContentCache :=
  (cache.order.filter (·.1 = authority)).foldl evict cache

inductive Operation where
  | put (key : Key) (bytes : String) (revision : Option String)
  | get (key : Key)
  | getEntry (key : Key)
  | evict (key : Key)
  | evictPrefix (authority localdir : String)
  | evictAuthority (authority : String)
deriving DecidableEq, Repr

def step (caps : Caps) (cache : ContentCache) : Operation → ContentCache
  | .put key bytes revision => cache.put caps key bytes revision
  | .get key => (cache.get key).2
  | .getEntry key => (cache.getEntry key).2
  | .evict key => cache.evict key
  | .evictPrefix authority localdir => cache.evictPrefix authority localdir
  | .evictAuthority authority => cache.evictAuthority authority

def run (caps : Caps) (operations : List Operation) : ContentCache :=
  operations.foldl (step caps) .empty

/-- Bytes and revision of the last put of a key. -/
def lastPut (operations : List Operation) (key : Key) : Option (String × Option String) :=
  operations.reverse.findSome? fun
    | .put other bytes revision => if other = key then some (bytes, revision) else none
    | _ => none

/-- A turn of the first loop of `relay--content-cache-put`. -/
def directoryTurn (limit : Nat) (authority localdir : String) (cache : ContentCache) :
    Option ContentCache :=
  if limit < cache.dirCount authority localdir then
    (cache.order.reverse.find? fun key =>
      key.1 = authority && relayDirname key.2 = localdir).map cache.evict
  else none

/-- A turn of its second loop. -/
def totalTurn (limit : Nat) (cache : ContentCache) : Option ContentCache :=
  if limit < cache.order.length then cache.order.getLast?.map cache.evict else none

/-- The loops of a put end, one after the other, in this cache. -/
def PutEnds (caps : Caps) (cache : ContentCache) (key : Key) (bytes : String)
    (revision : Option String) (result : ContentCache) : Prop :=
  ∃ trimmed,
    Loop.Ends (directoryTurn caps.perDirLimit key.1 (relayDirname key.2))
      (cache.insert key bytes revision) trimmed ∧
    Loop.Ends (totalTurn caps.lruSize) trimmed result

/-- How many files of a directory are cached that lie in it directly. -/
def directCount (cache : ContentCache) (authority dir : String) : Nat :=
  cache.order.countP fun key => key.1 = authority && parentDirectory key.2 = some dir

/-- The table, the revisions and the order of use have the same entries. -/
structure InStep (cache : ContentCache) : Prop where
  once : cache.order.Nodup
  table : ∀ key, key ∈ cache.order ↔ cache.bytes key ≠ none
  revised : ∀ key, cache.revisions key ≠ none → cache.bytes key ≠ none

/-- The representation invariant. -/
structure Sound (caps : Caps) (cache : ContentCache) : Prop extends InStep cache where
  total : cache.order.length ≤ caps.lruSize
  direct : ∀ authority dir, cache.directCount authority dir ≤ caps.perDirLimit

section Steps

variable {caps : Caps} {cache middle after : ContentCache} {key other : Key} {bytes : String}
  {revision : Option String}

theorem trimDirectory_ends (limit : Nat) (authority localdir : String) (cache : ContentCache) :
    Loop.Ends (directoryTurn limit authority localdir) cache
      (cache.trimDirectory limit authority localdir) := by
  fun_induction trimDirectory with
  | case1 cache exceeds victim found ih =>
      apply Loop.Ends.next _ ih
      rw [directoryTurn, if_pos exceeds, found]
      rfl
  | case2 cache exceeds absent =>
      apply Loop.Ends.stop
      rw [directoryTurn, if_pos exceeds, absent]
      rfl
  | case3 cache within => exact .stop (if_neg within)

theorem trimTotal_ends (limit : Nat) (cache : ContentCache) :
    Loop.Ends (totalTurn limit) cache (cache.trimTotal limit) := by
  fun_induction trimTotal with
  | case1 cache exceeds victim found ih =>
      apply Loop.Ends.next _ ih
      rw [totalTurn, if_pos exceeds, found]
      rfl
  | case2 cache exceeds absent =>
      apply Loop.Ends.stop
      rw [totalTurn, if_pos exceeds, absent]
      rfl
  | case3 cache within => exact .stop (if_neg within)

theorem put_ends (caps : Caps) (cache : ContentCache) (key : Key) (bytes : String)
    (revision : Option String) :
    PutEnds caps cache key bytes revision (cache.put caps key bytes revision) :=
  ⟨_, trimDirectory_ends _ _ _ _, trimTotal_ends _ _⟩

theorem directoryTurn_some {limit : Nat} {authority localdir : String}
    (taken : directoryTurn limit authority localdir cache = some after) :
    limit < cache.dirCount authority localdir ∧ ∃ victim, after = cache.evict victim ∧
      cache.order.reverse.find? (fun key =>
        key.1 = authority && relayDirname key.2 = localdir) = some victim := by
  unfold directoryTurn at taken
  split at taken
  · rename_i exceeds
    obtain ⟨victim, found, same⟩ := Option.map_eq_some_iff.mp taken
    exact ⟨exceeds, victim, same.symm, found⟩
  · cases taken

theorem totalTurn_some {limit : Nat} (taken : totalTurn limit cache = some after) :
    limit < cache.order.length ∧ ∃ victim, after = cache.evict victim ∧
      cache.order.getLast? = some victim := by
  unfold totalTurn at taken
  split at taken
  · rename_i exceeds
    obtain ⟨victim, found, same⟩ := Option.map_eq_some_iff.mp taken
    exact ⟨exceeds, victim, same.symm, found⟩
  · cases taken

/-- What survives an eviction survives the loops of a put. -/
theorem put_invariant {inv : ContentCache → Prop} (inserted : inv (cache.insert key bytes revision))
    (evicted : ∀ cache key, inv cache → inv (cache.evict key)) :
    inv (cache.put caps key bytes revision) := by
  obtain ⟨trimmed, directory, total⟩ := put_ends caps cache key bytes revision
  have first : inv trimmed := by
    apply directory.invariant inv inserted
    intro s t holds taken
    obtain ⟨-, victim, rfl, -⟩ := directoryTurn_some taken
    exact evicted s victim holds
  apply total.invariant inv first
  intro s t holds taken
  obtain ⟨-, victim, rfl, -⟩ := totalTurn_some taken
  exact evicted s victim holds

theorem foldl_evict_invariant {inv : ContentCache → Prop} (keys : List Key) (holds : inv cache)
    (evicted : ∀ cache key, inv cache → inv (cache.evict key)) : inv (keys.foldl evict cache) := by
  induction keys generalizing cache with
  | nil => exact holds
  | cons key keys ih => exact ih (evicted cache key holds)

/-- An invariant that evictions keep is kept by all operations that insert nothing. -/
theorem step_invariant {inv : ContentCache → Prop} (operation : Operation) (holds : inv cache)
    (put : ∀ key bytes revision, inv (cache.put caps key bytes revision))
    (touched : ∀ key, inv (cache.touch key))
    (evicted : ∀ cache key, inv cache → inv (cache.evict key)) :
    inv (cache.step caps operation) := by
  cases operation with
  | put key bytes revision => exact put key bytes revision
  | get key => exact touched key
  | getEntry key => exact touched key
  | evict key => exact evicted cache key holds
  | evictPrefix authority localdir => exact foldl_evict_invariant _ holds evicted
  | evictAuthority authority => exact foldl_evict_invariant _ holds evicted

theorem InStep.evict (inStep : cache.InStep) (key : Key) : (cache.evict key).InStep where
  once := inStep.once.filter _
  table other := by
    by_cases same : other = key
    · simp [ContentCache.evict, same]
    · simpa [ContentCache.evict, same] using inStep.table other
  revised other := by
    by_cases same : other = key
    · simp [ContentCache.evict, same]
    · simpa [ContentCache.evict, same] using inStep.revised other

theorem nodup_renewed (once : cache.order.Nodup) (key : Key) :
    (key :: cache.order.filter (· ≠ key)).Nodup :=
  List.nodup_cons.mpr ⟨by simp, once.filter _⟩

theorem mem_renewed (key other : Key) :
    other ∈ key :: cache.order.filter (· ≠ key) ↔ other = key ∨ other ∈ cache.order := by
  by_cases same : other = key
  · simp [same]
  · simp [same]

theorem InStep.insert (inStep : cache.InStep) (key : Key) (bytes : String)
    (revision : Option String) : (cache.insert key bytes revision).InStep where
  once := nodup_renewed inStep.once key
  table other := by
    apply (mem_renewed key other).trans
    by_cases same : other = key
    · simp [ContentCache.insert, same]
    · simpa [ContentCache.insert, same] using inStep.table other
  revised other := by
    by_cases same : other = key
    · simp [ContentCache.insert, same]
    · simpa [ContentCache.insert, same] using inStep.revised other

theorem touch_order (present : cache.bytes key ≠ none) :
    (cache.touch key).order = key :: cache.order.filter (· ≠ key) := by
  unfold touch
  rw [if_pos (Option.isSome_iff_ne_none.mpr present)]

theorem touch_absent (absent : cache.bytes key = none) : cache.touch key = cache := by
  unfold touch
  rw [absent]
  rfl

@[simp] theorem touch_revisions (key : Key) : (cache.touch key).revisions = cache.revisions := by
  unfold touch
  split <;> rfl

/-- A key that is used moves to the front. -/
theorem InStep.touch_perm (inStep : cache.InStep) (key : Key) :
    (cache.touch key).order.Perm cache.order := by
  cases present : cache.bytes key with
  | none => rw [touch_absent present]
  | some bytes =>
      have known : key ∈ cache.order := (inStep.table key).mpr (by simp [present])
      rw [touch_order (by simp [present])]
      have erased : cache.order.filter (· ≠ key) = cache.order.erase key := by
        rw [inStep.once.erase_eq_filter]
        apply List.filter_congr
        intro other _
        by_cases same : other = key <;> simp [same]
      rw [erased]
      exact (List.perm_cons_erase known).symm

theorem InStep.touch (inStep : cache.InStep) (key : Key) : (cache.touch key).InStep where
  once := (inStep.touch_perm key).nodup_iff.mpr inStep.once
  table other := by
    rw [(inStep.touch_perm key).mem_iff, touch_bytes]
    exact inStep.table other
  revised other := by
    rw [touch_bytes, touch_revisions]
    exact inStep.revised other

theorem evict_sublist (cache : ContentCache) (key : Key) :
    (cache.evict key).order.Sublist cache.order :=
  List.filter_sublist

theorem Sound.evict (sound : cache.Sound caps) (key : Key) : (cache.evict key).Sound caps where
  toInStep := sound.toInStep.evict key
  total := (evict_sublist cache key).length_le.trans sound.total
  direct authority dir := ((evict_sublist cache key).countP_le).trans (sound.direct authority dir)

theorem Sound.touch (sound : cache.Sound caps) (key : Key) : (cache.touch key).Sound caps where
  toInStep := sound.toInStep.touch key
  total := by
    rw [(sound.touch_perm key).length_eq]
    exact sound.total
  direct authority dir := by
    unfold directCount
    rw [(sound.touch_perm key).countP_eq]
    exact sound.direct authority dir

/-- Files that lie directly in a directory are among those it is counted by. -/
theorem directCount_le (cache : ContentCache) (authority dir : String) :
    cache.directCount authority dir ≤ cache.dirCount authority dir := by
  apply List.countP_mono_left
  intro key _ direct
  simp only [Bool.and_eq_true, decide_eq_true_eq] at direct ⊢
  exact ⟨direct.1, stringPrefixP_of_parent direct.2⟩

/-- Where the first loop stops, the directory keeps its limit. -/
theorem directCount_of_stopped {limit : Nat} {authority localdir : String}
    (stopped : directoryTurn limit authority localdir cache = none) :
    cache.directCount authority localdir ≤ limit := by
  unfold directoryTurn at stopped
  split at stopped
  · -- no victim is left: no file lies in the directory directly
    have none_left := Option.map_eq_none_iff.mp stopped
    rw [List.find?_eq_none] at none_left
    have zero : cache.directCount authority localdir = 0 := by
      apply List.countP_eq_zero.mpr
      intro key known direct
      simp only [Bool.and_eq_true, decide_eq_true_eq] at direct
      apply none_left key (List.mem_reverse.mpr known)
      simp [direct.1, relayDirname_of_parent direct.2]
    omega
  · rename_i within
    exact (directCount_le cache authority localdir).trans (by omega)

theorem order_of_stopped {limit : Nat} (stopped : totalTurn limit cache = none) :
    cache.order.length ≤ limit := by
  unfold totalTurn at stopped
  split at stopped
  · rename_i exceeds
    have empty := List.getLast?_eq_none_iff.mp (Option.map_eq_none_iff.mp stopped)
    simp [empty] at exceeds
  · omega

/-- An entry counts for no directory but its own. -/
theorem directCount_insert {authority dir : String}
    (elsewhere : ¬ (key.1 = authority ∧ relayDirname key.2 = dir)) :
    (cache.insert key bytes revision).directCount authority dir ≤
      cache.directCount authority dir := by
  have apart : ¬ (key.1 = authority ∧ parentDirectory key.2 = some dir) :=
    fun direct => elsewhere ⟨direct.1, relayDirname_of_parent direct.2⟩
  unfold directCount ContentCache.insert
  rw [List.countP_cons_of_neg (by simpa using apart)]
  exact List.filter_sublist.countP_le

theorem Sound.put (sound : cache.Sound caps) (key : Key) (bytes : String)
    (revision : Option String) : (cache.put caps key bytes revision).Sound caps := by
  obtain ⟨trimmed, directory, total⟩ := put_ends caps cache key bytes revision
  have fewer : ∀ authority dir, trimmed.directCount authority dir ≤
      (cache.insert key bytes revision).directCount authority dir := by
    intro authority dir
    apply directory.size_le (·.directCount authority dir)
    intro s t taken
    obtain ⟨-, victim, rfl, -⟩ := directoryTurn_some taken
    exact (evict_sublist s victim).countP_le
  have limited : ∀ authority dir, trimmed.directCount authority dir ≤ caps.perDirLimit := by
    intro authority dir
    by_cases own : key.1 = authority ∧ relayDirname key.2 = dir
    · rw [← own.1, ← own.2]
      exact directCount_of_stopped directory.stopped
    · exact (fewer authority dir).trans
        ((directCount_insert own).trans (sound.direct authority dir))
  constructor
  · exact put_invariant (sound.toInStep.insert key bytes revision) fun _ other h => h.evict other
  · exact order_of_stopped total.stopped
  · intro authority dir
    apply Nat.le_trans _ (limited authority dir)
    apply total.size_le (·.directCount authority dir)
    intro s t taken
    obtain ⟨-, victim, rfl, -⟩ := totalTurn_some taken
    exact (evict_sublist s victim).countP_le

theorem sound_empty (caps : Caps) : empty.Sound caps where
  once := List.nodup_nil
  table key := by simp [empty]
  revised key := by simp [empty]
  total := Nat.zero_le _
  direct authority dir := Nat.zero_le _

theorem Sound.step (sound : cache.Sound caps) (operation : Operation) :
    (cache.step caps operation).Sound caps :=
  step_invariant operation sound sound.put sound.touch fun _ key holds => holds.evict key

theorem sound_run (caps : Caps) (operations : List Operation) : (run caps operations).Sound caps := by
  have along : ∀ (operations : List Operation) (cache : ContentCache), cache.Sound caps →
      (operations.foldl (ContentCache.step caps) cache).Sound caps := by
    intro operations
    induction operations with
    | nil => exact fun _ sound => sound
    | cons operation operations ih => exact fun _ sound => ih _ (sound.step operation)
  exact along operations empty (sound_empty caps)

/-- Bytes and revision of every entry were given together. -/
def Recorded (puts : Key → Option (String × Option String)) (cache : ContentCache) : Prop :=
  ∀ key bytes, cache.bytes key = some bytes → puts key = some (bytes, cache.revisions key)

theorem Recorded.retain {puts : Key → Option (String × Option String)}
    (recorded : cache.Recorded puts) (retains : cache.Retains after) : after.Recorded puts := by
  intro key bytes found
  rcases retains key with gone | ⟨same, revision⟩
  · rw [gone] at found
    cases found
  · rw [revision]
    exact recorded key bytes (same ▸ found)

theorem retains_touch (cache : ContentCache) (key : Key) : cache.Retains (cache.touch key) :=
  fun other => .inr ⟨by rw [touch_bytes], by rw [touch_revisions]⟩

theorem lastPut_append (operations : List Operation) (operation : Operation) (key : Key) :
    lastPut (operations ++ [operation]) key =
      match operation with
      | .put other bytes revision =>
          if other = key then some (bytes, revision) else lastPut operations key
      | _ => lastPut operations key := by
  unfold lastPut
  rw [List.reverse_append, List.reverse_singleton, List.singleton_append, List.findSome?_cons]
  cases operation with
  | put other bytes revision => by_cases same : other = key <;> simp [same]
  | _ => rfl

theorem recorded_step {operations : List Operation} (recorded : cache.Recorded (lastPut operations))
    (operation : Operation) :
    (cache.step caps operation).Recorded (lastPut (operations ++ [operation])) := by
  have passed : (∀ key, lastPut (operations ++ [operation]) key = lastPut operations key) →
      cache.Retains (cache.step caps operation) →
      (cache.step caps operation).Recorded (lastPut (operations ++ [operation])) := by
    intro unput retains
    rw [funext unput]
    exact recorded.retain retains
  cases operation with
  | put key bytes revision =>
      apply Recorded.retain _ (retains_put cache caps key bytes revision)
      intro other found present
      rw [lastPut_append]
      by_cases same : other = key
      · simp only [insert, same, if_true] at present ⊢
        rw [Option.some.inj present]
      · simp only [insert, same, if_false] at present ⊢
        rw [if_neg (Ne.symm same)]
        exact recorded other found present
  | get key => exact passed (lastPut_append operations _) (retains_touch cache key)
  | getEntry key => exact passed (lastPut_append operations _) (retains_touch cache key)
  | evict key => exact passed (lastPut_append operations _) (retains_evict key)
  | evictPrefix authority localdir => exact passed (lastPut_append operations _) (retains_evicts _)
  | evictAuthority authority => exact passed (lastPut_append operations _) (retains_evicts _)

theorem recorded_run (caps : Caps) (operations : List Operation) :
    (run caps operations).Recorded (lastPut operations) := by
  induction operations using List.reverseRecOn with
  | nil => exact nofun
  | append_singleton operations operation ih =>
      unfold run
      rw [List.foldl_append]
      exact recorded_step ih operation

end Steps

/-- After any operations the table, the revisions and the order of use agree and the limits are
kept, what is stored of a key was given by its last put, and every further put ends. -/
theorem representation_invariant (caps : Caps) (operations : List Operation) :
    (run caps operations).Sound caps ∧ (run caps operations).Recorded (lastPut operations) ∧
      ∀ key bytes revision, PutEnds caps (run caps operations) key bytes revision
        ((run caps operations).put caps key bytes revision) :=
  ⟨sound_run caps operations, recorded_run caps operations, put_ends caps _⟩

end ContentCache

end EmacsRelay.RelayPrefetch

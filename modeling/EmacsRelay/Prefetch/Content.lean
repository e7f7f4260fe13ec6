import EmacsRelay.Prefetch.Invalidate
import Mathlib.Data.List.DropRight

set_option autoImplicit false

/- Names of directories, and insertion into the content cache of
`lisp/relay-content-prefetch.el` with its two limits. -/
namespace EmacsRelay.RelayPrefetch

open Server

/-- `directory-file-name`. -/
def directoryFileName (file : String) : String :=
  if file = "//" then file
  else
    match file.toList.reverse.dropWhile (· = '/') with
    | [] => if file = "" then "" else "/"
    | chars => String.ofList chars.reverse

/-- `file-name-directory`. -/
def fileNameDirectory (file : String) : Option String :=
  match file.toList.reverse.dropWhile (· ≠ '/') with
  | [] => none
  | chars => some (String.ofList chars.reverse)

/-- `relay--dirname`. -/
def relayDirname (loc : String) : String :=
  directoryFileName ((fileNameDirectory (directoryFileName loc)).getD "/")

example : relayDirname "/a/b/" = "/a" := by decide

example : relayDirname "/a" = "/" := by decide

example : relayDirname "~/a" = "~" := by decide

theorem dropWhile_reverse_idem (chars : List Char) :
    ((chars.dropWhile (· = '/')).reverse).reverse.dropWhile (· = '/') =
      chars.dropWhile (· = '/') := by
  rw [List.reverse_reverse]
  exact List.dropWhile_idempotent _ _

@[simp] theorem directoryFileName_idem (file : String) :
    directoryFileName (directoryFileName file) = directoryFileName file := by
  by_cases double : file = "//"
  · subst double
    decide
  · cases stripped : file.toList.reverse.dropWhile (· = '/') with
    | nil =>
        by_cases empty : file = ""
        · subst empty
          decide
        · have root : directoryFileName file = "/" := by
            simp [directoryFileName, double, stripped, empty]
          rw [root]
          decide
    | cons last chars =>
        have named : directoryFileName file = String.ofList (last :: chars).reverse := by
          simp [directoryFileName, double, stripped]
        have again := dropWhile_reverse_idem file.toList.reverse
        rw [stripped] at again
        have other : String.ofList (last :: chars).reverse ≠ "//" := by
          intro same
          rw [← String.toList_inj, String.toList_ofList] at same
          rw [same] at again
          cases again
        rw [named]
        simp only [directoryFileName, other, if_false, String.toList_ofList]
        rw [again]

@[simp] theorem relayDirname_directoryFileName (file : String) :
    relayDirname (directoryFileName file) = relayDirname file := by
  unfold relayDirname
  rw [directoryFileName_idem]

/-- `relay-content-prefetch-per-dir-limit` and `relay-content-prefetch-lru-size`. -/
structure Caps where
  perDirLimit : Nat := 10
  lruSize : Nat := 50

namespace ContentCache

/-- `relay--content-cache-dir-count`. -/
def dirCount (cache : ContentCache) (authority localdir : String) : Nat :=
  cache.order.countP fun key =>
    key.1 = authority && stringPrefixP (fileNameAsDirectory localdir) key.2

theorem evict_shorter {cache : ContentCache} {key : Key} (known : key ∈ cache.order) :
    (cache.evict key).order.length < cache.order.length := by
  apply List.length_filter_lt_length_iff_exists.mpr
  exact ⟨key, known, by simp⟩

/-- The loop of `relay--content-cache-put` for the directory. -/
def trimDirectory (limit : Nat) (authority localdir : String) (cache : ContentCache) :
    ContentCache :=
  if limit < cache.dirCount authority localdir then
    match _found : cache.order.reverse.find? fun key =>
        key.1 = authority && relayDirname key.2 = localdir with
    | some victim => trimDirectory limit authority localdir (cache.evict victim)
    | none => cache
  else cache
termination_by cache.order.length
decreasing_by exact evict_shorter (List.mem_reverse.mp (List.mem_of_find?_eq_some _found))

/-- The loop of `relay--content-cache-put` for the whole cache. -/
def trimTotal (limit : Nat) (cache : ContentCache) : ContentCache :=
  if limit < cache.order.length then
    match _found : cache.order.getLast? with
    | some key => trimTotal limit (cache.evict key)
    | none => cache
  else cache
termination_by cache.order.length
decreasing_by exact evict_shorter (List.mem_of_getLast? _found)

/-- An entry is written, and becomes the most recently used. -/
def insert (cache : ContentCache) (key : Key) (bytes : String) (revision : Option String) :
    ContentCache where
  bytes other := if other = key then some bytes else cache.bytes other
  revisions other := if other = key then revision else cache.revisions other
  order := key :: cache.order.filter (· ≠ key)
  ordered other present := by
    by_cases same : other = key
    · rw [same]
      exact List.mem_cons_self
    · rw [if_neg same] at present
      apply List.mem_cons_of_mem
      exact List.mem_filter.mpr ⟨cache.ordered other present, by simpa using same⟩

/-- `relay--content-cache-put`. -/
def put (caps : Caps) (cache : ContentCache) (key : Key) (bytes : String)
    (revision : Option String) : ContentCache :=
  ((cache.insert key bytes revision).trimDirectory caps.perDirLimit key.1
    (relayDirname key.2)).trimTotal caps.lruSize

/-- `relay--content-cache-get`, as it changes the order of use. -/
def touch (cache : ContentCache) (key : Key) : ContentCache :=
  if (cache.bytes key).isSome then
    { cache with
      order := key :: cache.order.filter (· ≠ key)
      ordered := fun other present => by
        by_cases same : other = key
        · rw [same]
          exact List.mem_cons_self
        · apply List.mem_cons_of_mem
          exact List.mem_filter.mpr ⟨cache.ordered other present, by simpa using same⟩ }
  else cache

/-- What is left of an entry is as it was. -/
def Retains (before after : ContentCache) : Prop :=
  ∀ key, after.bytes key = none ∨
    (after.bytes key = before.bytes key ∧ after.revisions key = before.revisions key)

section Limits

variable {cache before middle after : ContentCache}

theorem Retains.refl : Retains cache cache := fun _ => .inr ⟨rfl, rfl⟩

theorem Retains.trans (first : Retains before middle) (second : Retains middle after) :
    Retains before after := by
  intro key
  rcases second key with gone | ⟨bytes, revision⟩
  · exact .inl gone
  · rcases first key with gone | ⟨earlier, since⟩
    · exact .inl (bytes.trans gone)
    · exact .inr ⟨bytes.trans earlier, revision.trans since⟩

theorem retains_evict (victim : Key) : Retains cache (cache.evict victim) := by
  intro key
  by_cases same : key = victim
  · left
    simp [evict, same]
  · right
    simp [evict, same]

theorem retains_evicts (keys : List Key) : Retains cache (keys.foldl evict cache) := by
  induction keys generalizing cache with
  | nil => exact .refl
  | cons first keys ih => exact (retains_evict first).trans ih

theorem retains_trimDirectory (limit : Nat) (authority localdir : String) :
    Retains cache (cache.trimDirectory limit authority localdir) := by
  fun_induction trimDirectory with
  | case1 cache exceeds victim found ih => exact (retains_evict victim).trans ih
  | case2 => exact .refl
  | case3 => exact .refl

theorem retains_trimTotal (limit : Nat) : Retains cache (cache.trimTotal limit) := by
  fun_induction trimTotal with
  | case1 cache exceeds key found ih => exact (retains_evict key).trans ih
  | case2 => exact .refl
  | case3 => exact .refl

/-- Insertion leaves the new entry, or none, at the key; elsewhere what there was, or none. -/
theorem retains_put (cache : ContentCache) (caps : Caps) (key : Key) (bytes : String) (revision : Option String) :
    Retains (cache.insert key bytes revision) (cache.put caps key bytes revision) :=
  (retains_trimDirectory _ _ _).trans (retains_trimTotal _)

theorem put_bytes_self (caps : Caps) (key : Key) (bytes : String) (revision : Option String) :
    (cache.put caps key bytes revision).bytes key = none ∨
      (cache.put caps key bytes revision).bytes key = some bytes := by
  rcases retains_put cache caps key bytes revision key with gone | ⟨kept, _⟩
  · exact .inl gone
  · exact .inr (kept.trans (if_pos rfl))

theorem put_bytes_other (caps : Caps) {key other : Key} (bytes : String)
    (revision : Option String) (ne : other ≠ key) :
    (cache.put caps key bytes revision).bytes other = none ∨
      (cache.put caps key bytes revision).bytes other = cache.bytes other := by
  rcases retains_put cache caps key bytes revision other with gone | ⟨kept, _⟩
  · exact .inl gone
  · exact .inr (kept.trans (if_neg ne))

/-- Nothing is evicted where the limits are not passed. -/
theorem put_of_room {caps : Caps} {key : Key} {bytes : String} {revision : Option String}
    (directory : (cache.insert key bytes revision).dirCount key.1 (relayDirname key.2) ≤
      caps.perDirLimit)
    (total : (cache.insert key bytes revision).order.length ≤ caps.lruSize) :
    cache.put caps key bytes revision = cache.insert key bytes revision := by
  unfold put
  rw [trimDirectory, if_neg (by omega), trimTotal, if_neg (by omega)]

theorem put_roomy (cache : ContentCache) (key : Key) (bytes : String) (revision : Option String) :
    ∃ caps, cache.put caps key bytes revision = cache.insert key bytes revision := by
  refine ⟨⟨(cache.insert key bytes revision).order.length,
    (cache.insert key bytes revision).order.length⟩, ?_⟩
  apply put_of_room
  · exact List.countP_le_length
  · exact Nat.le_refl _

@[simp] theorem touch_bytes (key : Key) : (cache.touch key).bytes = cache.bytes := by
  unfold touch
  split
  · rfl
  · rfl

end Limits

end ContentCache

/-- An event only takes contents away. -/
theorem retains_handleEvent (c : Caches) (event : FsEvent) :
    c.content.Retains (handleEvent c event).caches.content := by
  cases event with
  | overflow => exact ContentCache.retains_evicts _
  | selfChanged localdir => exact ContentCache.retains_evicts _
  | changed kind dir name => exact ContentCache.retains_evicts _

end EmacsRelay.RelayPrefetch

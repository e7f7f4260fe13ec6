import EmacsRelay.Prefetch.Content
import EmacsRelay.Prefetch.Listing

set_option autoImplicit false

/- What the client does to its caches when one of its own mutations has succeeded,
`lisp/relay-file-handler.el`, `lisp/relay-conflict.el` and `lisp/relay-save.el`. -/
namespace EmacsRelay.RelayPrefetch

open Server

namespace Caches

/-- `relay--content-cache-evict`. -/
@[simps] def contentCacheEvict (c : Caches) (path : String) : Caches :=
  { c with content := c.content.evict (c.authority, path) }

/-- `relay--content-cache-put`. -/
@[simps] def contentCachePut (caps : Caps) (c : Caches) (path bytes : String)
    (revision : Option String) : Caches :=
  { c with content := c.content.put caps (c.authority, path) bytes revision }

/-- `relay--invalidate`. -/
@[simps!] def invalidate (c : Caches) (loc : String) : Caches :=
  ((c.advanceCacheEpoch.dropListing (relayDirname loc)).dircacheEvictPrefix
    loc).contentCacheEvictPrefix loc

/-- `relay--h-make-directory`. -/
@[simps!] def hMakeDirectory (c : Caches) (dir : String) : Caches :=
  c.invalidate (directoryFileName dir)

/-- `relay--h-delete-directory`. -/
@[simps!] def hDeleteDirectory (c : Caches) (dir : String) : Caches :=
  (c.invalidate (directoryFileName dir)).dropListing (directoryFileName dir)

/-- `relay--h-delete-file`. -/
@[simps!] def hDeleteFile (c : Caches) (filename : String) : Caches := c.invalidate filename

/-- `relay--transfer`. -/
@[simps!] def transfer (c : Caches) (file newname : String) : Caches :=
  (c.invalidate file).invalidate newname

/-- `relay--h-write-region`. -/
def hWriteRegion (caps : Caps) (c : Caches) (filename bytes : String) (append : Bool) : Caches :=
  let c := c.dropListing (relayDirname filename)
  if append then c.contentCacheEvict filename
  else if (c.content.bytes (c.authority, filename)).isSome then
    { c with content := c.content.touch (c.authority, filename) }.contentCachePut caps filename
      bytes none
  else c

/-- `relay-conflict--cache`, and `relay-save--cache-identity`. -/
def cacheSaved (caps : Caps) (c : Caches) (path bytes revision : String) : Caches :=
  c.contentCachePut caps path bytes (some revision)

end Caches

/-- A mutation on local names, as the client asks the server for it. -/
inductive Mutation where
  | writeRegion (filename bytes : String) (append : Bool)
  /-- A visited save, blocking or not, with the revision the server replied. -/
  | save (filename bytes revision : String)
  | makeDirectory (dir : String)
  | deleteDirectory (dir : String)
  | deleteFile (filename : String)
  | copyFile (file newname : String)
  | renameFile (file newname : String)
deriving DecidableEq, Repr

namespace Mutation

/-- What happens when the mutation has succeeded. -/
def complete (caps : Caps) (c : Caches) : Mutation → Caches
  | writeRegion filename bytes append => c.hWriteRegion caps filename bytes append
  | save filename bytes revision => c.cacheSaved caps filename bytes revision
  | makeDirectory dir => c.hMakeDirectory dir
  | deleteDirectory dir => c.hDeleteDirectory dir
  | deleteFile filename => c.hDeleteFile filename
  | copyFile file newname => c.transfer file newname
  | renameFile file newname => c.transfer file newname

/-- The paths that are not what they were: of a visited save, the one that its request carries. -/
def paths : Mutation → List String
  | writeRegion filename _ _ => [filename]
  | save filename _ _ => [filename]
  | makeDirectory dir => [dir]
  | deleteDirectory dir => [dir]
  | deleteFile filename => [filename]
  | copyFile _ newname => [newname]
  | renameFile file newname => [file, newname]

/-- The bytes a file was given as a whole. -/
def written : Mutation → Option (String × String)
  | writeRegion filename bytes append => if append then none else some (filename, bytes)
  | save filename bytes _ => some (filename, bytes)
  | _ => none

/-- The names `relay--invalidate` is called with. -/
def invalidated : Mutation → List String
  | makeDirectory dir => [directoryFileName dir]
  | deleteDirectory dir => [directoryFileName dir]
  | deleteFile filename => [filename]
  | copyFile file newname => [file, newname]
  | renameFile file newname => [file, newname]
  | _ => []

end Mutation

/-- The request was sent in the current epoch, which is what its reply is installed by. -/
def Fetch.Current (fetch : Fetch) (c : Caches) : Prop := fetch.epoch = c.epoch

/-- At the path or below it, whatever slashes end its name. -/
def Under (path name : String) : Prop := Caches.nested (directoryFileName path) name = true

/-- The caches tell nothing of PATH from before the mutation: no listing shows it, itself or below
it, no contents but those just written are kept, and no listing on its way is let in. -/
structure Truthful (w : World) (c : Caches) (written : Option (String × String)) (path : String) :
    Prop where
  parent : c.dircache (relayDirname path) = none
  listings : ∀ name, Under path name → c.dircache name = none
  contents : ∀ name, Under path name → ∀ bytes, c.content.bytes (c.authority, name) = some bytes →
    name = path ∧ written = some (path, bytes)
  requests : ∀ id fetch, w.fetches id = some fetch → ¬ fetch.Current c

/-- The caches after a mutation, made while `w` was the state of the client. -/
def Honest (caps : Caps) (w : World) (mutation : Mutation) : Prop :=
  ∀ path ∈ mutation.paths,
    Truthful w (mutation.complete caps w.caches) mutation.written path

/-- Nothing is cached under the name, or what is cached under it has been dropped. -/
def Dropped (c : Caches) (names : List String) (name : String) : Prop :=
  (∃ q ∈ names, Caches.nested q name = true) ∨
    ((c.dircache name = none ∨ ∃ q ∈ names, name = relayDirname q) ∧
      c.content.bytes (c.authority, name) = none)

/-- When the caches are honest after a mutation: `relay--invalidate` reaches all that is cached for
a path unless slashes that end its name hide some of it; a write drops the listing that holds the
file, a visited save drops nothing, and neither makes listings on their way late. -/
def Spared (w : World) : Mutation → Prop
  | .writeRegion filename _ _ =>
      (∀ name, Under filename name → name ≠ relayDirname filename → w.caches.dircache name = none) ∧
      (∀ name, Under filename name → name ≠ filename →
        w.caches.content.bytes (w.caches.authority, name) = none) ∧
      ∀ id fetch, w.fetches id = some fetch → ¬ fetch.Current w.caches
  | .save filename _ _ =>
      w.caches.dircache (relayDirname filename) = none ∧
      (∀ name, Under filename name → w.caches.dircache name = none) ∧
      (∀ name, Under filename name → name ≠ filename →
        w.caches.content.bytes (w.caches.authority, name) = none) ∧
      ∀ id fetch, w.fetches id = some fetch → ¬ fetch.Current w.caches
  | mutation =>
      ∀ path ∈ mutation.paths, ∀ name, Under path name →
        Dropped w.caches mutation.invalidated name

section Invalidating

variable {c : Caches} {w : World}

theorem invalidate_listing (loc name : String) :
    (c.invalidate loc).dircache name =
      if name = relayDirname loc ∨ Caches.nested loc name = true then none
      else c.dircache name := by
  simp only [Caches.invalidate_dircache]
  by_cases below : Caches.nested loc name = true
  · simp [below]
  · simp [below]

theorem invalidate_contents (loc name : String) :
    (c.invalidate loc).content.bytes (c.authority, name) =
      if Caches.nested loc name = true then none else c.content.bytes (c.authority, name) := by
  have evicted := evict_order c.content
    (fun key => key.1 = c.authority && Caches.nested loc key.2) (c.authority, name)
  simp only [decide_true, Bool.true_and] at evicted
  exact evicted

theorem invalidates_epoch (names : List String) :
    (names.foldl Caches.invalidate c).epoch = c.epoch + names.length := by
  induction names generalizing c with
  | nil => rfl
  | cons first names ih =>
      have step : (c.invalidate first).epoch = c.epoch + 1 := rfl
      rw [List.foldl_cons, ih, step, List.length_cons]
      omega

theorem invalidates_listing (names : List String) (name : String) :
    (names.foldl Caches.invalidate c).dircache name = none ↔
      (∃ q ∈ names, name = relayDirname q ∨ Caches.nested q name = true) ∨
        c.dircache name = none := by
  induction names generalizing c with
  | nil => simp
  | cons first names ih =>
      rw [List.foldl_cons, ih, invalidate_listing]
      by_cases reached : name = relayDirname first ∨ Caches.nested first name = true
      · simp [reached]
      · simp [reached]

theorem invalidates_contents (names : List String) (name : String) :
    (names.foldl Caches.invalidate c).content.bytes (c.authority, name) = none ↔
      (∃ q ∈ names, Caches.nested q name = true) ∨
        c.content.bytes (c.authority, name) = none := by
  induction names generalizing c with
  | nil => simp
  | cons first names ih =>
      have step := invalidate_contents (c := c) first name
      have same : (c.invalidate first).authority = c.authority := rfl
      rw [List.foldl_cons, ← same, ih, same, step]
      by_cases reached : Caches.nested first name = true
      · simp [reached]
      · simp [reached]

theorem nested_self (name : String) : Caches.nested name name = true := by
  simp [Caches.nested]

/-- A mutation that invalidates leaves the caches as `relay--invalidate` does. -/
theorem complete_invalidated (caps : Caps) {mutation : Mutation}
    (some_name : mutation.invalidated ≠ []) :
    (∀ name, (mutation.complete caps c).dircache name =
      (mutation.invalidated.foldl Caches.invalidate c).dircache name) ∧
    (mutation.complete caps c).content = (mutation.invalidated.foldl Caches.invalidate c).content ∧
    (mutation.complete caps c).epoch = (mutation.invalidated.foldl Caches.invalidate c).epoch ∧
    (mutation.complete caps c).authority = c.authority := by
  cases mutation with
  | writeRegion => exact absurd rfl some_name
  | save => exact absurd rfl some_name
  | deleteDirectory dir =>
      refine ⟨?_, rfl, rfl, rfl⟩
      intro name
      by_cases itself : name = directoryFileName dir
      · subst itself
        simp [Mutation.complete, Mutation.invalidated, nested_self]
      · simp [Mutation.complete, Mutation.invalidated, itself]
  | makeDirectory => exact ⟨fun _ => rfl, rfl, rfl, rfl⟩
  | deleteFile => exact ⟨fun _ => rfl, rfl, rfl, rfl⟩
  | copyFile => exact ⟨fun _ => rfl, rfl, rfl, rfl⟩
  | renameFile => exact ⟨fun _ => rfl, rfl, rfl, rfl⟩

/-- The directory of each path is the directory of a name that is invalidated. -/
theorem paths_invalidated {mutation : Mutation} (some_name : mutation.invalidated ≠ [])
    {path : String} (changed : path ∈ mutation.paths) :
    ∃ q ∈ mutation.invalidated, relayDirname path = relayDirname q := by
  cases mutation with
  | writeRegion => exact absurd rfl some_name
  | save => exact absurd rfl some_name
  | makeDirectory dir =>
      refine ⟨_, List.mem_singleton_self _, ?_⟩
      rw [List.mem_singleton.mp changed, relayDirname_directoryFileName]
  | deleteDirectory dir =>
      refine ⟨_, List.mem_singleton_self _, ?_⟩
      rw [List.mem_singleton.mp changed, relayDirname_directoryFileName]
  | deleteFile filename => exact ⟨path, changed, rfl⟩
  | copyFile file newname => exact ⟨path, List.mem_cons_of_mem _ changed, rfl⟩
  | renameFile file newname => exact ⟨path, changed, rfl⟩

theorem honest_invalidated (caps : Caps) {mutation : Mutation}
    (some_name : mutation.invalidated ≠ [])
    (sent : ∀ id fetch, w.fetches id = some fetch → fetch.epoch ≤ w.caches.epoch) :
    Honest caps w mutation ↔ ∀ path ∈ mutation.paths, ∀ name, Under path name →
      Dropped w.caches mutation.invalidated name := by
  obtain ⟨listings, contents, epoch, authority⟩ :=
    complete_invalidated (c := w.caches) caps some_name
  have unwritten : mutation.written = none := by
    cases mutation with
    | writeRegion => exact absurd rfl some_name
    | save => exact absurd rfl some_name
    | _ => rfl
  constructor
  · intro honest path changed name under
    have truthful := honest path changed
    have unlisted := truthful.listings name under
    rw [listings, invalidates_listing] at unlisted
    have empty : (mutation.invalidated.foldl Caches.invalidate w.caches).content.bytes
        (w.caches.authority, name) = none := by
      apply Option.eq_none_iff_forall_ne_some.mpr
      intro bytes found
      rw [← contents, ← authority] at found
      have kept := (truthful.contents name under bytes found).2
      rw [unwritten] at kept
      cases kept
    rw [invalidates_contents] at empty
    by_cases covered : ∃ q ∈ mutation.invalidated, Caches.nested q name = true
    · exact .inl covered
    · right
      refine ⟨?_, empty.resolve_left covered⟩
      rcases unlisted with ⟨q, invalidated, same | below⟩ | absent
      · exact .inr ⟨q, invalidated, same⟩
      · exact absurd ⟨q, invalidated, below⟩ covered
      · exact .inl absent
  · intro dropped path changed
    constructor
    case parent =>
      obtain ⟨q, invalidated, same⟩ := paths_invalidated some_name changed
      rw [listings, invalidates_listing]
      exact .inl ⟨q, invalidated, .inl same⟩
    case listings =>
      intro name under
      rw [listings, invalidates_listing]
      rcases dropped path changed name under with
        ⟨q, invalidated, below⟩ | ⟨absent | ⟨q, invalidated, same⟩, _⟩
      · exact .inl ⟨q, invalidated, .inr below⟩
      · exact .inr absent
      · exact .inl ⟨q, invalidated, .inl same⟩
    case contents =>
      intro name under bytes found
      have gone : (mutation.invalidated.foldl Caches.invalidate w.caches).content.bytes
          (w.caches.authority, name) = none := by
        rw [invalidates_contents]
        rcases dropped path changed name under with covered | ⟨_, absent⟩
        · exact .inl covered
        · exact .inr absent
      rw [authority, contents, gone] at found
      cases found
    case requests =>
      intro id fetch found current
      have earlier := sent id fetch found
      have advanced : 0 < mutation.invalidated.length := List.length_pos_iff.mpr some_name
      have same : fetch.epoch = w.caches.epoch + mutation.invalidated.length := by
        rw [← invalidates_epoch, ← epoch]
        exact current
      omega

end Invalidating

section Writing

variable {w : World}

/-- What a write leaves of the contents: at the path its bytes at most, elsewhere what was there at
most, and all of it where the limits allow. -/
structure Rewrites (before : Caches) (after : Caps → Caches) (filename : String)
    (written : Option (String × String)) : Prop where
  authority : ∀ caps, (after caps).authority = before.authority
  epoch : ∀ caps, (after caps).epoch = before.epoch
  itself : ∀ caps bytes, (after caps).content.bytes (before.authority, filename) = some bytes →
    written = some (filename, bytes)
  others : ∀ caps name, name ≠ filename →
    before.content.bytes (before.authority, name) = none →
    (after caps).content.bytes (before.authority, name) = none
  roomy : ∃ caps, ∀ name, name ≠ filename →
    (after caps).content.bytes (before.authority, name) =
      before.content.bytes (before.authority, name)

theorem rewrites_put (c : Caches) (filename bytes : String) (revision : Option String) :
    Rewrites c (fun caps => c.contentCachePut caps filename bytes revision) filename
      (some (filename, bytes)) := by
  have differs : ∀ name, name ≠ filename → (c.authority, name) ≠ (c.authority, filename) := by
    intro name ne same
    exact ne (congrArg Prod.snd same)
  constructor
  case authority => exact fun _ => rfl
  case epoch => exact fun _ => rfl
  case itself =>
    intro caps stored found
    rcases c.content.put_bytes_self caps (c.authority, filename) bytes revision with gone | kept
    · rw [Caches.contentCachePut_content, gone] at found
      cases found
    · rw [Caches.contentCachePut_content, kept] at found
      rw [Option.some.inj found]
  case others =>
    intro caps name ne absent
    rcases c.content.put_bytes_other caps bytes revision (differs name ne) with gone | kept
    · exact gone
    · exact kept.trans absent
  case roomy =>
    obtain ⟨caps, whole⟩ := c.content.put_roomy (c.authority, filename) bytes revision
    refine ⟨caps, ?_⟩
    intro name ne
    rw [Caches.contentCachePut_content, whole]
    exact if_neg (differs name ne)

theorem rewrites_evict (c : Caches) (filename : String) :
    Rewrites c (fun _ => c.contentCacheEvict filename) filename none := by
  constructor
  case authority => exact fun _ => rfl
  case epoch => exact fun _ => rfl
  case itself =>
    intro _ bytes found
    simp [ContentCache.evict] at found
  case others =>
    intro _ name ne absent
    simp [ContentCache.evict, absent]
  case roomy =>
    refine ⟨{}, ?_⟩
    intro name ne
    simp [ContentCache.evict, ne]

/-- Only the contents, the authority and the epoch of the caches before count. -/
theorem Rewrites.of_same {before other : Caches} {after : Caps → Caches} {filename : String}
    {written : Option (String × String)} (rewrites : Rewrites other after filename written)
    (authority : other.authority = before.authority) (epoch : other.epoch = before.epoch)
    (contents : other.content.bytes = before.content.bytes) :
    Rewrites before after filename written := by
  constructor
  case authority => exact fun caps => (rewrites.authority caps).trans authority
  case epoch => exact fun caps => (rewrites.epoch caps).trans epoch
  case itself =>
    rw [← authority]
    exact rewrites.itself
  case others =>
    rw [← authority, ← contents]
    exact rewrites.others
  case roomy =>
    rw [← authority, ← contents]
    exact rewrites.roomy

theorem hWriteRegion_append (caps : Caps) (c : Caches) (filename bytes : String) :
    c.hWriteRegion caps filename bytes true =
      (c.dropListing (relayDirname filename)).contentCacheEvict filename := rfl

theorem hWriteRegion_uncached (caps : Caps) {c : Caches} {filename : String} (bytes : String)
    (absent : c.content.bytes (c.authority, filename) = none) :
    c.hWriteRegion caps filename bytes false = c.dropListing (relayDirname filename) := by
  simp [Caches.hWriteRegion, absent]

theorem hWriteRegion_cached (caps : Caps) {c : Caches} {filename old : String} (bytes : String)
    (cached : c.content.bytes (c.authority, filename) = some old) :
    c.hWriteRegion caps filename bytes false =
      Caches.contentCachePut caps { c.dropListing (relayDirname filename) with
        content := c.content.touch (c.authority, filename) } filename bytes none := by
  simp [Caches.hWriteRegion, cached]

theorem rewrites_writeRegion (c : Caches) (filename bytes : String) (append : Bool) :
    Rewrites c (fun caps => c.hWriteRegion caps filename bytes append) filename
      (Mutation.writeRegion filename bytes append).written := by
  have authority := Caches.dropListing_authority c (relayDirname filename)
  have epoch := Caches.dropListing_epoch c (relayDirname filename)
  cases append with
  | true =>
      have contents := congrArg ContentCache.bytes
        (Caches.dropListing_content c (relayDirname filename))
      have evicted := rewrites_evict (c.dropListing (relayDirname filename)) filename
      simp only [hWriteRegion_append]
      exact evicted.of_same authority epoch contents
  | false =>
      cases cached : c.content.bytes (c.authority, filename) with
      | none =>
          simp only [hWriteRegion_uncached _ bytes cached]
          constructor
          case authority => exact fun _ => authority
          case epoch => exact fun _ => epoch
          case itself =>
            intro _ stored found
            rw [Caches.dropListing_content, cached] at found
            cases found
          case others =>
            intro _ _ _ absent
            rwa [Caches.dropListing_content]
          case roomy => exact ⟨{}, fun _ _ => by rw [Caches.dropListing_content]⟩
      | some old =>
          have touched : (c.content.touch (c.authority, filename)).bytes = c.content.bytes :=
            ContentCache.touch_bytes _
          simp only [hWriteRegion_cached _ bytes cached]
          exact (rewrites_put _ filename bytes none).of_same authority epoch touched

theorem rewrites_save (c : Caches) (filename bytes revision : String) :
    Rewrites c (fun caps => c.cacheSaved caps filename bytes revision) filename
      (Mutation.save filename bytes revision).written :=
  rewrites_put c filename bytes (some revision)

theorem hWriteRegion_listing (caps : Caps) (c : Caches) (filename bytes : String) (append : Bool)
    (name : String) :
    (c.hWriteRegion caps filename bytes append).dircache name =
      if name = relayDirname filename then none else c.dircache name := by
  cases append with
  | true => rfl
  | false =>
      cases cached : c.content.bytes (c.authority, filename) with
      | none =>
          rw [hWriteRegion_uncached caps bytes cached]
          rfl
      | some old =>
          rw [hWriteRegion_cached caps bytes cached]
          rfl

theorem Rewrites.contents_iff {before : Caches} {after : Caps → Caches} {filename : String}
    {written : Option (String × String)} (rewrites : Rewrites before after filename written) :
    (∀ caps name, Under filename name → ∀ bytes,
      (after caps).content.bytes ((after caps).authority, name) = some bytes →
        name = filename ∧ written = some (filename, bytes)) ↔
      ∀ name, Under filename name → name ≠ filename →
        before.content.bytes (before.authority, name) = none := by
  constructor
  · intro told name under ne
    obtain ⟨caps, same⟩ := rewrites.roomy
    apply Option.eq_none_iff_forall_ne_some.mpr
    intro bytes found
    rw [← same name ne, ← rewrites.authority caps] at found
    exact ne (told caps name under bytes found).1
  · intro empty caps name under bytes found
    rw [rewrites.authority] at found
    by_cases itself : name = filename
    · subst itself
      exact ⟨rfl, rewrites.itself caps bytes found⟩
    · have gone := rewrites.others caps name itself (empty name under itself)
      rw [gone] at found
      cases found

/-- The caches are honest after a write when each of the four things that could lie is so. -/
theorem honest_rewrites (dropped : String → Prop) {mutation : Mutation} {filename : String}
    (paths : mutation.paths = [filename])
    (rewrites : Rewrites w.caches (fun caps => mutation.complete caps w.caches) filename
      mutation.written)
    (listed : ∀ caps name, (mutation.complete caps w.caches).dircache name = none ↔
      dropped name ∨ w.caches.dircache name = none) :
    (∀ caps, Honest caps w mutation) ↔
      (dropped (relayDirname filename) ∨ w.caches.dircache (relayDirname filename) = none) ∧
      (∀ name, Under filename name → dropped name ∨ w.caches.dircache name = none) ∧
      (∀ name, Under filename name → name ≠ filename →
        w.caches.content.bytes (w.caches.authority, name) = none) ∧
      ∀ id fetch, w.fetches id = some fetch → ¬ fetch.Current w.caches := by
  rw [← rewrites.contents_iff]
  constructor
  · intro honest
    have truthful : ∀ caps, Truthful w (mutation.complete caps w.caches) mutation.written
        filename := by
      intro caps
      apply honest caps
      rw [paths]
      exact List.mem_singleton_self _
    refine ⟨?_, ?_, ?_, ?_⟩
    · exact (listed {} _).mp (truthful {}).parent
    · exact fun name under => (listed {} name).mp ((truthful {}).listings name under)
    · exact fun caps => (truthful caps).contents
    · intro id fetch found current
      apply (truthful {}).requests id fetch found
      exact current.trans (rewrites.epoch {}).symm
  · rintro ⟨parent, listings, contents, requests⟩ caps path changed
    rw [paths] at changed
    rw [List.mem_singleton.mp changed]
    constructor
    case parent => exact (listed caps _).mpr parent
    case listings => exact fun name under => (listed caps name).mpr (listings name under)
    case contents => exact contents caps
    case requests =>
      intro id fetch found current
      exact requests id fetch found (current.trans (rewrites.epoch caps))

end Writing

section Late

variable {w : World} {old : Nat}

/-- The requests sent before number `old` are of earlier epochs. -/
structure World.Shut (w : World) (old : Nat) : Prop where
  known : old ≤ w.nextId
  outdated : ∀ id fetch, id < old → w.fetches id = some fetch → fetch.epoch < w.caches.epoch

namespace World.Shut

theorem of_same {after : World} (shut : w.Shut old) (known : w.nextId ≤ after.nextId)
    (fetches : after.fetches = w.fetches) (epoch : w.caches.epoch ≤ after.caches.epoch) :
    after.Shut old := by
  constructor
  case known => exact Nat.le_trans shut.known known
  case outdated =>
    intro id fetch earlier found
    rw [fetches] at found
    exact Nat.lt_of_lt_of_le (shut.outdated id fetch earlier found) epoch

theorem setFetch (shut : w.Shut old) (id : Nat) (fetch : Option Fetch)
    (outdated : ∀ f, fetch = some f → id < old → f.epoch < w.caches.epoch) :
    (w.setFetch id fetch).Shut old := by
  constructor
  case known => exact shut.known
  case outdated =>
    intro other f earlier found
    rw [World.setFetch_fetches] at found
    by_cases same : other = id
    · rw [if_pos same] at found
      exact outdated f found (same ▸ earlier)
    · rw [if_neg same] at found
      exact shut.outdated other f earlier found

theorem remove (shut : w.Shut old) (id : Nat) : (w.setFetch id none).Shut old :=
  shut.setFetch id none nofun

/-- A request goes on; its epoch stays what it was. -/
theorem move (shut : w.Shut old) {id : Nat} {fetch : Fetch} (found : w.fetches id = some fetch)
    (phase : Phase) : (w.setFetch id (some { fetch with phase := phase })).Shut old := by
  apply shut.setFetch
  intro f same earlier
  rw [← Option.some.inj same]
  exact shut.outdated id fetch earlier found

theorem readdir (shut : w.Shut old) (dir : String) (blocking : Bool) :
    (w.readdir dir blocking).Shut old := by
  have known := shut.known
  have asked := shut.setFetch w.nextId (some ⟨dir, w.caches.epoch, blocking, .asked⟩)
    (fun f is earlier => by omega)
  exact asked.of_same (Nat.le_succ _) rfl (Nat.le_refl _)

theorem listing (shut : w.Shut old) (dir : String) : (w.listing dir).Shut old := by
  unfold World.listing
  split
  · exact shut
  · exact shut.readdir dir true

theorem rewarms (shut : w.Shut old) (dirs : List String) :
    (dirs.foldl World.listingRewarmAsync w).Shut old := by
  induction dirs generalizing w with
  | nil => exact shut
  | cons dir dirs ih => exact ih (shut.readdir dir false)

/-- A request of an earlier epoch is dropped when its reply is used, or made again under another
number. -/
theorem finish_listings (shut : w.Shut old) {id : Nat} (earlier : id < old) :
    (w.finish id).caches = w.caches := by
  unfold World.finish
  split
  · rename_i dir epoch blocking entries found
    have outdated : epoch < w.caches.epoch := shut.outdated id _ earlier found
    have unequal : epoch ≠ w.caches.epoch := by omega
    cases entries with
    | none => rfl
    | some entries =>
        cases blocking with
        | true => simp [unequal, World.readdir]
        | false => simp [unequal]
  · rfl

theorem finish (shut : w.Shut old) (id : Nat) : (w.finish id).Shut old := by
  have removed := shut.remove id
  unfold World.finish
  split
  · rename_i dir epoch blocking entries found
    cases entries with
    | none => exact removed
    | some entries =>
        have again := removed.readdir dir true
        have installed : ((w.setFetch id none).install dir entries).Shut old :=
          removed.of_same (Nat.le_refl _) rfl (Nat.le_refl _)
        by_cases current : epoch = (w.setFetch id none).caches.epoch
        · simp only [current, if_true]
          split
          · exact installed
          · exact removed
        · simp only [current, if_false]
          split
          · exact again
          · exact removed
  · exact shut

theorem deliver (shut : w.Shut old) : w.deliver.Shut old := by
  unfold World.deliver
  split
  · exact shut
  · rename_i id rest first
    have taken : World.Shut { w with channel := rest } old :=
      shut.of_same (Nat.le_refl _) rfl (Nat.le_refl _)
    cases found : w.fetches id with
    | none => simpa [found] using taken
    | some fetch =>
        simp only [found]
        cases fetch.phase with
        | answered entries => exact taken.move found (.queued entries)
        | _ => exact taken
  · rename_i event rest first
    have advanced : w.caches.epoch ≤ (handleEvent w.caches event).caches.epoch := by
      rw [handleEvent_epoch]
      omega
    have handled : World.Shut { w with
        caches := (handleEvent w.caches event).caches
        channel := rest } old := shut.of_same (Nat.le_refl _) rfl advanced
    exact handled.rewarms _

theorem begin (shut : w.Shut old) (id : Nat) : (w.begin id).Shut old := by
  unfold World.begin
  cases found : w.fetches id with
  | none => exact shut
  | some fetch =>
      by_cases asked : fetch.phase = .asked
      · simp only [asked, if_true]
        exact shut.move found _
      · simp only [asked, if_false]
        exact shut

theorem answer (shut : w.Shut old) (id : Nat) (seen : List String) (ok : Bool) :
    (w.answer id seen ok).Shut old := by
  unfold World.answer
  cases found : w.fetches id with
  | none => exact shut
  | some fetch =>
      cases reading : fetch.phase with
      | reading changed =>
          simp only [reading]
          exact (shut.move found _).of_same (Nat.le_refl _) rfl (Nat.le_refl _)
      | _ =>
          simp only [reading]
          exact shut

theorem change (shut : w.Shut old) (names : String → List String)
    (paths : List (ChangeKind × FsPath)) : (w.change names paths).Shut old := by
  constructor
  case known => exact shut.known
  case outdated =>
    intro id fetch earlier found
    obtain ⟨before, kept, same⟩ := Option.map_eq_some_iff.mp found
    have epoch : fetch.epoch = before.epoch := by
      rw [← same]
      cases before.phase <;> rfl
    rw [epoch]
    exact shut.outdated id before earlier kept

theorem step (shut : w.Shut old) (happening : Happening) : (w.step happening).Shut old := by
  cases happening with
  | listing dir => exact shut.listing dir
  | rewarm dir => exact shut.readdir dir false
  | finish id => exact shut.finish id
  | giveUp id => exact shut.remove id
  | deliver => exact shut.deliver
  | begin id => exact shut.begin id
  | answer id seen ok => exact shut.answer id seen ok
  | watch index canon watcher =>
      show (w.execWatch index canon watcher).Shut old
      unfold World.execWatch
      split
      · exact shut.of_same (Nat.le_refl _) rfl (Nat.le_refl _)
      · exact shut
  | change names paths => exact shut.change names paths
  | report =>
      show w.report.Shut old
      unfold World.report
      split
      · exact shut
      · exact shut.of_same (Nat.le_refl _) rfl (Nat.le_refl _)
  | overflow => exact shut.of_same (Nat.le_refl _) rfl (Nat.le_refl _)

end World.Shut

/-- What a request of an earlier epoch is answered changes the caches in no later state. -/
theorem late_reply_dropped {w' : World} {permitted : World → Happening → Prop} {c : Caches}
    (outdated : ∀ id fetch, w.fetches id = some fetch → fetch.epoch < c.epoch)
    (later : Reaches World.step permitted { w with caches := c } w') {id : Nat}
    (sent : id < w.nextId) : (w'.finish id).caches = w'.caches := by
  have shut : World.Shut { w with caches := c } w.nextId :=
    ⟨Nat.le_refl _, fun id fetch _ found => outdated id fetch found⟩
  have still : w'.Shut w.nextId := by
    apply Reaches.invariant _ _ later
    · exact shut
    · exact fun _ happening kept _ => World.Shut.step kept happening
  exact still.finish_listings sent

end Late

/-- Honest caches, whatever the limits of the content cache, are left exactly by what is spared. -/
theorem honest_iff_spared {w : World} {mutation : Mutation}
    (sent : ∀ id fetch, w.fetches id = some fetch → fetch.epoch ≤ w.caches.epoch) :
    (∀ caps, Honest caps w mutation) ↔ Spared w mutation := by
  have invalidates : mutation.invalidated ≠ [] →
      ((∀ caps, Honest caps w mutation) ↔ ∀ path ∈ mutation.paths, ∀ name, Under path name →
        Dropped w.caches mutation.invalidated name) := by
    intro some_name
    constructor
    · exact fun honest => (honest_invalidated {} some_name sent).mp (honest {})
    · exact fun dropped caps => (honest_invalidated caps some_name sent).mpr dropped
  cases mutation with
  | writeRegion filename bytes append =>
      rw [honest_rewrites (· = relayDirname filename) rfl
        (rewrites_writeRegion w.caches filename bytes append)]
      · simp only [Spared, ne_eq, or_iff_not_imp_left, not_true_eq_false, false_implies, true_and]
      · intro caps name
        show (w.caches.hWriteRegion caps filename bytes append).dircache name = none ↔ _
        rw [hWriteRegion_listing]
        by_cases parent : name = relayDirname filename
        · simp [parent]
        · simp [parent]
  | save filename bytes revision =>
      rw [honest_rewrites (fun _ => False) rfl (rewrites_save w.caches filename bytes revision)]
      · simp only [Spared, false_or]
      · intro caps name
        rw [false_or]
        rfl
  | makeDirectory => exact invalidates (List.cons_ne_nil _ _)
  | deleteDirectory => exact invalidates (List.cons_ne_nil _ _)
  | deleteFile => exact invalidates (List.cons_ne_nil _ _)
  | copyFile => exact invalidates (List.cons_ne_nil _ _)
  | renameFile => exact invalidates (List.cons_ne_nil _ _)

/-- Names without slashes at their end are invalidated as they are. -/
theorem spared_of_bare {w : World} {mutation : Mutation} (some_name : mutation.invalidated ≠ [])
    (bare : ∀ path ∈ mutation.paths, directoryFileName path = path) : Spared w mutation := by
  have covered : ∀ path ∈ mutation.paths, ∀ name, Under path name →
      Dropped w.caches mutation.invalidated name := by
    intro path changed name under
    left
    cases mutation with
    | writeRegion => exact absurd rfl some_name
    | save => exact absurd rfl some_name
    | makeDirectory dir =>
        rw [List.mem_singleton.mp changed] at under
        exact ⟨_, List.mem_singleton_self _, under⟩
    | deleteDirectory dir =>
        rw [List.mem_singleton.mp changed] at under
        exact ⟨_, List.mem_singleton_self _, under⟩
    | deleteFile filename =>
        rw [Under, bare path changed] at under
        exact ⟨path, changed, under⟩
    | copyFile file newname =>
        rw [Under, bare path changed] at under
        exact ⟨path, List.mem_cons_of_mem _ changed, under⟩
    | renameFile file newname =>
        rw [Under, bare path changed] at under
        exact ⟨path, changed, under⟩
  cases mutation with
  | writeRegion => exact absurd rfl some_name
  | save => exact absurd rfl some_name
  | _ => exact covered

theorem complete_epoch (caps : Caps) (c : Caches) (mutation : Mutation) :
    (mutation.complete caps c).epoch = c.epoch + mutation.invalidated.length := by
  have invalidates : mutation.invalidated ≠ [] →
      (mutation.complete caps c).epoch = c.epoch + mutation.invalidated.length := by
    intro some_name
    rw [(complete_invalidated caps some_name).2.2.1, invalidates_epoch]
  cases mutation with
  | writeRegion filename bytes append =>
      exact (rewrites_writeRegion c filename bytes append).epoch caps
  | save filename bytes revision => rfl
  | _ => exact invalidates (List.cons_ne_nil _ _)

/-- The listing of a directory is cached and asked for again. -/
def listedWorld : World where
  caches := {
    authority := "h"
    dircache := fun name => if name = "/d" then some ["f"] else none }
  names := fun _ => []
  nextId := 1
  fetches := fun id => if id = 0 then some ⟨"/d", 0, false, .asked⟩ else none

end EmacsRelay.RelayPrefetch

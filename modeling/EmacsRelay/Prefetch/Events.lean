import EmacsRelay.Server.Watch
import Mathlib.Tactic.Simps.Basic

set_option autoImplicit false

/- The caches of `lisp/relay-prefetch.el` and `lisp/relay-content-prefetch.el`, and what an event
of the server removes from them. Functions go by their own names, without the prefix. -/
namespace EmacsRelay.RelayPrefetch

open Server

def fileNameAsDirectory (file : String) : String :=
  if file.toList = [] then "./"
  else if file.toList.getLast? = some '/' then file
  else file ++ "/"

def stringPrefixP (start string : String) : Bool := start.toList.isPrefixOf string.toList

/-- Files and directories are known by authority and local name. -/
abbrev Key := String × String

instance : LawfulBEq Key := inferInstance

/-- `relay--content-cache` with its revisions and its order of use; every entry has its place in
the order. -/
structure ContentCache where
  bytes : Key → Option String := fun _ => none
  revisions : Key → Option String := fun _ => none
  order : List Key := []
  ordered : ∀ key, bytes key ≠ none → key ∈ order := by exact fun _ h => absurd rfl h

def ContentCache.empty : ContentCache := {}

def ContentCache.evict (cache : ContentCache) (key : Key) : ContentCache where
  bytes other := if other = key then none else cache.bytes other
  revisions other := if other = key then none else cache.revisions other
  order := cache.order.filter (· ≠ key)
  ordered other present := by
    by_cases same : other = key
    · exact absurd (if_pos same) present
    · rw [if_neg same] at present
      exact List.mem_filter.mpr ⟨cache.ordered other present, by simpa using same⟩

/-- The caches of one connection and those that outlive it, with the marks that decide what is
fetched again. A listing is given by the names in it. -/
structure Caches where
  authority : String
  epoch : Nat := 0
  dircache : String → Option (List String) := fun _ => none
  listingPrefetchCache : Key → Option (List String) := fun _ => none
  content : ContentCache := .empty
  listingPrefetch : Bool := true
  listingPrefetchDirs : List Key := []
  contentPrefetchDirs : List Key := []
  directWatches : Key → List Nat := fun _ => []

/-- What `file-notify` callbacks are told. -/
inductive Notification where
  | created
  | deleted
  | changed
deriving DecidableEq, Repr

/-- `relay--handle-event` leaves the caches, the directories that are fetched again, and the calls
that are made from timers: the descriptor, what happened, and the local name. -/
structure Handled where
  caches : Caches
  rewarms : List String := []
  notifications : List (Nat × Notification × String) := []

namespace Caches

/-- LOCALDIR itself or what is nested under it, as both evictions decide. -/
def nested (localdir path : String) : Bool :=
  path = localdir || stringPrefixP (fileNameAsDirectory localdir) path

@[simps] def dircacheEvictPrefix (c : Caches) (localdir : String) : Caches :=
  { c with dircache := fun dir => if nested localdir dir then none else c.dircache dir }

@[simps] def contentCacheEvictPrefix (c : Caches) (localdir : String) : Caches :=
  { c with
    content := (c.content.order.filter fun key =>
      key.1 = c.authority && nested localdir key.2).foldl ContentCache.evict c.content }

@[simps] def contentCacheEvictAuthority (c : Caches) : Caches :=
  { c with
    content := (c.content.order.filter (·.1 = c.authority)).foldl ContentCache.evict c.content }

@[simps] def advanceCacheEpoch (c : Caches) : Caches := { c with epoch := c.epoch + 1 }

/-- The listing of DIR is dropped. -/
@[simps] def dropListing (c : Caches) (dir : String) : Caches :=
  { c with dircache := fun other => if other = dir then none else c.dircache other }

/-- All listings are dropped. -/
@[simps] def clearListings (c : Caches) : Caches := { c with dircache := fun _ => none }

@[simps] def listingPopulate (c : Caches) (localdir : String) (entries : List String) : Caches :=
  { c with
    dircache := fun dir => if dir = localdir then some entries else c.dircache dir
    listingPrefetchCache := fun key =>
      if c.listingPrefetch && (c.authority, localdir) ∈ c.listingPrefetchDirs &&
          key = (c.authority, localdir) then some entries
      else c.listingPrefetchCache key }

/-- `relay--prefetch-key-active-p`. -/
def prefetchKeyActive (c : Caches) (dir : String) : Bool :=
  (c.authority, dir) ∈ c.listingPrefetchDirs || (c.authority, dir) ∈ c.contentPrefetchDirs

/-- `relay--rewarm-marked`: the directories it fetches. -/
def rewarmMarked (c : Caches) : List String :=
  ((if c.listingPrefetch then c.listingPrefetchDirs else []) ++ c.contentPrefetchDirs).filter
    (·.1 = c.authority) |>.dedup |>.map (·.2)

/-- The directory is kept warm. -/
def marked (c : Caches) (dir : String) : Bool :=
  (c.listingPrefetch && (c.authority, dir) ∈ c.listingPrefetchDirs) ||
    (c.authority, dir) ∈ c.contentPrefetchDirs

end Caches

def Notification.of : ChangeKind → Notification
  | .created => .created
  | .removed => .deleted
  | .modified => .changed

def handleEvent (c : Caches) (event : FsEvent) : Handled :=
  let c := c.advanceCacheEpoch
  match event with
  | .overflow =>
      let c := c.clearListings.contentCacheEvictAuthority
      { caches := c, rewarms := c.rewarmMarked }
  | .selfChanged localdir =>
      let c := c.dircacheEvictPrefix localdir
      let c := { c with
        listingPrefetchCache := fun key =>
          if key = (c.authority, localdir) then none else c.listingPrefetchCache key }
      let c := c.contentCacheEvictPrefix localdir
      { caches := c
        notifications :=
          (c.directWatches (c.authority, localdir)).map fun d => (d, .changed, localdir) }
  | .changed kind dir name =>
      let localpath := fileNameAsDirectory dir ++ name
      let c := (c.dropListing dir).dircacheEvictPrefix localpath
      let c := c.contentCacheEvictPrefix localpath
      { caches := c
        rewarms := if c.marked dir then [dir] else []
        notifications :=
          (c.directWatches (c.authority, dir)).map fun d => (d, .of kind, localpath) }

/-- All messages of an event are handled. -/
def handleEvents (c : Caches) (events : List FsEvent) : Caches :=
  events.foldl (fun c event => (handleEvent c event).caches) c

end EmacsRelay.RelayPrefetch

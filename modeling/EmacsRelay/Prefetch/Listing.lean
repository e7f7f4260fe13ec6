import EmacsRelay.Lib.Reach
import EmacsRelay.Prefetch.Invalidate

set_option autoImplicit false

/- Listings of one connection, `relay--listing` and `relay--listing-rewarm-async`, with the server's
`readdir` and `watch` and a file system that changes under them. -/
namespace EmacsRelay.RelayPrefetch

open Server

/-- How far a `readdir` has come: the server has not begun; it has, and the directory may have
changed since; its reply is on the way; the reply waits for its callback. -/
inductive Phase where
  | asked
  | reading (changed : Bool)
  | answered (entries : Option (List String))
  | queued (entries : Option (List String))
deriving DecidableEq, Repr

/-- A `readdir` that the client waits for, by blocking or by a callback, with the epoch that was
current when it was sent. -/
structure Fetch where
  dir : String
  epoch : Nat
  blocking : Bool
  phase : Phase := .asked
deriving DecidableEq, Repr

inductive Msg where
  | reply (id : Nat)
  | event (event : FsEvent)
deriving DecidableEq, Repr

/-- The client's caches and requests, the messages in flight, and the server: what a listing of
each path gives, the watch table, and the changed paths its watcher has not reported yet. -/
structure World where
  caches : Caches
  names : String → List String
  nextId : Nat := 0
  fetches : Nat → Option Fetch := fun _ => none
  watches : List String := []
  channel : List Msg := []
  watched : WatchTable := fun _ => none
  unreported : List (ChangeKind × FsPath) := []

namespace World

/-- A connection as it is made: nothing is cached and nothing is watched. -/
def start (c : Caches) (names : String → List String) : World :=
  { caches := c.clearListings, names := names }

@[simps] def setFetch (w : World) (id : Nat) (fetch : Option Fetch) : World :=
  { w with fetches := fun other => if other = id then fetch else w.fetches other }

/-- `relay--readdir-all-async` is called, in the current epoch. -/
def readdir (w : World) (dir : String) (blocking : Bool) : World :=
  { w.setFetch w.nextId (some { dir := dir, epoch := w.caches.epoch, blocking := blocking }) with
    nextId := w.nextId + 1 }

/-- `relay--listing`, up to its wait. An empty listing is as good as none. -/
def listing (w : World) (dir : String) : World :=
  match w.caches.dircache dir with
  | some (_ :: _) => w
  | _ => w.readdir dir true

def listingRewarmAsync (w : World) (dir : String) : World := w.readdir dir false

def install (w : World) (dir : String) (entries : List String) : World :=
  { w with
    caches := w.caches.listingPopulate dir entries
    watches := w.watches ++ [dir] }

/-- What `relay--listing` and the callback of `relay--listing-rewarm-async` do with a reply. -/
def finish (w : World) (id : Nat) : World :=
  match w.fetches id with
  | some { dir, epoch, blocking, phase := .queued entries } =>
      let w := w.setFetch id none
      match entries with
      | none => w
      | some entries =>
          if epoch = w.caches.epoch then
            if blocking || w.caches.prefetchKeyActive dir then w.install dir entries else w
          else if blocking then w.readdir dir true
          else w
  | _ => w

def deliver (w : World) : World :=
  match w.channel with
  | [] => w
  | .reply id :: rest =>
      let w := { w with channel := rest }
      match w.fetches id with
      | some fetch =>
          match fetch.phase with
          | .answered entries => w.setFetch id (some { fetch with phase := .queued entries })
          | _ => w
      | none => w
  | .event event :: rest =>
      let handled := handleEvent w.caches event
      handled.rewarms.foldl listingRewarmAsync
        { w with
          caches := handled.caches
          channel := rest }

def begin (w : World) (id : Nat) : World :=
  match w.fetches id with
  | some fetch =>
      if fetch.phase = .asked then w.setFetch id (some { fetch with phase := .reading false }) else w
  | none => w

/-- The server ends a `readdir`, with what it has seen if the directory changed in between, or
with an error. -/
def answer (w : World) (id : Nat) (seen : List String) (ok : Bool) : World :=
  match w.fetches id with
  | some fetch =>
      match fetch.phase with
      | .reading changed =>
          let entries := if changed then seen else w.names fetch.dir
          { w.setFetch id (some
              { fetch with phase := .answered (if ok then some entries else none) }) with
            channel := w.channel ++ [.reply id] }
      | _ => w
  | none => w

def execWatch (w : World) (index : Nat) (canon : String) (watcher : Watching) : World :=
  match w.watches[index]? with
  | some dir =>
      { w with
        watches := w.watches.eraseIdx index
        watched := (watch w.watched dir canon watcher).1 }
  | none => w

def change (w : World) (names : String → List String) (paths : List (ChangeKind × FsPath)) : World :=
  { w with
    names := names
    unreported := w.unreported ++ paths
    fetches := fun id => (w.fetches id).map fun fetch =>
      match fetch.phase with
      | .reading changed =>
          { fetch with phase := .reading (changed || names fetch.dir != w.names fetch.dir) }
      | _ => fetch }

def report (w : World) : World :=
  match w.unreported with
  | [] => w
  | (kind, p) :: rest =>
      { w with
        unreported := rest
        channel := w.channel ++ (pathEvents w.watched kind p).map .event }

end World

inductive Happening where
  | listing (dir : String)
  | rewarm (dir : String)
  | finish (id : Nat)
  | giveUp (id : Nat)
  | deliver
  | begin (id : Nat)
  | answer (id : Nat) (seen : List String) (ok : Bool)
  | watch (index : Nat) (canon : String) (watcher : Watching)
  | change (names : String → List String) (paths : List (ChangeKind × FsPath))
  | report
  | overflow

def World.step (w : World) : Happening → World
  | .listing dir => w.listing dir
  | .rewarm dir => w.listingRewarmAsync dir
  | .finish id => w.finish id
  | .giveUp id => w.setFetch id none
  | .deliver => w.deliver
  | .begin id => w.begin id
  | .answer id seen ok => w.answer id seen ok
  | .watch index canon watcher => w.execWatch index canon watcher
  | .change names paths => w.change names paths
  | .report => w.report
  | .overflow => { w with channel := w.channel ++ [.event .overflow] }

/-- What is assumed of the watcher: it notices each change in a directory that the server has
been asked to watch. -/
def Noticed (w : World) : Happening → Prop
  | .change names paths => ∀ canon, ∀ dir ∈ w.watched.aliases canon, names dir ≠ w.names dir →
      ∃ change ∈ paths, change.2.parent.map FsPath.render = some canon
  | _ => True

/-- Nothing that concerns DIR is in flight. -/
structure Quiet (w : World) (dir : String) : Prop where
  fetches : ∀ id fetch, w.fetches id = some fetch → fetch.dir ≠ dir
  watches : dir ∉ w.watches
  channel : ∀ event, .event event ∈ w.channel → evictsListing dir event = false
  unreported : ∀ change ∈ w.unreported, ∀ q, change.2.parent = some q →
    dir ∉ w.watched.aliases q.render

/-- A listing that is cached while nothing is in flight is what the directory holds. -/
def UpToDate (w : World) : Prop :=
  ∀ dir entries, Quiet w dir → w.caches.dircache dir = some entries → entries ≠ [] →
    entries = w.names dir

end EmacsRelay.RelayPrefetch

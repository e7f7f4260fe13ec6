import EmacsRelay.Prefetch.Registry

set_option autoImplicit false

/- Contents of files that are cached, `lisp/relay-content-prefetch.el`: by prefetch, by saves and by
adopting what a conflict was found with, beside the listings and watches of the connection, while
the files change on the server. -/
namespace EmacsRelay.RelayPrefetch

open Server

/-- What a request for contents is for: `relay--content-prefetch-warm`, a look at what the server
has, by `relay-conflict--fetch`, or a visited save. -/
inductive Intent where
  | warm
  | inspect
  | save (bytes : String)
deriving DecidableEq, Repr

/-- Bytes, with the revision that came with them. -/
abbrev Snapshot := String × Option String

/-- How far a request has come: the server has not executed it; it has begun to read, and the
bytes may have changed since, or it has written; its reply is on the way; the reply waits for its
callback, or for the function that blocks. -/
inductive Progress where
  | asked
  | executed (changed : Bool)
  | answered (reply : Option Snapshot)
  | queued (reply : Option Snapshot)
deriving DecidableEq, Repr

structure Errand where
  path : String
  intent : Intent
  blocking : Bool
  progress : Progress := .asked
deriving DecidableEq, Repr

/-- The client with its connection and the server, the files on it, the requests for contents, and
what the conflicts of buffers keep as REMOTE. The client does not have `looks`: what the server
told of each file when the REMOTE that is kept was asked for. -/
structure Stock where
  caps : Caps := {}
  world : World
  contents : String → Option String
  errands : Nat → Option Errand := fun _ => none
  remotes : String → Option Snapshot := fun _ => none
  looks : String → Option String := fun _ => none
  direct : DirectWatches := {}
  unwatches : List String := []

namespace Stock

/-- Nothing is cached and nothing has been asked. -/
def start (caps : Caps) (c : Caches) (names : String → List String)
    (contents : String → Option String) : Stock where
  caps := caps
  world := World.start { c with content := .empty } names
  contents := contents

def key (w : Stock) (path : String) : Key := (w.world.caches.authority, path)

/-- What `relay--h-insert-file-contents` takes from the cache at an initial visit: bytes that have
a revision. -/
def cached (w : Stock) (path : String) : Option String :=
  if (w.world.caches.content.revisions (w.key path)).isSome then
    w.world.caches.content.bytes (w.key path)
  else none

/-- What the visit inserts when it asks the server: nothing for a file that does not exist. -/
def current (w : Stock) (path : String) : String := (w.contents path).getD ""

@[simps] def setContent (w : Stock) (content : ContentCache) : Stock :=
  { w with world := { w.world with caches := { w.world.caches with content := content } } }

@[simps] def setErrand (w : Stock) (id : Nat) (errand : Option Errand) : Stock :=
  { w with errands := fun other => if other = id then errand else w.errands other }

/-- `relay--content-cache-put`. -/
def put (w : Stock) (path : String) (snapshot : Snapshot) : Stock :=
  w.setContent (w.world.caches.content.put w.caps (w.key path) snapshot.1 snapshot.2)

/-- `relay--content-cache-get`. -/
def touch (w : Stock) (path : String) : Stock :=
  w.setContent (w.world.caches.content.touch (w.key path))

/-- A request is sent. -/
def ask (w : Stock) (path : String) (intent : Intent) (blocking : Bool) : Stock :=
  { w.setErrand w.world.nextId (some ⟨path, intent, blocking, .asked⟩) with
    world := { w.world with nextId := w.world.nextId + 1 } }

/-- What `relay--content-prefetch-warm` does with one file. -/
def warmFile (dir : String) (w : Stock) (name : String) : Stock :=
  let path := fileNameAsDirectory dir ++ name
  if (w.world.caches.content.bytes (w.key path)).isSome then w.touch path
  else w.ask path .warm false

/-- `relay--content-prefetch-warm`, with the names it takes as eligible. -/
def contentPrefetchWarm (eligible : String → Bool) (w : Stock) (dir : String) : Stock :=
  let already := w.world.caches.content.dirCount w.world.caches.authority dir
  let budget := w.caps.perDirLimit - already
  ((((w.world.caches.dircache dir).getD []).filter eligible).take budget).foldl (warmFile dir) w

/-- What the conflict machinery does with REMOTE: it becomes BASE and is cached, it is kept for
`keep-remote`, or neither. -/
inductive Remote where
  | install
  | keep
  | drop
deriving DecidableEq, Repr

/-- What is put in the cache when a reply is used. -/
def stored (intent : Intent) (reply : Option Snapshot) (use : Remote) : Option Snapshot :=
  match intent, reply with
  | .warm, some snapshot => some snapshot
  | .inspect, some snapshot => if use = .install then some snapshot else none
  | .save bytes, some (_, revision) => some (bytes, revision)
  | _, none => none

/-- REMOTE as a conflict keeps it. -/
def keepRemote (w : Stock) (path : String) (remote : Snapshot) : Stock :=
  { w with remotes := fun other => if other = path then some remote else w.remotes other }

/-- A look that fails finds no file. -/
def noteLook (w : Stock) (path : String) (reply : Option Snapshot) : Stock :=
  let bytes := (reply.map Prod.fst).getD ""
  { w with looks := fun other => if other = path then some bytes else w.looks other }

/-- The callback of a request is run, or the function that blocks goes on. A look that fails finds
the file gone. -/
def finish (w : Stock) (id : Nat) (use : Remote) : Stock :=
  match w.errands id with
  | some errand =>
      match errand.progress with
      | .queued reply =>
          let w := w.setErrand id none
          match stored errand.intent reply use with
          | some snapshot => w.put errand.path snapshot
          | none =>
              if errand.intent = .inspect && use = .keep then
                (w.keepRemote errand.path (reply.getD ("", some "missing"))).noteLook
                  errand.path reply
              else w
      | _ => w
  | none => w

def adoptRemote (w : Stock) (path : String) : Stock :=
  match w.remotes path with
  | some remote =>
      { w with remotes := fun other => if other = path then none else w.remotes other }.put
        path remote
  | none => w

/-- A request is waited for no longer. A reply that has reached a callback still counts. -/
def giveUp (w : Stock) (id : Nat) : Stock :=
  match w.errands id with
  | some { blocking := false, progress := .queued _, .. } => w
  | _ => w.setErrand id none

def begin (w : Stock) (id : Nat) : Stock :=
  match w.errands id with
  | some errand =>
      match errand.intent, errand.progress with
      | .save _, _ => w
      | _, .asked => w.setErrand id (some { errand with progress := .executed false })
      | _, _ => w
  | none => w

/-- Files and directories change, while some are being read. -/
def change (w : Stock) (contents : String → Option String) (names : String → List String)
    (paths : List (ChangeKind × FsPath)) : Stock :=
  { w with
    world := w.world.change names paths
    contents := contents
    errands := fun id => (w.errands id).map fun errand =>
      match errand.progress with
      | .executed changed =>
          { errand with
            progress := .executed (changed || contents errand.path != w.contents errand.path) }
      | _ => errand }

/-- The server writes for a save: the file has its bytes then, as others may under whose names it
goes too. -/
def publish (w : Stock) (id : Nat) (contents : String → Option String)
    (names : String → List String) (paths : List (ChangeKind × FsPath)) : Stock :=
  match w.errands id with
  | some { path, intent := .save bytes, blocking, progress := .asked } =>
      if contents path = some bytes then
        (w.change contents names paths).setErrand id
          (some ⟨path, .save bytes, blocking, .executed false⟩)
      else w
  | _ => w

/-- What the server replies to a request that it has executed: to a read, the bytes, or what it has
seen of them if they changed in between. -/
def reply (w : Stock) (errand : Errand) (changed : Bool) (seen : String)
    (revision : Option String) : Option Snapshot :=
  match errand.intent with
  | .save bytes => some (bytes, revision)
  | _ => if changed then some (seen, revision) else (w.contents errand.path).map (·, revision)

/-- The server ends a request, with an error if not OK. -/
def answer (w : Stock) (id : Nat) (seen : String) (revision : Option String) (ok : Bool) : Stock :=
  match w.errands id with
  | some errand =>
      match errand.progress with
      | .executed changed =>
          let reply := if ok then w.reply errand changed seen revision else none
          let w := w.setErrand id (some { errand with progress := .answered reply })
          { w with world := { w.world with channel := w.world.channel ++ [.reply id] } }
      | _ => w
  | none => w

def arrive (w : Stock) (id : Nat) : Stock :=
  match w.errands id with
  | some errand =>
      match errand.progress with
      | .answered reply => w.setErrand id (some { errand with progress := .queued reply })
      | _ => w
  | none => w

def deliver (w : Stock) : Stock :=
  let taken := { w with world := w.world.deliver }
  match w.world.channel with
  | .reply id :: _ => taken.arrive id
  | _ => taken

/-- The connection is lost, and another one is made. Requests under way fail, but replies that have
reached their callbacks; the contents stay cached. -/
def reconnect (w : Stock) : Stock :=
  { w with
    world := { World.start { w.world.caches with epoch := 0 } w.world.names with
      nextId := w.world.nextId }
    errands := fun id => (w.errands id).filter fun errand =>
      match errand.progress with
      | .queued _ => !errand.blocking
      | _ => false
    unwatches := [] }

def rmWatch (w : Stock) (descriptor : Nat) : Stock :=
  let removed := { w with direct := w.direct.remove descriptor }
  match w.direct.emptied descriptor with
  | some localdir =>
      match w.world.caches.dircache localdir with
      | some (_ :: _) => removed
      | _ => { removed with unwatches := w.unwatches ++ [localdir] }
  | none => removed

/-- `"unwatch"` of `handle_ctl`, where the path is found among the aliases of ENTRY. -/
def execUnwatch (w : Stock) (index : Nat) (entry : String) : Stock :=
  match w.unwatches[index]? with
  | some dir =>
      let aliases := (w.world.watched.aliases entry).erase dir
      { w with
        unwatches := w.unwatches.eraseIdx index
        world := { w.world with
          watched := fun key =>
            if key = entry && dir ∈ w.world.watched.aliases entry then
              if aliases = [] then none else some aliases
            else w.world.watched key } }
  | none => w

/-- Contents of another authority are cached, within the same limits. -/
def putElsewhere (w : Stock) (other : Key) (snapshot : Snapshot) : Stock :=
  if other.1 = w.world.caches.authority then w
  else w.setContent (w.world.caches.content.put w.caps other snapshot.1 snapshot.2)

end Stock

inductive Move where
  | visit (path : String)
  | warm (eligible : String → Bool) (dir : String)
  | inspect (path : String) (blocking : Bool)
  | save (path bytes : String) (blocking : Bool)
  | finish (id : Nat) (use : Stock.Remote)
  | adoptRemote (path : String)
  | giveUp (id : Nat)
  | begin (id : Nat)
  | publish (id : Nat) (contents : String → Option String) (names : String → List String)
      (paths : List (ChangeKind × FsPath))
  | answer (id : Nat) (seen : String) (revision : Option String) (ok : Bool)
  | change (contents : String → Option String) (names : String → List String)
      (paths : List (ChangeKind × FsPath))
  | deliver
  | reconnect
  /-- A `watch` is sent: by `file-notify-add-watch`, or on a new connection. -/
  | watch (dir : String)
  | added (localdir : String) (descriptor : Nat)
  | rmWatch (descriptor : Nat)
  | execWatch (index : Nat) (canon : String) (watcher : Watching)
  | execUnwatch (index : Nat) (entry : String)
  | report
  | overflow
  | listing (dir : String)
  | rewarm (dir : String)
  | listed (id : Nat)
  | unlisted (id : Nat)
  | beginListing (id : Nat)
  | answerListing (id : Nat) (seen : List String) (ok : Bool)
  | putElsewhere (other : Key) (snapshot : Snapshot)

namespace Stock

/-- Something happens to the listings, or to the server's watches. -/
@[simps] def around (w : Stock) (happening : Happening) : Stock :=
  { w with world := w.world.step happening }

def step (w : Stock) : Move → Stock
  | .visit path => w.touch path
  | .warm eligible dir => w.contentPrefetchWarm eligible dir
  | .inspect path blocking => w.ask path .inspect blocking
  | .save path bytes blocking => w.ask path (.save bytes) blocking
  | .finish id use => w.finish id use
  | .adoptRemote path => w.adoptRemote path
  | .giveUp id => w.giveUp id
  | .begin id => w.begin id
  | .publish id contents names paths => w.publish id contents names paths
  | .answer id seen revision ok => w.answer id seen revision ok
  | .change contents names paths => w.change contents names paths
  | .deliver => w.deliver
  | .reconnect => w.reconnect
  | .watch dir => { w with world := { w.world with watches := w.world.watches ++ [dir] } }
  | .added localdir descriptor => { w with direct := w.direct.add localdir descriptor }
  | .rmWatch descriptor => w.rmWatch descriptor
  | .execWatch index canon watcher => w.around (.watch index canon watcher)
  | .execUnwatch index entry => w.execUnwatch index entry
  | .report => w.around .report
  | .overflow => w.around .overflow
  | .listing dir => w.around (.listing dir)
  | .rewarm dir => w.around (.rewarm dir)
  | .listed id => w.around (.finish id)
  | .unlisted id => w.around (.giveUp id)
  | .beginListing id => w.around (.begin id)
  | .answerListing id seen ok => w.around (.answer id seen ok)
  | .putElsewhere other snapshot => w.putElsewhere other snapshot

end Stock

/-- An event that drops the contents of PATH is on the way. -/
def World.Owes (w : World) (path : String) : Prop :=
  (∃ event, .event event ∈ w.channel ∧ evictsContent path event = true) ∨
    ∃ change ∈ w.unreported, ∃ event ∈ pathEvents w.watched change.1 change.2,
      evictsContent path event = true

/-- What is assumed of the watcher: of each change in a directory that the server was asked to
watch, under whatever name, it notices the file or the directory. -/
def Noticing (w : Stock) (contents : String → Option String) (paths : List (ChangeKind × FsPath)) :
    Prop :=
  ∀ canon, ∀ dir ∈ w.world.watched.aliases canon, ∀ name : String, '/' ∉ name.toList →
    contents (fileNameAsDirectory dir ++ name) ≠ w.contents (fileNameAsDirectory dir ++ name) →
    ∃ change ∈ paths, change.2.render = canon ∨
      (change.2.parent.map FsPath.render = some canon ∧ change.2.fileName = some name)

def Watchful (w : Stock) : Move → Prop
  | .change contents _ paths => Noticing w contents paths
  | .publish _ contents _ paths => Noticing w contents paths
  | _ => True

/-- Nothing that concerns PATH is in flight, and the client does not wait for a request. -/
structure Stock.AtRest (w : Stock) (path : String) : Prop where
  replies : ∀ id errand, w.errands id = some errand → errand.path = path →
    (∀ bytes, errand.intent ≠ .save bytes) → ∀ reply, errand.progress ≠ .answered reply ∧
      errand.progress ≠ .queued reply
  idle : ∀ id errand, w.errands id = some errand → errand.blocking = false
  events : ¬ w.world.Owes path

/-- What a visit is served from the cache, while nothing for the file is in flight, is what the
file holds. -/
def ServedCurrent (w : Stock) : Prop :=
  ∀ path bytes, w.AtRest path → w.cached path = some bytes → bytes = w.current path

end EmacsRelay.RelayPrefetch

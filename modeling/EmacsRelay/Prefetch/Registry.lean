import EmacsRelay.Prefetch.Mutate
import EmacsRelay.Prefetch.Warm

set_option autoImplicit false

/- Which directories the server is asked to watch over successive connections to an authority:
those with cached listings, and those with direct watches, `lisp/relay-file-handler.el` and
`lisp/relay-core.el`. -/
namespace EmacsRelay.RelayPrefetch

open Server

/-- A `watch` or an `unwatch`, as it is sent. -/
inductive WatchRequest where
  | watch (dir : String)
  | unwatch (dir : String)
deriving DecidableEq, Repr

def WatchRequest.dir : WatchRequest → String
  | watch dir => dir
  | unwatch dir => dir

/-- `relay--direct-watches`, for one authority. Every directory with watches has been put. -/
structure DirectWatches where
  watchers : String → List Nat := fun _ => []
  dirs : List String := []
  listed : ∀ dir, watchers dir ≠ [] → dir ∈ dirs := by exact fun _ h => absurd rfl h

namespace DirectWatches

/-- `relay--direct-watch-add`. -/
@[simps] def add (d : DirectWatches) (localdir : String) (descriptor : Nat) : DirectWatches where
  watchers dir := if dir = localdir then descriptor :: d.watchers dir else d.watchers dir
  dirs := if localdir ∈ d.dirs then d.dirs else d.dirs ++ [localdir]
  listed dir watched := by
    by_cases same : dir = localdir
    · subst same
      by_cases known : dir ∈ d.dirs
      · simp [known]
      · simp [known]
    · rw [if_neg same] at watched
      have known := d.listed dir watched
      split
      · exact known
      · exact List.mem_append_left _ known

/-- What `relay--direct-watch-remove` leaves. -/
@[simps] def remove (d : DirectWatches) (descriptor : Nat) : DirectWatches where
  watchers dir := (d.watchers dir).filter (· ≠ descriptor)
  dirs := d.dirs
  listed dir watched := by
    apply d.listed
    intro empty
    apply watched
    rw [empty]
    rfl

/-- What `relay--direct-watch-remove` returns: the directory whose last watch it was. -/
def emptied (d : DirectWatches) (descriptor : Nat) : Option String :=
  (d.dirs.filter fun dir =>
    descriptor ∈ d.watchers dir ∧ (d.watchers dir).filter (· ≠ descriptor) = []).getLast?

end DirectWatches

/-- A `relay-conn`: whether its process runs, whether its hello has been verified, its epoch and its
listings, and what was sent on it about watches. -/
structure Link where
  live : Bool := false
  ready : Bool := false
  epoch : Nat := 0
  dircache : String → Option (List String) := fun _ => none
  sent : List WatchRequest := []

/-- What a request is for: `relay--listing`, `relay--listing-rewarm-async`, or the validation of a
listing that has outlived its connection. -/
inductive Aim where
  | listing
  | rewarm
  | validate (entries : List String)
deriving DecidableEq, Repr

structure Lookup where
  conn : Nat
  dir : String
  epoch : Nat
  aim : Aim
deriving DecidableEq, Repr

/-- A `file-notify-add-watch` that waits, and the place of its message among those sent. -/
structure Adding where
  conn : Nat
  dir : String
  place : Nat
deriving DecidableEq, Repr

/-- The connections to an authority, numbered from 1 on, and what they share. -/
structure Registry where
  shared : Caches
  links : Nat → Link := fun _ => {}
  latest : Nat := 0
  direct : DirectWatches := {}
  nextDescriptor : Nat := 0
  nextId : Nat := 0
  lookups : Nat → Option Lookup := fun _ => none
  addings : Nat → Option Adding := fun _ => none

namespace Registry

@[simps] def setLink (s : Registry) (k : Nat) (link : Link) : Registry :=
  { s with links := fun i => if i = k then link else s.links i }

/-- The caches as connection `k` has them. -/
@[simps] def caches (s : Registry) (k : Nat) : Caches :=
  { s.shared with
    epoch := (s.links k).epoch
    dircache := (s.links k).dircache }

@[simps!] def setCaches (s : Registry) (k : Nat) (c : Caches) : Registry :=
  { s.setLink k { s.links k with
      epoch := c.epoch
      dircache := c.dircache } with shared := c }

/-- A message is sent, if the process runs. -/
def post (s : Registry) (k : Nat) (message : WatchRequest) : Registry :=
  if (s.links k).live then
    s.setLink k { s.links k with sent := (s.links k).sent ++ [message] }
  else s

/-- A request is sent, if the process runs. -/
def ask (s : Registry) (k : Nat) (dir : String) (aim : Aim) : Registry :=
  if (s.links k).live then
    { s with
      nextId := s.nextId + 1
      lookups := fun id => if id = s.nextId then some ⟨k, dir, (s.links k).epoch, aim⟩
        else s.lookups id }
  else s

@[simps] def forget (s : Registry) (id : Nat) : Registry :=
  { s with
    lookups := fun other => if other = id then none else s.lookups other
    addings := fun other => if other = id then none else s.addings other }

/-- `relay--connection`: a new process, where none runs. -/
def connect (s : Registry) : Registry :=
  if (s.links s.latest).live then s
  else { s.setLink (s.latest + 1) { live := true } with latest := s.latest + 1 }

/-- What `relay--revalidate-marked-on-connect` sends for one directory. -/
def revalidate (k : Nat) (s : Registry) (dir : String) : Registry :=
  match s.shared.listingPrefetchCache (s.shared.authority, dir) with
  | none => s.ask k dir .rewarm
  | some entries => s.ask k dir (.validate entries)

/-- `relay--revalidate-marked-on-connect`. -/
def revalidateMarkedOnConnect (s : Registry) (k : Nat) : Registry :=
  ((s.shared.listingPrefetchDirs ++ s.shared.contentPrefetchDirs).filter
    (·.1 = s.shared.authority) |>.dedup |>.map (·.2)).foldl (revalidate k) s

/-- `relay--rewatch-direct-on-connect`. -/
def rewatchDirectOnConnect (s : Registry) (k : Nat) : Registry :=
  (s.direct.dirs.filter fun dir => s.direct.watchers dir ≠ []).foldl
    (fun s dir => s.post k (.watch dir)) s

/-- The hello of a connection is verified. -/
def hello (s : Registry) (k : Nat) : Registry :=
  if (s.links k).live && !(s.links k).ready then
    ((s.setLink k { s.links k with ready := true }).revalidateMarkedOnConnect
      k).rewatchDirectOnConnect k
  else s

/-- `relay--listing`, up to its wait. -/
def listing (s : Registry) (k : Nat) (dir : String) : Registry :=
  match (s.links k).dircache dir with
  | some (_ :: _) => s
  | _ => s.ask k dir .listing

def rewarm (k : Nat) (s : Registry) (dir : String) : Registry := s.ask k dir .rewarm

/-- `relay--listing-populate`. -/
def populate (s : Registry) (k : Nat) (dir : String) (entries : List String) : Registry :=
  s.setCaches k ((s.caches k).listingPopulate dir entries)

/-- What `relay--listing` and the callback of `relay--listing-rewarm-async` do with a reply. The
former asks for the watch first, and goes no further when that fails. -/
def finish (s : Registry) (id : Nat) (entries : List String) : Registry :=
  match s.lookups id with
  | some ⟨k, dir, epoch, .listing⟩ =>
      let s := s.forget id
      if epoch ≠ (s.links k).epoch then s.ask k dir .listing
      else if (s.links k).live then (s.post k (.watch dir)).populate k dir entries
      else s
  | some ⟨k, dir, epoch, .rewarm⟩ =>
      let s := s.forget id
      if epoch = (s.links k).epoch && (s.caches k).prefetchKeyActive dir then
        (s.populate k dir entries).post k (.watch dir)
      else s
  | _ => s

/-- The reply to a `stat` of `relay--revalidate-marked-on-connect`: whether it has the key that the
listing was stored with. -/
def validated (s : Registry) (id : Nat) (same : Bool) : Registry :=
  match s.lookups id with
  | some ⟨k, dir, epoch, .validate entries⟩ =>
      let s := s.forget id
      if epoch = (s.links k).epoch && (s.caches k).prefetchKeyActive dir then
        if same then
          (s.setLink k { s.links k with
            dircache := fun other =>
              if other = dir then some entries else (s.links k).dircache other }).post k (.watch dir)
        else s.ask k dir .rewarm
      else s
  | _ => s

/-- `relay--handle-event`. -/
def handle (s : Registry) (k : Nat) (event : FsEvent) : Registry :=
  let handled := handleEvent (s.caches k) event
  handled.rewarms.foldl (rewarm k) (s.setCaches k handled.caches)

/-- `relay--prefetch-apply-active-profiles`. -/
def applyActiveProfiles (s : Registry) (active : List Profile) : Registry :=
  let c := (Warmth.applyActiveProfiles { caches := s.caches s.latest } active).caches
  c.rewarmMarked.foldl (rewarm s.latest) (s.setCaches s.latest c)

/-- `relay--h-file-notify-add-watch`, up to its wait. -/
def addWatch (s : Registry) (localdir : String) : Registry :=
  if (s.links s.latest).live then
    { s.post s.latest (.watch localdir) with
      nextId := s.nextId + 1
      addings := fun id =>
        if id = s.nextId then some ⟨s.latest, localdir, (s.links s.latest).sent.length⟩
        else s.addings id }
  else s

/-- `relay--h-file-notify-add-watch`, from its reply on. -/
def added (s : Registry) (id : Nat) : Registry :=
  match s.addings id with
  | some adding =>
      { s.forget id with
        direct := s.direct.add adding.dir (s.nextDescriptor + 1)
        nextDescriptor := s.nextDescriptor + 1 }
  | none => s

/-- `relay--h-file-notify-rm-watch`. -/
def rmWatch (s : Registry) (descriptor : Nat) : Registry :=
  let removed := { s with direct := s.direct.remove descriptor }
  match s.direct.emptied descriptor with
  | some localdir =>
      match (s.links s.latest).dircache localdir with
      | some (_ :: _) => removed
      | _ => removed.post s.latest (.unwatch localdir)
  | none => removed

end Registry

inductive Doing where
  | connect
  | hello (k : Nat)
  /-- The process of a connection ends. -/
  | die (k : Nat)
  | listing (k : Nat) (dir : String)
  | rewarm (k : Nat) (dir : String)
  | finish (id : Nat) (entries : List String)
  | validated (id : Nat) (same : Bool)
  /-- A request fails, or is waited for no longer. -/
  | abandon (id : Nat)
  | event (k : Nat) (event : FsEvent)
  | mutate (k : Nat) (caps : Caps) (mutation : Mutation)
  /-- `dired-uncache`. -/
  | uncache (k : Nat) (dir : String)
  /-- Directories are marked and unmarked, and prefetch of listings is switched on or off. -/
  | mark (listingPrefetch : Bool) (listing content : List Key)
  | profiles (active : List Profile)
  | addWatch (localdir : String)
  | added (id : Nat)
  | rmWatch (descriptor : Nat)

namespace Registry

def step (s : Registry) : Doing → Registry
  | .connect => s.connect
  | .hello k => s.hello k
  | .die k => s.setLink k { s.links k with live := false }
  | .listing k dir => s.listing k dir
  | .rewarm k dir => rewarm k s dir
  | .finish id entries => s.finish id entries
  | .validated id same => s.validated id same
  | .abandon id => s.forget id
  | .event k event => s.handle k event
  | .mutate k caps mutation => s.setCaches k (mutation.complete caps (s.caches k))
  | .uncache k dir => s.setCaches k ((s.caches k).dropListing dir)
  | .mark listingPrefetch listing content =>
      { s with
        shared := { s.shared with
          listingPrefetch := listingPrefetch
          listingPrefetchDirs := listing
          contentPrefetchDirs := content } }
  | .profiles active => s.applyActiveProfiles active
  | .addWatch localdir => s.addWatch localdir
  | .added id => s.added id
  | .rmWatch descriptor => s.rmWatch descriptor

/-- A watch is registered only when no `unwatch` of its directory has been sent since it was asked
for, and no other connection has become ready. -/
def Undisturbed (s : Registry) : Doing → Prop
  | .added id => ∀ adding, s.addings id = some adding →
      if adding.conn = s.latest then
        .unwatch adding.dir ∉ (s.links s.latest).sent.drop (adding.place + 1)
      else ((s.links s.latest).live && (s.links s.latest).ready) = false
  | _ => True

end Registry

/-- The last message about a directory. -/
def lastRequest (sent : List WatchRequest) (dir : String) : Option WatchRequest :=
  sent.reverse.find? (·.dir = dir)

/-- The server was last asked to watch the directory. -/
def Link.Watched (link : Link) (dir : String) : Prop :=
  lastRequest link.sent dir = some (.watch dir)

section Requests

variable {sent : List WatchRequest} {dir : String}

theorem lastRequest_append (sent : List WatchRequest) (message : WatchRequest) (dir : String) :
    lastRequest (sent ++ [message]) dir =
      if message.dir = dir then some message else lastRequest sent dir := by
  unfold lastRequest
  rw [List.reverse_append, List.reverse_singleton, List.singleton_append, List.find?_cons]
  by_cases same : message.dir = dir
  · simp [same]
  · simp [same]

/-- Messages that ask for watches take none back. -/
theorem lastRequest_watches (watched : lastRequest sent dir = some (.watch dir))
    (dirs : List String) :
    lastRequest (sent ++ dirs.map .watch) dir = some (.watch dir) := by
  induction dirs generalizing sent with
  | nil => simpa using watched
  | cons other dirs ih =>
      rw [List.map_cons, ← List.singleton_append, ← List.append_assoc]
      apply ih
      rw [lastRequest_append]
      by_cases same : other = dir
      · simp [WatchRequest.dir, same]
      · simpa [WatchRequest.dir, same] using watched

/-- The watch that was asked for at some place stands as long as none is taken back. -/
theorem lastRequest_of_place {place : Nat} (asked : sent[place]? = some (.watch dir))
    (kept : .unwatch dir ∉ sent.drop (place + 1)) :
    lastRequest sent dir = some (.watch dir) := by
  have found : sent.take (place + 1) = sent.take place ++ [.watch dir] := by
    rw [List.take_add_one, asked]
    rfl
  have first : lastRequest (sent.take (place + 1)) dir = some (.watch dir) := by
    rw [found, lastRequest_append]
    exact if_pos rfl
  have rest : ∀ later : List WatchRequest, .unwatch dir ∉ later →
      ∀ before, lastRequest before dir = some (.watch dir) →
        lastRequest (before ++ later) dir = some (.watch dir) := by
    intro later
    induction later with
    | nil =>
        intro _ before watched
        rwa [List.append_nil]
    | cons message later ih =>
        intro none_back before watched
        rw [List.mem_cons, not_or] at none_back
        rw [← List.singleton_append, ← List.append_assoc]
        apply ih none_back.2
        rw [lastRequest_append]
        by_cases same : message.dir = dir
        · rw [if_pos same]
          cases message with
          | watch other => rw [← same]; rfl
          | unwatch other => exact absurd (same ▸ rfl) none_back.1
        · rwa [if_neg same]
  have whole := rest _ kept _ first
  rwa [List.take_append_drop] at whole

end Requests

/-- Cached directories are registered on the one connection that is up, and the requests that
direct watches wait for have been sent. -/
structure Listed (s : Registry) : Prop where
  single : ∀ k, (s.links k).live = true → k = s.latest
  listed : ∀ k dir entries, (s.links k).live = true → (s.links k).dircache dir = some entries →
    entries ≠ [] → (s.links k).Watched dir
  known : ∀ id adding, s.addings id = some adding → adding.conn ≤ s.latest
  asked : ∀ id adding, s.addings id = some adding →
    (s.links adding.conn).sent[adding.place]? = some (.watch adding.dir)

/-- And so are directories with direct watches, once the connection is ready. -/
structure Registered (s : Registry) : Prop extends Listed s where
  direct : ∀ k dir, (s.links k).live = true → (s.links k).ready = true →
    s.direct.watchers dir ≠ [] → (s.links k).Watched dir

/-- Some listings are dropped and some watches asked for, the latter for all listings that are
new. -/
structure Settles (s s' : Registry) : Prop where
  latest : s'.latest = s.latest
  direct : s'.direct = s.direct
  addings : ∀ id adding, s'.addings id = some adding → s.addings id = some adding
  live : ∀ k, (s'.links k).live = (s.links k).live
  ready : ∀ k, (s'.links k).ready = (s.links k).ready
  sent : ∀ k, ∃ dirs : List String, (s'.links k).sent = (s.links k).sent ++ dirs.map .watch
  listings : ∀ k dir entries, (s.links k).live = true →
    (s'.links k).dircache dir = some entries →
    (s.links k).dircache dir = some entries ∨ (s'.links k).Watched dir

namespace Settles

variable {s s' s'' : Registry}

theorem refl : Settles s s where
  latest := rfl
  direct := rfl
  addings _ _ same := same
  live _ := rfl
  ready _ := rfl
  sent _ := ⟨[], by simp⟩
  listings _ _ _ _ found := .inl found

theorem watched (settles : Settles s s') {k : Nat} {dir : String}
    (watched : (s.links k).Watched dir) : (s'.links k).Watched dir := by
  obtain ⟨dirs, sent⟩ := settles.sent k
  unfold Link.Watched
  rw [sent]
  exact lastRequest_watches watched dirs

theorem trans (first : Settles s s') (second : Settles s' s'') : Settles s s'' where
  latest := second.latest.trans first.latest
  direct := second.direct.trans first.direct
  addings id adding same := first.addings id adding (second.addings id adding same)
  live k := (second.live k).trans (first.live k)
  ready k := (second.ready k).trans (first.ready k)
  sent k := by
    obtain ⟨dirs, one⟩ := first.sent k
    obtain ⟨more, two⟩ := second.sent k
    refine ⟨dirs ++ more, ?_⟩
    rw [two, one, List.map_append, List.append_assoc]
  listings k dir entries live found := by
    rcases second.listings k dir entries (by rwa [first.live]) found with kept | watched
    · rcases first.listings k dir entries live kept with kept | watched
      · exact .inl kept
      · exact .inr (second.watched watched)
    · exact .inr watched

theorem foldl {α : Type} {f : Registry → α → Registry} (each : ∀ s a, Settles s (f s a))
    (as : List α) : Settles s (as.foldl f s) := by
  induction as generalizing s with
  | nil => exact .refl
  | cons a as ih => exact (each s a).trans ih

theorem keeps (settles : Settles s s') (before : Listed s) : Listed s' where
  single k live := by
    rw [settles.latest]
    exact before.single k (by rwa [← settles.live])
  listed k dir entries live found filled := by
    rw [settles.live] at live
    rcases settles.listings k dir entries live found with kept | watched
    · exact settles.watched (before.listed k dir entries live kept filled)
    · exact watched
  known id adding found := by
    rw [settles.latest]
    exact before.known id adding (settles.addings id adding found)
  asked id adding found := by
    have asked := before.asked id adding (settles.addings id adding found)
    obtain ⟨dirs, sent⟩ := settles.sent adding.conn
    rw [sent, List.getElem?_append_left]
    · exact asked
    · exact (List.getElem?_eq_some_iff.mp asked).1

theorem registered (settles : Settles s s') (before : Registered s) : Registered s' where
  toListed := settles.keeps before.toListed
  direct k dir live ready some_watch := by
    rw [settles.live] at live
    rw [settles.ready] at ready
    rw [settles.direct] at some_watch
    exact settles.watched (before.direct k dir live ready some_watch)

end Settles

section Settling

variable {s : Registry} {k : Nat}

/-- One connection settles and nothing else changes that counts. -/
theorem settles_of_link {s' : Registry} (k : Nat) (link : Link) (latest : s'.latest = s.latest)
    (direct : s'.direct = s.direct)
    (addings : ∀ id adding, s'.addings id = some adding → s.addings id = some adding)
    (links : ∀ i, s'.links i = if i = k then link else s.links i)
    (live : link.live = (s.links k).live) (ready : link.ready = (s.links k).ready)
    (sent : ∃ dirs : List String, link.sent = (s.links k).sent ++ dirs.map .watch)
    (listings : ∀ dir entries, (s.links k).live = true → link.dircache dir = some entries →
      (s.links k).dircache dir = some entries ∨ link.Watched dir) : Settles s s' where
  latest := latest
  direct := direct
  addings := addings
  live i := by
    rw [links]
    by_cases same : i = k
    · rw [if_pos same, same, live]
    · rw [if_neg same]
  ready i := by
    rw [links]
    by_cases same : i = k
    · rw [if_pos same, same, ready]
    · rw [if_neg same]
  sent i := by
    rw [links]
    by_cases same : i = k
    · rw [if_pos same, same]
      exact sent
    · rw [if_neg same]
      exact ⟨[], by simp⟩
  listings i dir entries up found := by
    rw [links] at found ⊢
    by_cases same : i = k
    · rw [if_pos same] at found ⊢
      rw [same] at up ⊢
      exact listings dir entries up found
    · rw [if_neg same] at found
      exact .inl found

/-- The connections stay as they are. -/
theorem settles_of_links {s' : Registry} (latest : s'.latest = s.latest)
    (direct : s'.direct = s.direct)
    (addings : ∀ id adding, s'.addings id = some adding → s.addings id = some adding)
    (links : s'.links = s.links) : Settles s s' where
  latest := latest
  direct := direct
  addings := addings
  live k := by rw [links]
  ready k := by rw [links]
  sent k := ⟨[], by rw [links]; simp⟩
  listings k dir entries _ found := by
    rw [links] at found
    exact .inl found

theorem settles_ask (dir : String) (aim : Aim) : Settles s (s.ask k dir aim) := by
  unfold Registry.ask
  split
  · exact settles_of_links rfl rfl (fun _ _ same => same) rfl
  · exact .refl

theorem settles_forget (id : Nat) : Settles s (s.forget id) := by
  have kept : ∀ other adding, (s.forget id).addings other = some adding →
      s.addings other = some adding := by
    intro other adding found
    rw [Registry.forget_addings] at found
    by_cases same : other = id
    · rw [if_pos same] at found
      cases found
    · rwa [if_neg same] at found
  exact settles_of_links rfl rfl kept rfl

theorem settles_post (dir : String) : Settles s (s.post k (.watch dir)) := by
  unfold Registry.post
  split
  · apply settles_of_link k { s.links k with sent := (s.links k).sent ++ [.watch dir] }
    case sent => exact ⟨[dir], rfl⟩
    case listings => exact fun _ _ _ found => .inl found
    case addings => exact fun _ _ same => same
    case links => exact fun _ => rfl
    all_goals rfl
  · exact .refl

/-- Listings are dropped from the caches of a connection. -/
theorem settles_setCaches {c : Caches} (dropped : ∀ dir entries, c.dircache dir = some entries →
    (s.links k).dircache dir = some entries) : Settles s (s.setCaches k c) := by
  apply settles_of_link k { s.links k with epoch := c.epoch, dircache := c.dircache }
  case sent => exact ⟨[], by simp⟩
  case listings => exact fun dir entries _ found => .inl (dropped dir entries found)
  case addings => exact fun _ _ same => same
  case links => exact fun _ => rfl
  all_goals rfl

/-- A connection with one more listing, and a watch asked for if its process runs. -/
def Link.install (link : Link) (dir : String) (entries : List String) : Link :=
  { link with
    dircache := fun other => if other = dir then some entries else link.dircache other
    sent := if link.live then link.sent ++ [.watch dir] else link.sent }

theorem settles_install {s' : Registry} (k : Nat) (dir : String) (entries : List String)
    (latest : s'.latest = s.latest) (direct : s'.direct = s.direct) (addings : s'.addings = s.addings)
    (links : ∀ i, s'.links i = if i = k then (s.links k).install dir entries else s.links i) :
    Settles s s' := by
  apply settles_of_link k _ latest direct _ links rfl rfl
  · by_cases up : (s.links k).live = true
    · exact ⟨[dir], by simp [Link.install, up]⟩
    · exact ⟨[], by simp [Link.install, up]⟩
  · intro other found up listed
    have sent : ((s.links k).install dir entries).sent = (s.links k).sent ++ [.watch dir] :=
      if_pos up
    by_cases same : other = dir
    · right
      unfold Link.Watched
      rw [same, sent, lastRequest_append]
      exact if_pos rfl
    · left
      rw [← listed]
      exact (if_neg same).symm
  · intro id adding found
    rwa [addings] at found

section Posting

variable (s : Registry) (k : Nat) (message : WatchRequest)

@[simp] theorem post_links (i : Nat) :
    (s.post k message).links i = if i = k then
      { s.links k with
        sent := if (s.links k).live then (s.links k).sent ++ [message] else (s.links k).sent }
      else s.links i := by
  unfold Registry.post
  by_cases up : (s.links k).live = true
  · simp [up]
  · by_cases same : i = k
    · rw [if_neg up, if_pos same, if_neg up, same]
    · rw [if_neg up, if_neg same]

@[simp] theorem post_latest : (s.post k message).latest = s.latest := by
  unfold Registry.post
  split <;> rfl

@[simp] theorem post_direct : (s.post k message).direct = s.direct := by
  unfold Registry.post
  split <;> rfl

@[simp] theorem post_addings : (s.post k message).addings = s.addings := by
  unfold Registry.post
  split <;> rfl

/-- A message changes nothing of a link but what was sent on it. -/
theorem post_kept {α : Type} (field : Link → α)
    (unsent : ∀ link sent, field { link with sent := sent } = field link) (i : Nat) :
    field ((s.post k message).links i) = field (s.links i) := by
  rw [post_links]
  by_cases here : i = k
  · rw [if_pos here, here, unsent]
  · rw [if_neg here]

theorem post_live (i : Nat) : ((s.post k message).links i).live = (s.links i).live :=
  post_kept s k message (·.live) (fun _ _ => rfl) i

theorem post_ready (i : Nat) : ((s.post k message).links i).ready = (s.links i).ready :=
  post_kept s k message (·.ready) (fun _ _ => rfl) i

theorem post_dircache (i : Nat) :
    ((s.post k message).links i).dircache = (s.links i).dircache :=
  post_kept s k message (·.dircache) (fun _ _ => rfl) i

theorem post_sent (i : Nat) :
    ((s.post k message).links i).sent =
      (s.links i).sent ++ if i = k ∧ (s.links k).live = true then [message] else [] := by
  rw [post_links]
  by_cases here : i = k
  · rw [if_pos here, here]
    by_cases up : (s.links k).live = true
    · rw [if_pos up, if_pos ⟨rfl, up⟩]
    · rw [if_neg up, if_neg fun both => up both.2, List.append_nil]
  · rw [if_neg here, if_neg fun both => here both.1, List.append_nil]

variable {s k message}

/-- A message about one directory leaves what was asked about the others. -/
theorem watched_post {i : Nat} {dir : String} (watched : (s.links i).Watched dir)
    (other : message.dir ≠ dir) : ((s.post k message).links i).Watched dir := by
  unfold Link.Watched
  rw [post_sent]
  split
  · rw [lastRequest_append, if_neg other]
    exact watched
  · rw [List.append_nil]
    exact watched

theorem asked_post {i place : Nat} {asked : WatchRequest}
    (before : (s.links i).sent[place]? = some asked) :
    ((s.post k message).links i).sent[place]? = some asked := by
  rw [post_sent, List.getElem?_append_left (List.getElem?_eq_some_iff.mp before).1]
  exact before

end Posting

theorem settles_populate_post (dir : String) (entries : List String) :
    Settles s ((s.populate k dir entries).post k (.watch dir)) := by
  apply settles_install k dir entries
  case links =>
    intro i
    by_cases same : i = k
    · simp only [Registry.populate, Registry.setCaches_links, post_links, Link.install, same, if_true]
      congr 1
    · simp [Registry.populate, same]
  case addings => exact post_addings _ _ _
  all_goals simp [Registry.populate]

theorem settles_post_populate (dir : String) (entries : List String) :
    Settles s ((s.post k (.watch dir)).populate k dir entries) := by
  apply settles_install k dir entries
  case links =>
    intro i
    by_cases same : i = k
    · simp only [Registry.populate, Registry.setCaches_links, post_links, Link.install, same, if_true]
      congr 1
      · simp
      · funext other
        simp
    · simp [Registry.populate, same]
  case addings => exact post_addings _ _ _
  all_goals simp [Registry.populate]

/-- A listing that has outlived its connection is installed again. -/
theorem settles_reinstall (dir : String) (entries : List String) :
    Settles s ((s.setLink k { s.links k with
      dircache := fun other =>
        if other = dir then some entries else (s.links k).dircache other }).post k (.watch dir)) := by
  apply settles_install k dir entries
  case links =>
    intro i
    by_cases same : i = k
    · simp [Link.install, same]
    · simp [same]
  case addings => exact post_addings _ _ _
  all_goals simp

theorem settles_finish (id : Nat) (entries : List String) : Settles s (s.finish id entries) := by
  have forgotten : Settles s (s.forget id) := settles_forget id
  unfold Registry.finish
  split
  · rename_i k dir epoch found
    simp only
    split
    · exact forgotten.trans (settles_ask dir .listing)
    · split
      · exact forgotten.trans (settles_post_populate dir entries)
      · exact forgotten
  · rename_i k dir epoch found
    simp only
    split
    · exact forgotten.trans (settles_populate_post dir entries)
    · exact forgotten
  · exact .refl

theorem settles_validated (id : Nat) (same : Bool) : Settles s (s.validated id same) := by
  have forgotten : Settles s (s.forget id) := settles_forget id
  unfold Registry.validated
  split
  · rename_i k dir epoch entries found
    simp only
    split
    · split
      · exact forgotten.trans (settles_reinstall dir entries)
      · exact forgotten.trans (settles_ask dir .rewarm)
    · exact forgotten
  · exact .refl

theorem settles_rewarms (dirs : List String) : Settles s (dirs.foldl (Registry.rewarm k) s) :=
  .foldl (fun _ dir => settles_ask dir .rewarm) dirs

theorem settles_posts (dirs : List String) :
    Settles s (dirs.foldl (fun s dir => s.post k (.watch dir)) s) :=
  .foldl (fun _ dir => settles_post dir) dirs

theorem settles_revalidateMarked (s : Registry) (k : Nat) :
    Settles s (s.revalidateMarkedOnConnect k) := by
  apply Settles.foldl
  intro s dir
  unfold Registry.revalidate
  split
  · exact settles_ask dir .rewarm
  · exact settles_ask dir _

theorem settles_handle (event : FsEvent) : Settles s (s.handle k event) := by
  have evicted : Settles s (s.setCaches k (handleEvent (s.caches k) event).caches) := by
    apply settles_setCaches
    intro dir entries found
    rw [handleEvent_dircache] at found
    split at found
    · cases found
    · exact found
  exact evicted.trans (settles_rewarms _)

theorem complete_listings (caps : Caps) (c : Caches) (mutation : Mutation) {name : String}
    {entries : List String} (found : (mutation.complete caps c).dircache name = some entries) :
    c.dircache name = some entries := by
  have invalidates : ∀ names : List String, ∀ c : Caches,
      (names.foldl Caches.invalidate c).dircache name = some entries →
        c.dircache name = some entries := by
    intro names
    induction names with
    | nil => exact fun _ found => found
    | cons first names ih =>
        intro c found
        have kept := ih _ found
        rw [invalidate_listing] at kept
        split at kept
        · cases kept
        · exact kept
  by_cases some_name : mutation.invalidated = []
  · cases mutation with
    | writeRegion filename bytes append =>
        have kept : (c.hWriteRegion caps filename bytes append).dircache name = some entries := found
        rw [hWriteRegion_listing] at kept
        split at kept
        · cases kept
        · exact kept
    | save => exact found
    | _ => cases some_name
  · rw [(complete_invalidated caps some_name).1] at found
    exact invalidates _ _ found

theorem settles_mutate (caps : Caps) (mutation : Mutation) :
    Settles s (s.setCaches k (mutation.complete caps (s.caches k))) :=
  settles_setCaches fun _ _ found => complete_listings caps (s.caches k) mutation found

theorem settles_uncache (dir : String) :
    Settles s (s.setCaches k ((s.caches k).dropListing dir)) := by
  apply settles_setCaches
  intro other entries found
  rw [Caches.dropListing_dircache] at found
  split at found
  · cases found
  · exact found

theorem applyActiveProfiles_listings (c : Caches) (active : List Profile) {dir : String}
    {entries : List String}
    (found : (Warmth.applyActiveProfiles { caches := c } active).caches.dircache dir =
      some entries) : c.dircache dir = some entries := by
  have listing : ∀ keys : List Key, ∀ w : Warmth,
      (keys.foldl Warmth.evictDeactivatedListing w).caches.dircache dir = some entries →
        w.caches.dircache dir = some entries := by
    intro keys
    induction keys with
    | nil => exact fun _ found => found
    | cons key keys ih =>
        intro w found
        have kept := ih _ found
        unfold Warmth.evictDeactivatedListing at kept
        split at kept
        · exact kept
        · simp only at kept
          split at kept
          · rw [Caches.dircacheEvictPrefix_dircache] at kept
            split at kept
            · cases kept
            · exact kept
          · exact kept
  have content : ∀ keys : List Key, ∀ w : Warmth,
      (keys.foldl Warmth.evictDeactivatedContent w).caches.dircache = w.caches.dircache := by
    intro keys
    induction keys with
    | nil => exact fun _ => rfl
    | cons key keys ih =>
        intro w
        rw [List.foldl_cons, ih]
        unfold Warmth.evictDeactivatedContent
        split
        · rfl
        · rfl
  unfold Warmth.applyActiveProfiles at found
  rw [Warmth.rewarm_eq] at found
  unfold Warmth.evictDeactivated at found
  rw [content] at found
  exact listing _ _ found

theorem settles_applyActiveProfiles (active : List Profile) :
    Settles s (s.applyActiveProfiles active) := by
  have evicted : Settles s (s.setCaches s.latest
      (Warmth.applyActiveProfiles { caches := s.caches s.latest } active).caches) :=
    settles_setCaches fun _ _ found =>
      applyActiveProfiles_listings (s.caches s.latest) active found
  exact evicted.trans (settles_rewarms _)

end Settling

section Registering

variable {s : Registry}

theorem registered_connect (before : Registered s) : Registered s.connect := by
  unfold Registry.connect
  by_cases up : (s.links s.latest).live = true
  · rw [if_pos up]
    exact before
  · rw [if_neg up]
    have others : ∀ k, k ≠ s.latest + 1 →
        (s.setLink (s.latest + 1) { live := true }).links k = s.links k := fun k ne => if_neg ne
    have added : (s.setLink (s.latest + 1) { live := true }).links (s.latest + 1) =
        { live := true } := if_pos rfl
    have only : ∀ k, ((s.setLink (s.latest + 1) { live := true }).links k).live = true →
        k = s.latest + 1 := by
      intro k live
      by_contra ne
      rw [others k ne] at live
      have latest := before.single k live
      rw [latest] at live
      exact up live
    constructor
    case direct =>
      intro k dir live ready
      rw [only k live] at ready
      cases added ▸ ready
    constructor
    case single => exact only
    case listed =>
      intro k dir entries live found
      rw [only k live] at found
      cases added ▸ found
    case known =>
      intro id adding found
      exact Nat.le_succ_of_le (before.known id adding found)
    case asked =>
      intro id adding found
      have known := before.known id adding found
      have older : adding.conn ≠ s.latest + 1 := by omega
      show ((s.setLink (s.latest + 1) { live := true }).links adding.conn).sent[adding.place]? = _
      rw [others _ older]
      exact before.asked id adding found

/-- A watch is asked for every directory of a list. -/
theorem watched_posts {k : Nat} (up : (s.links k).live = true) {dirs : List String} {dir : String}
    (member : dir ∈ dirs) :
    ((dirs.foldl (fun s dir => s.post k (.watch dir)) s).links k).Watched dir := by
  induction dirs generalizing s with
  | nil => cases member
  | cons first dirs ih =>
      rw [List.foldl_cons]
      rcases List.mem_cons.mp member with same | later
      · apply (settles_posts dirs).watched
        unfold Link.Watched
        rw [post_links, if_pos rfl, if_pos up, lastRequest_append, same]
        exact if_pos rfl
      · apply ih _ later
        rw [post_links, if_pos rfl]
        exact up

theorem registered_hello (before : Registered s) (k : Nat) : Registered (s.hello k) := by
  unfold Registry.hello
  split
  · rename_i fresh
    have up : (s.links k).live = true := by
      rw [Bool.and_eq_true] at fresh
      exact fresh.1
    generalize opened : s.setLink k { s.links k with ready := true } = t
    have same : ∀ i, (t.links i).live = (s.links i).live ∧
        (t.links i).dircache = (s.links i).dircache ∧ (t.links i).sent = (s.links i).sent := by
      intro i
      rw [← opened, Registry.setLink_links]
      by_cases here : i = k
      · rw [if_pos here, here]
        exact ⟨rfl, rfl, rfl⟩
      · rw [if_neg here]
        exact ⟨rfl, rfl, rfl⟩
    have kept : t.latest = s.latest ∧ t.addings = s.addings := by
      rw [← opened]
      exact ⟨rfl, rfl⟩
    have listed : Listed t := by
      constructor
      case single =>
        intro i live
        rw [kept.1]
        exact before.single i ((same i).1 ▸ live)
      case listed =>
        intro i dir entries live found filled
        unfold Link.Watched
        rw [(same i).2.2]
        rw [(same i).1] at live
        rw [(same i).2.1] at found
        exact before.listed i dir entries live found filled
      case known =>
        rw [kept.1, kept.2]
        exact before.known
      case asked =>
        rw [kept.2]
        intro id adding found
        rw [(same _).2.2]
        exact before.asked id adding found
    have validated : Settles t (t.revalidateMarkedOnConnect k) := settles_revalidateMarked t k
    generalize t.revalidateMarkedOnConnect k = v at validated ⊢
    have rewatched : Settles v (v.rewatchDirectOnConnect k) := settles_posts _
    have after := rewatched.keeps (validated.keeps listed)
    constructor
    case toListed => exact after
    case direct =>
      intro i dir live ready some_watch
      have alive : (v.links k).live = true := by
        rw [validated.live, (same k).1]
        exact up
      have here : i = k := by
        rw [after.single i live]
        symm
        apply after.single
        rw [rewatched.live]
        exact alive
      rw [here]
      rw [rewatched.direct] at some_watch
      apply watched_posts alive
      apply List.mem_filter.mpr
      exact ⟨v.direct.listed dir some_watch, decide_eq_true some_watch⟩
  · exact before

theorem registered_die (before : Registered s) (k : Nat) :
    Registered (s.step (.die k)) := by
  have sent : ∀ i, ((s.step (.die k)).links i).sent = (s.links i).sent ∧
      ((s.step (.die k)).links i).dircache = (s.links i).dircache ∧
      ((s.step (.die k)).links i).ready = (s.links i).ready := by
    intro i
    by_cases here : i = k
    · simp [Registry.step, here]
    · simp [Registry.step, here]
  have fewer : ∀ i, ((s.step (.die k)).links i).live = true → (s.links i).live = true := by
    intro i live
    by_cases here : i = k
    · simp [Registry.step, here] at live
    · simpa [Registry.step, here] using live
  constructor
  case direct =>
    intro i dir live ready some_watch
    unfold Link.Watched
    rw [(sent i).1]
    rw [(sent i).2.2] at ready
    exact before.direct i dir (fewer i live) ready some_watch
  constructor
  case single => exact fun i live => before.single i (fewer i live)
  case listed =>
    intro i dir entries live found filled
    unfold Link.Watched
    rw [(sent i).1]
    rw [(sent i).2.1] at found
    exact before.listed i dir entries (fewer i live) found filled
  case known => exact before.known
  case asked =>
    intro id adding found
    rw [(sent _).1]
    exact before.asked id adding found

theorem registered_addWatch (before : Registered s) (localdir : String) :
    Registered (s.addWatch localdir) := by
  unfold Registry.addWatch
  by_cases up : (s.links s.latest).live = true
  · rw [if_pos up]
    have posted := (settles_post (s := s) (k := s.latest) localdir).registered before
    have sent : ((s.post s.latest (.watch localdir)).links s.latest).sent =
        (s.links s.latest).sent ++ [.watch localdir] := by
      rw [post_links, if_pos rfl]
      exact if_pos up
    constructor
    case direct => exact posted.direct
    constructor
    case single => exact posted.single
    case listed => exact posted.listed
    case known =>
      intro id adding found
      simp only at found
      split at found
      · rw [← Option.some.inj found, post_latest]
      · rw [post_latest]
        exact before.known id adding found
    case asked =>
      intro id adding found
      simp only at found
      split at found
      · rw [← Option.some.inj found]
        show ((s.post s.latest (.watch localdir)).links s.latest).sent[_]? = _
        rw [sent]
        simp
      · exact posted.asked id adding (by rwa [post_addings])
  · rw [if_neg up]
    exact before

theorem registered_added (before : Registered s) (id : Nat)
    (undisturbed : s.Undisturbed (.added id)) : Registered (s.added id) := by
  unfold Registry.added
  cases found : s.addings id with
  | none => exact before
  | some adding =>
      have forgotten := (settles_forget (s := s) id).registered before
      constructor
      case toListed =>
        exact ⟨forgotten.single, forgotten.listed, forgotten.known, forgotten.asked⟩
      case direct =>
        intro k dir live ready some_watch
        by_cases same : dir = adding.dir
        · subst same
          have latest : k = s.latest := before.single k live
          subst latest
          have quiet := undisturbed adding found
          by_cases here : adding.conn = s.latest
          · rw [if_pos here] at quiet
            have asked := before.asked id adding found
            rw [here] at asked
            exact lastRequest_of_place asked quiet
          · rw [if_neg here, Bool.and_eq_false_iff] at quiet
            have live : (s.links s.latest).live = true := live
            have ready : (s.links s.latest).ready = true := ready
            rcases quiet with down | unready
            · rw [live] at down
              cases down
            · rw [ready] at unready
              cases unready
        · apply forgotten.direct k dir live ready
          simpa [same] using some_watch

theorem emptied_some {d : DirectWatches} {descriptor : Nat} {localdir : String}
    (emptied : d.emptied descriptor = some localdir) :
    (d.remove descriptor).watchers localdir = [] := by
  have member := List.mem_of_getLast? emptied
  have holds := (List.mem_filter.mp member).2
  exact (of_decide_eq_true holds).2

theorem registered_remove (before : Registered s) (descriptor : Nat) :
    Registered { s with direct := s.direct.remove descriptor } := by
  constructor
  case toListed => exact ⟨before.single, before.listed, before.known, before.asked⟩
  case direct =>
    intro k dir live ready some_watch
    apply before.direct k dir live ready
    intro empty
    apply some_watch
    show (s.direct.watchers dir).filter _ = []
    rw [empty]
    rfl

/-- A watch may be taken back of a directory that neither a direct watch nor a listing needs. -/
theorem registered_unwatch (before : Registered s) {localdir : String}
    (unwatched : s.direct.watchers localdir = [])
    (uncached : ∀ entries, (s.links s.latest).dircache localdir = some entries → entries = []) :
    Registered (s.post s.latest (.unwatch localdir)) := by
  constructor
  case direct =>
    intro k dir live ready some_watch
    rw [post_live] at live
    rw [post_ready] at ready
    rw [post_direct] at some_watch
    apply watched_post (before.direct k dir live ready some_watch)
    rintro rfl
    exact some_watch unwatched
  constructor
  case single =>
    intro k live
    rw [post_live] at live
    rw [post_latest]
    exact before.single k live
  case listed =>
    intro k dir entries live found filled
    rw [post_live] at live
    rw [post_dircache] at found
    apply watched_post (before.listed k dir entries live found filled)
    rintro rfl
    rw [before.single k live] at found
    exact filled (uncached entries found)
  case known =>
    rw [post_latest, post_addings]
    exact before.known
  case asked =>
    rw [post_addings]
    exact fun id adding found => asked_post (before.asked id adding found)

theorem registered_rmWatch (before : Registered s) (descriptor : Nat) :
    Registered (s.rmWatch descriptor) := by
  have removed := registered_remove before descriptor
  unfold Registry.rmWatch
  cases emptied : s.direct.emptied descriptor with
  | none => exact removed
  | some localdir =>
      simp only
      cases cached : (s.links s.latest).dircache localdir with
      | none =>
          apply registered_unwatch removed (emptied_some emptied)
          intro entries found
          rw [cached] at found
          cases found
      | some listed =>
          cases listed with
          | nil =>
              apply registered_unwatch removed (emptied_some emptied)
              intro entries found
              rw [cached] at found
              exact (Option.some.inj found).symm
          | cons => exact removed

theorem registered_step (before : Registered s) {doing : Doing}
    (undisturbed : s.Undisturbed doing) : Registered (s.step doing) := by
  cases doing with
  | connect => exact registered_connect before
  | hello k => exact registered_hello before k
  | die k => exact registered_die before k
  | listing k dir =>
      show Registered (s.listing k dir)
      unfold Registry.listing
      split
      · exact before
      · exact (settles_ask dir .listing).registered before
  | rewarm k dir => exact (settles_ask dir .rewarm).registered before
  | finish id entries => exact (settles_finish id entries).registered before
  | validated id same => exact (settles_validated id same).registered before
  | abandon id => exact (settles_forget id).registered before
  | event k event => exact (settles_handle event).registered before
  | mutate k caps mutation => exact (settles_mutate caps mutation).registered before
  | uncache k dir => exact (settles_uncache dir).registered before
  | mark listingPrefetch listing content =>
      have same : Settles s (s.step (.mark listingPrefetch listing content)) :=
        settles_of_links rfl rfl (fun _ _ found => found) rfl
      exact same.registered before
  | profiles active => exact (settles_applyActiveProfiles active).registered before
  | addWatch localdir => exact registered_addWatch before localdir
  | added id => exact registered_added before id undisturbed
  | rmWatch descriptor => exact registered_rmWatch before descriptor

end Registering

/-- In every state of a run in which watches are registered undisturbed, the last message about a
directory with a listing or a direct watch, on a connection that is ready, asks to watch it. -/
theorem cached_or_watched_registered {shared : Caches} {s : Registry}
    (reached : Reaches Registry.step Registry.Undisturbed { shared := shared } s) :
    ∀ k dir, (s.links k).live = true → (s.links k).ready = true →
      ((∃ entries, (s.links k).dircache dir = some entries ∧ entries ≠ []) ∨
        s.direct.watchers dir ≠ []) →
      lastRequest (s.links k).sent dir = some (.watch dir) := by
  have registered : Registered s := by
    apply Reaches.invariant _ _ reached
    · exact ⟨⟨nofun, nofun, nofun, nofun⟩, nofun⟩
    · exact fun _ _ before undisturbed => registered_step before undisturbed
  intro k dir live ready needed
  rcases needed with ⟨entries, found, filled⟩ | some_watch
  · exact registered.listed k dir entries live found filled
  · exact registered.direct k dir live ready some_watch

/-- A watch is added, the connection is lost and made again, another is added and both are removed
while the directory is listed. -/
def reconnectingRun : List Doing :=
  [.connect, .hello 1, .addWatch "/d", .added 0, .die 1, .connect, .hello 2, .addWatch "/d", .added 1,
    .listing 2 "/d", .rmWatch 1, .rmWatch 2, .finish 2 ["f"]]

/-- The same directory is being watched anew while the only watch it has is removed. -/
def crossingRun : List Doing :=
  [.connect, .hello 1, .addWatch "/d", .added 0, .addWatch "/d", .rmWatch 1, .added 1]

theorem cached_or_watched_registered_again :
    lastRequest ((reconnectingRun.foldl Registry.step { shared := { authority := "h" } }).links 2).sent
      "/d" = some (.watch "/d") := by
  have along : Reaches.Along Registry.step Registry.Undisturbed
      { shared := { authority := "h" } } reconnectingRun := by
    refine ⟨trivial, trivial, trivial, ?_, trivial, trivial, trivial, trivial, ?_, trivial, trivial,
      trivial, trivial, trivial⟩
    · intro adding found
      cases found
      decide
    · intro adding found
      cases found
      decide
  apply cached_or_watched_registered (Reaches.refl.of_along along)
  · rfl
  · rfl
  · exact .inl ⟨["f"], rfl, List.cons_ne_nil _ _⟩

/-- A watch is registered although the last message about its directory takes it back. -/
theorem watch_lost :
    ¬ ∀ s : Registry, Reaches Registry.step (fun _ _ => True) { shared := { authority := "h" } } s →
      ∀ k dir, (s.links k).live = true → (s.links k).ready = true →
        ((∃ entries, (s.links k).dircache dir = some entries ∧ entries ≠ []) ∨
          s.direct.watchers dir ≠ []) →
        lastRequest (s.links k).sent dir = some (.watch dir) := by
  intro registered
  have reached : Reaches Registry.step (fun _ _ => True) { shared := { authority := "h" } }
      (crossingRun.foldl Registry.step { shared := { authority := "h" } }) := by
    apply Reaches.refl.of_along
    exact ⟨trivial, trivial, trivial, trivial, trivial, trivial, trivial, trivial⟩
  have watched := registered _ reached 1 "/d" rfl rfl (.inr (List.cons_ne_nil 2 []))
  revert watched
  decide

end EmacsRelay.RelayPrefetch

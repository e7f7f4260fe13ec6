import EmacsRelay.Lib.Reach
import EmacsRelay.Prefetch.Invalidate
import EmacsRelay.Server.Stat
import Mathlib.Data.List.Dedup

set_option autoImplicit false

/- Directories marked for prefetch, on a connection that stays up: the fetches that are under way
for them, the problems recorded, and what profiles and events do to both. -/
namespace EmacsRelay.RelayPrefetch

open Server

/-- What `relay--attrs-mtime-key` makes: seconds and nanoseconds, where there are any. -/
abbrev MtimeKey := Option Int × Option Int

/-- `relay--attrs-mtime-key`. -/
def attrsMtimeKey (attrs : Option Attrs) : MtimeKey := (attrs.map (·.mtime), attrs.bind (·.mtimeNsec))

/-- The marks of a prefetch profile. -/
structure Profile where
  listing : List Key := []
  content : List Key := []
deriving DecidableEq, Repr

/-- A request under way, with what its callback closes over. -/
inductive Request where
  | readdir (dir : String) (epoch : Nat)
  | stat (dir : String) (epoch : Nat) (entries : List String) (mtimeKey : MtimeKey)
  | watch (dir : String)
deriving DecidableEq, Repr

inductive Response where
  | listing (entries : List String) (selfAttrs : Option Attrs)
  | stat (attrs : Option Attrs)
  | done
  | error (text : Option String)
deriving DecidableEq, Repr

/-- The response is one to such a request. -/
def Response.Answers : Response → Request → Prop
  | .listing _ _, .readdir _ _ => True
  | .stat _, .stat _ _ _ _ => True
  | .done, .watch _ => True
  | .error _, _ => True
  | _, _ => False

/-- The caches with the `:mtime-key` of cached listings, `relay--prefetch-problems`, and the requests
under way on the connection. -/
structure Warmth where
  caches : Caches
  mtimeKeys : Key → MtimeKey := fun _ => (none, none)
  problems : Key → Option String := fun _ => none
  requests : List Request := []

namespace Warmth

def key (w : Warmth) (dir : String) : Key := (w.caches.authority, dir)

@[simps] def send (w : Warmth) (request : Request) : Warmth :=
  { w with requests := w.requests ++ [request] }

/-- `relay--listing-rewarm-async`. -/
def listingRewarmAsync (w : Warmth) (dir : String) : Warmth := w.send (.readdir dir w.caches.epoch)

def rewarm (w : Warmth) (dirs : List String) : Warmth := dirs.foldl listingRewarmAsync w

/-- `relay--listing-populate`. -/
@[simps] def populate (w : Warmth) (dir : String) (entries : List String) (mtimeKey : MtimeKey) :
    Warmth :=
  { w with
    caches := w.caches.listingPopulate dir entries
    mtimeKeys := fun key =>
      if w.caches.listingPrefetch && (w.caches.authority, dir) ∈ w.caches.listingPrefetchDirs &&
          key = (w.caches.authority, dir) then mtimeKey
      else w.mtimeKeys key }

/-- The callback of a request. -/
def callback (w : Warmth) : Request → Response → Warmth
  | .readdir dir epoch, response =>
      if epoch = w.caches.epoch ∧ w.caches.prefetchKeyActive dir then
        match response with
        | .listing entries selfAttrs =>
            let w := { w with
              problems := fun key => if key = (w.caches.authority, dir) then none else w.problems key }
            (w.populate dir entries (attrsMtimeKey selfAttrs)).send (.watch dir)
        | .error text =>
            { w with
              problems := fun key =>
                if key = (w.caches.authority, dir) then some (text.getD "listing failed")
                else w.problems key }
        | _ => w
      else w
  | .stat dir epoch entries mtimeKey, response =>
      if epoch = w.caches.epoch ∧ w.caches.prefetchKeyActive dir then
        match response with
        | .stat attrs =>
            if attrsMtimeKey attrs = mtimeKey then
              { w with
                caches := { w.caches with
                  dircache := fun other =>
                    if other = dir then some entries else w.caches.dircache other } }.send (.watch dir)
            else w.listingRewarmAsync dir
        | _ => w.listingRewarmAsync dir
      else w
  | .watch _, _ => w

/-- `relay--prefetch-rebuild-live-marks`. -/
def rebuildLiveMarks (w : Warmth) (active : List Profile) : Warmth :=
  { w with
    caches := { w.caches with
      listingPrefetchDirs := active.flatMap (·.listing)
      contentPrefetchDirs := active.flatMap (·.content) } }

/-- What `relay--prefetch-evict-deactivated` does for a key that was marked for listing prefetch. -/
def evictDeactivatedListing (w : Warmth) (key : Key) : Warmth :=
  if key ∈ w.caches.listingPrefetchDirs then w
  else
    { w with
      caches :=
        let c := { w.caches with
          listingPrefetchCache := fun other =>
            if other = key then none else w.caches.listingPrefetchCache other }
        if key.1 = c.authority then c.dircacheEvictPrefix key.2 else c
      problems := fun other =>
        if other = key ∧ key ∉ w.caches.contentPrefetchDirs then none else w.problems other }

/-- The same for a key that was marked for content prefetch. -/
def evictDeactivatedContent (w : Warmth) (key : Key) : Warmth :=
  if key ∈ w.caches.contentPrefetchDirs then w
  else
    { w with
      caches := { w.caches with
        content := ({ w.caches with authority := key.1 }.contentCacheEvictPrefix key.2).content }
      problems := fun other =>
        if other = key ∧ key ∉ w.caches.listingPrefetchDirs then none else w.problems other }

/-- `relay--prefetch-evict-deactivated`. -/
def evictDeactivated (w : Warmth) (oldListing oldContent : List Key) : Warmth :=
  oldContent.foldl evictDeactivatedContent (oldListing.foldl evictDeactivatedListing w)

/-- `relay--prefetch-apply-active-profiles`. -/
def applyActiveProfiles (w : Warmth) (active : List Profile) : Warmth :=
  let w := (w.rebuildLiveMarks active).evictDeactivated w.caches.listingPrefetchDirs
    w.caches.contentPrefetchDirs
  w.rewarm w.caches.rewarmMarked

/-- What `relay--revalidate-marked-on-connect` sends for one directory. -/
def revalidate (w : Warmth) (dir : String) : Warmth :=
  match w.caches.listingPrefetchCache (w.key dir) with
  | none => w.listingRewarmAsync dir
  | some entries => w.send (.stat dir w.caches.epoch entries (w.mtimeKeys (w.key dir)))

/-- `relay--revalidate-marked-on-connect`, on the caches of a new connection. It takes every marked
directory, whether or not listings are prefetched. -/
def connect (c : Caches) (mtimeKeys : Key → MtimeKey) (problems : Key → Option String) : Warmth :=
  let w : Warmth := { caches := { c with epoch := 0, dircache := fun _ => none }, mtimeKeys, problems }
  ((c.listingPrefetchDirs ++ c.contentPrefetchDirs).filter (·.1 = c.authority) |>.dedup
    |>.map (·.2)).foldl revalidate w

inductive Step where
  | event (event : FsEvent)
  /-- Profiles are activated, deactivated, switched or edited. -/
  | profiles (active : List Profile)
  | reply (index : Nat) (response : Response)

def step (w : Warmth) : Step → Warmth
  | .event event =>
      let handled := handleEvent w.caches event
      { w with caches := handled.caches }.rewarm handled.rewarms
  | .profiles active => w.applyActiveProfiles active
  | .reply index response =>
      match w.requests[index]? with
      | some request => { w with requests := w.requests.eraseIdx index }.callback request response
      | none => w

/-- Replies are those of the server. -/
def Answered (w : Warmth) : Step → Prop
  | .reply index response => ∀ request, w.requests[index]? = some request → response.Answers request
  | _ => True

/-- A directory is marked for listing prefetch on this connection's authority. -/
def Marked (w : Warmth) (dir : String) : Prop := w.key dir ∈ w.caches.listingPrefetchDirs

/-- An event that has lost others, or a change in a directory. -/
def Touches (dir : String) : FsEvent → Prop
  | .overflow => True
  | .selfChanged _ => False
  | .changed _ other _ => other = dir

/-- An event other than a change in a marked directory finds its listing in the cache, and leaves it
there, or finds a problem recorded. -/
def Spares (w : Warmth) : Step → Prop
  | .event event => ∀ dir, w.Marked dir → Touches dir event ∨
      w.caches.dircache dir ≠ none ∧ evictsListing dir event = false ∨ w.problems (w.key dir) ≠ none
  | _ => True

/-- Every directory marked for listing prefetch has a listing or a problem. -/
def Warm (w : Warmth) : Prop :=
  ∀ dir, w.Marked dir → w.caches.dircache dir ≠ none ∨ w.problems (w.key dir) ≠ none

/-- The directory is being fetched, and the answer will be taken. -/
def Fetching (w : Warmth) (dir : String) : Prop :=
  .readdir dir w.caches.epoch ∈ w.requests ∨
    ∃ entries mtimeKey, .stat dir w.caches.epoch entries mtimeKey ∈ w.requests

/-- Every marked directory is warm or being fetched. -/
structure Warming (w : Warmth) : Prop where
  on : w.caches.listingPrefetch = true
  marked : ∀ dir, w.Marked dir → w.caches.dircache dir ≠ none ∨ w.problems (w.key dir) ≠ none ∨
    w.Fetching dir

section Steps

variable {w : Warmth}

theorem rewarm_eq (w : Warmth) (dirs : List String) :
    w.rewarm dirs = { w with requests := w.requests ++ dirs.map (.readdir · w.caches.epoch) } := by
  unfold rewarm
  induction dirs generalizing w with
  | nil => simp
  | cons dir dirs ih =>
      rw [List.foldl_cons, ih]
      simp [listingRewarmAsync, send]

/-- The marks and what they are compared with are left alone, and so are the requests. -/
structure SameMarks (w w' : Warmth) : Prop where
  authority : w'.caches.authority = w.caches.authority
  epoch : w'.caches.epoch = w.caches.epoch
  listingPrefetch : w'.caches.listingPrefetch = w.caches.listingPrefetch
  listing : w'.caches.listingPrefetchDirs = w.caches.listingPrefetchDirs
  content : w'.caches.contentPrefetchDirs = w.caches.contentPrefetchDirs
  requests : w'.requests = w.requests

theorem SameMarks.trans {w' w'' : Warmth} (first : SameMarks w w') (second : SameMarks w' w'') :
    SameMarks w w'' where
  authority := second.authority.trans first.authority
  epoch := second.epoch.trans first.epoch
  listingPrefetch := second.listingPrefetch.trans first.listingPrefetch
  listing := second.listing.trans first.listing
  content := second.content.trans first.content
  requests := second.requests.trans first.requests

theorem SameMarks.foldl {α : Type} {f : Warmth → α → Warmth}
    (each : ∀ w a, SameMarks w (f w a)) (as : List α) : SameMarks w (as.foldl f w) := by
  induction as generalizing w with
  | nil => exact ⟨rfl, rfl, rfl, rfl, rfl, rfl⟩
  | cons a as ih => exact (each w a).trans ih

theorem sameMarks_evictDeactivatedListing (w : Warmth) (key : Key) :
    SameMarks w (w.evictDeactivatedListing key) := by
  unfold evictDeactivatedListing
  by_cases marked : key ∈ w.caches.listingPrefetchDirs
  · rw [if_pos marked]
    exact ⟨rfl, rfl, rfl, rfl, rfl, rfl⟩
  · rw [if_neg marked]
    by_cases here : key.1 = w.caches.authority
    · simp only [here, if_true]
      exact ⟨rfl, rfl, rfl, rfl, rfl, rfl⟩
    · simp only [here, if_false]
      exact ⟨rfl, rfl, rfl, rfl, rfl, rfl⟩

theorem sameMarks_evictDeactivatedContent (w : Warmth) (key : Key) :
    SameMarks w (w.evictDeactivatedContent key) := by
  unfold evictDeactivatedContent
  split
  · exact ⟨rfl, rfl, rfl, rfl, rfl, rfl⟩
  · exact ⟨rfl, rfl, rfl, rfl, rfl, rfl⟩

theorem sameMarks_evictDeactivated (w : Warmth) (oldListing oldContent : List Key) :
    SameMarks w (w.evictDeactivated oldListing oldContent) :=
  (SameMarks.foldl sameMarks_evictDeactivatedListing oldListing).trans
    (SameMarks.foldl sameMarks_evictDeactivatedContent oldContent)

theorem mem_rewarmMarked (on : w.caches.listingPrefetch = true) {dir : String}
    (marked : w.Marked dir) : dir ∈ w.caches.rewarmMarked := by
  unfold Caches.rewarmMarked
  apply List.mem_map.mpr
  refine ⟨w.key dir, ?_, rfl⟩
  rw [List.mem_dedup, List.mem_filter, if_pos on]
  exact ⟨List.mem_append_left _ marked, by simp [key]⟩

theorem active_of_marked {dir : String} (marked : w.Marked dir) :
    w.caches.prefetchKeyActive dir = true := by
  unfold Caches.prefetchKeyActive
  rw [Bool.or_eq_true]
  exact .inl (decide_eq_true marked)

theorem handleEvent_marks (c : Caches) (event : FsEvent) :
    (handleEvent c event).caches.listingPrefetch = c.listingPrefetch ∧
      (handleEvent c event).caches.listingPrefetchDirs = c.listingPrefetchDirs := by
  cases event with
  | overflow => exact ⟨rfl, rfl⟩
  | selfChanged localdir => exact ⟨rfl, rfl⟩
  | changed kind dir name => exact ⟨rfl, rfl⟩

/-- A marked directory is fetched again when it is touched. -/
theorem mem_rewarms (on : w.caches.listingPrefetch = true) {dir : String} (marked : w.Marked dir)
    {event : FsEvent} (touches : Touches dir event) :
    dir ∈ (handleEvent w.caches event).rewarms := by
  cases event with
  | overflow => exact mem_rewarmMarked on marked
  | selfChanged localdir => cases touches
  | changed kind other name =>
      cases touches
      have kept : (w.caches.marked dir) = true := by
        have listed : (w.caches.authority, dir) ∈ w.caches.listingPrefetchDirs := marked
        simp [Caches.marked, on, listed]
      show dir ∈ if w.caches.marked dir then [dir] else []
      rw [if_pos kept]
      exact List.mem_singleton_self dir

theorem warming_event (warming : Warming w) {event : FsEvent} (spares : w.Spares (.event event)) :
    Warming (w.step (.event event)) := by
  obtain ⟨on, dirs⟩ := handleEvent_marks w.caches event
  have authority := handleEvent_authority w.caches event
  have key_eq : ∀ dir, ((handleEvent w.caches event).caches.authority, dir) = w.key dir :=
    fun dir => by rw [authority]; rfl
  show Warming (({ w with caches := (handleEvent w.caches event).caches } : Warmth).rewarm _)
  rw [rewarm_eq]
  constructor
  · exact on.trans warming.on
  · intro dir marked
    have marked : w.Marked dir := by
      unfold Marked
      rw [← key_eq, ← dirs]
      exact marked
    rcases spares dir marked with touches | ⟨cached, kept⟩ | problem
    · right
      right
      left
      have fetched := mem_rewarms warming.on marked touches
      exact List.mem_append_right _ (List.mem_map.mpr ⟨dir, fetched, rfl⟩)
    · left
      show (handleEvent w.caches event).caches.dircache dir ≠ none
      rw [handleEvent_dircache, kept]
      exact cached
    · right
      left
      show w.problems ((handleEvent w.caches event).caches.authority, dir) ≠ none
      rw [key_eq]
      exact problem

/-- With all marked directories being fetched, nothing else is needed. -/
theorem warming_profiles (warming : Warming w) (active : List Profile) :
    Warming (w.step (.profiles active)) := by
  have same := sameMarks_evictDeactivated (w.rebuildLiveMarks active) w.caches.listingPrefetchDirs
    w.caches.contentPrefetchDirs
  have on := same.listingPrefetch.trans warming.on
  show Warming (rewarm _ _)
  rw [rewarm_eq]
  refine ⟨on, fun dir marked => .inr (.inr (.inl ?_))⟩
  apply List.mem_append_right
  exact List.mem_map.mpr ⟨dir, mem_rewarmMarked on marked, rfl⟩

theorem mem_eraseIdx_of_ne {α : Type} {xs : List α} {index : Nat} {x y : α}
    (found : xs[index]? = some x) (member : y ∈ xs) (apart : y ≠ x) : y ∈ xs.eraseIdx index := by
  obtain ⟨small, same⟩ := List.getElem?_eq_some_iff.mp found
  rw [List.eraseIdx_eq_take_drop_succ, List.mem_append]
  rw [← List.take_append_drop index xs, List.drop_eq_getElem_cons small, List.mem_append,
    List.mem_cons] at member
  rcases member with before | here | after
  · exact .inl before
  · exact absurd (here.trans same) apart
  · exact .inr after

/-- A reply is for the directory, and will be taken. -/
def For (w : Warmth) (dir : String) (request : Request) : Prop :=
  request = .readdir dir w.caches.epoch ∨
    ∃ entries mtimeKey, request = .stat dir w.caches.epoch entries mtimeKey

theorem fetching_iff (dir : String) : w.Fetching dir ↔ ∃ request ∈ w.requests, w.For dir request := by
  constructor
  · intro fetching
    rcases fetching with member | ⟨entries, mtimeKey, member⟩
    · exact ⟨_, member, .inl rfl⟩
    · exact ⟨_, member, .inr ⟨entries, mtimeKey, rfl⟩⟩
  · intro ⟨request, member, same⟩
    rcases same with rfl | ⟨entries, mtimeKey, rfl⟩
    · exact .inl member
    · exact .inr ⟨entries, mtimeKey, member⟩

/-- Other directories do not notice a reply, apart from its having been taken from the requests. -/
theorem warming_reply_of (warming : Warming w) {w' : Warmth} {index : Nat} {request : Request}
    (found : w.requests[index]? = some request)
    (authority : w'.caches.authority = w.caches.authority) (epoch : w'.caches.epoch = w.caches.epoch)
    (on : w'.caches.listingPrefetch = w.caches.listingPrefetch)
    (listing : w'.caches.listingPrefetchDirs = w.caches.listingPrefetchDirs)
    (requests : ∀ q ∈ w.requests.eraseIdx index, q ∈ w'.requests)
    (others : ∀ dir, ¬ w.For dir request →
      (w.caches.dircache dir ≠ none → w'.caches.dircache dir ≠ none) ∧
        (w.problems (w.key dir) ≠ none → w'.problems (w.key dir) ≠ none))
    (concerned : ∀ dir, w.Marked dir → w.For dir request →
      w'.caches.dircache dir ≠ none ∨ w'.problems (w.key dir) ≠ none ∨ w'.Fetching dir) :
    Warming w' := by
  refine ⟨on.trans warming.on, fun dir marked => ?_⟩
  have same : w'.key dir = w.key dir := by
    unfold key
    rw [authority]
  have marked : w.Marked dir := by
    unfold Marked at marked ⊢
    rw [same, listing] at marked
    exact marked
  rw [same]
  by_cases here : w.For dir request
  · exact concerned dir marked here
  · rcases warming.marked dir marked with cached | problem | fetching
    · exact .inl ((others dir here).1 cached)
    · exact .inr (.inl ((others dir here).2 problem))
    · right
      right
      obtain ⟨q, member, is_for⟩ := (fetching_iff dir).mp fetching
      have apart : q ≠ request := fun same => here (same ▸ is_for)
      apply (fetching_iff dir).mpr
      refine ⟨q, requests q (mem_eraseIdx_of_ne found member apart), ?_⟩
      unfold For at is_for ⊢
      rw [epoch]
      exact is_for

/-- A reply that is not taken concerns no marked directory. -/
theorem warming_dropped (warming : Warming w) {index : Nat} {request : Request}
    (found : w.requests[index]? = some request)
    (unconcerned : ∀ dir, w.Marked dir → ¬ w.For dir request) :
    Warming { w with requests := w.requests.eraseIdx index } := by
  apply warming_reply_of warming found
  · rfl
  · rfl
  · rfl
  · rfl
  · exact fun _ member => member
  · exact fun _ _ => ⟨fun cached => cached, fun problem => problem⟩
  · exact fun dir marked concerns => absurd concerns (unconcerned dir marked)

theorem warming_readdir (warming : Warming w) {index : Nat} {dir : String} {epoch : Nat}
    {response : Response} (found : w.requests[index]? = some (.readdir dir epoch))
    (answers : response.Answers (.readdir dir epoch)) :
    Warming ({ w with requests := w.requests.eraseIdx index }.callback (.readdir dir epoch)
      response) := by
  simp only [callback]
  by_cases taken : epoch = w.caches.epoch ∧ w.caches.prefetchKeyActive dir = true
  · have for_iff : ∀ other, w.For other (.readdir dir epoch) ↔ other = dir := by
      intro other
      simp only [For, taken.1, Request.readdir.injEq, and_true, reduceCtorEq, exists_false, or_false]
      exact eq_comm
    rw [if_pos taken]
    cases response with
    | stat attrs => cases answers
    | done => cases answers
    | listing entries selfAttrs =>
        apply warming_reply_of warming found
        · rfl
        · rfl
        · rfl
        · rfl
        · exact fun _ member => List.mem_append_left _ member
        · intro other apart
          rw [for_iff] at apart
          simp [key, apart]
        · intro other _ here
          rw [for_iff] at here
          simp [here]
    | error text =>
        apply warming_reply_of warming found
        · rfl
        · rfl
        · rfl
        · rfl
        · exact fun _ member => member
        · intro other apart
          rw [for_iff] at apart
          simp [key, apart]
        · intro other _ here
          rw [for_iff] at here
          simp [key, here]
  · rw [if_neg taken]
    apply warming_dropped warming found
    intro other marked here
    rcases here with same | ⟨_, _, same⟩
    · injection same with dir_eq epoch_eq
      rw [dir_eq, epoch_eq] at taken
      exact taken ⟨rfl, active_of_marked marked⟩
    · cases same

theorem warming_stat (warming : Warming w) {index : Nat} {dir : String} {epoch : Nat}
    {entries : List String} {mtimeKey : MtimeKey} (response : Response)
    (found : w.requests[index]? = some (.stat dir epoch entries mtimeKey)) :
    Warming ({ w with requests := w.requests.eraseIdx index }.callback
      (.stat dir epoch entries mtimeKey) response) := by
  simp only [callback]
  by_cases taken : epoch = w.caches.epoch ∧ w.caches.prefetchKeyActive dir = true
  · have for_iff : ∀ other, w.For other (.stat dir epoch entries mtimeKey) ↔ other = dir := by
      intro other
      simp [For, taken.1, eq_comm]
    have rewarmed : Warming
        ({ w with requests := w.requests.eraseIdx index }.listingRewarmAsync dir) := by
      apply warming_reply_of warming found
      · rfl
      · rfl
      · rfl
      · rfl
      · exact fun _ member => List.mem_append_left _ member
      · exact fun _ _ => ⟨fun cached => cached, fun problem => problem⟩
      · intro other _ here
        rw [for_iff] at here
        right
        right
        left
        rw [here]
        exact List.mem_append_right _ (List.mem_singleton_self _)
    rw [if_pos taken]
    cases response with
    | listing read selfAttrs => exact rewarmed
    | done => exact rewarmed
    | error text => exact rewarmed
    | stat attrs =>
        simp only
        by_cases unmoved : attrsMtimeKey attrs = mtimeKey
        · rw [if_pos unmoved]
          apply warming_reply_of warming found
          · rfl
          · rfl
          · rfl
          · rfl
          · exact fun _ member => List.mem_append_left _ member
          · intro other apart
            rw [for_iff] at apart
            simp [apart]
          · intro other _ here
            rw [for_iff] at here
            simp [here]
        · rw [if_neg unmoved]
          exact rewarmed
  · rw [if_neg taken]
    apply warming_dropped warming found
    intro other marked here
    rcases here with same | ⟨_, _, same⟩
    · cases same
    · injection same with dir_eq epoch_eq
      rw [dir_eq, epoch_eq] at taken
      exact taken ⟨rfl, active_of_marked marked⟩

theorem warming_step (warming : Warming w) {act : Step} (answered : w.Answered act)
    (spares : w.Spares act) : Warming (w.step act) := by
  cases act with
  | event event => exact warming_event warming spares
  | profiles active => exact warming_profiles warming active
  | reply index response =>
      simp only [step]
      cases found : w.requests[index]? with
      | none => exact warming
      | some request =>
          have answers := answered request found
          cases request with
          | readdir dir epoch => exact warming_readdir warming found answers
          | stat dir epoch entries mtimeKey => exact warming_stat warming response found
          | watch dir =>
              apply warming_dropped warming found
              intro other _ here
              rcases here with same | ⟨_, _, same⟩
              · cases same
              · cases same

/-- The requests of a new connection, one for each marked directory. -/
theorem revalidate_foldl (dirs : List String) :
    (dirs.foldl revalidate w).caches = w.caches ∧
      (∀ q ∈ w.requests, q ∈ (dirs.foldl revalidate w).requests) ∧
      ∀ dir ∈ dirs, (dirs.foldl revalidate w).Fetching dir := by
  induction dirs generalizing w with
  | nil => exact ⟨rfl, fun _ member => member, nofun⟩
  | cons dir dirs ih =>
      have caches : (w.revalidate dir).caches = w.caches := by
        unfold revalidate
        split <;> rfl
      have first : ∃ request, (w.revalidate dir).requests = w.requests ++ [request] ∧
          w.For dir request := by
        unfold revalidate
        split
        · exact ⟨_, rfl, .inl rfl⟩
        · exact ⟨_, rfl, .inr ⟨_, _, rfl⟩⟩
      obtain ⟨request, sent, is_for⟩ := first
      obtain ⟨later, kept, fetching⟩ := ih (w := w.revalidate dir)
      rw [caches] at later
      refine ⟨later, ?_, ?_⟩
      · intro q member
        apply kept
        rw [sent]
        exact List.mem_append_left _ member
      · intro other member
        rcases List.mem_cons.mp member with rfl | rest
        · apply (fetching_iff other).mpr
          refine ⟨request, kept request ?_, ?_⟩
          · rw [sent]
            exact List.mem_append_right _ (List.mem_singleton_self _)
          · unfold For at is_for ⊢
            rw [List.foldl_cons, later]
            exact is_for
        · exact fetching other rest

theorem warming_connect {c : Caches} (mtimeKeys : Key → MtimeKey) (problems : Key → Option String)
    (on : c.listingPrefetch = true) : Warming (connect c mtimeKeys problems) := by
  unfold connect
  obtain ⟨caches, -, fetching⟩ := revalidate_foldl
    (w := ⟨{ c with epoch := 0, dircache := fun _ => none }, mtimeKeys, problems, []⟩)
    ((c.listingPrefetchDirs ++ c.contentPrefetchDirs).filter (·.1 = c.authority) |>.dedup
      |>.map (·.2))
  constructor
  · rw [caches]
    exact on
  · intro dir marked
    right
    right
    apply fetching
    apply List.mem_map.mpr
    refine ⟨(c.authority, dir), ?_, rfl⟩
    rw [List.mem_dedup, List.mem_filter]
    unfold Marked key at marked
    rw [caches] at marked
    exact ⟨List.mem_append_left _ marked, by simp⟩

/-- In every run of a connection in which each event leaves its listing or its problem to every
marked directory that it is not a change in, marked directories are warm whenever nothing is under
way. -/
theorem marked_warm {c : Caches} {mtimeKeys : Key → MtimeKey} {problems : Key → Option String}
    (on : c.listingPrefetch = true)
    (reached : Reaches step (fun w act => w.Answered act ∧ w.Spares act)
      (connect c mtimeKeys problems) w)
    (quiet : w.requests = []) : w.Warm := by
  have warming : Warming w := by
    apply Reaches.invariant _ _ reached
    · exact warming_connect mtimeKeys problems on
    · intro w act warming permitted
      exact warming_step warming permitted.1 permitted.2
  intro dir marked
  rcases warming.marked dir marked with cached | problem | fetching
  · exact .inl cached
  · exact .inr problem
  · obtain ⟨request, member, -⟩ := (fetching_iff dir).mp fetching
    rw [quiet] at member
    cases member

end Steps

/-- Two directories are marked. -/
def twoMarked : Caches where
  authority := "local"
  listingPrefetchDirs := [("local", "/a"), ("local", "/b")]

def atConnect : Warmth := connect twoMarked (fun _ => (none, none)) fun _ => none

/-- Both are fetched, the one cannot be read, and then the other changes. -/
def changedOnce : List Step :=
  [.reply 0 (.listing ["x"] none), .reply 0 (.error none), .event (.changed .created "/a" "y"),
    .reply 0 .done, .reply 0 (.listing ["x", "y"] none), .reply 0 .done]

theorem marked_warm_once : (changedOnce.foldl step atConnect).Warm := by
  have reached : Reaches step (fun w act => w.Answered act ∧ w.Spares act) atConnect
      (changedOnce.foldl step atConnect) := by
    apply Reaches.of_along .refl
    refine ⟨⟨?_, trivial⟩, ⟨?_, trivial⟩, ⟨trivial, ?_⟩, ⟨?_, trivial⟩, ⟨?_, trivial⟩,
      ⟨?_, trivial⟩, trivial⟩
    · intro request found
      rw [← Option.some.inj found]
      trivial
    · intro request found
      rw [← Option.some.inj found]
      trivial
    · intro dir marked
      have either : dir = "/a" ∨ dir = "/b" := by
        have member : ("local", dir) ∈ [("local", "/a"), ("local", "/b")] := marked
        simpa using member
      rcases either with rfl | rfl
      · exact .inl rfl
      · exact .inr (.inr (by decide))
    · intro request found
      rw [← Option.some.inj found]
      trivial
    · intro request found
      rw [← Option.some.inj found]
      trivial
    · intro request found
      rw [← Option.some.inj found]
      trivial
  exact marked_warm rfl reached rfl

/-- The two marked directories change one after the other. -/
def changedTogether : List Step :=
  [.reply 0 (.listing ["x"] none), .reply 0 (.listing [] none), .reply 0 .done, .reply 0 .done,
    .event (.changed .created "/a" "y"), .event (.changed .created "/b" "z"),
    .reply 0 (.listing ["x", "y"] none), .reply 0 (.listing ["z"] none), .reply 0 .done]

/-- The second event discards the fetch that the first one began. -/
theorem marked_cold :
    ¬ ∀ (c : Caches) (mtimeKeys : Key → MtimeKey) (problems : Key → Option String) (w : Warmth),
      c.listingPrefetch = true → Reaches step Answered (connect c mtimeKeys problems) w →
      w.requests = [] → w.Warm := by
  intro always
  have reached : Reaches step Answered atConnect (changedTogether.foldl step atConnect) := by
    apply Reaches.of_along .refl
    refine ⟨?_, ?_, ?_, ?_, trivial, trivial, ?_, ?_, ?_, trivial⟩ <;>
    · intro request found
      rw [← Option.some.inj found]
      trivial
  have warm := always twoMarked _ _ _ rfl reached rfl "/a" List.mem_cons_self
  revert warm
  decide

end Warmth

end EmacsRelay.RelayPrefetch

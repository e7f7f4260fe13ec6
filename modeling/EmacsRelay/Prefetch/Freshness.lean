import EmacsRelay.Prefetch.Listing

set_option autoImplicit false

/- Cached listings are up to date: a listing that is not, or will not be once it is cached, has an
event on the way that drops it. -/
namespace EmacsRelay.RelayPrefetch

open Server

/-- The server has begun to read, and the reply will not be an error as far as is known. -/
def Phase.begun : Phase → Bool
  | .asked => false
  | .reading _ => true
  | .answered entries => entries.isSome
  | .queued entries => entries.isSome

/-- What was read so far is what the directory holds. -/
def Phase.Current (names : List String) : Phase → Prop
  | .asked => True
  | .reading changed => changed = false
  | .answered entries => ∀ read, entries = some read → read = names
  | .queued entries => ∀ read, entries = some read → read = names

/-- A listing of DIR is cached, or is being read and will be. -/
def World.Read (w : World) (dir : String) : Prop :=
  w.caches.dircache dir ≠ none ∨ ∃ id fetch, w.fetches id = some fetch ∧ fetch.dir = dir ∧
    fetch.epoch = w.caches.epoch ∧ fetch.phase.begun = true

/-- A directory that was read changes only while the server watches it, and not by way of an entry
that is watched itself when the change is reported. -/
def Guarded (w : World) : Happening → Prop
  | .change names _ => ∀ dir, names dir ≠ w.names dir → w.Read dir →
      ∃ canon, dir ∈ w.watched.aliases canon
  | .report => ∀ change rest, w.unreported = change :: rest → ∀ q, change.2.parent = some q →
      ∀ dir ∈ w.watched.aliases q.render, w.Read dir →
        w.watched change.2.render = none ∨
          ∃ asked ∈ w.watched.aliases change.2.render, Within asked dir
  | _ => True

/-- An event that drops the listing of DIR is on the way. -/
def World.Coming (w : World) (dir : String) : Prop :=
  (∃ event, .event event ∈ w.channel ∧ evictsListing dir event = true) ∨
    ∃ change ∈ w.unreported, ∃ q, change.2.parent = some q ∧ dir ∈ w.watched.aliases q.render

structure Fresh (w : World) : Prop where
  epochs : ∀ id fetch, w.fetches id = some fetch → fetch.epoch ≤ w.caches.epoch
  cached : ∀ dir entries, w.caches.dircache dir = some entries →
    entries = w.names dir ∨ w.Coming dir
  fetched : ∀ id fetch, w.fetches id = some fetch → fetch.epoch = w.caches.epoch →
    fetch.phase.Current (w.names fetch.dir) ∨ w.Coming fetch.dir

section Freshness

variable {w w' : World}

theorem World.Coming.mono {dir : String} (coming : w.Coming dir)
    (channel : ∀ m ∈ w.channel, m ∈ w'.channel)
    (unreported : ∀ change ∈ w.unreported, change ∈ w'.unreported)
    (watched : ∀ canon, ∀ dir ∈ w.watched.aliases canon, dir ∈ w'.watched.aliases canon) :
    w'.Coming dir := by
  rcases coming with ⟨event, sent, evicts⟩ | ⟨change, seen, q, found, member⟩
  · exact .inl ⟨event, channel _ sent, evicts⟩
  · exact .inr ⟨change, unreported _ seen, q, found, watched _ _ member⟩

/-- One request moves on, and messages are only added. -/
theorem Fresh.setFetch (fresh : Fresh w) (id : Nat) (fetch : Option Fetch)
    (epoch : ∀ f, fetch = some f → f.epoch ≤ w.caches.epoch)
    (current : ∀ f, fetch = some f → f.epoch = w.caches.epoch →
      f.phase.Current (w.names f.dir) ∨ w.Coming f.dir) :
    Fresh (w.setFetch id fetch) where
  epochs other f found := by
    simp only [World.setFetch_fetches] at found
    split at found
    · exact epoch f found
    · exact fresh.epochs other f found
  cached := fresh.cached
  fetched other f found same := by
    simp only [World.setFetch_fetches] at found
    split at found
    · exact current f found same
    · exact fresh.fetched other f found same

theorem Fresh.readdir (fresh : Fresh w) (dir : String) (blocking : Bool) :
    Fresh (w.readdir dir blocking) := by
  have asked := fresh.setFetch w.nextId
    (some { dir := dir, epoch := w.caches.epoch, blocking := blocking })
    (fun f is => by
      cases is
      exact Nat.le_refl _)
    (fun f is _ => by
      rw [← Option.some.inj is]
      exact .inl trivial)
  exact ⟨asked.epochs, asked.cached, asked.fetched⟩

theorem Fresh.listing (fresh : Fresh w) (dir : String) : Fresh (w.listing dir) := by
  unfold World.listing
  split
  · exact fresh
  · exact fresh.readdir dir true

theorem Fresh.install (fresh : Fresh w) {dir : String} {entries : List String}
    (current : entries = w.names dir ∨ w.Coming dir) : Fresh (w.install dir entries) where
  epochs := fresh.epochs
  cached other found is := by
    simp only [World.install, Caches.listingPopulate_dircache] at is
    split at is
    · rename_i same
      rw [← Option.some.inj is, same]
      exact current
    · exact fresh.cached other found is
  fetched := fresh.fetched

theorem Fresh.finish (fresh : Fresh w) (id : Nat) : Fresh (w.finish id) := by
  have removed : Fresh (w.setFetch id none) := fresh.setFetch id none nofun nofun
  unfold World.finish
  split
  · rename_i dir epoch blocking entries found
    cases entries with
    | none => exact removed
    | some entries =>
        simp only
        split
        · rename_i same
          split
          · apply removed.install
            have current := fresh.fetched id _ found same
            exact current.imp_left fun reads => reads entries rfl
          · exact removed
        · split
          · exact removed.readdir dir true
          · exact removed
  · exact fresh

theorem Fresh.rewarms (fresh : Fresh w) (dirs : List String) :
    Fresh (dirs.foldl World.listingRewarmAsync w) := by
  induction dirs generalizing w with
  | nil => exact fresh
  | cons dir dirs ih => exact ih (fresh.readdir dir false)

/-- An event begins a new epoch, in which no request that is under way counts. -/
theorem Fresh.handle (fresh : Fresh w) {event : FsEvent} {rest : List Msg}
    (first : w.channel = .event event :: rest) :
    Fresh { w with
      caches := (handleEvent w.caches event).caches
      channel := rest } where
  epochs id fetch found := by
    have earlier := fresh.epochs id fetch found
    have advanced := handleEvent_epoch w.caches event
    simp only
    omega
  cached dir entries found := by
    simp only [handleEvent_dircache] at found
    split at found
    · cases found
    · rename_i spared
      rcases fresh.cached dir entries found with same | coming
      · exact .inl same
      · right
        rcases coming with ⟨other, sent, evicts⟩ | due
        · rw [first, List.mem_cons] at sent
          rcases sent with this | later
          · exact absurd (Msg.event.inj this ▸ evicts) spared
          · exact .inl ⟨other, later, evicts⟩
        · exact .inr due
  fetched id fetch found same := by
    have earlier := fresh.epochs id fetch found
    have advanced := handleEvent_epoch w.caches event
    simp only at same
    omega

theorem Fresh.deliver (fresh : Fresh w) : Fresh w.deliver := by
  unfold World.deliver
  split
  · exact fresh
  · rename_i id rest first
    have coming : ∀ dir, w.Coming dir → World.Coming { w with channel := rest } dir := by
      intro dir coming
      rcases coming with ⟨event, sent, evicts⟩ | due
      · rw [first, List.mem_cons] at sent
        rcases sent with this | later
        · cases this
        · exact .inl ⟨event, later, evicts⟩
      · exact .inr due
    have taken : Fresh { w with channel := rest } :=
      ⟨fresh.epochs,
        fun dir entries found => (fresh.cached dir entries found).imp_right (coming dir),
        fun id fetch found same => (fresh.fetched id fetch found same).imp_right (coming _)⟩
    simp only
    split
    · rename_i fetch found
      split
      · rename_i entries answered
        apply taken.setFetch
        · intro f is
          rw [← Option.some.inj is]
          exact fresh.epochs id fetch found
        · intro f is same
          rw [← Option.some.inj is] at same ⊢
          have current := taken.fetched id fetch found same
          rw [answered] at current
          exact current
      · exact taken
    · exact taken
  · rename_i event rest first
    exact (fresh.handle first).rewarms _

theorem Fresh.begin (fresh : Fresh w) (id : Nat) : Fresh (w.begin id) := by
  unfold World.begin
  split
  · rename_i fetch found
    split
    · apply fresh.setFetch
      · intro f is
        rw [← Option.some.inj is]
        exact fresh.epochs id fetch found
      · intro f is _
        rw [← Option.some.inj is]
        exact .inl rfl
    · exact fresh
  · exact fresh

/-- Messages, reports and watches are only added. -/
theorem Fresh.grow (fresh : Fresh w) (caches : w'.caches = w.caches) (names : w'.names = w.names)
    (fetches : w'.fetches = w.fetches) (channel : ∀ m ∈ w.channel, m ∈ w'.channel)
    (unreported : ∀ change ∈ w.unreported, change ∈ w'.unreported)
    (watched : ∀ canon, ∀ dir ∈ w.watched.aliases canon, dir ∈ w'.watched.aliases canon) :
    Fresh w' where
  epochs := by
    rw [caches, fetches]
    exact fresh.epochs
  cached dir entries found := by
    rw [caches] at found
    rw [names]
    exact (fresh.cached dir entries found).imp_right fun coming =>
      coming.mono channel unreported watched
  fetched id fetch found same := by
    rw [fetches] at found
    rw [caches] at same
    rw [names]
    exact (fresh.fetched id fetch found same).imp_right fun coming =>
      coming.mono channel unreported watched

theorem Fresh.answer (fresh : Fresh w) (id : Nat) (seen : List String) (ok : Bool) :
    Fresh (w.answer id seen ok) := by
  unfold World.answer
  split
  · rename_i fetch found
    split
    · rename_i changed reading
      have ended := fresh.setFetch id (some { fetch with
        phase := .answered (if ok then some (if changed then seen else w.names fetch.dir)
          else none) })
        (fun f is => by
          rw [← Option.some.inj is]
          exact fresh.epochs id fetch found)
        (fun f is same => by
          rw [← Option.some.inj is] at same ⊢
          have current := fresh.fetched id fetch found same
          rw [reading] at current
          apply current.imp_left
          intro unchanged read is_read
          cases ok with
          | false => cases is_read
          | true =>
              rw [show changed = false from unchanged] at is_read
              exact (Option.some.inj is_read).symm)
      exact ended.grow rfl rfl rfl (fun m => List.mem_append_left _) (fun _ same => same)
        fun _ _ same => same
    · exact fresh
  · exact fresh

theorem watch_aliases (watched : WatchTable) (path canon : String) (watcher : Watching)
    (other : String) {dir : String} (member : dir ∈ watched.aliases other) :
    dir ∈ (watch watched path canon watcher).1.aliases other := by
  have kept : dir ∈ WatchTable.aliases (fun key => if key = canon then
      some (if path ∈ watched.aliases canon then watched.aliases canon
        else watched.aliases canon ++ [path]) else watched key) other := by
    by_cases here : other = canon
    · subst here
      by_cases known : path ∈ (watched other).getD []
      · simpa [WatchTable.aliases, known] using member
      · have added := List.mem_append_left [path] member
        simpa [WatchTable.aliases, known] using added
    · simpa [WatchTable.aliases, here] using member
  unfold watch
  simp only
  split
  · exact kept
  · rename_i unwatched
    cases watcher with
    | accepts => exact kept
    | absent => exact kept
    | refuses =>
        -- What is taken back had no names before.
        have apart : other ≠ canon := by
          intro here
          have none : watched canon = none := by simpa using unwatched
          simp [here, WatchTable.aliases, none] at member
        simpa [WatchTable.aliases, apart] using member

theorem Fresh.execWatch (fresh : Fresh w) (index : Nat) (canon : String) (watcher : Watching) :
    Fresh (w.execWatch index canon watcher) := by
  unfold World.execWatch
  split
  · rename_i dir found
    exact fresh.grow rfl rfl rfl (fun _ => id) (fun _ => id) fun other _ member =>
      watch_aliases w.watched dir canon watcher other member
  · exact fresh

theorem Fresh.overflow (fresh : Fresh w) :
    Fresh { w with channel := w.channel ++ [.event .overflow] } :=
  fresh.grow rfl rfl rfl (fun _ => List.mem_append_left _) (fun _ same => same) fun _ _ same => same

theorem Fresh.change (fresh : Fresh w) {names : String → List String}
    {paths : List (ChangeKind × FsPath)} (noticed : Noticed w (.change names paths))
    (guarded : Guarded w (.change names paths)) : Fresh (w.change names paths) := by
  have still : ∀ dir, w.Coming dir → (w.change names paths).Coming dir := fun dir coming =>
    coming.mono (fun _ same => same) (fun _ => List.mem_append_left _) fun _ _ same => same
  -- A directory that was read is watched, so that its change is noticed.
  have coming : ∀ dir, names dir ≠ w.names dir → w.Read dir →
      (w.change names paths).Coming dir := by
    intro dir differs read
    obtain ⟨canon, member⟩ := guarded dir differs read
    obtain ⟨change, listed, rendered⟩ := noticed canon dir member differs
    cases found : change.2.parent with
    | none => simp [found] at rendered
    | some q =>
        have place : q.render = canon := by simpa [found] using rendered
        exact .inr ⟨change, List.mem_append_right _ listed, q, found, place ▸ member⟩
  constructor
  · intro id fetch found
    simp only [World.change, Option.map_eq_some_iff] at found
    obtain ⟨before, was, rfl⟩ := found
    have earlier := fresh.epochs id before was
    split <;> exact earlier
  · intro dir entries found
    by_cases differs : names dir = w.names dir
    · have before := (fresh.cached dir entries found).imp_right (still dir)
      rw [← differs] at before
      exact before
    · right
      apply coming dir differs
      left
      rw [show w.caches.dircache dir = some entries from found]
      exact Option.some_ne_none entries
  · intro id fetch found same
    simp only [World.change, Option.map_eq_some_iff] at found
    obtain ⟨before, was, rfl⟩ := found
    have then_same : before.epoch = w.caches.epoch := by
      split at same <;> exact same
    have earlier := (fresh.fetched id before was then_same).imp_right (still before.dir)
    by_cases differs : names before.dir = w.names before.dir
    · cases phase : before.phase with
      | reading changed =>
          simp only [differs, bne_self_eq_false, Bool.or_false, ← phase]
          rw [show (w.change names paths).names before.dir = w.names before.dir from differs]
          exact earlier
      | asked => exact .inl (by simp [phase, Phase.Current])
      | answered read =>
          show before.phase.Current (names before.dir) ∨ _
          rw [differs]
          exact earlier
      | queued read =>
          show before.phase.Current (names before.dir) ∨ _
          rw [differs]
          exact earlier
    · have read : before.phase.begun = true → (w.change names paths).Coming before.dir := fun begun =>
        coming before.dir differs (.inr ⟨id, before, was, rfl, then_same, begun⟩)
      cases phase : before.phase with
      | reading changed => exact .inr (read (by rw [phase]; rfl))
      | asked => exact .inl (by simp [phase, Phase.Current])
      | answered entries =>
          cases entries with
          | none => exact .inl (by simp [phase, Phase.Current])
          | some entries => exact .inr (read (by rw [phase]; rfl))
      | queued entries =>
          cases entries with
          | none => exact .inl (by simp [phase, Phase.Current])
          | some entries => exact .inr (read (by rw [phase]; rfl))

theorem World.Coming.report {dir : String} (coming : w.Coming dir) (read : w.Read dir)
    (guarded : Guarded w .report) : w.report.Coming dir := by
  unfold World.report
  cases listed : w.unreported with
  | nil =>
      simp only
      exact coming
  | cons change rest =>
      simp only
      rcases coming with ⟨event, sent, evicts⟩ | ⟨due, seen, q, found, member⟩
      · exact .inl ⟨event, List.mem_append_left _ sent, evicts⟩
      · rw [listed, List.mem_cons] at seen
        rcases seen with rfl | later
        · -- The change is reported now: to the names of the directory, or to those of the path.
          left
          rcases guarded due rest listed q found dir member read with
            unwatched | ⟨asked, own, within⟩
          · refine ⟨_, List.mem_append_right _ (List.mem_map_of_mem
              (mem_pathEvents_changed unwatched found member)), ?_⟩
            simp [evictsListing]
          · refine ⟨.selfChanged asked, List.mem_append_right _ (List.mem_map_of_mem ?_),
              (nested_iff asked dir).mpr within⟩
            cases entry : w.watched due.2.render with
            | none => simp [WatchTable.aliases, entry] at own
            | some aliases =>
                rw [pathEvents_watched entry]
                exact List.mem_map_of_mem (by simpa [WatchTable.aliases, entry] using own)
        · exact .inr ⟨due, later, q, found, member⟩

theorem Fresh.report (fresh : Fresh w) (guarded : Guarded w .report) : Fresh w.report := by
  have unmoved : w.report.caches = w.caches ∧ w.report.names = w.names ∧
      w.report.fetches = w.fetches := by
    unfold World.report
    split <;> exact ⟨rfl, rfl, rfl⟩
  obtain ⟨caches, names, fetches⟩ := unmoved
  constructor
  · rw [caches, fetches]
    exact fresh.epochs
  · intro dir entries found
    rw [caches] at found
    rw [names]
    apply (fresh.cached dir entries found).imp_right
    intro coming
    apply coming.report _ guarded
    left
    rw [found]
    exact Option.some_ne_none entries
  · intro id fetch found same
    rw [fetches] at found
    rw [caches] at same
    rw [names]
    rcases fresh.fetched id fetch found same with current | coming
    · exact .inl current
    · cases begun : fetch.phase.begun with
      | true => exact .inr (coming.report (.inr ⟨id, fetch, found, rfl, same, begun⟩) guarded)
      | false =>
          left
          cases phase : fetch.phase with
          | asked => trivial
          | reading changed => simp [phase, Phase.begun] at begun
          | answered entries =>
              rw [phase] at begun
              simp only [Phase.begun, Option.isSome_eq_false_iff, Option.isNone_iff_eq_none] at begun
              simp [Phase.Current, begun]
          | queued entries =>
              rw [phase] at begun
              simp only [Phase.begun, Option.isSome_eq_false_iff, Option.isNone_iff_eq_none] at begun
              simp [Phase.Current, begun]

theorem Fresh.step (fresh : Fresh w) (happening : Happening) (noticed : Noticed w happening)
    (guarded : Guarded w happening) : Fresh (w.step happening) := by
  cases happening with
  | listing dir => exact fresh.listing dir
  | rewarm dir => exact fresh.readdir dir false
  | finish id => exact fresh.finish id
  | giveUp id => exact fresh.setFetch id none nofun nofun
  | deliver => exact fresh.deliver
  | begin id => exact fresh.begin id
  | answer id seen ok => exact fresh.answer id seen ok
  | watch index canon watcher => exact fresh.execWatch index canon watcher
  | change names paths => exact fresh.change noticed guarded
  | report => exact fresh.report guarded
  | overflow => exact fresh.overflow

/-- In every run in which directories that were read change only while they are watched, and not
by way of an entry watched itself, a cached listing is up to date. -/
theorem listing_up_to_date {c : Caches} {names : String → List String}
    (reached : Reaches World.step (fun w happening => Noticed w happening ∧ Guarded w happening)
      (World.start c names) w) : UpToDate w := by
  have start : Fresh (World.start c names) := ⟨nofun, nofun, nofun⟩
  have fresh : Fresh w := reached.invariant start fun _ happening fresh permitted =>
    fresh.step happening permitted.1 permitted.2
  intro dir entries quiet found _
  apply (fresh.cached dir entries found).resolve_right
  rintro (⟨event, sent, evicts⟩ | ⟨change, seen, q, parent, member⟩)
  · rw [quiet.channel event sent] at evicts
    cases evicts
  · exact quiet.unreported change seen q parent member

end Freshness

/-- The directory `/d` holds the names given, and no other directory holds any. -/
def holding (names : List String) (dir : String) : List String := if dir = "/d" then names else []

/-- A directory is listed, then an entry is created in it and reported, and it is listed again. -/
def listedTwice : List Happening :=
  [.listing "/d", .begin 0, .answer 0 [] true, .deliver, .finish 0, .watch 0 "/d" .accepts,
    .change (holding ["a", "b"]) [(.created, ⟨["d", "b"]⟩)], .report, .deliver,
    .listing "/d", .begin 1, .answer 1 [] true, .deliver, .finish 1, .watch 0 "/d" .accepts]

theorem holding_differs {before after : List String} {dir : String}
    (differs : holding after dir ≠ holding before dir) : dir = "/d" := by
  apply Classical.byContradiction
  intro other
  simp [holding, other] at differs

theorem listing_up_to_date_listed_twice :
    (listedTwice.foldl World.step (World.start { authority := "local" } (holding ["a"]))).names
      "/d" = ["a", "b"] ∧
    UpToDate (listedTwice.foldl World.step
      (World.start { authority := "local" } (holding ["a"]))) := by
  refine ⟨by decide, listing_up_to_date (Reaches.of_along .refl ?_)⟩
  have changes : ∀ w : World, w.names = holding ["a"] → "/d" ∈ w.watched.aliases "/d" →
      (∀ canon, "/d" ∈ w.watched.aliases canon → canon = "/d") →
      Noticed w (.change (holding ["a", "b"]) [(.created, ⟨["d", "b"]⟩)]) ∧
        Guarded w (.change (holding ["a", "b"]) [(.created, ⟨["d", "b"]⟩)]) := by
    intro w names member only
    constructor
    · intro canon dir asked differs
      rw [names] at differs
      have named := holding_differs differs
      rw [named] at asked
      rw [only canon asked]
      exact ⟨_, List.mem_singleton_self _, rfl⟩
    · intro dir differs _
      rw [names] at differs
      rw [holding_differs differs]
      exact ⟨"/d", member⟩
  have reports : Guarded (listedTwice.take 7 |>.foldl World.step
      (World.start { authority := "local" } (holding ["a"]))) .report := by
    intro change rest listed q found dir member read
    left
    have only := List.cons.inj listed
    rw [← only.1]
    decide
  refine ⟨⟨trivial, trivial⟩, ⟨trivial, trivial⟩, ⟨trivial, trivial⟩, ⟨trivial, trivial⟩,
    ⟨trivial, trivial⟩, ⟨trivial, trivial⟩, changes _ rfl (by decide) ?_, ⟨trivial, reports⟩,
    ⟨trivial, trivial⟩, ⟨trivial, trivial⟩, ⟨trivial, trivial⟩, ⟨trivial, trivial⟩,
    ⟨trivial, trivial⟩, ⟨trivial, trivial⟩, ⟨trivial, trivial⟩, trivial⟩
  intro canon member
  apply Classical.byContradiction
  intro other
  change "/d" ∈ (if canon = "/d" then some ["/d"] else (none : Option (List String))).getD [] at member
  rw [if_neg other] at member
  cases member

/-- An entry is created after the server has read the directory and before it watches it. -/
def createdBetween : List Happening :=
  [.listing "/d", .begin 0, .answer 0 [] true, .change (holding ["a", "b"]) [], .deliver, .finish 0,
    .watch 0 "/d" .accepts]

theorem created_between_stays_unlisted :
    ¬ ∀ c names w, Reaches World.step Noticed (World.start c names) w → UpToDate w := by
  intro always
  have reached : Reaches World.step Noticed (World.start { authority := "local" } (holding ["a"]))
      (createdBetween.foldl World.step (World.start { authority := "local" } (holding ["a"]))) := by
    apply Reaches.of_along .refl
    refine ⟨trivial, trivial, trivial, ?_, trivial, trivial, trivial, trivial⟩
    intro canon dir member
    cases member
  have quiet : Quiet (createdBetween.foldl World.step
      (World.start { authority := "local" } (holding ["a"]))) "/d" := by
    refine ⟨?_, by decide, nofun, nofun⟩
    intro id fetch found
    match id with
    | 0 => cases found
    | _ + 1 => cases found
  have current := always _ _ _ reached "/d" ["a"] quiet (by decide) (by decide)
  exact absurd current (by decide)

end EmacsRelay.RelayPrefetch

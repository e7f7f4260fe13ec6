import EmacsRelay.Prefetch.Registry
import EmacsRelay.Server.Unwatch

set_option autoImplicit false

/- Watches on both sides of the connections to an authority: the messages about them that the client
sends, the tables of the servers, and the messages of their watchers. -/
namespace EmacsRelay.Server.Watches

section

variable (home : Option String)

/-- The table's iterator finds a path that is there, and no path in the table comes to lead
elsewhere, nor is its directory deleted or replaced. -/
def Faithful (s : Watches) : Input → Prop
  | .change directories deleted =>
      Possible s (.change directories deleted) ∧
        Steady home true s (.change directories deleted) ∧
        ∀ path canon, path ∈ s.watched.aliases canon →
          (s.step home true (.change directories deleted)).canon home path = canon
  | input => Possible s input

/-- No entry names a path twice, and a path is in the entry of the directory that it leads to. -/
structure Homed (s : Watches) : Prop where
  once : ∀ canon, (s.watched.aliases canon).Nodup
  home : ∀ path canon, path ∈ s.watched.aliases canon → s.canon home path = canon

end

variable {home : Option String} {s : Watches}

theorem canon_watch (path : String) (accepts : Bool) (p : String) :
    (s.step home true (.watch path accepts)).canon home p = s.canon home p := rfl

theorem canon_unwatch (path : String) (entry : Option String) (released : Bool) (p : String) :
    (s.step home true (.unwatch path entry released)).canon home p = s.canon home p := by
  cases entry with
  | none => rfl
  | some entry =>
      simp only [step]
      split <;> rfl

/-- An entry stays as it is, or is given the path. -/
theorem aliases_watch (path : String) (accepts : Bool) (key : String) :
    (s.step home true (.watch path accepts)).watched.aliases key = s.watched.aliases key ∨
      key = s.canon home path ∧ path ∉ s.watched.aliases key ∧
        (s.step home true (.watch path accepts)).watched.aliases key =
          s.watched.aliases key ++ [path] := by
  by_cases here : key = s.canon home path
  · subst here
    cases before : s.watched (s.canon home path) with
    | some aliases =>
        by_cases known : path ∈ aliases
        · left
          simp [step, watch, WatchTable.aliases, before, known]
        · right
          simp [step, watch, WatchTable.aliases, before, known]
    | none =>
        cases asked : s.watching home true path accepts with
        | accepts =>
            right
            simp [step, watch, WatchTable.aliases, before, asked]
        | refuses =>
            left
            simp [step, watch, WatchTable.aliases, before, asked]
        | absent =>
            unfold watching at asked
            split at asked
            · split at asked <;> cases asked
            · contradiction
  · left
    unfold WatchTable.aliases
    simp only [step, watch]
    split
    · simp only [here, if_false]
    · split <;> simp only [here, if_false]

/-- The path is taken off its entry. -/
theorem aliases_unwatched (path entry : String) (released : Bool) (key : String) :
    (s.step home true (.unwatch path (some entry) released)).watched.aliases key =
      if key = entry then (s.watched.aliases entry).erase path else s.watched.aliases key := by
  have same : (s.step home true (.unwatch path (some entry) released)).watched =
      (s.step home true (.unwatch path (some entry) true)).watched := by
    simp only [step]
    split <;> rfl
  rw [same]
  exact aliases_unwatch key

theorem mem_aliases_watch {path : String} {accepts : Bool}
    (succeeds : Succeeds home s (.watch path accepts)) (p key : String) :
    p ∈ (s.step home true (.watch path accepts)).watched.aliases key ↔
      p ∈ s.watched.aliases key ∨ p = path ∧ key = s.canon home path := by
  unfold WatchTable.aliases
  rw [watched_watch succeeds]
  by_cases here : key = s.canon home path
  · rw [if_pos here, Option.getD_some]
    unfold WatchTable.aliases
    split
    · rename_i known
      constructor
      · exact .inl
      · rintro (before | ⟨itself, -⟩)
        · exact before
        · exact itself ▸ known
    · simp [here]
  · simp [here]

/-- A path in the table is watched. -/
theorem live_of_named (bound : Bound true s) {path : String}
    (named : path ∈ s.watched.aliases (s.canon home path)) : Live home s path := by
  have entered : s.watched (s.canon home path) ≠ none := by
    intro absent
    simp [WatchTable.aliases, absent] at named
  obtain ⟨id, there, placed⟩ := bound rfl _ entered
  have told := told_of_named named
  exact ⟨⟨id, (dirAt_canon s path).symm.trans there, placed⟩, named, told.1, told.2⟩

theorem Homed.step (homed : s.Homed home) {input : Input} (faithful : s.Faithful home input) :
    (s.step home true input).Homed home := by
  cases input with
  | watch path accepts =>
      constructor
      · intro canon
        rcases aliases_watch path accepts canon with kept | ⟨-, unknown, added⟩
        · rw [kept]
          exact homed.once canon
        · rw [added]
          exact (homed.once canon).append (List.nodup_singleton path) (by simpa using unknown)
      · intro p canon listed
        rw [canon_watch]
        rcases aliases_watch path accepts canon with kept | ⟨here, -, added⟩
        · exact homed.home p canon (kept ▸ listed)
        · rw [added, List.mem_append, List.mem_singleton] at listed
          rcases listed with before | itself
          · exact homed.home p canon before
          · rw [itself, here]
  | unwatch path entry released =>
      cases entry with
      | none => exact homed
      | some entry =>
          constructor
          · intro canon
            rw [aliases_unwatched]
            split
            · exact (homed.once entry).erase path
            · exact homed.once canon
          · intro p canon listed
            rw [aliases_unwatched] at listed
            rw [canon_unwatch]
            split at listed
            · rename_i here
              rw [here]
              exact homed.home p entry (List.mem_of_mem_erase listed)
            · exact homed.home p canon listed
  | change directories deleted => exact ⟨homed.once, faithful.2.2⟩

end EmacsRelay.Server.Watches

namespace EmacsRelay.RelayPrefetch

open Server

/-- What the client does to its connections: it sends more on them, and an `unwatch` only for the
directory whose last direct watch is removed. -/
structure Onward (s : Registry) (doing : Doing) (s' : Registry) : Prop where
  latest : s'.latest = s.latest ∨ (s.links s.latest).live = false ∧ s'.latest = s.latest + 1
  fresh : s'.latest ≠ s.latest → (s'.links s'.latest).sent = []
  sent : ∀ k, s'.latest = s.latest ∨ k ≠ s'.latest → ∃ more : List WatchRequest,
    (s'.links k).sent = (s.links k).sent ++ more ∧
      ∀ dir, .unwatch dir ∈ more → ∃ descriptor, doing = .rmWatch descriptor ∧
        s.direct.emptied descriptor = some dir
  live : ∀ k, (s'.links k).live = true →
    (s.links k).live = true ∨ s'.latest ≠ s.latest ∧ k = s'.latest
  kept : ∀ k, (s.links k).live = true → (s'.links k).live = true ∨ doing = .die k
  ready : ∀ k, (s'.latest = s.latest ∨ k ≠ s'.latest) → (s.links k).ready = true →
    (s'.links k).ready = true

namespace Onward

variable {s t s' : Registry} {doing : Doing}

theorem of_settles (settles : Settles s s') : Onward s doing s' where
  latest := .inl settles.latest
  fresh changed := absurd settles.latest changed
  sent k _ := by
    obtain ⟨dirs, sent⟩ := settles.sent k
    refine ⟨dirs.map .watch, sent, ?_⟩
    intro dir member
    obtain ⟨_, _, same⟩ := List.mem_map.mp member
    cases same
  live k live := .inl (by rwa [← settles.live])
  kept k live := .inl (by rwa [settles.live])
  ready k _ ready := by rwa [settles.ready]

/-- Where only some connections come to be ready, or their processes end. -/
theorem of_links (latest : s'.latest = s.latest)
    (sent : ∀ k, (s'.links k).sent = (s.links k).sent)
    (live : ∀ k, (s'.links k).live = true → (s.links k).live = true)
    (kept : ∀ k, (s.links k).live = true → (s'.links k).live = true ∨ doing = .die k)
    (ready : ∀ k, (s.links k).ready = true → (s'.links k).ready = true) : Onward s doing s' where
  latest := .inl latest
  fresh changed := absurd latest changed
  sent k _ := ⟨[], by rw [sent, List.append_nil], by simp⟩
  live k up := .inl (live k up)
  kept := kept
  ready k _ := ready k

theorem settles (first : Onward s doing t) (latest : t.latest = s.latest) (second : Settles t s') :
    Onward s doing s' where
  latest := .inl (second.latest.trans latest)
  fresh changed := absurd (second.latest.trans latest) changed
  sent k _ := by
    obtain ⟨more, one, taken⟩ := first.sent k (.inl latest)
    obtain ⟨dirs, two⟩ := second.sent k
    refine ⟨more ++ dirs.map .watch, ?_, ?_⟩
    · rw [two, one, List.append_assoc]
    · intro dir member
      rcases List.mem_append.mp member with before | after
      · exact taken dir before
      · obtain ⟨_, _, same⟩ := List.mem_map.mp after
        cases same
  live k up := by
    rw [second.live] at up
    rcases first.live k up with before | ⟨changed, -⟩
    · exact .inl before
    · exact absurd latest changed
  kept k up := by
    rw [second.live]
    exact first.kept k up
  ready k _ before := by
    rw [second.ready]
    exact first.ready k (.inl latest) before

/-- At most one process runs, that of the latest connection. -/
theorem single (onward : Onward s doing s')
    (single : ∀ k, (s.links k).live = true → k = s.latest) :
    ∀ k, (s'.links k).live = true → k = s'.latest := by
  intro k up
  rcases onward.live k up with before | ⟨_, latest⟩
  · have here := single k before
    rcases onward.latest with same | ⟨down, _⟩
    · rw [same]
      exact here
    · rw [here, down] at before
      cases before
  · exact latest

end Onward

section Steps

variable (s : Registry)

theorem onward_connect : Onward s .connect s.connect := by
  unfold Registry.connect
  split
  · exact .of_settles .refl
  · rename_i down
    have others : ∀ k, k ≠ s.latest + 1 →
        (s.setLink (s.latest + 1) { live := true }).links k = s.links k := fun k ne => if_neg ne
    have older : ∀ k, s.latest + 1 = s.latest ∨ k ≠ s.latest + 1 → k ≠ s.latest + 1 := by
      intro k either
      rcases either with same | other
      · exact absurd same (Nat.succ_ne_self _)
      · exact other
    constructor
    case latest => exact .inr ⟨by simpa using down, rfl⟩
    case fresh =>
      intro _
      simp
    case sent =>
      intro k either
      have other := older k either
      exact ⟨[], by simp [other], by simp⟩
    case live =>
      intro k up
      by_cases here : k = s.latest + 1
      · exact .inr ⟨Nat.succ_ne_self _, here⟩
      · left
        simpa [here] using up
    case kept =>
      intro k up
      left
      by_cases here : k = s.latest + 1
      · simp [here]
      · simpa [here] using up
    case ready =>
      intro k either before
      have other := older k either
      simpa [other] using before

theorem onward_hello (k : Nat) : Onward s (.hello k) (s.hello k) := by
  unfold Registry.hello
  split
  · have opened : Onward s (.hello k) (s.setLink k { s.links k with ready := true }) := by
      apply Onward.of_links
      case latest => rfl
      case sent =>
        intro i
        by_cases here : i = k <;> simp [here]
      case live =>
        intro i
        by_cases here : i = k <;> simp [here]
      case kept =>
        intro i up
        left
        by_cases here : i = k
        · simpa [here] using here ▸ up
        · simpa [here] using up
      case ready =>
        intro i before
        by_cases here : i = k
        · simp [here]
        · simpa [here] using before
    apply opened.settles rfl
    have validated := settles_revalidateMarked (s.setLink k { s.links k with ready := true }) k
    exact validated.trans (settles_posts _)
  · exact .of_settles .refl

theorem onward_die (k : Nat) : Onward s (.die k) (s.step (.die k)) := by
  apply Onward.of_links
  case latest => rfl
  case sent =>
    intro i
    by_cases here : i = k <;> simp [Registry.step, here]
  case live =>
    intro i
    by_cases here : i = k <;> simp [Registry.step, here]
  case kept =>
    intro i up
    by_cases here : i = k
    · exact .inr (here ▸ rfl)
    · left
      simpa [Registry.step, here] using up
  case ready =>
    intro i before
    by_cases here : i = k
    · simpa [Registry.step, here] using here ▸ before
    · simpa [Registry.step, here] using before

theorem onward_addWatch (localdir : String) :
    Onward s (.addWatch localdir) (s.addWatch localdir) := by
  unfold Registry.addWatch
  split
  · have posted : Onward s (.addWatch localdir) (s.post s.latest (.watch localdir)) :=
      .of_settles (settles_post localdir)
    exact ⟨posted.latest, posted.fresh, posted.sent, posted.live, posted.kept, posted.ready⟩
  · exact .of_settles .refl

theorem onward_added (id : Nat) : Onward s (.added id) (s.added id) := by
  unfold Registry.added
  split
  · exact .of_links rfl (fun _ => rfl) (fun _ up => up) (fun _ up => .inl up) (fun _ before => before)
  · exact .of_settles .refl

theorem onward_rmWatch (descriptor : Nat) :
    Onward s (.rmWatch descriptor) (s.rmWatch descriptor) := by
  have removed : Onward s (.rmWatch descriptor)
      { s with direct := s.direct.remove descriptor } :=
    .of_links rfl (fun _ => rfl) (fun _ up => up) (fun _ up => .inl up) (fun _ before => before)
  have unwatched : ∀ localdir, s.direct.emptied descriptor = some localdir →
      Onward s (.rmWatch descriptor) (Registry.post { s with direct := s.direct.remove descriptor }
        s.latest (.unwatch localdir)) := by
    intro localdir emptied
    constructor
    case latest => exact .inl (post_latest _ _ _)
    case fresh => exact fun changed => absurd (post_latest _ _ _) changed
    case sent =>
      intro k _
      refine ⟨_, post_sent _ _ _ k, ?_⟩
      intro dir member
      split at member
      · rw [List.mem_singleton] at member
        cases member
        exact ⟨descriptor, rfl, emptied⟩
      · cases member
    case live =>
      intro k up
      rw [post_live] at up
      exact .inl up
    case kept =>
      intro k up
      rw [post_live]
      exact .inl up
    case ready =>
      intro k _ before
      rw [post_ready]
      exact before
  unfold Registry.rmWatch
  cases emptied : s.direct.emptied descriptor with
  | none => exact removed
  | some localdir =>
      simp only
      split
      · exact removed
      · exact unwatched localdir emptied

theorem onward_step (doing : Doing) : Onward s doing (s.step doing) := by
  cases doing with
  | connect => exact onward_connect s
  | hello k => exact onward_hello s k
  | die k => exact onward_die s k
  | listing k dir =>
      show Onward s _ (s.listing k dir)
      unfold Registry.listing
      split
      · exact .of_settles .refl
      · exact .of_settles (settles_ask dir .listing)
  | rewarm k dir => exact .of_settles (settles_ask dir .rewarm)
  | finish id entries => exact .of_settles (settles_finish id entries)
  | validated id same => exact .of_settles (settles_validated id same)
  | abandon id => exact .of_settles (settles_forget id)
  | event k event => exact .of_settles (settles_handle event)
  | mutate k caps mutation => exact .of_settles (settles_mutate caps mutation)
  | uncache k dir => exact .of_settles (settles_uncache dir)
  | mark listingPrefetch listing content =>
      exact .of_settles (settles_of_links rfl rfl (fun _ _ found => found) rfl)
  | profiles active => exact .of_settles (settles_applyActiveProfiles active)
  | addWatch localdir => exact onward_addWatch s localdir
  | added id => exact onward_added s id
  | rmWatch descriptor => exact onward_rmWatch s descriptor

end Steps

/-- The server of a connection: its watches, how many of the messages about them it has executed,
and the messages of its watcher that the client has not heard yet, and those that it has. -/
structure Attendance where
  watches : Watches
  served : Nat := 0
  unheard : List FsEvent := []
  heard : List FsEvent := []

/-- Both sides, with the calls of `file-notify` callbacks: the descriptor, what happened, and the
local name. -/
structure Vigil where
  registry : Registry
  servers : Nat → Attendance
  calls : List (Nat × Notification × String) := []

def WatchRequest.input (accepts : Bool) (entry : Option String) (released : Bool) :
    WatchRequest → Watches.Input
  | watch dir => .watch dir accepts
  | unwatch dir => .unwatch dir entry released

namespace Registry

/-- The caches of a connection, with the direct watches of its authority. -/
def attentive (s : Registry) (k : Nat) : Caches :=
  { s.caches k with
    directWatches := fun key =>
      if key.1 = s.shared.authority then s.direct.watchers key.2 else [] }

/-- `relay--handle-event` signals when it has a directory read again, before it calls anybody: where
the process is LOST without the client knowing, nothing can be sent. -/
def signals (s : Registry) (k : Nat) (lost : Bool) (event : FsEvent) : Bool :=
  lost && !(handleEvent (s.attentive k) event).rewarms.isEmpty

/-- The calls that `relay--handle-event` makes. -/
def told (s : Registry) (k : Nat) (lost : Bool) (event : FsEvent) :
    List (Nat × Notification × String) :=
  if s.signals k lost event then [] else (handleEvent (s.attentive k) event).notifications

/-- The calls that `relay--rewatch-direct-on-connect` makes. -/
def prompted (s : Registry) (k : Nat) : List (Nat × Notification × String) :=
  if (s.links k).live && !(s.links k).ready then
    s.direct.dirs.flatMap fun dir => (s.direct.watchers dir).map (·, .changed, dir)
  else []

end Registry

namespace Vigil

inductive Turn where
  | client (doing : Doing)
  /-- The server executes the next message about watches. -/
  | serve (k : Nat) (accepts : Bool) (entry : Option String) (released : Bool)
  /-- Directories are made, moved and deleted. -/
  | change (k : Nat) (directories : Directories) (deleted : List Nat)
  /-- The operating system tells the watcher of a path. -/
  | report (k : Nat) (kind : ChangeKind) (p : FsPath)
  /-- It tells of an error, or that reports are lost. -/
  | overflow (k : Nat)
  /-- The client handles the next message of the watcher; the process may be LOST already. -/
  | hear (k : Nat) (lost : Bool)
  /-- It handles one again: after it has signalled, the filter dispatches what it has kept. -/
  | rehear (k : Nat) (index : Nat)

def setServer (w : Vigil) (k : Nat) (server : Attendance) : Vigil :=
  { w with servers := fun i => if i = k then server else w.servers i }

/-- The message about watches that the server has to execute. -/
def next (w : Vigil) (k : Nat) : Option WatchRequest :=
  (w.registry.links k).sent[(w.servers k).served]?

/-- The messages about watches that it has executed. -/
def executed (w : Vigil) (k : Nat) : List WatchRequest :=
  (w.registry.links k).sent.take (w.servers k).served

/-- Those that it has not. -/
def underway (w : Vigil) (k : Nat) : List WatchRequest :=
  (w.registry.links k).sent.drop (w.servers k).served

/-- The client does something. A new connection has a new server. -/
def setRegistry (w : Vigil) (registry : Registry) : Vigil :=
  { w with
    registry := registry
    servers := fun k =>
      if registry.latest ≠ w.registry.latest ∧ k = registry.latest then
        { watches := ⟨(w.servers k).watches.directories, fun _ => none, []⟩ }
      else w.servers k }

def write (w : Vigil) (k : Nat) (events : List FsEvent) : Vigil :=
  w.setServer k { w.servers k with unheard := (w.servers k).unheard ++ events }

/-- The client takes the next message. -/
def heed (w : Vigil) (k : Nat) (event : FsEvent) (rest : List FsEvent) : Vigil :=
  w.setServer k { w.servers k with unheard := rest, heard := (w.servers k).heard ++ [event] }

/-- The calls that are made in a turn. -/
def called (w : Vigil) : Turn → List (Nat × Notification × String)
  | .client (.hello k) => w.registry.prompted k
  | .hear k lost => (w.servers k).unheard.head?.elim [] (w.registry.told k lost)
  | .rehear k index => (w.servers k).heard[index]?.elim [] (w.registry.told k true)
  | _ => []

section

-- `HOME` where the servers run
variable (home : Option String)

/-- What else happens in a turn. -/
def move (w : Vigil) : Turn → Vigil
  | .client doing => w.setRegistry (w.registry.step doing)
  | .serve k accepts entry released =>
      match w.next k with
      | some message =>
          w.setServer k { w.servers k with
            served := (w.servers k).served + 1
            watches :=
              (w.servers k).watches.step home true (message.input accepts entry released) }
      | none => w
  | .change k directories deleted =>
      w.setServer k { w.servers k with
        watches := (w.servers k).watches.step home true (.change directories deleted) }
  | .report k kind p => w.write k (pathEvents (w.servers k).watches.watched kind p)
  | .overflow k => w.write k [.overflow]
  | .hear k _ =>
      -- what is asked of a process that is lost is never answered
      match (w.servers k).unheard with
      | event :: rest => (w.heed k event rest).setRegistry (w.registry.handle k event)
      | [] => w
  | .rehear k index =>
      match (w.servers k).heard[index]? with
      | some event => w.setRegistry (w.registry.handle k event)
      | none => w

def step (w : Vigil) (turn : Turn) : Vigil :=
  { w.move home turn with calls := w.calls ++ w.called turn }

/-- Messages are heard from connections whose process runs, and not otherwise, and servers are
faithful. -/
def Lawful (w : Vigil) : Turn → Prop
  | .client (.event _ _) => False
  | .client _ => True
  | .serve k accepts entry released => ∀ message, w.next k = some message →
      (w.servers k).watches.Faithful home (message.input accepts entry released)
  | .change k directories deleted =>
      (w.servers k).watches.Faithful home (.change directories deleted)
  | .hear k _ => (w.registry.links k).live = true
  | .rehear k _ => (w.registry.links k).live = true
  | _ => True

/-- The watcher accepts what it is asked for, and a direct watch is registered while no `unwatch`
of its directory has been sent since. -/
def Heeded (w : Vigil) : Turn → Prop
  | .client doing => w.registry.Undisturbed doing
  | .serve k accepts _ _ => ∀ dir, w.next k = some (.watch dir) →
      Watches.Succeeds home (w.servers k).watches (.watch dir accepts)
  | _ => True

end

end Vigil

/-- The table lists the paths that were last asked to be watched, each for the directory it leads
to. -/
def Follows (home : Option String) (executed : List WatchRequest) (s : Watches) : Prop :=
  ∀ path canon, path ∈ s.watched.aliases canon ↔
    canon = s.canon home path ∧ lastRequest executed path = some (.watch path)

section Tables

variable {home : Option String} {executed : List WatchRequest} {s : Watches}

theorem follows_watch (follows : Follows home executed s) {dir : String} {accepts : Bool}
    (succeeds : Watches.Succeeds home s (.watch dir accepts)) :
    Follows home (executed ++ [.watch dir]) (s.step home true (.watch dir accepts)) := by
  intro path canon
  rw [Watches.mem_aliases_watch succeeds, Watches.canon_watch, follows path canon,
    lastRequest_append]
  by_cases same : dir = path
  · rw [same]
    simp +contextual [WatchRequest.dir]
  · have other : path ≠ dir := fun back => same back.symm
    simp [WatchRequest.dir, same, other]

theorem follows_unwatch (follows : Follows home executed s) (homed : s.Homed home) {dir : String}
    {entry : Option String} (released : Bool)
    (possible : Watches.Possible s (.unwatch dir entry released)) :
    Follows home (executed ++ [.unwatch dir]) (s.step home true (.unwatch dir entry released)) := by
  have taken : ∀ path canon,
      path ∈ (s.step home true (.unwatch dir entry released)).watched.aliases canon ↔
        path ≠ dir ∧ path ∈ s.watched.aliases canon := by
    intro path canon
    cases entry with
    | none =>
        constructor
        · intro listed
          refine ⟨?_, listed⟩
          intro same
          exact possible canon (same ▸ listed)
        · exact And.right
    | some entry =>
        have found : dir ∈ s.watched.aliases entry := possible
        rw [Watches.aliases_unwatched]
        by_cases here : canon = entry
        · rw [if_pos here, here, (homed.once entry).mem_erase_iff]
        · rw [if_neg here]
          constructor
          · intro listed
            refine ⟨?_, listed⟩
            intro same
            apply here
            rw [← homed.home path canon listed, same, homed.home dir entry found]
          · exact And.right
  intro path canon
  rw [taken, Watches.canon_unwatch, follows path canon, lastRequest_append]
  by_cases same : dir = path
  · simp [WatchRequest.dir, same]
  · have other : path ≠ dir := fun back => same back.symm
    simp [WatchRequest.dir, same, other]

theorem follows_change (follows : Follows home executed s) {directories : Directories}
    {deleted : List Nat} (faithful : s.Faithful home (.change directories deleted)) :
    Follows home executed (s.step home true (.change directories deleted)) := by
  have same : ∀ path canon, path ∈ s.watched.aliases canon →
      (s.step home true (.change directories deleted)).canon home path = canon := faithful.2.2
  intro path canon
  show path ∈ s.watched.aliases canon ↔ _
  constructor
  · intro listed
    exact ⟨(same path canon listed).symm, ((follows path canon).mp listed).2⟩
  · intro both
    have listed := (follows path (s.canon home path)).mpr ⟨rfl, both.2⟩
    rw [both.1, same path _ listed]
    exact listed

end Tables

namespace Vigil

/-- One process runs at most, and tables are as they should be. -/
structure Orderly (home : Option String) (w : Vigil) : Prop where
  single : ∀ k, (w.registry.links k).live = true → k = w.registry.latest
  served : ∀ k, (w.servers k).served ≤ (w.registry.links k).sent.length
  homed : ∀ k, (w.servers k).watches.Homed home

/-- Besides, the client has asked for what it needs, and tables follow what it asked for. -/
structure Standing (home : Option String) (w : Vigil) : Prop extends Orderly home w where
  registered : Registered w.registry
  follows : ∀ k, Follows home (w.executed k) (w.servers k).watches
  bound : ∀ k, Watches.Bound true (w.servers k).watches

section Turns

variable {home : Option String} {w : Vigil} {k : Nat}

@[simp] theorem setServer_servers (server : Attendance) (i : Nat) :
    (w.setServer k server).servers i = if i = k then server else w.servers i := rfl

@[simp] theorem setServer_registry (server : Attendance) :
    (w.setServer k server).registry = w.registry := rfl

@[simp] theorem setRegistry_registry (registry : Registry) :
    (w.setRegistry registry).registry = registry := rfl

/-- A server that is not new is as it was. -/
theorem setRegistry_old {registry : Registry}
    (old : registry.latest = w.registry.latest ∨ k ≠ registry.latest) :
    (w.setRegistry registry).servers k = w.servers k := by
  apply if_neg
  rcases old with same | other
  · exact fun new => new.1 same
  · exact fun new => other new.2

theorem setRegistry_new {registry : Registry} (new : registry.latest ≠ w.registry.latest) :
    (w.setRegistry registry).servers registry.latest =
      { watches := ⟨(w.servers registry.latest).watches.directories, fun _ => none, []⟩ } :=
  if_pos ⟨new, rfl⟩

theorem new_homed (directories : Directories) :
    Watches.Homed home ⟨directories, fun _ => none, []⟩ where
  once _ := List.nodup_nil
  home _ _ listed := by cases listed

theorem Orderly.setServer (orderly : Orderly home w) {server : Attendance}
    (served : server.served ≤ (w.registry.links k).sent.length)
    (homed : server.watches.Homed home) : Orderly home (w.setServer k server) where
  single := orderly.single
  served i := by
    rw [setServer_servers]
    by_cases here : i = k
    · rw [if_pos here, here]
      exact served
    · rw [if_neg here]
      exact orderly.served i
  homed i := by
    rw [setServer_servers]
    split
    · exact homed
    · exact orderly.homed i

theorem Orderly.setRegistry (orderly : Orderly home w) {doing : Doing} {registry : Registry}
    (onward : Onward w.registry doing registry) : Orderly home (w.setRegistry registry) where
  single := onward.single orderly.single
  served i := by
    by_cases old : registry.latest = w.registry.latest ∨ i ≠ registry.latest
    · obtain ⟨more, sent, -⟩ := onward.sent i old
      rw [setRegistry_old old, setRegistry_registry, sent, List.length_append]
      exact Nat.le_add_right_of_le (orderly.served i)
    · rw [not_or, not_not] at old
      rw [old.2, setRegistry_new old.1]
      exact Nat.zero_le _
  homed i := by
    by_cases old : registry.latest = w.registry.latest ∨ i ≠ registry.latest
    · rw [setRegistry_old old]
      exact orderly.homed i
    · rw [not_or, not_not] at old
      rw [old.2, setRegistry_new old.1]
      exact new_homed _

/-- The message that is next is the first of those that have not been executed. -/
theorem served_lt {message : WatchRequest} (next : w.next k = some message) :
    (w.servers k).served < (w.registry.links k).sent.length :=
  (List.getElem?_eq_some_iff.mp next).1

section Moves

variable (home) (accepts released : Bool) (entry : Option String)

theorem move_serve {message : WatchRequest} (next : w.next k = some message) :
    w.move home (.serve k accepts entry released) = w.setServer k { w.servers k with
      served := (w.servers k).served + 1
      watches :=
        (w.servers k).watches.step home true (message.input accepts entry released) } := by
  simp only [move, next]

theorem move_serve_none (next : w.next k = none) :
    w.move home (.serve k accepts entry released) = w := by
  simp only [move, next]

theorem move_hear (lost : Bool) {event : FsEvent} {rest : List FsEvent}
    (unheard : (w.servers k).unheard = event :: rest) :
    w.move home (.hear k lost) = (w.heed k event rest).setRegistry (w.registry.handle k event) := by
  simp only [move, unheard]

theorem move_hear_nil (lost : Bool) (unheard : (w.servers k).unheard = []) :
    w.move home (.hear k lost) = w := by
  simp only [move, unheard]

theorem move_rehear {index : Nat} {event : FsEvent} (kept : (w.servers k).heard[index]? = some event) :
    w.move home (.rehear k index) = w.setRegistry (w.registry.handle k event) := by
  simp only [move, kept]

theorem move_rehear_none {index : Nat} (kept : (w.servers k).heard[index]? = none) :
    w.move home (.rehear k index) = w := by
  simp only [move, kept]

end Moves

theorem Orderly.move (orderly : Orderly home w) {turn : Turn} (lawful : w.Lawful home turn) :
    Orderly home (w.move home turn) := by
  cases turn with
  | client doing => exact orderly.setRegistry (onward_step w.registry doing)
  | serve k accepts entry released =>
      cases next : w.next k with
      | none =>
          rw [move_serve_none home accepts released entry next]
          exact orderly
      | some message =>
          rw [move_serve home accepts released entry next]
          exact orderly.setServer (served_lt next)
            ((orderly.homed k).step (lawful message next))
  | change k directories deleted =>
      have faithful : (w.servers k).watches.Faithful home (.change directories deleted) := lawful
      exact orderly.setServer (orderly.served k) ((orderly.homed k).step faithful)
  | report k kind p => exact orderly.setServer (orderly.served k) (orderly.homed k)
  | overflow k => exact orderly.setServer (orderly.served k) (orderly.homed k)
  | hear k lost =>
      cases unheard : (w.servers k).unheard with
      | nil =>
          rw [move_hear_nil home lost unheard]
          exact orderly
      | cons event rest =>
          rw [move_hear home lost unheard]
          have heard : Orderly home (w.heed k event rest) :=
            orderly.setServer (orderly.served k) (orderly.homed k)
          exact heard.setRegistry (onward_step w.registry (.event k event))
  | rehear k index =>
      cases kept : (w.servers k).heard[index]? with
      | none =>
          rw [move_rehear_none home kept]
          exact orderly
      | some event =>
          rw [move_rehear home kept]
          exact orderly.setRegistry (onward_step w.registry (.event k event))

theorem Orderly.step (orderly : Orderly home w) {turn : Turn} (lawful : w.Lawful home turn) :
    Orderly home (w.step home turn) :=
  have moved := orderly.move lawful
  ⟨moved.single, moved.served, moved.homed⟩

theorem executed_setServer (server : Attendance) (i : Nat) :
    (w.setServer k server).executed i =
      (w.registry.links i).sent.take (if i = k then server else w.servers i).served := rfl

/-- The server of one connection goes on. -/
theorem Standing.setServer (standing : Standing home w) {server : Attendance}
    (served : server.served ≤ (w.registry.links k).sent.length)
    (homed : server.watches.Homed home)
    (follows : Follows home ((w.registry.links k).sent.take server.served) server.watches)
    (bound : Watches.Bound true server.watches) : Standing home (w.setServer k server) where
  toOrderly := standing.toOrderly.setServer served homed
  registered := standing.registered
  follows i := by
    rw [executed_setServer, setServer_servers]
    by_cases here : i = k
    · rw [if_pos here, here]
      exact follows
    · rw [if_neg here]
      exact standing.follows i
  bound i := by
    rw [setServer_servers]
    split
    · exact bound
    · exact standing.bound i

theorem executed_setRegistry (orderly : Orderly home w) {doing : Doing} {registry : Registry}
    (onward : Onward w.registry doing registry)
    (old : registry.latest = w.registry.latest ∨ k ≠ registry.latest) :
    (w.setRegistry registry).executed k = w.executed k := by
  obtain ⟨more, sent, -⟩ := onward.sent k old
  unfold executed
  rw [setRegistry_old old, setRegistry_registry, sent,
    List.take_append_of_le_length (orderly.served k)]

theorem Standing.setRegistry (standing : Standing home w) {doing : Doing} {registry : Registry}
    (onward : Onward w.registry doing registry) (registered : Registered registry) :
    Standing home (w.setRegistry registry) where
  toOrderly := standing.toOrderly.setRegistry onward
  registered := registered
  follows i := by
    by_cases old : registry.latest = w.registry.latest ∨ i ≠ registry.latest
    · rw [executed_setRegistry standing.toOrderly onward old, setRegistry_old old]
      exact standing.follows i
    · rw [not_or, not_not] at old
      unfold executed
      rw [old.2, setRegistry_new old.1]
      intro path canon
      simp [WatchTable.aliases, lastRequest]
  bound i := by
    by_cases old : registry.latest = w.registry.latest ∨ i ≠ registry.latest
    · rw [setRegistry_old old]
      exact standing.bound i
    · rw [not_or, not_not] at old
      rw [old.2, setRegistry_new old.1]
      intro _ canon entered
      exact absurd rfl entered

/-- The server executes a message. -/
theorem Standing.serve (standing : Standing home w) {message : WatchRequest} {accepts : Bool}
    {entry : Option String} {released : Bool} (next : w.next k = some message)
    (faithful : (w.servers k).watches.Faithful home (message.input accepts entry released))
    (succeeds : ∀ dir, message = .watch dir →
      Watches.Succeeds home (w.servers k).watches (.watch dir accepts)) :
    Standing home (w.setServer k { w.servers k with
      served := (w.servers k).served + 1
      watches := (w.servers k).watches.step home true (message.input accepts entry released) }) := by
  have homed := standing.homed k
  have longer : (w.registry.links k).sent.take ((w.servers k).served + 1) =
      w.executed k ++ [message] := by
    have here : (w.registry.links k).sent[(w.servers k).served]? = some message := next
    rw [List.take_add_one, here]
    rfl
  apply standing.setServer
  case served => exact served_lt next
  case homed => exact homed.step faithful
  case follows =>
    dsimp only
    rw [longer]
    cases message with
    | watch dir => exact follows_watch (standing.follows k) (succeeds dir rfl)
    | unwatch dir => exact follows_unwatch (standing.follows k) homed released faithful
  case bound =>
    cases message with
    | watch dir => exact Watches.bound_watch (standing.bound k) dir accepts
    | unwatch dir =>
        cases entry with
        | none => exact standing.bound k
        | some entry =>
            have unwatched : Watches.Bound true
                ((w.servers k).watches.step home true (.unwatch dir (some entry) released)) :=
              Watches.bound_unwatch (standing.bound k) dir entry released
            exact unwatched

theorem Standing.move (standing : Standing home w) {turn : Turn} (lawful : w.Lawful home turn)
    (heeded : w.Heeded home turn) : Standing home (w.move home turn) := by
  cases turn with
  | client doing =>
      exact standing.setRegistry (onward_step w.registry doing)
        (registered_step standing.registered heeded)
  | serve k accepts entry released =>
      cases next : w.next k with
      | none =>
          rw [move_serve_none home accepts released entry next]
          exact standing
      | some message =>
          rw [move_serve home accepts released entry next]
          have succeeds : ∀ dir, message = .watch dir →
              Watches.Succeeds home (w.servers k).watches (.watch dir accepts) := by
            intro dir same
            exact heeded dir (same ▸ next)
          exact standing.serve next (lawful message next) succeeds
  | change k directories deleted =>
      have faithful : (w.servers k).watches.Faithful home (.change directories deleted) := lawful
      exact standing.setServer (standing.served k) ((standing.homed k).step faithful)
        (follows_change (standing.follows k) faithful)
        (Watches.bound_change (standing.bound k) faithful.1 faithful.2.1)
  | report k kind p =>
      exact standing.setServer (standing.served k) (standing.homed k) (standing.follows k)
        (standing.bound k)
  | overflow k =>
      exact standing.setServer (standing.served k) (standing.homed k) (standing.follows k)
        (standing.bound k)
  | hear k lost =>
      cases unheard : (w.servers k).unheard with
      | nil =>
          rw [move_hear_nil home lost unheard]
          exact standing
      | cons event rest =>
          rw [move_hear home lost unheard]
          have heard : Standing home (w.heed k event rest) :=
            standing.setServer (standing.served k) (standing.homed k) (standing.follows k)
              (standing.bound k)
          exact heard.setRegistry (onward_step w.registry (.event k event))
            ((settles_handle event).registered standing.registered)
  | rehear k index =>
      cases kept : (w.servers k).heard[index]? with
      | none =>
          rw [move_rehear_none home kept]
          exact standing
      | some event =>
          rw [move_rehear home kept]
          exact standing.setRegistry (onward_step w.registry (.event k event))
            ((settles_handle event).registered standing.registered)

theorem Standing.step (standing : Standing home w) {turn : Turn} (lawful : w.Lawful home turn)
    (heeded : w.Heeded home turn) : Standing home (w.step home turn) :=
  have moved := standing.move lawful heeded
  ⟨⟨moved.single, moved.served, moved.homed⟩, moved.registered, moved.follows, moved.bound⟩

end Turns

theorem nothing_listed (dir : String) (watched : (fun _ => [] : String → List Nat) dir ≠ []) :
    dir ∈ ([] : List String) := absurd rfl watched

/-- Nothing has been done, and the paths of each server lead somewhere. -/
def start (shared : Caches) (directories : Nat → Directories) : Vigil where
  registry := { shared := shared, direct := { listed := nothing_listed } }
  servers k := { watches := ⟨directories k, fun _ => none, []⟩ }

theorem orderly_start (home : Option String) (shared : Caches) (directories : Nat → Directories) :
    Orderly home (start shared directories) where
  single _ up := by cases up
  served _ := Nat.zero_le _
  homed _ := new_homed _

theorem standing_start (home : Option String) (shared : Caches) (directories : Nat → Directories) :
    Standing home (start shared directories) where
  toOrderly := orderly_start home shared directories
  registered := ⟨⟨nofun, nofun, nofun, nofun⟩, nofun⟩
  follows _ _ _ := by simp [start, executed, WatchTable.aliases, lastRequest]
  bound _ _ _ entered := absurd rfl entered

/-- A directory that the server has been asked to watch is watched, unless the message has yet to be
executed. -/
theorem Standing.live {home : Option String} {w : Vigil} (standing : Standing home w) {k : Nat}
    {dir : String} (asked : lastRequest (w.executed k) dir = some (.watch dir)) :
    Watches.Live home (w.servers k).watches dir :=
  Watches.live_of_named (standing.bound k) ((standing.follows k _ _).mpr ⟨rfl, asked⟩)

/-- What has been executed of the messages ends with what there is of a directory. -/
theorem asked_or_underway {w : Vigil} {k : Nat} {dir : String}
    (asked : lastRequest (w.registry.links k).sent dir = some (.watch dir)) :
    lastRequest (w.executed k) dir = some (.watch dir) ∧ .unwatch dir ∉ w.underway k ∨
      .watch dir ∈ w.underway k := by
  have parts : (w.registry.links k).sent = w.executed k ++ w.underway k :=
    (List.take_append_drop _ _).symm
  rw [parts] at asked
  unfold lastRequest at asked ⊢
  rw [List.reverse_append, List.find?_append] at asked
  cases later : (w.underway k).reverse.find? (·.dir = dir) with
  | none =>
      left
      rw [later, Option.none_or] at asked
      refine ⟨asked, ?_⟩
      intro taken
      have about := List.find?_eq_none.mp later _ (List.mem_reverse.mpr taken)
      simp [WatchRequest.dir] at about
  | some message =>
      right
      rw [later, Option.some_or] at asked
      have member := List.mem_reverse.mp (List.mem_of_find?_eq_some later)
      rwa [Option.some.inj asked] at member

/-- Whatever the client does on any number of connections, and however its messages, the servers'
and the changes of directories fall between one another: a server's table has the directories that
it was last asked to watch, each under where it leads to; a directory with a listing or a direct
watch is watched, and no message on the way takes that back, unless one on the way asks for it; and
a directory that is being added is watched before its watch is registered. -/
theorem watches_stand {home : Option String} {shared : Caches} {directories : Nat → Directories}
    {w : Vigil}
    (reached : Reaches (step home) (fun w turn => w.Lawful home turn ∧ w.Heeded home turn)
      (start shared directories) w) :
    (∀ k path canon, path ∈ (w.servers k).watches.watched.aliases canon ↔
        canon = (w.servers k).watches.canon home path ∧
          lastRequest (w.executed k) path = some (.watch path)) ∧
      (∀ k dir, (w.registry.links k).live = true → (w.registry.links k).ready = true →
        ((∃ entries, (w.registry.links k).dircache dir = some entries ∧ entries ≠ []) ∨
          w.registry.direct.watchers dir ≠ []) →
        Watches.Live home (w.servers k).watches dir ∧ .unwatch dir ∉ w.underway k ∨
          .watch dir ∈ w.underway k) ∧
      ∀ id adding, w.registry.addings id = some adding →
        adding.place < (w.servers adding.conn).served →
        .unwatch adding.dir ∉ (w.registry.links adding.conn).sent.drop (adding.place + 1) →
        Watches.Live home (w.servers adding.conn).watches adding.dir := by
  have standing : Standing home w := by
    apply Reaches.invariant _ _ reached
    · exact standing_start home shared directories
    · exact fun w turn standing permitted => standing.step permitted.1 permitted.2
  refine ⟨standing.follows, ?_, ?_⟩
  · intro k dir live ready needed
    have asked : lastRequest (w.registry.links k).sent dir = some (.watch dir) := by
      rcases needed with ⟨entries, found, filled⟩ | some_watch
      · exact standing.registered.listed k dir entries live found filled
      · exact standing.registered.direct k dir live ready some_watch
    rcases asked_or_underway asked with ⟨executed, kept⟩ | underway
    · exact .inl ⟨standing.live executed, kept⟩
    · exact .inr underway
  · intro id adding found executed kept
    have asked := standing.registered.asked id adding found
    apply standing.live
    apply lastRequest_of_place
    · show ((w.registry.links adding.conn).sent.take _)[adding.place]? = _
      rw [List.getElem?_take_of_lt executed]
      exact asked
    · intro taken
      apply kept
      unfold Vigil.executed at taken
      rw [List.drop_take] at taken
      exact List.mem_of_mem_take taken

/-- A directory is watched for a callback. -/
def watchingTurns : List Turn :=
  [.client .connect, .client (.hello 1), .client (.addWatch "/d"), .serve 1 true none true,
    .client (.added 0)]

def watchingStart : Vigil := start { authority := "h" } fun _ => Watches.oneDirectory 1

theorem along_watchingTurns :
    Reaches.Along (step none) (fun w turn => w.Lawful none turn ∧ w.Heeded none turn) watchingStart
      watchingTurns := by
  refine ⟨⟨trivial, trivial⟩, ⟨trivial, trivial⟩, ⟨trivial, trivial⟩, ⟨?_, ?_⟩, ⟨trivial, ?_⟩,
    trivial⟩
  · intro message next
    cases next
    trivial
  · intro dir next
    cases next
    exact fun _ => rfl
  · intro adding found
    cases found
    decide

theorem watches_stand_one :
    Watches.Live none ((watchingTurns.foldl (step none) watchingStart).servers 1).watches "/d" := by
  have live_or := (watches_stand (Reaches.refl.of_along along_watchingTurns)).2.1 1 "/d" rfl rfl
    (.inr (List.cons_ne_nil 1 []))
  rcases live_or with ⟨live, -⟩ | underway
  · exact live
  · cases underway

end Vigil

end EmacsRelay.RelayPrefetch

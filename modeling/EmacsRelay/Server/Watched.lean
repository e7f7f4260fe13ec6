import EmacsRelay.Lib.Reach
import EmacsRelay.Server.Watch

set_option autoImplicit false

/- Watches of the operating system and the watch table, `server/src/control.rs`, while directories
are deleted and made again. -/
namespace EmacsRelay.Server

/-- `PathBuf::push`. -/
def pushPath (base rest : String) : String :=
  match rest.toList, base.toList.getLast? with
  | '/' :: _, _ => rest
  | _, none => rest
  | _, some last => if last = '/' then base ++ rest else base ++ "/" ++ rest

/-- `expand_home`, where `home` is the variable `HOME`. -/
def expandHome (home : Option String) (path : String) : String :=
  match home, path.toList with
  | some home, ['~'] => home
  | some home, '~' :: '/' :: rest => pushPath home (.ofList rest)
  | _, _ => path

/-- Where paths lead: to their canonical form, when there is one, and to a directory, by its
identity. -/
structure Directories where
  canonical : String → Option String
  dirAt : String → Option Nat
  resolves : ∀ path canon, canonical path = some canon → dirAt canon = dirAt path

/-- The server's table, and the watches of the operating system: the path each was asked for by,
and the directory it is bound to. -/
structure Watches where
  directories : Directories
  watched : WatchTable := fun _ => none
  placed : List (String × Nat) := []

namespace Watches

inductive Input where
  /-- `accepts`: the watcher would accept a directory that is there. -/
  | watch (path : String) (accepts : Bool)
  /-- `entry`: the entry in which the table's iterator finds the path; `released`: `unwatch` of the
  watcher succeeds. -/
  | unwatch (path : String) (entry : Option String) (released : Bool)
  /-- Directories are made, moved and deleted. -/
  | change (directories : Directories) (deleted : List Nat)

section

-- `HOME`, and whether the watcher could be made when the server started
variable (home : Option String) (present : Bool)

/-- The key of the table for PATH. -/
def canon (s : Watches) (path : String) : String :=
  let expanded := expandHome home path
  (s.directories.canonical expanded).getD expanded

def watching (s : Watches) (path : String) (accepts : Bool) : Watching :=
  if present then
    if accepts && (s.directories.dirAt (s.canon home path)).isSome then .accepts else .refuses
  else .absent

/-- The reply to `watch` is ok. -/
def replies (s : Watches) (path : String) (accepts : Bool) : Bool :=
  (watch s.watched path (s.canon home path) (s.watching home present path accepts)).2

/-- What the operating system is asked for. -/
def place (s : Watches) (path : String) (accepts : Bool) : List (String × Nat) :=
  match s.watched (s.canon home path), s.watching home present path accepts,
    s.directories.dirAt (s.canon home path) with
  | none, .accepts, some id => [(s.canon home path, id)]
  | _, _, _ => []

def step (s : Watches) : Input → Watches
  | .watch path accepts =>
      { s with
        watched :=
          (watch s.watched path (s.canon home path) (s.watching home present path accepts)).1
        placed := s.placed ++ s.place home present path accepts }
  | .unwatch _ none _ => s
  | .unwatch path (some entry) released =>
      let aliases := (s.watched.aliases entry).erase path
      if aliases = [] then
        { s with
          watched := fun key => if key = entry then none else s.watched key
          placed :=
            if present && released then s.placed.filter (·.1 != entry) else s.placed }
      else { s with watched := fun key => if key = entry then some aliases else s.watched key }
  | .change directories deleted =>
      { s with directories := directories, placed := s.placed.filter (·.2 ∉ deleted) }

/-- The table's iterator finds a path that is there, and watches end with the directories they are
bound to. -/
def Possible (s : Watches) : Input → Prop
  | .watch _ _ => True
  | .unwatch path none _ => ∀ canon, path ∉ s.watched.aliases canon
  | .unwatch path (some entry) _ => path ∈ s.watched.aliases entry
  | .change directories deleted =>
      (∀ id ∈ deleted, ∀ path, directories.dirAt path ≠ some id) ∧
        ∀ watch ∈ s.placed, watch.2 ∉ deleted → ∃ path, directories.dirAt path = some watch.2

/-- There is a watcher when a path in the table is asked for again, and no directory in the table
is deleted or replaced. -/
def Steady (s : Watches) : Input → Prop
  | .watch path _ => present = true ∨ s.watched (s.canon home path) = none
  | .unwatch _ _ _ => True
  | .change directories _ => ∀ canon, s.watched canon ≠ none →
      directories.dirAt canon = s.directories.dirAt canon

abbrev Reached (permitted : Watches → Input → Prop) (start s : Watches) : Prop :=
  Reaches (step home present) permitted start s

/-- A directory that the server has been asked to watch by PATH is watched, and PATH is told of
what happens in it. -/
structure Live (s : Watches) (path : String) : Prop where
  bound : ∃ id, s.directories.dirAt (expandHome home path) = some id ∧
    (s.canon home path, id) ∈ s.placed
  named : path ∈ s.watched.aliases (s.canon home path)
  told : ∀ kind p, p.parent.map FsPath.render = some (s.canon home path) →
    s.watched p.render = none →
    .changed kind path (p.fileName.getD "") ∈ pathEvents s.watched kind p
  itself : ∀ kind p, p.render = s.canon home path → .selfChanged path ∈ pathEvents s.watched kind p

end

variable {home : Option String} {present : Bool} {s : Watches}

theorem dirAt_canon (s : Watches) (path : String) :
    s.directories.dirAt (s.canon home path) = s.directories.dirAt (expandHome home path) := by
  show s.directories.dirAt ((s.directories.canonical (expandHome home path)).getD _) = _
  cases found : s.directories.canonical (expandHome home path) with
  | none => rfl
  | some canon => exact s.directories.resolves _ canon found

/-- With a watcher, each directory in the table has a watch. -/
def Bound (present : Bool) (s : Watches) : Prop :=
  present = true → ∀ canon, s.watched canon ≠ none →
    ∃ id, s.directories.dirAt canon = some id ∧ (canon, id) ∈ s.placed

theorem bound_watch (bound : Bound present s) (path : String) (accepts : Bool) :
    Bound present (s.step home present (.watch path accepts)) := by
  intro is_present canon entered
  by_cases here : canon = s.canon home path
  · subst here
    cases before : s.watched (s.canon home path) with
    | some aliases =>
        obtain ⟨id, there, placed⟩ := bound is_present _ (by rw [before]; simp)
        exact ⟨id, there, List.mem_append_left _ placed⟩
    | none =>
        by_cases accepted : s.watching home present path accepts = .accepts
        · have there : (s.directories.dirAt (s.canon home path)).isSome = true := by
            unfold watching at accepted
            rw [if_pos is_present] at accepted
            split at accepted
            · rename_i both
              exact (Bool.and_eq_true_iff.mp both).2
            · cases accepted
          obtain ⟨id, found⟩ := Option.isSome_iff_exists.mp there
          refine ⟨id, found, List.mem_append_right _ ?_⟩
          simp [place, before, accepted, found]
        · -- the watcher refuses, and the entry is taken back
          have refused : s.watching home present path accepts = .refuses := by
            unfold watching at accepted ⊢
            rw [if_pos is_present] at accepted ⊢
            split at accepted
            · exact absurd rfl accepted
            · rename_i neither
              rw [if_neg neither]
          simp [step, watch, before, refused] at entered
  · have same : (s.step home present (.watch path accepts)).watched canon = s.watched canon := by
      simp only [step, watch]
      split
      · simp [here]
      · split <;> simp [here]
    rw [same] at entered
    obtain ⟨id, there, placed⟩ := bound is_present canon entered
    exact ⟨id, there, List.mem_append_left _ placed⟩

theorem bound_unwatch (bound : Bound present s) (path entry : String) (released : Bool) :
    Bound present (s.step home present (.unwatch path (some entry) released)) := by
  intro is_present canon entered
  simp only [step] at entered ⊢
  by_cases emptied : (s.watched.aliases entry).erase path = []
  · simp only [emptied, if_true] at entered ⊢
    by_cases here : canon = entry
    · simp [here] at entered
    · simp only [here, if_false] at entered
      obtain ⟨id, there, placed⟩ := bound is_present canon entered
      refine ⟨id, there, ?_⟩
      split
      · exact List.mem_filter.mpr ⟨placed, by simp [here]⟩
      · exact placed
  · simp only [emptied, if_false] at entered ⊢
    apply bound is_present canon
    by_cases here : canon = entry
    · intro absent
      apply emptied
      rw [here] at absent
      simp [WatchTable.aliases, absent]
    · simpa [here] using entered

theorem bound_change (bound : Bound present s) {directories : Directories} {deleted : List Nat}
    (possible : Possible s (.change directories deleted))
    (steady : Steady home present s (.change directories deleted)) :
    Bound present (s.step home present (.change directories deleted)) := by
  intro is_present canon entered
  obtain ⟨id, there, placed⟩ := bound is_present canon entered
  have still : directories.dirAt canon = some id := (steady canon entered).trans there
  refine ⟨id, still, List.mem_filter.mpr ⟨placed, ?_⟩⟩
  have kept : id ∉ deleted := fun gone => possible.1 id gone canon still
  simpa using kept

theorem bound_step (bound : Bound present s) {input : Input} (possible : Possible s input)
    (steady : Steady home present s input) : Bound present (s.step home present input) := by
  cases input with
  | watch path accepts => exact bound_watch bound path accepts
  | unwatch path entry released =>
      cases entry with
      | none => exact bound
      | some entry => exact bound_unwatch bound path entry released
  | change directories deleted => exact bound_change bound possible steady

theorem bound_reached {directories : Directories}
    (reached : Reached home present
      (fun s input => Possible s input ∧ Steady home present s input) ⟨directories, fun _ => none, []⟩ s) :
    Bound present s := by
  apply Reaches.invariant _ _ reached
  · intro _ canon entered
    exact absurd rfl entered
  · intro s input bound permitted
    exact bound_step bound permitted.1 permitted.2

/-- A path that is accepted is among the aliases of its directory. -/
theorem named_of_accepted {watched : WatchTable} {path canon : String} {watcher : Watching}
    (ok : (watch watched path canon watcher).2 = true) :
    path ∈ (watch watched path canon watcher).1.aliases canon := by
  have added : path ∈ if path ∈ watched.aliases canon then watched.aliases canon
      else watched.aliases canon ++ [path] := by
    by_cases known : path ∈ watched.aliases canon
    · rw [if_pos known]
      exact known
    · rw [if_neg known]
      exact List.mem_append_right _ (List.mem_singleton_self _)
  unfold watch at ok ⊢
  by_cases entered : (watched canon).isSome = true
  · simp only [entered, if_true]
    simpa [WatchTable.aliases] using added
  · simp only [entered] at ok ⊢
    cases watcher with
    | accepts => simpa [WatchTable.aliases] using added
    | refuses => cases ok
    | absent => cases ok

theorem told_of_named {path canon : String} (named : path ∈ s.watched.aliases canon) :
    (∀ kind p, p.parent.map FsPath.render = some canon → s.watched p.render = none →
      .changed kind path (p.fileName.getD "") ∈ pathEvents s.watched kind p) ∧
    ∀ kind p, p.render = canon → .selfChanged path ∈ pathEvents s.watched kind p := by
  cases entered : s.watched canon with
  | none => simp [WatchTable.aliases, entered] at named
  | some aliases =>
      have named : path ∈ aliases := by simpa [WatchTable.aliases, entered] using named
      constructor
      · intro kind p within unwatched
        simp [pathEvents, unwatched, within, entered, named]
      · intro kind p same
        simp [pathEvents, same, entered, named]

/-- In every run in which there is a watcher when a directory in the table is asked for again, and
no directory in the table is deleted or replaced, a watch that is accepted is live. -/
theorem accepted_watch_live {directories : Directories}
    (reached : Reached home present
      (fun s input => Possible s input ∧ Steady home present s input) ⟨directories, fun _ => none, []⟩ s)
    {path : String} {accepts : Bool} (steady : Steady home present s (.watch path accepts))
    (ok : s.replies home present path accepts = true) :
    Live home (s.step home present (.watch path accepts)) path := by
  have named : path ∈ (s.step home present (.watch path accepts)).watched.aliases
      (s.canon home path) := named_of_accepted ok
  have is_present : present = true := by
    rcases steady with is_present | absent
    · exact is_present
    · cases present with
      | true => rfl
      | false => simp [replies, watching, watch, absent] at ok
  have bound : Bound present (s.step home present (.watch path accepts)) :=
    bound_watch (bound_reached reached) path accepts
  have entered :
      (s.step home present (.watch path accepts)).watched (s.canon home path) ≠ none := by
    intro absent
    simp [WatchTable.aliases, absent] at named
  obtain ⟨id, there, placed⟩ := bound is_present _ entered
  have told := told_of_named named
  exact ⟨⟨id, (dirAt_canon s path).symm.trans there, placed⟩, named, told.1, told.2⟩

/-- One directory, by one path, with identity ID. -/
def oneDirectory (id : Nat) : Directories where
  canonical path := if path = "/d" then some "/d" else none
  dirAt path := if path = "/d" then some id else none
  resolves path canon found := by
    by_cases here : path = "/d"
    · simp only [here, if_true, Option.some.injEq] at found
      simp [← found, here]
    · simp [here] at found

/-- A directory is watched, no longer watched, made anew, and watched again. -/
theorem accepted_watch_live_again :
    Live none
      ([Input.watch "/d" true, .unwatch "/d" (some "/d") true, .change (oneDirectory 2) [1],
        .watch "/d" true].foldl (step none true) ⟨oneDirectory 1, fun _ => none, []⟩) "/d" := by
  have reached : Reached none true
      (fun s input => Possible s input ∧ Steady none true s input)
      ⟨oneDirectory 1, fun _ => none, []⟩
      ([Input.watch "/d" true, .unwatch "/d" (some "/d") true, .change (oneDirectory 2) [1]].foldl
        (step none true) ⟨oneDirectory 1, fun _ => none, []⟩) := by
    apply Reaches.of_along .refl
    refine ⟨⟨trivial, .inl rfl⟩, ⟨List.mem_singleton_self _, trivial⟩, ⟨⟨?_, ?_⟩, ?_⟩, trivial⟩
    · intro id gone path
      rw [List.mem_singleton.mp gone]
      simp only [oneDirectory]
      split <;> simp
    · exact nofun
    · intro canon entered
      apply absurd _ entered
      have emptied : (step none true (step none true ⟨oneDirectory 1, fun _ => none, []⟩
          (.watch "/d" true)) (.unwatch "/d" (some "/d") true)).watched canon =
          if canon = "/d" then none else if canon = "/d" then some ["/d"] else none := rfl
      rw [emptied]
      by_cases here : canon = "/d" <;> simp [here]
  exact accepted_watch_live reached (.inl rfl) (by decide)

/-- Without a watcher, the second request is accepted; and so is a request for a directory that was
deleted and made again. In both cases no watch is there. -/
theorem accepted_watch_dead :
    ¬ (∀ (s : Watches) (path : String) (accepts : Bool),
        Reached none false (fun s input => Possible s input) ⟨oneDirectory 1, fun _ => none, []⟩ s →
        s.replies none false path accepts = true →
        Live none (s.step none false (.watch path accepts)) path) ∧
      ¬ ∀ (s : Watches) (path : String) (accepts : Bool),
        Reached none true (fun s input => Possible s input) ⟨oneDirectory 1, fun _ => none, []⟩ s →
        s.replies none true path accepts = true →
        Live none (s.step none true (.watch path accepts)) path := by
  constructor
  · intro always
    have reached : Reached none false (fun s input => Possible s input)
        ⟨oneDirectory 1, fun _ => none, []⟩
        ([Input.watch "/d" true].foldl (step none false) ⟨oneDirectory 1, fun _ => none, []⟩) := by
      apply Reaches.of_along .refl
      exact ⟨trivial, trivial⟩
    obtain ⟨id, -, placed⟩ := (always _ "/d" true reached (by decide)).bound
    cases placed
  · intro always
    have reached : Reached none true (fun s input => Possible s input)
        ⟨oneDirectory 1, fun _ => none, []⟩
        ([Input.watch "/d" true, .change (oneDirectory 2) [1]].foldl (step none true)
          ⟨oneDirectory 1, fun _ => none, []⟩) := by
      apply Reaches.of_along .refl
      refine ⟨trivial, ⟨?_, ?_⟩, trivial⟩
      · intro id gone path
        rw [List.mem_singleton.mp gone]
        simp only [oneDirectory]
        split <;> simp
      · intro watch member kept
        have only : watch ∈ [("/d", 1)] := member
        rw [List.mem_singleton.mp only] at kept
        exact absurd (List.mem_singleton_self 1) kept
    obtain ⟨id, -, placed⟩ := (always _ "/d" true reached (by decide)).bound
    cases placed

end Watches

end EmacsRelay.Server

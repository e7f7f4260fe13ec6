import EmacsRelay.Server.Watched

set_option autoImplicit false

/- What `unwatch` of `server/src/control.rs` undoes, when the directories that paths lead to change
between requests. -/
namespace EmacsRelay.Server.Watches

/-- No entry of the table is empty or names a path twice, and the operating system watches what the
table has an entry for. -/
structure Tidy (s : Watches) : Prop where
  filled : ∀ canon, s.watched canon ≠ some []
  once : ∀ canon, (s.watched.aliases canon).Nodup
  placed : ∀ canon, canon ∈ s.placed.map Prod.fst ↔ s.watched canon ≠ none

/-- The calls to the operating system succeed, and no directory is deleted. -/
def Succeeds (home : Option String) (s : Watches) : Input → Prop
  | .watch path accepts =>
      s.watched (s.canon home path) = none → s.watching home true path accepts = .accepts
  | .unwatch _ _ released => released = true
  | .change _ deleted => deleted = []

/-- No entry has the path any more, and but for the path everything is as it was. -/
structure Undone (path : String) (s t : Watches) : Prop where
  gone : ∀ canon, path ∉ t.watched.aliases canon
  tidy : t.Tidy
  others : ∀ canon, (t.watched.aliases canon).filter (· ≠ path) =
    (s.watched.aliases canon).filter (· ≠ path)

section Tables

variable {home : Option String} {s : Watches} {path entry : String}

theorem watched_watch {accepts : Bool} (succeeds : Succeeds home s (.watch path accepts))
    (key : String) :
    (s.step home true (.watch path accepts)).watched key =
      if key = s.canon home path then
        some (if path ∈ s.watched.aliases key then s.watched.aliases key
          else s.watched.aliases key ++ [path])
      else s.watched key := by
  by_cases here : key = s.canon home path
  · rw [here, if_pos rfl]
    cases before : s.watched (s.canon home path) with
    | some aliases => simp [step, watch, before]
    | none => simp [step, watch, before, succeeds before]
  · rw [if_neg here]
    simp only [step, watch]
    split
    · exact if_neg here
    · split <;> exact if_neg here

theorem placed_watch {accepts : Bool} (succeeds : Succeeds home s (.watch path accepts))
    (key : String) :
    key ∈ (s.step home true (.watch path accepts)).placed.map Prod.fst ↔
      key ∈ s.placed.map Prod.fst ∨
        key = s.canon home path ∧ s.watched (s.canon home path) = none := by
  have grown : (s.step home true (.watch path accepts)).placed.map Prod.fst =
      s.placed.map Prod.fst ++ (s.place home true path accepts).map Prod.fst := List.map_append
  rw [grown, List.mem_append]
  apply or_congr_right
  unfold place
  cases before : s.watched (s.canon home path) with
  | some aliases => simp
  | none =>
      have accepted := succeeds before
      have there : (s.directories.dirAt (s.canon home path)).isSome = true := by
        unfold watching at accepted
        rw [if_pos rfl] at accepted
        split at accepted
        · rename_i both
          exact (Bool.and_eq_true_iff.mp both).2
        · cases accepted
      obtain ⟨id, found⟩ := Option.isSome_iff_exists.mp there
      simp [accepted, found]

theorem tidy_watch {accepts : Bool} (tidy : s.Tidy)
    (succeeds : Succeeds home s (.watch path accepts)) :
    (s.step home true (.watch path accepts)).Tidy := by
  have table := watched_watch succeeds
  constructor
  · intro key
    rw [table]
    split
    · split
      · rename_i known
        intro empty
        rw [Option.some.inj empty] at known
        cases known
      · simp
    · exact tidy.filled key
  · intro key
    have before := tidy.once key
    unfold WatchTable.aliases at before ⊢
    rw [table]
    split
    · split
      · exact before
      · rename_i unknown
        rw [Option.getD_some, List.nodup_append]
        refine ⟨before, List.pairwise_singleton _ path, ?_⟩
        intro other known added same both
        rw [both, List.mem_singleton.mp same] at known
        exact unknown known
    · exact before
  · intro key
    rw [placed_watch succeeds, table, tidy.placed]
    by_cases here : key = s.canon home path
    · rw [here]
      simp only [if_true, true_and, ne_eq, reduceCtorEq, not_false_eq_true, iff_true]
      exact (em _).symm
    · simp [here]

/-- The path is taken off its entry, which goes when it is empty. -/
theorem aliases_unwatch (key : String) :
    (s.step home true (.unwatch path (some entry) true)).watched.aliases key =
      if key = entry then (s.watched.aliases entry).erase path else s.watched.aliases key := by
  unfold WatchTable.aliases
  simp only [step]
  by_cases emptied : (s.watched.aliases entry).erase path = []
  · rw [if_pos emptied]
    by_cases here : key = entry
    · simp only [here, if_true]
      exact emptied.symm
    · simp [here]
  · rw [if_neg emptied]
    by_cases here : key = entry
    · simp only [here, if_true]
      rfl
    · simp [here]

theorem tidy_unwatch (tidy : s.Tidy) (found : path ∈ s.watched.aliases entry) :
    (s.step home true (.unwatch path (some entry) true)).Tidy := by
  have entered : s.watched entry ≠ none := by
    intro absent
    simp [WatchTable.aliases, absent] at found
  have once : ∀ key, ((s.step home true (.unwatch path (some entry) true)).watched.aliases
      key).Nodup := by
    intro key
    rw [aliases_unwatch]
    split
    · exact (tidy.once entry).erase path
    · exact tidy.once key
  by_cases emptied : (s.watched.aliases entry).erase path = []
  · have same : s.step home true (.unwatch path (some entry) true) =
        { s with
          watched := fun key => if key = entry then none else s.watched key
          placed := s.placed.filter (·.1 != entry) } := by simp [step, emptied]
    rw [same] at once ⊢
    refine ⟨?_, once, ?_⟩
    · intro key
      dsimp only
      split
      · simp
      · exact tidy.filled key
    · intro key
      have kept : key ∈ (s.placed.filter (·.1 != entry)).map Prod.fst ↔
          key ∈ s.placed.map Prod.fst ∧ key ≠ entry := by
        simp only [List.mem_map, List.mem_filter, bne_iff_ne]
        constructor
        · intro member
          obtain ⟨watch, ⟨placed, differs⟩, same⟩ := member
          exact ⟨⟨watch, placed, same⟩, same ▸ differs⟩
        · intro member
          obtain ⟨⟨watch, placed, same⟩, differs⟩ := member
          exact ⟨watch, ⟨placed, same ▸ differs⟩, same⟩
      rw [kept, tidy.placed]
      by_cases here : key = entry
      · simp [here]
      · simp [here]
  · have same : s.step home true (.unwatch path (some entry) true) =
        { s with watched := fun key =>
            if key = entry then some ((s.watched.aliases entry).erase path) else s.watched key } := by
      simp [step, emptied]
    rw [same] at once ⊢
    refine ⟨?_, once, ?_⟩
    · intro key
      dsimp only
      split
      · exact fun empty => emptied (Option.some.inj empty)
      · exact tidy.filled key
    · intro key
      rw [tidy.placed]
      by_cases here : key = entry
      · simp [here, entered]
      · simp [here]

theorem tidy_step {input : Input} (tidy : s.Tidy) (possible : Possible s input)
    (succeeds : Succeeds home s input) : (s.step home true input).Tidy := by
  cases input with
  | watch path accepts => exact tidy_watch tidy succeeds
  | unwatch path entry released =>
      cases entry with
      | none => exact tidy
      | some entry =>
          have same : released = true := succeeds
          rw [same]
          exact tidy_unwatch tidy possible
  | change directories deleted =>
      have none : deleted = [] := succeeds
      refine ⟨tidy.filled, tidy.once, ?_⟩
      intro canon
      rw [none]
      simpa [step] using tidy.placed canon

theorem tidy_reached {directories : Directories}
    (reached : Reached home true (fun s input => Possible s input ∧ Succeeds home s input)
      ⟨directories, fun _ => none, []⟩ s) : s.Tidy := by
  apply Reaches.invariant _ _ reached
  · refine ⟨fun _ => ?_, fun _ => List.nodup_nil, fun _ => ?_⟩
    · simp
    · simp
  · intro s input tidy permitted
    exact tidy_step tidy permitted.1 permitted.2

end Tables

/-- In every run in which the operating system does what it is asked, an unwatch undoes the watches
of its path just when the path is in one entry of the table at most. -/
theorem unwatch_undoes_iff {home : Option String} {directories : Directories} {s : Watches}
    {path : String} {entry : Option String}
    (reached : Reached home true (fun s input => Possible s input ∧ Succeeds home s input)
      ⟨directories, fun _ => none, []⟩ s)
    (possible : Possible s (.unwatch path entry true)) :
    Undone path s (s.step home true (.unwatch path entry true)) ↔
      ∀ one two, path ∈ s.watched.aliases one → path ∈ s.watched.aliases two → one = two := by
  have tidy := tidy_reached reached
  cases entry with
  | none =>
      have nowhere : ∀ canon, path ∉ s.watched.aliases canon := possible
      constructor
      · intro _ one _ listed
        exact absurd listed (nowhere one)
      · intro _
        exact ⟨nowhere, tidy, fun _ => rfl⟩
  | some entry =>
      have found : path ∈ s.watched.aliases entry := possible
      constructor
      · intro undone
        have only : ∀ canon, path ∈ s.watched.aliases canon → canon = entry := by
          intro canon listed
          by_contra differs
          have still := undone.gone canon
          rw [aliases_unwatch, if_neg differs] at still
          exact still listed
        intro one two first second
        exact (only one first).trans (only two second).symm
      · intro unique
        refine ⟨?_, tidy_unwatch tidy found, ?_⟩
        · intro canon
          rw [aliases_unwatch]
          split
          · exact (tidy.once entry).not_mem_erase
          · rename_i differs
            exact fun listed => differs (unique canon entry listed found)
        · intro canon
          rw [aliases_unwatch]
          split
          · rename_i here
            rw [here, (tidy.once entry).erase_eq_filter, List.filter_filter]
            apply List.filter_congr
            intro name _
            by_cases same : name = path <;> simp [same]
          · rfl

/-- Two directories and a link `l`, which leads to one of them. -/
def linked (target : String) : Directories where
  canonical path := some (if path = "/l" then target else path)
  dirAt path :=
    let canon := if path = "/l" then target else path
    if canon = "/a" then some 1 else if canon = "/b" then some 2 else none
  resolves path canon found := by
    have same := Option.some.inj found
    rw [← same]
    by_cases here : path = "/l"
    · by_cases loops : target = "/l" <;> simp [here, loops]
    · simp [here]

/-- The link is watched. -/
def watchedOnce : Watches :=
  [Input.watch "/l" true].foldl (step none true) ⟨linked "/a", fun _ => none, []⟩

theorem reached_watchedOnce :
    Reached none true (fun s input => Possible s input ∧ Succeeds none s input)
      ⟨linked "/a", fun _ => none, []⟩ watchedOnce := by
  apply Reaches.of_along .refl
  exact ⟨⟨trivial, fun _ => rfl⟩, trivial⟩

theorem unwatch_undoes_iff_once :
    Undone "/l" watchedOnce (watchedOnce.step none true (.unwatch "/l" (some "/a") true)) := by
  have found : Possible watchedOnce (.unwatch "/l" (some "/a") true) := List.mem_singleton_self "/l"
  apply (unwatch_undoes_iff reached_watchedOnce found).mpr
  have only : ∀ canon, "/l" ∈ watchedOnce.watched.aliases canon → canon = "/a" := by
    intro canon listed
    by_contra differs
    have none : watchedOnce.watched.aliases canon = [] := by
      show ((if canon = "/a" then some ["/l"] else Option.none) : Option (List String)).getD [] = []
      rw [if_neg differs]
      rfl
    rw [none] at listed
    cases listed
  exact fun one two first second => (only one first).trans (only two second).symm

/-- The link is watched, led to another directory, and watched again. -/
def watchedTwice : Watches :=
  [Input.watch "/l" true, .change (linked "/b") [], .watch "/l" true].foldl (step none true)
    ⟨linked "/a", fun _ => none, []⟩

theorem unwatch_leaves_retargeted :
    ¬ ∀ (home : Option String) (directories : Directories) (s : Watches) (path : String)
      (entry : Option String),
      Reached home true (fun s input => Possible s input ∧ Succeeds home s input)
        ⟨directories, fun _ => none, []⟩ s →
      Possible s (.unwatch path entry true) →
      Undone path s (s.step home true (.unwatch path entry true)) := by
  intro undoes
  have reached : Reached none true (fun s input => Possible s input ∧ Succeeds none s input)
      ⟨linked "/a", fun _ => none, []⟩ watchedTwice := by
    apply Reaches.of_along .refl
    refine ⟨⟨trivial, fun _ => rfl⟩, ⟨⟨?_, ?_⟩, rfl⟩, ⟨trivial, fun _ => rfl⟩, trivial⟩
    · intro id gone
      cases gone
    · intro watch member _
      have only : watch ∈ [("/a", 1)] := member
      exact ⟨"/a", by rw [List.mem_singleton.mp only]; decide⟩
  have undone := undoes none _ watchedTwice "/l" (some "/a") reached (List.mem_singleton_self "/l")
  exact undone.gone "/b" (List.mem_singleton_self "/l")

end EmacsRelay.Server.Watches

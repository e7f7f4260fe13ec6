import EmacsRelay.System.Watching

set_option autoImplicit false

/- The callbacks of `file-notify`, `lisp/relay-core.el` and `lisp/relay-prefetch.el`: what they are
told, and what there was to tell. -/
namespace EmacsRelay.RelayPrefetch

open Server

/-- What a message says to the callbacks of a directory. -/
def about (dir : String) : FsEvent → Option (Notification × String)
  | .overflow => none
  | .selfChanged other => if other = dir then some (.changed, dir) else none
  | .changed kind other name =>
      if other = dir then some (.of kind, fileNameAsDirectory dir ++ name) else none

/-- What there is to tell the callbacks of a directory when something happens to a path: the
directory itself has changed, or something in it that is not watched itself. An event in a directory
that is not watched counts where it has the very name. -/
def notice (home : Option String) (s : Watches) (dir : String) (kind : ChangeKind) (p : FsPath) :
    List (Notification × String) :=
  let parent := (p.parent.map FsPath.render).getD ""
  if (s.watched p.render).isSome then
    if p.render = s.canon home dir then [(.changed, dir)] else []
  else if parent = s.canon home dir ∨ s.watched parent = none ∧ parent = dir then
    [(.of kind, fileNameAsDirectory dir ++ p.fileName.getD "")]
  else []

namespace Vigil

/-- What a descriptor is called with. -/
def callsTo (descriptor : Nat) (calls : List (Nat × Notification × String)) :
    List (Notification × String) :=
  calls.filterMap fun call => if call.1 = descriptor then some call.2 else none

def callsOf (descriptor : Nat) (w : Vigil) : List (Notification × String) :=
  callsTo descriptor w.calls

/-- What a message is heard to say. -/
def said (dir : String) (s : Registry) (k : Nat) (lost : Bool) (event : FsEvent) :
    Option (Notification × String) :=
  if s.signals k lost event then none else about dir event

/-- What a callback of a directory is told in a turn: to look again, when a connection comes to be
ready, and what messages say, unless their handling signals. -/
def tiding (dir : String) (w : Vigil) : Turn → List (Notification × String)
  | .client (.hello k) =>
      if (w.registry.links k).live && !(w.registry.links k).ready then [(.changed, dir)] else []
  | .hear k lost => ((w.servers k).unheard.head?.bind (said dir w.registry k lost)).toList
  | .rehear k index => ((w.servers k).heard[index]?.bind (said dir w.registry k true)).toList
  | _ => []

/-- The process of a connection runs on, and so what it writes is handled once. -/
def Runs (k : Nat) : Turn → Prop
  | .client doing => doing ≠ .die k
  | .hear i lost => i = k → lost = false
  | .rehear i _ => i ≠ k
  | _ => True

/-- What there is to tell in a turn on one connection. -/
def news (home : Option String) (k : Nat) (dir : String) (w : Vigil) :
    Turn → List (Notification × String)
  | .report i kind p => if i = k then notice home (w.servers k).watches dir kind p else []
  | _ => []

/-- What the messages say that are on the way. -/
def waiting (k : Nat) (dir : String) (w : Vigil) : List (Notification × String) :=
  (w.servers k).unheard.filterMap (about dir)

/-- The connection is up, and its server watches the directory, and has not been asked not to. -/
structure Attended (home : Option String) (w : Vigil) (k : Nat) (dir : String) : Prop where
  live : (w.registry.links k).live = true
  ready : (w.registry.links k).ready = true
  listed : dir ∈ (w.servers k).watches.watched.aliases ((w.servers k).watches.canon home dir)
  kept : .unwatch dir ∉ w.underway k

end Vigil

section Lists

variable {α β : Type} [DecidableEq α] {l : List α} {a : α}

/-- What is once in a list is picked once. -/
theorem filterMap_pick (once : l.Nodup) (a : α) (b : β) :
    (l.filterMap fun other => if other = a then some b else none) = if a ∈ l then [b] else [] := by
  induction l with
  | nil => rfl
  | cons first l ih =>
      obtain ⟨absent, once⟩ := List.nodup_cons.mp once
      rw [List.filterMap_cons]
      by_cases here : first = a
      · have gone : a ∉ l := here ▸ absent
        simp [here, ih once, gone]
      · have other : a ≠ first := fun same => here same.symm
        simp [here, other, ih once]

theorem flatMap_pick (once : l.Nodup) (member : a ∈ l) (b : β) :
    (l.flatMap fun other => if other = a then [b] else []) = [b] := by
  induction l with
  | nil => cases member
  | cons first l ih =>
      obtain ⟨absent, once⟩ := List.nodup_cons.mp once
      rw [List.flatMap_cons]
      by_cases here : first = a
      · have gone : ∀ other ∈ l, (if other = a then [b] else []) = [] := by
          intro other later
          apply if_neg
          intro same
          exact absent (here.trans same.symm ▸ later)
        rw [if_pos here, List.flatMap_eq_nil_iff.mpr gone]
        rfl
      · have later : a ∈ l := by
          rcases List.mem_cons.mp member with same | later
          · exact absurd same.symm here
          · exact later
        rw [if_neg here, List.nil_append]
        exact ih once later

end Lists

/-- Descriptors are handed out once. -/
structure Distinct (s : Registry) : Prop where
  dirs : s.direct.dirs.Nodup
  once : ∀ dir, (s.direct.watchers dir).Nodup
  apart : ∀ descriptor dir other, descriptor ∈ s.direct.watchers dir →
    descriptor ∈ s.direct.watchers other → dir = other
  issued : ∀ descriptor dir, descriptor ∈ s.direct.watchers dir → descriptor ≤ s.nextDescriptor

/-- The direct watches are as they were. -/
structure Unstirred (s s' : Registry) : Prop where
  direct : s'.direct = s.direct
  next : s'.nextDescriptor = s.nextDescriptor

namespace Unstirred

variable {s s' s'' : Registry} {k : Nat}

theorem trans (first : Unstirred s s') (second : Unstirred s' s'') : Unstirred s s'' where
  direct := second.direct.trans first.direct
  next := second.next.trans first.next

theorem foldl {α : Type} {f : Registry → α → Registry} (each : ∀ s a, Unstirred s (f s a))
    (as : List α) : Unstirred s (as.foldl f s) := by
  induction as generalizing s with
  | nil => exact ⟨rfl, rfl⟩
  | cons a as ih => exact (each s a).trans ih

theorem ask (s : Registry) (k : Nat) (dir : String) (aim : Aim) : Unstirred s (s.ask k dir aim) := by
  unfold Registry.ask
  split <;> exact ⟨rfl, rfl⟩

theorem post (s : Registry) (k : Nat) (message : WatchRequest) : Unstirred s (s.post k message) := by
  unfold Registry.post
  split <;> exact ⟨rfl, rfl⟩

theorem forget (s : Registry) (id : Nat) : Unstirred s (s.forget id) := ⟨rfl, rfl⟩

theorem setCaches (s : Registry) (k : Nat) (c : Caches) : Unstirred s (s.setCaches k c) := ⟨rfl, rfl⟩

theorem setLink (s : Registry) (k : Nat) (link : Link) : Unstirred s (s.setLink k link) := ⟨rfl, rfl⟩

theorem rewarms (s : Registry) (dirs : List String) :
    Unstirred s (dirs.foldl (Registry.rewarm k) s) :=
  .foldl (fun s dir => ask s k dir .rewarm) dirs

theorem revalidate (s : Registry) (dir : String) : Unstirred s (Registry.revalidate k s dir) := by
  unfold Registry.revalidate
  split
  · exact ask s k dir .rewarm
  · exact ask s k dir _

theorem hello (s : Registry) (k : Nat) : Unstirred s (s.hello k) := by
  unfold Registry.hello
  split
  · have opened := setLink s k { s.links k with ready := true }
    have validated : Unstirred _ ((s.setLink k { s.links k with ready := true
      }).revalidateMarkedOnConnect k) := .foldl revalidate _
    have rewatched : ∀ s : Registry, Unstirred s (s.rewatchDirectOnConnect k) :=
      fun s => .foldl (fun s dir => post s k (.watch dir)) _
    exact (opened.trans validated).trans (rewatched _)
  · exact ⟨rfl, rfl⟩

theorem finish (s : Registry) (id : Nat) (entries : List String) :
    Unstirred s (s.finish id entries) := by
  have forgotten := forget s id
  unfold Registry.finish
  split
  · rename_i k dir epoch found
    simp only
    split
    · exact forgotten.trans (ask _ k dir .listing)
    · split
      · exact (forgotten.trans (post _ k (.watch dir))).trans (setCaches _ k _)
      · exact forgotten
  · rename_i k dir epoch found
    simp only
    split
    · exact (forgotten.trans (setCaches _ k _)).trans (post _ k (.watch dir))
    · exact forgotten
  · exact ⟨rfl, rfl⟩

theorem validated (s : Registry) (id : Nat) (same : Bool) : Unstirred s (s.validated id same) := by
  have forgotten := forget s id
  unfold Registry.validated
  split
  · rename_i k dir epoch entries found
    simp only
    split
    · split
      · exact (forgotten.trans (setLink _ k _)).trans (post _ k (.watch dir))
      · exact forgotten.trans (ask _ k dir .rewarm)
    · exact forgotten
  · exact ⟨rfl, rfl⟩

end Unstirred

section Registrations

variable {s : Registry}

theorem Distinct.of_unstirred {s' : Registry} (distinct : Distinct s)
    (unstirred : Unstirred s s') : Distinct s' where
  dirs := by rw [unstirred.direct]; exact distinct.dirs
  once := by rw [unstirred.direct]; exact distinct.once
  apart := by rw [unstirred.direct]; exact distinct.apart
  issued := by rw [unstirred.direct, unstirred.next]; exact distinct.issued

/-- What the client does to the direct watches. -/
theorem stirred_step (s : Registry) (doing : Doing) :
    Unstirred s (s.step doing) ∨
      (∃ id dir, doing = .added id ∧ (s.step doing).direct = s.direct.add dir (s.nextDescriptor + 1) ∧
        (s.step doing).nextDescriptor = s.nextDescriptor + 1) ∨
      ∃ descriptor, doing = .rmWatch descriptor ∧
        (s.step doing).direct = s.direct.remove descriptor ∧
        (s.step doing).nextDescriptor = s.nextDescriptor := by
  cases doing with
  | connect =>
      left
      show Unstirred s s.connect
      unfold Registry.connect
      split <;> exact ⟨rfl, rfl⟩
  | hello k => exact .inl (.hello s k)
  | die k => exact .inl ⟨rfl, rfl⟩
  | listing k dir =>
      left
      show Unstirred s (s.listing k dir)
      unfold Registry.listing
      split
      · exact ⟨rfl, rfl⟩
      · exact .ask s k dir .listing
  | rewarm k dir => exact .inl (.ask s k dir .rewarm)
  | finish id entries => exact .inl (.finish s id entries)
  | validated id same => exact .inl (.validated s id same)
  | abandon id => exact .inl (.forget s id)
  | event k event =>
      left
      show Unstirred s (s.handle k event)
      unfold Registry.handle
      exact (Unstirred.setCaches s k _).trans (.rewarms _ _)
  | mutate k caps mutation => exact .inl (.setCaches s k _)
  | uncache k dir => exact .inl (.setCaches s k _)
  | mark listingPrefetch listing content => exact .inl ⟨rfl, rfl⟩
  | profiles active =>
      left
      show Unstirred s (s.applyActiveProfiles active)
      unfold Registry.applyActiveProfiles
      exact (Unstirred.setCaches s s.latest _).trans (.rewarms _ _)
  | addWatch localdir =>
      left
      show Unstirred s (s.addWatch localdir)
      unfold Registry.addWatch
      split
      · have posted := Unstirred.post s s.latest (.watch localdir)
        exact ⟨posted.direct, posted.next⟩
      · exact ⟨rfl, rfl⟩
  | added id =>
      cases found : s.addings id with
      | none =>
          left
          show Unstirred s (s.added id)
          unfold Registry.added
          rw [found]
          exact ⟨rfl, rfl⟩
      | some adding =>
          right
          left
          refine ⟨id, adding.dir, rfl, ?_, ?_⟩
          · show (s.added id).direct = _
            unfold Registry.added
            rw [found]
          · show (s.added id).nextDescriptor = _
            unfold Registry.added
            rw [found]
  | rmWatch descriptor =>
      right
      right
      refine ⟨descriptor, rfl, ?_⟩
      show (s.rmWatch descriptor).direct = _ ∧ (s.rmWatch descriptor).nextDescriptor = _
      have removed : Unstirred { s with direct := s.direct.remove descriptor }
          (s.rmWatch descriptor) := by
        unfold Registry.rmWatch
        cases s.direct.emptied descriptor with
        | none => exact ⟨rfl, rfl⟩
        | some localdir =>
            simp only
            split
            · exact ⟨rfl, rfl⟩
            · exact .post _ _ _
      exact ⟨removed.direct, removed.next⟩

theorem Distinct.step (distinct : Distinct s) (doing : Doing) : Distinct (s.step doing) := by
  rcases stirred_step s doing with unstirred | ⟨_, dir, -, direct, next⟩ | ⟨gone, -, direct, next⟩
  · exact distinct.of_unstirred unstirred
  · have unused : ∀ other, s.nextDescriptor + 1 ∉ s.direct.watchers other := by
      intro other member
      have issued := distinct.issued _ other member
      omega
    have added : ∀ {descriptor other}, descriptor ∈ (s.step doing).direct.watchers other →
        descriptor ∈ s.direct.watchers other ∨ descriptor = s.nextDescriptor + 1 ∧ other = dir := by
      intro descriptor other member
      rw [direct, DirectWatches.add_watchers] at member
      split at member
      · rename_i here
        rcases List.mem_cons.mp member with new | before
        · exact .inr ⟨new, here⟩
        · exact .inl before
      · exact .inl member
    constructor
    case dirs =>
      rw [direct, DirectWatches.add_dirs]
      split
      · exact distinct.dirs
      · rename_i absent
        exact distinct.dirs.append (List.nodup_singleton dir) (by simpa using absent)
    case once =>
      intro other
      rw [direct, DirectWatches.add_watchers]
      split
      · exact List.nodup_cons.mpr ⟨unused other, distinct.once other⟩
      · exact distinct.once other
    case apart =>
      intro descriptor one two first second
      rcases added first with before | ⟨new, here⟩
      · rcases added second with also | ⟨newer, -⟩
        · exact distinct.apart descriptor one two before also
        · exact absurd (newer ▸ before) (unused one)
      · rcases added second with also | ⟨-, there⟩
        · exact absurd (new ▸ also) (unused two)
        · exact here.trans there.symm
    case issued =>
      intro descriptor other member
      rw [next]
      rcases added member with before | ⟨new, -⟩
      · exact Nat.le_succ_of_le (distinct.issued descriptor other before)
      · exact new.le
  · have fewer : ∀ descriptor dir, descriptor ∈ (s.step doing).direct.watchers dir →
        descriptor ∈ s.direct.watchers dir := by
      intro descriptor dir member
      rw [direct, DirectWatches.remove_watchers] at member
      exact List.mem_of_mem_filter member
    constructor
    case dirs =>
      rw [direct]
      exact distinct.dirs
    case once =>
      intro dir
      rw [direct, DirectWatches.remove_watchers]
      exact (distinct.once dir).filter _
    case apart =>
      exact fun descriptor one two first second =>
        distinct.apart descriptor one two (fewer _ _ first) (fewer _ _ second)
    case issued =>
      intro descriptor dir member
      rw [next]
      exact distinct.issued descriptor dir (fewer _ _ member)

end Registrations

namespace Vigil

section Calls

variable {s : Registry} {descriptor : Nat} {dir : String}

/-- Of the callbacks of one directory, at most one is the descriptor's. -/
theorem callsTo_watchers (distinct : Distinct s) (registered : descriptor ∈ s.direct.watchers dir)
    (other : String) (told : Notification × String) :
    callsTo descriptor ((s.direct.watchers other).map (·, told)) =
      if other = dir then [told] else [] := by
  unfold callsTo
  rw [List.filterMap_map]
  have picked := filterMap_pick (distinct.once other) descriptor told
  by_cases here : other = dir
  · rw [if_pos (here ▸ registered)] at picked
    rw [if_pos here]
    exact picked
  · have absent : descriptor ∉ s.direct.watchers other :=
      fun member => here (distinct.apart descriptor other dir member registered)
    rw [if_neg absent] at picked
    rw [if_neg here]
    exact picked

theorem told_overflow (k : Nat) (lost : Bool) : s.told k lost .overflow = [] := by
  unfold Registry.told
  split <;> rfl

/-- A change of the directory itself has nothing read again. -/
theorem told_selfChanged (k : Nat) (lost : Bool) (other : String) :
    s.told k lost (.selfChanged other) =
      if s.signals k lost (.selfChanged other) then []
      else (s.direct.watchers other).map (·, .changed, other) := by
  simp [Registry.told, handleEvent, Registry.attentive]

theorem told_changed (k : Nat) (lost : Bool) (kind : ChangeKind) (other name : String) :
    s.told k lost (.changed kind other name) =
      if s.signals k lost (.changed kind other name) then []
      else (s.direct.watchers other).map (·, .of kind, fileNameAsDirectory other ++ name) := by
  simp [Registry.told, handleEvent, Registry.attentive]

/-- A message is told once to the callbacks of its directory, unless its handling signals. -/
theorem callsTo_told (distinct : Distinct s) (registered : descriptor ∈ s.direct.watchers dir)
    (k : Nat) (lost : Bool) (event : FsEvent) :
    callsTo descriptor (s.told k lost event) = (said dir s k lost event).toList := by
  unfold said
  cases event with
  | overflow =>
      rw [told_overflow]
      split <;> rfl
  | selfChanged other =>
      rw [told_selfChanged]
      split
      · rfl
      · rw [callsTo_watchers distinct registered]
        by_cases here : other = dir <;> simp [about, here]
  | changed kind other name =>
      rw [told_changed]
      split
      · rfl
      · rw [callsTo_watchers distinct registered]
        by_cases here : other = dir <;> simp [about, here]

theorem callsTo_elim (distinct : Distinct s) (registered : descriptor ∈ s.direct.watchers dir)
    (k : Nat) (lost : Bool) (event : Option FsEvent) :
    callsTo descriptor (event.elim [] (s.told k lost)) = (event.bind (said dir s k lost)).toList := by
  cases event with
  | none => rfl
  | some event => exact callsTo_told distinct registered k lost event

theorem callsTo_prompted (distinct : Distinct s) (registered : descriptor ∈ s.direct.watchers dir)
    (k : Nat) :
    callsTo descriptor (s.prompted k) =
      if (s.links k).live && !(s.links k).ready then [(.changed, dir)] else [] := by
  unfold Registry.prompted
  split
  · have each : ∀ other, callsTo descriptor
        ((s.direct.watchers other).map (·, Notification.changed, other)) =
          if other = dir then [(.changed, dir)] else [] := by
      intro other
      rw [callsTo_watchers distinct registered]
      by_cases here : other = dir <;> simp [here]
    have known : dir ∈ s.direct.dirs :=
      s.direct.listed dir (List.ne_nil_of_mem registered)
    have all : callsTo descriptor (s.direct.dirs.flatMap fun other =>
        (s.direct.watchers other).map (·, Notification.changed, other)) =
        s.direct.dirs.flatMap fun other => if other = dir then [(.changed, dir)] else [] := by
      unfold callsTo at each ⊢
      rw [List.filterMap_flatMap]
      simp only [each]
    rw [all]
    exact flatMap_pick distinct.dirs known _
  · rfl

/-- A turn calls a callback with its tidings. -/
theorem callsTo_called {w : Vigil} (distinct : Distinct w.registry)
    (registered : descriptor ∈ w.registry.direct.watchers dir) (turn : Turn) :
    callsTo descriptor (w.called turn) = tiding dir w turn := by
  cases turn with
  | client doing =>
      cases doing with
      | hello k => exact callsTo_prompted distinct registered k
      | _ => rfl
  | hear k lost => exact callsTo_elim distinct registered k lost (w.servers k).unheard.head?
  | rehear k index => exact callsTo_elim distinct registered k true (w.servers k).heard[index]?
  | _ => rfl

theorem callsTo_step {w : Vigil} (home : Option String) (distinct : Distinct w.registry)
    (registered : descriptor ∈ w.registry.direct.watchers dir) (turn : Turn) :
    callsOf descriptor (w.step home turn) = callsOf descriptor w ++ tiding dir w turn := by
  rw [← callsTo_called distinct registered]
  exact List.filterMap_append

end Calls

section Registered

variable {home : Option String} {w : Vigil} {descriptor : Nat} {dir : String}

/-- What a turn does to the client is done by a step of it. -/
theorem registry_step (home : Option String) (w : Vigil) (turn : Turn) :
    (w.step home turn).registry = w.registry ∨
      ∃ doing, (w.step home turn).registry = w.registry.step doing ∧
        ((∃ k event, doing = .event k event) ∨ turn = .client doing) := by
  show (w.move home turn).registry = _ ∨ ∃ doing, (w.move home turn).registry = _ ∧ _
  cases turn with
  | client doing => exact .inr ⟨doing, rfl, .inr rfl⟩
  | serve k accepts entry released =>
      left
      cases next : w.next k with
      | none => rw [move_serve_none home accepts released entry next]
      | some message =>
          rw [move_serve home accepts released entry next]
          rfl
  | change k directories deleted => exact .inl rfl
  | report k kind p => exact .inl rfl
  | overflow k => exact .inl rfl
  | hear k lost =>
      cases unheard : (w.servers k).unheard with
      | nil =>
          left
          rw [move_hear_nil home lost unheard]
      | cons event rest =>
          right
          rw [move_hear home lost unheard]
          exact ⟨.event k event, rfl, .inl ⟨k, event, rfl⟩⟩
  | rehear k index =>
      cases kept : (w.servers k).heard[index]? with
      | none =>
          left
          rw [move_rehear_none home kept]
      | some event =>
          right
          rw [move_rehear home kept]
          exact ⟨.event k event, rfl, .inl ⟨k, event, rfl⟩⟩

theorem distinct_step (distinct : Distinct w.registry) (turn : Turn) :
    Distinct (w.step home turn).registry := by
  rcases registry_step home w turn with same | ⟨doing, same, -⟩
  · rw [same]
    exact distinct
  · rw [same]
    exact distinct.step doing

/-- A callback stays registered until its descriptor is removed. -/
theorem registered_kept (registered : descriptor ∈ w.registry.direct.watchers dir) {turn : Turn}
    (kept : turn ≠ .client (.rmWatch descriptor)) :
    descriptor ∈ (w.step home turn).registry.direct.watchers dir := by
  rcases registry_step home w turn with same | ⟨doing, same, origin⟩
  · rw [same]
    exact registered
  · rw [same]
    rcases stirred_step w.registry doing with unstirred | ⟨_, _, -, direct, -⟩ | ⟨gone, removes, direct, -⟩
    · rw [unstirred.direct]
      exact registered
    · rw [direct, DirectWatches.add_watchers]
      split
      · exact List.mem_cons_of_mem _ registered
      · exact registered
    · have other : descriptor ≠ gone := by
        intro itself
        rcases origin with ⟨k, event, heard⟩ | done
        · rw [heard] at removes
          cases removes
        · exact kept (by rw [done, removes, itself])
      rw [direct, DirectWatches.remove_watchers]
      exact List.mem_filter.mpr ⟨registered, by simpa using other⟩

end Registered

section Messages

variable {home : Option String} {s : Watches} {dir : String}

/-- A directory is in one entry of the table. -/
theorem listed_iff (homed : s.Homed home)
    (listed : dir ∈ s.watched.aliases (s.canon home dir)) (canon : String) :
    dir ∈ s.watched.aliases canon ↔ canon = s.canon home dir := by
  constructor
  · exact fun member => (homed.home dir canon member).symm
  · exact fun same => same ▸ listed

theorem listed_watch (listed : dir ∈ s.watched.aliases (s.canon home dir)) (other : String)
    (accepts : Bool) : dir ∈ (s.step home true (.watch other accepts)).watched.aliases
      ((s.step home true (.watch other accepts)).canon home dir) := by
  rw [Watches.canon_watch]
  rcases Watches.aliases_watch other accepts (s.canon home dir) with same | ⟨-, -, added⟩
  · rw [same]
    exact listed
  · rw [added]
    exact List.mem_append_left _ listed

theorem listed_unwatch (listed : dir ∈ s.watched.aliases (s.canon home dir)) {other : String}
    (ne : dir ≠ other) (entry : Option String) (released : Bool) :
    dir ∈ (s.step home true (.unwatch other entry released)).watched.aliases
      ((s.step home true (.unwatch other entry released)).canon home dir) := by
  rw [Watches.canon_unwatch]
  cases entry with
  | none => exact listed
  | some entry =>
      rw [Watches.aliases_unwatched]
      split
      · rename_i here
        rw [here] at listed
        exact (List.mem_erase_of_ne ne).mpr listed
      · exact listed

/-- The messages of a report say of a directory that is watched what there is to tell, once. -/
theorem about_pathEvents (homed : s.Homed home)
    (listed : dir ∈ s.watched.aliases (s.canon home dir)) (kind : ChangeKind) (p : FsPath) :
    (pathEvents s.watched kind p).filterMap (about dir) = notice home s dir kind p := by
  have entry := listed_iff homed listed
  unfold pathEvents notice
  cases itself : s.watched p.render with
  | some aliases =>
      have same : s.watched.aliases p.render = aliases := by simp [WatchTable.aliases, itself]
      have once := homed.once p.render
      rw [same] at once
      have picked := filterMap_pick once dir (Notification.changed, dir)
      rw [List.filterMap_map]
      refine Eq.trans picked ?_
      simp only [← same, entry, Option.isSome_some, if_true]
  | none =>
      simp only [Option.isSome_none, Bool.false_eq_true, if_false]
      generalize (p.parent.map FsPath.render).getD "" = parent
      generalize said : (Notification.of kind, fileNameAsDirectory dir ++ p.fileName.getD "") = told
      have picked : ∀ dirs : List String, dirs.Nodup →
          (dirs.map (FsEvent.changed kind · (p.fileName.getD ""))).filterMap (about dir) =
            if dir ∈ dirs then [told] else [] := by
        intro dirs once
        rw [List.filterMap_map, ← filterMap_pick once dir told, ← said]
        rfl
      cases above : s.watched parent with
      | some aliases =>
          have same : s.watched.aliases parent = aliases := by simp [WatchTable.aliases, above]
          have once := homed.once parent
          rw [same] at once
          refine Eq.trans (picked aliases once) ?_
          simp only [← same, entry, reduceCtorEq, false_and, or_false]
      | none =>
          have elsewhere : parent ≠ s.canon home dir := by
            intro here
            rw [← here] at listed
            simp [WatchTable.aliases, above] at listed
          refine Eq.trans (picked [parent] (List.nodup_singleton parent)) ?_
          simp only [List.mem_singleton, elsewhere, false_or, true_and, eq_comm]

end Messages

section Sessions

variable {home : Option String} {w : Vigil} {k : Nat} {descriptor : Nat} {dir : String}

/-- An `unwatch` is sent only when no descriptor is left. -/
theorem not_emptied {s : Registry} (registered : descriptor ∈ s.direct.watchers dir) {gone : Nat}
    (other : descriptor ≠ gone) : s.direct.emptied gone ≠ some dir := by
  intro emptied
  have none_left := emptied_some emptied
  have left : descriptor ∈ (s.direct.remove gone).watchers dir := by
    rw [DirectWatches.remove_watchers]
    exact List.mem_filter.mpr ⟨registered, by simpa using other⟩
  rw [none_left] at left
  cases left

/-- The server of a connection goes on. -/
theorem Attended.setServer (attended : Attended home w k dir) {i : Nat} {server : Attendance}
    (fits : i = k → dir ∈ server.watches.watched.aliases (server.watches.canon home dir) ∧
      .unwatch dir ∉ (w.registry.links k).sent.drop server.served) :
    Attended home (w.setServer i server) k dir := by
  have placed : (w.setServer i server).servers k = if k = i then server else w.servers k := rfl
  constructor
  case live => exact attended.live
  case ready => exact attended.ready
  case listed =>
    rw [placed]
    split
    · rename_i here
      exact (fits here.symm).1
    · exact attended.listed
  case kept =>
    unfold underway
    rw [placed, setServer_registry]
    split
    · rename_i here
      exact (fits here.symm).2
    · exact attended.kept

/-- Its messages do not matter. -/
theorem Attended.setUnheard (attended : Attended home w k dir) (i : Nat)
    (unheard heard : List FsEvent) :
    Attended home (w.setServer i { w.servers i with unheard := unheard, heard := heard }) k dir := by
  apply attended.setServer
  intro here
  rw [here]
  exact ⟨attended.listed, attended.kept⟩

/-- The latest connection stays the latest while its process runs. -/
theorem latest_kept (orderly : Orderly home w) (live : (w.registry.links k).live = true)
    {doing : Doing} {registry : Registry} (onward : Onward w.registry doing registry) :
    registry.latest = w.registry.latest := by
  rcases onward.latest with same | ⟨down, -⟩
  · exact same
  · rw [← orderly.single k live, live] at down
    cases down

theorem Attended.setRegistry (attended : Attended home w k dir) (orderly : Orderly home w)
    (registered : descriptor ∈ w.registry.direct.watchers dir) {doing : Doing} {registry : Registry}
    (onward : Onward w.registry doing registry) (stays : doing ≠ .die k)
    (kept : doing ≠ .rmWatch descriptor) : Attended home (w.setRegistry registry) k dir := by
  have latest := latest_kept orderly attended.live onward
  have same : (w.setRegistry registry).servers k = w.servers k := setRegistry_old (.inl latest)
  constructor
  case live => exact (onward.kept k attended.live).resolve_right stays
  case ready => exact onward.ready k (.inl latest) attended.ready
  case listed =>
    rw [same]
    exact attended.listed
  case kept =>
    obtain ⟨more, sent, unwatched⟩ := onward.sent k (.inl latest)
    unfold underway
    rw [same, setRegistry_registry, sent, List.drop_append_of_le_length (orderly.served k),
      List.mem_append]
    rintro (before | later)
    · exact attended.kept before
    · obtain ⟨gone, removes, emptied⟩ := unwatched dir later
      have other : descriptor ≠ gone := fun itself => kept (itself ▸ removes)
      exact not_emptied registered other emptied

/-- The server executes a message, which does not take the directory back. -/
theorem Attended.serve (attended : Attended home w k dir) {i : Nat} {message : WatchRequest}
    (accepts released : Bool) (entry : Option String) (next : w.next i = some message) :
    Attended home (w.setServer i { w.servers i with
      served := (w.servers i).served + 1
      watches := (w.servers i).watches.step home true (message.input accepts entry released) })
      k dir := by
  apply attended.setServer
  intro here
  subst here
  have member : message ∈ w.underway i := by
    have first : (w.underway i)[0]? = some message := by
      unfold underway
      rw [List.getElem?_drop]
      exact next
    exact List.mem_of_getElem? first
  constructor
  · cases message with
    | watch other => exact listed_watch attended.listed other accepts
    | unwatch other =>
        have ne : dir ≠ other := fun same => attended.kept (same ▸ member)
        exact listed_unwatch attended.listed ne entry released
  · intro later
    apply attended.kept
    rw [← List.drop_drop] at later
    exact List.mem_of_mem_drop later

theorem Attended.change (attended : Attended home w k dir) {i : Nat} {directories : Directories}
    {deleted : List Nat}
    (faithful : (w.servers i).watches.Faithful home (.change directories deleted)) :
    Attended home (w.setServer i { w.servers i with
      watches := (w.servers i).watches.step home true (.change directories deleted) }) k dir := by
  apply attended.setServer
  intro here
  subst here
  refine ⟨?_, attended.kept⟩
  have same := faithful.2.2 dir _ attended.listed
  dsimp only
  rw [same]
  exact attended.listed

/-- A connection stays attended until its process ends, whatever else happens. -/
theorem Attended.step (attended : Attended home w k dir) (orderly : Orderly home w)
    (registered : descriptor ∈ w.registry.direct.watchers dir) {turn : Turn}
    (lawful : w.Lawful home turn) (kept : turn ≠ .client (.rmWatch descriptor))
    (stays : Runs k turn) : Attended home (w.step home turn) k dir := by
  have moved : Attended home (w.move home turn) k dir := by
    cases turn with
    | client doing =>
        apply attended.setRegistry orderly registered (onward_step w.registry doing)
        · exact stays
        · exact fun same => kept (same ▸ rfl)
    | serve i accepts entry released =>
        cases next : w.next i with
        | none =>
            rw [move_serve_none home accepts released entry next]
            exact attended
        | some message =>
            rw [move_serve home accepts released entry next]
            exact attended.serve accepts released entry next
    | change i directories deleted => exact attended.change lawful
    | report i kind p => exact attended.setUnheard i _ (w.servers i).heard
    | overflow i => exact attended.setUnheard i _ (w.servers i).heard
    | hear i lost =>
        cases unheard : (w.servers i).unheard with
        | nil =>
            rw [move_hear_nil home lost unheard]
            exact attended
        | cons event rest =>
            rw [move_hear home lost unheard]
            have heard : Attended home (w.heed i event rest) k dir := attended.setUnheard i rest _
            have served : Orderly home (w.heed i event rest) :=
              orderly.setServer (orderly.served i) (orderly.homed i)
            apply heard.setRegistry served registered (onward_step w.registry (.event i event))
            · simp
            · simp
    | rehear i index =>
        cases heard : (w.servers i).heard[index]? with
        | none =>
            rw [move_rehear_none home heard]
            exact attended
        | some event =>
            rw [move_rehear home heard]
            apply attended.setRegistry orderly registered (onward_step w.registry (.event i event))
            · simp
            · simp
  exact ⟨moved.live, moved.ready, moved.listed, moved.kept⟩

theorem waiting_setServer {i : Nat} {server : Attendance}
    (same : server.unheard = (w.servers i).unheard) :
    waiting k dir (w.setServer i server) = waiting k dir w := by
  unfold waiting
  rw [setServer_servers]
  by_cases here : k = i
  · rw [if_pos here, same, here]
  · rw [if_neg here]

theorem waiting_setRegistry (orderly : Orderly home w)
    (live : (w.registry.links k).live = true) {doing : Doing} {registry : Registry}
    (onward : Onward w.registry doing registry) :
    waiting k dir (w.setRegistry registry) = waiting k dir w := by
  unfold waiting
  rw [setRegistry_old (.inl (latest_kept orderly live onward))]

theorem waiting_write (i : Nat) (events : List FsEvent) :
    waiting k dir (w.write i events) =
      waiting k dir w ++ if i = k then events.filterMap (about dir) else [] := by
  unfold waiting write
  rw [setServer_servers]
  by_cases here : i = k
  · rw [if_pos here.symm, if_pos here, here]
    exact List.filterMap_append
  · rw [if_neg (fun same => here same.symm), if_neg here, List.append_nil]

/-- No other connection comes to be ready. -/
theorem tiding_client (attended : Attended home w k dir) (orderly : Orderly home w) (doing : Doing) :
    tiding dir w (.client doing) = [] := by
  cases doing with
  | hello i =>
      apply if_neg
      intro opens
      rw [Bool.and_eq_true, Bool.not_eq_true'] at opens
      have here : i = k :=
        (orderly.single i opens.1).trans (orderly.single k attended.live).symm
      rw [here, attended.ready] at opens
      cases opens.2
  | _ => rfl

/-- What is told in a turn was waiting, and what there is to tell waits. -/
theorem queued_step (attended : Attended home w k dir) (orderly : Orderly home w) {turn : Turn}
    (lawful : w.Lawful home turn) (stays : Runs k turn) :
    tiding dir w turn ++ waiting k dir (w.step home turn) =
      waiting k dir w ++ news home k dir w turn := by
  show _ ++ waiting k dir (w.move home turn) = _
  cases turn with
  | client doing =>
      rw [tiding_client attended orderly]
      have same : waiting k dir (w.move home (.client doing)) = waiting k dir w :=
        waiting_setRegistry orderly attended.live (onward_step w.registry doing)
      rw [same]
      exact (List.append_nil _).symm
  | serve i accepts entry released =>
      have same : waiting k dir (w.move home (.serve i accepts entry released)) =
          waiting k dir w := by
        cases next : w.next i with
        | none => rw [move_serve_none home accepts released entry next]
        | some message =>
            rw [move_serve home accepts released entry next]
            exact waiting_setServer rfl
      rw [same]
      exact (List.append_nil _).symm
  | change i directories deleted =>
      have same : waiting k dir (w.move home (.change i directories deleted)) = waiting k dir w :=
        waiting_setServer rfl
      rw [same]
      exact (List.append_nil _).symm
  | report i kind p =>
      refine Eq.trans (waiting_write i (pathEvents (w.servers i).watches.watched kind p)) ?_
      show _ = _ ++ if i = k then notice home (w.servers k).watches dir kind p else []
      by_cases here : i = k
      · rw [if_pos here, if_pos here, here,
          about_pathEvents (orderly.homed k) attended.listed]
      · rw [if_neg here, if_neg here]
  | overflow i =>
      refine Eq.trans (waiting_write i [.overflow]) ?_
      show _ = waiting k dir w ++ []
      split <;> rfl
  | rehear i index =>
      have here : i = k :=
        (orderly.single i lawful).trans (orderly.single k attended.live).symm
      exact absurd here stays
  | hear i lost =>
      have here : i = k :=
        (orderly.single i lawful).trans (orderly.single k attended.live).symm
      -- the process runs, and so what is to be read again is asked for
      obtain rfl : lost = false := stays here
      subst here
      show ((w.servers i).unheard.head?.bind (said dir w.registry i false)).toList ++ _ = _ ++ []
      cases unheard : (w.servers i).unheard with
      | nil =>
          rw [move_hear_nil home false unheard, List.append_nil]
          rfl
      | cons event rest =>
          rw [move_hear home false unheard, List.append_nil]
          have heard : Orderly home (w.heed i event rest) :=
            orderly.setServer (orderly.served i) (orderly.homed i)
          have same : waiting i dir ((w.heed i event rest).setRegistry
              (w.registry.handle i event)) = rest.filterMap (about dir) := by
            refine Eq.trans (waiting_setRegistry heard attended.live
              (onward_step w.registry (.event i event))) ?_
            unfold waiting heed
            rw [setServer_servers, if_pos rfl]
          have before : waiting i dir w = (event :: rest).filterMap (about dir) := by
            unfold waiting
            rw [unheard]
          rw [same, before, List.filterMap_cons]
          show (about dir event).toList ++ _ = _
          cases about dir event <;> rfl

end Sessions

/-- Whatever else happens, on any number of connections, from the registration of a callback to the
removal of its descriptor: it is called once when a connection comes to be ready, and each time that
a message about its directory is handled and does not signal, with what that says. And as long as
the process of a connection runs whose server watches the directory, it is called for each report of
a change there once, in order, but for the messages that are still on the way. -/
theorem notified_once {home : Option String} {shared : Caches} {directories : Nat → Directories}
    {w : Vigil} (reached : Reaches (step home) (Lawful home) (start shared directories) w)
    {descriptor : Nat} {dir : String} (registered : descriptor ∈ w.registry.direct.watchers dir)
    {turns : List Turn}
    (along : Reaches.Along (step home)
      (fun w turn => w.Lawful home turn ∧ turn ≠ .client (.rmWatch descriptor)) w turns) :
    callsOf descriptor (turns.foldl (step home) w) =
        callsOf descriptor w ++ Reaches.outputs (step home) (tiding dir) w turns ∧
      ∀ k, Attended home w k dir → (∀ turn ∈ turns, Runs k turn) →
        Reaches.outputs (step home) (tiding dir) w turns ++
            waiting k dir (turns.foldl (step home) w) =
          waiting k dir w ++ Reaches.outputs (step home) (news home k dir) w turns := by
  have orderly : Orderly home w ∧ Distinct w.registry := by
    apply Reaches.invariant _ _ reached
    · refine ⟨orderly_start home shared directories, List.nodup_nil, fun _ => List.nodup_nil, ?_, ?_⟩
      · intro _ _ _ member
        cases member
      · intro _ _ member
        cases member
    · exact fun w turn both lawful => ⟨both.1.step lawful, distinct_step both.2 turn⟩
  constructor
  · have keep : ∀ (w : Vigil) (turn : Turn),
        Distinct w.registry ∧ descriptor ∈ w.registry.direct.watchers dir →
        w.Lawful home turn ∧ turn ≠ .client (.rmWatch descriptor) →
        Distinct (w.step home turn).registry ∧
          descriptor ∈ (w.step home turn).registry.direct.watchers dir :=
      fun w turn holds permitted =>
        ⟨distinct_step holds.1 turn, registered_kept holds.2 permitted.2⟩
    apply Reaches.Along.recorded keep _ ⟨orderly.2, registered⟩ along
    exact fun w turn holds _ => callsTo_step home holds.1 holds.2 turn
  · intro k attended stays
    have keep : ∀ (w : Vigil) (turn : Turn),
        Orderly home w ∧ Attended home w k dir ∧ descriptor ∈ w.registry.direct.watchers dir →
        (w.Lawful home turn ∧ turn ≠ .client (.rmWatch descriptor)) ∧ Runs k turn →
        Orderly home (w.step home turn) ∧ Attended home (w.step home turn) k dir ∧
          descriptor ∈ (w.step home turn).registry.direct.watchers dir :=
      fun w turn holds permitted =>
        ⟨holds.1.step permitted.1.1,
          holds.2.1.step holds.1 holds.2.2 permitted.1.1 permitted.1.2 permitted.2,
          registered_kept holds.2.2 permitted.1.2⟩
    apply Reaches.Along.queued keep _ ⟨orderly.1, attended, registered⟩
      (along.and (Reaches.Along.of_forall stays w))
    exact fun w turn holds permitted => queued_step holds.2.1 holds.1 permitted.1.1 permitted.2

/-- A file is created in a directory that is watched for a callback, and the client hears of it. -/
def creationTurns : List Turn := [.report 1 .created ⟨["d", "f"]⟩, .hear 1 false]

theorem notified_once_created :
    callsOf 1 (creationTurns.foldl (step none) (watchingTurns.foldl (step none) watchingStart)) =
        [(.created, "/d/f")] ∧
      Reaches.outputs (step none) (news none 1 "/d") (watchingTurns.foldl (step none) watchingStart)
        creationTurns = [(.created, "/d/f")] := by
  have reached := (Reaches.refl.of_along along_watchingTurns).mono fun _ _ both => both.1
  have along : Reaches.Along (step none)
      (fun w turn => w.Lawful none turn ∧ turn ≠ .client (.rmWatch 1))
      (watchingTurns.foldl (step none) watchingStart) creationTurns :=
    ⟨⟨trivial, by simp⟩, ⟨rfl, by simp⟩, trivial⟩
  have registered : 1 ∈
      (watchingTurns.foldl (step none) watchingStart).registry.direct.watchers "/d" :=
    List.mem_singleton_self 1
  have once := notified_once reached registered along
  have attended : Attended none (watchingTurns.foldl (step none) watchingStart) 1 "/d" :=
    ⟨rfl, rfl, List.mem_singleton_self "/d", List.not_mem_nil⟩
  have told : Reaches.outputs (step none) (tiding "/d")
      (watchingTurns.foldl (step none) watchingStart) creationTurns = [(.created, "/d/f")] := by
    decide
  refine ⟨once.1.trans ?_, ?_⟩
  · rw [told]
    rfl
  · have conserved := once.2 1 attended (by simp [creationTurns, Runs])
    rw [told] at conserved
    exact conserved.symm

end Vigil

end EmacsRelay.RelayPrefetch

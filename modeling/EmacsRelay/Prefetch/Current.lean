import EmacsRelay.Prefetch.Contents
import EmacsRelay.Prefetch.Freshness

set_option autoImplicit false

/- Cached contents are current: an entry that is not has an event on the way that drops it, or is
replaced by the save that the client waits for. -/
namespace EmacsRelay.RelayPrefetch

open Server

/-- The request ID is a blocking save of PATH that has been executed and is still waited for. -/
def Stock.Saves (w : Stock) (id : Nat) (path : String) : Prop :=
  ∃ errand bytes, w.errands id = some errand ∧ errand.path = path ∧ errand.blocking = true ∧
    errand.intent = .save bytes ∧ errand.progress ≠ .asked

def Stock.Saving (w : Stock) (path : String) : Prop := ∃ id, w.Saves id path

/-- The entry of PATH is about to be dropped or replaced. -/
def Stock.Awaited (w : Stock) (path : String) : Prop := w.world.Owes path ∨ w.Saving path

/-- The messages for a change of PATH drop its entry: the server watches its directory by a name
that PATH begins with, and PATH is not watched itself by other names. -/
def Announced (w : Stock) (path : String) : Prop :=
  ∃ canon, ∃ dir ∈ w.world.watched.aliases canon, ∃ name : String, '/' ∉ name.toList ∧
    path = fileNameAsDirectory dir ++ name ∧
    ∀ p : FsPath, p.parent.map FsPath.render = some canon → p.fileName = some name →
      w.world.watched p.render = none ∨ ∃ asked ∈ w.world.watched.aliases p.render, Within asked path

/-- The file has the bytes given, or an event that drops its entry is on the way. -/
def Stock.Holds (w : Stock) (path bytes : String) : Prop :=
  bytes = w.current path ∨ w.world.Owes path

/-- No outdated entry is left to the request ID alone. -/
def Stock.Unneeded (w : Stock) (id : Nat) : Prop :=
  ∀ path bytes, w.Saves id path → w.cached path = some bytes →
    w.Holds path bytes ∨ ∃ other, other ≠ id ∧ w.Saves other path

/-- An outdated entry that is about to be dropped or replaced does not depend on a change that is
not reported yet, unless that change is one of those that are SPARED. -/
def Stock.Spared (w : Stock) (spared : FsPath → FsEvent → String → Prop) : Prop :=
  ∀ path bytes, w.cached path = some bytes → bytes ≠ w.current path → w.Awaited path →
    w.Saving path ∨ (∃ event, .event event ∈ w.world.channel ∧ evictsContent path event = true) ∨
      ∃ change ∈ w.world.unreported, ∃ event ∈ pathEvents w.world.watched change.1 change.2,
        evictsContent path event = true ∧ spared change.2 event path

/-- The name of the watched directory that an event is sent under. -/
def eventDir : FsEvent → Option String
  | .overflow => none
  | .selfChanged dir => some dir
  | .changed _ dir _ => some dir

/-- P is the directory CANON or an entry of it. -/
def OfDirectory (canon : String) (p : FsPath) : Prop :=
  p.render = canon ∨ (p.parent.map FsPath.render).getD "" = canon

/-- A cached file changes only when that is announced. Replies are used, and REMOTE is adopted,
only while the file still has what the server told, or an event for it is on the way. No failed or
abandoned request is one that an outdated entry is left to, and no lost connection takes the events
for one. The server begins or ceases to watch a directory by a name only when no outdated entry is
left to a change in it that is not reported yet. -/
def Heeded (w : Stock) : Move → Prop
  | .change contents _ _ => ∀ path bytes, w.cached path = some bytes →
      contents path ≠ w.contents path → Announced w path ∨ w.Awaited path
  | .publish id contents _ _ => ∀ path bytes, w.cached path = some bytes →
      contents path ≠ w.contents path →
      (∃ errand, w.errands id = some errand ∧ errand.path = path ∧ errand.blocking = true) ∨
        Announced w path ∨ w.Awaited path
  | .finish id use => ∀ errand reply, w.errands id = some errand →
      errand.progress = .queued reply →
      match errand.intent, reply with
      | .inspect, some snapshot => use = .install → w.Holds errand.path snapshot.1
      | .warm, some snapshot => w.Holds errand.path snapshot.1
      | .save bytes, some _ => w.Holds errand.path bytes
      | _, none => w.Unneeded id
  | .adoptRemote path => ∀ bytes, w.looks path = some bytes → w.Holds path bytes
  | .giveUp id => w.Unneeded id
  | .reconnect => ∀ path bytes, w.cached path = some bytes → w.Awaited path →
      bytes = w.current path
  | .execWatch index canon _ => ∀ dir, w.world.watches[index]? = some dir →
      w.world.watched canon = none →
      w.Spared fun p _ path => OfDirectory canon p → p.render = canon ∧ Within dir path
  | .execUnwatch index entry => ∀ dir, w.unwatches[index]? = some dir →
      w.Spared fun p event _ => OfDirectory entry p → eventDir event ≠ some dir
  | _ => True

/-- Nothing is lost of what a world had, and its contents are the same. -/
structure World.Grows (w w' : World) : Prop where
  authority : w'.caches.authority = w.caches.authority
  content : w'.caches.content = w.caches.content
  nextId : w.nextId ≤ w'.nextId
  channel : ∀ m ∈ w.channel, m ∈ w'.channel
  unreported : ∀ change ∈ w.unreported, change ∈ w'.unreported
  watched : w'.watched = w.watched

namespace World.Grows

variable {w w' w'' : World}

theorem refl (w : World) : w.Grows w := ⟨rfl, rfl, Nat.le_refl _, fun _ m => m, fun _ m => m, rfl⟩

theorem trans (first : w.Grows w') (second : w'.Grows w'') : w.Grows w'' where
  authority := second.authority.trans first.authority
  content := second.content.trans first.content
  nextId := Nat.le_trans first.nextId second.nextId
  channel m member := second.channel m (first.channel m member)
  unreported change member := second.unreported change (first.unreported change member)
  watched := second.watched.trans first.watched

theorem owes (grows : w.Grows w') {path : String} (owes : w.Owes path) : w'.Owes path := by
  rcases owes with ⟨event, sent, evicts⟩ | ⟨change, seen, event, made, evicts⟩
  · exact .inl ⟨event, grows.channel _ sent, evicts⟩
  · right
    refine ⟨change, grows.unreported _ seen, event, ?_, evicts⟩
    rw [grows.watched]
    exact made

theorem setFetch (w : World) (id : Nat) (fetch : Option Fetch) : w.Grows (w.setFetch id fetch) :=
  ⟨rfl, rfl, Nat.le_refl _, fun _ m => m, fun _ m => m, rfl⟩

theorem readdir (w : World) (dir : String) (blocking : Bool) : w.Grows (w.readdir dir blocking) :=
  ⟨rfl, rfl, Nat.le_succ _, fun _ m => m, fun _ m => m, rfl⟩

theorem listing (w : World) (dir : String) : w.Grows (w.listing dir) := by
  unfold World.listing
  split
  · exact refl w
  · exact readdir w dir true

theorem install (w : World) (dir : String) (entries : List String) :
    w.Grows (w.install dir entries) :=
  ⟨rfl, rfl, Nat.le_refl _, fun _ m => m, fun _ m => m, rfl⟩

theorem finish (w : World) (id : Nat) : w.Grows (w.finish id) := by
  unfold World.finish
  split
  · rename_i dir epoch blocking entries found
    have removed := setFetch w id none
    cases entries with
    | none => exact removed
    | some entries =>
        simp only
        split
        · split
          · exact removed.trans (install _ dir entries)
          · exact removed
        · split
          · exact removed.trans (readdir _ dir true)
          · exact removed
  · exact refl w

theorem begin (w : World) (id : Nat) : w.Grows (w.begin id) := by
  unfold World.begin
  split
  · split
    · exact setFetch w id _
    · exact refl w
  · exact refl w

theorem answer (w : World) (id : Nat) (seen : List String) (ok : Bool) :
    w.Grows (w.answer id seen ok) := by
  unfold World.answer
  split
  · split
    · exact ⟨rfl, rfl, Nat.le_refl _, fun _ => List.mem_append_left _, fun _ m => m, rfl⟩
    · exact refl w
  · exact refl w

theorem change (w : World) (names : String → List String) (paths : List (ChangeKind × FsPath)) :
    w.Grows (w.change names paths) :=
  ⟨rfl, rfl, Nat.le_refl _, fun _ m => m, fun _ => List.mem_append_left _, rfl⟩

theorem overflow (w : World) : w.Grows (w.step .overflow) :=
  ⟨rfl, rfl, Nat.le_refl _, fun _ => List.mem_append_left _, fun _ m => m, rfl⟩

theorem rewarms (w : World) (dirs : List String) :
    w.Grows (dirs.foldl World.listingRewarmAsync w) := by
  induction dirs generalizing w with
  | nil => exact refl w
  | cons dir dirs ih => exact (readdir w dir false).trans (ih _)

/-- A reply is taken from the channel. -/
theorem deliver_reply {id : Nat} {rest : List Msg} (first : w.channel = .reply id :: rest) :
    World.Grows { w with channel := rest } w.deliver := by
  unfold World.deliver
  rw [first]
  simp only
  split
  · split
    · exact setFetch _ id _
    · exact refl _
  · exact refl _

/-- An event is taken from the channel. -/
theorem deliver_event {event : FsEvent} {rest : List Msg} (first : w.channel = .event event :: rest) :
    World.Grows { w with
      caches := (handleEvent w.caches event).caches
      channel := rest } w.deliver := by
  unfold World.deliver
  rw [first]
  exact rewarms _ _

end World.Grows

section Entries

variable {w w' : Stock} {path bytes : String}

theorem cached_iff : w.cached path = some bytes ↔
    w.world.caches.content.revisions (w.key path) ≠ none ∧
      w.world.caches.content.bytes (w.key path) = some bytes := by
  unfold Stock.cached
  by_cases revised : (w.world.caches.content.revisions (w.key path)).isSome = true
  · rw [if_pos revised]
    have some_revision := Option.isSome_iff_ne_none.mp revised
    simp [some_revision]
  · rw [if_neg revised]
    have no_revision := Option.not_isSome_iff_eq_none.mp revised
    simp [no_revision]

/-- What is left of an entry was there before. -/
theorem cached_of_retained (authority : w'.world.caches.authority = w.world.caches.authority)
    (retained : w'.world.caches.content.bytes (w'.key path) = none ∨
      (w'.world.caches.content.bytes (w'.key path) = w.world.caches.content.bytes (w'.key path) ∧
        w'.world.caches.content.revisions (w'.key path) =
          w.world.caches.content.revisions (w'.key path)))
    (found : w'.cached path = some bytes) : w.cached path = some bytes := by
  obtain ⟨revised, there⟩ := cached_iff.mp found
  have same : w'.key path = w.key path := by
    unfold Stock.key
    rw [authority]
  rcases retained with gone | ⟨kept, revision⟩
  · rw [gone] at there
    cases there
  · rw [revision, same] at revised
    rw [kept, same] at there
    exact cached_iff.mpr ⟨revised, there⟩

theorem cached_congr (authority : w'.world.caches.authority = w.world.caches.authority)
    (content : w'.world.caches.content = w.world.caches.content)
    (found : w'.cached path = some bytes) : w.cached path = some bytes := by
  apply cached_of_retained authority _ found
  rw [content]
  exact .inr ⟨rfl, rfl⟩

theorem cached_put_self {snapshot : Snapshot}
    (found : (w.put path snapshot).cached path = some bytes) : bytes = snapshot.1 := by
  have there : (w.world.caches.content.put w.caps (w.key path) snapshot.1 snapshot.2).bytes
      (w.key path) = some bytes := (cached_iff.mp found).2
  rcases w.world.caches.content.put_bytes_self w.caps (w.key path) snapshot.1 snapshot.2 with
    gone | kept
  · rw [gone] at there
    cases there
  · rw [kept] at there
    exact (Option.some.inj there).symm

/-- Elsewhere, entries are as they were, or gone. -/
theorem cached_put_other {other : Key} {snapshot : Snapshot} (ne : w.key path ≠ other)
    (found : (w.setContent (w.world.caches.content.put w.caps other snapshot.1 snapshot.2)).cached
      path = some bytes) : w.cached path = some bytes := by
  have authority : (w.setContent (w.world.caches.content.put w.caps other snapshot.1
      snapshot.2)).world.caches.authority = w.world.caches.authority := rfl
  have retained := w.world.caches.content.retains_put w.caps other snapshot.1 snapshot.2
    (w.key path)
  have before : (w.world.caches.content.insert other snapshot.1 snapshot.2).bytes (w.key path) =
      w.world.caches.content.bytes (w.key path) := if_neg ne
  have revision : (w.world.caches.content.insert other snapshot.1 snapshot.2).revisions (w.key path) =
      w.world.caches.content.revisions (w.key path) := if_neg ne
  rw [before, revision] at retained
  exact cached_of_retained authority retained found

end Entries

/-- An entry of the cache holds what its file does, unless it is about to be dropped or replaced. -/
structure Backed (w : Stock) : Prop where
  numbered : ∀ id errand, w.errands id = some errand → id < w.world.nextId
  entries : ∀ path bytes, w.cached path = some bytes → bytes = w.current path ∨ w.Awaited path

section Backing

variable {w w' : Stock}

theorem Stock.Saving.of_errands (errands : w'.errands = w.errands) {path : String}
    (saving : w.Saving path) : w'.Saving path := by
  unfold Stock.Saving Stock.Saves
  rw [errands]
  exact saving

/-- What is on the way for an outdated entry still is. -/
def Undropped (w w' : Stock) : Prop :=
  ∀ path bytes, w.cached path = some bytes → bytes ≠ w.current path → w.Awaited path →
    w'.Awaited path

/-- Entries only go, the files are as they were, and nothing that is on the way is lost. -/
theorem Backed.of_undropped (backed : Backed w)
    (numbered : ∀ id errand, w'.errands id = some errand → id < w'.world.nextId)
    (entries : ∀ path bytes, w'.cached path = some bytes → w.cached path = some bytes)
    (contents : w'.contents = w.contents) (undropped : Undropped w w') : Backed w' where
  numbered := numbered
  entries path bytes found := by
    have earlier := entries path bytes found
    have still : w'.current path = w.current path := by
      unfold Stock.current
      rw [contents]
    rw [still]
    by_cases same : bytes = w.current path
    · exact .inl same
    · right
      apply undropped path bytes earlier same
      exact (backed.entries path bytes earlier).resolve_left same

theorem Backed.grow (backed : Backed w) (grows : w.world.Grows w'.world)
    (errands : w'.errands = w.errands) (contents : w'.contents = w.contents) : Backed w' := by
  apply backed.of_undropped
  · intro id errand found
    rw [errands] at found
    exact Nat.lt_of_lt_of_le (backed.numbered id errand found) grows.nextId
  · exact fun path bytes => cached_congr grows.authority grows.content
  · exact contents
  · intro path bytes _ _ awaited
    rcases awaited with owes | saving
    · exact .inl (grows.owes owes)
    · exact .inr (saving.of_errands errands)

/-- A request has come further. -/
theorem Backed.setProgress (backed : Backed w) {id : Nat} {errand : Errand}
    (found : w.errands id = some errand) {progress : Progress} (further : progress ≠ .asked) :
    Backed (w.setErrand id (some { errand with progress := progress })) := by
  apply backed.of_undropped
  · intro other later kept
    by_cases same : other = id
    · rw [same]
      exact backed.numbered id errand found
    · rw [Stock.setErrand_errands, if_neg same] at kept
      exact backed.numbered other later kept
  · exact fun _ _ there => there
  · rfl
  · intro path bytes _ _ awaited
    rcases awaited with owes | ⟨other, saved, text, kept, place, blocking, intent, executed⟩
    · exact .inl owes
    · right
      by_cases same : other = id
      · rw [same, found] at kept
        cases kept
        exact ⟨id, _, text, if_pos rfl, place, blocking, intent, further⟩
      · exact ⟨other, saved, text, (if_neg same).trans kept, place, blocking, intent, executed⟩

theorem Backed.ask (backed : Backed w) (path : String) (intent : Intent) (blocking : Bool) :
    Backed (w.ask path intent blocking) := by
  apply backed.of_undropped
  · intro other later kept
    show other < w.world.nextId + 1
    by_cases same : other = w.world.nextId
    · omega
    · have earlier := backed.numbered other later ((if_neg same).symm.trans kept)
      omega
  · exact fun _ _ there => there
  · rfl
  · intro place bytes _ _ awaited
    rcases awaited with owes | ⟨other, saved, text, kept, rest⟩
    · exact .inl owes
    · right
      have earlier := backed.numbered other saved kept
      have differs : other ≠ w.world.nextId := by omega
      exact ⟨other, saved, text, (if_neg differs).trans kept, rest⟩

/-- Entries only go. -/
theorem Backed.setContent (backed : Backed w) {content : ContentCache}
    (entries : ∀ path bytes, (w.setContent content).cached path = some bytes →
      w.cached path = some bytes) : Backed (w.setContent content) := by
  apply backed.of_undropped
  · exact backed.numbered
  · exact entries
  · rfl
  · exact fun _ _ _ _ awaited => awaited

theorem Backed.touch (backed : Backed w) (path : String) : Backed (w.touch path) := by
  apply backed.setContent
  intro other bytes found
  have same : (w.world.caches.content.touch (w.key path)).revisions =
      w.world.caches.content.revisions := by
    unfold ContentCache.touch
    split <;> rfl
  have authority : (w.touch path).world.caches.authority = w.world.caches.authority := rfl
  apply cached_of_retained authority _ found
  right
  exact ⟨congrFun (ContentCache.touch_bytes _) _, congrFun same _⟩

theorem Backed.warm (backed : Backed w) (eligible : String → Bool) (dir : String) :
    Backed (w.contentPrefetchWarm eligible dir) := by
  have files : ∀ names : List String, Backed (names.foldl (Stock.warmFile dir) w) := by
    intro names
    induction names generalizing w with
    | nil => exact backed
    | cons name names ih =>
        apply ih
        unfold Stock.warmFile
        simp only
        split
        · exact backed.touch _
        · exact backed.ask _ .warm false
  exact files _

/-- Bytes are put in the cache that the file has, or that are about to be dropped. -/
theorem Backed.put (numbered : ∀ id errand, w.errands id = some errand → id < w.world.nextId)
    {path : String} {snapshot : Snapshot}
    (stored : snapshot.1 = w.current path ∨ w.Awaited path)
    (others : ∀ other bytes, other ≠ path → w.cached other = some bytes →
      bytes = w.current other ∨ w.Awaited other) : Backed (w.put path snapshot) where
  numbered := numbered
  entries other bytes found := by
    by_cases same : other = path
    · subst same
      rw [cached_put_self found]
      exact stored
    · have differs : w.key other ≠ w.key path := fun keys => same (congrArg Prod.snd keys)
      exact others other bytes same (cached_put_other differs found)

/-- A request is done with. Only its own save may have been waited for. -/
theorem numbered_setErrand_none (backed : Backed w) (id : Nat) :
    ∀ other errand, (w.setErrand id none).errands other = some errand →
      other < (w.setErrand id none).world.nextId := by
  intro other errand found
  by_cases same : other = id
  · rw [Stock.setErrand_errands, if_pos same] at found
    cases found
  · rw [Stock.setErrand_errands, if_neg same] at found
    exact backed.numbered other errand found

theorem awaited_setErrand_none {id : Nat} {errand : Errand} (found : w.errands id = some errand)
    {path : String} (ne : path ≠ errand.path) (awaited : w.Awaited path) :
    (w.setErrand id none).Awaited path := by
  rcases awaited with owes | ⟨other, saved, text, kept, place, rest⟩
  · exact .inl owes
  · right
    have differs : other ≠ id := by
      intro same
      rw [same, found] at kept
      cases kept
      exact ne place.symm
    exact ⟨other, saved, text, (if_neg differs).trans kept, place, rest⟩

/-- A request is waited for no longer that no outdated entry is left to. -/
theorem Backed.setErrand_none (backed : Backed w) {id : Nat} (unneeded : w.Unneeded id) :
    Backed (w.setErrand id none) := by
  apply backed.of_undropped
  · exact numbered_setErrand_none backed id
  · exact fun _ _ there => there
  · rfl
  · intro path bytes there outdated awaited
    have removed : ∀ other, other ≠ id → w.Saves other path →
        (w.setErrand id none).Saves other path := by
      rintro other differs ⟨errand, text, kept, rest⟩
      exact ⟨errand, text, (if_neg differs).trans kept, rest⟩
    rcases awaited with owes | ⟨other, saves⟩
    · exact .inl owes
    · by_cases same : other = id
      · rw [same] at saves
        rcases unneeded path bytes saves there with holds | ⟨another, differs, waits⟩
        · exact .inl (holds.resolve_left outdated)
        · exact .inr ⟨another, removed another differs waits⟩
      · exact .inr ⟨other, removed other same saves⟩

/-- A look is no save. -/
theorem unneeded_of_inspect {id : Nat} {errand : Errand} (found : w.errands id = some errand)
    (look : errand.intent = .inspect) : w.Unneeded id := by
  rintro path bytes ⟨saved, text, kept, _, _, intent, _⟩
  rw [found] at kept
  cases kept
  rw [look] at intent
  cases intent

/-- What is put in the cache is what the server told, and where nothing is, no outdated entry was
left to the request. -/
theorem stored_heeded {id : Nat} {use : Stock.Remote} {errand : Errand} {reply : Option Snapshot}
    (heeded : Heeded w (.finish id use)) (found : w.errands id = some errand)
    (waits : errand.progress = .queued reply) :
    (∀ snapshot, Stock.stored errand.intent reply use = some snapshot →
      w.Holds errand.path snapshot.1) ∧
    (Stock.stored errand.intent reply use = none → w.Unneeded id) := by
  have condition := heeded errand reply found waits
  cases intent : errand.intent with
  | warm =>
      rw [intent] at condition
      cases reply with
      | none => exact ⟨nofun, fun _ => condition⟩
      | some snapshot =>
          refine ⟨fun other stores => ?_, nofun⟩
          cases stores
          exact condition
  | inspect =>
      rw [intent] at condition
      refine ⟨fun other stores => ?_, fun _ => unneeded_of_inspect found intent⟩
      cases reply with
      | none => cases stores
      | some snapshot =>
          simp only [Stock.stored] at stores
          split at stores
          · rename_i install
            cases stores
            exact condition install
          · cases stores
  | save bytes =>
      rw [intent] at condition
      cases reply with
      | none => exact ⟨nofun, fun _ => condition⟩
      | some snapshot =>
          refine ⟨fun other stores => ?_, nofun⟩
          cases stores
          exact condition

theorem Backed.finish (backed : Backed w) (id : Nat) (use : Stock.Remote)
    (heeded : Heeded w (.finish id use)) : Backed (w.finish id use) := by
  cases found : w.errands id with
  | none =>
      unfold Stock.finish
      rw [found]
      exact backed
  | some errand =>
      by_cases queued : ∃ reply, errand.progress = .queued reply
      · obtain ⟨reply, waits⟩ := queued
        have told := stored_heeded heeded found waits
        cases stores : Stock.stored errand.intent reply use with
        | some snapshot =>
            have finished : w.finish id use = (w.setErrand id none).put errand.path snapshot := by
              simp only [Stock.finish, found, waits, stores]
            rw [finished]
            apply Backed.put (numbered_setErrand_none backed id)
            · exact (told.1 snapshot stores).imp_right .inl
            · intro other bytes ne there
              have before := backed.entries other bytes there
              exact before.imp_right (awaited_setErrand_none found ne)
        | none =>
            have finished : ∃ remotes looks, w.finish id use =
                { w.setErrand id none with remotes := remotes, looks := looks } := by
              simp only [Stock.finish, found, waits, stores]
              split
              · exact ⟨_, _, rfl⟩
              · exact ⟨_, _, rfl⟩
            obtain ⟨remotes, looks, same⟩ := finished
            rw [same]
            apply (backed.setErrand_none (told.2 stores)).grow
            · exact World.Grows.refl _
            · rfl
            · rfl
      · have finished : w.finish id use = w := by
          simp only [Stock.finish, found]
          cases progress : errand.progress with
          | queued reply => exact absurd ⟨reply, progress⟩ queued
          | _ => rfl
        rw [finished]
        exact backed

/-- REMOTE is what the server told when it was asked for. -/
def Looked (w : Stock) : Prop :=
  ∀ path remote, w.remotes path = some remote → w.looks path = some remote.1

theorem Looked.of_same (looked : Looked w) (remotes : w'.remotes = w.remotes)
    (looks : w'.looks = w.looks) : Looked w' := by
  intro path remote kept
  rw [remotes] at kept
  rw [looks]
  exact looked path remote kept

theorem Looked.finish (looked : Looked w) (id : Nat) (use : Stock.Remote) :
    Looked (w.finish id use) := by
  unfold Stock.finish
  split
  · rename_i errand _
    split
    · rename_i reply _
      split
      · exact looked.of_same rfl rfl
      · simp only
        split
        · intro path remote kept
          by_cases same : path = errand.path
          · have here : reply.getD ("", some "missing") = remote :=
              Option.some.inj ((if_pos same).symm.trans kept)
            refine (if_pos same).trans (congrArg some ?_)
            rw [← here]
            cases reply <;> rfl
          · exact (if_neg same).trans (looked path remote ((if_neg same).symm.trans kept))
        · exact looked.of_same rfl rfl
    · exact looked
  · exact looked

theorem Looked.adoptRemote (looked : Looked w) (path : String) : Looked (w.adoptRemote path) := by
  unfold Stock.adoptRemote
  split
  · intro other remote kept
    by_cases same : other = path
    · exact absurd ((if_pos same).symm.trans kept) nofun
    · exact looked other remote ((if_neg same).symm.trans kept)
  · exact looked

theorem Looked.deliver (looked : Looked w) : Looked w.deliver := by
  unfold Stock.deliver Stock.arrive
  simp only
  split
  · split
    · split
      · exact looked.of_same rfl rfl
      · exact looked.of_same rfl rfl
    · exact looked.of_same rfl rfl
  · exact looked.of_same rfl rfl

theorem Looked.step (looked : Looked w) (move : Move) : Looked (w.step move) := by
  cases move with
  | finish id use => exact looked.finish id use
  | adoptRemote path => exact looked.adoptRemote path
  | warm eligible dir =>
      have files : ∀ names : List String, Looked (names.foldl (Stock.warmFile dir) w) := by
        intro names
        induction names generalizing w with
        | nil => exact looked
        | cons name names ih =>
            apply ih
            unfold Stock.warmFile
            simp only
            split
            · exact looked.of_same rfl rfl
            · exact looked.of_same rfl rfl
      exact files _
  | giveUp id =>
      show Looked (w.giveUp id)
      unfold Stock.giveUp
      split
      · exact looked
      · exact looked.of_same rfl rfl
  | begin id =>
      show Looked (w.begin id)
      unfold Stock.begin
      split
      · split
        · exact looked
        · exact looked.of_same rfl rfl
        · exact looked
      · exact looked
  | publish id contents names paths =>
      show Looked (w.publish id contents names paths)
      unfold Stock.publish
      split
      · split
        · exact looked.of_same rfl rfl
        · exact looked
      · exact looked
  | answer id seen revision ok =>
      show Looked (w.answer id seen revision ok)
      unfold Stock.answer
      split
      · split
        · exact looked.of_same rfl rfl
        · exact looked
      · exact looked
  | deliver => exact looked.deliver
  | rmWatch descriptor =>
      show Looked (w.rmWatch descriptor)
      unfold Stock.rmWatch
      simp only
      split
      · split
        · exact looked.of_same rfl rfl
        · exact looked.of_same rfl rfl
      · exact looked.of_same rfl rfl
  | execUnwatch index entry =>
      show Looked (w.execUnwatch index entry)
      unfold Stock.execUnwatch
      split
      · exact looked.of_same rfl rfl
      · exact looked
  | putElsewhere other snapshot =>
      show Looked (w.putElsewhere other snapshot)
      unfold Stock.putElsewhere
      split
      · exact looked
      · exact looked.of_same rfl rfl
  | _ => exact looked.of_same rfl rfl

theorem Backed.adoptRemote (backed : Backed w) (looked : Looked w) (path : String)
    (heeded : Heeded w (.adoptRemote path)) : Backed (w.adoptRemote path) := by
  unfold Stock.adoptRemote
  cases kept : w.remotes path with
  | none => exact backed
  | some remote =>
      have told : w.Holds path remote.1 := heeded remote.1 (looked path remote kept)
      apply Backed.put
      · exact backed.numbered
      · exact told.imp_right .inl
      · exact fun other bytes _ there => backed.entries other bytes there

theorem Backed.giveUp (backed : Backed w) (id : Nat) (heeded : Heeded w (.giveUp id)) :
    Backed (w.giveUp id) := by
  unfold Stock.giveUp
  split
  · exact backed
  · exact backed.setErrand_none heeded

theorem Backed.begin (backed : Backed w) (id : Nat) : Backed (w.begin id) := by
  unfold Stock.begin
  cases found : w.errands id with
  | none => exact backed
  | some errand =>
      simp only
      split
      · exact backed
      · exact backed.setProgress found nofun
      · exact backed

theorem Backed.answer (backed : Backed w) (id : Nat) (seen : String) (revision : Option String)
    (ok : Bool) : Backed (w.answer id seen revision ok) := by
  unfold Stock.answer
  cases found : w.errands id with
  | none => exact backed
  | some errand =>
      simp only
      split
      · apply (backed.setProgress found _).grow
        · exact ⟨rfl, rfl, Nat.le_refl _, fun _ => List.mem_append_left _, fun _ same => same, rfl⟩
        · rfl
        · rfl
        · exact nofun
      · exact backed

theorem Backed.arrive (backed : Backed w) (id : Nat) : Backed (w.arrive id) := by
  unfold Stock.arrive
  cases found : w.errands id with
  | none => exact backed
  | some errand =>
      simp only
      split
      · exact backed.setProgress found nofun
      · exact backed

/-- An announced change is noticed, and an event comes of it that drops the entry. -/
theorem owes_of_announced {contents : String → Option String} {names : String → List String}
    {paths : List (ChangeKind × FsPath)} (noticing : Noticing w contents paths) {path : String}
    (differs : contents path ≠ w.contents path) (announced : Announced w path) :
    (w.world.change names paths).Owes path := by
  obtain ⟨canon, dir, member, name, component, same, shown⟩ := announced
  rw [same] at differs
  obtain ⟨change, listed, noticed⟩ := noticing canon dir member name component differs
  right
  refine ⟨change, List.mem_append_right _ listed, ?_⟩
  have itself : ∀ asked ∈ w.world.watched.aliases change.2.render, Within asked path →
      ∃ event ∈ pathEvents w.world.watched change.1 change.2, evictsContent path event = true := by
    intro asked own within
    refine ⟨.selfChanged asked, ?_, (nested_iff asked path).mpr within⟩
    cases entry : w.world.watched change.2.render with
    | none => simp [WatchTable.aliases, entry] at own
    | some aliases =>
        rw [pathEvents_watched entry]
        exact List.mem_map_of_mem (by simpa [WatchTable.aliases, entry] using own)
  rcases noticed with directory | ⟨parent, named⟩
  · apply itself dir
    · rw [directory]
      exact member
    · exact .inr ⟨name, same⟩
  · rcases shown change.2 parent named with unwatched | ⟨asked, own, within⟩
    · obtain ⟨q, found, place⟩ := Option.map_eq_some_iff.mp parent
      have made : .changed change.1 dir (change.2.fileName.getD "") ∈
          pathEvents w.world.watched change.1 change.2 :=
        mem_pathEvents_changed unwatched found (place ▸ member)
      rw [named] at made
      refine ⟨_, made, ?_⟩
      rw [same]
      exact nested_self _
    · exact itself asked own within

theorem saving_change {contents : String → Option String} {names : String → List String}
    {paths : List (ChangeKind × FsPath)} {path : String} (saving : w.Saving path) :
    (w.change contents names paths).Saving path := by
  obtain ⟨id, errand, text, found, place, blocking, intent, executed⟩ := saving
  have moved : ∃ progress, (w.change contents names paths).errands id =
      some { errand with progress := progress } ∧ progress ≠ .asked := by
    simp only [Stock.change, found, Option.map_some]
    split
    · exact ⟨_, rfl, nofun⟩
    · exact ⟨errand.progress, rfl, executed⟩
  obtain ⟨progress, there, further⟩ := moved
  exact ⟨id, _, text, there, place, blocking, intent, further⟩

theorem awaited_change {contents : String → Option String} {names : String → List String}
    {paths : List (ChangeKind × FsPath)} {path : String} (awaited : w.Awaited path) :
    (w.change contents names paths).Awaited path := by
  rcases awaited with owes | saving
  · exact .inl ((World.Grows.change w.world names paths).owes owes)
  · exact .inr (saving_change saving)

/-- Every cached file that changes is about to be dropped or replaced. -/
theorem Backed.change (backed : Backed w) (contents : String → Option String)
    (names : String → List String) (paths : List (ChangeKind × FsPath)) {w' : Stock}
    (cached : ∀ path bytes, w'.cached path = some bytes → w.cached path = some bytes)
    (numbered : ∀ id errand, w'.errands id = some errand → id < w'.world.nextId)
    (same : w'.contents = contents)
    (still : ∀ path, (w.change contents names paths).Awaited path → w'.Awaited path)
    (covered : ∀ path bytes, w.cached path = some bytes → contents path ≠ w.contents path →
      w'.Awaited path) : Backed w' where
  numbered := numbered
  entries path bytes found := by
    have earlier := cached path bytes found
    by_cases differs : contents path = w.contents path
    · have held : w'.current path = w.current path := by
        unfold Stock.current
        rw [same, differs]
      rw [held]
      exact (backed.entries path bytes earlier).imp_right fun awaited =>
        still path (awaited_change awaited)
    · exact .inr (covered path bytes earlier differs)

theorem numbered_change (backed : Backed w) (contents : String → Option String)
    (names : String → List String) (paths : List (ChangeKind × FsPath)) :
    ∀ id errand, (w.change contents names paths).errands id = some errand →
      id < (w.change contents names paths).world.nextId := by
  intro id errand found
  obtain ⟨before, there, _⟩ := Option.map_eq_some_iff.mp found
  exact backed.numbered id before there

theorem Backed.publish (backed : Backed w) {id : Nat} {contents : String → Option String}
    {names : String → List String} {paths : List (ChangeKind × FsPath)}
    (noticing : Noticing w contents paths) (heeded : Heeded w (.publish id contents names paths)) :
    Backed (w.publish id contents names paths) := by
  unfold Stock.publish
  split
  · rename_i path text blocking found
    split
    · have asked : (w.change contents names paths).errands id =
          some ⟨path, .save text, blocking, .asked⟩ := by
        show (w.errands id).map _ = _
        rw [found]
        rfl
      have still : ∀ other, (w.change contents names paths).Awaited other →
          ((w.change contents names paths).setErrand id
            (some ⟨path, .save text, blocking, .executed false⟩)).Awaited other := by
        intro other awaited
        rcases awaited with owes | ⟨later, saved, bytes, kept, place, blocks, intent, executed⟩
        · exact .inl owes
        · right
          by_cases same : later = id
          · rw [same, asked] at kept
            cases kept
            exact absurd rfl executed
          · exact ⟨later, saved, bytes, (if_neg same).trans kept, place, blocks, intent, executed⟩
      apply backed.change contents names paths
      · exact fun _ _ there => there
      · intro other errand kept
        by_cases same : other = id
        · rw [same]
          exact backed.numbered id _ found
        · exact numbered_change backed contents names paths other errand ((if_neg same).symm.trans kept)
      · rfl
      · exact still
      · intro other bytes there differs
        rcases heeded other bytes there differs with ⟨errand, own, place, blocks⟩ | announced | awaited
        · right
          rw [found] at own
          cases own
          exact ⟨id, _, text, if_pos rfl, place, blocks, rfl, nofun⟩
        · exact still other (.inl (owes_of_announced noticing differs announced))
        · exact still other (awaited_change awaited)
    · exact backed
  · exact backed

/-- The filter takes a message; an event that drops an entry may be the last on the way. -/
theorem Backed.deliver (backed : Backed w) : Backed w.deliver := by
  unfold Stock.deliver
  cases first : w.world.channel with
  | nil =>
      have same : w.world.deliver = w.world := by
        unfold World.deliver
        rw [first]
      simp only [same]
      exact backed
  | cons message rest =>
      cases message with
      | reply id =>
          have taken : Backed { w with world := { w.world with channel := rest } } := by
            apply backed.of_undropped
            · exact backed.numbered
            · exact fun _ _ there => there
            · rfl
            · intro path bytes _ _ awaited
              rcases awaited with (⟨event, sent, evicts⟩ | due) | saving
              · rw [first, List.mem_cons] at sent
                rcases sent with this | later
                · cases this
                · exact .inl (.inl ⟨event, later, evicts⟩)
              · exact .inl (.inr due)
              · exact .inr saving
          have grown : Backed { w with world := w.world.deliver } := by
            apply taken.grow
            · exact World.Grows.deliver_reply first
            · rfl
            · rfl
          exact grown.arrive id
      | event event =>
          have handled : Backed { w with world := { w.world with
              caches := (handleEvent w.world.caches event).caches
              channel := rest } } := by
            have authority := handleEvent_authority w.world.caches event
            constructor
            · exact backed.numbered
            · intro path bytes found
              have earlier : w.cached path = some bytes := by
                apply cached_of_retained authority _ found
                exact retains_handleEvent w.world.caches event _
              apply (backed.entries path bytes earlier).imp_right
              intro awaited
              rcases awaited with (⟨other, sent, evicts⟩ | due) | saving
              · rw [first, List.mem_cons] at sent
                rcases sent with this | later
                · cases this
                  -- The event that drops the entry has been taken, but the entry is there.
                  have dropped := handleEvent_content w.world.caches event path
                  rw [if_pos evicts, ← authority] at dropped
                  have there := (cached_iff.mp found).2
                  exact absurd (there.symm.trans dropped) (Option.some_ne_none bytes)
                · exact .inl (.inl ⟨other, later, evicts⟩)
              · exact .inl (.inr due)
              · exact .inr saving
          apply handled.grow
          · exact World.Grows.deliver_event first
          · rfl
          · rfl

theorem Backed.reconnect (backed : Backed w) (heeded : Heeded w .reconnect) :
    Backed w.reconnect := by
  apply backed.of_undropped
  · intro id errand found
    exact backed.numbered id errand (Option.eq_some_of_filter_eq_some found)
  · exact fun path bytes => cached_congr rfl rfl
  · rfl
  · intro path bytes there outdated awaited
    exact absurd (heeded path bytes there awaited) outdated

/-- The changes that are spared by a new table of watches drop what they did. -/
theorem Stock.Spared.undropped {spared : FsPath → FsEvent → String → Prop} (kept : w.Spared spared)
    (errands : w'.errands = w.errands) (channel : w'.world.channel = w.world.channel)
    (unreported : w'.world.unreported = w.world.unreported)
    (still : ∀ kind p event path, event ∈ pathEvents w.world.watched kind p →
      evictsContent path event = true → spared p event path →
        ∃ event ∈ pathEvents w'.world.watched kind p, evictsContent path event = true) :
    Undropped w w' := by
  intro path bytes there outdated awaited
  rcases kept path bytes there outdated awaited with saving | sent | noticed
  · exact .inr (saving.of_errands errands)
  · left
    left
    rw [channel]
    exact sent
  · obtain ⟨change, listed, event, made, evicts, allowed⟩ := noticed
    left
    right
    rw [unreported]
    exact ⟨change, listed, still change.1 change.2 event path made evicts allowed⟩

theorem Backed.rmWatch (backed : Backed w) (descriptor : Nat) : Backed (w.rmWatch descriptor) := by
  have kept : ∀ w' : Stock, w'.world = w.world → w'.errands = w.errands →
      w'.contents = w.contents → Backed w' := by
    intro w' world errands contents
    apply backed.grow
    · rw [world]
      exact World.Grows.refl _
    · exact errands
    · exact contents
  unfold Stock.rmWatch
  simp only
  split
  · split
    · exact kept _ rfl rfl rfl
    · exact kept _ rfl rfl rfl
  · exact kept _ rfl rfl rfl

/-- Only what is noticed of one directory and of its entries depends on its entry in the table. -/
theorem pathEvents_elsewhere {watched watched' : WatchTable} {canon : String}
    (others : ∀ key, key ≠ canon → watched' key = watched key) (kind : ChangeKind) {p : FsPath}
    (outside : ¬ OfDirectory canon p) : pathEvents watched' kind p = pathEvents watched kind p := by
  have itself : watched' p.render = watched p.render :=
    others _ fun same => outside (.inl same)
  have parent : watched' ((p.parent.map FsPath.render).getD "") =
      watched ((p.parent.map FsPath.render).getD "") :=
    others _ fun same => outside (.inr same)
  unfold pathEvents
  rw [itself]
  simp only [parent]

/-- An event is made as long as the name that it is sent under stays in the table. -/
theorem mem_pathEvents_kept {watched watched' : WatchTable} (stays : String → Prop)
    (unwatched : ∀ key, watched key = none → watched' key = none)
    (kept : ∀ key aliases asked, watched key = some aliases → asked ∈ aliases → stays asked →
      ∃ aliases', watched' key = some aliases' ∧ asked ∈ aliases')
    {kind : ChangeKind} {p : FsPath} {event : FsEvent} (made : event ∈ pathEvents watched kind p)
    (under : ∀ asked, eventDir event = some asked → stays asked) :
    event ∈ pathEvents watched' kind p := by
  unfold pathEvents at made ⊢
  cases itself : watched p.render with
  | some aliases =>
      rw [itself] at made
      obtain ⟨asked, member, rfl⟩ := List.mem_map.mp made
      obtain ⟨aliases', entry, still⟩ := kept _ _ asked itself member (under asked rfl)
      rw [entry]
      exact List.mem_map_of_mem still
  | none =>
      rw [itself] at made
      rw [unwatched _ itself]
      obtain ⟨asked, member, rfl⟩ := List.mem_map.mp made
      apply List.mem_map_of_mem
      cases parent : watched ((p.parent.map FsPath.render).getD "") with
      | some aliases =>
          rw [parent] at member
          obtain ⟨aliases', entry, still⟩ := kept _ _ asked parent member (under asked rfl)
          rw [entry]
          exact still
      | none =>
          rw [parent] at member
          rw [unwatched _ parent]
          exact member

theorem Backed.execUnwatch (backed : Backed w) (index : Nat) (entry : String)
    (heeded : Heeded w (.execUnwatch index entry)) : Backed (w.execUnwatch index entry) := by
  unfold Stock.execUnwatch
  split
  · rename_i dir found
    apply backed.of_undropped
    · exact backed.numbered
    · exact fun path bytes => cached_congr rfl rfl
    · rfl
    · apply (heeded dir found).undropped
      · rfl
      · rfl
      · rfl
      · intro kind p event path made evicts spared
        by_cases inside : OfDirectory entry p
        · refine ⟨event, ?_, evicts⟩
          apply mem_pathEvents_kept (· ≠ dir) _ _ made
          · intro asked sent same
            rw [same] at sent
            exact spared inside sent
          · intro key unwatched
            have empty : key = entry → w.world.watched.aliases entry = [] := by
              intro same
              simp [WatchTable.aliases, ← same, unwatched]
            simp only
            split
            · rename_i removed
              simp only [Bool.and_eq_true, decide_eq_true_eq] at removed
              rw [empty removed.1] at removed
              exact absurd removed.2 List.not_mem_nil
            · exact unwatched
          · intro key aliases asked watched member differs
            simp only
            split
            · rename_i removed
              simp only [Bool.and_eq_true, decide_eq_true_eq] at removed
              have all : w.world.watched.aliases entry = aliases := by
                simp [WatchTable.aliases, ← removed.1, watched]
              have left : asked ∈ (w.world.watched.aliases entry).erase dir := by
                rw [all]
                exact (List.mem_erase_of_ne differs).mpr member
              rw [if_neg (List.ne_nil_of_mem left)]
              exact ⟨_, rfl, left⟩
            · exact ⟨aliases, watched, member⟩
        · refine ⟨event, ?_, evicts⟩
          rw [pathEvents_elsewhere _ kind inside]
          · exact made
          · intro key differs
            simp [differs]
  · exact backed

/-- A watch of a directory that is watched already adds a name for it. -/
theorem undropped_watch_again {dir canon : String} {watcher : Watching} {aliases : List String}
    (entry : w.world.watched canon = some aliases) {watches : List String} :
    Undropped w { w with world := { w.world with
      watches := watches, watched := (watch w.world.watched dir canon watcher).1 } } := by
  have table : (watch w.world.watched dir canon watcher).1 = fun key =>
      if key = canon then some (if dir ∈ aliases then aliases else aliases ++ [dir])
      else w.world.watched key := by
    simp [watch, WatchTable.aliases, entry]
  intro path bytes _ _ awaited
  rcases awaited with (sent | ⟨change, listed, event, made, evicts⟩) | saving
  · exact .inl (.inl sent)
  · left
    right
    refine ⟨change, listed, event, ?_, evicts⟩
    show event ∈ pathEvents (watch w.world.watched dir canon watcher).1 change.1 change.2
    rw [table]
    apply mem_pathEvents_kept (fun _ => True) _ _ made
    · exact fun _ _ => trivial
    · intro key unwatched
      have differs : key ≠ canon := by
        intro same
        rw [same, entry] at unwatched
        cases unwatched
      simp [differs, unwatched]
    · intro key before asked watched member _
      by_cases same : key = canon
      · rw [same, entry] at watched
        cases watched
        refine ⟨_, if_pos same, ?_⟩
        split
        · exact member
        · exact List.mem_append_left _ member
      · exact ⟨before, (if_neg same).trans watched, member⟩
  · exact .inr saving

/-- A watch of another directory renames what is noticed of it and of its entries. -/
theorem undropped_watch_first {dir canon : String} {watcher : Watching}
    (entry : w.world.watched canon = none) {watches : List String}
    (kept : w.Spared fun p _ path => OfDirectory canon p → p.render = canon ∧ Within dir path) :
    Undropped w { w with world := { w.world with
      watches := watches, watched := (watch w.world.watched dir canon watcher).1 } } := by
  have nameless : w.world.watched.aliases canon = [] := by
    simp [WatchTable.aliases, entry]
  have others : ∀ key, key ≠ canon →
      (watch w.world.watched dir canon watcher).1 key = w.world.watched key := by
    intro key differs
    cases watcher <;> simp [watch, entry, differs]
  have own : (watch w.world.watched dir canon watcher).1 canon = some [dir] ∨
      (watch w.world.watched dir canon watcher).1 canon = w.world.watched canon := by
    cases watcher <;> simp [watch, entry, nameless]
  apply kept.undropped
  · rfl
  · rfl
  · rfl
  · intro kind p event path made evicts spared
    by_cases inside : OfDirectory canon p
    · obtain ⟨itself, within⟩ := spared inside
      rcases own with added | unchanged
      · refine ⟨.selfChanged dir, ?_, (nested_iff dir path).mpr within⟩
        show FsEvent.selfChanged dir ∈ pathEvents (watch w.world.watched dir canon watcher).1 kind p
        rw [pathEvents_watched ((congrArg _ itself).trans added)]
        exact List.mem_singleton_self _
      · have same : (watch w.world.watched dir canon watcher).1 = w.world.watched := by
          funext key
          by_cases here : key = canon
          · rw [here]
            exact unchanged
          · exact others key here
        refine ⟨event, ?_, evicts⟩
        show event ∈ pathEvents (watch w.world.watched dir canon watcher).1 kind p
        rw [same]
        exact made
    · refine ⟨event, ?_, evicts⟩
      show event ∈ pathEvents (watch w.world.watched dir canon watcher).1 kind p
      rw [pathEvents_elsewhere others kind inside]
      exact made

theorem Backed.execWatch (backed : Backed w) (index : Nat) (canon : String) (watcher : Watching)
    (heeded : Heeded w (.execWatch index canon watcher)) :
    Backed (w.around (.watch index canon watcher)) := by
  cases asked : w.world.watches[index]? with
  | none =>
      have same : w.world.execWatch index canon watcher = w.world := by
        unfold World.execWatch
        rw [asked]
      apply backed.grow
      · show w.world.Grows (w.world.execWatch index canon watcher)
        rw [same]
        exact World.Grows.refl _
      · rfl
      · rfl
  | some dir =>
      have executed : w.around (.watch index canon watcher) = { w with world := { w.world with
          watches := w.world.watches.eraseIdx index
          watched := (watch w.world.watched dir canon watcher).1 } } := by
        show { w with world := w.world.execWatch index canon watcher } = _
        unfold World.execWatch
        rw [asked]
      rw [executed]
      apply backed.of_undropped
      · exact backed.numbered
      · exact fun path bytes => cached_congr rfl rfl
      · rfl
      · cases entry : w.world.watched canon with
        | none => exact undropped_watch_first entry (heeded dir asked entry)
        | some aliases => exact undropped_watch_again entry

/-- What the watcher has noticed is sent. -/
theorem Backed.report (backed : Backed w) : Backed (w.around .report) := by
  cases noticed : w.world.unreported with
  | nil =>
      have same : w.world.report = w.world := by
        unfold World.report
        rw [noticed]
      apply backed.grow
      · show w.world.Grows w.world.report
        rw [same]
        exact World.Grows.refl _
      · rfl
      · rfl
  | cons change rest =>
      have reported : w.world.report = { w.world with
          unreported := rest
          channel := w.world.channel ++ (pathEvents w.world.watched change.1 change.2).map .event } := by
        unfold World.report
        rw [noticed]
      have owes : ∀ path, w.world.Owes path → w.world.report.Owes path := by
        intro path owes
        rw [reported]
        rcases owes with ⟨event, sent, evicts⟩ | ⟨due, seen, event, made, evicts⟩
        · exact .inl ⟨event, List.mem_append_left _ sent, evicts⟩
        · rw [noticed, List.mem_cons] at seen
          rcases seen with this | later
          · left
            rw [this] at made
            exact ⟨event, List.mem_append_right _ (List.mem_map_of_mem made), evicts⟩
          · exact .inr ⟨due, later, event, made, evicts⟩
      apply backed.of_undropped
      · intro id errand found
        show id < w.world.report.nextId
        rw [reported]
        exact backed.numbered id errand found
      · intro path bytes
        apply cached_congr
        · show w.world.report.caches.authority = _
          rw [reported]
        · show w.world.report.caches.content = _
          rw [reported]
      · rfl
      · intro path bytes _ _ awaited
        rcases awaited with due | saving
        · exact .inl (owes path due)
        · exact .inr saving

theorem Backed.putElsewhere (backed : Backed w) (other : Key) (snapshot : Snapshot) :
    Backed (w.putElsewhere other snapshot) := by
  unfold Stock.putElsewhere
  split
  · exact backed
  · rename_i elsewhere
    apply backed.setContent
    intro path bytes
    apply cached_put_other
    intro same
    exact elsewhere (congrArg Prod.fst same).symm

theorem Backed.step (backed : Backed w) (looked : Looked w) (move : Move)
    (watchful : Watchful w move) (heeded : Heeded w move) : Backed (w.step move) := by
  have around : ∀ happening, w.world.Grows (w.world.step happening) →
      Backed (w.around happening) := fun happening grows => backed.grow grows rfl rfl
  cases move with
  | visit path => exact backed.touch path
  | warm eligible dir => exact backed.warm eligible dir
  | inspect path blocking => exact backed.ask path .inspect blocking
  | save path bytes blocking => exact backed.ask path (.save bytes) blocking
  | finish id use => exact backed.finish id use heeded
  | adoptRemote path => exact backed.adoptRemote looked path heeded
  | giveUp id => exact backed.giveUp id heeded
  | begin id => exact backed.begin id
  | publish id contents names paths => exact backed.publish watchful heeded
  | answer id seen revision ok => exact backed.answer id seen revision ok
  | change contents names paths =>
      apply backed.change contents names paths
      · exact fun _ _ there => there
      · exact numbered_change backed contents names paths
      · rfl
      · exact fun _ awaited => awaited
      · intro path bytes there differs
        rcases heeded path bytes there differs with announced | awaited
        · exact .inl (owes_of_announced watchful differs announced)
        · exact awaited_change awaited
  | deliver => exact backed.deliver
  | reconnect => exact backed.reconnect heeded
  | watch dir => exact backed.grow ⟨rfl, rfl, Nat.le_refl _, fun _ m => m, fun _ m => m, rfl⟩ rfl rfl
  | added localdir descriptor => exact backed.grow (World.Grows.refl _) rfl rfl
  | rmWatch descriptor => exact backed.rmWatch descriptor
  | execWatch index canon watcher => exact backed.execWatch index canon watcher heeded
  | execUnwatch index entry => exact backed.execUnwatch index entry heeded
  | report => exact backed.report
  | overflow => exact around _ (World.Grows.overflow _)
  | listing dir => exact around _ (World.Grows.listing _ dir)
  | rewarm dir => exact around _ (World.Grows.readdir _ dir false)
  | listed id => exact around _ (World.Grows.finish _ id)
  | unlisted id => exact around _ (World.Grows.setFetch _ id none)
  | beginListing id => exact around _ (World.Grows.begin _ id)
  | answerListing id seen ok => exact around _ (World.Grows.answer _ id seen ok)
  | putElsewhere other snapshot => exact backed.putElsewhere other snapshot

end Backing

/-- The file `/d/f` holds the bytes given, and there is no other file. -/
def holdingBytes (bytes path : String) : Option String := if path = "/d/f" then some bytes else none

/-- The directory `/d` is marked for content prefetch. -/
def contentMarked : Caches where
  authority := "h"
  contentPrefetchDirs := [("h", "/d")]

/-- The directory is listed and watched, and its file is prefetched, up to where its bytes wait for
the callback. -/
def prefetchedFile : List Move :=
  [.listing "/d", .beginListing 0, .answerListing 0 [] true, .deliver, .listed 0,
    .execWatch 0 "/d" .accepts, .warm (fun _ => true) "/d", .begin 1, .answer 1 "" (some "r") true,
    .deliver]

def prefetchStart : Stock := Stock.start {} contentMarked (holding ["f"]) (holdingBytes "old")

def prefetchedStock : Stock := prefetchedFile.foldl Stock.step prefetchStart

/-- The file is rewritten, and its event is handled before the callback is run. -/
def overtakenStock : Stock :=
  [Move.change (holdingBytes "new") (holding ["f"]) [(.modified, ⟨["d", "f"]⟩)], .report,
    .deliver].foldl Stock.step prefetchedStock

theorem prefetchedStock_reached :
    Reaches Stock.step (fun w move => Watchful w move ∧ Heeded w move) prefetchStart
      prefetchedStock := by
  apply Reaches.of_along .refl
  refine ⟨⟨trivial, trivial⟩, ⟨trivial, trivial⟩, ⟨trivial, trivial⟩, ⟨trivial, trivial⟩,
    ⟨trivial, trivial⟩, ⟨trivial, ?_⟩, ⟨trivial, trivial⟩, ⟨trivial, trivial⟩, ⟨trivial, trivial⟩,
    ⟨trivial, trivial⟩, trivial⟩
  intro dir _ _ path bytes found
  cases found

/-- The callback puts the bytes that were read. -/
theorem finish_warm {w : Stock} {path bytes revision : String}
    (waits : w.errands 1 = some ⟨path, .warm, false, .queued (some (bytes, some revision))⟩)
    (directory : (w.world.caches.content.insert (w.key path) bytes (some revision)).dirCount
      (w.key path).1 (relayDirname path) ≤ w.caps.perDirLimit)
    (total : (w.world.caches.content.insert (w.key path) bytes (some revision)).order.length ≤
      w.caps.lruSize) :
    w.finish 1 .drop = (w.setErrand 1 none).setContent
      (w.world.caches.content.insert (w.key path) bytes (some revision)) := by
  have put := ContentCache.put_of_room directory total
  simp only [Stock.finish, waits, Stock.stored]
  exact congrArg (w.setErrand 1 none).setContent put

theorem prefetchedStock_finish :
    prefetchedStock.finish 1 .drop = (prefetchedStock.setErrand 1 none).setContent
      (prefetchedStock.world.caches.content.insert ("h", "/d/f") "old" (some "r")) := by
  apply finish_warm
  · decide
  · decide
  · decide

theorem overtakenStock_finish :
    overtakenStock.finish 1 .drop = (overtakenStock.setErrand 1 none).setContent
      (overtakenStock.world.caches.content.insert ("h", "/d/f") "old" (some "r")) := by
  apply finish_warm
  · decide
  · decide
  · decide

theorem prefetchedStock_watched (canon : String) :
    prefetchedStock.world.watched canon = if canon = "/d" then some ["/d"] else none := by
  rfl

theorem prefetchedStock_contents : prefetchedStock.contents = holdingBytes "old" := by
  rfl


theorem prefetchedStock_noticing :
    Noticing prefetchedStock (holdingBytes "new") [(.modified, ⟨["d", "f"]⟩)] := by
  intro canon dir member name _ differs
  have known : canon = "/d" ∧ dir = "/d" := by
    unfold WatchTable.aliases at member
    rw [prefetchedStock_watched] at member
    by_cases same : canon = "/d"
    · rw [if_pos same] at member
      exact ⟨same, List.mem_singleton.mp member⟩
    · rw [if_neg same] at member
      cases member
  obtain ⟨place, asked⟩ := known
  refine ⟨_, List.mem_singleton_self _, .inr ?_⟩
  have path : fileNameAsDirectory dir ++ name = "/d/f" := by
    apply Classical.byContradiction
    intro other
    rw [prefetchedStock_contents] at differs
    simp [holdingBytes, other] at differs
  have named : name = "f" := by
    rw [asked] at path
    have lists := congrArg String.toList path
    rw [String.toList_append] at lists
    have tail : name.toList = "f".toList := List.append_cancel_left lists
    exact String.toList_inj.mp tail
  rw [place, named]
  exact ⟨rfl, rfl⟩

end EmacsRelay.RelayPrefetch

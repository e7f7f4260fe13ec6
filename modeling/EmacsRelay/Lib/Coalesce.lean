import Mathlib.Data.List.Basic

set_option autoImplicit false

/- A line that sends one value at a time and keeps only the latest of the values requested
meanwhile. Every value is sent on top of the one acknowledged before it. -/

/-- A value on its way, the acknowledged value and revision it was sent on top of, and whether
it had waited. -/
structure Sent (α ρ : Type) where
  value : α
  base : Option (α × ρ)
  fromQueue : Bool

structure Line (α ρ : Type) where
  requested : List α := []
  sent : List (Sent α ρ) := []
  acked : List ρ := []
  queued : Option α := none
  last : Option (α × ρ) := none

namespace Line

variable {α ρ : Type}

def Busy (line : Line α ρ) : Prop := line.acked.length < line.sent.length

instance (line : Line α ρ) : Decidable line.Busy := inferInstanceAs (Decidable (_ < _))

/-- The value on its way. -/
def flying (line : Line α ρ) : Option (Sent α ρ) :=
  if line.Busy then line.sent.getLast? else none

def send (line : Line α ρ) (value : α) (fromQueue : Bool) : Line α ρ :=
  { line with sent := line.sent ++ [⟨value, line.last, fromQueue⟩] }

/-- The value being sent, the value waiting, or a new one. -/
def request [DecidableEq α] (line : Line α ρ) (value : α) : Line α ρ :=
  let line := { line with requested := line.requested ++ [value] }
  if line.Busy then
    if line.sent.getLast?.map (·.value) = some value then { line with queued := none }
    else { line with queued := some value }
  else line.send value false

def acknowledge (line : Line α ρ) (revision : ρ) : Line α ρ :=
  let line := { line with
    acked := line.acked ++ [revision]
    last := line.sent.getLast?.map fun w : Sent α ρ => (w.value, revision) }
  match line.queued with
  | none => line
  | some value => { line.send value true with queued := none }

structure Orderly (line : Line α ρ) : Prop where
  inFlight : line.acked.length ≤ line.sent.length ∧ line.sent.length ≤ line.acked.length + 1
  ordered : (line.sent.map (·.value) ++ line.queued.toList).Sublist line.requested
  changed : ∀ i prev w, line.sent[i]? = some prev → line.sent[i + 1]? = some w →
    w.fromQueue = true → w.value ≠ prev.value
  chained : ∀ i prev w, line.sent[i]? = some prev → line.sent[i + 1]? = some w →
    ∃ revision, line.acked[i]? = some revision ∧ w.base = some (prev.value, revision)
  waiting : ∀ value, line.queued = some value → line.Busy ∧
    ∀ w, line.sent.getLast? = some w → w.value ≠ value
  latest : line.requested.getLast? = (line.queued <|> line.sent.getLast?.map (·.value))
  lastIdle : ¬ line.Busy → line.last = line.sent.getLast?.bind fun w =>
    line.acked.getLast?.map fun revision => (w.value, revision)

theorem new_orderly : Orderly ({} : Line α ρ) :=
  ⟨by simp, by simp, by simp, by simp, by simp, by simp, by simp⟩

variable {line : Line α ρ}

/-- Two neighbours of a list with one more element are old neighbours, or the old last and the
new one. -/
theorem neighbours_concat {β : Type} {xs : List β} {x prev w : β} {i : Nat}
    (here : (xs ++ [x])[i]? = some prev) (next : (xs ++ [x])[i + 1]? = some w) :
    (xs[i]? = some prev ∧ xs[i + 1]? = some w) ∨
      (i + 1 = xs.length ∧ xs.getLast? = some prev ∧ w = x) := by
  have bound : i + 1 < (xs ++ [x]).length := (List.getElem?_eq_some_iff.mp next).1
  simp only [List.length_append, List.length_singleton] at bound
  by_cases inside : i + 1 < xs.length
  · left
    rw [List.getElem?_append_left (by omega)] at here
    rw [List.getElem?_append_left inside] at next
    exact ⟨here, next⟩
  · right
    have last : i + 1 = xs.length := by omega
    rw [List.getElem?_append_left (by omega)] at here
    rw [last, List.getElem?_concat_length] at next
    have pred : xs.length - 1 = i := by omega
    refine ⟨last, ?_, (Option.some.inj next).symm⟩
    rw [List.getLast?_eq_getElem?, pred]
    exact here

/-- Sending from an idle line: the new value sits on top of the last acknowledged one. -/
theorem send_chained (orderly : line.Orderly) (idle : ¬ line.Busy) (value : α) (fromQueue : Bool)
    (fresh : fromQueue = true → ∀ w, line.sent.getLast? = some w → value ≠ w.value) :
    (∀ i prev w, (line.send value fromQueue).sent[i]? = some prev →
      (line.send value fromQueue).sent[i + 1]? = some w → w.fromQueue = true →
      w.value ≠ prev.value) ∧
    ∀ i prev w, (line.send value fromQueue).sent[i]? = some prev →
      (line.send value fromQueue).sent[i + 1]? = some w →
      ∃ revision, line.acked[i]? = some revision ∧ w.base = some (prev.value, revision) := by
  have full : line.acked.length = line.sent.length := by
    have upper := orderly.inFlight.1
    unfold Busy at idle
    omega
  refine ⟨?_, ?_⟩
  · intro i prev w here next queued
    rcases neighbours_concat here next with ⟨old, old'⟩ | ⟨_, last, rfl⟩
    · exact orderly.changed i prev w old old' queued
    · exact fresh queued prev last
  · intro i prev w here next
    rcases neighbours_concat here next with ⟨old, old'⟩ | ⟨position, last, rfl⟩
    · exact orderly.chained i prev w old old'
    · have some_acked : i < line.acked.length := by omega
      have acked : line.acked.getLast? = some line.acked[i] := by
        rw [List.getLast?_eq_getElem?, show line.acked.length - 1 = i by omega]
        exact List.getElem?_eq_getElem some_acked
      refine ⟨line.acked[i], List.getElem?_eq_getElem some_acked, ?_⟩
      change line.last = _
      rw [orderly.lastIdle idle, last, acked]
      rfl

/-- Sending from an idle line with an empty queue. -/
theorem send_orderly (orderly : line.Orderly) (idle : ¬ line.Busy) (value : α) (fromQueue : Bool)
    (fresh : fromQueue = true → ∀ w, line.sent.getLast? = some w → value ≠ w.value)
    (requested : List α) (ordered : (line.sent.map (·.value) ++ [value]).Sublist requested)
    (latest : requested.getLast? = some value) :
    Orderly { line.send value fromQueue with requested := requested, queued := none } := by
  have upper := orderly.inFlight.1
  have full : line.acked.length = line.sent.length := by
    unfold Busy at idle
    omega
  have chain := send_chained orderly idle value fromQueue fresh
  constructor
  case inFlight => simp [send, full]
  case ordered => simpa [send] using ordered
  case changed => exact chain.1
  case chained => exact chain.2
  case waiting => simp
  case latest => simpa [send] using latest
  case lastIdle =>
    intro busy
    exact absurd (by simp [Busy, send, full]) busy

theorem busy_sent (busy : line.Busy) : ∃ w, line.sent.getLast? = some w := by
  cases last : line.sent.getLast? with
  | none =>
      have empty : line.sent = [] := List.getLast?_eq_none_iff.mp last
      simp [Busy, empty] at busy
  | some w => exact ⟨w, rfl⟩

/-- Nothing waits on an idle line. -/
theorem idle_empty (orderly : line.Orderly) (idle : ¬ line.Busy) : line.queued = none := by
  cases queued : line.queued with
  | none => rfl
  | some waiting => exact absurd (orderly.waiting waiting queued).1 idle

section Request

variable [DecidableEq α]

theorem request_same {value : α} (busy : line.Busy)
    (same : line.sent.getLast?.map (·.value) = some value) :
    line.request value =
      { line with requested := line.requested ++ [value], queued := none } := by
  have busy' : Busy { line with requested := line.requested ++ [value] } := busy
  simp [request, busy', same]

theorem request_other {value : α} (busy : line.Busy)
    (other : line.sent.getLast?.map (·.value) ≠ some value) :
    line.request value =
      { line with requested := line.requested ++ [value], queued := some value } := by
  have busy' : Busy { line with requested := line.requested ++ [value] } := busy
  simp [request, busy', other]

theorem request_idle {value : α} (idle : ¬ line.Busy) :
    line.request value =
      send { line with requested := line.requested ++ [value] } value false := by
  have idle' : ¬ Busy { line with requested := line.requested ++ [value] } := idle
  rw [request, if_neg idle']

@[simp] theorem request_requested (line : Line α ρ) (value : α) :
    (line.request value).requested = line.requested ++ [value] := by
  unfold request
  dsimp only
  split
  · split <;> rfl
  · rfl

@[simp] theorem request_acked (line : Line α ρ) (value : α) :
    (line.request value).acked = line.acked := by
  unfold request
  dsimp only
  split
  · split <;> rfl
  · rfl

theorem request_orderly (orderly : line.Orderly) (value : α) :
    (line.request value).Orderly := by
  by_cases busy : line.Busy
  · by_cases same : line.sent.getLast?.map (·.value) = some value
    · rw [request_same busy same]
      have sublist : (line.sent.map (·.value)).Sublist (line.requested ++ [value]) :=
        ((List.sublist_append_left _ _).trans orderly.ordered).trans (List.sublist_append_left _ _)
      exact ⟨orderly.inFlight, by simpa using sublist, orderly.changed, orderly.chained, by simp,
        by simp [same], orderly.lastIdle⟩
    · rw [request_other busy same]
      have sublist : (line.sent.map (·.value) ++ [value]).Sublist (line.requested ++ [value]) :=
        ((List.sublist_append_left _ _).trans orderly.ordered).append (.refl _)
      have differs : ∀ w, line.sent.getLast? = some w → w.value ≠ value := by
        intro w last equal
        exact same (by simp [last, equal])
      refine ⟨orderly.inFlight, sublist, orderly.changed, orderly.chained, ?_, by simp,
        orderly.lastIdle⟩
      intro waiting queued
      cases queued
      exact ⟨busy, differs⟩
  · have becomes : line.request value =
        { line.send value false with requested := line.requested ++ [value], queued := none } := by
      rw [request_idle busy, send, idle_empty orderly busy]
      rfl
    rw [becomes]
    apply send_orderly orderly busy value false (by simp)
    · exact ((List.sublist_append_left _ _).trans orderly.ordered).append (.refl _)
    · simp

end Request

@[simp] theorem acknowledge_requested (line : Line α ρ) (revision : ρ) :
    (line.acknowledge revision).requested = line.requested := by
  cases waiting : line.queued <;> simp [acknowledge, waiting, send]

@[simp] theorem acknowledge_acked (line : Line α ρ) (revision : ρ) :
    (line.acknowledge revision).acked = line.acked ++ [revision] := by
  cases waiting : line.queued <;> simp [acknowledge, waiting, send]

/-- The line just after an acknowledgement, before anything waiting is sent. -/
theorem acked_orderly (orderly : line.Orderly) (busy : line.Busy) (revision : ρ)
    (empty : line.queued = none) :
    Orderly { line with
      acked := line.acked ++ [revision]
      last := line.sent.getLast?.map fun w => (w.value, revision) } := by
  have bounds := orderly.inFlight
  have pending : line.acked.length + 1 = line.sent.length := by
    unfold Busy at busy
    omega
  constructor
  case inFlight => simp; omega
  case ordered => exact orderly.ordered
  case changed => exact orderly.changed
  case chained =>
    intro i prev w here next
    obtain ⟨token, acked, base⟩ := orderly.chained i prev w here next
    have bound : i < line.acked.length := (List.getElem?_eq_some_iff.mp acked).1
    exact ⟨token, by rw [List.getElem?_append_left bound]; exact acked, base⟩
  case waiting => simp [empty]
  case latest => exact orderly.latest
  case lastIdle =>
    intro _
    cases last : line.sent.getLast? <;> simp

/-- Giving up the waiting value, and the requests that led to nothing. -/
theorem forget_orderly (orderly : line.Orderly) :
    Orderly { line with queued := none, requested := line.sent.map (·.value) } :=
  ⟨orderly.inFlight, by simp, orderly.changed, orderly.chained, by simp, by simp,
    orderly.lastIdle⟩

theorem acknowledge_orderly (orderly : line.Orderly) (busy : line.Busy) (revision : ρ) :
    (line.acknowledge revision).Orderly := by
  cases queued : line.queued with
  | none =>
      have becomes : line.acknowledge revision = { line with
          acked := line.acked ++ [revision]
          last := line.sent.getLast?.map fun w => (w.value, revision) } := by
        simp [acknowledge, queued]
      rw [becomes]
      exact acked_orderly orderly busy revision queued
  | some value =>
      have bounds := orderly.inFlight
      have forgotten := acked_orderly (forget_orderly orderly) busy revision rfl
      have becomes : line.acknowledge revision = { send { line with
            acked := line.acked ++ [revision]
            last := line.sent.getLast?.map fun w => (w.value, revision)
            queued := none
            requested := line.sent.map (·.value) } value true with
          requested := line.requested, queued := none } := by
        simp [acknowledge, queued, send]
      rw [becomes]
      apply send_orderly forgotten
      · unfold Busy at busy ⊢
        simp
        omega
      · intro _ w last equal
        exact (orderly.waiting value queued).2 w last equal.symm
      · simpa [queued] using orderly.ordered
      · simpa [queued] using orderly.latest

end Line

import Mathlib.Logic.Basic

set_option autoImplicit false

/- Runs of a labelled state machine in which every step satisfies a condition. -/

/-- The states reached from `start` by steps that are all permitted where they are taken. -/
inductive Reaches {σ ι : Type} (step : σ → ι → σ) (permitted : σ → ι → Prop) (start : σ) :
    σ → Prop where
  | refl : Reaches step permitted start start
  | next {s : σ} {event : ι} :
      Reaches step permitted start s → permitted s event → Reaches step permitted start (step s event)

namespace Reaches

variable {σ ι : Type} {step : σ → ι → σ} {permitted : σ → ι → Prop} {start s : σ}

/-- What holds at the start and survives each permitted step holds in every reached state. -/
theorem invariant {inv : σ → Prop} (init : inv start)
    (keep : ∀ s event, inv s → permitted s event → inv (step s event))
    (reached : Reaches step permitted start s) : inv s := by
  induction reached with
  | refl => exact init
  | next _ allowed ih => exact keep _ _ ih allowed

theorem mono {other : σ → ι → Prop} (weaker : ∀ s event, permitted s event → other s event)
    (reached : Reaches step permitted start s) : Reaches step other start s := by
  induction reached with
  | refl => exact refl
  | next _ allowed ih => exact ih.next (weaker _ _ allowed)

/-- Every event of a list is permitted where it is taken. -/
def Along (step : σ → ι → σ) (permitted : σ → ι → Prop) : σ → List ι → Prop
  | _, [] => True
  | s, event :: events => permitted s event ∧ Along step permitted (step s event) events

theorem of_along {events : List ι} (from_start : Reaches step permitted start s)
    (along : Along step permitted s events) :
    Reaches step permitted start (events.foldl step s) := by
  induction events generalizing s with
  | nil => exact from_start
  | cons event events ih => exact ih (from_start.next along.1) along.2

theorem Along.of_forall {other : ι → Prop} {events : List ι} (all : ∀ event ∈ events, other event)
    (s : σ) : Along step (fun _ event => other event) s events := by
  induction events generalizing s with
  | nil => trivial
  | cons event events ih =>
      obtain ⟨first, rest⟩ := List.forall_mem_cons.mp all
      exact ⟨first, ih rest _⟩

theorem Along.and {other : σ → ι → Prop} {events : List ι} (one : Along step permitted s events)
    (two : Along step other s events) :
    Along step (fun s event => permitted s event ∧ other s event) s events := by
  induction events generalizing s with
  | nil => trivial
  | cons event events ih => exact ⟨⟨one.1, two.1⟩, ih one.2 two.2⟩

/-- What the steps of a run put out, in order. -/
def outputs {α : Type} (step : σ → ι → σ) (out : σ → ι → List α) : σ → List ι → List α
  | _, [] => []
  | s, event :: events => out s event ++ outputs step out (step s event) events

section

variable {α : Type} {inv : σ → Prop} {events : List ι}
  (keep : ∀ s event, inv s → permitted s event → inv (step s event))

include keep

theorem Along.invariant (holds : inv s) (along : Along step permitted s events) :
    inv (events.foldl step s) := by
  induction events generalizing s with
  | nil => exact holds
  | cons event events ih => exact ih (keep _ _ holds along.1) along.2

/-- A queue loses, repeats and reorders nothing: what has come out of it and what waits in it is
what waited and what has gone in. -/
theorem Along.queued {into outof : σ → ι → List α} {waiting : σ → List α}
    (each : ∀ s event, inv s → permitted s event →
      outof s event ++ waiting (step s event) = waiting s ++ into s event)
    (holds : inv s) (along : Along step permitted s events) :
    outputs step outof s events ++ waiting (events.foldl step s) =
      waiting s ++ outputs step into s events := by
  induction events generalizing s with
  | nil => simp [outputs]
  | cons event events ih =>
      have first := each s event holds along.1
      have rest := ih (keep _ _ holds along.1) along.2
      simp only [outputs, List.foldl_cons, List.append_assoc]
      rw [rest, ← List.append_assoc, first, List.append_assoc]

/-- A record of what has come out. -/
theorem Along.recorded {outof : σ → ι → List α} {record : σ → List α}
    (each : ∀ s event, inv s → permitted s event →
      record (step s event) = record s ++ outof s event)
    (holds : inv s) (along : Along step permitted s events) :
    record (events.foldl step s) = record s ++ outputs step outof s events := by
  induction events generalizing s with
  | nil => simp [outputs]
  | cons event events ih =>
      rw [List.foldl_cons, ih (keep _ _ holds along.1) along.2, each s event holds along.1]
      exact List.append_assoc _ _ _

end

end Reaches

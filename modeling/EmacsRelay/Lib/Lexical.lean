import Mathlib.Data.List.Basic

set_option autoImplicit false

/- Paths resolved by their text alone: each component stays where it is, goes up or goes into a
name, and nothing lies above the root. -/
namespace Lexical

inductive Move (α : Type) where
  | stay
  | up
  | into (name : α)
deriving DecidableEq, Repr

variable {α : Type}

/-- The place that a move leads to, as the names down to it with the innermost first. -/
def Move.go (place : List α) : Move α → List α
  | .stay => place
  | .up => place.tail
  | .into name => name :: place

def resolve (place : List α) (moves : List (Move α)) : List α := moves.foldl Move.go place

/-- What moves come to from any place: how far they climb above it, and the names they go down. -/
structure Climb (α : Type) where
  down : List α := []
  up : Nat := 0

def Climb.go (climb : Climb α) : Move α → Climb α
  | .stay => climb
  | .up =>
      match climb.down with
      | [] => { climb with up := climb.up + 1 }
      | _ :: down => { climb with down }
  | .into name => { climb with down := name :: climb.down }

def climbing (moves : List (Move α)) : Climb α := moves.foldl Climb.go {}

def Climb.apply (climb : Climb α) (place : List α) : List α :=
  climb.down ++ place.drop climb.up

theorem Climb.apply_go (climb : Climb α) (place : List α) (move : Move α) :
    (climb.go move).apply place = move.go (climb.apply place) := by
  cases move with
  | stay => rfl
  | into name => rfl
  | up =>
      unfold go apply
      cases down : climb.down with
      | nil => simp [Move.go, List.tail_drop]
      | cons name down => rfl

theorem resolve_append (place : List α) (first second : List (Move α)) :
    resolve place (first ++ second) = resolve (resolve place first) second :=
  List.foldl_append

/-- Moves take from a place the levels that they climb, and put their names there. -/
theorem resolve_eq (place : List α) (moves : List (Move α)) :
    resolve place moves = (climbing moves).apply place := by
  have along : ∀ (moves : List (Move α)) (climb : Climb α),
      resolve (climb.apply place) moves = (moves.foldl Climb.go climb).apply place := by
    intro moves
    induction moves with
    | nil => exact fun _ => rfl
    | cons move moves ih =>
        intro climb
        rw [List.foldl_cons, ← ih, Climb.apply_go]
        rfl
  exact along moves {}

/-- The names that moves go down are names they go into. -/
theorem mem_down {moves : List (Move α)} {name : α} (known : name ∈ (climbing moves).down) :
    .into name ∈ moves := by
  have along : ∀ (moves : List (Move α)) (climb : Climb α),
      name ∈ (moves.foldl Climb.go climb).down → name ∈ climb.down ∨ .into name ∈ moves := by
    intro moves
    induction moves with
    | nil => exact fun _ => Or.inl
    | cons move moves ih =>
        intro climb there
        rcases ih (climb.go move) there with before | later
        · cases move with
          | stay => exact .inl before
          | into other =>
              rcases List.mem_cons.mp before with same | old
              · exact .inr (same ▸ List.mem_cons_self)
              · exact .inl old
          | up =>
              unfold Climb.go at before
              cases down : climb.down with
              | nil =>
                  rw [down] at before
                  simp at before
              | cons first rest =>
                  rw [down] at before
                  exact .inl (List.mem_cons_of_mem first before)
        · exact .inr (List.mem_cons_of_mem move later)
  rcases along moves {} known with never | there
  · cases never
  · exact there

end Lexical

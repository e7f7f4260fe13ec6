import Mathlib.Logic.Basic

set_option autoImplicit false

/- Loops that take turns as long as there is one to take. -/
namespace Loop

variable {σ : Type} {turn : σ → Option σ} {s t u : σ}

/-- The loop ends, from the first state in the second. -/
inductive Ends (turn : σ → Option σ) : σ → σ → Prop where
  | stop {s : σ} : turn s = none → Ends turn s s
  | next {s t u : σ} : turn s = some t → Ends turn t u → Ends turn s u

namespace Ends

theorem stopped (ends : Ends turn s t) : turn t = none := by
  induction ends with
  | stop none_left => exact none_left
  | next _ _ ih => exact ih

/-- What holds before the loop and survives each turn holds after it. -/
theorem invariant (ends : Ends turn s t) (inv : σ → Prop) (init : inv s)
    (keep : ∀ s t, inv s → turn s = some t → inv t) : inv t := by
  induction ends with
  | stop _ => exact init
  | next taken _ ih => exact ih (keep _ _ init taken)

/-- A number that no turn makes larger is no larger after the loop. -/
theorem size_le (ends : Ends turn s t) (size : σ → Nat)
    (shrinks : ∀ s t, turn s = some t → size t ≤ size s) : size t ≤ size s := by
  induction ends with
  | stop _ => exact Nat.le_refl _
  | next taken _ ih => exact Nat.le_trans ih (shrinks _ _ taken)

end Ends

end Loop

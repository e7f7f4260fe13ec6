import Mathlib.Data.List.Basic

set_option autoImplicit false

/- Values that change, with a stamp that every change makes one it has not been before. What was
found under a stamp is known of the present value for as long as it has that stamp. -/

/-- The value there is and those there were. -/
structure Timeline (α : Type) where
  now : α
  past : List α := []

namespace Timeline

variable {α κ : Type} {stamp : α → κ} {t : Timeline α} {k : κ} {P Q : α → Prop}

def versions (t : Timeline α) : List α := t.now :: t.past

/-- The value changes. -/
@[simps] def advance (t : Timeline α) (a : α) : Timeline α where
  now := a
  past := t.versions

/-- No version has the stamp of the new one. -/
def Fresh (stamp : α → κ) (t : Timeline α) (a : α) : Prop :=
  ∀ v ∈ t.versions, stamp v ≠ stamp a

/-- A stamp there has been, under which P is so at present. -/
structure Vouches (stamp : α → κ) (t : Timeline α) (k : κ) (P : α → Prop) : Prop where
  known : ∃ v ∈ t.versions, stamp v = k
  holds : stamp t.now = k → P t.now

theorem vouches_now (holds : P t.now) : Vouches stamp t (stamp t.now) P :=
  ⟨⟨t.now, List.mem_cons_self, rfl⟩, fun _ => holds⟩

/-- After a change the old stamps vouch for anything. -/
theorem Vouches.advance (vouches : Vouches stamp t k P) {a : α} (fresh : Fresh stamp t a) :
    Vouches stamp (t.advance a) k Q := by
  obtain ⟨v, member, same⟩ := vouches.known
  constructor
  · exact ⟨v, List.mem_cons_of_mem _ member, same⟩
  · intro now
    exact absurd (same.trans now.symm) (fresh v member)

theorem Vouches.mono (vouches : Vouches stamp t k P) (weaker : ∀ v, P v → Q v) :
    Vouches stamp t k Q :=
  ⟨vouches.known, fun now => weaker _ (vouches.holds now)⟩

end Timeline

import EmacsRelay.Server.Passage
import EmacsRelay.Server.Phase

set_option autoImplicit false

/- A kernel that hands out inode numbers in order never hands out one that is in use. -/
namespace EmacsRelay

namespace Disk

variable {d e : Disk} {choice : KernelChoice}

/-- No inode has a number from `n` on. -/
def Vacant (d : Disk) (n : Nat) : Prop := ∀ dev m, n ≤ m → d.Free ⟨dev, m⟩

/-- What is linked after a change was linked before or has the number `fresh`. -/
structure Grows (d e : Disk) (fresh : Nat) : Prop where
  root : e.root = d.root
  entry : ∀ a n i, e.entry a n = some i → (∃ b m, d.entry b m = some i) ∨ i.ino = fresh

theorem Grows.of_entry (fresh : Nat) (root : e.root = d.root)
    (entry : ∀ a n, e.entry a n = d.entry a n) : d.Grows e fresh :=
  ⟨root, fun a n _ there => .inl ⟨a, n, entry a n ▸ there⟩⟩

theorem Grows.vacant {n : Nat} (grows : d.Grows e n) (vacant : d.Vacant n) :
    e.Vacant (n + 1) := by
  intro dev m large
  obtain ⟨root, unlinked⟩ := vacant dev m (by omega)
  refine ⟨by rw [grows.root]; exact root, ?_⟩
  intro a name there
  rcases grows.entry a name _ there with ⟨b, other, before⟩ | fresh
  · exact unlinked b other before
  · have same : m = n := fresh
    omega

theorem Grows.create {dir inode : Inode} {name : String} (node : Node) {fresh : Nat}
    (number : inode.ino = fresh) : d.Grows (d.create dir name inode node) fresh := by
  refine ⟨rfl, ?_⟩
  intro a n i there
  rw [Disk.create, entry_putEntry] at there
  split at there
  · right
    cases there
    exact number
  · exact .inl ⟨a, n, there⟩

theorem Grows.remove (dir inode : Inode) (name : String) (now : Time) (fresh : Nat) :
    d.Grows ((d.removeEntry dir name).dropLink inode now) fresh := by
  refine ⟨rfl, ?_⟩
  intro a n i there
  rw [entry_dropLink, entry_removeEntry] at there
  split at there
  · cases there
  · exact .inl ⟨a, n, there⟩

theorem Grows.moveEntry {source target moved : Inode} {sourceName targetName : String}
    (linked : d.entry source sourceName = some moved) (fresh : Nat) :
    d.Grows (d.moveEntry choice source sourceName target targetName moved) fresh := by
  constructor
  · exact root_moveEntry choice
  · intro a n i there
    rw [entry_moveEntry] at there
    split at there
    · cases there
      exact .inl ⟨source, sourceName, linked⟩
    · split at there
      · cases there
      · exact .inl ⟨a, n, there⟩

theorem grows_rename {source target : Path} (fresh : Nat)
    (renamed : d.rename choice source target = .ok e) : d.Grows e fresh := by
  unfold Disk.rename at renamed
  split at renamed
  · cases renamed
  · cases renamed
  · cases renamed
  · rename_i sourceDir moved targetDir here found _
    have linked : d.entry sourceDir source.name = some moved := by
      unfold Disk.find at found
      rw [here] at found
      dsimp only at found
      cases entry : d.entry sourceDir source.name with
      | none => rw [entry] at found; cases found
      | some inode =>
          rw [entry] at found
          cases found
          rfl
    have kept : d.Grows d fresh := .of_entry fresh rfl fun _ _ => rfl
    have placed : d.Grows
        (d.moveEntry choice sourceDir source.name targetDir target.name moved) fresh :=
      .moveEntry linked fresh
    split at renamed
    · cases renamed
    · split at renamed
      · cases renamed
      · split at renamed
        · cases renamed
          exact placed
        · repeat' split at renamed
          all_goals cases renamed
          · exact kept
          · exact placed

theorem grows_unlink {path : Path} (fresh : Nat) (removed : d.unlink choice path = .ok e) :
    d.Grows e fresh := by
  unfold Disk.unlink at removed
  split at removed
  · cases removed
  · cases removed
  · split at removed
    · cases removed
    · cases removed
      exact .remove _ _ _ _ fresh

theorem grows_createNew {process : Process} {path : Path} {mode : Nat} {file : Inode}
    (created : d.createNew choice process path mode = .ok (file, e)) : d.Grows e choice.fresh := by
  unfold Disk.createNew at created
  split at created
  · cases created
  · split at created
    · cases created
    · cases created
      exact .create _ rfl

end Disk

/-- The calls of a conditional write use no number but the one that the kernel hands out. -/
theorem grows_exec {process : Process} {h : Host} {path : Path} {phase : WritePhase}
    {request : Call} {choice : KernelChoice} (legal : WritePhase.Legal path phase request) :
    h.disk.Grows (Host.exec process request choice h).2.disk choice.fresh := by
  have kept : h.disk.Grows h.disk choice.fresh := .of_entry _ rfl fun _ _ => rfl
  cases request with
  | lstat target => exact kept
  | openRead target => exact kept
  | fstat file => exact kept
  | readFile file => exact kept
  | read file offset length => exact kept
  | syncAll file => exact kept
  | fetchAdd => exact kept
  | fchown file uid gid => exact .of_entry _ rfl fun _ _ => rfl
  | fchmod file mode => exact .of_entry _ rfl fun _ _ => rfl
  | writeAll file bytes =>
      exact .of_entry _ (Disk.root_writeAll choice file bytes)
        (Disk.entry_writeAll choice file bytes)
  | createNew temp mode =>
      simp only [Host.exec]
      cases created : h.disk.createNew choice process temp mode with
      | error e => exact kept
      | ok made => exact Disk.grows_createNew created
  | rename source target =>
      simp only [Host.exec]
      cases renamed : h.disk.rename choice source target with
      | error e => exact kept
      | ok disk => exact Disk.grows_rename _ renamed
  | unlink target =>
      simp only [Host.exec]
      cases removed : h.disk.unlink choice target with
      | error e => exact kept
      | ok disk => exact Disk.grows_unlink _ removed
  | _ => cases phase <;> exact legal.elim

/-- A number that nothing has may be handed out. -/
theorem allows_of_vacant {h : Host} {path : Path} {phase : WritePhase} {request : Call}
    {choice : KernelChoice} (legal : WritePhase.Legal path phase request)
    (vacant : h.disk.Vacant choice.fresh) : Host.Allows request choice h := by
  cases request with
  | createNew temp mode => exact fun dir _ => vacant dir.dev choice.fresh (Nat.le_refl _)
  | mkdir target => cases phase <;> exact legal.elim
  | openCreate target mode truncate => cases phase <;> exact legal.elim
  | _ => trivial

/-- Numbers are handed out in order, from `n` on. -/
def numberedFrom : Nat → List KernelChoice → Bool
  | _, [] => true
  | n, choice :: choices => choice.fresh == n && numberedFrom (n + 1) choices

/-- A conditional write that runs alone may take the numbers it is handed. -/
theorem permits_of_numbered {α : Type} {process : Process} {path : Path} {n : Nat}
    {choices : List KernelChoice} {program : Program Call Answer α} {post : α → WritePhase → Prop}
    {phase : WritePhase} {h : Host} (numbers : numberedFrom n choices = true)
    (follows : Program.wp (WritePhase.protocol path).rule program post phase)
    (vacant : h.disk.Vacant n) : Program.Permits (Host.kernel process) choices program h := by
  induction choices generalizing n program phase h with
  | nil => trivial
  | cons choice choices ih =>
      cases program with
      | done value => trivial
      | call request next =>
          obtain ⟨first, rest⟩ := Bool.and_eq_true_iff.mp numbers
          have number : choice.fresh = n := beq_iff_eq.mp first
          obtain ⟨legal, continues⟩ := follows
          have grows : h.disk.Grows (Host.exec process request choice h).2.disk n := by
            rw [← number]
            exact grows_exec legal
          refine ⟨allows_of_vacant legal (number ▸ vacant), ih rest (continues _) ?_⟩
          exact grows.vacant vacant

end EmacsRelay

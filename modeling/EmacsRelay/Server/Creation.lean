import EmacsRelay.Server.Write

set_option autoImplicit false

/- A conditional write that may only create its file. -/
namespace EmacsRelay

open Trial (wp wp_bind wp_mono wp_ite wp_guarded)

/-- Calls are answered as the host likes. -/
abbrev AnyHost : Rule Call Answer Unit := (Kernel.answering fun _ _ => True).rule

/-- Whatever its calls return, the program does not stop because a file was deleted. -/
def Undeleted {α : Type} (body : Io α) : Prop :=
  wp AnyHost body (fun _ _ => True)
    (fun reason _ => ∀ current, reason ≠ .conflict .deleted current) ()

section Pieces

variable {α β : Type}

theorem undeleted_bind {first : Io α} {next : α → Io β} (one : Undeleted first)
    (rest : ∀ value, Undeleted (next value)) : Undeleted (first >>= next) := by
  unfold Undeleted
  rw [wp_bind]
  exact wp_mono one (fun value _ _ => rest value) fun _ _ undeleted => undeleted

theorem undeleted_pure (value : α) : Undeleted (pure value) := trivial

theorem undeleted_ask (request : Call) : Undeleted (ask request) := fun _ _ => trivial

theorem undeleted_io (message : String) : Undeleted (Trial.stop (.io message) : Io α) := by
  intro current same
  cases same

theorem undeleted_stop {reason : RevisionError} (other : reason.conflictKind ≠ some .deleted) :
    Undeleted (Trial.stop reason : Io α) := by
  intro current same
  rw [same] at other
  exact other rfl

theorem undeleted_ofExcept (context : String) (result : Except OsError α) :
    Undeleted (Trial.ofExcept (ioError context) result) := by
  cases result with
  | ok value => exact undeleted_pure value
  | error e => exact undeleted_io _

theorem undeleted_require (test : Bool) {reason : RevisionError}
    (other : reason.conflictKind ≠ some .deleted) : Undeleted (require test reason) := by
  cases test with
  | true => exact undeleted_pure ()
  | false => exact undeleted_stop other

theorem undeleted_guarded {body : Io α} (undeleted : Undeleted body)
    (cleanup : Program Call Answer Unit) : Undeleted (Trial.guarded body cleanup) := by
  unfold Undeleted
  rw [wp_guarded]
  refine wp_mono undeleted (fun _ _ done => done) ?_
  intro reason t other
  exact Program.wp_mono (Program.wp_true cleanup t) fun _ _ _ => other

theorem undeleted_checkedLstat (path : Path) : Undeleted (checkedLstat path) := by
  apply undeleted_bind (undeleted_ask _)
  intro result
  cases result with
  | ok metadata => exact undeleted_pure _
  | error e => cases e <;> first | exact undeleted_pure _ | exact undeleted_io _

theorem undeleted_refuseType (metadata : Metadata) : Undeleted (refuseType metadata) := by
  unfold refuseType
  split
  · exact undeleted_stop (by simp [RevisionError.conflictKind])
  · exact undeleted_pure ()

theorem undeleted_openChecked (path : Path) : Undeleted (openChecked path) := by
  apply undeleted_bind (undeleted_checkedLstat path)
  intro initial
  cases initial with
  | none => exact undeleted_io _
  | some metadata =>
      apply undeleted_bind (undeleted_refuseType metadata)
      intro _
      apply undeleted_bind (undeleted_ask _)
      exact undeleted_ofExcept _

theorem undeleted_readToEnd (file : Inode) (offset limit : Nat) :
    Undeleted (readToEnd file offset limit) := by
  apply readOn_all
  · exact fun result => undeleted_pure result
  · exact fun offset limit next rest => undeleted_bind (undeleted_ask _) rest
  · exact fun body join rest => undeleted_bind rest fun result => undeleted_pure (join result)

theorem undeleted_readAttempt (path : Path) : Undeleted (readAttempt path) := by
  have sample (file : Inode) : Undeleted (Sys.fstat file) := undeleted_ask _
  have large : RevisionError.tooLarge.conflictKind ≠ some .deleted := by
    simp [RevisionError.conflictKind]
  apply undeleted_bind (undeleted_openChecked path)
  intro file
  apply undeleted_bind (sample file)
  intro sampled
  apply undeleted_bind (undeleted_ofExcept _ sampled)
  intro before
  apply undeleted_bind (undeleted_refuseType before)
  intro _
  apply undeleted_bind (undeleted_require _ large)
  intro _
  apply undeleted_bind (undeleted_readToEnd file 0 _)
  intro content
  apply undeleted_bind (undeleted_ofExcept _ content)
  intro bytes
  apply undeleted_bind (undeleted_require _ large)
  intro _
  apply undeleted_bind (sample file)
  intro sampled
  apply undeleted_bind (undeleted_ofExcept _ sampled)
  intro after
  apply undeleted_bind (undeleted_refuseType after)
  intro _
  split
  · apply undeleted_bind (undeleted_require _ (by simp [RevisionError.conflictKind]))
    intro _
    exact undeleted_pure _
  · exact undeleted_pure none

theorem undeleted_readWithRevision (path : Path) : Undeleted (readWithRevision path) := by
  have attempts : ∀ n, Undeleted (readAttempts path n) := by
    intro n
    induction n with
    | zero => exact undeleted_stop (by simp [RevisionError.conflictKind])
    | succ n ih =>
        apply undeleted_bind (undeleted_readAttempt path)
        intro read
        cases read with
        | none => exact ih
        | some found => exact undeleted_pure found
  exact attempts readLimit

theorem undeleted_missingAppearance (path : Path) (metadata : Metadata) :
    Undeleted (missingAppearanceConflict path metadata : Io α) := by
  unfold missingAppearanceConflict
  split
  · exact undeleted_stop (by simp [RevisionError.conflictKind])
  · exact undeleted_stop (by simp [RevisionError.conflictKind])
  · apply undeleted_bind (undeleted_readWithRevision path)
    intro current
    exact undeleted_stop (by simp [RevisionError.conflictKind])

theorem undeleted_conflictForExisting (path : Path) :
    Undeleted (conflictForExisting .missing path) := by
  apply undeleted_bind (undeleted_checkedLstat path)
  intro found
  cases found with
  | none => exact undeleted_pure ()
  | some metadata => exact undeleted_missingAppearance path metadata

theorem undeleted_newTemp (process : Process) (path : Path) (tries : Nat) :
    Undeleted (newTemp process path tries) := by
  induction tries with
  | zero => exact undeleted_io _
  | succ tries ih =>
      apply undeleted_bind (undeleted_ask _)
      intro serial
      apply undeleted_bind (undeleted_ask _)
      intro created
      split
      · exact undeleted_pure _
      · exact ih
      · exact undeleted_io _

theorem undeleted_preserveMetadata (file : Inode) (original : Option Metadata) :
    Undeleted (preserveMetadata file original) := by
  cases original with
  | none => exact undeleted_pure ()
  | some metadata =>
      apply undeleted_bind (undeleted_ask _)
      intro owned
      apply undeleted_bind (undeleted_ofExcept _ owned)
      intro _
      apply undeleted_bind (undeleted_ask _)
      exact undeleted_ofExcept _

theorem undeleted_writeTemp (file : Inode) (bytes : Bytes) : Undeleted (writeTemp file bytes) := by
  apply undeleted_bind (undeleted_ask _)
  exact undeleted_ofExcept _

theorem undeleted_syncTemp (file : Inode) : Undeleted (syncTemp file) := by
  apply undeleted_bind (undeleted_ask _)
  exact undeleted_ofExcept _

theorem undeleted_publish (temp path : Path) : Undeleted (publish .missing temp path) := by
  apply undeleted_bind (undeleted_ask _)
  intro linked
  split
  · apply undeleted_bind (undeleted_ask _)
    exact undeleted_ofExcept _
  · apply undeleted_bind (undeleted_checkedLstat path)
    intro found
    cases found with
    | none => exact undeleted_io _
    | some metadata => exact undeleted_missingAppearance path metadata
  · exact undeleted_io _

end Pieces

/-- A write with the missing state as its precondition is never refused as deleted. -/
theorem creation_undeleted (process : Process) (path : Path) (bytes : Bytes) :
    Undeleted (conditionalWriteLocked process path bytes .missing) := by
  apply undeleted_bind (undeleted_require _ (by simp [RevisionError.conflictKind]))
  intro _
  apply undeleted_bind (undeleted_require _ (by simp [RevisionError.conflictKind]))
  intro _
  apply undeleted_bind (undeleted_conflictForExisting path)
  intro _
  apply undeleted_bind (undeleted_checkedLstat path)
  intro original
  apply undeleted_bind (undeleted_newTemp process path 100)
  intro pending
  apply undeleted_bind
  · apply undeleted_guarded
    apply undeleted_bind (undeleted_preserveMetadata _ original)
    intro _
    apply undeleted_bind (undeleted_writeTemp _ bytes)
    intro _
    apply undeleted_bind (undeleted_syncTemp _)
    intro _
    apply undeleted_bind (undeleted_conflictForExisting path)
    intro _
    exact undeleted_publish _ path
  · intro _
    apply undeleted_bind (undeleted_readWithRevision path)
    intro published
    split
    · exact undeleted_pure _
    · exact undeleted_stop (by simp [RevisionError.conflictKind])

end EmacsRelay

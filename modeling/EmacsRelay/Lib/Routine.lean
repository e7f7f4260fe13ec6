import Mathlib.Logic.Basic

set_option autoImplicit false

/- Computations over a mutable state that can stop with an error. Stopping unwinds
control only: whatever was stored before the error stays stored. -/

/-- A computation from `σ` that returns an `α` or stops with an `ε`. -/
def Routine (σ ε α : Type) : Type := σ → Except ε α × σ

namespace Routine

variable {σ ε α β : Type}

instance : Monad (Routine σ ε) where
  pure value := fun s => (.ok value, s)
  bind first next := fun s =>
    match first s with
    | (.ok value, t) => next value t
    | (.error reason, t) => (.error reason, t)

/-- The current state. -/
def fetch : Routine σ ε σ := fun s => (.ok s, s)

def update (f : σ → σ) : Routine σ ε Unit := fun s => (.ok (), f s)

def signal (reason : ε) : Routine σ ε α := fun s => (.error reason, s)

/-- Run `body`; an error it signals is handed to `handler`, in the state it left. -/
def rescue (body : Routine σ ε α) (handler : ε → Routine σ ε α) : Routine σ ε α := fun s =>
  match body s with
  | (.ok value, t) => (.ok value, t)
  | (.error reason, t) => handler reason t

def whenever (test : Bool) (body : Routine σ ε Unit) : Routine σ ε Unit :=
  if test then body else pure ()

/-- The state a computation leaves behind, however it ends. -/
def after (body : Routine σ ε α) (s : σ) : σ := (body s).2

/-- Weakest precondition: `post` covers a normal return, `failed` an error. -/
def wp (body : Routine σ ε α) (post : α → σ → Prop) (failed : ε → σ → Prop) (s : σ) : Prop :=
  match body s with
  | (.ok value, t) => post value t
  | (.error reason, t) => failed reason t

@[simp] theorem wp_pure (value : α) (post : α → σ → Prop) (failed : ε → σ → Prop) (s : σ) :
    wp (pure value) post failed s ↔ post value s := Iff.rfl

@[simp] theorem wp_bind (first : Routine σ ε α) (next : α → Routine σ ε β)
    (post : β → σ → Prop) (failed : ε → σ → Prop) (s : σ) :
    wp (first >>= next) post failed s ↔
      wp first (fun value t => wp (next value) post failed t) failed s := by
  simp only [wp, bind]
  cases first s with
  | mk result t => cases result <;> rfl

@[simp] theorem wp_fetch (post : σ → σ → Prop) (failed : ε → σ → Prop) (s : σ) :
    wp fetch post failed s ↔ post s s := Iff.rfl

@[simp] theorem wp_update (f : σ → σ) (post : Unit → σ → Prop) (failed : ε → σ → Prop)
    (s : σ) : wp (update f) post failed s ↔ post () (f s) := Iff.rfl

@[simp] theorem wp_signal (reason : ε) (post : α → σ → Prop) (failed : ε → σ → Prop) (s : σ) :
    wp (signal reason) post failed s ↔ failed reason s := Iff.rfl

@[simp] theorem wp_rescue (body : Routine σ ε α) (handler : ε → Routine σ ε α)
    (post : α → σ → Prop) (failed : ε → σ → Prop) (s : σ) :
    wp (rescue body handler) post failed s ↔
      wp body post (fun reason t => wp (handler reason) post failed t) s := by
  simp only [wp, rescue]
  cases body s with
  | mk result t => cases result <;> rfl

@[simp] theorem wp_ite (test : Prop) [Decidable test] (left right : Routine σ ε α)
    (post : α → σ → Prop) (failed : ε → σ → Prop) (s : σ) :
    wp (if test then left else right) post failed s ↔
      (test → wp left post failed s) ∧ (¬ test → wp right post failed s) := by
  by_cases holds : test <;> simp [holds]

@[simp] theorem wp_whenever (test : Bool) (body : Routine σ ε Unit)
    (post : Unit → σ → Prop) (failed : ε → σ → Prop) (s : σ) :
    wp (whenever test body) post failed s ↔
      (test = true → wp body post failed s) ∧ (test = false → post () s) := by
  cases test <;> simp [whenever]

section After

@[simp] theorem after_pure (value : α) (s : σ) : (pure value : Routine σ ε α).after s = s := rfl

@[simp] theorem after_signal (reason : ε) (s : σ) :
    (signal reason : Routine σ ε α).after s = s := rfl

@[simp] theorem after_update (f : σ → σ) (s : σ) : (update f : Routine σ ε Unit).after s = f s := rfl

@[simp] theorem after_fetch_bind (next : σ → Routine σ ε α) (s : σ) :
    (fetch >>= next).after s = (next s).after s := rfl

@[simp] theorem after_update_bind (f : σ → σ) (next : Unit → Routine σ ε α) (s : σ) :
    (update f >>= next).after s = (next ()).after (f s) := rfl

@[simp] theorem after_ite (test : Prop) [Decidable test] (left right : Routine σ ε α) (s : σ) :
    (if test then left else right).after s = if test then left.after s else right.after s := by
  by_cases holds : test <;> simp [holds]

@[simp] theorem after_whenever (test : Bool) (body : Routine σ ε Unit) (s : σ) :
    (whenever test body).after s = if test then body.after s else s := by
  cases test <;> rfl

@[simp] theorem after_whenever_update_bind (test : Bool) (f : σ → σ)
    (next : Unit → Routine σ ε α) (s : σ) :
    (whenever test (update f) >>= next).after s = (next ()).after (if test then f s else s) := by
  cases test <;> rfl

end After

theorem wp_mono {body : Routine σ ε α} {post post' : α → σ → Prop} {failed failed' : ε → σ → Prop}
    {s : σ} (holds : wp body post failed s) (weaken : ∀ value t, post value t → post' value t)
    (weakenFailed : ∀ reason t, failed reason t → failed' reason t) : wp body post' failed' s := by
  unfold wp at holds ⊢
  cases result : body s with
  | mk outcome t =>
      rw [result] at holds
      cases outcome with
      | ok value => exact weaken value t holds
      | error reason => exact weakenFailed reason t holds

/-- What holds of every result and state holds of those of a computation. -/
theorem wp_of_forall {body : Routine σ ε α} {post : α → σ → Prop} {failed : ε → σ → Prop}
    (always : ∀ value t, post value t) (alwaysFailed : ∀ reason t, failed reason t) (s : σ) :
    wp body post failed s := by
  unfold wp
  cases body s with
  | mk outcome t =>
      cases outcome with
      | ok value => exact always value t
      | error reason => exact alwaysFailed reason t

/-- A property of the state alone, wanted however the computation ends. -/
theorem after_of_wp {body : Routine σ ε α} {property : σ → Prop} {s : σ}
    (holds : wp body (fun _ => property) (fun _ => property) s) : property (body.after s) := by
  unfold wp at holds
  unfold after
  cases result : body s with
  | mk outcome t =>
      rw [result] at holds
      cases outcome <;> exact holds

/-- The same for a computation that never stops with an error. -/
theorem after_of_total {body : Routine σ ε α} {property : σ → Prop} {s : σ}
    (holds : wp body (fun _ => property) (fun _ _ => False) s) : property (body.after s) :=
  after_of_wp (wp_mono holds (fun _ _ => id) fun _ _ impossible => impossible.elim)

theorem runs_of_total {body : Routine σ ε α} {post : α → σ → Prop} {s : σ}
    (holds : wp body post (fun _ _ => False) s) : ∃ value t, body s = (.ok value, t) ∧ post value t := by
  unfold wp at holds
  cases result : body s with
  | mk outcome t =>
      rw [result] at holds
      cases outcome with
      | ok value => exact ⟨value, t, rfl, holds⟩
      | error reason => exact holds.elim

theorem post_of_wp {body : Routine σ ε α} {post : α → σ → Prop} {failed : ε → σ → Prop} {s t : σ}
    {value : α} (holds : wp body post failed s) (runs : body s = (.ok value, t)) : post value t := by
  unfold wp at holds
  rw [runs] at holds
  exact holds

/-- A computation goes on with what its first part returned. -/
theorem bind_of_runs {first : Routine σ ε α} {s t : σ} {value : α} (runs : first s = (.ok value, t))
    (next : α → Routine σ ε β) : (first >>= next) s = next value t := by
  simp only [bind, runs]

theorem wp_of_runs {body : Routine σ ε α} {post : α → σ → Prop} {failed : ε → σ → Prop} {s t : σ}
    {value : α} (runs : body s = (.ok value, t)) (holds : post value t) :
    wp body post failed s := by
  unfold wp
  rw [runs]
  exact holds

theorem bind_assoc {γ : Type} (first : Routine σ ε α) (next : α → Routine σ ε β)
    (last : β → Routine σ ε γ) :
    first >>= next >>= last = first >>= fun value => next value >>= last := by
  funext s
  simp only [bind]
  cases first s with
  | mk outcome t => cases outcome <;> rfl

section Alike

variable {τ α' β' : Type} {related : σ → τ → Prop} {same : α → α' → Prop} {equal : β → β' → Prop}

/-- From related states two computations end alike, in related states again. -/
def Alike (related : σ → τ → Prop) (same : α → α' → Prop) (left : Routine σ ε α)
    (right : Routine τ ε α') : Prop :=
  ∀ s t, related s t → match left s, right t with
    | (.ok value, s'), (.ok value', t') => same value value' ∧ related s' t'
    | (.error reason, s'), (.error reason', t') => reason = reason' ∧ related s' t'
    | _, _ => False

theorem alike_pure {value : α} {value' : α'} (equals : same value value') :
    Alike related same (pure value : Routine σ ε α) (pure value') :=
  fun _ _ start => ⟨equals, start⟩

theorem alike_signal (reason : ε) : Alike related same (signal reason) (signal reason) :=
  fun _ _ start => ⟨rfl, start⟩

theorem alike_fetch : Alike related related (fetch : Routine σ ε σ) fetch := fun _ _ start => ⟨start, start⟩

theorem alike_update {f : σ → σ} {g : τ → τ} (keeps : ∀ s t, related s t → related (f s) (g t)) :
    Alike related (fun _ _ => True) (update f : Routine σ ε Unit) (update g) :=
  fun s t start => ⟨trivial, keeps s t start⟩

theorem alike_bind {first : Routine σ ε α} {first' : Routine τ ε α'} {next : α → Routine σ ε β}
    {next' : α' → Routine τ ε β'} (begins : Alike related same first first')
    (goes_on : ∀ value value', same value value' →
      Alike related equal (next value) (next' value')) :
    Alike related equal (first >>= next) (first' >>= next') := by
  intro s t start
  have ends := begins s t start
  simp only [bind]
  cases left : first s with
  | mk outcome s' =>
      cases right : first' t with
      | mk outcome' t' =>
          rw [left, right] at ends
          cases outcome with
          | ok value =>
              cases outcome' with
              | ok value' => exact goes_on value value' ends.1 s' t' ends.2
              | error reason' => exact ends.elim
          | error reason =>
              cases outcome' with
              | ok value' => exact ends.elim
              | error reason' => exact ends

theorem alike_rescue {body : Routine σ ε α} {body' : Routine τ ε α'} {handler : ε → Routine σ ε α}
    {handler' : ε → Routine τ ε α'} (begins : Alike related same body body')
    (handles : ∀ reason, Alike related same (handler reason) (handler' reason)) :
    Alike related same (rescue body handler) (rescue body' handler') := by
  intro s t start
  have ends := begins s t start
  simp only [rescue]
  cases left : body s with
  | mk outcome s' =>
      cases right : body' t with
      | mk outcome' t' =>
          rw [left, right] at ends
          cases outcome with
          | ok value =>
              cases outcome' with
              | ok value' => exact ends
              | error reason' => exact ends.elim
          | error reason =>
              cases outcome' with
              | ok value' => exact ends.elim
              | error reason' =>
                  obtain ⟨rfl, start'⟩ := ends
                  exact handles reason s' t' start'

/-- What only one of them looks at. -/
theorem alike_fetch_left {next : σ → Routine σ ε α} {right : Routine τ ε α'}
    (each : ∀ s, Alike related same (next s) right) :
    Alike related same (fetch >>= next) right :=
  fun s t start => each s s t start

/-- What only one of them records. -/
theorem alike_update_right {left : Routine σ ε α} {g : τ → τ} {next : Unit → Routine τ ε α'}
    (keeps : ∀ s t, related s t → related s (g t)) (rest : Alike related same left (next ())) :
    Alike related same left (update g >>= next) :=
  fun s t start => rest s (g t) (keeps s t start)

end Alike

end Routine

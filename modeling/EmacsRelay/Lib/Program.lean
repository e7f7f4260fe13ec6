import Mathlib.Logic.Basic

set_option autoImplicit false

/- Programs that act on their surroundings only through calls, what their calls do to a state, and
the weakest precondition of a program run alone. -/

/-- A program that makes calls and returns an `α`. -/
inductive Program (Call : Type) (Answer : Call → Type) (α : Type) where
  | done (value : α)
  | call (request : Call) (next : Answer request → Program Call Answer α)

/-- What calls do to a state. The surroundings contribute an input to each call. -/
structure Kernel (Call : Type) (Answer : Call → Type) (σ : Type) where
  Input : Type
  allowed : Call → Input → σ → Prop
  exec : (request : Call) → Input → σ → Answer request × σ

/-- Calls are answered in any way that is good. -/
def Kernel.answering {Call : Type} {Answer : Call → Type}
    (good : (request : Call) → Answer request → Prop) : Kernel Call Answer Unit where
  Input := (request : Call) → Answer request
  allowed request input _ := good request (input request)
  exec request input s := (input request, s)

/-- The same calls, with fewer inputs allowed. -/
def Kernel.restrict {Call : Type} {Answer : Call → Type} {σ : Type} (k : Kernel Call Answer σ)
    (limit : Call → k.Input → σ → Prop) : Kernel Call Answer σ where
  Input := k.Input
  allowed request input s := k.allowed request input s ∧ limit request input s
  exec := k.exec

/-- A protocol for calls: which are legal in a phase, and the phase that follows an answer. -/
structure Protocol (Call : Type) (Answer : Call → Type) (σ : Type) where
  legal : σ → Call → Prop
  advance : σ → (request : Call) → Answer request → σ

/-- What is known after a call, as what has to hold before it. -/
structure Rule (Call : Type) (Answer : Call → Type) (σ : Type) where
  call : (request : Call) → (Answer request → σ → Prop) → σ → Prop
  mono : ∀ {request : Call} {post post' : Answer request → σ → Prop} {s : σ}, call request post s →
    (∀ answer t, post answer t → post' answer t) → call request post' s

section Rules

variable {Call : Type} {Answer : Call → Type} {σ : Type}

/-- Whatever input is allowed. -/
def Kernel.rule (k : Kernel Call Answer σ) : Rule Call Answer σ where
  call request post s := ∀ input, k.allowed request input s →
    post (k.exec request input s).1 (k.exec request input s).2
  mono holds weaken := fun input allowed => weaken _ _ (holds input allowed)

/-- The same, with `inv` after every call. -/
def Kernel.always (k : Kernel Call Answer σ) (inv : σ → Prop) : Rule Call Answer σ where
  call request post s := ∀ input, k.allowed request input s →
    inv (k.exec request input s).2 ∧ post (k.exec request input s).1 (k.exec request input s).2
  mono holds weaken := fun input allowed =>
    ⟨(holds input allowed).1, weaken _ _ (holds input allowed).2⟩

/-- The call is legal, whatever it is answered. -/
def Protocol.rule (p : Protocol Call Answer σ) : Rule Call Answer σ where
  call request post phase := p.legal phase request ∧
    ∀ answer, post answer (p.advance phase request answer)
  mono holds weaken := ⟨holds.1, fun answer => weaken _ _ (holds.2 answer)⟩

instance : Coe (Kernel Call Answer σ) (Rule Call Answer σ) := ⟨Kernel.rule⟩

instance : Coe (Protocol Call Answer σ) (Rule Call Answer σ) := ⟨Protocol.rule⟩

end Rules

namespace Program

variable {Call : Type} {Answer : Call → Type} {α β σ : Type}

def bind : Program Call Answer α → (α → Program Call Answer β) → Program Call Answer β
  | done value, f => f value
  | call request next, f => call request fun answer => bind (next answer) f

instance : Monad (Program Call Answer) where
  pure := done
  bind := bind

/-- One call. -/
def perform (request : Call) : Program Call Answer (Answer request) := call request done

/-- What a program has become, and the state, after some of its calls. -/
inductive Steps (k : Kernel Call Answer σ) (start : Program Call Answer α) (s : σ) :
    Program Call Answer α → σ → Prop where
  | refl : Steps k start s start s
  | call {request : Call} {next : Answer request → Program Call Answer α} {t : σ}
      (input : k.Input) (steps : Steps k start s (.call request next) t)
      (allowed : k.allowed request input t) :
      Steps k start s (next (k.exec request input t).1) (k.exec request input t).2

/-- The program runs alone from one state to another and returns. -/
def Executes (k : Kernel Call Answer σ) (program : Program Call Answer α) (s : σ) (value : α)
    (t : σ) : Prop :=
  Steps k program s (.done value) t

/-- Some answers lead the program to a call of this kind. -/
def Leads (kind : Call → Prop) : Program Call Answer α → Prop
  | .done _ => False
  | .call request next => kind request ∨ ∃ answer, Leads kind (next answer)

section Advance

variable (k : Kernel Call Answer σ)

/-- What is left of a program, and the state, when it has used the inputs given or returned. -/
def advance : List k.Input → Program Call Answer α → σ → Program Call Answer α × σ
  | input :: inputs, .call request next, s =>
      advance inputs (next (k.exec request input s).1) (k.exec request input s).2
  | _, program, s => (program, s)

/-- Every input is allowed where it is used. -/
def Permits : List k.Input → Program Call Answer α → σ → Prop
  | input :: inputs, .call request next, s => k.allowed request input s ∧
      Permits inputs (next (k.exec request input s).1) (k.exec request input s).2
  | _, _, _ => True

variable {k}

theorem steps_trans {first second third : Program Call Answer α} {s t u : σ}
    (before : Steps k first s second t) (after : Steps k second t third u) :
    Steps k first s third u := by
  induction after with
  | refl => exact before
  | call input _ allowed ih => exact .call input ih allowed

theorem steps_of_advance {inputs : List k.Input} {program : Program Call Answer α} {s : σ}
    (permitted : Permits k inputs program s) :
    Steps k program s (advance k inputs program s).1 (advance k inputs program s).2 := by
  induction inputs generalizing program s with
  | nil => exact .refl
  | cons input inputs ih =>
      cases program with
      | done value => exact .refl
      | call request next => exact steps_trans (.call input .refl permitted.1) (ih permitted.2)

theorem advance_restrict (limit : Call → k.Input → σ → Prop) (inputs : List k.Input)
    (program : Program Call Answer α) (s : σ) :
    advance (k.restrict limit) inputs program s = advance k inputs program s := by
  induction inputs generalizing program s with
  | nil => cases program <;> rfl
  | cons input inputs ih =>
      cases program with
      | done value => rfl
      | call request next => exact ih _ _

theorem permits_restrict {limit : Call → k.Input → σ → Prop} {inputs : List k.Input}
    {program : Program Call Answer α} {s : σ}
    (within : ∀ input ∈ inputs, ∀ request t, limit request input t)
    (permitted : Permits k inputs program s) : Permits (k.restrict limit) inputs program s := by
  induction inputs generalizing program s with
  | nil => trivial
  | cons input inputs ih =>
      cases program with
      | done value => trivial
      | call request next =>
          refine ⟨⟨permitted.1, within input List.mem_cons_self request s⟩, ih ?_ permitted.2⟩
          exact fun other member => within other (List.mem_cons_of_mem _ member)

end Advance

section Wp

variable (rule : Rule Call Answer σ)

/-- The weakest precondition of a program under a rule for its calls. -/
def wp : Program Call Answer α → (α → σ → Prop) → σ → Prop
  | .done value, post, s => post value s
  | .call request next, post, s => rule.call request (fun answer t => wp (next answer) post t) s

variable {rule}

theorem wp_mono {program : Program Call Answer α} {post post' : α → σ → Prop} {s : σ}
    (holds : wp rule program post s) (weaken : ∀ value t, post value t → post' value t) :
    wp rule program post' s := by
  induction program generalizing s with
  | done value => exact weaken value s holds
  | call request next ih => exact rule.mono holds fun answer t rest => ih answer rest

@[simp] theorem wp_pure (value : α) (post : α → σ → Prop) (s : σ) :
    wp rule (pure value : Program Call Answer α) post s ↔ post value s := Iff.rfl

theorem wp_bind (program : Program Call Answer α) (f : α → Program Call Answer β)
    (post : β → σ → Prop) (s : σ) :
    wp rule (bind program f) post s ↔ wp rule program (fun value t => wp rule (f value) post t) s := by
  induction program generalizing s with
  | done value => exact Iff.rfl
  | call request next ih =>
      constructor
      · intro holds
        exact rule.mono holds fun answer t rest => (ih answer t).mp rest
      · intro holds
        exact rule.mono holds fun answer t rest => (ih answer t).mpr rest

variable {k : Kernel Call Answer σ}

/-- A weakest precondition carries over to what is left of the program. -/
theorem wp_steps {program rest : Program Call Answer α} {post : α → σ → Prop} {s t : σ}
    (holds : wp k program post s) (steps : Steps k program s rest t) : wp k rest post t := by
  induction steps with
  | refl => exact holds
  | call input _ allowed ih => exact ih input allowed

theorem wp_true (program : Program Call Answer α) (s : σ) :
    wp (Kernel.rule k) program (fun _ _ => True) s := by
  induction program generalizing s with
  | done value => trivial
  | call request next ih => exact fun input _ => ih _ _

/-- A run on inputs that are all permitted, and that ends with a value. -/
theorem executes_of_advance {inputs : List k.Input} {program : Program Call Answer α} {s : σ}
    {value : α} (permitted : Permits k inputs program s)
    (ended : (advance k inputs program s).1 = .done value) :
    Executes k program s value (advance k inputs program s).2 := by
  have steps := steps_of_advance permitted
  rw [ended] at steps
  exact steps

/-- What holds of all runs holds of those with fewer inputs. -/
theorem wp_restrict {limit : Call → k.Input → σ → Prop} {program : Program Call Answer α}
    {post : α → σ → Prop} {s : σ} (holds : wp (Kernel.rule k) program post s) :
    wp (Kernel.rule (k.restrict limit)) program post s := by
  induction program generalizing s with
  | done value => exact holds
  | call request next ih => exact fun input allowed => ih _ (holds input allowed.1)

section Tracks

variable {π : Type} {p : Protocol Call Answer π} {related : π → σ → Prop}

/-- Legal calls take related phases and states to related ones. -/
def Tracks (p : Protocol Call Answer π) (k : Kernel Call Answer σ) (related : π → σ → Prop) : Prop :=
  ∀ phase s request input, related phase s → p.legal phase request → k.allowed request input s →
    related (p.advance phase request (k.exec request input s).1) (k.exec request input s).2

/-- What a program's phases say of its end, with a state that is related to the last of them. -/
theorem wp_tracks (tracks : Tracks p k related) {program : Program Call Answer α}
    {post : α → π → Prop} {phase : π} {s : σ} (start : related phase s)
    (follows : wp p.rule program post phase) :
    wp k.rule program (fun value t => ∃ final, related final t ∧ post value final) s := by
  induction program generalizing phase s with
  | done value => exact ⟨phase, start, follows⟩
  | call request next ih =>
      intro input allowed
      exact ih _ (tracks phase s request input start follows.1 allowed) (follows.2 _)

/-- And at every point on the way. -/
theorem steps_tracks (tracks : Tracks p k related) {program rest : Program Call Answer α}
    {post : α → π → Prop} {phase : π} {s t : σ} (start : related phase s)
    (follows : wp p.rule program post phase) (steps : Steps k program s rest t) :
    ∃ reached, related reached t ∧ wp p.rule rest post reached := by
  induction steps with
  | refl => exact ⟨phase, start, follows⟩
  | call input _ allowed ih =>
      obtain ⟨reached, here, continues⟩ := ih
      exact ⟨_, tracks _ _ _ input here continues.1 allowed, continues.2 _⟩

end Tracks

/-- Two things that hold of every run hold of it together. -/
theorem wp_and {program : Program Call Answer α} {post post' : α → σ → Prop} {s : σ}
    (one : wp k.rule program post s) (two : wp k.rule program post' s) :
    wp k.rule program (fun value t => post value t ∧ post' value t) s := by
  induction program generalizing s with
  | done value => exact ⟨one, two⟩
  | call request next ih => exact fun input allowed => ih _ (one input allowed) (two input allowed)

theorem wp_executes {program : Program Call Answer α} {post : α → σ → Prop} {s t : σ} {value : α}
    (holds : wp k program post s) (run : Executes k program s value t) : post value t :=
  wp_steps holds run

end Wp

end Program

/-- A program that may stop with an error. -/
def Trial (Call : Type) (Answer : Call → Type) (ε α : Type) : Type :=
  Program Call Answer (Except ε α)

namespace Trial

variable {Call : Type} {Answer : Call → Type} {ε δ α β σ : Type}

instance : Monad (Trial Call Answer ε) where
  pure value := Program.done (.ok value)
  bind first next := Program.bind first fun
    | .ok value => next value
    | .error reason => .done (.error reason)

def stop (reason : ε) : Trial Call Answer ε α := Program.done (.error reason)

/-- One call. -/
def perform (request : Call) : Trial Call Answer ε (Answer request) :=
  Program.call request fun answer => .done (.ok answer)

/-- A result that is an error stops the program with `f` of it. -/
def ofExcept (f : δ → ε) : Except δ α → Trial Call Answer ε α
  | .ok value => pure value
  | .error reason => stop (f reason)

@[simp] theorem ofExcept_ok (f : δ → ε) (value : α) :
    (ofExcept f (.ok value) : Trial Call Answer ε α) = pure value := rfl

/-- Run `body`; when it stops, run `cleanup` and stop with the same error. -/
def guarded (body : Trial Call Answer ε α) (cleanup : Program Call Answer Unit) :
    Trial Call Answer ε α :=
  Program.bind body fun
    | .ok value => .done (.ok value)
    | .error reason => Program.bind cleanup fun _ => .done (.error reason)

variable (rule : Rule Call Answer σ)

/-- `post` covers a normal return, `failed` an error. -/
def Covers (post : α → σ → Prop) (failed : ε → σ → Prop) : Except ε α → σ → Prop
  | .ok value, t => post value t
  | .error reason, t => failed reason t

def wp (body : Trial Call Answer ε α) (post : α → σ → Prop) (failed : ε → σ → Prop) (s : σ) :
    Prop :=
  Program.wp rule body (Covers post failed) s

variable {rule}

@[simp] theorem wp_pure (value : α) (post : α → σ → Prop) (failed : ε → σ → Prop) (s : σ) :
    wp rule (pure value : Trial Call Answer ε α) post failed s ↔ post value s := Iff.rfl

@[simp] theorem wp_stop (reason : ε) (post : α → σ → Prop) (failed : ε → σ → Prop) (s : σ) :
    wp rule (stop reason : Trial Call Answer ε α) post failed s ↔ failed reason s := Iff.rfl

@[simp] theorem wp_ofExcept (f : δ → ε) (result : Except δ α) (post : α → σ → Prop)
    (failed : ε → σ → Prop) (s : σ) :
    wp rule (ofExcept f result : Trial Call Answer ε α) post failed s ↔
      (∀ value, result = .ok value → post value s) ∧
      (∀ reason, result = .error reason → failed (f reason) s) := by
  cases result with
  | ok value => simp [ofExcept]
  | error reason => simp [ofExcept]

/-- A program goes on with the result of another, be it a value or an error. -/
theorem wp_bind_result (body : Trial Call Answer ε α)
    (next : Except ε α → Program Call Answer (Except ε β)) (post : β → σ → Prop)
    (failed : ε → σ → Prop) (s : σ) :
    Program.wp rule (Program.bind body next) (Covers post failed) s ↔
      wp rule body (fun value t => Program.wp rule (next (.ok value)) (Covers post failed) t)
        (fun reason t => Program.wp rule (next (.error reason)) (Covers post failed) t) s := by
  have covered : ∀ (result : Except ε α) (t : σ),
      Program.wp rule (next result) (Covers post failed) t ↔
      Covers (fun value t => Program.wp rule (next (.ok value)) (Covers post failed) t)
        (fun reason t => Program.wp rule (next (.error reason)) (Covers post failed) t) result t := by
    intro result t
    cases result <;> exact Iff.rfl
  apply (Program.wp_bind body next (Covers post failed) s).trans
  constructor
  · exact fun holds => Program.wp_mono holds fun result t => (covered result t).mp
  · exact fun holds => Program.wp_mono holds fun result t => (covered result t).mpr

@[simp] theorem wp_bind (first : Trial Call Answer ε α) (next : α → Trial Call Answer ε β)
    (post : β → σ → Prop) (failed : ε → σ → Prop) (s : σ) :
    wp rule (first >>= next) post failed s ↔
      wp rule first (fun value t => wp rule (next value) post failed t) failed s :=
  wp_bind_result first _ post failed s

/-- When nothing is asked of errors, it is enough to look at what follows. -/
theorem wp_bind_any {k : Kernel Call Answer σ} {first : Trial Call Answer ε α}
    {next : α → Trial Call Answer ε β} {post : β → σ → Prop} {s : σ}
    (holds : ∀ value t, wp (Kernel.rule k) (next value) post (fun _ _ => True) t) :
    wp (Kernel.rule k) (first >>= next) post (fun _ _ => True) s := by
  rw [wp_bind]
  apply Program.wp_mono (Program.wp_true first s)
  intro result t _
  cases result with
  | ok value => exact holds value t
  | error reason => trivial

theorem wp_guarded (body : Trial Call Answer ε α) (cleanup : Program Call Answer Unit)
    (post : α → σ → Prop) (failed : ε → σ → Prop) (s : σ) :
    wp rule (guarded body cleanup) post failed s ↔
      wp rule body post (fun reason t => Program.wp rule cleanup (fun _ u => failed reason u) t) s := by
  apply (wp_bind_result body _ post failed s).trans
  have cleaned : ∀ (reason : ε) (t : σ),
      Program.wp rule (Program.bind cleanup fun _ => .done (.error reason)) (Covers post failed) t ↔
      Program.wp rule cleanup (fun _ u => failed reason u) t :=
    fun reason t => Program.wp_bind cleanup _ _ t
  simp only [cleaned]
  exact Iff.rfl

theorem wp_mono {body : Trial Call Answer ε α} {post post' : α → σ → Prop}
    {failed failed' : ε → σ → Prop} {s : σ} (holds : wp rule body post failed s)
    (weaken : ∀ value t, post value t → post' value t)
    (weakenFailed : ∀ reason t, failed reason t → failed' reason t) :
    wp rule body post' failed' s := by
  apply Program.wp_mono holds
  intro result t
  cases result with
  | ok value => exact weaken value t
  | error reason => exact weakenFailed reason t

/-- Two things that hold of every run hold of it together. -/
theorem wp_and {k : Kernel Call Answer σ} {body : Trial Call Answer ε α} {post post' : α → σ → Prop}
    {failed failed' : ε → σ → Prop} {s : σ} (one : wp k.rule body post failed s)
    (two : wp k.rule body post' failed' s) :
    wp k.rule body (fun value t => post value t ∧ post' value t)
      (fun reason t => failed reason t ∧ failed' reason t) s := by
  apply Program.wp_mono (Program.wp_and one two)
  intro result t both
  cases result <;> exact both

/-- What the phases say of a program's end, with a state that is related to the last of them. -/
theorem wp_tracks {π : Type} {p : Protocol Call Answer π} {k : Kernel Call Answer σ}
    {related : π → σ → Prop} (tracks : Program.Tracks p k related) {body : Trial Call Answer ε α}
    {post : α → π → Prop} {failed : ε → π → Prop} {phase : π} {s : σ} (start : related phase s)
    (follows : wp p.rule body post failed phase) :
    wp k.rule body (fun value t => ∃ final, related final t ∧ post value final)
      (fun reason t => ∃ final, related final t ∧ failed reason final) s := by
  apply Program.wp_mono (Program.wp_tracks tracks start follows)
  intro result t ended
  cases result <;> exact ended

@[simp] theorem wp_ite (test : Prop) [Decidable test] (left right : Trial Call Answer ε α)
    (post : α → σ → Prop) (failed : ε → σ → Prop) (s : σ) :
    wp rule (if test then left else right) post failed s ↔
      (test → wp rule left post failed s) ∧ (¬ test → wp rule right post failed s) := by
  by_cases holds : test <;> simp [holds]

section Maintains

variable {k : Kernel Call Answer σ} {inv : σ → Prop}

/-- A program whose every call keeps `inv`. -/
def Maintains (k : Kernel Call Answer σ) (inv : σ → Prop) (body : Trial Call Answer ε α) : Prop :=
  ∀ s, inv s → wp (k.always inv) body (fun _ => inv) (fun _ => inv) s

namespace Maintains

theorem pure (value : α) : Maintains k inv (Pure.pure value : Trial Call Answer ε α) :=
  fun _ holds => holds

theorem stop (reason : ε) : Maintains k inv (Trial.stop reason : Trial Call Answer ε α) :=
  fun _ holds => holds

theorem ofExcept (f : δ → ε) (result : Except δ α) : Maintains k inv (Trial.ofExcept f result) := by
  cases result with
  | ok value => exact .pure value
  | error reason => exact .stop (f reason)

theorem perform {request : Call}
    (keeps : ∀ input s, inv s → k.allowed request input s → inv (k.exec request input s).2) :
    Maintains k inv (Trial.perform request : Trial Call Answer ε (Answer request)) :=
  fun s holds input allowed => ⟨keeps input s holds allowed, keeps input s holds allowed⟩

theorem bind {first : Trial Call Answer ε α} {next : α → Trial Call Answer ε β}
    (one : Maintains k inv first) (rest : ∀ value, Maintains k inv (next value)) :
    Maintains k inv (first >>= next) := by
  intro s holds
  rw [wp_bind]
  exact wp_mono (one s holds) (fun value t kept => rest value t kept) fun _ _ kept => kept

theorem ite {test : Prop} [Decidable test] {left right : Trial Call Answer ε α}
    (one : Maintains k inv left) (two : Maintains k inv right) :
    Maintains k inv (if test then left else right) := by
  by_cases holds : test
  · rw [if_pos holds]
    exact one
  · rw [if_neg holds]
    exact two

end Maintains

end Maintains

end Trial

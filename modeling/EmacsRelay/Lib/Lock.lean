import EmacsRelay.Lib.Program
import EmacsRelay.Lib.Reach
import Mathlib.Logic.Function.Basic

set_option autoImplicit false

/- Jobs that each run a program of calls under one lock. Whatever the interleaving, they have run
one after the other, in the order in which they took the lock. -/
namespace Locked

variable {Call : Type} {Answer : Call → Type} {α σ Job : Type}

inductive Status (Call : Type) (Answer : Call → Type) (α : Type) where
  | waiting
  | running (rest : Program Call Answer α)
  | finished (value : α)

/-- The shared state, the lock, and how far each job has come. `order` lists the jobs that have
taken the lock. -/
structure World (Call : Type) (Answer : Call → Type) (α σ Job : Type) where
  state : σ
  holder : Option Job := none
  jobs : Job → Status Call Answer α := fun _ => .waiting
  order : List Job := []

inductive Event (Input Job : Type) where
  | acquire (job : Job)
  | call (job : Job) (input : Input)
  | release (job : Job)

variable [DecidableEq Job] (k : Kernel Call Answer σ) (program : Job → Program Call Answer α)

/-- A job takes the lock when it is free, makes its calls while it holds it, and lets it go when
its program has returned. -/
def step (w : World Call Answer α σ Job) : Event k.Input Job → World Call Answer α σ Job
  | .acquire job =>
      match w.holder, w.jobs job with
      | none, .waiting =>
          { w with
            holder := some job
            jobs := Function.update w.jobs job (.running (program job))
            order := w.order ++ [job] }
      | _, _ => w
  | .call job input =>
      match w.jobs job with
      | .running (.call request next) =>
          if w.holder = some job then
            { w with
              state := (k.exec request input w.state).2
              jobs := Function.update w.jobs job
                (.running (next (k.exec request input w.state).1)) }
          else w
      | _ => w
  | .release job =>
      match w.jobs job with
      | .running (.done value) =>
          if w.holder = some job then
            { w with
              holder := none
              jobs := Function.update w.jobs job (.finished value) }
          else w
      | _ => w

/-- The surroundings may contribute what the kernel allows. -/
def Permitted (w : World Call Answer α σ Job) : Event k.Input Job → Prop
  | .call job input => ∀ request next, w.jobs job = .running (.call request next) →
      k.allowed request input w.state
  | _ => True

/-- Jobs executed one at a time, with what each returned. -/
inductive Serial (s : σ) : List (Job × α) → σ → Prop where
  | nil : Serial s [] s
  | snoc {log : List (Job × α)} {t u : σ} {job : Job} {value : α} (before : Serial s log t)
      (alone : Program.Executes k (program job) t value u) : Serial s (log ++ [(job, value)]) u

/-- The holder of the lock is as far as its program has come since it took it. -/
def Underway (w : World Call Answer α σ Job) (log : List (Job × α)) (t : σ) : Prop :=
  match w.holder with
  | none => w.state = t ∧ w.order = log.map Prod.fst
  | some job => w.order = log.map Prod.fst ++ [job] ∧ job ∉ log.map Prod.fst ∧
      ∃ rest, w.jobs job = .running rest ∧ Program.Steps k (program job) t rest w.state

/-- The world is what the finished jobs, one after the other, have made of it. -/
structure Inv (s : σ) (w : World Call Answer α σ Job) (log : List (Job × α)) (t : σ) : Prop where
  serial : Serial k program s log t
  underway : Underway k program w log t
  finished : ∀ job value, w.jobs job = .finished value ↔ (job, value) ∈ log
  running : ∀ job rest, w.jobs job = .running rest → w.holder = some job
  distinct : (log.map Prod.fst).Nodup

variable {k program} {s t : σ} {w : World Call Answer α σ Job} {log : List (Job × α)}

omit [DecidableEq Job] in
theorem Inv.fresh (inv : Inv k program s w log t) {job : Job} (waiting : w.jobs job = .waiting) :
    job ∉ log.map Prod.fst := by
  intro member
  obtain ⟨⟨other, value⟩, there, same⟩ := List.mem_map.mp member
  cases same
  have done := (inv.finished other value).mpr there
  rw [waiting] at done
  cases done

theorem Inv.acquire (inv : Inv k program s w log t) {job : Job} (free : w.holder = none)
    (waiting : w.jobs job = .waiting) :
    Inv k program s { w with
      holder := some job
      jobs := Function.update w.jobs job (.running (program job))
      order := w.order ++ [job] } log t where
  serial := inv.serial
  underway := by
    have idle := inv.underway
    unfold Underway at idle
    rw [free] at idle
    refine ⟨by rw [idle.2], inv.fresh waiting, program job, Function.update_self _ _ _, ?_⟩
    rw [← idle.1]
    exact .refl
  finished := by
    intro other value
    dsimp only
    by_cases same : other = job
    · rw [same]
      constructor
      · intro running
        rw [Function.update_self] at running
        cases running
      · intro member
        exact absurd (List.mem_map.mpr ⟨_, member, rfl⟩) (inv.fresh waiting)
    · rw [Function.update_of_ne same]
      exact inv.finished other value
  running := by
    intro other rest running
    dsimp only at running ⊢
    by_cases same : other = job
    · rw [same]
    · rw [Function.update_of_ne same] at running
      have holder := inv.running other rest running
      rw [free] at holder
      cases holder
  distinct := inv.distinct

theorem Inv.call (inv : Inv k program s w log t) {job : Job} {request : Call}
    {next : Answer request → Program Call Answer α} {input : k.Input}
    (here : w.jobs job = .running (.call request next)) (holder : w.holder = some job)
    (allowed : k.allowed request input w.state) :
    Inv k program s { w with
      state := (k.exec request input w.state).2
      jobs := Function.update w.jobs job (.running (next (k.exec request input w.state).1)) }
      log t where
  serial := inv.serial
  underway := by
    have busy := inv.underway
    unfold Underway at busy ⊢
    rw [holder] at busy
    obtain ⟨order, fresh, rest, running, steps⟩ := busy
    rw [here] at running
    cases running
    dsimp only
    rw [holder]
    exact ⟨order, fresh, _, Function.update_self _ _ _, .call input steps allowed⟩
  finished := by
    intro other value
    dsimp only
    by_cases same : other = job
    · rw [same, Function.update_self]
      constructor
      · intro running
        cases running
      · intro member
        have done := (inv.finished job value).mpr member
        rw [here] at done
        cases done
    · rw [Function.update_of_ne same]
      exact inv.finished other value
  running := by
    intro other rest running
    dsimp only at running ⊢
    by_cases same : other = job
    · rw [same]
      exact holder
    · rw [Function.update_of_ne same] at running
      exact inv.running other rest running
  distinct := inv.distinct

theorem Inv.release (inv : Inv k program s w log t) {job : Job} {value : α}
    (here : w.jobs job = .running (.done value)) (holder : w.holder = some job) :
    Inv k program s { w with
      holder := none
      jobs := Function.update w.jobs job (.finished value) } (log ++ [(job, value)]) w.state := by
  have busy := inv.underway
  unfold Underway at busy
  rw [holder] at busy
  obtain ⟨order, fresh, rest, running, steps⟩ := busy
  rw [here] at running
  cases running
  refine ⟨.snoc inv.serial steps, ⟨rfl, by rw [order]; simp⟩, ?_, ?_, ?_⟩
  · intro other result
    dsimp only
    by_cases same : other = job
    · rw [same, Function.update_self]
      constructor
      · intro done
        cases done
        simp
      · intro member
        rcases List.mem_append.mp member with old | new
        · exact absurd (List.mem_map.mpr ⟨_, old, rfl⟩) fresh
        · cases List.mem_singleton.mp new
          rfl
    · rw [Function.update_of_ne same, inv.finished other result, List.mem_append]
      constructor
      · exact Or.inl
      · intro member
        rcases member with old | new
        · exact old
        · cases List.mem_singleton.mp new
          exact absurd rfl same
  · intro other rest running
    dsimp only at running
    by_cases same : other = job
    · rw [same, Function.update_self] at running
      cases running
    · rw [Function.update_of_ne same] at running
      have holds := inv.running other rest running
      rw [holder] at holds
      exact absurd (Option.some.inj holds).symm same
  · rw [List.map_append, List.nodup_append]
    refine ⟨inv.distinct, by simp, ?_⟩
    intro a member b single
    have last : b = job := by simpa using single
    rw [last]
    intro same
    exact fresh (same ▸ member)

theorem step_inv (inv : Inv k program s w log t) {event : Event k.Input Job}
    (permitted : Permitted k w event) : ∃ log t, Inv k program s (step k program w event) log t := by
  cases event with
  | acquire job =>
      simp only [step]
      split
      · rename_i free waiting
        exact ⟨log, t, inv.acquire free waiting⟩
      · exact ⟨log, t, inv⟩
  | call job input =>
      simp only [step]
      split
      · rename_i request next here
        by_cases holder : w.holder = some job
        · rw [if_pos holder]
          exact ⟨log, t, inv.call here holder (permitted request next here)⟩
        · rw [if_neg holder]
          exact ⟨log, t, inv⟩
      · exact ⟨log, t, inv⟩
  | release job =>
      simp only [step]
      split
      · rename_i value here
        by_cases holder : w.holder = some job
        · rw [if_pos holder]
          exact ⟨_, _, inv.release here holder⟩
        · rw [if_neg holder]
          exact ⟨log, t, inv⟩
      · exact ⟨log, t, inv⟩

omit [DecidableEq Job] in
theorem start_inv (s : σ) : Inv k program s { state := s } [] s where
  serial := .nil
  underway := ⟨rfl, rfl⟩
  finished := by simp
  running := by simp
  distinct := by simp

/-- Once the lock is free, the jobs that took it have run one at a time, in that order, with the
results they returned. -/
theorem serial_of_reaches
    (reached : Reaches (step k program) (Permitted k) { state := s } w) (free : w.holder = none) :
    ∃ log, Serial k program s log w.state ∧ w.order = log.map Prod.fst ∧
      ∀ job value, w.jobs job = .finished value ↔ (job, value) ∈ log := by
  have inv : ∃ log t, Inv k program s w log t := by
    apply reached.invariant ⟨[], s, start_inv s⟩
    rintro v event ⟨log, t, inv⟩ permitted
    exact step_inv inv permitted
  obtain ⟨log, t, inv⟩ := inv
  have idle := inv.underway
  unfold Underway at idle
  rw [free] at idle
  exact ⟨log, idle.1 ▸ inv.serial, idle.2, inv.finished⟩

end Locked

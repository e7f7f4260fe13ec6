import EmacsRelay.Lib.Reach
import Mathlib.Algebra.BigOperators.Group.Finset.Basic
import Mathlib.Algebra.Order.BigOperators.Group.Finset
import Mathlib.Data.Fintype.Option
import Mathlib.Data.List.Perm.Basic
import Mathlib.Data.Prod.Lex
import Mathlib.Logic.Function.Basic

set_option autoImplicit false

/- Requests that one reader takes in and hands to workers, and what they are answered, which one
writer puts out. The queue to the workers and the one to the writer are bounded. -/

/-- However the machine goes on, by events that are allowed where they happen, it reaches a state
of this kind. -/
inductive Inevitable {σ ι : Type} (advance : σ → ι → Option σ) (allowed : σ → ι → Prop)
    (goal : σ → Prop) : σ → Prop where
  | here {s : σ} (reached : goal s) : Inevitable advance allowed goal s
  | later {s : σ} (enabled : ∃ event t, allowed s event ∧ advance s event = some t)
      (always : ∀ event t, allowed s event → advance s event = some t →
        Inevitable advance allowed goal t) : Inevitable advance allowed goal s

/-- A machine that is not stuck short of the goal, and whose steps use up a measure, gets there. -/
theorem Inevitable.of_measure {σ ι α : Type} {advance : σ → ι → Option σ} {allowed : σ → ι → Prop}
    {goal : σ → Prop} {less : α → α → Prop} (inv : σ → Prop) (founded : WellFounded less) (size : σ → α)
    (keep : ∀ s event t, inv s → allowed s event → advance s event = some t →
      inv t ∧ less (size t) (size s))
    (enabled : ∀ s, inv s → ¬ goal s → ∃ event t, allowed s event ∧ advance s event = some t)
    {s : σ} (holds : inv s) : Inevitable advance allowed goal s := by
  induction same : size s using founded.induction generalizing s with
  | _ amount ih =>
      by_cases reached : goal s
      · exact .here reached
      · refine .later (enabled s holds reached) fun event t permitted moved => ?_
        obtain ⟨kept, smaller⟩ := keep s event t holds permitted moved
        exact ih (size t) (same ▸ smaller) kept rfl

theorem Inevitable.mono {σ ι : Type} {advance : σ → ι → Option σ} {allowed : σ → ι → Prop}
    {goal goal' : σ → Prop} (weaken : ∀ s, goal s → goal' s) {s : σ}
    (inevitable : Inevitable advance allowed goal s) : Inevitable advance allowed goal' s := by
  induction inevitable with
  | here reached => exact .here (weaken _ reached)
  | later enabled _ ih => exact .later enabled ih

/-- The threads are the workers and, as `none`, the reader. A thread with a task has the request
and the messages that it has still to put into the outbox. `sent` and `begun` record the requests
that came, and those that a thread has begun to answer, with the whole of the answer. -/
structure Pool (Req Msg Worker : Type) where
  inbox : List Req := []
  held : Option Req := none
  jobs : List Req := []
  tasks : Option Worker → Option (Req × List Msg) := fun _ => none
  outbox : List Msg := []
  output : List Msg := []
  sent : List Req := []
  begun : List (Req × List Msg) := []

/-- The capacities of the two queues, and which requests the reader answers itself. -/
structure Pool.Design (Req : Type) where
  queue : Nat
  outbox : Nat
  inline : Req → Bool

namespace Pool

variable {Req Msg Worker : Type}

inductive Event (Req Msg Worker : Type) where
  | send (request : Req)
  /-- A message that answers no request. -/
  | announce (message : Msg)
  /-- The reader takes in a request; if it answers that itself, `answers` is what it will say. -/
  | read (answers : List Msg)
  /-- The reader puts the request that it holds into the queue. -/
  | hand
  | take (worker : Worker) (answers : List Msg)
  | put (thread : Option Worker)
  /-- A thread has put out all it had to. -/
  | finish (thread : Option Worker)
  | write

def Event.isInternal : Event Req Msg Worker → Bool
  | .send _ => false
  | .announce _ => false
  | _ => true

variable [DecidableEq Worker] (d : Design Req)

@[simp] def setTask (p : Pool Req Msg Worker) (thread : Option Worker)
    (task : Option (Req × List Msg)) : Pool Req Msg Worker :=
  { p with tasks := Function.update p.tasks thread task }

def start (p : Pool Req Msg Worker) (thread : Option Worker) (request : Req)
    (answers : List Msg) : Pool Req Msg Worker :=
  { p with
    tasks := Function.update p.tasks thread (some (request, answers))
    begun := p.begun ++ [(request, answers)] }

/-- What an event does, where it can happen. -/
def advance (p : Pool Req Msg Worker) : Event Req Msg Worker → Option (Pool Req Msg Worker)
  | .send request => some { p with inbox := p.inbox ++ [request], sent := p.sent ++ [request] }
  | .announce message =>
      if p.outbox.length < d.outbox then some { p with outbox := p.outbox ++ [message] } else none
  | .read answers =>
      match p.held, p.tasks none, p.inbox with
      | none, none, request :: rest =>
          if d.inline request then some ({ p with inbox := rest }.start none request answers)
          else some { p with inbox := rest, held := some request }
      | _, _, _ => none
  | .hand =>
      match p.held with
      | some request =>
          if p.jobs.length < d.queue then
            some { p with held := none, jobs := p.jobs ++ [request] }
          else none
      | none => none
  | .take worker answers =>
      match p.tasks (some worker), p.jobs with
      | none, request :: rest => some ({ p with jobs := rest }.start (some worker) request answers)
      | _, _ => none
  | .put thread =>
      match p.tasks thread with
      | some (request, message :: left) =>
          if p.outbox.length < d.outbox then
            some { p.setTask thread (some (request, left)) with outbox := p.outbox ++ [message] }
          else none
      | _ => none
  | .finish thread =>
      match p.tasks thread with
      | some (_, []) => some (p.setTask thread none)
      | _ => none
  | .write =>
      match p.outbox with
      | message :: rest => some { p with outbox := rest, output := p.output ++ [message] }
      | [] => none

/-- An event that cannot happen changes nothing. -/
def step (p : Pool Req Msg Worker) (event : Event Req Msg Worker) : Pool Req Msg Worker :=
  (p.advance d event).getD p

/-- All that a step can do. -/
inductive Move (p : Pool Req Msg Worker) : Event Req Msg Worker → Pool Req Msg Worker → Prop where
  | send (request : Req) :
      Move p (.send request) { p with inbox := p.inbox ++ [request], sent := p.sent ++ [request] }
  | announce (message : Msg) :
      Move p (.announce message) { p with outbox := p.outbox ++ [message] }
  | answer {request : Req} {rest : List Req} (answers : List Msg) (free : p.held = none)
      (idle : p.tasks none = none) (next : p.inbox = request :: rest)
      (own : d.inline request = true) :
      Move p (.read answers) ({ p with inbox := rest }.start none request answers)
  | hold {request : Req} {rest : List Req} (answers : List Msg) (free : p.held = none)
      (next : p.inbox = request :: rest) :
      Move p (.read answers) { p with inbox := rest, held := some request }
  | hand {request : Req} (held : p.held = some request) :
      Move p .hand { p with held := none, jobs := p.jobs ++ [request] }
  | take {request : Req} {rest : List Req} (worker : Worker) (answers : List Msg)
      (idle : p.tasks (some worker) = none) (next : p.jobs = request :: rest) :
      Move p (.take worker answers) ({ p with jobs := rest }.start (some worker) request answers)
  | put {thread : Option Worker} {request : Req} {message : Msg} {left : List Msg}
      (busy : p.tasks thread = some (request, message :: left)) :
      Move p (.put thread)
        { p.setTask thread (some (request, left)) with outbox := p.outbox ++ [message] }
  | finish {thread : Option Worker} {request : Req} (busy : p.tasks thread = some (request, [])) :
      Move p (.finish thread) (p.setTask thread none)
  | write {message : Msg} {rest : List Msg} (next : p.outbox = message :: rest) :
      Move p .write { p with outbox := rest, output := p.output ++ [message] }

variable {d} {p q : Pool Req Msg Worker} {event : Event Req Msg Worker}

theorem move_of_advance (moved : p.advance d event = some q) : p.Move d event q := by
  cases event with
  | send request =>
      cases moved
      exact .send request
  | announce message =>
      simp only [advance] at moved
      split at moved
      · cases moved
        exact .announce message
      · cases moved
  | read answers =>
      simp only [advance] at moved
      split at moved
      · rename_i free idle next
        split at moved
        · rename_i own
          cases moved
          exact .answer answers free idle next own
        · cases moved
          exact .hold answers free next
      · cases moved
  | hand =>
      simp only [advance] at moved
      split at moved
      · rename_i held
        split at moved
        · cases moved
          exact .hand held
        · cases moved
      · cases moved
  | take worker answers =>
      simp only [advance] at moved
      split at moved
      · rename_i idle next
        cases moved
        exact .take worker answers idle next
      · cases moved
  | put thread =>
      simp only [advance] at moved
      split at moved
      · rename_i busy
        split at moved
        · cases moved
          exact .put busy
        · cases moved
      · cases moved
  | finish thread =>
      simp only [advance] at moved
      split at moved
      · rename_i busy
        cases moved
        exact .finish busy
      · cases moved
  | write =>
      simp only [advance] at moved
      split at moved
      · rename_i next
        cases moved
        exact .write next
      · cases moved

/-- Nothing is left to be done. -/
structure Drained (p : Pool Req Msg Worker) : Prop where
  inbox : p.inbox = []
  held : p.held = none
  jobs : p.jobs = []
  tasks : ∀ thread, p.tasks thread = none
  outbox : p.outbox = []

section Accounts

variable {κ : Type} [DecidableEq κ] (Answers : Req → List Msg → Prop) (keyOf : Req → κ)
  (key : Msg → Option κ)

/-- What surroundings and threads contribute: a request has a key of its own, a message that
answers none has none, and a thread answers as requests are answered. -/
def Allows (p : Pool Req Msg Worker) : Event Req Msg Worker → Prop
  | .send request => keyOf request ∉ p.sent.map keyOf
  | .announce message => key message = none
  | .read answers => ∀ request rest, p.inbox = request :: rest → Answers request answers
  | .take _ answers => ∀ request rest, p.jobs = request :: rest → Answers request answers
  | _ => True

/-- What has been put out under a key, in order. -/
def told (p : Pool Req Msg Worker) (k : κ) : List Msg :=
  (p.output ++ p.outbox).filter fun message => decide (key message = some k)

/-- Every request is in one place, and what has been said to it is what a thread had to say, less
what that still has to put out. -/
structure Accounted (p : Pool Req Msg Worker) : Prop where
  requests : p.sent.Perm
    (p.begun.map Prod.fst ++ (p.jobs ++ (p.held.toList ++ p.inbox)))
  distinct : (p.sent.map keyOf).Nodup
  answered : ∀ b ∈ p.begun, Answers b.1 b.2
  going : ∀ thread request left, p.tasks thread = some (request, left) →
    (request, p.told key (keyOf request) ++ left) ∈ p.begun
  ended : ∀ b ∈ p.begun, (∀ thread left, p.tasks thread ≠ some (b.1, left)) →
    p.told key (keyOf b.1) = b.2
  alone : ∀ thread other request left left', p.tasks thread = some (request, left) →
    p.tasks other = some (request, left') → thread = other
  known : ∀ message ∈ p.output ++ p.outbox, ∀ k, key message = some k →
    ∃ b ∈ p.begun, keyOf b.1 = k

variable {Answers keyOf key} {p q : Pool Req Msg Worker} {event : Event Req Msg Worker}

omit [DecidableEq Worker] in
theorem Accounted.begun_unique (accounted : p.Accounted Answers keyOf key)
    {b c : Req × List Msg} (first : b ∈ p.begun) (second : c ∈ p.begun)
    (same : keyOf b.1 = keyOf c.1) : b.1 = c.1 := by
  have distinct := (accounted.requests.map keyOf).nodup_iff.mp accounted.distinct
  rw [List.map_append, List.nodup_append] at distinct
  exact List.inj_on_of_nodup_map distinct.1 (List.mem_map_of_mem first) (List.mem_map_of_mem second)
    same

omit [DecidableEq Worker] in
theorem Accounted.begun_distinct (accounted : p.Accounted Answers keyOf key)
    {b c : Req × List Msg} (first : b ∈ p.begun) (second : c ∈ p.begun) (same : b.1 = c.1) :
    b = c := by
  have distinct := (accounted.requests.map keyOf).nodup_iff.mp accounted.distinct
  rw [List.map_append, List.nodup_append, List.map_map] at distinct
  exact List.inj_on_of_nodup_map distinct.1 first second (congrArg keyOf same)

omit [DecidableEq Worker] in
/-- A request that no thread has begun to answer has a key of its own. -/
theorem Accounted.waiting_fresh (accounted : p.Accounted Answers keyOf key) {request : Req}
    (waits : request ∈ p.jobs ++ (p.held.toList ++ p.inbox)) {b : Req × List Msg}
    (begun : b ∈ p.begun) : keyOf b.1 ≠ keyOf request := by
  have distinct := (accounted.requests.map keyOf).nodup_iff.mp accounted.distinct
  rw [List.map_append, List.nodup_append] at distinct
  exact distinct.2.2 _ (List.mem_map_of_mem (List.mem_map_of_mem begun)) _ (List.mem_map_of_mem waits)

omit [DecidableEq Worker] in
theorem Accounted.untold (accounted : p.Accounted Answers keyOf key) {request : Req}
    (waits : request ∈ p.jobs ++ (p.held.toList ++ p.inbox)) :
    p.told key (keyOf request) = [] := by
  apply List.filter_eq_nil_iff.mpr
  intro message member
  have other : key message ≠ some (keyOf request) := by
    intro same
    obtain ⟨b, begun, own⟩ := accounted.known message member _ same
    exact accounted.waiting_fresh waits begun own
  simpa using other

/-- A thread that has nothing to do begins to answer a request that waits. -/
theorem Accounted.start (accounted : p.Accounted Answers keyOf key) {request : Req}
    {answers : List Msg} {thread : Option Worker} {q : Pool Req Msg Worker}
    (waits : request ∈ p.jobs ++ (p.held.toList ++ p.inbox)) (idle : p.tasks thread = none)
    (proper : Answers request answers)
    (places : (p.jobs ++ (p.held.toList ++ p.inbox)).Perm
      (request :: (q.jobs ++ (q.held.toList ++ q.inbox))))
    (sent : q.sent = p.sent) (begun : q.begun = p.begun) (tasks : q.tasks = p.tasks)
    (outbox : q.outbox = p.outbox) (output : q.output = p.output) :
    (q.start thread request answers).Accounted Answers keyOf key := by
  have same : ∀ k, (q.start thread request answers).told key k = p.told key k := by
    intro k
    simp only [told, Pool.start, outbox, output]
  have fresh : ∀ b ∈ p.begun, b.1 ≠ request := by
    intro b member own
    exact accounted.waiting_fresh waits member (own ▸ rfl)
  constructor
  case requests =>
    simp only [Pool.start, sent, begun, List.map_append, List.map_cons, List.map_nil]
    rw [List.append_assoc]
    exact accounted.requests.trans (List.Perm.append_left _ places)
  case distinct =>
    simp only [Pool.start, sent]
    exact accounted.distinct
  case answered =>
    intro b member
    simp only [Pool.start, begun] at member
    rcases List.mem_append.mp member with before | new
    · exact accounted.answered b before
    · rw [List.mem_singleton.mp new]
      exact proper
  case going =>
    intro other asked left busy
    rw [same]
    simp only [Pool.start, tasks, begun] at busy ⊢
    by_cases own : other = thread
    · rw [own, Function.update_self] at busy
      cases busy
      rw [accounted.untold waits]
      exact List.mem_append_right _ (List.mem_singleton_self _)
    · rw [Function.update_of_ne own] at busy
      exact List.mem_append_left _ (accounted.going other asked left busy)
  case ended =>
    intro b member unclaimed
    rw [same]
    simp only [Pool.start, begun, tasks] at member unclaimed
    rcases List.mem_append.mp member with before | new
    · apply accounted.ended b before
      intro other left busy
      have elsewhere : other ≠ thread := by
        rintro rfl
        rw [idle] at busy
        cases busy
      exact unclaimed other left (by rw [Function.update_of_ne elsewhere, busy])
    · rw [List.mem_singleton.mp new] at unclaimed
      exact absurd (Function.update_self _ _ _) (unclaimed thread answers)
  case alone =>
    intro one two asked left left' first second
    simp only [Pool.start, tasks] at first second
    have other : ∀ there, there ≠ thread → ∀ rest,
        Function.update p.tasks thread (some (request, answers)) there = some (asked, rest) →
        p.tasks there = some (asked, rest) ∧ asked ≠ request := by
      intro there elsewhere rest busy
      rw [Function.update_of_ne elsewhere] at busy
      exact ⟨busy, fresh _ (accounted.going there asked rest busy)⟩
    by_cases here : one = thread
    · by_cases there : two = thread
      · rw [here, there]
      · rw [here, Function.update_self] at first
        cases first
        exact absurd rfl (other two there _ second).2
    · by_cases there : two = thread
      · rw [there, Function.update_self] at second
        cases second
        exact absurd rfl (other one here _ first).2
      · exact accounted.alone one two asked left left' (other one here _ first).1
          (other two there _ second).1
  case known =>
    intro message member k named
    simp only [Pool.start, outbox, output, begun] at member ⊢
    obtain ⟨b, before, own⟩ := accounted.known message member k named
    exact ⟨b, List.mem_append_left _ before, own⟩

omit [DecidableEq Worker] in
/-- A step that neither begins a request nor says anything. -/
theorem Accounted.moved (accounted : p.Accounted Answers keyOf key) {q : Pool Req Msg Worker}
    (sent : q.sent = p.sent) (begun : q.begun = p.begun) (tasks : q.tasks = p.tasks)
    (said : q.output ++ q.outbox = p.output ++ p.outbox)
    (places : (p.jobs ++ (p.held.toList ++ p.inbox)).Perm
      (q.jobs ++ (q.held.toList ++ q.inbox))) : q.Accounted Answers keyOf key := by
  have same : ∀ k, q.told key k = p.told key k := by
    intro k
    rw [told, said, told]
  constructor
  case requests =>
    rw [sent, begun]
    exact accounted.requests.trans (List.Perm.append_left _ places)
  case distinct =>
    rw [sent]
    exact accounted.distinct
  case answered =>
    rw [begun]
    exact accounted.answered
  case going =>
    intro thread request left busy
    rw [same, begun]
    exact accounted.going thread request left (tasks ▸ busy)
  case ended =>
    intro b member unclaimed
    rw [same]
    exact accounted.ended b (begun ▸ member) (tasks ▸ unclaimed)
  case alone =>
    rw [tasks]
    exact accounted.alone
  case known =>
    rw [said, begun]
    exact accounted.known

omit [DecidableEq Worker] in
/-- A message that answers no request. -/
theorem Accounted.announce (accounted : p.Accounted Answers keyOf key) {message : Msg}
    (unnamed : key message = none) :
    ({ p with outbox := p.outbox ++ [message] } : Pool Req Msg Worker).Accounted Answers keyOf
      key := by
  have same : ∀ k, told key ({ p with outbox := p.outbox ++ [message] } : Pool Req Msg Worker) k =
      p.told key k := by
    intro k
    simp [told, unnamed]
  constructor
  case requests => exact accounted.requests
  case distinct => exact accounted.distinct
  case answered => exact accounted.answered
  case going =>
    intro thread request left busy
    rw [same]
    exact accounted.going thread request left busy
  case ended =>
    intro b member unclaimed
    rw [same]
    exact accounted.ended b member unclaimed
  case alone => exact accounted.alone
  case known =>
    intro other member k named
    dsimp only at member
    rw [← List.append_assoc] at member
    rcases List.mem_append.mp member with before | new
    · exact accounted.known other before k named
    · rw [List.mem_singleton.mp new, unnamed] at named
      cases named

theorem Accounted.put (keyed : ∀ request answers, Answers request answers →
      ∀ message ∈ answers, key message = some (keyOf request))
    (accounted : p.Accounted Answers keyOf key) {thread : Option Worker} {request : Req}
    {message : Msg} {left : List Msg} (busy : p.tasks thread = some (request, message :: left)) :
    ({ p.setTask thread (some (request, left)) with outbox := p.outbox ++ [message] } :
      Pool Req Msg Worker).Accounted Answers keyOf key := by
  have begun := accounted.going thread request _ busy
  have named : key message = some (keyOf request) := by
    apply keyed _ _ (accounted.answered _ begun)
    exact List.mem_append_right _ List.mem_cons_self
  let q : Pool Req Msg Worker :=
    { p.setTask thread (some (request, left)) with outbox := p.outbox ++ [message] }
  have said : q.told key (keyOf request) = p.told key (keyOf request) ++ [message] := by
    simp [q, told, named]
  have same : ∀ k, k ≠ keyOf request → q.told key k = p.told key k := by
    intro k other
    simp [q, told, named, Ne.symm other]
  have elsewhere : ∀ other asked rest, other ≠ thread → p.tasks other = some (asked, rest) →
      keyOf asked ≠ keyOf request := by
    intro other asked rest apart claims own
    have one : asked = request :=
      accounted.begun_unique (accounted.going other asked rest claims) begun own
    exact apart (accounted.alone other thread request rest _ (one ▸ claims) busy)
  constructor
  case requests => exact accounted.requests
  case distinct => exact accounted.distinct
  case answered => exact accounted.answered
  case going =>
    intro other asked rest claims
    by_cases own : other = thread
    · simp only [own, setTask, Function.update_self, Option.some.injEq, Prod.mk.injEq] at claims
      obtain ⟨rfl, rfl⟩ := claims
      show (request, q.told key (keyOf request) ++ left) ∈ p.begun
      rw [said, List.append_assoc]
      exact begun
    · simp only [setTask, Function.update_of_ne own] at claims
      show (asked, q.told key (keyOf asked) ++ rest) ∈ p.begun
      rw [same _ (elsewhere other asked rest own claims)]
      exact accounted.going other asked rest claims
  case ended =>
    intro b member unclaimed
    have other : keyOf b.1 ≠ keyOf request := by
      intro own
      have one : b.1 = request := accounted.begun_unique member begun own
      exact unclaimed thread left (by rw [one]; simp)
    show q.told key (keyOf b.1) = b.2
    rw [same _ other]
    apply accounted.ended b member
    intro there rest claims
    by_cases own : there = thread
    · rw [own, busy] at claims
      cases claims
      exact other rfl
    · exact unclaimed there rest (by simp [own, claims])
  case alone =>
    intro one two asked rest rest' first second
    have before : ∀ there rest, Function.update p.tasks thread (some (request, left)) there =
        some (asked, rest) → ∃ rest, p.tasks there = some (asked, rest) := by
      intro there rest claims
      by_cases own : there = thread
      · rw [own, Function.update_self] at claims
        cases claims
        exact ⟨_, own ▸ busy⟩
      · rw [Function.update_of_ne own] at claims
        exact ⟨rest, claims⟩
    obtain ⟨left, first⟩ := before one rest first
    obtain ⟨left', second⟩ := before two rest' second
    exact accounted.alone one two asked left left' first second
  case known =>
    intro other member k own
    simp only [setTask] at member ⊢
    rw [← List.append_assoc] at member
    rcases List.mem_append.mp member with before | new
    · exact accounted.known other before k own
    · rw [List.mem_singleton.mp new, named] at own
      exact ⟨_, begun, Option.some.inj own⟩

theorem Accounted.finish (accounted : p.Accounted Answers keyOf key) {thread : Option Worker}
    {request : Req} (busy : p.tasks thread = some (request, [])) :
    (p.setTask thread none).Accounted Answers keyOf key := by
  have begun := accounted.going thread request _ busy
  rw [List.append_nil] at begun
  have before : ∀ there asked rest, Function.update p.tasks thread none there =
      some (asked, rest) → there ≠ thread ∧ p.tasks there = some (asked, rest) := by
    intro there asked rest claims
    by_cases own : there = thread
    · rw [own, Function.update_self] at claims
      cases claims
    · rw [Function.update_of_ne own] at claims
      exact ⟨own, claims⟩
  constructor
  case requests => exact accounted.requests
  case distinct => exact accounted.distinct
  case answered => exact accounted.answered
  case going =>
    intro there asked rest claims
    exact accounted.going there asked rest (before there asked rest claims).2
  case ended =>
    intro b member unclaimed
    by_cases own : b.1 = request
    · -- the request that is over has nothing left to be said
      have two := accounted.begun_distinct member begun own
      rw [two]
      rfl
    · apply accounted.ended b member
      intro there rest claims
      apply unclaimed there rest
      have apart : there ≠ thread := by
        rintro rfl
        rw [busy] at claims
        cases claims
        exact own rfl
      simp [apart, claims]
  case alone =>
    intro one two asked rest rest' first second
    exact accounted.alone one two asked rest rest' (before one asked rest first).2
      (before two asked rest' second).2
  case known => exact accounted.known

omit [DecidableEq Worker] in
theorem accounted_start : ({} : Pool Req Msg Worker).Accounted Answers keyOf key where
  requests := .nil
  distinct := .nil
  answered := nofun
  going := nofun
  ended := nofun
  alone := nofun
  known := nofun

theorem accounted_advance (keyed : ∀ request answers, Answers request answers →
      ∀ message ∈ answers, key message = some (keyOf request))
    (accounted : p.Accounted Answers keyOf key) (allowed : p.Allows Answers keyOf key event)
    (moved : p.advance d event = some q) : q.Accounted Answers keyOf key := by
  cases move_of_advance moved with
  | send request =>
      constructor
      case requests =>
        have more := accounted.requests.append_right [request]
        simpa only [List.append_assoc] using more
      case distinct =>
        dsimp only
        rw [List.map_append, List.nodup_append]
        refine ⟨accounted.distinct, List.nodup_singleton _, ?_⟩
        intro k member other single same
        rw [same, List.mem_singleton.mp single] at member
        exact allowed member
      case answered => exact accounted.answered
      case going => exact accounted.going
      case ended => exact accounted.ended
      case alone => exact accounted.alone
      case known => exact accounted.known
  | announce message => exact accounted.announce allowed
  | answer answers free idle next own =>
      refine accounted.start ?_ idle (allowed _ _ next) ?_ rfl rfl rfl rfl rfl
      · simp [next]
      · rw [next, free, ← List.append_assoc, ← List.append_assoc]
        exact List.perm_middle
  | hold answers free next =>
      refine accounted.moved rfl rfl rfl rfl ?_
      rw [next, free]
      exact .refl _
  | hand held =>
      refine accounted.moved rfl rfl rfl rfl ?_
      rw [held]
      simp
  | take worker answers idle next =>
      refine accounted.start ?_ idle (allowed _ _ next) ?_ rfl rfl rfl rfl rfl
      · simp [next]
      · rw [next]
        exact .refl _
  | put busy => exact accounted.put keyed busy
  | finish busy => exact accounted.finish busy
  | write next =>
      refine accounted.moved rfl rfl rfl ?_ (.refl _)
      rw [next, List.append_assoc]
      rfl

theorem accounted_step (keyed : ∀ request answers, Answers request answers →
      ∀ message ∈ answers, key message = some (keyOf request))
    (accounted : p.Accounted Answers keyOf key) (allowed : p.Allows Answers keyOf key event) :
    (p.step d event).Accounted Answers keyOf key := by
  unfold step
  cases moved : p.advance d event with
  | none => exact accounted
  | some q => exact accounted_advance keyed accounted allowed moved

theorem accounted_reached (keyed : ∀ request answers, Answers request answers →
      ∀ message ∈ answers, key message = some (keyOf request))
    (reached : Reaches (step d) (Allows Answers keyOf key) {} p) : p.Accounted Answers keyOf key :=
  reached.invariant accounted_start fun _ _ accounted allowed => accounted_step keyed accounted allowed

omit [DecidableEq Worker] in
/-- What has been put out to a request is the beginning of one answer to it, in order. -/
theorem Accounted.told_begins (accounted : p.Accounted Answers keyOf key) {request : Req}
    (sent : request ∈ p.sent) :
    p.told key (keyOf request) = [] ∨ ∃ answers rest, Answers request answers ∧
      answers = p.told key (keyOf request) ++ rest := by
  have place := accounted.requests.mem_iff.mp sent
  rcases List.mem_append.mp place with begun | waits
  · obtain ⟨b, member, rfl⟩ := List.mem_map.mp begun
    right
    by_cases claimed : ∃ thread left, p.tasks thread = some (b.1, left)
    · obtain ⟨thread, left, busy⟩ := claimed
      have begun := accounted.answered _ (accounted.going thread b.1 left busy)
      exact ⟨p.told key (keyOf b.1) ++ left, left, begun, rfl⟩
    · have ended := accounted.ended b member fun thread left busy => claimed ⟨thread, left, busy⟩
      exact ⟨b.2, [], accounted.answered b member, by rw [ended, List.append_nil]⟩
  · exact .inl (accounted.untold waits)

omit [DecidableEq Worker] in
/-- Once nothing is left to be done, every request has been answered in full. -/
theorem Accounted.told_all (accounted : p.Accounted Answers keyOf key) (drained : p.Drained)
    {request : Req} (sent : request ∈ p.sent) :
    Answers request (p.told key (keyOf request)) := by
  have place := accounted.requests.mem_iff.mp sent
  rw [drained.jobs, drained.held, drained.inbox] at place
  simp only [Option.toList_none, List.append_nil] at place
  obtain ⟨b, member, rfl⟩ := List.mem_map.mp place
  have ended := accounted.ended b member fun thread left busy => by
    rw [drained.tasks thread] at busy
    cases busy
  rw [ended]
  exact accounted.answered b member

end Accounts

section Progress

variable [Fintype Worker]

/-- Requests that are still to be begun, each with the moves that it has before it. -/
def backlog (p : Pool Req Msg Worker) : Nat :=
  3 * p.inbox.length + 2 * p.held.toList.length + p.jobs.length

/-- Messages that are still to be put into the outbox, and one for each thread that is to finish. -/
def unsaid (p : Pool Req Msg Worker) : Nat :=
  ∑ thread : Option Worker, (p.tasks thread).elim 0 fun task => task.2.length + 1

abbrev size (p : Pool Req Msg Worker) : Nat ×ₗ Nat ×ₗ Nat :=
  toLex (p.backlog, toLex (p.unsaid, p.outbox.length))

theorem unsaid_setTask {p : Pool Req Msg Worker} {thread : Option Worker}
    {task : Option (Req × List Msg)}
    (less : task.elim 0 (fun task => task.2.length + 1) <
      (p.tasks thread).elim 0 fun task => task.2.length + 1) :
    (p.setTask thread task).unsaid < p.unsaid := by
  apply Finset.sum_lt_sum
  · intro other _
    by_cases own : other = thread
    · simp only [own, setTask, Function.update_self]
      omega
    · simp [own]
  · exact ⟨thread, Finset.mem_univ _, by simpa using less⟩

theorem size_advance {p q : Pool Req Msg Worker} {event : Event Req Msg Worker}
    (internal : event.isInternal = true) (moved : p.advance d event = some q) :
    q.size < p.size := by
  have first : ∀ {a b c a' b' c' : Nat}, a < a' →
      toLex (a, toLex (b, c)) < toLex (a', toLex (b', c')) := fun less => Prod.Lex.left _ _ less
  have second : ∀ {a b c b' c' : Nat}, b < b' →
      toLex (a, toLex (b, c)) < toLex (a, toLex (b', c')) :=
    fun less => Prod.Lex.right _ (Prod.Lex.left _ _ less)
  cases move_of_advance moved with
  | send request => cases internal
  | announce message => cases internal
  | answer answers free idle next own =>
      apply first
      simp [backlog, Pool.start, next]
  | hold answers free next =>
      apply first
      simp [backlog, next, free]
      omega
  | hand held =>
      apply first
      simp [backlog, held]
      omega
  | take worker answers idle next =>
      apply first
      simp [backlog, Pool.start, next]
  | put busy =>
      apply second
      apply unsaid_setTask
      simp [busy]
  | finish busy =>
      apply second
      apply unsaid_setTask
      simp [busy]
  | write next =>
      apply Prod.Lex.right
      apply Prod.Lex.right
      simp [next]

variable {κ : Type} {Answers : Req → List Msg → Prop} {keyOf : Req → κ} {key : Msg → Option κ}

variable (Answers keyOf key) in
/-- The threads alone go on: nothing is sent, and nothing is announced. -/
def Works (p : Pool Req Msg Worker) (event : Event Req Msg Worker) : Prop :=
  event.isInternal = true ∧ p.Allows Answers keyOf key event

omit [Fintype Worker] in
/-- As long as anything is left to be done, some thread can go on, however small the queues. -/
theorem enabled_of_busy [Nonempty Worker] (answerable : ∀ request, ∃ answers, Answers request answers)
    (queue : 0 < d.queue) (room : 0 < d.outbox) (p : Pool Req Msg Worker) (busy : ¬ p.Drained) :
    ∃ event q, p.Works Answers keyOf key event ∧ p.advance d event = some q := by
  cases outbox : p.outbox with
  | cons message rest =>
      exact ⟨.write, _, ⟨rfl, trivial⟩, by rw [advance, outbox]⟩
  | nil =>
      have space : p.outbox.length < d.outbox := by rwa [outbox]
      by_cases working : ∃ thread, p.tasks thread ≠ none
      · obtain ⟨thread, working⟩ := working
        obtain ⟨⟨request, left⟩, task⟩ := Option.ne_none_iff_exists'.mp working
        cases left with
        | nil => exact ⟨.finish thread, _, ⟨rfl, trivial⟩, by rw [advance, task]⟩
        | cons message left =>
            exact ⟨.put thread, _, ⟨rfl, trivial⟩, by simp only [advance, task]; exact if_pos space⟩
      · have idle : ∀ thread, p.tasks thread = none := by
          intro thread
          exact not_not.mp fun working' => working ⟨thread, working'⟩
        cases jobs : p.jobs with
        | cons request rest =>
            obtain ⟨worker⟩ := ‹Nonempty Worker›
            obtain ⟨answers, proper⟩ := answerable request
            refine ⟨.take worker answers, _, ⟨rfl, ?_⟩, by rw [advance, idle, jobs]⟩
            intro other others next
            rw [jobs] at next
            cases next
            exact proper
        | nil =>
            cases held : p.held with
            | some request =>
                have space : p.jobs.length < d.queue := by rwa [jobs]
                exact ⟨.hand, _, ⟨rfl, trivial⟩, by simp only [advance, held]; exact if_pos space⟩
            | none =>
                cases inbox : p.inbox with
                | cons request rest =>
                    obtain ⟨answers, proper⟩ := answerable request
                    have read : ∃ q, p.advance d (.read answers) = some q := by
                      simp only [advance, held, idle, inbox]
                      split <;> exact ⟨_, rfl⟩
                    obtain ⟨q, read⟩ := read
                    refine ⟨.read answers, q, ⟨rfl, ?_⟩, read⟩
                    intro other others next
                    rw [inbox] at next
                    cases next
                    exact proper
                | nil => exact absurd ⟨inbox, held, jobs, idle, outbox⟩ busy

omit [Fintype Worker] in
theorem sent_advance {p q : Pool Req Msg Worker} {event : Event Req Msg Worker}
    (internal : event.isInternal = true) (moved : p.advance d event = some q) : q.sent = p.sent := by
  cases move_of_advance moved with
  | send request => cases internal
  | _ => rfl

/-- In whatever order the threads go on, every request that came is answered in full. -/
theorem inevitably_drained [DecidableEq κ] [Nonempty Worker]
    (answerable : ∀ request, ∃ answers, Answers request answers)
    (keyed : ∀ request answers, Answers request answers →
      ∀ message ∈ answers, key message = some (keyOf request))
    (queue : 0 < d.queue) (room : 0 < d.outbox) {p : Pool Req Msg Worker}
    (accounted : p.Accounted Answers keyOf key) :
    Inevitable (advance d) (Works Answers keyOf key)
      (fun q => q.Drained ∧ q.Accounted Answers keyOf key ∧ q.sent = p.sent) p := by
  have holds : p.Accounted Answers keyOf key ∧ p.sent = p.sent := ⟨accounted, rfl⟩
  apply Inevitable.of_measure (fun q => q.Accounted Answers keyOf key ∧ q.sent = p.sent)
    (wellFounded_lt (α := Nat ×ₗ Nat ×ₗ Nat)) size _ _ holds
  · rintro s event t ⟨accounted, sent⟩ ⟨internal, allowed⟩ moved
    exact ⟨⟨accounted_advance keyed accounted allowed moved, (sent_advance internal moved).trans sent⟩,
      size_advance internal moved⟩
  · rintro s ⟨accounted, sent⟩ unfinished
    exact enabled_of_busy answerable queue room s
      fun drained => unfinished ⟨drained, accounted, sent⟩

end Progress

end Pool

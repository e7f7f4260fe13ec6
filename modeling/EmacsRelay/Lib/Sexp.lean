import Mathlib.Data.List.Basic

set_option autoImplicit false

/- Lisp data of symbols, texts, numbers and pairs, and the operations on lists and property lists
that may find them malformed. A printer and a reader of such data are taken to be each other's
inverse, so that data stand for texts. -/

inductive Sexp where
  | symbol (name : String)
  | str (text : String)
  | int (n : Int)
  | cons (car cdr : Sexp)
deriving DecidableEq, Repr

/-- What Lisp signals when it meets data of the wrong shape, or a text that it cannot read. -/
inductive SexpError where
  | wrongType (predicate : String) (value : Sexp)
  | unreadable
deriving DecidableEq, Repr

/-- A result that is a signal stops the caller, and the state stays as it is. -/
def SexpError.raise {σ α : Type} (result : Except SexpError α) : EStateM SexpError σ α := fun s =>
  match result with
  | .ok value => .ok value s
  | .error e => .error e s

namespace Sexp

def nil : Sexp := .symbol "nil"

def list : List Sexp → Sexp
  | [] => nil
  | item :: items => .cons item (list items)

/-- The elements of a proper list. -/
def elements : Sexp → Option (List Sexp)
  | .cons item rest => (elements rest).map (item :: ·)
  | .symbol name => if name = "nil" then some [] else none
  | _ => none

/-- `or`, of a value and what stands in for nil. -/
def orElse (value other : Sexp) : Sexp := if value = nil then other else value

/-- `plist-get`. -/
def plistGet : Sexp → Sexp → Sexp
  | .cons name (.cons value rest), key => if name = key then value else plistGet rest key
  | _, _ => nil

/-- `plist-member`. -/
def plistMember : Sexp → Sexp → Except SexpError Bool
  | .cons name (.cons _ rest), key =>
      if name = key then .ok true else plistMember rest key
  | .cons name rest, key =>
      if name = key then .ok true
      else if rest = nil then .ok false
      else .error (.wrongType "plistp" rest)
  | other, _ => if other = nil then .ok false else .error (.wrongType "plistp" other)

/-- `copy-sequence`, of lists. -/
def copySequence (value : Sexp) : Except SexpError (List Sexp) :=
  match value.elements with
  | some items => .ok items
  | none => .error (.wrongType "listp" value)

/-- `dolist`. -/
def dolist {σ : Type} (body : Sexp → EStateM SexpError σ Unit) : Sexp → EStateM SexpError σ Unit
  | .cons item rest => do
      body item
      dolist body rest
  | other => if other = nil then pure () else throw (.wrongType "listp" other)

@[simp] theorem elements_list (items : List Sexp) : (list items).elements = some items := by
  induction items with
  | nil => rfl
  | cons item items ih => simp [list, elements, ih]

@[simp] theorem copySequence_list (items : List Sexp) : (list items).copySequence = .ok items := by
  simp [copySequence]

theorem list_of_elements {value : Sexp} {items : List Sexp} (proper : value.elements = some items) :
    value = list items := by
  induction value generalizing items with
  | symbol name =>
      by_cases empty : name = "nil"
      · rw [elements, if_pos empty] at proper
        cases proper
        rw [empty]
        rfl
      · rw [elements, if_neg empty] at proper
        cases proper
  | str text => cases proper
  | int n => cases proper
  | cons item rest _ ih =>
      cases others : rest.elements with
      | none =>
          rw [elements, others] at proper
          cases proper
      | some tail =>
          rw [elements, others] at proper
          cases proper
          rw [ih others]
          rfl

theorem copySequence_of_elements {value : Sexp} {items : List Sexp}
    (proper : value.elements = some items) : value.copySequence = .ok items := by
  rw [list_of_elements proper, copySequence_list]

/-- Looking for a property of a proper list signals nothing. -/
theorem plistMember_ok {value : Sexp} (proper : value.elements.isSome = true) (key : Sexp) :
    ∃ there, value.plistMember key = .ok there := by
  obtain ⟨items, same⟩ := Option.isSome_iff_exists.mp proper
  rw [list_of_elements same]
  have member : ∀ (n : Nat) (items : List Sexp), items.length ≤ n →
      ∃ there, (list items).plistMember key = .ok there := by
    intro n
    induction n with
    | zero =>
        intro items none_left
        have empty : items = [] := List.eq_nil_of_length_eq_zero (by omega)
        rw [empty]
        exact ⟨false, rfl⟩
    | succ n ih =>
        intro items bound
        cases items with
        | nil => exact ⟨false, rfl⟩
        | cons name rest =>
            by_cases found : name = key
            · cases rest with
              | nil => exact ⟨true, by simp [list, nil, plistMember, found]⟩
              | cons value rest => exact ⟨true, by simp [list, plistMember, found]⟩
            · cases rest with
              | nil => exact ⟨false, by simp [list, nil, plistMember, found]⟩
              | cons value rest =>
                  have fewer : rest.length ≤ n := by
                    simp only [List.length_cons] at bound
                    omega
                  obtain ⟨there, known⟩ := ih rest fewer
                  refine ⟨there, ?_⟩
                  simp [list, plistMember, found, known]
  exact member items.length items (Nat.le_refl _)

section Loop

variable {σ : Type} {body : Sexp → EStateM SexpError σ Unit}

/-- A loop over a list whose body signals nothing. -/
theorem dolist_list {f : σ → Sexp → σ} {items : List Sexp} {s : σ}
    (runs : ∀ item ∈ items, ∀ s, body item s = .ok () (f s item)) :
    dolist body (list items) s = .ok () (items.foldl f s) := by
  induction items generalizing s with
  | nil => rfl
  | cons item items ih =>
      have first := runs item List.mem_cons_self s
      have others := ih (s := f s item) fun other later => runs other (List.mem_cons_of_mem _ later)
      show EStateM.bind (body item) (fun _ => dolist body (list items)) s = _
      unfold EStateM.bind
      rw [first]
      exact others

end Loop

end Sexp

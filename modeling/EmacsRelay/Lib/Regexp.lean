import Mathlib.Computability.Language
import Mathlib.Data.List.Infix

set_option autoImplicit false

/- Regular expressions with groups, searched for by backtracking. A star repeats a single symbol. -/

inductive Regexp (α : Type) where
  | empty
  /-- The beginning of the text, or its end. -/
  | bos
  | eos
  | symbol (allowed : α → Bool)
  /-- As many of these symbols as possible, then fewer. -/
  | star (allowed : α → Bool)
  | seq (first next : Regexp α)
  | alt (first next : Regexp α)
  | group (index : Nat) (inner : Regexp α)

namespace Regexp

variable {α β γ : Type}

/-- What each group has matched, the latest first. -/
abbrev Groups (α : Type) := List (Nat × List α)

def plus (allowed : α → Bool) : Regexp α := .seq (.symbol allowed) (.star allowed)

def opt (inner : Regexp α) : Regexp α := .alt inner .empty

/-- A word, its symbols compared as FOLD takes them. -/
def literal [DecidableEq β] (fold : α → β) (word : List α) : Regexp α :=
  word.foldr (fun letter => .seq (.symbol fun c => fold c = fold letter)) .empty

def runStar (allowed : α → Bool) (k : List α → Option γ) : List α → Option γ
  | [] => k []
  | c :: rest => if allowed c then (runStar allowed k rest).or (k (c :: rest)) else k (c :: rest)

/-- Match at the front of TEXT, a suffix of WHOLE, and go on with K; where that fails, try the next
way to match. -/
def run (whole : List α) (r : Regexp α) (groups : Groups α) (text : List α)
    (k : Groups α → List α → Option γ) : Option γ :=
  match r with
  | .empty => k groups text
  | .bos => if text.length = whole.length then k groups text else none
  | .eos => if text.length = 0 then k groups text else none
  | .symbol allowed =>
      match text with
      | [] => none
      | c :: rest => if allowed c then k groups rest else none
  | .star allowed => runStar allowed (k groups) text
  | .seq first next =>
      run whole first groups text fun groups rest => run whole next groups rest k
  | .alt first next => (run whole first groups text k).or (run whole next groups text k)
  | .group index inner =>
      run whole inner groups text fun groups rest =>
        k ((index, text.take (text.length - rest.length)) :: groups) rest

/-- The groups of the first match in TEXT. -/
def search (r : Regexp α) (text : List α) : Option (Groups α) :=
  text.tails.findSome? fun rest => run text r [] rest fun groups _ => some groups

/-- TEXT, a suffix of WHOLE, is matched as far as REST, with these groups. -/
def Matches (whole : List α) : Regexp α → Groups α → List α → Groups α → List α → Prop
  | .empty, groups, text, after, rest => after = groups ∧ rest = text
  | .bos, groups, text, after, rest =>
      after = groups ∧ rest = text ∧ text.length = whole.length
  | .eos, groups, text, after, rest => after = groups ∧ rest = text ∧ text = []
  | .symbol allowed, groups, text, after, rest =>
      after = groups ∧ ∃ c, allowed c = true ∧ text = c :: rest
  | .star allowed, groups, text, after, rest =>
      after = groups ∧ ∃ taken, (∀ c ∈ taken, allowed c = true) ∧ text = taken ++ rest
  | .seq first next, groups, text, after, rest =>
      ∃ between middle, first.Matches whole groups text between middle ∧
        next.Matches whole between middle after rest
  | .alt first next, groups, text, after, rest =>
      first.Matches whole groups text after rest ∨ next.Matches whole groups text after rest
  | .group index inner, groups, text, after, rest =>
      ∃ inside taken, inner.Matches whole groups text inside rest ∧ text = taken ++ rest ∧
        after = (index, taken) :: inside

section Running

variable {whole text rest : List α} {r : Regexp α} {groups after : Groups α}

theorem Matches.suffix (matched : r.Matches whole groups text after rest) :
    ∃ taken, text = taken ++ rest := by
  induction r generalizing groups text after rest with
  | empty => exact ⟨[], matched.2.symm⟩
  | bos => exact ⟨[], matched.2.1.symm⟩
  | eos => exact ⟨[], matched.2.1.symm⟩
  | symbol allowed =>
      obtain ⟨-, c, -, same⟩ := matched
      exact ⟨[c], same⟩
  | star allowed =>
      obtain ⟨-, taken, -, same⟩ := matched
      exact ⟨taken, same⟩
  | seq first next first_ih next_ih =>
      obtain ⟨between, middle, front, back⟩ := matched
      obtain ⟨taken, rfl⟩ := first_ih front
      obtain ⟨more, rfl⟩ := next_ih back
      exact ⟨taken ++ more, (List.append_assoc _ _ _).symm⟩
  | alt first next first_ih next_ih =>
      cases matched with
      | inl front => exact first_ih front
      | inr back => exact next_ih back
  | group index inner ih =>
      obtain ⟨-, taken, -, same, -⟩ := matched
      exact ⟨taken, same⟩

theorem runStar_some {allowed : α → Bool} {k : List α → Option γ} {result : γ}
    (ran : runStar allowed k text = some result) :
    ∃ taken rest, (∀ c ∈ taken, allowed c = true) ∧ text = taken ++ rest ∧
      k rest = some result := by
  induction text with
  | nil => exact ⟨[], [], nofun, rfl, ran⟩
  | cons c text ih =>
      have here : k (c :: text) = some result → ∃ taken rest, (∀ c ∈ taken, allowed c = true) ∧
          c :: text = taken ++ rest ∧ k rest = some result :=
        fun given => ⟨[], c :: text, nofun, rfl, given⟩
      rw [runStar] at ran
      split at ran
      · rename_i passes
        rcases Option.or_eq_some_iff.mp ran with longer | ⟨-, given⟩
        · obtain ⟨taken, rest, all, same, given⟩ := ih longer
          exact ⟨c :: taken, rest, List.forall_mem_cons.mpr ⟨passes, all⟩, congrArg (c :: ·) same,
            given⟩
        · exact here given
      · exact here ran

theorem runStar_isSome {allowed : α → Bool} {k : List α → Option γ} {taken : List α}
    (all : ∀ c ∈ taken, allowed c = true) (given : (k rest).isSome = true) :
    (runStar allowed k (taken ++ rest)).isSome = true := by
  induction taken with
  | nil =>
      rw [List.nil_append]
      cases rest with
      | nil => exact given
      | cons c rest =>
          rw [runStar]
          split
          · rw [Option.isSome_or, given, Bool.or_true]
          · exact given
  | cons c taken ih =>
      obtain ⟨passes, all⟩ := List.forall_mem_cons.mp all
      rw [List.cons_append, runStar, if_pos passes, Option.isSome_or, ih all, Bool.true_or]

/-- What is found is a match. -/
theorem run_some {k : Groups α → List α → Option γ} {result : γ}
    (ran : r.run whole groups text k = some result) :
    ∃ after rest, r.Matches whole groups text after rest ∧ k after rest = some result := by
  induction r generalizing groups text k with
  | empty => exact ⟨groups, text, ⟨rfl, rfl⟩, ran⟩
  | bos =>
      rw [run] at ran
      split at ran
      · rename_i front
        exact ⟨groups, text, ⟨rfl, rfl, front⟩, ran⟩
      · cases ran
  | eos =>
      rw [run] at ran
      split at ran
      · rename_i none_left
        exact ⟨groups, text, ⟨rfl, rfl, List.eq_nil_of_length_eq_zero none_left⟩, ran⟩
      · cases ran
  | symbol allowed =>
      cases text with
      | nil => cases ran
      | cons c rest =>
          simp only [run] at ran
          split at ran
          · rename_i passes
            exact ⟨groups, rest, ⟨rfl, c, passes, rfl⟩, ran⟩
          · cases ran
  | star allowed =>
      obtain ⟨taken, rest, all, same, given⟩ := runStar_some ran
      exact ⟨groups, rest, ⟨rfl, taken, all, same⟩, given⟩
  | seq first next first_ih next_ih =>
      obtain ⟨between, middle, front, ran⟩ := first_ih ran
      obtain ⟨after, rest, back, given⟩ := next_ih ran
      exact ⟨after, rest, ⟨between, middle, front, back⟩, given⟩
  | alt first next first_ih next_ih =>
      rcases Option.or_eq_some_iff.mp ran with ran | ⟨-, ran⟩
      · obtain ⟨after, rest, front, given⟩ := first_ih ran
        exact ⟨after, rest, .inl front, given⟩
      · obtain ⟨after, rest, back, given⟩ := next_ih ran
        exact ⟨after, rest, .inr back, given⟩
  | group index inner ih =>
      obtain ⟨inside, rest, matched, given⟩ := ih ran
      obtain ⟨taken, rfl⟩ := matched.suffix
      rw [List.length_append, Nat.add_sub_cancel, List.take_left] at given
      exact ⟨(index, taken) :: inside, rest, ⟨inside, taken, matched, rfl, rfl⟩, given⟩

/-- Where there is a match that K accepts, something is found. -/
theorem run_isSome {k : Groups α → List α → Option γ}
    (matched : r.Matches whole groups text after rest) (given : (k after rest).isSome = true) :
    (r.run whole groups text k).isSome = true := by
  induction r generalizing groups text after rest k with
  | empty =>
      obtain ⟨rfl, rfl⟩ := matched
      exact given
  | bos =>
      obtain ⟨rfl, rfl, front⟩ := matched
      rwa [run, if_pos front]
  | eos =>
      obtain ⟨rfl, rfl, rfl⟩ := matched
      exact given
  | symbol allowed =>
      obtain ⟨rfl, c, passes, rfl⟩ := matched
      simpa only [run, if_pos passes] using given
  | star allowed =>
      obtain ⟨rfl, taken, all, rfl⟩ := matched
      exact runStar_isSome all given
  | seq first next first_ih next_ih =>
      obtain ⟨between, middle, front, back⟩ := matched
      exact first_ih front (next_ih back given)
  | alt first next first_ih next_ih =>
      rw [run, Option.isSome_or, Bool.or_eq_true]
      cases matched with
      | inl front => exact .inl (first_ih front given)
      | inr back => exact .inr (next_ih back given)
  | group index inner ih =>
      obtain ⟨inside, taken, matched, rfl, rfl⟩ := matched
      apply ih matched
      rwa [List.length_append, Nat.add_sub_cancel, List.take_left]

theorem search_some (found : r.search text = some groups) :
    ∃ start end_, start <:+ text ∧ r.Matches text [] start groups end_ := by
  obtain ⟨start, there, ran⟩ := List.exists_of_findSome?_eq_some found
  obtain ⟨after, end_, matched, same⟩ := run_some ran
  cases same
  exact ⟨start, end_, (List.mem_tails _ _).mp there, matched⟩

theorem search_isSome {start : List α} (suffix : start <:+ text)
    (matched : r.Matches text [] start groups rest) : (r.search text).isSome = true := by
  unfold search
  rw [List.findSome?_isSome_iff]
  exact ⟨start, (List.mem_tails _ _).mpr suffix, run_isSome matched rfl⟩

/-- What a group has matched is in the text. -/
theorem Matches.mem_group
    (matched : r.Matches whole groups text after rest) :
    ∀ found ∈ after, found ∈ groups ∨ ∀ c ∈ found.2, c ∈ text := by
  induction r generalizing groups text after rest with
  | empty =>
      obtain ⟨rfl, rfl⟩ := matched
      exact fun found member => .inl member
  | bos =>
      obtain ⟨rfl, -⟩ := matched
      exact fun found member => .inl member
  | eos =>
      obtain ⟨rfl, -⟩ := matched
      exact fun found member => .inl member
  | symbol allowed =>
      obtain ⟨rfl, -⟩ := matched
      exact fun found member => .inl member
  | star allowed =>
      obtain ⟨rfl, -⟩ := matched
      exact fun found member => .inl member
  | seq first next first_ih next_ih =>
      obtain ⟨between, middle, front, back⟩ := matched
      obtain ⟨taken, rfl⟩ := front.suffix
      intro found member
      rcases next_ih back found member with before | inside
      · exact first_ih front found before
      · exact .inr fun c there => List.mem_append_right taken (inside c there)
  | alt first next first_ih next_ih =>
      cases matched with
      | inl front => exact first_ih front
      | inr back => exact next_ih back
  | group index inner ih =>
      obtain ⟨inside, taken, matched, rfl, rfl⟩ := matched
      intro found member
      rcases List.mem_cons.mp member with rfl | before
      · exact .inr fun c there => List.mem_append_left rest there
      · exact ih matched found before

/-- What a search finds for a group is in the text. -/
theorem mem_of_search (found : search r text = some groups) (index : Nat) :
    ∀ c ∈ (groups.lookup index).getD [], c ∈ text := by
  obtain ⟨start, _, suffix, matched⟩ := search_some found
  intro c there
  cases given : groups.lookup index with
  | none =>
      rw [given] at there
      cases there
  | some taken =>
      rw [given] at there
      have member : (index, taken) ∈ groups := by
        obtain ⟨key, before⟩ := List.lookup_eq_some_iff.mp given
        obtain ⟨after, same, -⟩ := before
        rw [same]
        exact List.mem_append_right _ List.mem_cons_self
      rcases matched.mem_group _ member with nothing | inside
      · cases nothing
      · exact suffix.subset (inside c there)

end Running

/-- Without anchors and groups: an expression that takes a word of the language. -/
def Takes (r : Regexp α) (language : Language α) : Prop :=
  ∀ whole groups text after rest, r.Matches whole groups text after rest ↔
    after = groups ∧ ∃ taken ∈ language, text = taken ++ rest

/-- The words of one symbol, the words of any number, and those that FOLD takes for this one. -/
def single (allowed : α → Bool) : Language α := {taken | ∃ c, allowed c = true ∧ taken = [c]}

@[inherit_doc single] def every (allowed : α → Bool) : Language α :=
  {taken | ∀ c ∈ taken, allowed c = true}

@[inherit_doc single] def alike (fold : α → β) (word : List α) : Language α :=
  {taken | taken.map fold = word.map fold}

section Languages

variable {whole text rest : List α} {r s : Regexp α} {groups after : Groups α}
  {language other : Language α}

theorem Takes.congr (takes : r.Takes language)
    (same : ∀ taken, taken ∈ language ↔ taken ∈ other) : r.Takes other := by
  intro whole groups text after rest
  simp only [takes whole groups text after rest, same]

theorem takes_empty : (empty : Regexp α).Takes 1 := by
  intro whole groups text after rest
  constructor
  · rintro ⟨rfl, rfl⟩
    exact ⟨rfl, [], rfl, rfl⟩
  · rintro ⟨rfl, taken, rfl, rfl⟩
    exact ⟨rfl, rfl⟩

theorem takes_symbol (allowed : α → Bool) :
    (symbol allowed).Takes (single allowed) := by
  intro whole groups text after rest
  constructor
  · rintro ⟨rfl, c, passes, rfl⟩
    exact ⟨rfl, [c], ⟨c, passes, rfl⟩, rfl⟩
  · rintro ⟨rfl, taken, ⟨c, passes, rfl⟩, rfl⟩
    exact ⟨rfl, c, passes, rfl⟩

theorem takes_star (allowed : α → Bool) : (star allowed).Takes (every allowed) :=
  fun _ _ _ _ _ => Iff.rfl

theorem Takes.seq (first : r.Takes language) (next : s.Takes other) :
    (seq r s).Takes (language * other) := by
  intro whole groups text after rest
  constructor
  · rintro ⟨between, middle, front, back⟩
    obtain ⟨rfl, taken, known, rfl⟩ := (first _ _ _ _ _).mp front
    obtain ⟨rfl, more, known', rfl⟩ := (next _ _ _ _ _).mp back
    exact ⟨rfl, taken ++ more, Language.append_mem_mul known known',
      (List.append_assoc _ _ _).symm⟩
  · rintro ⟨rfl, _, known, rfl⟩
    obtain ⟨taken, front, more, back, rfl⟩ := Language.mem_mul.mp known
    exact ⟨after, more ++ rest, (first _ _ _ _ _).mpr ⟨rfl, taken, front, List.append_assoc _ _ _⟩,
      (next _ _ _ _ _).mpr ⟨rfl, more, back, rfl⟩⟩

theorem Takes.alt (first : r.Takes language) (next : s.Takes other) :
    (alt r s).Takes (language + other) := by
  intro whole groups text after rest
  constructor
  · rintro (front | back)
    · obtain ⟨same, taken, known, parts⟩ := (first _ _ _ _ _).mp front
      exact ⟨same, taken, .inl known, parts⟩
    · obtain ⟨same, taken, known, parts⟩ := (next _ _ _ _ _).mp back
      exact ⟨same, taken, .inr known, parts⟩
  · rintro ⟨same, taken, front | back, parts⟩
    · exact .inl ((first _ _ _ _ _).mpr ⟨same, taken, front, parts⟩)
    · exact .inr ((next _ _ _ _ _).mpr ⟨same, taken, back, parts⟩)

theorem Takes.opt (takes : r.Takes language) : (opt r).Takes (language + 1) :=
  takes.alt takes_empty

theorem takes_plus (allowed : α → Bool) :
    (plus allowed).Takes (single allowed * every allowed) :=
  (takes_symbol allowed).seq (takes_star allowed)

theorem mem_plus {allowed : α → Bool} {taken : List α} :
    taken ∈ single allowed * every allowed ↔ taken ≠ [] ∧ ∀ c ∈ taken, allowed c = true := by
  rw [Language.mem_mul]
  constructor
  · rintro ⟨_, ⟨c, passes, rfl⟩, more, all, rfl⟩
    exact ⟨List.cons_ne_nil _ _, List.forall_mem_cons.mpr ⟨passes, all⟩⟩
  · rintro ⟨some_symbol, all⟩
    cases taken with
    | nil => exact absurd rfl some_symbol
    | cons c more =>
        obtain ⟨passes, all⟩ := List.forall_mem_cons.mp all
        exact ⟨[c], ⟨c, passes, rfl⟩, more, all, rfl⟩

theorem takes_literal [DecidableEq β] (fold : α → β) (word : List α) :
    (literal fold word).Takes (alike fold word) := by
  induction word with
  | nil =>
      apply takes_empty.congr
      exact fun taken => List.map_eq_nil_iff.symm
  | cons letter word ih =>
      apply ((takes_symbol _).seq ih).congr
      intro taken
      rw [Language.mem_mul]
      constructor
      · rintro ⟨_, ⟨c, passes, rfl⟩, more, same, rfl⟩
        have equal : fold c = fold letter := of_decide_eq_true passes
        exact congrArg₂ List.cons equal same
      · intro same
        cases taken with
        | nil => cases same
        | cons c more =>
            obtain ⟨equal, same⟩ := List.cons.inj same
            exact ⟨[c], ⟨c, decide_eq_true equal, rfl⟩, more, same, rfl⟩

/-- A sequence begins with a word of the language. -/
theorem Takes.matches_seq (takes : r.Takes language) :
    (Regexp.seq r s).Matches whole groups text after rest ↔
      ∃ taken ∈ language, ∃ middle, text = taken ++ middle ∧
        s.Matches whole groups middle after rest := by
  constructor
  · rintro ⟨between, middle, front, back⟩
    obtain ⟨rfl, taken, known, parts⟩ := (takes _ _ _ _ _).mp front
    exact ⟨taken, known, middle, parts, back⟩
  · rintro ⟨taken, known, middle, parts, back⟩
    exact ⟨groups, middle, (takes _ _ _ _ _).mpr ⟨rfl, taken, known, parts⟩, back⟩

/-- A sequence begins with a group, which remembers what it has taken. -/
theorem Takes.matches_group_seq (takes : r.Takes language) {index : Nat} :
    (Regexp.seq (.group index r) s).Matches whole groups text after rest ↔
      ∃ taken ∈ language, ∃ middle, text = taken ++ middle ∧
        s.Matches whole ((index, taken) :: groups) middle after rest := by
  constructor
  · rintro ⟨_, middle, ⟨inside, taken, front, parts, rfl⟩, back⟩
    obtain ⟨rfl, taken', known, parts'⟩ := (takes _ _ _ _ _).mp front
    have same : taken' = taken := List.append_cancel_right (parts'.symm.trans parts)
    exact ⟨taken, same ▸ known, middle, parts, back⟩
  · rintro ⟨taken, known, middle, parts, back⟩
    exact ⟨_, middle, ⟨groups, taken, (takes _ _ _ _ _).mpr ⟨rfl, taken, known, parts⟩, parts,
      rfl⟩, back⟩

end Languages

end Regexp

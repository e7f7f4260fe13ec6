import Mathlib.Data.List.Infix

set_option autoImplicit false

/- Searches for a word in a text that do not tell apart the symbols a folding identifies, and
texts in which special symbols are marked. -/
namespace Search

variable {α β : Type} (fold : α → β)

/-- WORD stands somewhere in TEXT. -/
def Found (word text : List α) : Prop := word.map fold <:+: text.map fold

instance [DecidableEq β] (word text : List α) : Decidable (Found fold word text) :=
  inferInstanceAs (Decidable (_ <:+: _))

/-- No symbol of the text is taken for this one. -/
def Apart (symbol : α) (text : List α) : Prop := ∀ other ∈ text, fold other ≠ fold symbol

section Finding

variable {fold} {word text start rest : List α} {symbol : α}

theorem not_found (there : symbol ∈ word) (apart : Apart fold symbol text) :
    ¬ Found fold word text := by
  rintro ⟨before, after, whole⟩
  have known : fold symbol ∈ text.map fold := by
    rw [← whole]
    exact List.mem_append_left _ (List.mem_append_right _ (List.mem_map_of_mem there))
  obtain ⟨other, standing, same⟩ := List.mem_map.mp known
  exact apart other standing same

/-- A symbol that is not of the word parts the text. -/
theorem found_append_cons (apart : Apart fold symbol word) :
    Found fold word (start ++ symbol :: rest) ↔ Found fold word start ∨ Found fold word rest := by
  constructor
  · rintro ⟨before, after, whole⟩
    rw [List.map_append, List.map_cons, List.append_assoc] at whole
    rcases List.append_eq_append_iff.mp whole with ⟨more, front, back⟩ | ⟨more, front, back⟩
    · rcases List.append_eq_append_iff.mp back with ⟨end_, inside, _⟩ | ⟨tail, inside, outside⟩
      · exact .inl ⟨before, end_, by rw [front, inside, List.append_assoc]⟩
      · cases tail with
        | nil =>
            rw [List.append_nil] at inside
            exact .inl ⟨before, [], by rw [front, inside, List.append_nil]⟩
        | cons first tail =>
            have taken : first ∈ word.map fold := by
              rw [inside]
              exact List.mem_append_right _ List.mem_cons_self
            obtain ⟨other, standing, same⟩ := List.mem_map.mp taken
            rw [List.cons_append] at outside
            exact absurd (same.trans (List.cons.inj outside).1.symm) (apart other standing)
    · cases more with
      | nil =>
          cases letters : word.map fold with
          | nil => exact .inl ⟨[], start.map fold, by rw [letters]; rfl⟩
          | cons first letters' =>
              rw [letters, List.nil_append, List.cons_append] at back
              obtain ⟨other, standing, same⟩ := List.mem_map.mp
                (letters ▸ List.mem_cons_self : first ∈ word.map fold)
              exact absurd (same.trans (List.cons.inj back).1.symm) (apart other standing)
      | cons first more =>
          rw [List.cons_append] at back
          refine .inr ⟨more, after, ?_⟩
          rw [(List.cons.inj back).2, List.append_assoc]
  · rintro (⟨before, after, whole⟩ | ⟨before, after, whole⟩)
    · refine ⟨before, after ++ (symbol :: rest).map fold, ?_⟩
      rw [List.map_append, ← whole, List.append_assoc _ after]
    · refine ⟨start.map fold ++ fold symbol :: before, after, ?_⟩
      rw [List.map_append, List.map_cons, ← whole]
      simp only [List.append_assoc, List.cons_append]

/-- A word does not begin with a symbol other than its first. -/
theorem found_cons {letter : α} (first : word.head? = some letter)
    (other : fold letter ≠ fold symbol) :
    Found fold word (symbol :: rest) ↔ Found fold word rest := by
  cases word with
  | nil => cases first
  | cons head word =>
      cases first
      unfold Found
      rw [List.map_cons, List.map_cons, List.infix_cons_iff, List.cons_prefix_cons]
      exact or_iff_right fun same => other same.1

end Finding

section Marking

variable (special : α → Prop) [DecidablePred special] (mark : α)

def escaped (symbol : α) : List α := if special symbol then [mark, symbol] else [symbol]

/-- The text with a mark before each special symbol. -/
def escape (text : List α) : List α := text.flatMap (escaped special mark)

variable {fold} {special} {mark} {word : List α}

theorem escape_cons (symbol : α) (text : List α) :
    escape special mark (symbol :: text) =
      escaped special mark symbol ++ escape special mark text := List.flatMap_cons

theorem prefix_escape (marks : Apart fold mark word)
    (specials : ∀ symbol, special symbol → Apart fold symbol word) (text : List α) :
    word.map fold <+: (escape special mark text).map fold ↔ word.map fold <+: text.map fold := by
  induction text generalizing word with
  | nil => exact Iff.rfl
  | cons symbol text ih =>
      cases word with
      | nil => exact iff_of_true List.nil_prefix List.nil_prefix
      | cons letter word =>
          rw [escape_cons]
          unfold escaped
          split
          · rename_i special
            have other := marks letter List.mem_cons_self
            have differs := specials symbol special letter List.mem_cons_self
            simp [other, differs]
          · have below := @ih word (fun other there => marks other (List.mem_cons_of_mem _ there))
              fun symbol special other there =>
                specials symbol special other (List.mem_cons_of_mem _ there)
            simp only [List.cons_append, List.nil_append, List.map_cons, List.cons_prefix_cons,
              below]

/-- Words without marks and special symbols are found in a text whether it is escaped or not. -/
theorem found_escape {letter : α} (first : word.head? = some letter) (marks : Apart fold mark word)
    (specials : ∀ symbol, special symbol → Apart fold symbol word) (text : List α) :
    Found fold word (escape special mark text) ↔ Found fold word text := by
  induction text with
  | nil => exact Iff.rfl
  | cons symbol text ih =>
      have front := prefix_escape marks specials (symbol :: text)
      rw [escape_cons] at front ⊢
      unfold escaped at front ⊢
      split
      · rename_i special
        have known : letter ∈ word := List.mem_of_head? first
        have differs := specials symbol special letter known
        rw [List.cons_append, found_cons first (marks letter known), List.cons_append,
          found_cons first differs, List.nil_append, ih, found_cons first differs]
      · rename_i plain
        rw [if_neg plain] at front
        unfold Found at ih ⊢
        rw [List.cons_append, List.nil_append, List.map_cons, List.map_cons, List.infix_cons_iff,
          List.infix_cons_iff, ih, ← List.map_cons, ← List.map_cons]
        exact or_congr_left front

end Marking

end Search

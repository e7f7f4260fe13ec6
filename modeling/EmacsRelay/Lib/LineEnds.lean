import Mathlib.Data.List.Basic

set_option autoImplicit false

/- Texts as bytes in UTF-8, and the conversion of line ends when a coding system leaves their type
undecided. A byte order mark is a character like any other. -/

/-- LF, CR and LF, CR alone. -/
inductive Eol where
  | unix
  | dos
  | mac
deriving DecidableEq, Repr

namespace Eol

/-- The line ends of a text, in their order. -/
def ends : List Char → List Eol
  | [] => []
  | '\r' :: '\n' :: rest => .dos :: ends rest
  | '\r' :: rest => .mac :: ends rest
  | '\n' :: rest => .unix :: ends rest
  | _ :: rest => ends rest

/-- The type that is decided on: a single LF alone decides for LF. -/
def detect (text : List Char) : Eol :=
  if .unix ∈ ends text then .unix
  else if .dos ∈ ends text then .dos
  else if .mac ∈ ends text then .mac
  else .unix

/-- A CR before an LF goes. -/
def fromDos : List Char → List Char
  | [] => []
  | '\r' :: '\n' :: rest => '\n' :: fromDos rest
  | c :: rest => c :: fromDos rest

def fromMac (text : List Char) : List Char := text.map fun c => if c = '\r' then '\n' else c

/-- Line ends of the type become LF. -/
def decode : Eol → List Char → List Char
  | .unix, text => text
  | .dos, text => fromDos text
  | .mac, text => fromMac text

/-- The text has an LF that no CR precedes, or it has no CR. -/
def Settles (text : List Char) : Prop := .unix ∈ ends text ∨ '\r' ∉ text

instance (text : List Char) : Decidable (Settles text) := inferInstanceAs (Decidable (_ ∨ _))

theorem length_fromDos_le (text : List Char) : (fromDos text).length ≤ text.length := by
  fun_induction fromDos text with
  | case1 => exact Nat.le_refl _
  | case2 rest ih =>
      simp only [List.length_cons]
      omega
  | case3 c rest _ ih =>
      simp only [List.length_cons]
      omega

theorem fromDos_cons {c : Char} {rest : List Char}
    (other : ∀ later, c = '\r' → rest = '\n' :: later → False) :
    fromDos (c :: rest) = c :: fromDos rest := by
  rw [fromDos]
  exact other

/-- A CR that goes makes the text shorter. -/
theorem length_fromDos_lt {text : List Char} (found : Eol.dos ∈ ends text) :
    (fromDos text).length < text.length := by
  fun_induction ends text with
  | case1 => cases found
  | case2 rest ih =>
      have shorter := length_fromDos_le rest
      simp only [fromDos, List.length_cons]
      omega
  | case3 rest other ih =>
      have later : Eol.dos ∈ ends rest := by simpa using found
      have shorter := ih later
      rw [fromDos_cons fun later _ => other later, List.length_cons, List.length_cons]
      omega
  | case4 rest ih =>
      have later : Eol.dos ∈ ends rest := by simpa using found
      have shorter := ih later
      rw [fromDos_cons fun _ cr => absurd cr (by decide), List.length_cons, List.length_cons]
      omega
  | case5 c rest notDos notMac notUnix ih =>
      have shorter := ih found
      rw [fromDos_cons notDos, List.length_cons, List.length_cons]
      omega

theorem cr_mem_of_ends {text : List Char} (found : Eol.dos ∈ ends text ∨ Eol.mac ∈ ends text) :
    '\r' ∈ text := by
  fun_induction ends text with
  | case1 => simp at found
  | case2 rest ih => exact List.mem_cons_self
  | case3 rest other ih => exact List.mem_cons_self
  | case4 rest ih =>
      apply List.mem_cons_of_mem
      apply ih
      simpa using found
  | case5 c rest notDos notMac notUnix ih => exact List.mem_cons_of_mem _ (ih found)

theorem ends_of_cr_mem {text : List Char} (found : '\r' ∈ text) :
    Eol.dos ∈ ends text ∨ Eol.mac ∈ ends text := by
  fun_induction ends text with
  | case1 => cases found
  | case2 rest ih => exact .inl List.mem_cons_self
  | case3 rest other ih => exact .inr List.mem_cons_self
  | case4 rest ih =>
      have later : '\r' ∈ rest := by simpa using found
      rcases ih later with dos | mac
      · exact .inl (List.mem_cons_of_mem _ dos)
      · exact .inr (List.mem_cons_of_mem _ mac)
  | case5 c rest notDos notMac notUnix ih =>
      apply ih
      rcases List.mem_cons.mp found with here | later
      · exact absurd here.symm notMac
      · exact later

theorem fromMac_ne {text : List Char} (found : '\r' ∈ text) : fromMac text ≠ text := by
  intro same
  have gone : '\r' ∉ fromMac text := by
    intro member
    obtain ⟨c, _, converted⟩ := List.mem_map.mp member
    by_cases cr : c = '\r'
    · rw [if_pos cr] at converted
      exact absurd converted (by decide)
    · rw [if_neg cr] at converted
      exact cr converted
  rw [same] at gone
  exact gone found

/-- The conversion leaves exactly these texts as they are. -/
theorem decode_detect_iff (text : List Char) : decode (detect text) text = text ↔ Settles text := by
  unfold detect Settles
  by_cases unix : Eol.unix ∈ ends text
  · simp [unix, decode]
  · by_cases dos : Eol.dos ∈ ends text
    · have shorter := length_fromDos_lt dos
      have cr := cr_mem_of_ends (.inl dos)
      simp only [unix, dos, cr, if_false, if_true, decode, not_true_eq_false, or_self, iff_false]
      intro same
      rw [same] at shorter
      omega
    · by_cases mac : Eol.mac ∈ ends text
      · have cr := cr_mem_of_ends (.inr mac)
        simp only [unix, dos, mac, cr, if_false, if_true, decode, not_true_eq_false, or_self,
          iff_false]
        exact fromMac_ne cr
      · have none : '\r' ∉ text := by
          intro cr
          rcases ends_of_cr_mem cr with found | found
          · exact dos found
          · exact mac found
        simp [unix, dos, mac, none, decode]

end Eol

/-- UTF-8. -/
def encodeUtf8 (text : List Char) : List UInt8 := (String.ofList text).toByteArray.data.toList

/-- The text that bytes in UTF-8 stand for, and nothing of other bytes. -/
def decodeUtf8 (bytes : List UInt8) : List Char :=
  match String.fromUTF8? ⟨bytes.toArray⟩ with
  | some text => text.toList
  | none => []

theorem encodeUtf8_decodeUtf8 {bytes : List UInt8}
    (valid : (ByteArray.mk bytes.toArray).validateUTF8 = true) :
    encodeUtf8 (decodeUtf8 bytes) = bytes := by
  have checked := ByteArray.validateUTF8_eq_true_iff.mp valid
  have decoded : String.fromUTF8? ⟨bytes.toArray⟩ = some (String.fromUTF8 ⟨bytes.toArray⟩ checked) := by
    simp [String.fromUTF8?, checked]
  unfold encodeUtf8 decodeUtf8
  rw [decoded]
  dsimp only
  rw [String.ofList_toList]
  rfl

theorem encodeUtf8_inj {one other : List Char} : encodeUtf8 one = encodeUtf8 other ↔ one = other := by
  constructor
  · intro same
    have arrays : (String.ofList one).toByteArray.data = (String.ofList other).toByteArray.data :=
      Array.toList_inj.mp same
    have bytes : (String.ofList one).toByteArray = (String.ofList other).toByteArray :=
      ByteArray.ext arrays
    have strings := String.toByteArray_inj.mp bytes
    rw [← String.toList_ofList (l := one), strings, String.toList_ofList]
  · intro same
    rw [same]

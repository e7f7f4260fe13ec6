import Mathlib.Algebra.Ring.Int.Defs
import Mathlib.Algebra.Ring.Nat
import Mathlib.Data.List.Basic

set_option autoImplicit false

/- JSON values, Lisp data with property lists, and the passage between them. A parser and a
serializer of texts are taken to be each other's inverse, so that values stand for texts. -/

/-- An integer of any size is `int`; any other number is `float`. -/
inductive Json where
  | null
  | bool (b : Bool)
  | int (n : Int)
  | float (text : String)
  | str (s : String)
  | arr (items : List Json)
  | obj (fields : List (String × Json))

namespace Json

def get (value : Json) (name : String) : Option Json :=
  match value with
  | .obj fields => fields.lookup name
  | _ => none

def isObject : Json → Bool
  | .obj _ => true
  | _ => false

/-- A number of 64 bits, unsigned. -/
def asU64 : Json → Option Nat
  | .int n => if 0 ≤ n ∧ n < 2 ^ 64 then some n.toNat else none
  | _ => none

/-- A number of 64 bits, signed. -/
def asI64 : Json → Option Int
  | .int n => if -2 ^ 63 ≤ n ∧ n < 2 ^ 63 then some n else none
  | _ => none

def asStr : Json → Option String
  | .str s => some s
  | _ => none

def asBool : Json → Option Bool
  | .bool b => some b
  | _ => none

theorem asU64_eq_some {value : Json} {n : Nat} :
    value.asU64 = some n ↔ value = .int n ∧ n < 2 ^ 64 := by
  constructor
  · intro same
    cases value with
    | int i =>
        simp only [asU64] at same
        split at same
        · rename_i bounds
          have back := Option.some.inj same
          have here : i = n := by omega
          exact ⟨by rw [here], by omega⟩
        · cases same
    | _ => cases same
  · rintro ⟨rfl, small⟩
    simp only [asU64]
    rw [if_pos ⟨by omega, by omega⟩, Int.toNat_natCast]

theorem asI64_eq_some {value : Json} {n : Int} :
    value.asI64 = some n ↔ value = .int n ∧ -2 ^ 63 ≤ n ∧ n < 2 ^ 63 := by
  constructor
  · intro same
    cases value with
    | int i =>
        simp only [asI64] at same
        split at same
        · rename_i bounds
          have here := Option.some.inj same
          subst here
          exact ⟨rfl, bounds⟩
        · cases same
    | _ => cases same
  · rintro ⟨rfl, bounds⟩
    exact if_pos bounds

theorem asStr_eq_some {value : Json} {s : String} : value.asStr = some s ↔ value = .str s := by
  cases value <;> simp [asStr]

end Json

/-- Lisp data as a JSON parser makes them and a serializer takes them, with raw bytes besides.
The empty property list is `nil`, which stands for what is false or missing too. -/
inductive Datum where
  | nil
  | t
  | int (n : Int)
  | float (text : String)
  | str (s : String)
  | bytes (bytes : List UInt8)
  | list (items : List Datum)
  | plist (fields : List (String × Datum))

namespace Datum

/-- `plist-get`, of a property list known by its fields. -/
def plistGet (fields : List (String × Datum)) (name : String) : Datum :=
  (fields.lookup name).getD .nil

/-- `plist-get`. -/
def get : Datum → String → Datum
  | .plist fields, name => plistGet fields name
  | _, _ => .nil

/-- `plist-member`. -/
def plistMember (fields : List (String × Datum)) (name : String) : Bool :=
  (fields.lookup name).isSome

/-- `plist-put`. -/
def plistPut : List (String × Datum) → String → Datum → List (String × Datum)
  | [], name, value => [(name, value)]
  | (other, old) :: fields, name, value =>
      if other = name then (other, value) :: fields else (other, old) :: plistPut fields name value

/-- A property list without one of its properties. -/
def plistWithout (fields : List (String × Datum)) (name : String) : List (String × Datum) :=
  fields.filter (·.1 ≠ name)

end Datum

mutual

/-- `json-parse-string` with `:object-type plist`, `:array-type list`, and nil for null and false. -/
def Json.parse : Json → Datum
  | .null => .nil
  | .bool b => if b then .t else .nil
  | .int n => .int n
  | .float text => .float text
  | .str s => .str s
  | .arr [] => .nil
  | .arr items => .list (Json.parseItems items)
  | .obj [] => .nil
  | .obj fields => .plist (Json.parseFields fields)

def Json.parseItems : List Json → List Datum
  | [] => []
  | item :: items => item.parse :: Json.parseItems items

def Json.parseFields : List (String × Json) → List (String × Datum)
  | [] => []
  | (name, value) :: fields => (name, value.parse) :: Json.parseFields fields

end

mutual

/-- `json-serialize`. Raw bytes are refused, and so are lists that are no property lists. -/
def Datum.serialize : Datum → Option Json
  | .nil => some (.obj [])
  | .t => some (.bool true)
  | .int n => some (.int n)
  | .float text => some (.float text)
  | .str s => some (.str s)
  | .bytes _ => none
  | .list _ => none
  | .plist fields => (Datum.serializeFields fields).map .obj

def Datum.serializeFields : List (String × Datum) → Option (List (String × Json))
  | [] => some []
  | (name, value) :: fields =>
      match value.serialize, Datum.serializeFields fields with
      | some value, some fields => some ((name, value) :: fields)
      | _, _ => none

end

namespace Json

/-- A value that comes back from Lisp as it was: a number, a text, or fields with such. -/
def Plain : Json → Prop
  | .int _ => True
  | .float _ => True
  | .str _ => True
  | _ => False

theorem serialize_parse {value : Json} (plain : value.Plain) : value.parse.serialize = some value := by
  cases value with
  | int n => rfl
  | float text => rfl
  | str s => rfl
  | _ => cases plain

theorem serializeFields_parseFields {fields : List (String × Json)}
    (plain : ∀ field ∈ fields, field.2.Plain) :
    Datum.serializeFields (parseFields fields) = some fields := by
  induction fields with
  | nil => rfl
  | cons field fields ih =>
      have first := serialize_parse (plain field List.mem_cons_self)
      have others := ih fun other later => plain other (List.mem_cons_of_mem _ later)
      rw [parseFields, Datum.serializeFields, first, others]

/-- An object of numbers and texts comes back from Lisp as it was. -/
theorem serialize_parse_obj {fields : List (String × Json)} (some_field : fields ≠ [])
    (plain : ∀ field ∈ fields, field.2.Plain) :
    (Json.obj fields).parse.serialize = some (.obj fields) := by
  cases fields with
  | nil => exact absurd rfl some_field
  | cons field fields =>
      rw [parse, Datum.serialize, serializeFields_parseFields plain]
      · rfl
      · exact nofun

end Json

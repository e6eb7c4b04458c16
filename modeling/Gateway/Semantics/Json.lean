import Gateway.Semantics.Dict
import Mathlib.Data.List.Infix
import Mathlib.Data.Rat.Defs

/-! Parsed JSON documents under the operations of an untyped language: truth
values, lookup of a member, iteration, the membership test, dictionary keys. A
number is its value. -/
namespace Json

inductive Value where
  | null
  | bool (b : Bool)
  | num (q : ℚ)
  | str (s : String)
  | arr (items : List Value)
  | obj (members : List (String × Value))

/-- The members of an object as the document lists them. -/
abbrev Members := List (String × Value)

/-- `members.get(name)`; of a repeated member the last one counts. -/
def member? (members : Members) (name : String) : Option Value :=
  (members.reverse.find? fun m => decide (m.1 = name)).map Prod.snd

namespace Value

/-- `bool(value)` -/
def truthy : Value → Bool
  | .null => false
  | .bool b => b
  | .num q => decide (q ≠ 0)
  | .str s => decide (s ≠ "")
  | .arr items => !items.isEmpty
  | .obj members => !members.isEmpty

/-- The values of a `for` loop; `none` where the loop raises. -/
def iterate : Value → Option (List Value)
  | .str s => some (s.toList.map fun c => .str (String.singleton c))
  | .arr items => some items
  | .obj members => some ((Dict.ofList members).keys.map .str)
  | _ => none

def isText (text : String) : Value → Bool
  | .str s => decide (s = text)
  | _ => false

/-- `text in value`; `none` where the test raises. -/
def contains (text : String) : Value → Option Bool
  | .str s => some (decide (text.toList <:+: s.toList))
  | .arr items => some (items.any (isText text))
  | .obj members => some (members.any fun m => decide (m.1 = text))
  | _ => none

/-- A text for each hashable value, the same for values that are equal as
dictionary keys. -/
def hashKey : Value → Option String
  | .null => some "null"
  | .bool b => some (if b then "1/1" else "0/1")
  | .num q => some (toString q.num ++ "/" ++ toString q.den)
  | .str s => some ("'" ++ s)
  | _ => none

theorem isText_iff {text : String} {value : Value} : value.isText text = true ↔ value = .str text := by
  cases value <;> simp [isText]

/-- The membership test on a list asks for an element. -/
theorem contains_arr {text : String} {items : List Value} :
    (arr items).contains text = some true ↔ str text ∈ items := by
  simp only [contains, Option.some.injEq, List.any_eq_true, isText_iff, exists_eq_right]

end Value

end Json

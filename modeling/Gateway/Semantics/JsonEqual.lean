import Gateway.Semantics.Json

/-! Equality of parsed documents in an untyped language: a truth value equals the
number it counts as, and objects are equal as dictionaries, whatever the order of
their members. -/
namespace Json

namespace Value

/-- The number that a value counts as. -/
def number? : Value → Option ℚ
  | .bool b => some (if b then 1 else 0)
  | .num q => some q
  | _ => none

end Value

/-- The names of an object as a dictionary has them. -/
def names (members : Members) : List String := (members.map Prod.fst).dedup

mutual

/-- `value == other` -/
def Value.same : Value → Value → Bool
  | .null, .null => true
  | .bool b, other => decide (other.number? = some (if b then 1 else 0))
  | .num q, other => decide (other.number? = some q)
  | .str s, .str t => decide (s = t)
  | .arr items, .arr others => sameItems items others
  | .obj members, .obj others =>
      decide ((names members).length = (names others).length) && sameMembers members others
  | _, _ => false

def sameItems : List Value → List Value → Bool
  | [], [] => true
  | v :: items, w :: others => v.same w && sameItems items others
  | _, _ => false

/-- Every name leads to equal values; a member that is repeated later is hidden. -/
def sameMembers : Members → Members → Bool
  | [], _ => true
  | (name, v) :: members, others =>
      (decide (name ∈ members.map Prod.fst) ||
        match member? others name with
        | some w => v.same w
        | none => false) && sameMembers members others

end

theorem member?_append {members rest : Members} {name : String} {v : Value}
    (hLast : name ∉ rest.map Prod.fst) :
    member? (members ++ (name, v) :: rest) name = some v := by
  have hNone : rest.reverse.find? (fun m => decide (m.1 = name)) = none := by
    rw [List.find?_eq_none]
    intro m hm
    simp only [decide_eq_true_eq]
    rintro rfl
    exact hLast (List.mem_map_of_mem (List.mem_reverse.mp hm))
  simp [member?, hNone]

mutual

theorem Value.same_refl : ∀ v : Value, v.same v = true
  | .null => rfl
  | .bool b => by simp [Value.same, Value.number?]
  | .num q => by simp [Value.same, Value.number?]
  | .str s => by simp [Value.same]
  | .arr items => by
      rw [Value.same]
      exact sameItems_refl items
  | .obj members => by
      rw [Value.same, decide_eq_true rfl, Bool.true_and]
      exact sameMembers_refl members []

theorem sameItems_refl : ∀ items : List Value, sameItems items items = true
  | [] => rfl
  | v :: items => by
      rw [sameItems, Value.same_refl v, sameItems_refl items]
      rfl

theorem sameMembers_refl : ∀ (members before : Members),
    sameMembers members (before ++ members) = true
  | [], _ => rfl
  | (name, v) :: members, before => by
      have hRest := sameMembers_refl members (before ++ [(name, v)])
      rw [List.append_assoc, List.singleton_append] at hRest
      rw [sameMembers, hRest, Bool.and_true]
      by_cases hLater : name ∈ members.map Prod.fst
      · simp [hLater]
      · rw [member?_append hLater]
        simp [Value.same_refl v]

end

/-- The order of the members makes no difference, a truth value is its number. -/
example : (Value.obj [("a", .num 1), ("b", .null)]).same
    (.obj [("b", .null), ("a", .bool true)]) = true := by
  decide +kernel

end Json

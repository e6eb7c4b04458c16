import Gateway.Semantics.Dict
import Gateway.Semantics.Text

/-! A binary JSON column: what it stores of an object of texts and objects of
texts, and what is read back. -/
namespace Jsonb

open Text

inductive Value where
  | null
  | str (s : String)
  | obj (fields : Dict String String)

abbrev Object := Dict String Value

/-- U+0000 has no place in a stored text. -/
def storableText (s : String) : Bool := decide (Char.ofNat 0 ∉ s.toList)

def Value.storable : Value → Bool
  | .null => true
  | .str s => storableText s
  | .obj fields => fields.items.all fun e => storableText e.1 && storableText e.2

/-- The order of keys: shorter ones first, then byte by byte. -/
def keyLe (k k' : String) : Prop :=
  (utf8 k).length < (utf8 k').length ∨ (utf8 k).length = (utf8 k').length ∧ utf8 k ≤ utf8 k'

instance : DecidableRel keyLe := fun _ _ =>
  inferInstanceAs (Decidable (_ < _ ∨ _ = _ ∧ _ ≤ _))

variable {V : Type*}

/-- An object with its keys in order. -/
def normal (d : Dict String V) : Dict String V where
  items := d.items.insertionSort fun e e' => keyLe e.1 e'.1
  nodup := (((List.perm_insertionSort _ d.items).map Prod.fst).nodup_iff).mpr d.nodup

def Value.normal : Value → Value
  | .obj fields => .obj (Jsonb.normal fields)
  | v => v

def mapValues {W : Type*} (f : V → W) (d : Dict String V) : Dict String W where
  items := d.items.map fun e => (e.1, f e.2)
  nodup := by
    rw [List.map_map]
    exact d.nodup

/-- What is read back after an object was written; `none` if it is refused. -/
def store (o : Object) : Option Object :=
  if o.items.all fun e => storableText e.1 && e.2.storable then
    some (normal (mapValues Value.normal o))
  else none

theorem normal_perm (d : Dict String V) : (normal d).items.Perm d.items :=
  List.perm_insertionSort _ d.items

theorem get?_mapValues {W : Type*} (f : V → W) (d : Dict String V) (k : String) :
    (mapValues f d).get? k = (d.get? k).map f := by
  simp only [Dict.get?, mapValues, List.find?_map, Option.map_map]
  rfl

/-- Every member is read back under its key. -/
theorem get?_store {o stored : Object} (h : store o = some stored) (k : String) :
    stored.get? k = (o.get? k).map Value.normal := by
  unfold store at h
  split_ifs at h
  cases h
  rw [Dict.get?_perm (normal_perm _), get?_mapValues]

end Jsonb

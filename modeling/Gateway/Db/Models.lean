import Mathlib.Data.String.Defs
import Mathlib.Tactic.Common

/-! `gateway/db/models.py`: the columns that the request path and the worker
read. Identifiers are UUIDs in their canonical text. -/
namespace Gateway.Db

/-- A UUID as `str(uuid)` prints it. -/
structure Uuid where
  text : String
  canonical : text.toList.length = 36 ∧
    ∀ c ∈ text.toList, c ∈ "0123456789abcdef-".toList
  deriving DecidableEq

theorem canonical_nil : "00000000-0000-0000-0000-000000000000".toList.length = 36 ∧
    ∀ c ∈ "00000000-0000-0000-0000-000000000000".toList, c ∈ "0123456789abcdef-".toList :=
  ⟨rfl, by simp⟩

/-- The nil UUID. -/
def Uuid.nil : Uuid := ⟨"00000000-0000-0000-0000-000000000000", canonical_nil⟩

theorem Uuid.text_injective {u v : Uuid} (h : u.text = v.text) : u = v := by
  cases u
  cases v
  simpa using h

theorem Uuid.colon_notMem (u : Uuid) : ':' ∉ u.text.toList := fun h =>
  absurd (u.canonical.2 _ h) (by decide)

structure VendorApiKey where
  id : Uuid
  vendorId : Uuid
  keyName : String
  quotaLimit : Option Int
  quotaPeriod : Option String
  isActive : Bool
  deriving DecidableEq

structure VendorEndpoint where
  id : Uuid
  vendorId : Uuid
  path : String
  method : String
  cacheTtlOverride : Option Int
  isAsyncJob : Bool
  timeoutSeconds : Int
  deriving DecidableEq

end Gateway.Db

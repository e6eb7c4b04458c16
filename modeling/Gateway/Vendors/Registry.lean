import Gateway.Vendors.Adapters
import Mathlib.Algebra.Order.Ring.Rat

/-! `gateway/vendors/registry.py`: the vendor configurations in memory and the
adapters that are built from them. -/
namespace Gateway.Vendors

open Json Gateway.Db

/-- A row of `vendors`, and the `VendorConfig` that `load` makes of it: the
fields are the same. -/
structure Vendor extends VendorConfig where
  name : String
  authType : String
  authConfig : Members
  rateLimitRpm : ℤ
  isActive : Bool

/-- An adapter with the configuration that it was built from. -/
structure BuiltAdapter where
  authType : String
  authConfig : Members
  adapter : Adapter
  built : buildAdapter authType authConfig = some adapter

/-- `VendorRegistry` without its lock. -/
structure VendorRegistry where
  refreshInterval : ℚ
  vendors : Dict String Vendor
  adapters : Dict String BuiltAdapter
  lastLoaded : ℚ

/-- How a lookup of an adapter ends. -/
inductive AdapterLookup where
  | absent
  | raised
  | found (a : BuiltAdapter)

namespace VendorRegistry

/-- A new registry. -/
def empty (refreshInterval : ℚ) : VendorRegistry := ⟨refreshInterval, Dict.empty, Dict.empty, 0⟩

variable (r : VendorRegistry)

def isStale (now : ℚ) : Bool := decide (r.refreshInterval < now - r.lastLoaded)

/-- The end of `load`, with the rows that its query brought. -/
def install (rows : List Vendor) (now : ℚ) : VendorRegistry :=
  { r with
    vendors := Dict.ofList (rows.map fun v => (v.slug, v))
    adapters := Dict.empty
    lastLoaded := now }

def get (slug : String) : Option Vendor := r.vendors.get? slug

/-- `get_adapter`; nothing is kept when the adapter cannot be built. -/
def getAdapter (slug : String) : VendorRegistry × AdapterLookup :=
  match r.vendors.get? slug with
  | none => (r, .absent)
  | some config =>
      match r.adapters.get? slug with
      | some a => (r, .found a)
      | none =>
          match h : buildAdapter config.authType config.authConfig with
          | none => (r, .raised)
          | some adapter =>
              let a : BuiltAdapter := ⟨config.authType, config.authConfig, adapter, h⟩
              ({ r with adapters := r.adapters.insert slug a }, .found a)

def allVendors : List Vendor := r.vendors.items.map Prod.snd

def getById (vendorId : String) : Option Vendor :=
  r.allVendors.find? fun config => decide (config.id.text = vendorId)

def getAdapterById (vendorId : String) : VendorRegistry × AdapterLookup :=
  match r.getById vendorId with
  | none => (r, .absent)
  | some config => r.getAdapter config.slug

/-- `invalidate`, of one vendor or of all. -/
def invalidate (slug : Option String) : VendorRegistry :=
  match slug with
  | none => { r with adapters := Dict.empty, lastLoaded := 0 }
  | some slug => { r with adapters := r.adapters.filterKeys fun k => k ≠ slug, lastLoaded := 0 }

variable {r}

@[simp] theorem getAdapter_vendors (slug : String) :
    (r.getAdapter slug).1.vendors = r.vendors := by
  unfold getAdapter
  split
  · rfl
  · split
    · rfl
    · split <;> rfl

@[simp] theorem getAdapterById_vendors (vendorId : String) :
    (r.getAdapterById vendorId).1.vendors = r.vendors := by
  unfold getAdapterById
  split
  · rfl
  · exact getAdapter_vendors _

@[simp] theorem invalidate_vendors (slug : Option String) :
    (r.invalidate slug).vendors = r.vendors := by
  cases slug <;> rfl

/-- Each adapter is built from the configuration under its slug, and each
configuration is under its own slug. -/
structure Agree (r : VendorRegistry) : Prop where
  adapter : ∀ slug a, (slug, a) ∈ r.adapters.items → ∃ config, r.get slug = some config ∧
    a.authType = config.authType ∧ a.authConfig = config.authConfig
  slug : ∀ e ∈ r.vendors.items, e.1 = e.2.slug

theorem agree_empty (refreshInterval : ℚ) : (empty refreshInterval).Agree := by
  constructor
  · intro slug a h
    cases h
  · intro e h
    cases h

theorem agree_install (rows : List Vendor) (now : ℚ) : (r.install rows now).Agree := by
  constructor
  · intro slug a h
    cases h
  · intro e h
    obtain ⟨v, -, rfl⟩ := List.mem_map.mp (Dict.of_mem_ofList h)
    rfl

theorem Agree.invalidate (h : r.Agree) (slug : Option String) : (r.invalidate slug).Agree := by
  constructor
  · intro key a hMem
    cases slug with
    | none => cases hMem
    | some slug => exact h.adapter key a (List.mem_filter.mp hMem).1
  · intro e hMem
    rw [invalidate_vendors] at hMem
    exact h.slug e hMem

/-- What `get_adapter` can do: nothing, or build the adapter of the present
configuration and keep it. -/
theorem getAdapter_cases (slug : String) :
    (r.getAdapter slug = (r, .absent) ∧ r.get slug = none) ∨
      (∃ config, r.get slug = some config ∧ ((r.getAdapter slug = (r, .raised) ∧
          buildAdapter config.authType config.authConfig = none) ∨
        (∃ a, r.adapters.get? slug = some a ∧ r.getAdapter slug = (r, .found a)) ∨
        ∃ a : BuiltAdapter, a.authType = config.authType ∧ a.authConfig = config.authConfig ∧
          r.getAdapter slug = ({ r with adapters := r.adapters.insert slug a }, .found a))) := by
  unfold get getAdapter
  cases r.vendors.get? slug with
  | none => exact Or.inl ⟨rfl, rfl⟩
  | some config =>
      refine Or.inr ⟨config, rfl, ?_⟩
      cases hAdapter : r.adapters.get? slug with
      | some a => exact Or.inr (Or.inl ⟨a, rfl, rfl⟩)
      | none =>
          dsimp only
          split
          · rename_i hBuild
            exact Or.inl ⟨rfl, hBuild⟩
          · rename_i adapter hBuild
            exact Or.inr (Or.inr ⟨⟨_, _, adapter, hBuild⟩, rfl, rfl, rfl⟩)

theorem Agree.getAdapter (h : r.Agree) (slug : String) : (r.getAdapter slug).1.Agree := by
  rcases getAdapter_cases (r := r) slug with ⟨hSame, -⟩ | ⟨config, hGet, ⟨hSame, -⟩ | ⟨a, -, hSame⟩ |
    ⟨a, hType, hConfig, hNew⟩⟩
  · rw [hSame]
    exact h
  · rw [hSame]
    exact h
  · rw [hSame]
    exact h
  · rw [hNew]
    constructor
    · intro key a' hMem
      cases Dict.mem_items_insert.mp hMem with
      | inl hEntry =>
          cases hEntry
          exact ⟨config, hGet, hType, hConfig⟩
      | inr hOld => exact h.adapter key a' hOld.1
    · exact h.slug

theorem Agree.getAdapterById (h : r.Agree) (vendorId : String) :
    (r.getAdapterById vendorId).1.Agree := by
  unfold VendorRegistry.getAdapterById
  split
  · exact h
  · exact h.getAdapter _

/-- The adapter that is returned was built from the configuration that `get` returns. -/
theorem Agree.found (h : r.Agree) {slug : String} {a : BuiltAdapter}
    (hFound : (r.getAdapter slug).2 = .found a) : ∃ config, r.get slug = some config ∧
      a.authType = config.authType ∧ a.authConfig = config.authConfig := by
  rcases getAdapter_cases (r := r) slug with ⟨hSame, -⟩ | ⟨config, hGet, ⟨hSame, -⟩ |
    ⟨a', hOld, hSame⟩ | ⟨a', hType, hConfig, hNew⟩⟩
  · rw [hSame] at hFound
    cases hFound
  · rw [hSame] at hFound
    cases hFound
  · rw [hSame] at hFound
    cases hFound
    exact h.adapter slug a (Dict.get?_eq_some.mp hOld)
  · rw [hNew] at hFound
    cases hFound
    exact ⟨config, hGet, hType, hConfig⟩

/-- A configuration that is found by its identifier is the one under its slug. -/
theorem Agree.getById (h : r.Agree) {vendorId : String} {config : Vendor}
    (hGet : r.getById vendorId = some config) :
    config.id.text = vendorId ∧ r.get config.slug = some config := by
  have hId : config.id.text = vendorId := by
    simpa using List.find?_some hGet
  obtain ⟨e, hItem, rfl⟩ := List.mem_map.mp (List.mem_of_find?_eq_some hGet)
  refine ⟨hId, Dict.get?_eq_some.mpr ?_⟩
  rw [← h.slug e hItem]
  exact hItem

theorem Agree.foundById (h : r.Agree) {vendorId : String} {a : BuiltAdapter}
    (hFound : (r.getAdapterById vendorId).2 = .found a) :
    ∃ config, r.getById vendorId = some config ∧
      a.authType = config.authType ∧ a.authConfig = config.authConfig := by
  unfold VendorRegistry.getAdapterById at hFound
  cases hGet : r.getById vendorId with
  | none =>
      rw [hGet] at hFound
      cases hFound
  | some config =>
      rw [hGet] at hFound
      obtain ⟨config', hSlug, hBuilt⟩ := h.found hFound
      rw [(h.getById hGet).2] at hSlug
      cases hSlug
      exact ⟨config, rfl, hBuilt⟩

end VendorRegistry

end Gateway.Vendors

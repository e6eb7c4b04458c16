import Gateway.Admin.VendorLimits
import Gateway.Semantics.Transition
import Gateway.Vendors.Registry

/-! `create_vendor` and `update_vendor`, and what the proxy makes of the rows that
they commit. The schemas check neither that a configuration has what its adapter
needs nor that a field that is given is not null. -/
namespace Gateway.Admin

open Transition Json Gateway.Vendors Gateway.Db

/-- A row of `vendors`. `auth_config` is a JSON column, in which `None` is stored
as the document `null`. -/
structure Row extends VendorConfig where
  name : String
  authType : AuthType
  authConfig : Option Members
  rateLimitRpm : ℤ
  isActive : Bool

/-- What the column types can hold besides integers: texts, texts with a unique
index, and JSON documents. -/
structure Columns where
  text : String → Bool
  indexed : String → Bool
  jsonb : Members → Bool

/-- The rows with their primary key and their unique index. -/
structure Table where
  rows : List Row
  ids : (rows.map fun row => row.id).Nodup
  slugs : (rows.map fun row => row.slug).Nodup

/-- How a call ends: with a response, or with an exception that nothing catches. -/
inductive Answer where
  | http (statusCode : ℕ)
  | escaped
  deriving DecidableEq

def AuthType.text : AuthType → String
  | .apiKey => "api_key"
  | .oauth2 => "oauth2"
  | .basic => "basic"
  | .custom => "custom"

section Calls

variable (columns : Columns)

def Columns.fits (row : Row) : Bool :=
  columns.text row.name && columns.text row.slug && columns.indexed row.slug &&
    columns.text row.baseUrl && row.authConfig.all columns.jsonb &&
    (integerColumn row.cacheTtlSeconds).isSome && (integerColumn row.rateLimitRpm).isSome

/-- The row that `create_vendor` adds. -/
def VendorCreate.row (body : VendorCreate) (id : Uuid) : Row where
  id := id
  slug := body.slug
  baseUrl := body.baseUrl
  cacheTtlSeconds := body.cacheTtlSeconds
  name := body.name
  authType := body.authType
  authConfig := some body.authConfig
  rateLimitRpm := body.rateLimitRpm
  isActive := true

def Table.taken (table : Table) (row : Row) : Prop :=
  row.id ∈ table.rows.map (fun row => row.id) ∨ row.slug ∈ table.rows.map (fun row => row.slug)

instance (table : Table) (row : Row) : Decidable (table.taken row) :=
  inferInstanceAs (Decidable (_ ∨ _))

def Table.insert (table : Table) (row : Row) (h : ¬table.taken row) : Table where
  rows := row :: table.rows
  ids := List.nodup_cons.mpr ⟨fun hMem => h (Or.inl hMem), table.ids⟩
  slugs := List.nodup_cons.mpr ⟨fun hMem => h (Or.inr hMem), table.slugs⟩

/-- `create_vendor`; of the exceptions of the commit it catches `IntegrityError`. -/
def createVendor (table : Table) (id : Uuid) (body : VendorCreate) : Table × Answer :=
  if columns.fits (body.row id) then
    if h : table.taken (body.row id) then (table, .http 409)
    else (table.insert (body.row id) h, .http 201)
  else (table, .escaped)

def Field.isNull {α : Type} : Field α → Bool
  | .null => true
  | _ => false

def Field.getD {α : Type} : Field α → α → α
  | .value a, _ => a
  | _, stored => stored

/-- A column that is NOT NULL is set to `None`. -/
def VendorUpdate.nulls (body : VendorUpdate) : Bool :=
  body.name.isNull || body.baseUrl.isNull || body.authType.isNull ||
    body.cacheTtlSeconds.isNull || body.rateLimitRpm.isNull || body.isActive.isNull

/-- The row after the loop over `update_data`, if no such column is `None`. -/
def Row.merged (row : Row) (body : VendorUpdate) : Row where
  id := row.id
  slug := row.slug
  baseUrl := body.baseUrl.getD row.baseUrl
  cacheTtlSeconds := body.cacheTtlSeconds.getD row.cacheTtlSeconds
  name := body.name.getD row.name
  authType := body.authType.getD row.authType
  authConfig :=
    match body.authConfig with
    | .unset => row.authConfig
    | .null => none
    | .value config => some config
  rateLimitRpm := body.rateLimitRpm.getD row.rateLimitRpm
  isActive := body.isActive.getD row.isActive

def Table.update (table : Table) (id : Uuid) (body : VendorUpdate) : Table where
  rows := table.rows.map fun row => if row.id = id then row.merged body else row
  ids := by
    have hIds : (fun row : Row => row.id) ∘ (fun row => if row.id = id then row.merged body else row) =
        fun row => row.id := by
      funext row
      by_cases h : row.id = id <;> simp [h, Row.merged]
    rw [List.map_map, hIds]
    exact table.ids
  slugs := by
    have hSlugs : (fun row : Row => row.slug) ∘
        (fun row => if row.id = id then row.merged body else row) = fun row => row.slug := by
      funext row
      by_cases h : row.id = id <;> simp [h, Row.merged]
    rw [List.map_map, hSlugs]
    exact table.slugs

/-- `update_vendor`; the response needs a configuration that is an object. -/
def updateVendor (table : Table) (id : Uuid) (body : VendorUpdate) : Table × Answer :=
  match table.rows.find? fun row => decide (row.id = id) with
  | none => (table, .http 404)
  | some row =>
      if !body.nulls && columns.fits (row.merged body) then
        (table.update id body,
          if (row.merged body).authConfig.isSome then .http 200 else .escaped)
      else (table, .escaped)

inductive Call where
  | create (id : Uuid) (body : VendorCreate)
  | update (id : Uuid) (body : VendorUpdate)

def call (table : Table) : Call → Table × Answer
  | .create id body => createVendor columns table id body
  | .update id body => updateVendor columns table id body

/-- Calls one after the other on a table that is empty at first. -/
def calls : System Table Call where
  init table := table.rows = []
  step table c := some (call columns table c).1

end Calls

/-- What the proxy makes of a slug: a response without an adapter, an adapter, or
an exception. -/
inductive Resolved where
  | http (statusCode : ℕ)
  | adapter (a : Adapter)
  | escaped

def Row.adapter? (row : Row) : Option Adapter := row.authConfig.bind (buildAdapter row.authType.text)

/-- `registry.get` and `registry.get_adapter` of the proxy, once the registry is
loaded from the table. -/
def resolve (table : Table) (slug : String) : Resolved :=
  match table.rows.find? fun row => row.isActive && decide (row.slug = slug) with
  | none => .http 404
  | some row =>
      match row.adapter? with
      | none => .escaped
      | some a => .adapter a

/-- The configuration has what the adapter of this type needs. -/
def Buildable (config : Members) : AuthType → Prop
  | .apiKey => (member? config "key_reference").isSome ∧
      ((configValue config "header_name").truthy ∨ (configValue config "query_param").truthy)
  | .oauth2 => (member? config "token_url").isSome ∧ (member? config "client_id_ref").isSome ∧
      (member? config "client_secret_ref").isSome
  | .basic => (member? config "username_ref").isSome ∧ (member? config "password_ref").isSome
  | .custom => (configValue config "headers").truthy

theorem buildable_iff {config : Members} {authType : AuthType} :
    (buildAdapter authType.text config).isSome ↔ Buildable config authType := by
  cases authType with
  | apiKey =>
      change (buildApiKey config).isSome ↔ _
      cases hKey : member? config "key_reference" with
      | none => simp [buildApiKey, Buildable, hKey]
      | some key =>
          cases hHeader : (configValue config "header_name").truthy <;>
            cases hQuery : (configValue config "query_param").truthy <;>
              simp [buildApiKey, Buildable, hKey, hHeader, hQuery]
  | oauth2 =>
      change (buildOAuth2 config).isSome ↔ _
      cases hUrl : member? config "token_url" <;> cases hId : member? config "client_id_ref" <;>
        cases hSecret : member? config "client_secret_ref" <;>
          simp [buildOAuth2, Buildable, hUrl, hId, hSecret]
  | basic =>
      change (buildBasic config).isSome ↔ _
      cases hName : member? config "username_ref" <;> cases hWord : member? config "password_ref" <;>
        simp [buildBasic, Buildable, hName, hWord]
  | custom =>
      change (buildCustom config).isSome ↔ _
      cases hHeaders : member? config "headers" with
      | none => simp [buildCustom, Buildable, configValue, hHeaders, Value.truthy]
      | some headers =>
          cases hTruthy : headers.truthy <;>
            simp [buildCustom, Buildable, configValue, hHeaders, hTruthy]

/-- The row can be served: its configuration is an object, and one that its
adapter can be built from unless the vendor is switched off. -/
def Row.Servable (row : Row) : Prop :=
  ∃ config, row.authConfig = some config ∧ (row.isActive = true → Buildable config row.authType)

/-- A call is clean: it commits, or it answers 4xx and changes nothing, and no
row that is there afterwards makes the proxy raise. -/
structure Clean (table table' : Table) (answer : Answer) : Prop where
  answered : ∃ statusCode, answer = .http statusCode ∧
    (200 ≤ statusCode ∧ statusCode < 300 ∨
      400 ≤ statusCode ∧ statusCode < 500 ∧ table' = table)
  served : ∀ slug, resolve table' slug ≠ .escaped

/-- The body has no null, its values fit the columns, and a vendor that is
switched on after the call can be built an adapter. A slug that is taken and an
identifier that is unknown are refused as they should be. -/
def Sound (columns : Columns) (table : Table) : Call → Prop
  | .create id body => columns.fits (body.row id) = true ∧
      (table.taken (body.row id) ∨ Buildable body.authConfig body.authType)
  | .update id body => ∀ row ∈ table.rows, row.id = id → body.nulls = false ∧
      body.authConfig.isNull = false ∧ columns.fits (row.merged body) = true ∧
        ((row.merged body).isActive = true → ∀ config, (row.merged body).authConfig = some config →
          Buildable config (row.merged body).authType)

section Serving

variable {columns : Columns} {table : Table} {row : Row} {config : Members}

theorem adapter?_isSome (h : row.authConfig = some config) :
    row.adapter?.isSome ↔ Buildable config row.authType := by
  rw [Row.adapter?, h, Option.bind_some]
  exact buildable_iff

/-- The rows with a slug are one at most. -/
theorem eq_of_slug {row' : Row} (h : row ∈ table.rows) (h' : row' ∈ table.rows)
    (hSlug : row.slug = row'.slug) : row = row' :=
  List.inj_on_of_nodup_map table.slugs h h' hSlug

/-- The proxy raises for a slug exactly if an active row with it builds no adapter. -/
theorem resolve_escaped {slug : String} : resolve table slug = .escaped ↔
    ∃ row ∈ table.rows, row.isActive = true ∧ row.slug = slug ∧ row.adapter? = none := by
  unfold resolve
  cases hFind : table.rows.find? fun row => row.isActive && decide (row.slug = slug) with
  | none =>
      have hNone := List.find?_eq_none.mp hFind
      refine iff_of_false (by simp) ?_
      rintro ⟨row, hMem, hActive, hSlug, -⟩
      exact hNone row hMem (by simp [hActive, hSlug])
  | some found =>
      have hFound : found.isActive = true ∧ found.slug = slug := by
        simpa using List.find?_some hFind
      have hMem := List.mem_of_find?_eq_some hFind
      have hOnly : (∃ row ∈ table.rows, row.isActive = true ∧ row.slug = slug ∧
          row.adapter? = none) ↔ found.adapter? = none := by
        constructor
        · rintro ⟨row, hRow, -, hSlug, hNone⟩
          rwa [eq_of_slug hMem hRow (hFound.2.trans hSlug.symm)]
        · intro hNone
          exact ⟨found, hMem, hFound.1, hFound.2, hNone⟩
      rw [hOnly]
      cases hAdapter : found.adapter? <;> simp [hAdapter]

/-- Servable rows never make the proxy raise. -/
theorem resolve_of_servable (h : ∀ row ∈ table.rows, row.Servable) (slug : String) :
    resolve table slug ≠ .escaped := by
  intro hEscaped
  obtain ⟨row, hMem, hActive, -, hNone⟩ := resolve_escaped.mp hEscaped
  obtain ⟨config, hConfig, hBuildable⟩ := h row hMem
  have hSome := (adapter?_isSome hConfig).mpr (hBuildable hActive)
  rw [hNone] at hSome
  cases hSome

/-- An active row that the proxy does not raise for has what its adapter needs. -/
theorem buildable_of_served (h : ∀ slug, resolve table slug ≠ .escaped) (hMem : row ∈ table.rows)
    (hActive : row.isActive = true) (hConfig : row.authConfig = some config) :
    Buildable config row.authType := by
  rw [← adapter?_isSome hConfig]
  by_contra hNone
  exact h row.slug (resolve_escaped.mpr ⟨row, hMem, hActive, rfl, by simpa using hNone⟩)

end Serving

section Runs

variable {columns : Columns} {table : Table}

theorem find_id {id : Uuid} {row : Row}
    (h : table.rows.find? (fun row => decide (row.id = id)) = some row) :
    row ∈ table.rows ∧ row.id = id :=
  ⟨List.mem_of_find?_eq_some h, by simpa using List.find?_some h⟩

theorem eq_of_id {row row' : Row} (h : row ∈ table.rows) (h' : row' ∈ table.rows)
    (hId : row.id = row'.id) : row = row' :=
  List.inj_on_of_nodup_map table.ids h h' hId

theorem mem_update {id : Uuid} {body : VendorUpdate} {row : Row} :
    row ∈ (table.update id body).rows ↔
      (∃ old ∈ table.rows, old.id = id ∧ row = old.merged body) ∨ row ∈ table.rows ∧ row.id ≠ id := by
  simp only [Table.update, List.mem_map]
  constructor
  · rintro ⟨old, hOld, rfl⟩
    by_cases hId : old.id = id
    · rw [if_pos hId]
      exact Or.inl ⟨old, hOld, hId, rfl⟩
    · rw [if_neg hId]
      exact Or.inr ⟨hOld, hId⟩
  · rintro (⟨old, hOld, hId, rfl⟩ | ⟨hRow, hId⟩)
    · exact ⟨old, hOld, if_pos hId⟩
    · exact ⟨row, hRow, if_neg hId⟩

/-- An update without a null keeps an object for a configuration. -/
theorem merged_config {row : Row} {body : VendorUpdate} {config : Members}
    (hConfig : row.authConfig = some config) (hNull : body.authConfig.isNull = false) :
    ∃ config', (row.merged body).authConfig = some config' := by
  cases hBody : body.authConfig with
  | unset => exact ⟨config, by simp [Row.merged, hBody, hConfig]⟩
  | null => simp [hBody, Field.isNull] at hNull
  | value config' => exact ⟨config', by simp [Row.merged, hBody]⟩

/-- Sound calls leave servable rows servable. -/
theorem servable_call {c : Call} (h : ∀ row ∈ table.rows, row.Servable)
    (hSound : Sound columns table c) : ∀ row ∈ (call columns table c).1.rows, row.Servable := by
  cases c with
  | create id body =>
      obtain ⟨hFits, hNew⟩ := hSound
      rw [call, createVendor, if_pos hFits]
      split_ifs with hTaken
      · exact h
      · intro row hRow
        rcases List.mem_cons.mp hRow with rfl | hOld
        · exact ⟨body.authConfig, rfl, fun _ => hNew.resolve_left hTaken⟩
        · exact h row hOld
  | update id body =>
      rw [call, updateVendor]
      cases hFind : table.rows.find? fun row => decide (row.id = id) with
      | none => exact h
      | some found =>
          obtain ⟨hFound, hId⟩ := find_id hFind
          obtain ⟨hNulls, hConfig, hFits, hBuildable⟩ := hSound found hFound hId
          simp only [hNulls, hFits, Bool.not_false, Bool.and_self, if_true]
          intro row hRow
          rcases mem_update.mp hRow with ⟨old, hOld, hOldId, rfl⟩ | ⟨hOld, -⟩
          · obtain rfl := eq_of_id hOld hFound (hOldId.trans hId.symm)
            obtain ⟨config, hHas, -⟩ := h old hOld
            obtain ⟨config', hMerged⟩ := merged_config hHas hConfig
            exact ⟨config', hMerged, fun hActive => hBuildable hActive config' hMerged⟩
          · exact h row hOld

theorem reached_servable (run : (calls columns).Reaches (Sound columns) table) :
    ∀ row ∈ table.rows, row.Servable := by
  refine run.invariant (I := fun table : Table => ∀ row ∈ table.rows, row.Servable) ?_ ?_
  · intro table hInit row hRow
    have hEmpty : table.rows = [] := hInit
    rw [hEmpty] at hRow
    cases hRow
  · intro table table' c _ ih hSound hStep
    cases hStep
    exact servable_call ih hSound

/-- A call on servable rows is clean exactly if it is sound. -/
theorem clean_iff {c : Call} (h : ∀ row ∈ table.rows, row.Servable) :
    Clean table (call columns table c).1 (call columns table c).2 ↔ Sound columns table c := by
  constructor
  · rintro ⟨⟨statusCode, hAnswer, -⟩, hServed⟩
    cases c with
    | create id body =>
        rw [call, createVendor] at hAnswer hServed
        by_cases hFits : columns.fits (body.row id) = true
        · refine ⟨hFits, ?_⟩
          by_cases hTaken : table.taken (body.row id)
          · exact Or.inl hTaken
          · rw [if_pos hFits, dif_neg hTaken] at hServed
            have hMem : body.row id ∈ (table.insert (body.row id) hTaken).rows := List.mem_cons_self
            exact Or.inr (buildable_of_served hServed hMem rfl rfl)
        · rw [if_neg hFits] at hAnswer
          cases hAnswer
    | update id body =>
        intro row hRow hId
        rw [call, updateVendor] at hAnswer hServed
        cases hFind : table.rows.find? fun row => decide (row.id = id) with
        | none => exact absurd hId (by simpa using List.find?_eq_none.mp hFind row hRow)
        | some found =>
            obtain ⟨hFound, hFoundId⟩ := find_id hFind
            obtain rfl := eq_of_id hFound hRow (hFoundId.trans hId.symm)
            simp only [hFind] at hAnswer hServed
            by_cases hCommits : (!body.nulls && columns.fits (found.merged body)) = true
            · obtain ⟨hNulls, hFits⟩ := Bool.and_eq_true_iff.mp hCommits
              simp only [hCommits, if_true] at hAnswer hServed
              have hMem : found.merged body ∈ (table.update id body).rows :=
                mem_update.mpr (Or.inl ⟨found, hFound, hId, rfl⟩)
              refine ⟨by simpa using hNulls, ?_, hFits, ?_⟩
              · cases hBody : body.authConfig with
                | null => simp [Row.merged, hBody] at hAnswer
                | unset | value config => rfl
              · intro hActive config hConfig
                exact buildable_of_served hServed hMem hActive hConfig
            · rw [if_neg hCommits] at hAnswer
              cases hAnswer
  · intro hSound
    refine ⟨?_, resolve_of_servable (servable_call h hSound)⟩
    cases c with
    | create id body =>
        rw [call, createVendor, if_pos hSound.1]
        split_ifs with hTaken
        · exact ⟨409, rfl, Or.inr ⟨by decide, by decide, rfl⟩⟩
        · exact ⟨201, rfl, Or.inl ⟨by decide, by decide⟩⟩
    | update id body =>
        rw [call, updateVendor]
        cases hFind : table.rows.find? fun row => decide (row.id = id) with
        | none => exact ⟨404, rfl, Or.inr ⟨by decide, by decide, rfl⟩⟩
        | some found =>
            obtain ⟨hFound, hId⟩ := find_id hFind
            obtain ⟨hNulls, hConfig, hFits, -⟩ := hSound found hFound hId
            obtain ⟨config, hHas, -⟩ := h found hFound
            obtain ⟨config', hMerged⟩ := merged_config hHas hConfig
            simp only [hNulls, hFits, hMerged, Bool.not_false, Bool.and_self, if_true,
              Option.isSome_some]
            exact ⟨200, rfl, Or.inl ⟨by decide, by decide⟩⟩

end Runs

section Registry

variable {table : Table}

/-- The row as `load` reads it, with an object for a configuration. -/
def Row.vendor (row : Row) (config : Members) : Vendor where
  toVendorConfig := row.toVendorConfig
  name := row.name
  authType := row.authType.text
  authConfig := config
  rateLimitRpm := row.rateLimitRpm
  isActive := row.isActive

/-- The active rows, as a load brings them. -/
def Table.vendors (table : Table) : List Vendor :=
  table.rows.filterMap fun row => if row.isActive then row.authConfig.map row.vendor else none

theorem mem_vendors {v : Vendor} : v ∈ table.vendors ↔ ∃ row ∈ table.rows, row.isActive = true ∧
    ∃ config, row.authConfig = some config ∧ row.vendor config = v := by
  simp [Table.vendors, List.mem_filterMap]

theorem vendors_get {r : VendorRegistry} {now : ℚ} {slug : String} {v : Vendor} :
    (r.install table.vendors now).get slug = some v ↔ v ∈ table.vendors ∧ v.slug = slug := by
  have hSublist : (table.vendors.map fun v => v.slug).Sublist (table.rows.map fun row => row.slug) := by
    have hSlugs : (table.vendors.map fun v => v.slug) = table.rows.filterMap fun row =>
        if row.isActive then row.authConfig.map fun _ => row.slug else none := by
      rw [Table.vendors, List.map_filterMap]
      refine List.filterMap_congr fun row _ => ?_
      cases row.isActive <;> cases row.authConfig <;> rfl
    rw [hSlugs]
    generalize table.rows = rows
    induction rows with
    | nil => exact List.Sublist.refl _
    | cons row rows ih =>
        rw [List.map_cons, List.filterMap_cons]
        split
        · exact ih.cons _
        · rename_i slug hSlug
          have hSame : slug = row.slug := by
            split_ifs at hSlug
            obtain ⟨-, -, rfl⟩ := Option.map_eq_some_iff.mp hSlug
            rfl
          rw [hSame]
          exact ih.cons_cons _
  have hNodup : ((table.vendors.map fun v => (v.slug, v)).map Prod.fst).Nodup := by
    rw [List.map_map]
    exact hSublist.nodup table.slugs
  have hItems : (r.install table.vendors now).vendors.items =
      table.vendors.map fun v => (v.slug, v) := Dict.ofList_items hNodup
  rw [VendorRegistry.get, Dict.get?_eq_some, hItems, List.mem_map]
  constructor
  · rintro ⟨v', hMem, hSame⟩
    cases hSame
    exact ⟨hMem, rfl⟩
  · rintro ⟨hMem, rfl⟩
    exact ⟨v, hMem, rfl⟩

/-- A registry that was just loaded answers for a slug as its row does. -/
theorem resolve_registry (hConfigs : ∀ row ∈ table.rows, row.authConfig.isSome)
    (r : VendorRegistry) (now : ℚ) (slug : String) :
    resolve table slug =
      match ((r.install table.vendors now).getAdapter slug).2 with
      | .absent => .http 404
      | .raised => .escaped
      | .found a => .adapter a.adapter := by
  unfold resolve
  cases hFind : table.rows.find? fun row => row.isActive && decide (row.slug = slug) with
  | none =>
      have hAbsent : (r.install table.vendors now).get slug = none := by
        rw [Option.eq_none_iff_forall_ne_some]
        intro v hGet
        obtain ⟨hMem, hSlug⟩ := vendors_get.mp hGet
        obtain ⟨row, hRow, hActive, config, -, rfl⟩ := mem_vendors.mp hMem
        have hSame : row.slug = slug := hSlug
        exact List.find?_eq_none.mp hFind row hRow (by simp [hActive, hSame])
      rcases VendorRegistry.getAdapter_cases (r := r.install table.vendors now) slug with
        ⟨hLookup, -⟩ | ⟨config, hGet, -⟩
      · rw [hLookup]
      · rw [hAbsent] at hGet
        cases hGet
  | some found =>
      have hFound : found.isActive = true ∧ found.slug = slug := by
        simpa using List.find?_some hFind
      have hMem := List.mem_of_find?_eq_some hFind
      obtain ⟨config, hConfig⟩ := Option.isSome_iff_exists.mp (hConfigs found hMem)
      have hHeld : (r.install table.vendors now).get slug = some (found.vendor config) :=
        vendors_get.mpr ⟨mem_vendors.mpr ⟨found, hMem, hFound.1, config, hConfig, rfl⟩, hFound.2⟩
      have hAdapter : found.adapter? = buildAdapter found.authType.text config := by
        rw [Row.adapter?, hConfig, Option.bind_some]
      rcases VendorRegistry.getAdapter_cases (r := r.install table.vendors now) slug with
        ⟨-, hNone⟩ | ⟨v, hGet, hCases⟩
      · rw [hHeld] at hNone
        cases hNone
      · obtain rfl := Option.some.inj (hHeld.symm.trans hGet)
        rcases hCases with ⟨hLookup, hRaises⟩ | ⟨a, hOld, -⟩ | ⟨a, hType, hBuilt, hLookup⟩
        · have hNone : found.adapter? = none := hAdapter.trans hRaises
          rw [hLookup]
          simp only [hNone]
        · cases hOld
        · have hSome : found.adapter? = some a.adapter := by
            rw [hAdapter, ← a.built, hType, hBuilt]
            rfl
          rw [hLookup]
          simp only [hSome]

/-- The registry finds an adapter for every active row that can be served. -/
theorem found_of_servable (h : ∀ row ∈ table.rows, row.Servable) (r : VendorRegistry) (now : ℚ)
    {row : Row} (hRow : row ∈ table.rows) (hActive : row.isActive = true) :
    ∃ a, ((r.install table.vendors now).getAdapter row.slug).2 = .found a := by
  have hConfigs : ∀ row ∈ table.rows, row.authConfig.isSome := by
    intro row hRow
    obtain ⟨config, hConfig, -⟩ := h row hRow
    rw [hConfig]
    rfl
  have hResolve := resolve_registry hConfigs r now row.slug
  cases hLookup : ((r.install table.vendors now).getAdapter row.slug).2 with
  | absent =>
      obtain ⟨config, hConfig⟩ := Option.isSome_iff_exists.mp (hConfigs row hRow)
      have hHeld : (r.install table.vendors now).get row.slug = some (row.vendor config) :=
        vendors_get.mpr ⟨mem_vendors.mpr ⟨row, hRow, hActive, config, hConfig, rfl⟩, rfl⟩
      rw [VendorRegistry.get] at hHeld
      rw [VendorRegistry.getAdapter, hHeld] at hLookup
      dsimp only at hLookup
      split at hLookup
      · cases hLookup
      · split at hLookup <;> cases hLookup
  | raised =>
      rw [hLookup] at hResolve
      exact absurd hResolve (resolve_of_servable h row.slug)
  | found a => exact ⟨a, rfl⟩

end Registry

section Claims

variable {columns : Columns} {table : Table}

/-- In every run of sound calls the registry that is loaded from the rows finds
an adapter for each active one and the proxy never raises; and the next call is
clean exactly if it is sound. -/
theorem vendor_configs_servable (run : (calls columns).Reaches (Sound columns) table) :
    (∀ r now, ∀ row ∈ table.rows, row.isActive = true →
      ∃ a, ((VendorRegistry.install r table.vendors now).getAdapter row.slug).2 = .found a) ∧
    (∀ slug, resolve table slug ≠ .escaped) ∧
      ∀ c, Clean table (call columns table c).1 (call columns table c).2 ↔
        Sound columns table c := by
  have hServable := reached_servable run
  refine ⟨?_, resolve_of_servable hServable, fun _ => clean_iff hServable⟩
  intro r now row hRow hActive
  exact found_of_servable hServable r now hRow hActive

/-- Columns that hold everything. -/
def sampleColumns : Columns := ⟨fun _ => true, fun _ => true, fun _ => true⟩

def sampleCreate (config : Members) : VendorCreate where
  name := "Acme"
  slug := "acme"
  baseUrl := "https://api.acme.test"
  authType := .basic
  authConfig := config

def sampleConfig : Members := [("username_ref", .str "USER"), ("password_ref", .str "PASSWORD")]

def emptyTable : Table := ⟨[], List.nodup_nil, List.nodup_nil⟩

theorem sound_sampleCreate :
    Sound sampleColumns emptyTable (.create .nil (sampleCreate sampleConfig)) :=
  ⟨by decide, Or.inr ⟨rfl, rfl⟩⟩

/-- A vendor with the two references of its adapter, and an update of its name. -/
theorem vendor_configs_servable_basic :
    Clean (call sampleColumns emptyTable (.create .nil (sampleCreate sampleConfig))).1
      (call sampleColumns (call sampleColumns emptyTable (.create .nil (sampleCreate sampleConfig))).1
        (.update .nil { name := .value "ACME" })).1 (.http 200) := by
  have run : (calls sampleColumns).Reaches (Sound sampleColumns)
      (call sampleColumns emptyTable (.create .nil (sampleCreate sampleConfig))).1 := by
    have start : (calls sampleColumns).Reaches (Sound sampleColumns) emptyTable := .init rfl
    exact .step start sound_sampleCreate rfl
  refine ((vendor_configs_servable run).2.2 (.update .nil { name := .value "ACME" })).mpr ?_
  intro row hRow _
  obtain rfl : row = (sampleCreate sampleConfig).row .nil := List.mem_singleton.mp hRow
  refine ⟨rfl, rfl, by decide, ?_⟩
  rintro - config ⟨⟩
  exact ⟨rfl, rfl⟩

/-- The configuration that the schema supplies is accepted, and the proxy raises
for it; a null for a column that is NOT NULL makes the commit raise, and a null
for the configuration is committed before the response raises. -/
theorem vendor_config_not_servable :
    (call sampleColumns emptyTable (.create .nil (sampleCreate []))).2 = .http 201 ∧
      resolve (call sampleColumns emptyTable (.create .nil (sampleCreate []))).1 "acme" = .escaped ∧
      (call sampleColumns (call sampleColumns emptyTable
        (.create .nil (sampleCreate sampleConfig))).1 (.update .nil { name := .null })).2 =
          .escaped ∧
      resolve (call sampleColumns (call sampleColumns emptyTable
        (.create .nil (sampleCreate sampleConfig))).1 (.update .nil { authConfig := .null })).1
          "acme" = .escaped ∧
      ¬∀ table, (calls sampleColumns).Reaches System.anyRun table → ∀ c,
        Clean table (call sampleColumns table c).1 (call sampleColumns table c).2 := by
  refine ⟨rfl, rfl, rfl, rfl, ?_⟩
  intro hAll
  have hClean := hAll emptyTable (.init rfl) (.create .nil (sampleCreate []))
  exact hClean.served "acme" rfl

end Claims

end Gateway.Admin

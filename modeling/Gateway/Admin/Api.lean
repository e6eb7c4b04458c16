import Gateway.Admin.VendorConfigs
import Gateway.Auth.Dependencies
import Gateway.Semantics.JsonEqual

/-! The routes for vendors and quotas of `gateway/admin/routes.py`, served at the same
time. A request has a database session of its own and waits for one statement
after the other. What a session writes are the columns whose value it has changed,
and nothing keeps other sessions from writing between its statements. -/
namespace Gateway.Admin

open Json Transition Gateway.Db

/-- `quota_period` of `QuotaUpdate`. -/
inductive QuotaPeriod where
  | daily
  | monthly
  deriving DecidableEq

def QuotaPeriod.text : QuotaPeriod → String
  | .daily => "daily"
  | .monthly => "monthly"

/-- A validated `QuotaUpdate`. -/
structure QuotaUpdate where
  keyId : Uuid
  quotaLimit : Option ℤ := none
  quotaPeriod : Option QuotaPeriod := none

structure ApiKeyQuotaUsage where
  keyId : Uuid
  keyName : String
  quotaLimit : Option ℤ
  quotaPeriod : Option String
  currentUsage : ℤ
  isActive : Bool

structure VendorQuotaResponse where
  vendorId : Uuid
  vendorSlug : String
  keys : List ApiKeyQuotaUsage

/-- The columns of a vendor that `VendorUpdate` can set. -/
inductive Column where
  | name
  | baseUrl
  | authType
  | authConfig
  | cacheTtlSeconds
  | rateLimitRpm
  | isActive

section Columns

/-- An attribute that is set to the value it has is not written. -/
def Field.since {α : Type} [DecidableEq α] (loaded : α) : Field α → Field α
  | .value a => if a = loaded then .unset else .value a
  | field => field

def configSince (loaded : Option Members) : Field Members → Field Members
  | .unset => .unset
  | .null => if loaded.isNone then .unset else .null
  | .value config =>
      if loaded.any fun c => (Value.obj config).same (.obj c) then .unset else .value config

/-- What the session writes of the attributes that it sets on a loaded row. -/
def VendorUpdate.changes (body : VendorUpdate) (loaded : Row) : VendorUpdate where
  name := body.name.since loaded.name
  baseUrl := body.baseUrl.since loaded.baseUrl
  authType := body.authType.since loaded.authType
  authConfig := configSince loaded.authConfig body.authConfig
  cacheTtlSeconds := body.cacheTtlSeconds.since loaded.cacheTtlSeconds
  rateLimitRpm := body.rateLimitRpm.since loaded.rateLimitRpm
  isActive := body.isActive.since loaded.isActive

def Field.sets {α : Type} : Field α → Bool
  | .unset => false
  | _ => true

def VendorUpdate.sets (body : VendorUpdate) : Column → Bool
  | .name => body.name.sets
  | .baseUrl => body.baseUrl.sets
  | .authType => body.authType.sets
  | .authConfig => body.authConfig.sets
  | .cacheTtlSeconds => body.cacheTtlSeconds.sets
  | .rateLimitRpm => body.rateLimitRpm.sets
  | .isActive => body.isActive.sets

/-- A column that the field leaves alone, or that has its value. -/
def Field.Held {α : Type} (field : Field α) (stored : α) : Prop :=
  match field with
  | .unset => True
  | .null => False
  | .value a => stored = a

/-- The column of a row has what the body asks for. -/
def VendorUpdate.Held (body : VendorUpdate) (row : Row) : Column → Prop
  | .name => body.name.Held row.name
  | .baseUrl => body.baseUrl.Held row.baseUrl
  | .authType => body.authType.Held row.authType
  | .authConfig =>
      match body.authConfig with
      | .unset => True
      | .null => row.authConfig = none
      | .value config => ∃ c, row.authConfig = some c ∧ (Value.obj config).same (.obj c) = true
  | .cacheTtlSeconds => body.cacheTtlSeconds.Held row.cacheTtlSeconds
  | .rateLimitRpm => body.rateLimitRpm.Held row.rateLimitRpm
  | .isActive => body.isActive.Held row.isActive

/-- Two rows have the same value in a column. -/
def Row.Same (row row' : Row) : Column → Prop
  | .name => row'.name = row.name
  | .baseUrl => row'.baseUrl = row.baseUrl
  | .authType => row'.authType = row.authType
  | .authConfig => row'.authConfig = row.authConfig
  | .cacheTtlSeconds => row'.cacheTtlSeconds = row.cacheTtlSeconds
  | .rateLimitRpm => row'.rateLimitRpm = row.rateLimitRpm
  | .isActive => row'.isActive = row.isActive

variable {body : VendorUpdate} {row loaded : Row}

theorem Field.getD_of_not_sets {α : Type} {field : Field α} (h : field.sets = false) (stored : α) :
    field.getD stored = stored := by
  cases field with
  | unset => rfl
  | null => cases h
  | value a => cases h

/-- A merge changes no column that the body does not set. -/
theorem same_merged {column : Column} (h : body.sets column = false) :
    row.Same (row.merged body) column := by
  cases column with
  | authConfig =>
      cases hConfig : body.authConfig with
      | unset => simp [Row.Same, Row.merged, hConfig]
      | null => simp [VendorUpdate.sets, hConfig, Field.sets] at h
      | value config => simp [VendorUpdate.sets, hConfig, Field.sets] at h
  | _ => exact Field.getD_of_not_sets h _

theorem Field.sets_since {α : Type} [DecidableEq α] {field : Field α} {stored : α}
    (h : (field.since stored).sets = true) : field.sets = true := by
  cases field with
  | unset => cases h
  | null => rfl
  | value a => rfl

theorem sets_changes {column : Column} (h : (body.changes loaded).sets column = true) :
    body.sets column = true := by
  cases column with
  | authConfig =>
      cases hConfig : body.authConfig with
      | unset => simp [VendorUpdate.sets, VendorUpdate.changes, hConfig, configSince, Field.sets] at h
      | null => simp [VendorUpdate.sets, hConfig, Field.sets]
      | value config => simp [VendorUpdate.sets, hConfig, Field.sets]
  | _ => exact Field.sets_since h

theorem Field.held_of_not_written {α : Type} [DecidableEq α] {field : Field α} {loaded : α}
    (h : (field.since loaded).sets = false) : field.Held loaded := by
  cases field with
  | unset => trivial
  | null => cases h
  | value a =>
      by_contra hOther
      rw [Field.since, if_neg (Ne.symm hOther)] at h
      cases h

/-- What is not written was there when the row was loaded. -/
theorem held_loaded {column : Column} (h : (body.changes loaded).sets column = false) :
    body.Held loaded column := by
  cases column with
  | authConfig =>
      simp only [VendorUpdate.sets, VendorUpdate.changes] at h
      cases hConfig : body.authConfig with
      | unset => simp [VendorUpdate.Held, hConfig]
      | null =>
          cases hLoaded : loaded.authConfig with
          | none => simp [VendorUpdate.Held, hConfig, hLoaded]
          | some c => simp [hConfig, hLoaded, configSince, Field.sets] at h
      | value config =>
          by_cases hSame : (loaded.authConfig.any fun c => (Value.obj config).same (.obj c)) = true
          · simpa [VendorUpdate.Held, hConfig, Option.any_eq_true] using hSame
          · rw [hConfig, configSince, if_neg hSame] at h
            cases h
  | _ => exact Field.held_of_not_written h

theorem Field.held_of_written {α : Type} [DecidableEq α] {field : Field α} {loaded : α}
    (h : (field.since loaded).sets = true) (hNull : (field.since loaded).isNull = false)
    (stored : α) : field.Held ((field.since loaded).getD stored) := by
  cases field with
  | unset => cases h
  | null => cases hNull
  | value a =>
      by_cases hSame : a = loaded
      · rw [Field.since, if_pos hSame] at h
        cases h
      · rw [Field.since, if_neg hSame]
        rfl

/-- What is written has the value that was asked for. -/
theorem held_merged {column : Column} (h : (body.changes loaded).sets column = true)
    (hNulls : (body.changes loaded).nulls = false) :
    body.Held (row.merged (body.changes loaded)) column := by
  simp only [VendorUpdate.nulls, VendorUpdate.changes, Bool.or_eq_false_iff] at hNulls
  obtain ⟨⟨⟨⟨⟨hName, hUrl⟩, hType⟩, hTtl⟩, hRpm⟩, hActive⟩ := hNulls
  cases column with
  | name => exact Field.held_of_written h hName _
  | baseUrl => exact Field.held_of_written h hUrl _
  | authType => exact Field.held_of_written h hType _
  | cacheTtlSeconds => exact Field.held_of_written h hTtl _
  | rateLimitRpm => exact Field.held_of_written h hRpm _
  | isActive => exact Field.held_of_written h hActive _
  | authConfig =>
      simp only [VendorUpdate.sets, VendorUpdate.changes] at h
      cases hConfig : body.authConfig with
      | unset => simp [hConfig, configSince, Field.sets] at h
      | null =>
          cases hLoaded : loaded.authConfig with
          | none => simp [hConfig, hLoaded, configSince, Field.sets] at h
          | some c =>
              simp [VendorUpdate.Held, hConfig, hLoaded, Row.merged, VendorUpdate.changes,
                configSince]
      | value config =>
          by_cases hSame : (loaded.authConfig.any fun c => (Value.obj config).same (.obj c)) = true
          · rw [hConfig, configSince, if_pos hSame] at h
            cases h
          · have hWritten : configSince loaded.authConfig (.value config) = .value config :=
              if_neg hSame
            simp [VendorUpdate.Held, hConfig, Row.merged, VendorUpdate.changes, hWritten,
              Value.same_refl]

end Columns

namespace Api

/-- What a route does with one vendor. -/
inductive VendorCall where
  | getVendor
  | updateVendor (body : VendorUpdate)
  | deactivateVendor
  | getVendorQuota
  | updateVendorQuota (body : QuotaUpdate)
  | getVendorUsage

/-- A request with valid parameters. A new row gets its identifier here. -/
inductive Request where
  | listVendors
  | createVendor (id : Uuid) (body : VendorCreate)
  | onVendor (vendorId : Uuid) (call : VendorCall)

/-- How a request ends that was let through. -/
inductive Reply where
  | vendors (rows : List Row)
  | vendor (statusCode : ℕ) (row : Row)
  | quota (body : VendorQuotaResponse)
  | usage (message : String)
  | httpException (statusCode : ℕ) (detail : String)
  | escaped

/-- The API keys with their primary key. -/
structure KeyTable where
  rows : List VendorApiKey
  ids : (rows.map fun key => key.id).Nodup

/-- The committed rows. -/
structure Database where
  vendors : Table
  keys : KeyTable

/-- What a session is about to commit. -/
inductive Write where
  | insert (row : Row)
  | change (loaded : Row) (body : VendorUpdate)
  | limit (vendor : Row) (loaded : VendorApiKey) (body : QuotaUpdate)

/-- The `await`s of a request. -/
inductive Pc where
  | listing
  | selectingVendor (vendorId : Uuid) (call : VendorCall)
  | selectingKey (vendor : Row) (body : QuotaUpdate)
  | committing (write : Write)
  | refreshing (write : Write)
  | selectingKeys (vendor : Row) (refreshed : Option VendorApiKey)
  | gettingUsage (vendor : Row) (done : List ApiKeyQuotaUsage) (key : VendorApiKey)
      (rest : List VendorApiKey)

/-- A request goes on to its next await or ends. -/
inductive Next where
  | await (pc : Pc)
  | finish (reply : Reply)

/-- Where a request is; `refused` before its handler, with a status or with an
exception. -/
inductive Session where
  | idle
  | refused (statusCode : Option ℕ)
  | running (admin : Auth.UserIdentity) (request : Request) (pc : Pc)
  | answered (admin : Auth.UserIdentity) (request : Request) (reply : Reply)

structure State where
  db : Database
  sessions : ℕ → Session

/-- What a request waits for. The queries for lists leave the order of their rows
open; `usage` is the answer of `get_quota_usage`, `none` where it raises. An await
that raises may have been executed. -/
inductive Input where
  | answer
  | vendorRows (order : List ℕ)
  | keyRows (order : List ℕ)
  | usage (count : Option ℤ)
  | raised (executed : Bool)

inductive Event where
  | arrive (r : ℕ) (caller : Auth.Outcome Auth.UserIdentity) (request : Request)
  | deliver (r : ℕ) (input : Input)

def Database.vendor? (db : Database) (id : Uuid) : Option Row :=
  db.vendors.rows.find? fun row => decide (row.id = id)

def Database.key? (db : Database) (vendorId keyId : Uuid) : Option VendorApiKey :=
  db.keys.rows.find? fun key => decide (key.id = keyId ∧ key.vendorId = vendorId)

/-- `if body.quota_limit is not None`, and the same for the period. -/
def QuotaUpdate.onto (body : QuotaUpdate) (key : VendorApiKey) : VendorApiKey where
  id := key.id
  vendorId := key.vendorId
  keyName := key.keyName
  quotaLimit := body.quotaLimit.or key.quotaLimit
  quotaPeriod := (body.quotaPeriod.map QuotaPeriod.text).or key.quotaPeriod
  isActive := key.isActive

/-- What the session writes of them. -/
def QuotaUpdate.changes (body : QuotaUpdate) (loaded : VendorApiKey) : QuotaUpdate where
  keyId := body.keyId
  quotaLimit := body.quotaLimit.filter fun limit => decide (loaded.quotaLimit ≠ some limit)
  quotaPeriod := body.quotaPeriod.filter fun period =>
    decide (loaded.quotaPeriod ≠ some period.text)

def KeyTable.update (keys : KeyTable) (id : Uuid) (body : QuotaUpdate) : KeyTable where
  rows := keys.rows.map fun key => if key.id = id then QuotaUpdate.onto body key else key
  ids := by
    have hIds : (fun key : VendorApiKey => key.id) ∘
        (fun key => if key.id = id then QuotaUpdate.onto body key else key) = fun key => key.id := by
      funext key
      by_cases h : key.id = id <;> simp [h, QuotaUpdate.onto]
    rw [List.map_map, hIds]
    exact keys.ids

/-- `VendorResponse.model_validate`; `auth_config` has to be an object. -/
def vendorResponse (statusCode : ℕ) (row : Row) : Reply :=
  if row.authConfig.isSome then .vendor statusCode row else .escaped

def vendorNotFound (vendorId : Uuid) : Reply :=
  .httpException 404 ("Vendor " ++ vendorId.text ++ " not found")

/-- `_get_vendor_or_404`, and what follows it. -/
def afterSelectVendor (vendorId : Uuid) (call : VendorCall) (vendor : Option Row) : Next :=
  match vendor with
  | none => .finish (vendorNotFound vendorId)
  | some row =>
      match call with
      | .getVendor => .finish (vendorResponse 200 row)
      | .updateVendor body => .await (.committing (.change row body))
      | .deactivateVendor => .await (.committing (.change row { isActive := .value false }))
      | .getVendorQuota => .await (.selectingKeys row none)
      | .updateVendorQuota body => .await (.selectingKey row body)
      | .getVendorUsage => .finish (.usage
          "Usage stats not yet implemented — will be available once metrics are collected")

def afterSelectKey (vendor : Row) (body : QuotaUpdate) (key : Option VendorApiKey) : Next :=
  match key with
  | none => .finish (.httpException 404
      ("API key " ++ body.keyId.text ++ " not found for vendor " ++ vendor.id.text))
  | some key => .await (.committing (.limit vendor key body))

/-- `db.commit()`; of its exceptions only `IntegrityError` of an insertion is caught. -/
def commit (columns : Columns) (db : Database) : Write → Database × Next
  | .insert row =>
      if columns.fits row then
        if h : db.vendors.taken row then
          (db, .finish (.httpException 409
            ("A vendor with slug '" ++ row.slug ++ "' already exists")))
        else ({ db with vendors := db.vendors.insert row h }, .await (.refreshing (.insert row)))
      else (db, .finish .escaped)
  | .change loaded body =>
      let changes := body.changes loaded
      match db.vendor? loaded.id with
      | none => (db, .finish .escaped)
      | some row =>
          if !changes.nulls && columns.fits (row.merged changes) then
            ({ db with vendors := db.vendors.update loaded.id changes },
              .await (.refreshing (.change loaded body)))
          else (db, .finish .escaped)
  | .limit vendor loaded body =>
      let changes := QuotaUpdate.changes body loaded
      if changes.quotaLimit.all fun limit => (integerColumn limit).isSome then
        ({ db with keys := db.keys.update loaded.id changes },
          .await (.refreshing (.limit vendor loaded body)))
      else (db, .finish .escaped)

/-- `db.refresh(...)`, which raises where there is no row. -/
def afterRefresh (db : Database) : Write → Next
  | .insert row =>
      match db.vendor? row.id with
      | none => .finish .escaped
      | some row => .finish (vendorResponse 201 row)
  | .change loaded _ =>
      match db.vendor? loaded.id with
      | none => .finish .escaped
      | some row => .finish (vendorResponse 200 row)
  | .limit vendor loaded _ =>
      match db.key? vendor.id loaded.id with
      | none => .finish .escaped
      | some key => .await (.selectingKeys vendor (some key))

def usageOf (key : VendorApiKey) (currentUsage : ℤ) : ApiKeyQuotaUsage where
  keyId := key.id
  keyName := key.keyName
  quotaLimit := key.quotaLimit
  quotaPeriod := key.quotaPeriod
  currentUsage := currentUsage
  isActive := key.isActive

def limited (key : VendorApiKey) : Bool := key.quotaLimit.isSome && key.quotaPeriod.isSome

/-- The loop of `_build_quota_key_usages` up to its next await. -/
def buildUsages (vendor : Row) (done : List ApiKeyQuotaUsage) : List VendorApiKey → Next
  | [] => .finish (.quota ⟨vendor.id, vendor.slug, done.reverse⟩)
  | key :: rest =>
      if limited key then .await (.gettingUsage vendor done key rest)
      else buildUsages vendor (usageOf key 0 :: done) rest

/-- Rows in the order of some positions. -/
def arranged {α : Type} (rows : List α) (order : List ℕ) : List α :=
  order.filterMap fun i => rows[i]?

/-- A row that the session has refreshed is not loaded again. -/
def loadedKeys (refreshed : Option VendorApiKey) (rows : List VendorApiKey) : List VendorApiKey :=
  rows.map fun key =>
    match refreshed with
    | some loaded => if key.id = loaded.id then loaded else key
    | none => key

def vendorsResponse (rows : List Row) : Reply :=
  if rows.all fun row => row.authConfig.isSome then .vendors rows else .escaped

def Database.keysOf (db : Database) (vendorId : Uuid) : List VendorApiKey :=
  db.keys.rows.filter fun key => decide (key.vendorId = vendorId)

/-- The dependency `require_admin`, and the handler up to its first await. -/
def enter (caller : Auth.Outcome Auth.UserIdentity) (request : Request) : Session :=
  match caller.bind Auth.requireAdmin with
  | .http statusCode => .refused (some statusCode)
  | .escaped => .refused none
  | .ok admin =>
      match request with
      | .listVendors => .running admin request .listing
      | .createVendor id body => .running admin request (.committing (.insert (body.row id)))
      | .onVendor vendorId call => .running admin request (.selectingVendor vendorId call)

def Next.session (admin : Auth.UserIdentity) (request : Request) : Next → Session
  | .await pc => .running admin request pc
  | .finish reply => .answered admin request reply

section Steps

variable (columns : Columns)

def resume (db : Database) : Pc → Input → Option (Database × Next)
  | .listing, .vendorRows order =>
      if order.Perm (List.range db.vendors.rows.length) then
        some (db, .finish (vendorsResponse (arranged db.vendors.rows order)))
      else none
  | .selectingVendor vendorId call, .answer =>
      some (db, afterSelectVendor vendorId call (db.vendor? vendorId))
  | .selectingKey vendor body, .answer =>
      some (db, afterSelectKey vendor body (db.key? vendor.id body.keyId))
  | .committing write, .answer => some (commit columns db write)
  | .refreshing write, .answer => some (db, afterRefresh db write)
  | .selectingKeys vendor refreshed, .keyRows order =>
      if order.Perm (List.range (db.keysOf vendor.id).length) then
        some (db, buildUsages vendor [] (loadedKeys refreshed (arranged (db.keysOf vendor.id) order)))
      else none
  | .gettingUsage vendor done key rest, .usage count =>
      match count with
      | none => some (db, .finish .escaped)
      | some n => some (db, buildUsages vendor (usageOf key n :: done) rest)
  | .committing write, .raised executed =>
      some (if executed then (commit columns db write).1 else db, .finish .escaped)
  | _, .raised _ => some (db, .finish .escaped)
  | _, _ => none

def machine : System State Event where
  init s := ∀ r, s.sessions r = .idle
  step s
    | .arrive r caller request =>
        match s.sessions r with
        | .idle => some { s with sessions := Function.update s.sessions r (enter caller request) }
        | _ => none
    | .deliver r input =>
        match s.sessions r with
        | .running admin request pc =>
            (resume columns s.db pc input).map fun result =>
              ⟨result.1, Function.update s.sessions r (result.2.session admin request)⟩
        | _ => none

/-- All that a step can do. -/
inductive Step (s : State) : Event → State → Prop where
  | arrived (r : ℕ) (caller : Auth.Outcome Auth.UserIdentity) (request : Request)
      (hIdle : s.sessions r = .idle) :
      Step s (.arrive r caller request)
        { s with sessions := Function.update s.sessions r (enter caller request) }
  | resumed (r : ℕ) (input : Input) (admin : Auth.UserIdentity) (request : Request) (pc : Pc)
      (db : Database) (next : Next) (hSession : s.sessions r = .running admin request pc)
      (hResume : resume columns s.db pc input = some (db, next)) :
      Step s (.deliver r input) ⟨db, Function.update s.sessions r (next.session admin request)⟩

variable {columns} {s t : State} {e : Event} {db db' : Database} {pc : Pc} {input : Input}
  {next : Next}

theorem step_cases (h : (machine columns).step s e = some t) : Step columns s e t := by
  cases e with
  | arrive r caller request =>
      simp only [machine] at h
      split at h
      case h_1 hIdle =>
        cases h
        exact .arrived r caller request hIdle
      case h_2 => cases h
  | deliver r input =>
      simp only [machine] at h
      split at h
      case h_1 admin request pc hSession =>
        obtain ⟨⟨db, next⟩, hResume, rfl⟩ := Option.map_eq_some_iff.mp h
        exact .resumed r input admin request pc db next hSession hResume
      case h_2 => cases h

/-- All that a commit can do. -/
inductive Committed (db : Database) : Write → Database → Next → Prop where
  | refused (write : Write) (reply : Reply)
      (hReply : ∀ statusCode row, reply ≠ .vendor statusCode row) :
      Committed db write db (.finish reply)
  | inserted (row : Row) (hNew : ¬db.vendors.taken row) :
      Committed db (.insert row) { db with vendors := db.vendors.insert row hNew }
        (.await (.refreshing (.insert row)))
  | changed (loaded current : Row) (body : VendorUpdate)
      (hCurrent : db.vendor? loaded.id = some current)
      (hNulls : (body.changes loaded).nulls = false) :
      Committed db (.change loaded body)
        { db with vendors := db.vendors.update loaded.id (body.changes loaded) }
        (.await (.refreshing (.change loaded body)))
  | limited (vendor : Row) (loaded : VendorApiKey) (body : QuotaUpdate) :
      Committed db (.limit vendor loaded body)
        { db with keys := db.keys.update loaded.id (QuotaUpdate.changes body loaded) }
        (.await (.refreshing (.limit vendor loaded body)))

theorem commit_cases {write : Write} (h : commit columns db write = (db', next)) :
    Committed db write db' next := by
  cases write with
  | insert row =>
      rw [commit] at h
      split_ifs at h with hFits hTaken <;> cases h
      · exact .refused _ _ (by simp)
      · exact .inserted row hTaken
      · exact .refused _ _ (by simp)
  | change loaded body =>
      simp only [commit] at h
      split at h
      case h_1 =>
        cases h
        exact .refused _ _ (by simp)
      case h_2 current hCurrent =>
        split_ifs at h with hCommits <;> cases h
        · simp only [Bool.and_eq_true, Bool.not_eq_true'] at hCommits
          exact .changed loaded current body hCurrent hCommits.1
        · exact .refused _ _ (by simp)
  | limit vendor loaded body =>
      simp only [commit] at h
      split_ifs at h <;> cases h
      · exact .limited vendor loaded body
      · exact .refused _ _ (by simp)

/-- Rows are changed by a commit only, answered or not. -/
theorem resume_cases (h : resume columns db pc input = some (db', next)) :
    db' = db ∨ ∃ write, pc = .committing write ∧ (input = .answer ∨ input = .raised true) ∧
      db' = (commit columns db write).1 := by
  unfold resume at h
  split at h
  case h_4 write =>
    have hCommit := Option.some.inj h
    exact Or.inr ⟨write, rfl, Or.inl rfl, by rw [hCommit]⟩
  case h_8 write executed =>
    obtain ⟨rfl, -⟩ := Prod.mk.inj (Option.some.inj h)
    cases executed with
    | true => exact Or.inr ⟨write, rfl, Or.inr rfl, rfl⟩
    | false => exact Or.inl rfl
  all_goals
    refine Or.inl ?_
    repeat' split at h
    all_goals grind

theorem mem_of_vendor? {id : Uuid} {row : Row} (h : db.vendor? id = some row) :
    row ∈ db.vendors.rows ∧ row.id = id :=
  find_id h

/-- A vendor keeps its row and its slug. -/
theorem slug_kept_step (h : (machine columns).step s e = some t) {id : Uuid} {slug : String}
    (hRow : ∃ row ∈ s.db.vendors.rows, row.id = id ∧ row.slug = slug) :
    ∃ row ∈ t.db.vendors.rows, row.id = id ∧ row.slug = slug := by
  obtain ⟨row, hMem, hId, hSlug⟩ := hRow
  cases step_cases h with
  | arrived => exact ⟨row, hMem, hId, hSlug⟩
  | resumed r input admin request pc db next hSession hResume =>
      rcases resume_cases hResume with rfl | ⟨write, -, -, rfl⟩
      · exact ⟨row, hMem, hId, hSlug⟩
      generalize hCommit : commit columns s.db write = result
      obtain ⟨db, after⟩ := result
      cases commit_cases hCommit with
      | refused => exact ⟨row, hMem, hId, hSlug⟩
      | inserted added => exact ⟨row, List.mem_cons_of_mem _ hMem, hId, hSlug⟩
      | changed loaded current body =>
          by_cases hLoaded : row.id = loaded.id
          · exact ⟨row.merged _, mem_update.mpr (Or.inl ⟨row, hMem, hLoaded, rfl⟩), hId, hSlug⟩
          · exact ⟨row, mem_update.mpr (Or.inr ⟨hMem, hLoaded⟩), hId, hSlug⟩
      | limited => exact ⟨row, hMem, hId, hSlug⟩

end Steps

end Api

end Gateway.Admin

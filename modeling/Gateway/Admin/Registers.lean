import Gateway.Admin.Api
import Gateway.Semantics.Ranking

/-! What concurrent requests to the admin API do to the vendors and the API keys.
Each column is a register: an update writes it at one moment while the request
runs, and nothing else writes it. -/
namespace Gateway.Admin.Api

open Transition Gateway.Db

/-- The vendor and the columns that a request updates. -/
def Request.update? : Request → Option (Uuid × VendorUpdate)
  | .onVendor vendorId (.updateVendor body) => some (vendorId, body)
  | .onVendor vendorId .deactivateVendor => some (vendorId, { isActive := .value false })
  | _ => none

/-- The API key and the limits that a request updates. -/
def Request.quotaUpdate? : Request → Option (Uuid × QuotaUpdate)
  | .onVendor vendorId (.updateVendorQuota body) => some (vendorId, body)
  | _ => none

/-- History: the committed rows at the events since a request arrived, the latest
first, up to its answer. -/
def recordSeen (s : State) (_ : Event) (h : ℕ → List Database) (r : ℕ) : List Database :=
  match s.sessions r with
  | .running _ _ _ => s.db :: h r
  | _ => h r

def watched (columns : Columns) : System (State × (ℕ → List Database)) Event :=
  (machine columns).withHistory (fun _ => []) recordSeen

/-- One of these databases has the vendor with what is asked of the column. -/
def HeldIn (seen : List Database) (id : Uuid) (body : VendorUpdate) (column : Column) : Prop :=
  ∃ db ∈ seen, ∃ row ∈ db.vendors.rows, row.id = id ∧ body.Held row column

/-- What a request knows at its awaits. -/
def Known (seen : List Database) (request : Request) : Pc → Prop
  | .listing => request.update? = none ∧ request.quotaUpdate? = none
  | .selectingVendor vendorId call => request = .onVendor vendorId call
  | .selectingKey vendor body => request = .onVendor vendor.id (.updateVendorQuota body)
  | .committing (.insert row) | .refreshing (.insert row) =>
      ∃ id body, request = .createVendor id body ∧ row = body.row id
  | .committing (.change loaded body) => request.update? = some (loaded.id, body) ∧
      ∃ db ∈ seen, loaded ∈ db.vendors.rows
  | .refreshing (.change loaded body) => request.update? = some (loaded.id, body) ∧
      ∀ column, HeldIn seen loaded.id body column
  | .committing (.limit vendor loaded body) | .refreshing (.limit vendor loaded body) =>
      request = .onVendor vendor.id (.updateVendorQuota body) ∧ loaded.id = body.keyId ∧
        loaded.vendorId = vendor.id
  | .selectingKeys _ _ | .gettingUsage _ _ _ _ => request.update? = none

/-- An update is answered with the row as it is at the end, and each column that
it sets had its value at some moment before. -/
def Told (seen : List Database) (request : Request) (reply : Reply) : Prop :=
  ∀ row id body, reply = .vendor 200 row → request.update? = some (id, body) →
    (∃ db, seen.head? = some db ∧ row ∈ db.vendors.rows ∧ row.id = id) ∧
      ∀ column, HeldIn seen id body column

/-- What holds of a session in every run. -/
def Session.Lawful (db : Database) (seen : List Database) : Session → Prop
  | .idle | .refused _ => True
  | .running admin request pc =>
      Auth.requireAdmin admin = .ok admin ∧ Known (db :: seen) request pc
  | .answered admin request reply =>
      Auth.requireAdmin admin = .ok admin ∧ Told seen request reply

section Sessions

variable {columns : Columns} {db db' : Database} {seen seen' : List Database} {request : Request}
  {pc : Pc} {input : Input} {next : Next} {id : Uuid} {row loaded : Row} {body : VendorUpdate}

theorem HeldIn.mono {column : Column} (h : HeldIn seen id body column) (hSeen : seen ⊆ seen') :
    HeldIn seen' id body column := by
  obtain ⟨db, hMem, hRow⟩ := h
  exact ⟨db, hSeen hMem, hRow⟩

theorem Known.mono (h : Known seen request pc) (hSeen : seen ⊆ seen') :
    Known seen' request pc := by
  cases pc with
  | committing write =>
      cases write with
      | change loaded body =>
          obtain ⟨hRequest, db, hMem, hRow⟩ := h
          exact ⟨hRequest, db, hSeen hMem, hRow⟩
      | _ => exact h
  | refreshing write =>
      cases write with
      | change loaded body => exact ⟨h.1, fun column => (h.2 column).mono hSeen⟩
      | _ => exact h
  | _ => exact h

/-- The commit of an update leaves each column as it was asked for, if it was not
so already when the row was loaded. -/
theorem heldIn_commit {current : Row} (hLoaded : ∃ db₀ ∈ db :: seen, loaded ∈ db₀.vendors.rows)
    (hCurrent : db.vendor? loaded.id = some current)
    (hNulls : (body.changes loaded).nulls = false) (column : Column) :
    HeldIn ({ db with vendors := db.vendors.update loaded.id (body.changes loaded) } :: db :: seen)
      loaded.id body column := by
  obtain ⟨hMem, hId⟩ := mem_of_vendor? hCurrent
  by_cases hSets : (body.changes loaded).sets column = true
  · have hRow : current.merged (body.changes loaded) ∈
        (db.vendors.update loaded.id (body.changes loaded)).rows :=
      mem_update.mpr (Or.inl ⟨current, hMem, hId, rfl⟩)
    exact ⟨_, List.mem_cons_self, _, hRow, hId, held_merged hSets hNulls⟩
  · obtain ⟨db₀, hSeen, hRow⟩ := hLoaded
    exact ⟨db₀, List.mem_cons_of_mem _ hSeen, loaded, hRow, rfl,
      held_loaded (by simpa using hSets)⟩

theorem vendorResponse_eq {statusCode statusCode' : ℕ} {row' : Row}
    (h : vendorResponse statusCode row = .vendor statusCode' row') :
    statusCode = statusCode' ∧ row = row' := by
  unfold vendorResponse at h
  split_ifs at h
  exact Reply.vendor.inj h

theorem told_of_ne {reply : Reply} (h : ∀ statusCode row, reply ≠ .vendor statusCode row) :
    Told seen request reply :=
  fun row _ _ hReply => absurd hReply (h 200 row)

theorem told_of_none {reply : Reply} (h : request.update? = none) : Told seen request reply := by
  intro row id body _ hUpdate
  rw [h] at hUpdate
  cases hUpdate

variable {admin : Auth.UserIdentity}

theorem lawful_buildUsages (hAdmin : Auth.requireAdmin admin = .ok admin)
    (hNone : request.update? = none) (vendor : Row) (done : List ApiKeyQuotaUsage)
    (rest : List VendorApiKey) :
    ((buildUsages vendor done rest).session admin request).Lawful db seen := by
  induction rest generalizing done with
  | nil => exact ⟨hAdmin, told_of_none hNone⟩
  | cons key rest ih =>
      rw [buildUsages]
      split_ifs
      · exact ⟨hAdmin, hNone⟩
      · exact ih _

theorem lawful_afterSelectVendor (hAdmin : Auth.requireAdmin admin = .ok admin) (call : VendorCall) :
    ((afterSelectVendor id call (db.vendor? id)).session admin (.onVendor id call)).Lawful db
      (db :: seen) := by
  cases hVendor : db.vendor? id with
  | none => exact ⟨hAdmin, told_of_ne nofun⟩
  | some row =>
      obtain ⟨hMem, rfl⟩ := mem_of_vendor? hVendor
      have hLoaded : ∃ db₀ ∈ db :: db :: seen, row ∈ db₀.vendors.rows :=
        ⟨db, List.mem_cons_self, hMem⟩
      cases call with
      | getVendor => exact ⟨hAdmin, told_of_none rfl⟩
      | updateVendor body => exact ⟨hAdmin, rfl, hLoaded⟩
      | deactivateVendor => exact ⟨hAdmin, rfl, hLoaded⟩
      | getVendorQuota => exact ⟨hAdmin, rfl⟩
      | updateVendorQuota body => exact ⟨hAdmin, rfl⟩
      | getVendorUsage => exact ⟨hAdmin, told_of_ne nofun⟩

theorem lawful_commit {write : Write} (hAdmin : Auth.requireAdmin admin = .ok admin)
    (hKnown : Known (db :: seen) request (.committing write))
    (hCommitted : Committed db write db' next) :
    (next.session admin request).Lawful db' (db :: seen) := by
  cases hCommitted with
  | refused _ reply hReply => exact ⟨hAdmin, told_of_ne hReply⟩
  | inserted row => exact ⟨hAdmin, hKnown⟩
  | changed loaded current body hCurrent hNulls =>
      exact ⟨hAdmin, hKnown.1, heldIn_commit hKnown.2 hCurrent hNulls⟩
  | limited vendor loaded body => exact ⟨hAdmin, hKnown⟩

theorem lawful_afterRefresh {write : Write} (hAdmin : Auth.requireAdmin admin = .ok admin)
    (hKnown : Known (db :: seen) request (.refreshing write)) :
    ((afterRefresh db write).session admin request).Lawful db (db :: seen) := by
  cases write with
  | insert row =>
      rw [afterRefresh]
      cases db.vendor? row.id with
      | none => exact ⟨hAdmin, told_of_ne nofun⟩
      | some row' =>
          refine ⟨hAdmin, fun row _ _ hReply => ?_⟩
          cases (vendorResponse_eq hReply).1
  | change loaded body =>
      rw [afterRefresh]
      cases hVendor : db.vendor? loaded.id with
      | none => exact ⟨hAdmin, told_of_ne nofun⟩
      | some row =>
          obtain ⟨hMem, hId⟩ := mem_of_vendor? hVendor
          refine ⟨hAdmin, fun row' id body' hReply hUpdate => ?_⟩
          obtain ⟨-, rfl⟩ := vendorResponse_eq hReply
          rw [hKnown.1] at hUpdate
          obtain ⟨rfl, rfl⟩ := Prod.mk.inj (Option.some.inj hUpdate)
          exact ⟨⟨db, rfl, hMem, hId⟩, hKnown.2⟩
  | limit vendor loaded body =>
      obtain ⟨rfl, -⟩ := hKnown
      rw [afterRefresh]
      cases db.key? vendor.id loaded.id with
      | none => exact ⟨hAdmin, told_of_ne nofun⟩
      | some key => exact ⟨hAdmin, rfl⟩

theorem lawful_resume (hAdmin : Auth.requireAdmin admin = .ok admin)
    (hKnown : Known (db :: seen) request pc)
    (h : resume columns db pc input = some (db', next)) :
    (next.session admin request).Lawful db' (db :: seen) := by
  have hEscaped (db' : Database) :
      ((Next.finish .escaped).session admin request).Lawful db' (db :: seen) :=
    ⟨hAdmin, told_of_ne nofun⟩
  unfold resume at h
  split at h
  case h_1 order =>
    split_ifs at h
    cases h
    exact ⟨hAdmin, told_of_none hKnown.1⟩
  case h_2 vendorId call =>
    cases h
    obtain rfl : request = .onVendor vendorId call := hKnown
    exact lawful_afterSelectVendor hAdmin call
  case h_3 vendor body =>
    cases h
    cases hKey : db.key? vendor.id body.keyId with
    | none => exact ⟨hAdmin, told_of_ne nofun⟩
    | some key =>
        have hFound : key.id = body.keyId ∧ key.vendorId = vendor.id := by
          simpa using List.find?_some hKey
        exact ⟨hAdmin, hKnown, hFound⟩
  case h_4 write => exact lawful_commit hAdmin hKnown (commit_cases (Option.some.inj h))
  case h_5 write =>
    cases h
    exact lawful_afterRefresh hAdmin hKnown
  case h_6 vendor refreshed order =>
    split_ifs at h
    cases h
    exact lawful_buildUsages hAdmin hKnown vendor [] _
  case h_7 vendor done key rest count =>
    cases count with
    | none =>
        cases h
        exact hEscaped _
    | some n =>
        cases h
        exact lawful_buildUsages hAdmin hKnown vendor _ rest
  case h_8 =>
    cases h
    exact hEscaped _
  case h_9 =>
    cases h
    exact hEscaped _
  case h_10 => cases h

end Sessions

section Runs

variable {columns : Columns} {p q : State × (ℕ → List Database)} {e : Event}

theorem admin_of_bind {caller : Auth.Outcome Auth.UserIdentity} {admin : Auth.UserIdentity}
    (h : caller.bind Auth.requireAdmin = .ok admin) : Auth.requireAdmin admin = .ok admin := by
  cases caller with
  | ok user =>
      have hUser : Auth.requireAdmin user = .ok admin := h
      have hSame : user = admin := by
        unfold Auth.requireAdmin at hUser
        split at hUser
        · exact Auth.Outcome.ok.inj hUser
        · cases hUser
        · cases hUser
      rw [← hSame] at hUser ⊢
      exact hUser
  | http statusCode => cases h
  | escaped => cases h

theorem lawful_enter (caller : Auth.Outcome Auth.UserIdentity) (request : Request) (db : Database)
    (seen : List Database) : (enter caller request).Lawful db seen := by
  unfold enter
  cases hCaller : caller.bind Auth.requireAdmin with
  | http statusCode => trivial
  | escaped => trivial
  | ok admin =>
      have hAdmin := admin_of_bind hCaller
      cases request with
      | listVendors => exact ⟨hAdmin, rfl, rfl⟩
      | createVendor id body => exact ⟨hAdmin, id, body, rfl, rfl⟩
      | onVendor vendorId call => exact ⟨hAdmin, rfl⟩

/-- The sessions of others see the rows change, and nothing else. -/
theorem lawful_other {s : State} {db' : Database} {h : ℕ → List Database} {r : ℕ}
    (hLawful : (s.sessions r).Lawful s.db (h r)) :
    (s.sessions r).Lawful db' (recordSeen s e h r) := by
  cases hSession : s.sessions r with
  | idle => trivial
  | refused statusCode => trivial
  | running admin request pc =>
      rw [hSession] at hLawful
      refine ⟨hLawful.1, hLawful.2.mono ?_⟩
      simp only [recordSeen, hSession]
      exact List.subset_cons_self _ _
  | answered admin request reply =>
      rw [hSession] at hLawful
      simp only [recordSeen, hSession]
      exact hLawful

theorem lawful_run (run : (watched columns).Reaches System.anyRun p) (r : ℕ) :
    (p.1.sessions r).Lawful p.1.db (p.2 r) := by
  induction run generalizing r with
  | init hInit =>
      rw [hInit.1 r]
      trivial
  | @step p q e _ _ next ih =>
      obtain ⟨s, h⟩ := p
      obtain ⟨t, h'⟩ := q
      obtain ⟨hStep, rfl⟩ := System.withHistory_step next
      simp only at hStep ih ⊢
      cases step_cases hStep with
      | arrived w caller request hIdle =>
          by_cases hw : r = w
          · subst hw
            simp only [Function.update_self]
            exact lawful_enter caller request _ _
          · simp only [Function.update_of_ne hw]
            exact lawful_other (ih r)
      | resumed w input admin request pc db next hSession hResume =>
          by_cases hw : r = w
          · subst hw
            have hLawful := ih r
            rw [hSession] at hLawful
            simp only [Function.update_self, recordSeen, hSession]
            exact lawful_resume hLawful.1 hLawful.2 hResume
          · simp only [Function.update_of_ne hw]
            exact lawful_other (ih r)

end Runs

/-- An update of a vendor that is answered with 200 has taken effect while it ran:
every column that it sets had the value it asks for at some moment between its
arrival and its answer, and the answer is the row as it was at the last of them. -/
theorem update_takes_effect {columns : Columns} {s : State} {h : ℕ → List Database}
    (run : (watched columns).Reaches System.anyRun (s, h)) {r : ℕ} {admin : Auth.UserIdentity}
    {request : Request} {row : Row} (hAnswered : s.sessions r = .answered admin request (.vendor 200 row))
    {id : Uuid} {body : VendorUpdate} (hUpdate : request.update? = some (id, body)) :
    (∃ db, (h r).head? = some db ∧ row ∈ db.vendors.rows ∧ row.id = id) ∧
      ∀ column, HeldIn (h r) id body column := by
  have hLawful := lawful_run run r
  simp only [hAnswered] at hLawful
  exact hLawful.2 row id body rfl hUpdate

/-- The step is one of an admin's request that is of some kind. -/
def Asks (s : State) (e : Event) (P : Request → Prop) : Prop :=
  ∃ r input admin request pc, e = .deliver r input ∧ s.sessions r = .running admin request pc ∧
    Auth.requireAdmin admin = .ok admin ∧ P request

/-- The API keys with their vendors. -/
def Database.owners (db : Database) : List (Uuid × Uuid) :=
  db.keys.rows.map fun key => (key.id, key.vendorId)

/-- All that a step does to the rows, and who has asked for it. -/
structure Accounted (s t : State) (e : Event) : Prop where
  kept : ∀ row ∈ s.db.vendors.rows, ∃ row' ∈ t.db.vendors.rows, row'.id = row.id ∧
    row'.slug = row.slug ∧ ∀ column, row.Same row' column ∨
      Asks s e fun request => ∃ body, request.update? = some (row.id, body) ∧
        body.sets column = true ∧ body.Held row' column
  added : ∀ row' ∈ t.db.vendors.rows, (∃ row ∈ s.db.vendors.rows, row.id = row'.id) ∨
    Asks s e fun request => ∃ id body, request = .createVendor id body ∧ row' = body.row id
  owners : t.db.owners = s.db.owners
  keys : ∀ key ∈ s.db.keys.rows, ∃ key' ∈ t.db.keys.rows, key'.id = key.id ∧
    key'.keyName = key.keyName ∧ key'.isActive = key.isActive ∧
      (limited key = true → limited key' = true) ∧ (key' = key ∨
        Asks s e fun request => ∃ body, request.quotaUpdate? = some (key.vendorId, body) ∧
          body.keyId = key.id ∧
            (key'.quotaLimit = key.quotaLimit ∨
              ∃ limit, body.quotaLimit = some limit ∧ key'.quotaLimit = some limit) ∧
              (key'.quotaPeriod = key.quotaPeriod ∨
                ∃ period, body.quotaPeriod = some period ∧ key'.quotaPeriod = some period.text))

section Accounts

variable {columns : Columns} {s t : State} {e : Event} {db db' : Database} {next : Next}

theorem owners_of_commit {write : Write} (h : Committed db write db' next) :
    db'.owners = db.owners := by
  cases h with
  | limited vendor loaded body =>
      simp only [Database.owners, KeyTable.update, List.map_map]
      refine List.map_congr_left fun key _ => ?_
      by_cases hKey : key.id = loaded.id <;> simp [hKey, QuotaUpdate.onto]
  | _ => rfl

theorem owners_step (next : (machine columns).step s e = some t) : t.db.owners = s.db.owners := by
  cases step_cases next with
  | arrived => rfl
  | resumed r input admin request pc db next hSession hResume =>
      rcases resume_cases hResume with rfl | ⟨write, -, -, rfl⟩
      · rfl
      · exact owners_of_commit (commit_cases rfl)

/-- A key whose limits are about to be written is one of the vendor in the path. -/
def Session.Owns (owners : List (Uuid × Uuid)) : Session → Prop
  | .running _ _ (.committing (.limit vendor loaded _)) => (loaded.id, vendor.id) ∈ owners
  | _ => True

theorem owns_buildUsages {admin : Auth.UserIdentity} {request : Request}
    {owners : List (Uuid × Uuid)} (vendor : Row) (done : List ApiKeyQuotaUsage)
    (rest : List VendorApiKey) :
    ((buildUsages vendor done rest).session admin request).Owns owners := by
  induction rest generalizing done with
  | nil => trivial
  | cons key rest ih =>
      rw [buildUsages]
      split_ifs
      · trivial
      · exact ih _

theorem owns_resume {pc : Pc} {input : Input} {admin : Auth.UserIdentity} {request : Request}
    (h : resume columns db pc input = some (db', next)) :
    (next.session admin request).Owns db.owners := by
  unfold resume at h
  split at h
  case h_2 vendorId call =>
    cases h
    cases db.vendor? vendorId with
    | none => trivial
    | some row => cases call <;> trivial
  case h_3 vendor body =>
    cases h
    cases hKey : db.key? vendor.id body.keyId with
    | none => trivial
    | some key =>
        have hMem := List.mem_of_find?_eq_some hKey
        have hFound : key.id = body.keyId ∧ key.vendorId = vendor.id := by
          simpa using List.find?_some hKey
        simp only [afterSelectKey, Next.session, Session.Owns, Database.owners]
        exact List.mem_map.mpr ⟨key, hMem, by rw [hFound.2]⟩
  case h_4 write =>
    cases commit_cases (Option.some.inj h) <;> trivial
  case h_5 write =>
    cases h
    cases write with
    | insert row =>
        rw [afterRefresh]
        split <;> trivial
    | change loaded body =>
        rw [afterRefresh]
        split <;> trivial
    | limit vendor loaded body =>
        rw [afterRefresh]
        split <;> trivial
  case h_6 vendor refreshed order =>
    split_ifs at h
    cases h
    exact owns_buildUsages vendor [] _
  case h_7 vendor done key rest count =>
    cases count with
    | none =>
        cases h
        trivial
    | some n =>
        cases h
        exact owns_buildUsages vendor _ rest
  case h_1 order =>
    split_ifs at h
    cases h
    trivial
  case h_10 => cases h
  all_goals
    cases h
    trivial

theorem owns_run {allowed : State → Event → Prop} (run : (machine columns).Reaches allowed s)
    (r : ℕ) : (s.sessions r).Owns s.db.owners := by
  induction run generalizing r with
  | init hInit =>
      rw [hInit r]
      trivial
  | @step s t e _ _ next ih =>
      rw [owners_step next]
      cases step_cases next with
      | arrived w caller request hIdle =>
          by_cases hw : r = w
          · subst hw
            simp only [Function.update_self, enter]
            split
            · trivial
            · trivial
            · cases request <;> trivial
          · simp only [Function.update_of_ne hw]
            exact ih r
      | resumed w input admin request pc db next hSession hResume =>
          by_cases hw : r = w
          · subst hw
            simp only [Function.update_self]
            exact owns_resume hResume
          · simp only [Function.update_of_ne hw]
            exact ih r

theorem onto_quotaLimit (body : QuotaUpdate) (loaded key : VendorApiKey) :
    (QuotaUpdate.onto (QuotaUpdate.changes body loaded) key).quotaLimit = key.quotaLimit ∨
      ∃ limit, body.quotaLimit = some limit ∧
        (QuotaUpdate.onto (QuotaUpdate.changes body loaded) key).quotaLimit = some limit := by
  cases hLimit : body.quotaLimit with
  | none => simp [QuotaUpdate.onto, QuotaUpdate.changes, hLimit]
  | some limit =>
      by_cases hSame : loaded.quotaLimit = some limit <;>
        simp [QuotaUpdate.onto, QuotaUpdate.changes, Option.filter, hLimit, hSame]

theorem onto_quotaPeriod (body : QuotaUpdate) (loaded key : VendorApiKey) :
    (QuotaUpdate.onto (QuotaUpdate.changes body loaded) key).quotaPeriod = key.quotaPeriod ∨
      ∃ period, body.quotaPeriod = some period ∧
        (QuotaUpdate.onto (QuotaUpdate.changes body loaded) key).quotaPeriod =
          some period.text := by
  cases hPeriod : body.quotaPeriod with
  | none => simp [QuotaUpdate.onto, QuotaUpdate.changes, hPeriod]
  | some period =>
      by_cases hSame : loaded.quotaPeriod = some period.text <;>
        simp [QuotaUpdate.onto, QuotaUpdate.changes, Option.filter, hPeriod, hSame]

/-- A quota that is configured cannot be taken away. -/
theorem limited_onto {key : VendorApiKey} (body : QuotaUpdate) (h : limited key = true) :
    limited (QuotaUpdate.onto body key) = true := by
  simp only [limited, Bool.and_eq_true] at h
  obtain ⟨limit, hLimit⟩ := Option.isSome_iff_exists.mp h.1
  obtain ⟨period, hPeriod⟩ := Option.isSome_iff_exists.mp h.2
  cases hNew : body.quotaLimit <;> cases hNewPeriod : body.quotaPeriod <;>
    simp [limited, QuotaUpdate.onto, hLimit, hPeriod, hNew, hNewPeriod]

theorem same_self (row : Row) (column : Column) : row.Same row column := by
  cases column <;> rfl

theorem Accounted.unchanged (hDb : t.db = s.db) : Accounted s t e where
  kept row hRow := ⟨row, hDb ▸ hRow, rfl, rfl, fun column => Or.inl (same_self row column)⟩
  added row hRow := Or.inl ⟨row, hDb ▸ hRow, rfl⟩
  owners := congrArg Database.owners hDb
  keys key hKey := ⟨key, hDb ▸ hKey, rfl, rfl, rfl, id, Or.inl rfl⟩

theorem Accounted.inserted {row : Row} (hNew : ¬s.db.vendors.taken row)
    (hDb : t.db = { s.db with vendors := s.db.vendors.insert row hNew })
    (hAsks : Asks s e fun request => ∃ id body, request = .createVendor id body ∧ row = body.row id) :
    Accounted s t e where
  kept row' hRow := by
    rw [hDb]
    exact ⟨row', List.mem_cons_of_mem _ hRow, rfl, rfl, fun column => Or.inl (same_self row' column)⟩
  added row' hRow := by
    rw [hDb] at hRow
    rcases List.mem_cons.mp hRow with rfl | hOld
    · exact Or.inr hAsks
    · exact Or.inl ⟨row', hOld, rfl⟩
  owners := by
    rw [hDb]
    rfl
  keys key hKey := ⟨key, by rw [hDb]; exact hKey, rfl, rfl, rfl, id, Or.inl rfl⟩

theorem Accounted.changed {loaded : Row} {body : VendorUpdate}
    (hNulls : (body.changes loaded).nulls = false)
    (hDb : t.db = { s.db with vendors := s.db.vendors.update loaded.id (body.changes loaded) })
    (hAsks : Asks s e fun request => request.update? = some (loaded.id, body)) :
    Accounted s t e where
  kept row hRow := by
    rw [hDb]
    by_cases hId : row.id = loaded.id
    · refine ⟨row.merged (body.changes loaded), mem_update.mpr (Or.inl ⟨row, hRow, hId, rfl⟩), rfl,
        rfl, fun column => ?_⟩
      by_cases hSets : (body.changes loaded).sets column = true
      · obtain ⟨r, input, admin, request, pc, hEvent, hSession, hAdmin, hUpdate⟩ := hAsks
        exact Or.inr ⟨r, input, admin, request, pc, hEvent, hSession, hAdmin, body,
          hId ▸ hUpdate, sets_changes hSets, held_merged hSets hNulls⟩
      · exact Or.inl (same_merged (by simpa using hSets))
    · exact ⟨row, mem_update.mpr (Or.inr ⟨hRow, hId⟩), rfl, rfl,
        fun column => Or.inl (same_self row column)⟩
  added row' hRow := by
    rw [hDb] at hRow
    rcases mem_update.mp hRow with ⟨old, hOld, -, rfl⟩ | ⟨hOld, -⟩
    · exact Or.inl ⟨old, hOld, rfl⟩
    · exact Or.inl ⟨row', hOld, rfl⟩
  owners := by
    rw [hDb]
    rfl
  keys key hKey := ⟨key, by rw [hDb]; exact hKey, rfl, rfl, rfl, id, Or.inl rfl⟩

theorem Accounted.limited {vendor : Row} {loaded : VendorApiKey} {body : QuotaUpdate}
    (hOwns : (loaded.id, vendor.id) ∈ s.db.owners) (hKey : loaded.id = body.keyId)
    (hDb : t.db = { s.db with keys := s.db.keys.update loaded.id (QuotaUpdate.changes body loaded) })
    (hOwners : t.db.owners = s.db.owners)
    (hAsks : Asks s e fun request => request.quotaUpdate? = some (vendor.id, body)) :
    Accounted s t e where
  kept row hRow := by
    rw [hDb]
    exact ⟨row, hRow, rfl, rfl, fun column => Or.inl (same_self row column)⟩
  added row' hRow := by
    rw [hDb] at hRow
    exact Or.inl ⟨row', hRow, rfl⟩
  owners := hOwners
  keys key hMem := by
    rw [hDb]
    by_cases hId : key.id = loaded.id
    · refine ⟨QuotaUpdate.onto (QuotaUpdate.changes body loaded) key,
        List.mem_map.mpr ⟨key, hMem, if_pos hId⟩, rfl, rfl, rfl, limited_onto _, Or.inr ?_⟩
      have hVendor : key.vendorId = vendor.id := by
        obtain ⟨owned, hOwned, hPair⟩ := List.mem_map.mp hOwns
        obtain ⟨hSameId, hSameVendor⟩ := Prod.mk.inj hPair
        rw [List.inj_on_of_nodup_map s.db.keys.ids hMem hOwned (hId.trans hSameId.symm)]
        exact hSameVendor
      obtain ⟨r, input, admin, request, pc, hEvent, hSession, hAdmin, hUpdate⟩ := hAsks
      exact ⟨r, input, admin, request, pc, hEvent, hSession, hAdmin, body, hVendor ▸ hUpdate,
        (hId.trans hKey).symm, onto_quotaLimit body loaded key, onto_quotaPeriod body loaded key⟩
    · exact ⟨key, List.mem_map.mpr ⟨key, hMem, if_neg hId⟩, rfl, rfl, rfl, id, Or.inl rfl⟩

end Accounts

/-- In every run a step changes vendors and API keys only as a request of an admin
asks for it. No row disappears, identifiers and slugs stay, a column is written
only with the value asked for it, an API key is changed only under its own vendor,
and one that has a quota keeps having one. -/
theorem changes_accounted {columns : Columns} {s : State} {h : ℕ → List Database}
    (run : (watched columns).Reaches System.anyRun (s, h)) {e : Event} {t : State}
    (next : (machine columns).step s e = some t) : Accounted s t e := by
  have hOwners := owners_step next
  cases step_cases next with
  | arrived r caller request hIdle => exact .unchanged rfl
  | resumed r input admin request pc db next hSession hResume =>
      rcases resume_cases hResume with rfl | ⟨write, rfl, -, rfl⟩
      · exact .unchanged rfl
      have hLawful := lawful_run run r
      have hOwned := owns_run run.forget r
      simp only [hSession] at hLawful hOwned
      obtain ⟨hAdmin, hKnown⟩ := hLawful
      have hAsks {P : Request → Prop} (hP : P request) : Asks s (.deliver r input) P :=
        ⟨r, input, admin, request, _, rfl, hSession, hAdmin, hP⟩
      generalize hCommit : commit columns s.db write = result at hResume hOwners ⊢
      obtain ⟨db, after⟩ := result
      cases commit_cases hCommit with
      | refused => exact .unchanged rfl
      | inserted row hNew => exact .inserted hNew rfl (hAsks hKnown)
      | changed loaded current body _ hNulls => exact .changed hNulls rfl (hAsks hKnown.1)
      | limited vendor loaded body =>
          obtain ⟨hRequest, hKey, -⟩ := hKnown
          exact .limited hOwned hKey rfl hOwners (hAsks (hRequest ▸ rfl))

/-- The commit of a request is executed and goes through in this event. -/
def commits (columns : Columns) (r : ℕ) (s : State) : Event → ℕ
  | .arrive _ _ _ => 0
  | .deliver w input =>
      if w = r then
        match s.sessions r, input with
        | .running _ _ (.committing write), .answer
        | .running _ _ (.committing write), .raised true =>
            match (commit columns s.db write).2 with
            | .await _ => 1
            | .finish _ => 0
        | _, _ => 0
      else 0

/-- A request of a kind that writes. -/
def Request.writes : Request → Bool
  | .listVendors => false
  | .createVendor _ _ => true
  | .onVendor _ call =>
      match call with
      | .updateVendor _ | .deactivateVendor | .updateVendorQuota _ => true
      | .getVendor | .getVendorQuota | .getVendorUsage => false

/-- How often a request has committed: not at all before its commit and when it is
refused or answered with an error status; otherwise, when it is answered, once if it
writes. An exception may be raised behind the commit as well as before it. -/
def Session.Spent (spent : ℕ) : Session → Prop
  | .idle | .refused _ => spent = 0
  | .running _ request pc =>
      match pc with
      | .listing | .selectingVendor _ _ | .selectingKey _ _ | .committing _ => spent = 0
      | .refreshing _ | .selectingKeys _ _ | .gettingUsage _ _ _ _ =>
          spent = request.writes.toNat
  | .answered _ request reply =>
      match reply with
      | .httpException _ _ => spent = 0
      | .vendors _ | .vendor _ _ | .quota _ | .usage _ => spent = request.writes.toNat
      | .escaped => spent ≤ request.writes.toNat

/-- What a request that waits at an await is. -/
def Session.Kept : Session → Prop
  | .running _ request pc =>
      match pc with
      | .listing => request.writes = false
      | .selectingVendor vendorId call => request = .onVendor vendorId call
      | .selectingKey _ _ | .committing _ | .refreshing _ => request.writes = true
      | .selectingKeys _ _ | .gettingUsage _ _ _ _ => True
  | _ => True

section Commits

variable {columns : Columns} {s t : State} {e : Event} {r : ℕ}

/-- The rows change only in a commit that is counted. -/
theorem db_of_commits (next : (machine columns).step s e = some t)
    (hNone : ∀ r, commits columns r s e = 0) : t.db = s.db := by
  cases step_cases next with
  | arrived => rfl
  | resumed r input admin request pc db next hSession hResume =>
      rcases resume_cases hResume with rfl | ⟨write, rfl, hInput, rfl⟩
      · rfl
      have hZero := hNone r
      generalize hCommit : commit columns s.db write = result
      obtain ⟨db', after⟩ := result
      cases commit_cases hCommit with
      | refused => rfl
      | _ => rcases hInput with rfl | rfl <;> simp [commits, hSession, hCommit] at hZero

/-- A commit that does not go through is answered with an error status, or raises. -/
theorem reply_of_commit {db db' : Database} {write : Write} {reply : Reply}
    (h : commit columns db write = (db', .finish reply)) :
    reply = .escaped ∨ ∃ statusCode detail, reply = .httpException statusCode detail := by
  cases write with
  | insert row =>
      rw [commit] at h
      split_ifs at h <;> cases h
      · exact Or.inr ⟨_, _, rfl⟩
      · exact Or.inl rfl
  | change loaded body =>
      simp only [commit] at h
      split at h
      case h_1 =>
        cases h
        exact Or.inl rfl
      case h_2 =>
        split_ifs at h <;> cases h
        exact Or.inl rfl
  | limit vendor loaded body =>
      simp only [commit] at h
      split_ifs at h <;> cases h
      exact Or.inl rfl

section Behind

variable {db db' : Database} {admin : Auth.UserIdentity} {request : Request} {spent : ℕ}

/-- Behind its commit, and where there is none to make, a request commits no more. -/
def Behind (next : Next) (admin : Auth.UserIdentity) (request : Request) (spent : ℕ) : Prop :=
  (next.session admin request).Spent spent ∧ (next.session admin request).Kept

theorem behind_escaped (hSpent : spent ≤ request.writes.toNat) :
    Behind (.finish .escaped) admin request spent := ⟨hSpent, trivial⟩

theorem behind_vendorResponse (hSpent : spent = request.writes.toNat) (statusCode : ℕ) (row : Row) :
    Behind (.finish (vendorResponse statusCode row)) admin request spent := by
  unfold vendorResponse
  split_ifs
  · exact ⟨hSpent, trivial⟩
  · exact behind_escaped hSpent.le

theorem behind_afterRefresh (hSpent : spent = request.writes.toNat) (write : Write) :
    Behind (afterRefresh db write) admin request spent := by
  cases write with
  | insert row =>
      rw [afterRefresh]
      split
      · exact behind_escaped hSpent.le
      · exact behind_vendorResponse hSpent 201 _
  | change loaded body =>
      rw [afterRefresh]
      split
      · exact behind_escaped hSpent.le
      · exact behind_vendorResponse hSpent 200 _
  | limit vendor loaded body =>
      rw [afterRefresh]
      split
      · exact behind_escaped hSpent.le
      · exact ⟨hSpent, trivial⟩

theorem behind_buildUsages (hSpent : spent = request.writes.toNat) (vendor : Row)
    (done : List ApiKeyQuotaUsage) (rest : List VendorApiKey) :
    Behind (buildUsages vendor done rest) admin request spent := by
  induction rest generalizing done with
  | nil => exact ⟨hSpent, trivial⟩
  | cons key rest ih =>
      rw [buildUsages]
      split_ifs
      · exact ⟨hSpent, trivial⟩
      · exact ih _

theorem behind_afterSelectVendor {vendorId : Uuid} {call : VendorCall} (vendor : Option Row) :
    Behind (afterSelectVendor vendorId call vendor) admin (.onVendor vendorId call) 0 := by
  cases vendor with
  | none => exact ⟨rfl, trivial⟩
  | some row =>
      cases call with
      | getVendor => exact behind_vendorResponse rfl 200 row
      | updateVendor body => exact ⟨rfl, rfl⟩
      | deactivateVendor => exact ⟨rfl, rfl⟩
      | getVendorQuota => exact ⟨rfl, trivial⟩
      | updateVendorQuota body => exact ⟨rfl, rfl⟩
      | getVendorUsage => exact ⟨rfl, trivial⟩

/-- The commit of a request is counted if it goes through, answered or not. -/
theorem behind_commit {input : Input} {write : Write} {next : Next}
    (hSession : s.sessions r = .running admin request (.committing write))
    (hWrites : request.writes = true)
    (hResume : resume columns s.db (.committing write) input = some (db, next)) :
    Behind next admin request (commits columns r s (.deliver r input)) := by
  have hOnce : request.writes.toNat = 1 := by rw [hWrites]; rfl
  cases input with
  | answer =>
      have hCommit : commit columns s.db write = (db, next) := Option.some.inj hResume
      simp only [commits, if_true, hSession, hCommit]
      cases next with
      | finish reply =>
          rcases reply_of_commit hCommit with rfl | ⟨statusCode, detail, rfl⟩
          · exact behind_escaped (Nat.zero_le _)
          · exact ⟨rfl, trivial⟩
      | await pc =>
          cases commit_cases hCommit with
          | _ => exact ⟨hOnce.symm, hWrites⟩
  | raised executed =>
      obtain ⟨-, rfl⟩ := Prod.mk.inj (Option.some.inj hResume)
      refine behind_escaped ?_
      rw [hOnce]
      cases executed with
      | true =>
          simp only [commits, if_true, hSession]
          split <;> decide
      | false => simp [commits, hSession]
  | _ => cases hResume

theorem commits_of_not_committing {input : Input} {pc : Pc}
    (hSession : s.sessions r = .running admin request pc)
    (hPc : ∀ write, pc ≠ .committing write) : commits columns r s (.deliver r input) = 0 := by
  cases pc with
  | committing write => exact absurd rfl (hPc write)
  | _ => simp [commits, hSession]

/-- Until it is answered a request has committed no more than it is to. -/
theorem Session.Spent.le_writes {pc : Pc} (h : (Session.running admin request pc).Spent spent) :
    spent ≤ request.writes.toNat := by
  have hNone (hSpent : spent = 0) : spent ≤ request.writes.toNat := hSpent ▸ Nat.zero_le _
  cases pc with
  | listing => exact hNone h
  | selectingVendor vendorId call => exact hNone h
  | selectingKey vendor body => exact hNone h
  | committing write => exact hNone h
  | _ => exact le_of_eq h

theorem escaped_of_raised {pc : Pc} {executed : Bool} {next : Next}
    (hResume : resume columns db pc (.raised executed) = some (db', next)) :
    next = .finish .escaped := by
  cases pc <;> cases hResume <;> rfl

/-- Apart from its commit a request commits nothing. The cases are those of what the
request is resumed with. -/
theorem behind_read {pc : Pc} {input : Input} {next : Next} (hPc : ∀ write, pc ≠ .committing write)
    (hSpent : (Session.running admin request pc).Spent spent)
    (hKept : (Session.running admin request pc).Kept)
    (hResume : resume columns db pc input = some (db', next)) :
    Behind next admin request spent := by
  cases input with
  | raised executed =>
      rw [escaped_of_raised hResume]
      exact behind_escaped hSpent.le_writes
  | vendorRows order =>
      cases pc with
      | listing =>
          simp only [resume] at hResume
          split_ifs at hResume
          cases hResume
          unfold vendorsResponse
          have hNone : request.writes = false := hKept
          split_ifs
          · exact ⟨hSpent.trans (by rw [hNone]; rfl), trivial⟩
          · exact behind_escaped hSpent.le_writes
      | _ => cases hResume
  | keyRows order =>
      cases pc with
      | selectingKeys vendor refreshed =>
          simp only [resume] at hResume
          split_ifs at hResume
          cases hResume
          exact behind_buildUsages hSpent vendor [] _
      | _ => cases hResume
  | usage count =>
      cases pc with
      | gettingUsage vendor done key rest =>
          cases count with
          | none =>
              cases hResume
              exact behind_escaped hSpent.le_writes
          | some n =>
              cases hResume
              exact behind_buildUsages hSpent vendor _ rest
      | _ => cases hResume
  | answer =>
      cases pc with
      | committing write => exact absurd rfl (hPc write)
      | selectingVendor vendorId call =>
          obtain rfl : spent = 0 := hSpent
          obtain rfl : request = .onVendor vendorId call := hKept
          cases hResume
          exact behind_afterSelectVendor _
      | selectingKey vendor body =>
          cases hResume
          unfold afterSelectKey
          split
          · exact ⟨hSpent, trivial⟩
          · exact ⟨hSpent, hKept⟩
      | refreshing write =>
          cases hResume
          exact behind_afterRefresh hSpent write
      | _ => cases hResume

/-- What an await of a request does to what it has committed. -/
theorem behind_resume {pc : Pc} {input : Input} {next : Next}
    (hSession : s.sessions r = .running admin request pc) (hSpent : (s.sessions r).Spent spent)
    (hKept : (s.sessions r).Kept) (hResume : resume columns s.db pc input = some (db, next)) :
    Behind next admin request (spent + commits columns r s (.deliver r input)) := by
  rw [hSession] at hSpent hKept
  by_cases hPc : ∃ write, pc = .committing write
  · obtain ⟨write, rfl⟩ := hPc
    obtain rfl : spent = 0 := hSpent
    rw [Nat.zero_add]
    exact behind_commit hSession hKept hResume
  · have hNot : ∀ write, pc ≠ .committing write := fun write h => hPc ⟨write, h⟩
    rw [commits_of_not_committing hSession hNot, Nat.add_zero]
    exact behind_read hNot hSpent hKept hResume

end Behind

theorem spent_step {spent : ℕ} (hSpent : (s.sessions r).Spent spent) (hKept : (s.sessions r).Kept)
    (next : (machine columns).step s e = some t) :
    (t.sessions r).Spent (spent + commits columns r s e) ∧ (t.sessions r).Kept := by
  cases step_cases next with
  | arrived w caller request hIdle =>
      have hNone : commits columns r s (.arrive w caller request) = 0 := rfl
      rw [hNone, Nat.add_zero]
      by_cases hw : r = w
      · subst hw
        rw [hIdle] at hSpent
        obtain rfl : spent = 0 := hSpent
        simp only [Function.update_self, enter]
        split
        · exact ⟨rfl, trivial⟩
        · exact ⟨rfl, trivial⟩
        · cases request with
          | listVendors => exact ⟨rfl, rfl⟩
          | createVendor id body => exact ⟨rfl, rfl⟩
          | onVendor vendorId call => exact ⟨rfl, rfl⟩
      · simp only [Function.update_of_ne hw]
        exact ⟨hSpent, hKept⟩
  | resumed w input admin request pc db after hSession hResume =>
      by_cases hw : r = w
      · subst hw
        simp only [Function.update_self]
        exact behind_resume hSession hSpent hKept hResume
      · have hNone : commits columns r s (.deliver w input) = 0 := if_neg (Ne.symm hw)
        rw [hNone, Nat.add_zero]
        simp only [Function.update_of_ne hw]
        exact ⟨hSpent, hKept⟩

theorem spent_run {allowed : State × ℕ → Event → Prop} {p : State × ℕ}
    (run : ((machine columns).metered (commits columns r)).Reaches allowed p) :
    (p.1.sessions r).Spent p.2 ∧ (p.1.sessions r).Kept := by
  refine run.invariant_metered
    (I := fun s spent => (s.sessions r).Spent spent ∧ (s.sessions r).Kept)
    (fun s hInit => ?_) fun s spent t e h next => spent_step h.1 h.2 next
  rw [hInit r]
  exact ⟨rfl, trivial⟩

theorem Session.Spent.le_one {session : Session} {spent : ℕ} (h : session.Spent spent) :
    spent ≤ 1 := by
  have hWrites (request : Request) : request.writes.toNat ≤ 1 := Bool.toNat_le _
  unfold Session.Spent at h
  split at h
  case h_1 => omega
  case h_2 => omega
  case h_3 request pc =>
    have hOnce := hWrites request
    cases pc <;> simp only at h <;> omega
  case h_4 request reply =>
    have hOnce := hWrites request
    cases reply <;> simp only at h <;> omega

end Commits

/-- A request commits at most once: not at all up to its commit and when it is refused or
answered with an error status; exactly once when it writes and is answered otherwise,
and not at all when it only reads. What ends in an exception may have committed. The
rows change in no other way. -/
theorem commits_at_most_once {columns : Columns} (r : ℕ) {p : State × ℕ}
    (run : ((machine columns).metered (commits columns r)).Reaches
      (fun p e => System.anyRun p.1 e) p) :
    p.2 ≤ 1 ∧ (p.1.sessions r).Spent p.2 ∧
      ∀ e t, (machine columns).step p.1 e = some t → (∀ w, commits columns w p.1 e = 0) →
        t.db = p.1.db :=
  ⟨(spent_run run).1.le_one, (spent_run run).1, fun _ _ next hNone => db_of_commits next hNone⟩

section Sample

/-- A vendor that is switched off, and an administrator. -/
def sampleRow : Row where
  id := .nil
  slug := "v"
  baseUrl := "http://v"
  cacheTtlSeconds := 0
  name := "V"
  authType := .basic
  authConfig := some []
  rateLimitRpm := 0
  isActive := false

def sampleState : State where
  db := ⟨⟨[sampleRow], List.nodup_singleton _, List.nodup_singleton _⟩, ⟨[], List.nodup_nil⟩⟩
  sessions := fun _ => .idle

def sampleAdmin : Auth.UserIdentity where
  sub := .str "u"
  email := .null
  roles := .arr [.str "admin"]
  isServiceAccount := false
  rawClaims := []

/-- The first request switches the vendor off, which it finds switched off, while
the second one switches it on. -/
def switchedOn : List Event :=
  [.arrive 0 (.ok sampleAdmin) (.onVendor .nil .deactivateVendor), .deliver 0 .answer,
    .arrive 1 (.ok sampleAdmin) (.onVendor .nil (.updateVendor { isActive := .value true })),
    .deliver 1 .answer, .deliver 1 .answer, .deliver 0 .answer, .deliver 0 .answer]

/-- The first request was to switch the vendor off, and is told that it is on. -/
def State.surprised (s : State) : Bool :=
  match s.sessions 0 with
  | .answered _ request (.vendor 200 row) =>
      (request.update?.any fun update => decide (update.1 = .nil) && !update.2.isActive.getD true) &&
        row.isActive
  | _ => false

theorem update_takes_effect_switched : ∃ s h body row,
    (watched sampleColumns).Reaches System.anyRun (s, h) ∧ body.isActive.getD true = false ∧
      row.isActive = true ∧ (∃ db, (h 0).head? = some db ∧ row ∈ db.vendors.rows ∧ row.id = .nil) ∧
        ∀ column, HeldIn (h 0) .nil body column := by
  have hInit : (watched sampleColumns).init (sampleState, fun _ => []) := ⟨fun _ => rfl, rfl⟩
  obtain ⟨⟨s, h⟩, run, hSurprised⟩ := (System.Reaches.init hInit).exec_any
    (by decide +kernel : ((watched sampleColumns).exec System.anyRun _ switchedOn).any
      (fun p => p.1.surprised) = true)
  unfold State.surprised at hSurprised
  split at hSurprised
  case h_1 admin request row hAnswered =>
    obtain ⟨hAny, hActive⟩ := Bool.and_eq_true_iff.mp hSurprised
    obtain ⟨⟨id, body⟩, hUpdate, hBody⟩ := (Option.any_eq_true _ _).mp hAny
    obtain ⟨hId, hOff⟩ := Bool.and_eq_true_iff.mp hBody
    obtain rfl : id = .nil := of_decide_eq_true hId
    obtain ⟨hShown, hHeld⟩ := update_takes_effect run hAnswered hUpdate
    exact ⟨s, h, body, row, run, by simpa using hOff, hActive, hShown, hHeld⟩
  case h_2 => cases hSurprised

theorem changes_accounted_switched : ∃ s e t,
    (machine sampleColumns).step s e = some t ∧ Accounted s t e ∧
      s.db.vendors.rows.map Row.isActive ≠ t.db.vendors.rows.map Row.isActive := by
  have hInit : (watched sampleColumns).init (sampleState, fun _ => []) := ⟨fun _ => rfl, rfl⟩
  obtain ⟨⟨s, h⟩, run, hCheck⟩ := (System.Reaches.init hInit).exec_any
    (by decide +kernel : ((watched sampleColumns).exec System.anyRun _ (switchedOn.take 4)).any
      (fun p => ((machine sampleColumns).step p.1 (.deliver 1 .answer)).any fun t =>
        decide (p.1.db.vendors.rows.map Row.isActive ≠ t.db.vendors.rows.map Row.isActive)) = true)
  obtain ⟨t, next, hChanged⟩ := (Option.any_eq_true _ _).mp hCheck
  exact ⟨s, _, t, next, changes_accounted run next, of_decide_eq_true hChanged⟩

/-- A configuration is taken away, and the response to it cannot be built. -/
def configNulled : List Event :=
  [.arrive 1 (.ok sampleAdmin) (.onVendor .nil (.updateVendor { authConfig := .null })),
    .deliver 1 .answer, .deliver 1 .answer, .deliver 1 .answer]

def State.escaped (s : State) : Bool :=
  match s.sessions 1 with
  | .answered _ _ .escaped => true
  | _ => false

/-- The second request commits, and once; and so does one that is answered with a 500. -/
theorem commits_at_most_once_switched :
    (∃ p : State × ℕ, ((machine sampleColumns).metered (commits sampleColumns 1)).Reaches
      (fun p e => System.anyRun p.1 e) p ∧ p.2 = 1 ∧ p.2 ≤ 1) ∧
    ∃ p : State × ℕ, ((machine sampleColumns).metered (commits sampleColumns 1)).Reaches
      (fun p e => System.anyRun p.1 e) p ∧ p.2 = 1 ∧ p.1.escaped = true ∧
        (p.1.sessions 1).Spent p.2 := by
  have hInit : ((machine sampleColumns).metered (commits sampleColumns 1)).init (sampleState, 0) :=
    System.init_metered fun _ => rfl
  constructor
  · obtain ⟨p, run, hSpent⟩ := (System.Reaches.init hInit).exec_any
      (by decide +kernel : (((machine sampleColumns).metered (commits sampleColumns 1)).exec
        (fun p e => System.anyRun p.1 e) _ switchedOn).any (fun p => decide (p.2 = 1)) = true)
    exact ⟨p, run, of_decide_eq_true hSpent, (commits_at_most_once 1 run).1⟩
  · obtain ⟨p, run, hCheck⟩ := (System.Reaches.init hInit).exec_any
      (by decide +kernel : (((machine sampleColumns).metered (commits sampleColumns 1)).exec
        (fun p e => System.anyRun p.1 e) _ configNulled).any
          (fun p => decide (p.2 = 1) && p.1.escaped) = true)
    obtain ⟨hSpent, hEscaped⟩ := Bool.and_eq_true_iff.mp hCheck
    exact ⟨p, run, of_decide_eq_true hSpent, hEscaped, (commits_at_most_once 1 run).2.1⟩

end Sample

end Gateway.Admin.Api

import Gateway.Admin.Api
import Gateway.Quota.Tally

/-! What is read of the quota counters: `get_quota_usage`, `check_quota` and
`sync_quota_to_db` of `gateway/quota/tracker.py` and `check_quota_dependency` of
`gateway/middleware/quota.py`, while increments and administrators go on. A reader
reads the clock, sends GET at some later time, and may need the clock again. -/
namespace Gateway.Quota.Readers

open Calendar Transition Gateway.Db Rollover
open Callers (Call Tallied tally used)

inductive Request where
  | getQuotaUsage (vendorId keyId : Uuid) (period : String)
  | checkQuota (vendorId keyId : Uuid) (limit : ℤ) (period : String)
  | syncQuotaToDb (vendorId keyId : Uuid) (period : String)
  | checkQuotaDependency (vendorSlug keyName : String)
  deriving DecidableEq

structure QuotaExceededResponse where
  error : String := "quota_exceeded"
  vendor : String
  key : String
  limit : ℤ
  used : ℤ
  period : String
  resetsAt : DateTime

/-- How a request ends: with a result, with an exception, or, for the dependency,
with an `HTTPException` of status 404 or 429. -/
inductive Outcome where
  | raised
  | usage (current : ℤ)
  | checked (allowed : Bool) (current : ℤ)
  | synced (bucket : String) (usedCount : ℤ)
  | passed
  | notFound (detail : String)
  | quotaExceeded (body : QuotaExceededResponse)

/-- What the value of a counter is needed for. -/
inductive Purpose where
  | usage
  | check (limit : ℤ)
  | sync
  | dependency (vendorName keyName : String) (limit : ℤ)

/-- A reader at its next await, or at its next reading of the clock. -/
inductive Reader where
  | idle
  | selectingKey (vendorSlug keyName : String)
  | selectingVendor (vendorSlug keyName : String) (key : VendorApiKey)
  | getting (purpose : Purpose) (reading : Call) (c : Counter)
  | syncing (reading : Call) (current : ℤ)
  | exceeding (vendorName keyName : String) (limit : ℤ) (reading : Call) (current : ℤ)
  | finished (outcome : Outcome)

structure State where
  counters : Callers.State
  admin : Admin.Api.State
  readers : ℕ → Reader

/-- The pending statement of a reader is answered or raises. -/
inductive Event where
  | counters (e : Callers.Event)
  | admin (e : Admin.Api.Event)
  | call (q : ℕ) (request : Request)
  | deliver (q : ℕ) (answered : Bool)
  | clock (q : ℕ)
  | cancel (q : ℕ)

/-- The rows of the query for the key: a vendor is joined to each of its keys once. -/
def activeKeys (db : Admin.Api.Database) (vendorSlug keyName : String) : List VendorApiKey :=
  db.keys.rows.filter fun key => key.keyName = keyName ∧ key.isActive = true ∧
    ∃ vendor ∈ db.vendors.rows, vendor.id = key.vendorId ∧ vendor.slug = vendorSlug ∧
      vendor.isActive = true

/-- Where an exception of the tracker leads; the dependency lets the request pass. -/
def Purpose.afterRaise : Purpose → Reader
  | .dependency _ _ _ => .finished .passed
  | _ => .finished .raised

/-- `get_quota_usage` up to GET. -/
def begin (purpose : Purpose) (reading : Call) : Reader :=
  match reading.counter with
  | none => purpose.afterRaise
  | some c => .getting purpose reading c

def enter (now : DateTime) : Request → Reader
  | .getQuotaUsage v k period => begin .usage ⟨v, k, period, now⟩
  | .checkQuota v k limit period => begin (.check limit) ⟨v, k, period, now⟩
  | .syncQuotaToDb v k period => begin .sync ⟨v, k, period, now⟩
  | .checkQuotaDependency vendorSlug keyName => .selectingKey vendorSlug keyName

/-- `scalar_one_or_none`, which raises on several rows. -/
def afterSelectKey (vendorSlug keyName : String) : List VendorApiKey → Reader
  | [] => .finished
      (.notFound ("API key '" ++ keyName ++ "' not found for vendor '" ++ vendorSlug ++ "'."))
  | [key] => .selectingVendor vendorSlug keyName key
  | _ => .finished .raised

def afterSelectVendor (now : DateTime) (vendorSlug keyName : String) (key : VendorApiKey)
    (vendor : Option Admin.Row) : Reader :=
  match key.quotaLimit, key.quotaPeriod with
  | some limit, some period =>
      begin (.dependency ((vendor.map fun row => row.slug).getD vendorSlug) keyName limit)
        ⟨key.vendorId, key.id, period, now⟩
  | _, _ => .finished .passed

def afterGet (purpose : Purpose) (reading : Call) (value : Option (Redis.Value Empty)) : Reader :=
  match quotaUsage value with
  | none => purpose.afterRaise
  | some current =>
      match purpose with
      | .usage => .finished (.usage current)
      | .check limit => .finished (.checked (decide (current < limit)) current)
      | .sync => .syncing reading current
      | .dependency vendorName keyName limit =>
          if current < limit then .finished .passed
          else .exceeding vendorName keyName limit reading current

namespace State

variable (s : State)

def now : DateTime := s.counters.now

def goto (q : ℕ) (reader : Reader) : State :=
  { s with readers := Function.update s.readers q reader }

@[simp] theorem goto_readers_self (q : ℕ) (reader : Reader) : (s.goto q reader).readers q = reader :=
  Function.update_self ..

theorem goto_readers_of_ne {q w : ℕ} (h : w ≠ q) (reader : Reader) :
    (s.goto q reader).readers w = s.readers w :=
  Function.update_of_ne h ..

/-- A statement that is answered. -/
def answered : Reader → Option Reader
  | .selectingKey vendorSlug keyName =>
      some (afterSelectKey vendorSlug keyName (activeKeys s.admin.db vendorSlug keyName))
  | .selectingVendor vendorSlug keyName key =>
      some (afterSelectVendor s.now vendorSlug keyName key (s.admin.db.vendor? key.vendorId))
  | .getting purpose reading c =>
      some (afterGet purpose reading (s.counters.store.get s.counters.clock c.key))
  | _ => none

end State

/-- A statement that raises. -/
def unanswered : Reader → Option Reader
  | .selectingKey _ _ | .selectingVendor _ _ _ => some (.finished .raised)
  | .getting purpose _ _ => some purpose.afterRaise
  | _ => none

/-- The second reading of the clock. -/
def afterClock (now : DateTime) : Reader → Option Reader
  | .syncing reading current =>
      some (.finished ((Rollover.periodBucket reading.period now).elim .raised fun bucket =>
        .synced bucket current))
  | .exceeding vendorName keyName limit reading current =>
      some (.finished ((Rollover.resetsAt reading.period now).elim .raised fun reset => .quotaExceeded
        { vendor := vendorName, key := keyName, limit := limit, used := current,
          period := reading.period, resetsAt := reset }))
  | _ => none

def Reader.inProgress : Reader → Bool
  | .idle | .finished _ => false
  | _ => true

def machine (columns : Admin.Columns) : System State Event where
  init s := Callers.machine.init s.counters ∧ (Admin.Api.machine columns).init s.admin ∧
    ∀ q, s.readers q = .idle
  step s
    | .counters e => (Callers.machine.step s.counters e).map fun t => { s with counters := t }
    | .admin e => ((Admin.Api.machine columns).step s.admin e).map fun t => { s with admin := t }
    | .call q request =>
        match s.readers q with
        | .idle => some (s.goto q (enter s.now request))
        | _ => none
    | .deliver q answered =>
        (if answered then s.answered (s.readers q) else unanswered (s.readers q)).map (s.goto q)
    | .clock q => (afterClock s.now (s.readers q)).map (s.goto q)
    | .cancel q => if (s.readers q).inProgress then some (s.goto q (.finished .raised)) else none

/-- What a GET met: what had been counted by then, and when. -/
structure Sight where
  reading : Call
  answered : Bool
  calls : List Call
  time : DateTime

/-- History: the executed increments, who asked what, what the query for the key
and what GET met, and when a reader ended that read the clock again. -/
structure Notes where
  calls : List Call
  requests : ℕ → Option Request
  selected : ℕ → Option Admin.Api.Database
  sights : ℕ → Option Sight
  ends : ℕ → Option DateTime

def Notes.start : Notes := ⟨[], fun _ => none, fun _ => none, fun _ => none, fun _ => none⟩

def record (s : State) (e : Event) (n : Notes) : Notes :=
  match e with
  | .counters e => { n with calls := tally s.counters e n.calls }
  | .call q request => { n with requests := Function.update n.requests q (some request) }
  | .deliver q answered =>
      match s.readers q with
      | .selectingKey _ _ => { n with selected := Function.update n.selected q (some s.admin.db) }
      | .getting _ reading _ =>
          { n with sights := Function.update n.sights q (some ⟨reading, answered, n.calls, s.now⟩) }
      | _ => n
  | .clock q => { n with ends := Function.update n.ends q (some s.now) }
  | .admin _ | .cancel _ => n

def noted (columns : Admin.Columns) : System (State × Notes) Event :=
  (machine columns).withHistory .start record

/-- All that a step can do. -/
inductive Step (columns : Admin.Columns) (s : State) : Event → State → Prop where
  | counted (e : Callers.Event) (t : Callers.State)
      (hStep : Callers.machine.step s.counters e = some t) :
      Step columns s (.counters e) { s with counters := t }
  | administered (e : Admin.Api.Event) (t : Admin.Api.State)
      (hStep : (Admin.Api.machine columns).step s.admin e = some t) :
      Step columns s (.admin e) { s with admin := t }
  | called (q : ℕ) (request : Request) (hIdle : s.readers q = .idle) :
      Step columns s (.call q request) (s.goto q (enter s.now request))
  | answered (q : ℕ) (after : Reader) (hAfter : s.answered (s.readers q) = some after) :
      Step columns s (.deliver q true) (s.goto q after)
  | unanswered (q : ℕ) (after : Reader) (hAfter : unanswered (s.readers q) = some after) :
      Step columns s (.deliver q false) (s.goto q after)
  | clocked (q : ℕ) (after : Reader) (hAfter : afterClock s.now (s.readers q) = some after) :
      Step columns s (.clock q) (s.goto q after)
  | cancelled (q : ℕ) : Step columns s (.cancel q) (s.goto q (.finished .raised))

theorem step_cases {columns : Admin.Columns} {s t : State} {e : Event}
    (h : (machine columns).step s e = some t) : Step columns s e t := by
  cases e with
  | counters e =>
      obtain ⟨t, hStep, rfl⟩ := Option.map_eq_some_iff.mp h
      exact .counted e t hStep
  | admin e =>
      obtain ⟨t, hStep, rfl⟩ := Option.map_eq_some_iff.mp h
      exact .administered e t hStep
  | call q request =>
      simp only [machine] at h
      split at h
      case h_1 hIdle =>
        cases h
        exact .called q request hIdle
      case h_2 => cases h
  | deliver q answered =>
      obtain ⟨after, hAfter, rfl⟩ := Option.map_eq_some_iff.mp h
      cases answered with
      | true => exact .answered q after hAfter
      | false => exact .unanswered q after hAfter
  | clock q =>
      obtain ⟨after, hAfter, rfl⟩ := Option.map_eq_some_iff.mp h
      exact .clocked q after hAfter
  | cancel q =>
      simp only [machine] at h
      split_ifs at h
      cases h
      exact .cancelled q

end Gateway.Quota.Readers

import Gateway.Jobs.Manager
import Gateway.Vendors.Coherence

/-! `gateway/jobs/manager.py`: `run_job`, `_process_pending_jobs` and
`_worker_loop` over the table of jobs and the registry. The worker is at one
`await` at a time; the functions named `after...` are the code behind it. An
exception that leaves `_process_pending_jobs` ends the pass. -/
namespace Gateway.Jobs.Worker

open Http Transition Gateway.Db Gateway.Vendors

/-- `response_payload` -/
structure ResponsePayload where
  statusCode : ℕ
  headers : Dict String String
  body : String

/-- A row of `jobs`, and the object that a session loads from it. -/
structure JobRow extends Job where
  id : Uuid
  responsePayload : Option ResponsePayload
  error : Option String

/-- The exits of `run_job` before the vendor call. -/
inductive Rejection where
  | noEndpoint
  | noVendor
  | noAdapter
  deriving DecidableEq

/-- How the awaited `VendorClient.request` ends and then the reading of `.text`;
an exception is its text. -/
inductive CallResult where
  | response (r : VendorResponse) (text : Except String String)
  | raised (message : String)

namespace JobRow

variable (job : JobRow)

def payload : Jsonb.Object := job.requestPayload.getD Dict.empty

def start : JobRow := { job with status := .inProgress }

def rejectionError : Rejection → String
  | .noEndpoint => "VendorEndpoint " ++ job.endpointId.text ++ " not found"
  | .noVendor => "Vendor " ++ job.vendorId.text ++ " not found in registry"
  | .noAdapter => "No adapter for vendor " ++ job.vendorId.text

def reject (reason : Rejection) : JobRow :=
  { job with status := .failed, error := some (job.rejectionError reason) }

/-- The handler `except Exception`. -/
def raise (message : String) : JobRow :=
  { job with status := .failed, error := some message }

/-- The status for an answer, set before the response payload is built. -/
def answer (statusCode : ℕ) : JobRow :=
  if 400 ≤ statusCode then
    { job with
      status := .failed
      error := some ("Vendor returned HTTP " ++ toString statusCode) }
  else { job with status := .completed }

def afterCall : CallResult → JobRow
  | .raised message => job.raise message
  | .response r (.error message) => (job.answer r.statusCode).raise message
  | .response r (.ok body) =>
      { job.answer r.statusCode with
        responsePayload := some ⟨r.statusCode, joinLines r.headers, body⟩ }

end JobRow

/-- `payload.get("headers", {}).get("x-callback-url")`; `none` when it raises. -/
def callbackUrl (payload : Jsonb.Object) : Option (Option String) :=
  match payload.get? "headers" with
  | none => some none
  | some (.obj fields) => some (fields.get? "x-callback-url")
  | some .null => none
  | some (.str _) => none

/-- The `await`s of the worker, with the jobs that the pass has yet to run.
`closing` leaves a session, `storing` is the commit after the vendor call. -/
inductive Pc where
  | stopped
  | sleeping
  | fetching
  | closing (rest : List Uuid)
  | refetching (id : Uuid) (rest : List Uuid)
  | marking (job : JobRow) (rest : List Uuid)
  | refreshing (job : JobRow) (rest : List Uuid)
  | selectingEndpoint (job : JobRow) (rest : List Uuid)
  | rejecting (job : JobRow) (reason : Rejection) (rest : List Uuid)
  | calling (job : JobRow) (call : Option VendorCall) (rest : List Uuid)
  | storing (job : JobRow) (rest : List Uuid)
  | notifying (job : JobRow) (rest : List Uuid)

/-- The object whose changes the pending commit writes. -/
def Pc.draft : Pc → Option JobRow
  | .marking job _ => some job
  | .rejecting job reason _ => some (job.reject reason)
  | .storing job _ => some job
  | _ => none

/-- An await on the database. -/
def Pc.onDatabase : Pc → Bool
  | .fetching | .closing _ | .refetching _ _ | .marking _ _ | .refreshing _ _ => true
  | .selectingEndpoint _ _ | .rejecting _ _ _ | .storing _ _ => true
  | .stopped | .sleeping | .calling _ _ _ | .notifying _ _ => false

/-- The head of the loop over the fetched jobs. -/
def afterClosing : List Uuid → Pc
  | [] => .sleeping
  | id :: rest => .refetching id rest

def afterRefetching (row : Option JobRow) (rest : List Uuid) : Pc :=
  match row with
  | none => .closing rest
  | some job => if job.status = .pending then .marking job.start rest else .closing rest

/-- The registry builds and keeps adapters while it is asked for one. Building
one raises outside of the `try` block. -/
def afterSelectEndpoint (registry : VendorRegistry) (job : JobRow) (rest : List Uuid)
    (endpoint : Option VendorEndpoint) : VendorRegistry × Pc :=
  match endpoint with
  | none => (registry, .rejecting job .noEndpoint rest)
  | some endpoint =>
      match registry.getById job.vendorId.text with
      | none => (registry, .rejecting job .noVendor rest)
      | some _ =>
          match registry.getAdapterById job.vendorId.text with
          | (registry, .absent) => (registry, .rejecting job .noAdapter rest)
          | (registry, .raised) => (registry, .sleeping)
          | (registry, .found _) => (registry, .calling job (jobCall endpoint job.toJob) rest)

def afterStoring (job : JobRow) (rest : List Uuid) : Pc :=
  match callbackUrl job.payload with
  | none => .sleeping
  | some none => .closing rest
  | some (some url) => if url = "" then .closing rest else .notifying job rest

/-- The committed jobs, the process's registry over the committed vendors, and
the worker. -/
structure State where
  jobs : Uuid → Option JobRow
  vendors : Coherence.State
  worker : Pc

/-- An await that raises or is cancelled may have been executed. Cancelling ends
the worker, and a restart loses it together with the registry. -/
inductive Event where
  | create (id vendorId endpointId : Uuid) (requestedBy : String)
      (requestPayload : Option Jsonb.Object)
  | vendors (e : Coherence.Event)
  | wake
  | pendingRows (ids : List Uuid)
  | reply
  | endpointRow (row : Option VendorEndpoint)
  | called (result : CallResult)
  | notified
  | raised (executed : Bool)
  | cancel (executed : Bool)
  | restart (executed : Bool) (refreshInterval : ℚ)

/-- An UPDATE of the columns that the worker assigns; `none` if there is no row. -/
def commit (jobs : Uuid → Option JobRow) (draft : JobRow) : Option (Uuid → Option JobRow) :=
  (jobs draft.id).map fun row => Function.update jobs draft.id (some
    { row with
      status := draft.status
      responsePayload := draft.responsePayload
      error := draft.error })

/-- The jobs after the pending await has failed. -/
def State.afterFailure (s : State) (executed : Bool) : Uuid → Option JobRow :=
  if executed then (s.worker.draft.bind (commit s.jobs)).getD s.jobs else s.jobs

/-- A new process over the same database. -/
def freshProcess (vendors : Coherence.State) (refreshInterval : ℚ) : Coherence.State :=
  { vendors with
    registry := .empty refreshInterval
    lock := none
    loads := fun _ => .idle
    loaded := none }

/-- The database answers the pending await. -/
def reply (s : State) : Option State :=
  match s.worker with
  | .closing rest => some { s with worker := afterClosing rest }
  | .refetching id rest => some { s with worker := afterRefetching (s.jobs id) rest }
  | .marking job rest => (commit s.jobs job).map fun jobs =>
      { s with jobs := jobs, worker := .refreshing job rest }
  | .refreshing job rest => (s.jobs job.id).map fun row =>
      { s with worker := .selectingEndpoint row rest }
  | .rejecting job reason rest => (commit s.jobs (job.reject reason)).map fun jobs =>
      { s with jobs := jobs, worker := .closing rest }
  | .storing job rest => (commit s.jobs job).map fun jobs =>
      { s with jobs := jobs, worker := afterStoring job rest }
  | _ => none

def step (s : State) : Event → Option State
  | .create id vendorId endpointId requestedBy requestPayload =>
      match s.jobs id, createJob vendorId endpointId requestedBy requestPayload with
      | none, some job =>
          some { s with jobs := Function.update s.jobs id (some ⟨job, id, none, none⟩) }
      | _, _ => none
  | .vendors e => (Coherence.step s.vendors e).map fun vendors => { s with vendors := vendors }
  | .wake =>
      match s.worker with
      | .sleeping => some { s with worker := .fetching }
      | _ => none
  | .pendingRows ids =>
      -- any of the pending rows, at most 50
      if ids.Nodup ∧ ids.length ≤ 50 ∧
          ∀ id ∈ ids, (s.jobs id).any (fun row => decide (row.status = .pending)) = true then
        match s.worker with
        | .fetching => some { s with worker := .closing ids }
        | _ => none
      else none
  | .reply => reply s
  | .endpointRow row =>
      match s.worker with
      | .selectingEndpoint job rest =>
          if row.all (fun endpoint => decide (endpoint.id = job.endpointId)) = true then
            let (registry, worker) := afterSelectEndpoint s.vendors.registry job rest row
            some { s with vendors := { s.vendors with registry := registry }, worker := worker }
          else none
      | _ => none
  | .called result =>
      match s.worker with
      | .calling job _ rest => some { s with worker := .storing (job.afterCall result) rest }
      | _ => none
  | .notified =>
      match s.worker with
      | .notifying _ rest => some { s with worker := .closing rest }
      | _ => none
  | .raised executed =>
      if s.worker.onDatabase then
        some { s with jobs := s.afterFailure executed, worker := .sleeping }
      else none
  | .cancel executed => some { s with jobs := s.afterFailure executed, worker := .stopped }
  | .restart executed refreshInterval =>
      some ⟨s.afterFailure executed, freshProcess s.vendors refreshInterval, .fetching⟩

/-- A new gateway: no jobs, and the worker at its first query. -/
def machine : System State Event where
  init s := (∀ id, s.jobs id = none) ∧ Coherence.machine.init s.vendors ∧ s.worker = .fetching
  step := step

/-- All that a step can do, by what it answers. -/
inductive Step (s : State) : Event → State → Prop where
  | created (id vendorId endpointId : Uuid) (requestedBy : String)
      (requestPayload : Option Jsonb.Object) (job : Job) (hFresh : s.jobs id = none)
      (hCreated : createJob vendorId endpointId requestedBy requestPayload = some job) :
      Step s (.create id vendorId endpointId requestedBy requestPayload)
        { s with jobs := Function.update s.jobs id (some ⟨job, id, none, none⟩) }
  | others (e : Coherence.Event) (vendors : Coherence.State)
      (hVendors : Coherence.step s.vendors e = some vendors) :
      Step s (.vendors e) { s with vendors := vendors }
  | woke (hPc : s.worker = .sleeping) : Step s .wake { s with worker := .fetching }
  | fetched (ids : List Uuid) (hPc : s.worker = .fetching) (hNodup : ids.Nodup)
      (hPending : ∀ id ∈ ids, ∃ row, s.jobs id = some row ∧ row.status = .pending) :
      Step s (.pendingRows ids) { s with worker := .closing ids }
  | closed (rest : List Uuid) (hPc : s.worker = .closing rest) :
      Step s .reply { s with worker := afterClosing rest }
  | refetched (id : Uuid) (rest : List Uuid) (hPc : s.worker = .refetching id rest) :
      Step s .reply { s with worker := afterRefetching (s.jobs id) rest }
  | marked (job : JobRow) (rest : List Uuid) (jobs : Uuid → Option JobRow)
      (hPc : s.worker = .marking job rest) (hCommit : commit s.jobs job = some jobs) :
      Step s .reply { s with jobs := jobs, worker := .refreshing job rest }
  | refreshed (job row : JobRow) (rest : List Uuid) (hPc : s.worker = .refreshing job rest)
      (hRow : s.jobs job.id = some row) :
      Step s .reply { s with worker := .selectingEndpoint row rest }
  | selected (job : JobRow) (rest : List Uuid) (row : Option VendorEndpoint)
      (hPc : s.worker = .selectingEndpoint job rest)
      (hRow : ∀ endpoint ∈ row, endpoint.id = job.endpointId) :
      Step s (.endpointRow row)
        { s with
          vendors :=
            { s.vendors with
              registry := (afterSelectEndpoint s.vendors.registry job rest row).1 }
          worker := (afterSelectEndpoint s.vendors.registry job rest row).2 }
  | rejected (job : JobRow) (reason : Rejection) (rest : List Uuid) (jobs : Uuid → Option JobRow)
      (hPc : s.worker = .rejecting job reason rest)
      (hCommit : commit s.jobs (job.reject reason) = some jobs) :
      Step s .reply { s with jobs := jobs, worker := .closing rest }
  | answered (job : JobRow) (call : Option VendorCall) (rest : List Uuid) (result : CallResult)
      (hPc : s.worker = .calling job call rest) :
      Step s (.called result) { s with worker := .storing (job.afterCall result) rest }
  | stored (job : JobRow) (rest : List Uuid) (jobs : Uuid → Option JobRow)
      (hPc : s.worker = .storing job rest) (hCommit : commit s.jobs job = some jobs) :
      Step s .reply { s with jobs := jobs, worker := afterStoring job rest }
  | notified (job : JobRow) (rest : List Uuid) (hPc : s.worker = .notifying job rest) :
      Step s .notified { s with worker := .closing rest }
  | raised (executed : Bool) (hPc : s.worker.onDatabase = true) :
      Step s (.raised executed) { s with jobs := s.afterFailure executed, worker := .sleeping }
  | cancelled (executed : Bool) :
      Step s (.cancel executed) { s with jobs := s.afterFailure executed, worker := .stopped }
  | restarted (executed : Bool) (refreshInterval : ℚ) :
      Step s (.restart executed refreshInterval)
        ⟨s.afterFailure executed, freshProcess s.vendors refreshInterval, .fetching⟩

section Inversion

variable {s t : State} {e : Event}

theorem step_of_reply (h : reply s = some t) : Step s .reply t := by
  unfold reply at h
  split at h
  case h_1 rest hPc =>
    cases h
    exact .closed rest hPc
  case h_2 id rest hPc =>
    cases h
    exact .refetched id rest hPc
  case h_3 job rest hPc =>
    obtain ⟨jobs, hCommit, rfl⟩ := Option.map_eq_some_iff.mp h
    exact .marked job rest jobs hPc hCommit
  case h_4 job rest hPc =>
    obtain ⟨row, hRow, rfl⟩ := Option.map_eq_some_iff.mp h
    exact .refreshed job row rest hPc hRow
  case h_5 job reason rest hPc =>
    obtain ⟨jobs, hCommit, rfl⟩ := Option.map_eq_some_iff.mp h
    exact .rejected job reason rest jobs hPc hCommit
  case h_6 job rest hPc =>
    obtain ⟨jobs, hCommit, rfl⟩ := Option.map_eq_some_iff.mp h
    exact .stored job rest jobs hPc hCommit
  case h_7 => cases h

theorem step_cases (h : machine.step s e = some t) : Step s e t := by
  cases e with
  | create id vendorId endpointId requestedBy requestPayload =>
      simp only [machine, step] at h
      split at h
      case h_1 job hFresh hCreated =>
        cases h
        exact .created _ _ _ _ _ job hFresh hCreated
      case h_2 => cases h
  | vendors e =>
      obtain ⟨vendors, hVendors, rfl⟩ := Option.map_eq_some_iff.mp h
      exact .others e vendors hVendors
  | wake =>
      simp only [machine, step] at h
      split at h
      case h_1 hPc =>
        cases h
        exact .woke hPc
      case h_2 => cases h
  | pendingRows ids =>
      simp only [machine, step] at h
      split_ifs at h with hRows
      split at h
      case h_1 hPc =>
        cases h
        refine .fetched ids hPc hRows.1 fun id hMem => ?_
        obtain ⟨row, hRow, hPending⟩ := (Option.any_eq_true _ _).mp (hRows.2.2 id hMem)
        exact ⟨row, hRow, of_decide_eq_true hPending⟩
      case h_2 => cases h
  | reply => exact step_of_reply h
  | endpointRow row =>
      simp only [machine, step] at h
      split at h
      case h_1 job rest hPc =>
        split_ifs at h with hRow
        cases h
        refine .selected job rest row hPc fun endpoint hMem => ?_
        rw [Option.mem_def.mp hMem] at hRow
        exact of_decide_eq_true hRow
      case h_2 => cases h
  | called result =>
      simp only [machine, step] at h
      split at h
      case h_1 job call rest hPc =>
        cases h
        exact .answered job call rest result hPc
      case h_2 => cases h
  | notified =>
      simp only [machine, step] at h
      split at h
      case h_1 job rest hPc =>
        cases h
        exact .notified job rest hPc
      case h_2 => cases h
  | raised executed =>
      simp only [machine, step] at h
      split_ifs at h with hPc
      cases h
      exact .raised executed hPc
  | cancel executed =>
      cases h
      exact .cancelled executed
  | restart executed refreshInterval =>
      cases h
      exact .restarted executed refreshInterval

/-- A step with a history is a step, and what is recorded of it. -/
theorem recorded_cases {History : Type*} {start h : History}
    {record : State → Event → History → History} {q : State × History}
    (next : (machine.withHistory start record).step (s, h) e = some q) :
    ∃ t, q = (t, record s e h) ∧ Step s e t := by
  obtain ⟨hStep, hRecord⟩ := System.withHistory_step next
  exact ⟨q.1, Prod.ext rfl hRecord, step_cases hStep⟩

/-- A failed await leaves the jobs alone or writes the pending changes. -/
theorem afterFailure_cases (s : State) (executed : Bool) :
    s.afterFailure executed = s.jobs ∨ ∃ draft, s.worker.draft = some draft ∧
      commit s.jobs draft = some (s.afterFailure executed) := by
  unfold State.afterFailure
  cases executed with
  | false => exact Or.inl rfl
  | true =>
      cases hCommit : s.worker.draft.bind (commit s.jobs) with
      | none => exact Or.inl (by simp)
      | some jobs =>
          obtain ⟨draft, hDraft, hSome⟩ := Option.bind_eq_some_iff.mp hCommit
          exact Or.inr ⟨draft, hDraft, by simpa using hSome⟩

/-- The jobs change only by a new row or by a commit of the worker. -/
theorem jobs_cases (h : Step s e t) :
    t.jobs = s.jobs ∨
      (∃ id vendorId endpointId requestedBy requestPayload job,
        e = .create id vendorId endpointId requestedBy requestPayload ∧ s.jobs id = none ∧
        createJob vendorId endpointId requestedBy requestPayload = some job ∧
        t.jobs = Function.update s.jobs id (some ⟨job, id, none, none⟩)) ∨
      ∃ draft, s.worker.draft = some draft ∧ commit s.jobs draft = some t.jobs := by
  cases h with
  | created id vendorId endpointId requestedBy requestPayload job hFresh hCreated =>
      exact Or.inr (Or.inl ⟨id, _, _, _, _, job, rfl, hFresh, hCreated, rfl⟩)
  | marked job rest jobs hPc hCommit => exact Or.inr (Or.inr ⟨job, congrArg Pc.draft hPc, hCommit⟩)
  | rejected job reason rest jobs hPc hCommit =>
      exact Or.inr (Or.inr ⟨job.reject reason, congrArg Pc.draft hPc, hCommit⟩)
  | stored job rest jobs hPc hCommit => exact Or.inr (Or.inr ⟨job, congrArg Pc.draft hPc, hCommit⟩)
  | raised executed => exact (afterFailure_cases s executed).imp id Or.inr
  | cancelled executed => exact (afterFailure_cases s executed).imp id Or.inr
  | restarted executed => exact (afterFailure_cases s executed).imp id Or.inr
  | _ => exact Or.inl rfl

end Inversion

section Registry

variable {r : VendorRegistry} {s t : State} {e : Event}

/-- A registered vendor has its adapter kept, or one that can be built. -/
def adapterReady (r : VendorRegistry) (config : Vendor) : Bool :=
  (r.adapters.get? config.slug).isSome || (buildAdapter config.authType config.authConfig).isSome

theorem not_kept_of_raised {slug : String} (h : (r.getAdapter slug).2 = .raised) :
    r.adapters.get? slug = none := by
  unfold VendorRegistry.getAdapter at h
  split at h
  · cases h
  · split at h
    · cases h
    · assumption

theorem getAdapterById_cases (hAgree : r.Agree) {vendorId : String} {config : Vendor}
    (hGet : r.getById vendorId = some config) :
    (adapterReady r config = false ∧ r.getAdapterById vendorId = (r, .raised)) ∨
      adapterReady r config = true ∧ ∃ r' a, r'.vendors = r.vendors ∧
        r.getAdapterById vendorId = (r', .found a) := by
  have hSlug := (hAgree.getById hGet).2
  unfold VendorRegistry.getAdapterById
  rw [hGet]
  rcases VendorRegistry.getAdapter_cases (r := r) config.slug with ⟨-, hNone⟩ |
    ⟨config', hConfig, hCases⟩
  · rw [hNone] at hSlug
    cases hSlug
  · rw [hSlug] at hConfig
    obtain rfl := Option.some.inj hConfig
    rcases hCases with ⟨hRaised, hBuild⟩ | ⟨a, hKept, hFound⟩ | ⟨a, hType, hAuth, hFound⟩
    · refine Or.inl ⟨?_, hRaised⟩
      have hNotKept := not_kept_of_raised (congrArg Prod.snd hRaised)
      simp [adapterReady, hNotKept, hBuild]
    · exact Or.inr ⟨by simp [adapterReady, hKept], r, a, rfl, hFound⟩
    · have hBuilt : (buildAdapter config.authType config.authConfig).isSome = true := by
        rw [← hType, ← hAuth, a.built]
        rfl
      exact Or.inr ⟨by simp [adapterReady, hBuilt],
        { r with adapters := r.adapters.insert config.slug a }, a, rfl, hFound⟩

/-- Where the endpoint query leads. A registered vendor always gets an answer
about its adapter, so that its absence is never the reason of a rejection. -/
theorem afterSelectEndpoint_cases (hAgree : r.Agree) (job : JobRow) (rest : List Uuid)
    (row : Option VendorEndpoint) :
    (row = none ∧ afterSelectEndpoint r job rest row = (r, .rejecting job .noEndpoint rest)) ∨
      ∃ endpoint, row = some endpoint ∧
        ((r.getById job.vendorId.text = none ∧
            afterSelectEndpoint r job rest row = (r, .rejecting job .noVendor rest)) ∨
          ∃ config, r.getById job.vendorId.text = some config ∧
            ((adapterReady r config = false ∧
                afterSelectEndpoint r job rest row = (r, .sleeping)) ∨
              adapterReady r config = true ∧ ∃ r', r'.vendors = r.vendors ∧
                afterSelectEndpoint r job rest row =
                  (r', .calling job (jobCall endpoint job.toJob) rest))) := by
  cases row with
  | none => exact Or.inl ⟨rfl, rfl⟩
  | some endpoint =>
      refine Or.inr ⟨endpoint, rfl, ?_⟩
      cases hGet : r.getById job.vendorId.text with
      | none => exact Or.inl ⟨rfl, by simp only [afterSelectEndpoint, hGet]⟩
      | some config =>
          refine Or.inr ⟨config, rfl, ?_⟩
          rcases getAdapterById_cases hAgree hGet with ⟨hNot, hRaised⟩ |
            ⟨hReady, r', a, hVendors, hFound⟩
          · exact Or.inl ⟨hNot, by simp only [afterSelectEndpoint, hGet, hRaised]⟩
          · exact Or.inr ⟨hReady, r', hVendors, by simp only [afterSelectEndpoint, hGet, hFound]⟩

theorem agree_afterSelectEndpoint (hAgree : r.Agree) (job : JobRow) (rest : List Uuid)
    (row : Option VendorEndpoint) :
    (afterSelectEndpoint r job rest row).1.Agree ∧
      (afterSelectEndpoint r job rest row).1.vendors = r.vendors := by
  have hAsked := hAgree.getAdapterById job.vendorId.text
  have hVendors := VendorRegistry.getAdapterById_vendors (r := r) job.vendorId.text
  unfold afterSelectEndpoint
  split
  · exact ⟨hAgree, rfl⟩
  · split
    · exact ⟨hAgree, rfl⟩
    · split
      all_goals
        rename_i hLookup
        rw [hLookup] at hAsked hVendors
        exact ⟨hAsked, hVendors⟩

/-- The registry is coherent in every process. -/
theorem vendors_step (h : Coherence.Invariant s.vendors) (hStep : Step s e t) :
    Coherence.Invariant t.vendors := by
  cases hStep with
  | others e vendors hVendors => exact h.step hVendors
  | selected job rest row hPc hRow =>
      obtain ⟨hAgree, hVendors⟩ := agree_afterSelectEndpoint h.agree job rest row
      exact h.adapters hAgree hVendors
  | restarted executed refreshInterval =>
      refine ⟨VendorRegistry.agree_empty refreshInterval, fun _ => rfl, ?_, ?_, ?_⟩
      · intro version hLoaded
        cases hLoaded
      · intro c hPc
        cases hPc
      · intro c version rows hPc
        cases hPc
  | _ => exact h

theorem vendors_run {History : Type*} {start : History} {record : State → Event → History → History}
    {allowed : State × History → Event → Prop} {p : State × History}
    (run : (machine.withHistory start record).Reaches allowed p) :
    Coherence.Invariant p.1.vendors := by
  induction run with
  | init hInit => exact Coherence.invariant_of_init hInit.1.2.1
  | step prior hAllowed next ih =>
      obtain ⟨t, rfl, hStep⟩ := recorded_cases next
      exact vendors_step ih hStep

end Registry

section Sample

/-! One vendor and one endpoint, to run the worker on. -/

def sampleId : Uuid := (Coherence.sampleVendor "KEY").id

def otherId : Uuid := ⟨"11111111-1111-1111-1111-111111111111", rfl, by simp⟩

def sampleEndpoint : VendorEndpoint where
  id := sampleId
  vendorId := sampleId
  path := "p"
  method := "POST"
  cacheTtlOverride := none
  isAsyncJob := true
  timeoutSeconds := 30

def sampleStart : State := ⟨fun _ => none, Coherence.sampleStart, .fetching⟩

theorem init_sampleStart : machine.init sampleStart :=
  ⟨fun _ => rfl, Coherence.init_sampleStart, rfl⟩

/-- A request loads the registry. -/
def load : List Event :=
  [.vendors (.load 0), .vendors (.acquire 0), .vendors (.execute 0 [0]), .vendors (.install 0)]

/-- The fetched job gets as far as the endpoint query. -/
def upToEndpoint : List Event := [.reply, .reply, .reply, .reply]

end Sample

end Gateway.Jobs.Worker

import Gateway.Jobs.Worker
import Gateway.Routes.Flow

/-! The served gateway: the requests to the proxy route and the worker, over one
table of jobs. A request to an asynchronous endpoint adds a row, which the
worker finds later. -/
namespace Gateway.Served

open Transition Gateway.Db Gateway.Jobs Gateway.Routes

structure State where
  routes : Routes.State
  jobs : Worker.State

/-- `store` answers the pending `create_job` of a request. The row is committed,
also when the refresh that follows it raises. -/
inductive Event where
  | route (e : Routes.Event)
  | store (r : ℕ) (id : Uuid) (refreshed : Bool)
  | work (e : Worker.Event)

/-- What `proxy` passes to `create_job`. -/
structure JobRequest where
  vendorId : Uuid
  endpointId : Uuid
  requestedBy : String
  requestPayload : Jsonb.Object

def jobRequest (turn : Turn) : Option JobRequest :=
  match turn.pc, turn.ctx.endpoint with
  | .createJob, some endpoint => some
      { vendorId := turn.ctx.config.id
        endpointId := endpoint.id
        requestedBy := turn.ctx.request.userSub
        requestPayload := turn.ctx.request.requestPayload }
  | _, _ => none

def JobRequest.create (job : JobRequest) (id : Uuid) : Worker.Event :=
  .create id job.vendorId job.endpointId job.requestedBy (some job.requestPayload)

/-- What the request receives from `create_job` when the row is committed. -/
def stored (id : Uuid) (refreshed : Bool) : Input :=
  if refreshed then .jobStored id else .raised true

/-- The two halves of an insertion, which happen only together. -/
def receivesJob : Routes.Event → Bool
  | .deliver _ (.jobStored _) => true
  | _ => false

def createsJob : Worker.Event → Bool
  | .create .. => true
  | _ => false

def machine (D : Deployment) : System State Event where
  init s := D.machine.init s.routes ∧ Worker.machine.init s.jobs
  step s
    | .route e =>
        if receivesJob e then none
        else (D.machine.step s.routes e).map fun routes => { s with routes := routes }
    | .store r id refreshed => do
        let turn ← s.routes.turn r
        let job ← jobRequest turn
        let jobs ← Worker.step s.jobs (job.create id)
        let routes ← D.machine.step s.routes (.deliver r (stored id refreshed))
        some ⟨routes, jobs⟩
    | .work e =>
        if createsJob e then none
        else (Worker.step s.jobs e).map fun jobs => { s with jobs := jobs }

/-- The steps of the gateway, by the part that takes them. -/
inductive Step (D : Deployment) (s : State) : Event → State → Prop where
  | route (e : Routes.Event) (routes : Routes.State)
      (hRoute : D.machine.step s.routes e = some routes) : Step D s (.route e) ⟨routes, s.jobs⟩
  | store (r : ℕ) (id : Uuid) (refreshed : Bool) (turn : Turn) (job : JobRequest)
      (jobs : Worker.State) (routes : Routes.State) (hTurn : s.routes.turn r = some turn)
      (hJob : jobRequest turn = some job) (hCreate : Worker.step s.jobs (job.create id) = some jobs)
      (hRoute : D.machine.step s.routes (.deliver r (stored id refreshed)) = some routes) :
      Step D s (.store r id refreshed) ⟨routes, jobs⟩
  | work (e : Worker.Event) (jobs : Worker.State) (hWork : Worker.step s.jobs e = some jobs) :
      Step D s (.work e) ⟨s.routes, jobs⟩

section Inversion

variable {D : Deployment} {s t : State} {e : Event}

theorem pc_of_jobRequest {turn : Turn} {job : JobRequest} (h : jobRequest turn = some job) :
    turn.pc = .createJob := by
  unfold jobRequest at h
  split at h
  case h_1 hPc _ => exact hPc
  case h_2 => cases h

theorem step_cases (next : (machine D).step s e = some t) : Step D s e t := by
  cases e with
  | route e =>
      simp only [machine] at next
      split_ifs at next
      obtain ⟨routes, hRoute, rfl⟩ := Option.map_eq_some_iff.mp next
      exact .route e routes hRoute
  | store r id refreshed =>
      obtain ⟨turn, hTurn, next⟩ := Option.bind_eq_some_iff.mp next
      obtain ⟨job, hJob, next⟩ := Option.bind_eq_some_iff.mp next
      obtain ⟨jobs, hCreate, next⟩ := Option.bind_eq_some_iff.mp next
      obtain ⟨routes, hRoute, next⟩ := Option.bind_eq_some_iff.mp next
      obtain rfl := Option.some.inj next
      exact .store r id refreshed turn job jobs routes hTurn hJob hCreate hRoute
  | work e =>
      simp only [machine] at next
      split_ifs at next
      obtain ⟨jobs, hWork, rfl⟩ := Option.map_eq_some_iff.mp next
      exact .work e jobs hWork

/-- The requests of a run of the gateway make a run of the proxy route. -/
theorem routes_of_run {History : Type*} {start : History} {record : State → Event → History → History}
    {allowed : State × History → Event → Prop} {p : State × History}
    (run : ((machine D).withHistory start record).Reaches allowed p) :
    D.machine.Reaches System.anyRun p.1.routes := by
  induction run with
  | init hInit => exact .init hInit.1.1
  | @step p q e prior hAllowed next ih =>
      obtain ⟨t, history⟩ := q
      have hStep := (System.withHistory_step next).1
      simp only at hStep
      cases step_cases hStep with
      | route e routes hRoute => exact .step ih trivial hRoute
      | store r id refreshed turn job jobs routes _ _ _ hRoute => exact .step ih trivial hRoute
      | work e jobs hWork => exact ih

/-- The worker's steps of a run of the gateway, and the new jobs, make a run of the worker. -/
theorem jobs_of_run {History : Type*} {start : History} {record : State → Event → History → History}
    {allowed : State × History → Event → Prop} {p : State × History}
    (run : ((machine D).withHistory start record).Reaches allowed p) :
    Worker.machine.Reaches System.anyRun p.1.jobs := by
  induction run with
  | init hInit => exact .init hInit.1.2
  | @step p q e prior hAllowed next ih =>
      obtain ⟨t, history⟩ := q
      have hStep := (System.withHistory_step next).1
      simp only at hStep
      cases step_cases hStep with
      | route e routes _ => exact ih
      | store r id refreshed turn job jobs routes _ _ hCreate _ =>
          have hNext : Worker.machine.step p.1.jobs (job.create id) = some jobs := hCreate
          exact .step ih trivial hNext
      | work e jobs hWork =>
          have hNext : Worker.machine.step p.1.jobs e = some jobs := hWork
          exact .step ih trivial hNext

end Inversion

end Gateway.Served

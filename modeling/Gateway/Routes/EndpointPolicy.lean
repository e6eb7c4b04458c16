import Gateway.Middleware.Wiring
import Gateway.Runs.Freshness

/-! Which endpoint record governs a request. The endpoint query compares the
path as it is spelled, while the vendor URL is built from the path without its
leading slashes, so that several spellings reach one vendor endpoint. -/
namespace Gateway.Routes

open Transition Gateway.Db Gateway.Vendors

section Resolution

variable {D : Deployment} {s : State} {e : VendorEndpoint} {config : VendorConfig}
  {request : Inbound}

/-- In every run a request past the endpoint query works with the TTL of its
endpoint, unless it is about to create a job. -/
theorem resolved_of_reaches (run : D.machine.Reaches System.anyRun s) {r : ℕ} {ctx : Ctx} {pc : Pc}
    (hProc : s.procs r = .running ctx pc) : Resolved D ctx pc := by
  have hAll : ∀ r ctx pc, s.procs r = .running ctx pc → Resolved D ctx pc := by
    apply run.invariant (I := fun s => ∀ r ctx pc, s.procs r = .running ctx pc → Resolved D ctx pc)
    · intro s start r ctx pc hProc
      rw [start.2.2 r] at hProc
      cases hProc
    · intro s t e _ hInv _ next r ctx pc hProc
      rcases step_cases next with ⟨dt, -, -, rfl⟩ | ⟨r', input, redis, p, -, hMove, rfl⟩
      · exact hInv r ctx pc hProc
      · rcases procs_cases hProc with ⟨rfl, rfl⟩ | ⟨-, hOld⟩
        · have hKnown : ∀ ctx pc, s.procs r = .running ctx pc →
              ctx.request ∈ Set.univ ∧ Resolved D ctx pc :=
            fun ctx pc hBefore => ⟨trivial, hInv r ctx pc hBefore⟩
          exact (known_move_resolved hKnown (fun _ _ => trivial) hMove).2
        · exact hInv r ctx pc hOld
  exact hAll r ctx pc hProc

/-- Only the answer of the endpoint query leads to the creation of a job. -/
theorem asynchronous_of_move {now : ℚ} {r : ℕ} {redis redis' : RedisServer} {ctx ctx' : Ctx}
    {pc : Pc} {input : Input} (hResolved : Resolved D ctx pc)
    (hMove : Move D now r redis (.running ctx pc) input redis' (.running ctx' .createJob)) :
    D.registry ctx'.request.vendorSlug = some ctx'.config ∧
      ∃ row, D.selectEndpoint ctx'.config ctx'.request = some row ∧
        row.any VendorEndpoint.isAsyncJob = true := by
  obtain rfl : pc = .selectEndpoint := by
    cases flow_of_move hMove
    rfl
  generalize hAfter : Proc.running ctx' .createJob = p' at hMove
  cases hMove with
  | endpointRow =>
    unfold afterSelectEndpoint at hAfter
    split at hAfter
    case h_1 => cases hAfter
    case h_2 row hRow =>
      split_ifs at hAfter with hAsync
      · cases hAfter
        exact ⟨hResolved.1, row, hRow, hAsync⟩
      · cases hAfter
  | reply _ _ hReply => cases hReply
  | raised _ _ _ hRaise =>
    subst hAfter
    cases hRaise

/-- A request that is about to create a job has an asynchronous endpoint. -/
theorem asynchronous_of_reaches (run : D.machine.Reaches System.anyRun s) {r : ℕ} {ctx : Ctx}
    (hProc : s.procs r = .running ctx .createJob) :
    D.registry ctx.request.vendorSlug = some ctx.config ∧
      ∃ row, D.selectEndpoint ctx.config ctx.request = some row ∧
        row.any VendorEndpoint.isAsyncJob = true := by
  induction run with
  | init start =>
      rw [start.2.2 r] at hProc
      cases hProc
  | @step s t e prior _ next ih =>
      rcases step_cases next with ⟨dt, -, -, rfl⟩ | ⟨r', input, redis, p, -, hMove, rfl⟩
      · exact ih hProc
      · rcases procs_cases hProc with ⟨rfl, rfl⟩ | ⟨-, hOld⟩
        · rcases start_cases hMove with ⟨-, -, -, -, hPc⟩ | ⟨ctx₀, pc₀, hBefore, -⟩
          · cases hPc
          · rw [hBefore] at hMove
            exact asynchronous_of_move (resolved_of_reaches prior hBefore) hMove
        · exact ih hOld

/-- The endpoint query answers the record exactly to its own spelling, and only
if no second record has the same vendor, path and method. -/
theorem selectEndpoint_eq_iff (hMem : e ∈ D.endpoints) (hVendor : e.vendorId = config.id)
    (hMethod : e.method = request.method.name) :
    D.selectEndpoint config request = some (some e) ↔
      request.endpointPath = e.path ∧ (D.endpoints.filter fun e' =>
        e'.vendorId = e.vendorId ∧ e'.path = e.path ∧ e'.method = e.method).length = 1 := by
  have hRows (hPath : request.endpointPath = e.path) :
      (D.endpoints.filter fun e' => e'.vendorId = config.id ∧ e'.path = request.endpointPath ∧
        e'.method = request.method.name) = D.endpoints.filter fun e' =>
          e'.vendorId = e.vendorId ∧ e'.path = e.path ∧ e'.method = e.method := by
    rw [hPath, hVendor, hMethod]
  unfold Deployment.selectEndpoint
  constructor
  · intro h
    split at h
    case h_1 => cases h
    case h_2 e' hOnly =>
      obtain rfl : e' = e := Option.some.inj (Option.some.inj h)
      have hIn : e' ∈ D.endpoints.filter fun e => e.vendorId = config.id ∧
          e.path = request.endpointPath ∧ e.method = request.method.name := by
        rw [hOnly]
        exact List.mem_singleton_self e'
      have hPath : request.endpointPath = e'.path := by
        have := (List.mem_filter.mp hIn).2
        rw [decide_eq_true_iff] at this
        exact this.2.1.symm
      refine ⟨hPath, ?_⟩
      rw [← hRows hPath, hOnly]
      rfl
    case h_3 => cases h
  · rintro ⟨hPath, hOne⟩
    rw [hRows hPath]
    obtain ⟨e', hOnly⟩ := List.length_eq_one_iff.mp hOne
    have hIn : e ∈ D.endpoints.filter fun e' =>
        e'.vendorId = e.vendorId ∧ e'.path = e.path ∧ e'.method = e.method :=
      List.mem_filter.mpr ⟨hMem, by simp⟩
    rw [hOnly] at hIn ⊢
    rw [List.mem_singleton.mp hIn]

end Resolution

/-- The proxy resolves the request to the record. In every run an asynchronous
endpoint has the request create a job, answered 202, and it never gets as far
as the vendor; it is answered 500 where the adapter or the database fails. For
any other endpoint the TTL is the one that the record's override gives. -/
structure Governed (D : Deployment) (config : VendorConfig) (request : Inbound)
    (e : VendorEndpoint) : Prop where
  resolved : D.selectEndpoint config request = some (some e)
  created : e.isAsyncJob = true → ∀ s, D.machine.Reaches System.anyRun s → ∀ r ctx,
    s.procs r = .running ctx .selectEndpoint → ctx.request = request → ∀ jobId,
      ∃ t, D.machine.exec System.anyRun s
          [.deliver r .endpointRow, .deliver r (.jobStored jobId)] = some t ∧
        t.procs r = .finished request (.jobAccepted jobId)
  pending : ∀ s, D.machine.Reaches System.anyRun s → ∀ r ctx pc, s.procs r = .running ctx pc →
    ctx.request = request → pc = .selectEndpoint ∨
      if e.isAsyncJob then pc = .createJob
      else ctx.ttl = Cache.resolveTtl config.cacheTtlSeconds e.cacheTtlOverride
  answered : e.isAsyncJob = true → ∀ s, D.machine.Reaches System.anyRun s → ∀ r outcome,
    s.procs r = .finished request outcome →
      Middleware.outcomeStatus outcome = 202 ∨ outcome = .unhandled

section Governance

variable {D : Deployment} {s : State} {e : VendorEndpoint} {config : VendorConfig}
  {request : Inbound}

theorem created_of_selectEndpoint (hRegistry : D.registry request.vendorSlug = some config)
    (hRow : D.selectEndpoint config request = some (some e)) (hAsync : e.isAsyncJob = true)
    (run : D.machine.Reaches System.anyRun s) {r : ℕ} {ctx : Ctx}
    (hProc : s.procs r = .running ctx .selectEndpoint) (hRequest : ctx.request = request)
    (jobId : Uuid) :
    ∃ t, D.machine.exec System.anyRun s
        [.deliver r .endpointRow, .deliver r (.jobStored jobId)] = some t ∧
      t.procs r = .finished request (.jobAccepted jobId) := by
  subst hRequest
  have hResolved : Resolved D ctx .selectEndpoint := resolved_of_reaches run hProc
  obtain rfl : ctx.config = config := Option.some.inj (hResolved.1.symm.trans hRegistry)
  have hAfter : afterSelectEndpoint ctx (D.selectEndpoint ctx.config ctx.request) =
      .running { ctx with endpoint := some e } .createJob := by
    rw [hRow]
    simp [afterSelectEndpoint, hAsync]
  simp [System.exec, System.anyRun, Deployment.machine, Deployment.react, hProc, hAfter]

/-- Where a request with this endpoint can wait. -/
theorem pending_of_selectEndpoint (hRegistry : D.registry request.vendorSlug = some config)
    (hRow : D.selectEndpoint config request = some (some e))
    (run : D.machine.Reaches System.anyRun s) {r : ℕ} {ctx : Ctx} {pc : Pc}
    (hProc : s.procs r = .running ctx pc) (hRequest : ctx.request = request) :
    pc = .selectEndpoint ∨
      if e.isAsyncJob then pc = .createJob
      else ctx.ttl = Cache.resolveTtl config.cacheTtlSeconds e.cacheTtlOverride := by
  subst hRequest
  have hResolved := resolved_of_reaches run hProc
  by_cases hSelect : pc = .selectEndpoint
  · exact Or.inl hSelect
  apply Or.inr
  by_cases hCreate : pc = .createJob
  · subst hCreate
    obtain ⟨hSame, row, hRow', hAsync⟩ := asynchronous_of_reaches run hProc
    obtain rfl : ctx.config = config := Option.some.inj (hSame.symm.trans hRegistry)
    obtain rfl : row = some e := Option.some.inj (hRow'.symm.trans hRow)
    rw [if_pos (show e.isAsyncJob = true from hAsync)]
  · have hTtl : D.effectiveTtl ctx.request = some ctx.ttl := by
      cases pc with
      | selectEndpoint => exact absurd rfl hSelect
      | createJob => exact absurd rfl hCreate
      | _ => exact hResolved
    obtain ⟨config', row, hSame, -, hRow', hSync, hEq⟩ := effectiveTtl_eq_some.mp hTtl
    obtain rfl : config' = config := Option.some.inj (hSame.symm.trans hRegistry)
    obtain rfl : row = some e := Option.some.inj (hRow'.symm.trans hRow)
    have hNotAsync : e.isAsyncJob = false := hSync
    rw [if_neg (by simp [hNotAsync]), ← hEq]
    rfl

theorem answered_of_selectEndpoint (hRegistry : D.registry request.vendorSlug = some config)
    (hRow : D.selectEndpoint config request = some (some e)) (hAsync : e.isAsyncJob = true)
    (run : D.machine.Reaches System.anyRun s) {r : ℕ} {outcome : Outcome}
    (hProc : s.procs r = .finished request outcome) :
    Middleware.outcomeStatus outcome = 202 ∨ outcome = .unhandled := by
  induction run with
  | init start =>
      rw [start.2.2 r] at hProc
      cases hProc
  | @step s t e' prior _ next ih =>
      rcases step_cases next with ⟨dt, -, -, rfl⟩ | ⟨r', input, redis, p, -, hMove, rfl⟩
      · exact ih hProc
      rcases procs_cases hProc with ⟨rfl, rfl⟩ | ⟨-, hOld⟩
      case inr => exact ih hOld
      case inl =>
        generalize hBefore : s.procs r = before at hMove
        cases before with
        | idle =>
            generalize hAfter : Proc.finished request outcome = p' at hMove
            cases hMove with
            | arrive request' =>
              simp only [Deployment.start] at hAfter
              split at hAfter
              case h_1 hNone =>
                cases hAfter
                rw [hRegistry] at hNone
                cases hNone
              case h_2 =>
                split_ifs at hAfter
                cases hAfter
                exact Or.inr rfl
        | running ctx pc =>
            obtain ⟨rfl, hFinish⟩ := finish_of_move hMove
            rcases pending_of_selectEndpoint hRegistry hRow prior hBefore rfl with rfl | hPc
            · cases hFinish <;> exact Or.inr rfl
            · rw [if_pos hAsync] at hPc
              subst hPc
              cases hFinish with
              | accepted => exact Or.inl rfl
              | raised => exact Or.inr rfl
        | finished request' outcome' => cases hMove

/-- Two spellings have one vendor URL when they differ in leading slashes only. -/
theorem vendorUrl_eq_iff {path path' : String} :
    vendorUrl config path = vendorUrl config path' ↔
      Text.lstrip '/' path = Text.lstrip '/' path' := by
  unfold vendorUrl
  constructor
  · intro h
    have hChars : (Text.lstrip '/' path).toList = (Text.lstrip '/' path').toList := by
      simpa using congrArg String.toList h
    exact String.toList_inj.mp hChars
  · intro h
    rw [h]

/-- For a request with the vendor and the method of a record, the record governs
it if and only if the path is spelled as the record's and no second record has
this vendor, path and method. The URL is the same under more spellings. -/
theorem endpoint_governs_iff (hRegistry : D.registry request.vendorSlug = some config)
    (hMem : e ∈ D.endpoints) (hVendor : e.vendorId = config.id)
    (hMethod : e.method = request.method.name) :
    (Governed D config request e ↔
      request.endpointPath = e.path ∧ (D.endpoints.filter fun e' =>
        e'.vendorId = e.vendorId ∧ e'.path = e.path ∧ e'.method = e.method).length = 1) ∧
      (vendorUrl config request.endpointPath = vendorUrl config e.path ↔
        Text.lstrip '/' request.endpointPath = Text.lstrip '/' e.path) := by
  refine ⟨⟨fun h => ?_, fun h => ?_⟩, vendorUrl_eq_iff⟩
  · exact (selectEndpoint_eq_iff hMem hVendor hMethod).mp h.resolved
  · have hRow := (selectEndpoint_eq_iff hMem hVendor hMethod).mpr h
    exact {
      resolved := hRow
      created := fun hAsync _ run _ _ hProc hRequest jobId =>
        created_of_selectEndpoint hRegistry hRow hAsync run hProc hRequest jobId
      pending := fun _ run _ _ _ hProc hRequest =>
        pending_of_selectEndpoint hRegistry hRow run hProc hRequest
      answered := fun hAsync _ run _ _ hProc =>
        answered_of_selectEndpoint hRegistry hRow hAsync run hProc }

end Governance

section Traces

/-- GET `x` is an asynchronous endpoint of the vendor. -/
def asyncEndpoint : VendorEndpoint := ⟨zeroUuid, zeroUuid, "x", "GET", none, true, 30⟩

def asyncDeployment : Deployment := { sampleDeployment 60 with endpoints := [asyncEndpoint] }

theorem endpoint_governs_x :
    Governed asyncDeployment (sampleVendor 60) (sampleRequest .get "x") asyncEndpoint :=
  (endpoint_governs_iff (D := asyncDeployment) rfl (List.mem_singleton_self _) rfl rfl).1.mpr
    ⟨rfl, by decide⟩

def Proc.callsVendor (path : String) : Proc → Bool
  | .running ctx .callVendor => ctx.request.endpointPath == path
  | _ => false

/-- With one more slash the same URL is called while the request waits. -/
theorem endpoint_bypassed :
    vendorUrl (sampleVendor 60) "/x" = vendorUrl (sampleVendor 60) asyncEndpoint.path ∧
      ¬Governed asyncDeployment (sampleVendor 60) (sampleRequest .get "/x") asyncEndpoint ∧
      ∃ s, asyncDeployment.machine.Reaches System.anyRun s ∧
        (s.procs 0).callsVendor "/x" = true := by
  have hSpelled : (sampleRequest .get "/x").endpointPath ≠ asyncEndpoint.path := by decide
  have hResolves : asyncDeployment.selectEndpoint (sampleVendor 60) (sampleRequest .get "/x") ≠
      some (some asyncEndpoint) := by
    intro hRow
    exact hSpelled ((selectEndpoint_eq_iff (List.mem_singleton_self _) rfl rfl).mp hRow).1
  refine ⟨vendorUrl_eq_iff.mpr (by decide), fun h => hResolves h.resolved, ?_⟩
  have start : asyncDeployment.machine.Reaches System.anyRun sampleStart := .init init_sampleStart
  have hEvents : ((asyncDeployment.machine.exec System.anyRun sampleStart
      (upToLock 0 (sampleRequest .get "/x") ++ [.deliver 0 .reply])).any
        fun s => (s.procs 0).callsVendor "/x") = true := by
    decide +kernel
  exact start.exec_any hEvents

end Traces

end Gateway.Routes

import Gateway.Routes.Flow

/-! Runs that are put together step by step, with any history: one request moves
while the others stay where they are. -/
namespace Gateway.Routes

open Transition Gateway.Db Gateway.Vendors

section Guided

variable {History : Type*} {D : Deployment} {start : History}
  {record : State → Event → History → History} {allowed : State × History → Event → Prop}
  {R : Set Inbound} {now : ℚ} {redis redis' : RedisServer} {procs : ℕ → Proc} {h : History} {r : ℕ}
  {p : Proc}

/-- A run gets one of the requests to this point. -/
abbrev Guided (D : Deployment) (start : History) (record : State → Event → History → History)
    (allowed : State × History → Event → Prop) (now : ℚ) (redis : RedisServer)
    (procs : ℕ → Proc) (h : History) (r : ℕ) (p : Proc) : Prop :=
  (D.machine.withHistory start record).Reaches allowed
    (⟨now, redis, Function.update procs r p⟩, h)

theorem guided_step_of_react {p' : Proc} {input : Input}
    (hReact : D.react now r redis p input = some (redis', p')) :
    (D.machine.withHistory start record).step (⟨now, redis, Function.update procs r p⟩, h)
      (.deliver r input) = some (⟨now, redis', Function.update procs r p'⟩,
        record ⟨now, redis, Function.update procs r p⟩ (.deliver r input) h) := by
  simp [System.withHistory, Deployment.machine, Function.update_self, hReact]

theorem Guided.react (run : Guided D start record allowed now redis procs h r p) (input : Input)
    (p' : Proc)
    (hAllowed : allowed (⟨now, redis, Function.update procs r p⟩, h) (.deliver r input))
    (hReact : D.react now r redis p input = some (redis', p')) :
    Guided D start record allowed now redis' procs
      (record ⟨now, redis, Function.update procs r p⟩ (.deliver r input) h) r p' :=
  .step run hAllowed (guided_step_of_react hReact)

/-- A step that the history does not see. -/
theorem Guided.pass (run : Guided D start record allowed now redis procs h r p) (input : Input)
    (p' : Proc)
    (hAllowed : allowed (⟨now, redis, Function.update procs r p⟩, h) (.deliver r input))
    (hReact : D.react now r redis p input = some (redis', p'))
    (hSilent : record ⟨now, redis, Function.update procs r p⟩ (.deliver r input) h = h) :
    Guided D start record allowed now redis' procs h r p' := by
  have hNext := run.react input p' hAllowed hReact
  rwa [hSilent] at hNext

/-- The same point of the run, seen from a request that has not moved since. -/
theorem Guided.other (run : Guided D start record allowed now redis procs h r p) {w : ℕ}
    (hw : w ≠ r) :
    Guided D start record allowed now redis (Function.update procs r p) h w (procs w) := by
  have hSame : Function.update (Function.update procs r p) w (procs w) =
      Function.update procs r p := by
    rw [← Function.update_of_ne hw p procs, Function.update_eq_self]
  rw [Guided, hSame]
  exact run

/-- The inputs that bring a request from this set up to the lookup of the cache. -/
def Preliminary (R : Set Inbound) : Input → Prop
  | .arrive request => request ∈ R
  | .endpointRow | .apiKeyRow _ | .raised false => True
  | _ => False

/-- Requests from this set may arrive and get as far as the cache, unseen by the
history. -/
structure Inviting (record : State → Event → History → History)
    (allowed : State × History → Event → Prop) (R : Set Inbound) : Prop where
  allows : ∀ p r input, Preliminary R input → allowed p (.deliver r input)
  silent : ∀ s r input h, Preliminary R input → record s (.deliver r input) h = h

theorem exists_activeApiKey (D : Deployment) (config : VendorConfig) :
    ∃ row, D.activeApiKey config row = true := by
  cases hActive : D.apiKeys.filter fun k => k.vendorId = config.id ∧ k.isActive with
  | nil =>
      refine ⟨none, ?_⟩
      simp only [Deployment.activeApiKey, hActive, List.isEmpty_nil]
  | cons k rest =>
      refine ⟨some k, ?_⟩
      simp only [Deployment.activeApiKey, hActive, List.contains_cons, BEq.rfl, Bool.true_or]

theorem Guided.preliminary (hInviting : Inviting record allowed R)
    (run : Guided D start record allowed now redis procs h r p) (input : Input) (p' : Proc)
    (hInput : Preliminary R input) (hReact : D.react now r redis p input = some (redis', p')) :
    Guided D start record allowed now redis' procs h r p' :=
  run.pass input p' (hInviting.allows _ r input hInput) hReact
    (hInviting.silent _ r input h hInput)

/-- A synchronous request to a known vendor gets as far as its lookup. -/
theorem guided_getCached {request : Inbound} {config : VendorConfig}
    {endpoint : Option VendorEndpoint} (hInviting : Inviting record allowed R)
    (run : Guided D start record allowed now redis procs h r .idle)
    (hRequest : request ∈ R) (hConfig : D.registry request.vendorSlug = some config)
    (hBuilds : D.adapterBuilds config = true)
    (hEndpoint : D.selectEndpoint config request = some endpoint)
    (hSync : endpoint.any VendorEndpoint.isAsyncJob = false) :
    ∃ row, Guided D start record allowed now redis procs h r
      (.running ⟨request, config, endpoint, row⟩ .getCached) := by
  obtain ⟨row, hRow⟩ := exists_activeApiKey D config
  have hArrived : Guided D start record allowed now redis procs h r
      (.running ⟨request, config, none, none⟩ .selectEndpoint) := by
    refine run.preliminary hInviting (.arrive request) _ hRequest ?_
    simp [Deployment.react, Deployment.start, hConfig, hBuilds]
  have hLoading : Guided D start record allowed now redis procs h r
      (.running ⟨request, config, endpoint, none⟩ .loadApiKey) := by
    refine hArrived.preliminary hInviting .endpointRow _ trivial ?_
    simp [Deployment.react, afterSelectEndpoint, hEndpoint, hSync]
  have hLoaded : Guided D start record allowed now redis procs h r
      (afterLoadApiKey ⟨request, config, endpoint, none⟩ now row) := by
    refine hLoading.preliminary hInviting (.apiKeyRow row) _ trivial ?_
    simp [Deployment.react, hRow]
  refine ⟨row, ?_⟩
  cases hCounter : Ctx.counterAt ⟨request, config, endpoint, row⟩ now with
  | none => simpa only [afterLoadApiKey, hCounter] using hLoaded
  | some counter =>
      simp only [afterLoadApiKey, hCounter] at hLoaded
      -- the quota check lets a request pass when Redis fails
      refine hLoaded.preliminary hInviting (.raised false) _ trivial ?_
      simp [Deployment.react, afterRaise, Deployment.afterFailure]

end Guided

end Gateway.Routes

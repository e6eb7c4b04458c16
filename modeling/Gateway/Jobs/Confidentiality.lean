import Gateway.Jobs.Accounting
import Gateway.Jobs.Fidelity
import Gateway.Routes.Credentials

/-! What the gateway sends out in a run, and that it does not depend on the
credential by which a caller has authenticated. -/
namespace Gateway.Served

open Http Text Transition Gateway.Cache Gateway.Db Gateway.Quota Gateway.Jobs Gateway.Routes
  Gateway.Vendors

/-- A command to Redis with its arguments. -/
inductive Command where
  | get (key : String)
  | setNx (key : String) (ex : ℚ)
  | subscribe (channel : String)
  | unsubscribe (channel : String)
  | set (key : String) (value : CachedResponse) (ex : ℚ)
  | publish (channel : String) (message : CachedResponse)
  | incr (key : String)
  | expire (key : String) (seconds : ℤ)
  | del (key : String)

/-- What a part of the gateway sends out while it waits. A request to a vendor
is given for any token that its adapter has then. -/
inductive Output where
  | redis (command : Command)
  | selectEndpoint (vendorId : Uuid) (path method : String)
  | selectApiKey (vendorId : Uuid)
  | insertJob (job : JobRequest)
  | selectPending
  | selectJob (id : Uuid)
  | selectEndpointById (id : Uuid)
  | commitJob (job : Worker.JobRow)
  | vendor (timeout : Option ℤ) (request : Option String → Option Request)
  | webhook (url : Option String) (job : Worker.JobRow)
  | response (outcome : Outcome)

/-- What signs a vendor request: the HTTP library, the secrets, and the adapter
of the vendor, of any kind. -/
structure Signing where
  lib : ClientLibrary
  secrets : String → Option String
  adapter : VendorConfig → Adapter

/-- `VendorClient.request` -/
def Signing.send (signing : Signing) (config : VendorConfig) (call : VendorCall) : Output :=
  .vendor call.timeout fun token =>
    signedRequest signing.lib signing.secrets token config call (signing.adapter config)

section Outputs

variable (D : Deployment) (signing : Signing)

/-- What a request sends out at an await. Sleeping sends nothing, and reading a
connection does not either. -/
def turnOutput (ctx : Ctx) : Routes.Pc → Option Output
  | .selectEndpoint =>
      some (.selectEndpoint ctx.config.id ctx.request.endpointPath ctx.request.method.name)
  | .createJob => (jobRequest ⟨0, ctx, .createJob⟩).map .insertJob
  | .loadApiKey => some (.selectApiKey ctx.config.id)
  | .checkQuota counter => some (.redis (.get counter.key))
  | .getCached => some (.redis (.get (ctx.cacheKey D)))
  | .acquireLock => some (.redis (.setNx (ctx.dedupKey D) lockTtlSeconds))
  | .subscribe => some (.redis (.subscribe (ctx.dedupKey D)))
  | .getResult => some (.redis (.get (resultKey (ctx.dedupKey D))))
  | .sleep _ => none
  | .getMessage _ => none
  | .unsubscribe _ => some (.redis (.unsubscribe (ctx.dedupKey D)))
  | .callVendor => some (signing.send ctx.config ctx.request.vendorCall)
  | .setCached f => some (.redis (.set (ctx.cacheKey D) f.cached ctx.ttl))
  | .setResult f => some (.redis (.set (resultKey (ctx.dedupKey D)) f.cached resultTtlSeconds))
  | .publish f => some (.redis (.publish (ctx.dedupKey D) f.cached))
  | .incrQuota _ counter => some (.redis (.incr counter.key))
  | .expireQuota _ counter ttl => some (.redis (.expire counter.key ttl))
  | .releaseLock _ => some (.redis (.del (ctx.dedupKey D)))

def procOutput : Proc → Option Output
  | .idle => none
  | .running ctx pc => turnOutput D signing ctx pc
  | .finished _ outcome => some (.response outcome)

/-- What the worker sends out. -/
def workerOutput (s : Worker.State) : Option Output :=
  match s.worker with
  | .stopped => none
  | .sleeping => none
  | .fetching => some .selectPending
  | .closing _ => none
  | .refetching id _ => some (.selectJob id)
  | .marking job _ => some (.commitJob job)
  | .refreshing job _ => some (.selectJob job.id)
  | .selectingEndpoint job _ => some (.selectEndpointById job.endpointId)
  | .rejecting job reason _ => some (.commitJob (job.reject reason))
  | .calling job call _ => do
      let config ← s.vendors.registry.getById job.vendorId.text
      let call ← call
      some (signing.send config.toVendorConfig call)
  | .storing job _ => some (.commitJob job)
  | .notifying job _ => some (.webhook ((Worker.callbackUrl job.payload).getD none) job)

/-- What the requests and the worker send out in a state. -/
def outputs (s : State) : (ℕ → Option Output) × Option Output :=
  (fun r => procOutput D signing (s.routes.procs r), workerOutput signing s.jobs)

/-- All that is sent out in the states of a run, up to an event that cannot happen. -/
def trace : State → List Event → List ((ℕ → Option Output) × Option Output)
  | s, [] => [outputs D signing s]
  | s, e :: es => outputs D signing s ::
      match (machine D).step s e with
      | some t => trace t es
      | none => []

end Outputs

/-- Header lines that are the same except for the value of an Authorization header. -/
def AlikeLine (a b : String × String) : Prop :=
  a = b ∨ a.1 = "authorization" ∧ b.1 = "authorization"

/-- Requests of one user that differ in the value of the Authorization header only. -/
structure Alike (x y : Inbound) : Prop where
  method : x.method = y.method
  vendorSlug : x.vendorSlug = y.vendorSlug
  endpointPath : x.endpointPath = y.endpointPath
  query : x.query = y.query
  headers : List.Forall₂ AlikeLine x.headers y.headers
  body : x.body = y.body
  userSub : x.userSub = y.userSub

/-- The same event, or the arrival of two such requests. -/
inductive AlikeEvent : Event → Event → Prop where
  | same (e : Event) : AlikeEvent e e
  | arrive (r : ℕ) {x y : Inbound} (hAlike : Alike x y) :
      AlikeEvent (.route (.deliver r (.arrive x))) (.route (.deliver r (.arrive y)))

section Requests

variable {D : Deployment} {signing : Signing} {x y : Inbound}

theorem Alike.refl (x : Inbound) : Alike x x where
  method := rfl
  vendorSlug := rfl
  endpointPath := rfl
  query := rfl
  headers := List.forall₂_same.mpr fun _ _ => Or.inl rfl
  body := rfl
  userSub := rfl

/-- A filter that drops the Authorization header leaves the same lines. -/
theorem filter_alike (keep : String → Bool) (hDrops : keep "authorization" = false) {xs ys : Lines}
    (h : List.Forall₂ AlikeLine xs ys) :
    (xs.filter fun line => keep line.1) = ys.filter fun line => keep line.1 := by
  induction h with
  | nil => rfl
  | @cons a b xs ys hLine _ ih =>
      rcases hLine with rfl | ⟨ha, hb⟩
      · rw [List.filter_cons, List.filter_cons, ih]
      · rw [List.filter_cons_of_neg (by simp [ha, hDrops]),
          List.filter_cons_of_neg (by simp [hb, hDrops]), ih]

theorem Alike.forwardHeaders (h : Alike x y) : x.forwardHeaders = y.forwardHeaders := by
  have hSame := filter_alike (fun name =>
    decide (lower name ∉ hopByHop ∧ lower name ∉ ["host", "authorization"])) (by decide) h.headers
  rw [Inbound.forwardHeaders, Inbound.forwardHeaders, hSame]

theorem Alike.params (h : Alike x y) : x.params = y.params := by
  rw [Inbound.params, Inbound.params, h.query]

theorem Alike.vendorCall (h : Alike x y) : x.vendorCall = y.vendorCall := by
  simp only [Inbound.vendorCall, h.method, h.endpointPath, h.forwardHeaders, h.body, h.params]

/-- The dictionaries of the stored headers are the same once the header is dropped. -/
theorem Alike.filterKeys (h : Alike x y) (keep : String → Bool)
    (hDrops : keep "authorization" = false) :
    (Dict.ofList (x.headers.map fun line => (lower line.1, line.2))).filterKeys keep =
      (Dict.ofList (y.headers.map fun line => (lower line.1, line.2))).filterKeys keep := by
  rw [lower_lines, lower_lines, Dict.ofList_filterKeys, Dict.ofList_filterKeys,
    filter_alike keep hDrops h.headers]

theorem Alike.requestPayload (h : Alike x y) : x.requestPayload = y.requestPayload := by
  have hForward := h.filterKeys (fun k => decide (k ∉ ["host", "authorization"])) (by decide)
  have hStored := h.filterKeys (fun k => decide (lower k ≠ "authorization")) (by decide)
  apply Dict.ext
  simp only [Inbound.requestPayload, h.method, h.endpointPath, h.params, h.body]
  rw [hForward, hStored]

theorem Alike.cacheKey (h : Alike x y) : x.cacheKey D = y.cacheKey D := by
  simp only [Inbound.cacheKey, h.vendorSlug, h.endpointPath, h.params, h.body]

theorem Alike.dedupKey (h : Alike x y) : x.dedupKey D = y.dedupKey D := by
  simp only [Inbound.dedupKey, h.vendorSlug, h.endpointPath, h.params, h.body]

end Requests

/-- The same point of the handler, for another request. -/
def ctxFor (y : Inbound) (ctx : Ctx) : Ctx := { ctx with request := y }

def procFor (y : Inbound) : Proc → Proc
  | .idle => .idle
  | .running ctx pc => .running (ctxFor y ctx) pc
  | .finished _ outcome => .finished y outcome

/-! For a request that is alike the handler does the same, await by await. -/
section Handler

variable {D : Deployment} {signing : Signing} {y : Inbound} {ctx : Ctx} {now : ℚ} {r : ℕ}
  {redis : RedisServer}

theorem counterAt_ctxFor (t : ℚ) : (ctxFor y ctx).counterAt t = ctx.counterAt t := rfl

theorem for_afterSelectEndpoint (row : Option (Option VendorEndpoint)) :
    afterSelectEndpoint (ctxFor y ctx) row = procFor y (afterSelectEndpoint ctx row) := by
  unfold afterSelectEndpoint
  split
  · rfl
  · split_ifs <;> rfl

theorem for_afterLoadApiKey (row : Option VendorApiKey) :
    afterLoadApiKey (ctxFor y ctx) now row = procFor y (afterLoadApiKey ctx now row) := by
  have hSame : Ctx.counterAt { ctxFor y ctx with apiKey := row } now =
      Ctx.counterAt { ctx with apiKey := row } now := rfl
  simp only [afterLoadApiKey, hSame]
  cases Ctx.counterAt { ctx with apiKey := row } now <;> rfl

theorem for_afterCheckQuota (hAlike : Alike ctx.request y)
    (value : Option (Redis.Value CachedResponse)) :
    afterCheckQuota (ctxFor y ctx) now value = procFor y (afterCheckQuota ctx now value) := by
  have hQuota : (ctxFor y ctx).quota = ctx.quota := rfl
  have hSlug : (ctxFor y ctx).request.vendorSlug = ctx.request.vendorSlug := hAlike.vendorSlug.symm
  simp only [afterCheckQuota, hQuota, hSlug]
  split
  · rfl
  · split
    · split <;> rfl
    · rfl

theorem for_afterGetCached (value : Option (Redis.Value CachedResponse)) :
    afterGetCached (ctxFor y ctx) value = procFor y (afterGetCached ctx value) := by
  unfold afterGetCached
  split <;> rfl

theorem for_afterAcquireLock (acquired : Bool) :
    afterAcquireLock (ctxFor y ctx) acquired = procFor y (afterAcquireLock ctx acquired) := by
  cases acquired <;> rfl

theorem for_afterGetResult (value : Option (Redis.Value CachedResponse)) :
    afterGetResult (ctxFor y ctx) now value = procFor y (afterGetResult ctx now value) := by
  unfold afterGetResult
  split <;> rfl

theorem for_afterSleep (deadline : ℚ) :
    afterSleep (ctxFor y ctx) now deadline = procFor y (afterSleep ctx now deadline) := by
  unfold afterSleep
  split_ifs <;> rfl

theorem for_afterGetMessage (deadline : ℚ) (frame : Option (Redis.Frame CachedResponse ℕ)) :
    afterGetMessage (ctxFor y ctx) deadline frame = procFor y (afterGetMessage ctx deadline frame) := by
  unfold afterGetMessage
  split <;> rfl

theorem for_afterUnsubscribe (result : WaitResult) :
    afterUnsubscribe (ctxFor y ctx) result = procFor y (afterUnsubscribe ctx result) := by
  cases result <;> rfl

theorem for_afterCallVendor (outcome : VendorOutcome) :
    afterCallVendor (ctxFor y ctx) now outcome = procFor y (afterCallVendor ctx now outcome) := by
  have hTtl : (ctxFor y ctx).ttl = ctx.ttl := rfl
  cases outcome with
  | response v =>
      simp only [afterCallVendor, hTtl]
      split_ifs <;> rfl
  | _ => rfl

theorem for_afterPublish (f : Fetched) :
    afterPublish (ctxFor y ctx) now f = procFor y (afterPublish ctx now f) := by
  simp only [afterPublish, counterAt_ctxFor]
  cases ctx.counterAt now <;> rfl

theorem for_afterIncrQuota (f : Fetched) (counter : Counter) (newCount : Option ℤ) :
    afterIncrQuota (ctxFor y ctx) f counter newCount =
      procFor y (afterIncrQuota ctx f counter newCount) := by
  have hQuota : (ctxFor y ctx).quota = ctx.quota := rfl
  simp only [afterIncrQuota, hQuota]
  split <;> rfl

theorem for_afterRaise (pc : Routes.Pc) :
    afterRaise (ctxFor y ctx) pc = (afterRaise ctx pc).map (procFor y) := by
  cases pc <;> rfl

/-- Redis executes the same command, and the handler goes on to the same point. -/
theorem for_reply (hAlike : Alike ctx.request y) (pc : Routes.Pc) :
    D.reply now r (ctxFor y ctx) redis pc =
      (D.reply now r ctx redis pc).map fun p => (p.1, procFor y p.2) := by
  have hCache : (ctxFor y ctx).cacheKey D = ctx.cacheKey D := hAlike.cacheKey.symm
  have hDedup : (ctxFor y ctx).dedupKey D = ctx.dedupKey D := hAlike.dedupKey.symm
  have hTtl : (ctxFor y ctx).ttl = ctx.ttl := rfl
  cases pc with
  | checkQuota counter => simp only [Deployment.reply, for_afterCheckQuota hAlike, Option.map_some]
  | getCached => simp only [Deployment.reply, hCache, for_afterGetCached, Option.map_some]
  | acquireLock => simp only [Deployment.reply, hDedup, for_afterAcquireLock, Option.map_some]
  | getResult => simp only [Deployment.reply, hDedup, for_afterGetResult, Option.map_some]
  | getMessage deadline => simp only [Deployment.reply, for_afterGetMessage, Option.map_some]
  | unsubscribe result => simp only [Deployment.reply, for_afterUnsubscribe, Option.map_some]
  | publish f => simp only [Deployment.reply, hDedup, for_afterPublish, Option.map_some]
  | incrQuota f counter =>
      simp only [Deployment.reply, for_afterIncrQuota]
      cases redis.incr now counter.key r <;> rfl
  | setCached f => simp only [Deployment.reply, hCache, hTtl, Option.map_some, procFor]
  | setResult f => simp only [Deployment.reply, hDedup, Option.map_some, procFor]
  | subscribe => simp only [Deployment.reply, hDedup, Option.map_some, procFor]
  | releaseLock outcome =>
      simp only [Deployment.reply, hDedup]
      rfl
  | _ => rfl

theorem for_afterFailure (hAlike : Alike ctx.request y) (pc : Routes.Pc) (executed : Bool) :
    D.afterFailure now r (ctxFor y ctx) redis pc executed =
      D.afterFailure now r ctx redis pc executed := by
  simp only [Deployment.afterFailure, for_reply hAlike, Option.map_map]
  rfl

theorem for_start {x : Inbound} (hAlike : Alike x y) : D.start y = procFor y (D.start x) := by
  unfold Deployment.start
  rw [← hAlike.vendorSlug]
  split
  · rfl
  · split_ifs <;> rfl

/-- After its arrival, a request that is alike takes the same step. -/
theorem for_react (hAlike : Alike ctx.request y) (pc : Routes.Pc) (input : Input) :
    D.react now r redis (.running (ctxFor y ctx) pc) input =
      (D.react now r redis (.running ctx pc) input).map fun p => (p.1, procFor y p.2) := by
  have hSelect : D.selectEndpoint (ctxFor y ctx).config (ctxFor y ctx).request =
      D.selectEndpoint ctx.config ctx.request := by
    simp only [Deployment.selectEndpoint, hAlike.endpointPath, hAlike.method]
    rfl
  cases input with
  | reply =>
      have hReply : D.reply now r (ctxFor y ctx) redis pc =
          (D.reply now r ctx redis pc).map fun p => (p.1, procFor y p.2) := for_reply hAlike pc
      cases pc <;> exact hReply
  | raised executed =>
      have hSame : ((afterRaise (ctxFor y ctx) pc).map fun p =>
            (D.afterFailure now r (ctxFor y ctx) redis pc executed, p)) =
          ((afterRaise ctx pc).map fun p =>
            (D.afterFailure now r ctx redis pc executed, p)).map fun p => (p.1, procFor y p.2) := by
        rw [for_afterRaise, for_afterFailure hAlike, Option.map_map, Option.map_map]
        rfl
      cases pc <;> exact hSame
  | endpointRow =>
      cases pc with
      | selectEndpoint => simp only [Deployment.react, hSelect, for_afterSelectEndpoint, Option.map_some]
      | _ => rfl
  | jobStored jobId => cases pc <;> rfl
  | apiKeyRow row =>
      cases pc with
      | loadApiKey =>
          have hConfig : (ctxFor y ctx).config = ctx.config := rfl
          simp only [Deployment.react, hConfig, for_afterLoadApiKey]
          split_ifs <;> rfl
      | _ => rfl
  | wake =>
      cases pc with
      | sleep deadline => simp only [Deployment.react, for_afterSleep, Option.map_some]
      | _ => rfl
  | vendor outcome =>
      cases pc with
      | callVendor => simp only [Deployment.react, for_afterCallVendor, Option.map_some]
      | _ => rfl
  | arrive request => cases pc <;> rfl

theorem for_turnOutput (hAlike : Alike ctx.request y) (pc : Routes.Pc) :
    turnOutput D signing (ctxFor y ctx) pc = turnOutput D signing ctx pc := by
  have hCache : (ctxFor y ctx).cacheKey D = ctx.cacheKey D := hAlike.cacheKey.symm
  have hDedup : (ctxFor y ctx).dedupKey D = ctx.dedupKey D := hAlike.dedupKey.symm
  cases pc with
  | selectEndpoint => simp only [turnOutput, ctxFor, hAlike.endpointPath, hAlike.method]
  | createJob => simp only [turnOutput, jobRequest, ctxFor, hAlike.userSub, hAlike.requestPayload]
  | callVendor => simp only [turnOutput, ctxFor, hAlike.vendorCall]
  | getCached => simp only [turnOutput, hCache]
  | setCached f =>
      simp only [turnOutput, hCache]
      rfl
  | acquireLock => simp only [turnOutput, hDedup]
  | subscribe => simp only [turnOutput, hDedup]
  | getResult => simp only [turnOutput, hDedup]
  | unsubscribe result => simp only [turnOutput, hDedup]
  | setResult f => simp only [turnOutput, hDedup]
  | publish f => simp only [turnOutput, hDedup]
  | releaseLock outcome => simp only [turnOutput, hDedup]
  | _ => rfl

end Handler

/-- The same point of the handler, for requests that are alike. -/
def AlikeProc (p q : Proc) : Prop :=
  p = .idle ∧ q = .idle ∨ ∃ x y, p.request? = some x ∧ Alike x y ∧ q = procFor y p

structure AlikeRoutes (σ τ : Routes.State) : Prop where
  now : σ.now = τ.now
  redis : σ.redis = τ.redis
  procs : ∀ r, AlikeProc (σ.procs r) (τ.procs r)

structure AlikeState (s t : State) : Prop where
  routes : AlikeRoutes s.routes t.routes
  jobs : s.jobs = t.jobs

inductive AlikeInput : Input → Input → Prop where
  | same (input : Input) : AlikeInput input input
  | arrive {x y : Inbound} (hAlike : Alike x y) : AlikeInput (.arrive x) (.arrive y)

section Runs

variable {D : Deployment} {signing : Signing} {p q : Proc} {now : ℚ} {r : ℕ} {redis : RedisServer}
  {input input' : Input} {σ τ : Routes.State} {s t : State} {e e' : Event}

theorem procFor_self {x : Inbound} (h : p.request? = some x) : procFor x p = p := by
  cases p with
  | idle => rfl
  | running ctx pc =>
      obtain rfl := Option.some.inj h
      rfl
  | finished request outcome =>
      obtain rfl := Option.some.inj h
      rfl

theorem AlikeProc.refl (p : Proc) : AlikeProc p p := by
  cases hRequest : p.request? with
  | none =>
      cases p with
      | idle => exact Or.inl ⟨rfl, rfl⟩
      | _ => cases hRequest
  | some x => exact Or.inr ⟨x, x, hRequest, .refl x, (procFor_self hRequest).symm⟩

theorem AlikeState.refl (s : State) : AlikeState s s where
  routes := ⟨rfl, rfl, fun _ => .refl _⟩
  jobs := rfl

theorem start_alike {x y : Inbound} (hAlike : Alike x y) : AlikeProc (D.start x) (D.start y) :=
  Or.inr ⟨x, y, request_start D x, hAlike, for_start hAlike⟩

theorem react_alike (hProc : AlikeProc p q) (hInput : AlikeInput input input') :
    Option.Rel (fun a b => a.1 = b.1 ∧ AlikeProc a.2 b.2) (D.react now r redis p input)
      (D.react now r redis q input') := by
  rcases hProc with ⟨rfl, rfl⟩ | ⟨x, y, hRequest, hAlike, rfl⟩
  · cases hInput with
    | arrive hAlike => exact .some ⟨rfl, start_alike hAlike⟩
    | same input =>
        cases input with
        | arrive request => exact .some ⟨rfl, .refl _⟩
        | _ => exact .none
  · cases p with
    | idle => cases hRequest
    | finished request outcome => cases hInput <;> exact .none
    | running ctx pc =>
        obtain rfl := Option.some.inj hRequest
        cases hInput with
        | arrive _ => cases pc <;> exact .none
        | same input =>
            rw [procFor, for_react hAlike]
            cases hReact : D.react now r redis (.running ctx pc) input with
            | none => exact .none
            | some next =>
                have hMove : Move D now r redis (.running ctx pc) input next.1 next.2 :=
                  move_of_react hReact
                exact .some ⟨rfl, Or.inr ⟨_, y, request_of_move hMove rfl, hAlike, rfl⟩⟩

theorem deliver_alike (hRoutes : AlikeRoutes σ τ) (hInput : AlikeInput input input') :
    Option.Rel AlikeRoutes (D.machine.step σ (.deliver r input))
      (D.machine.step τ (.deliver r input')) := by
  have hReact : Option.Rel (fun a b => a.1 = b.1 ∧ AlikeProc a.2 b.2)
      (D.react σ.now r σ.redis (σ.procs r) input) (D.react σ.now r σ.redis (τ.procs r) input') :=
    react_alike (hRoutes.procs r) hInput
  simp only [Deployment.machine]
  rw [← hRoutes.now, ← hRoutes.redis]
  generalize D.react σ.now r σ.redis (σ.procs r) input = first at hReact
  generalize D.react σ.now r σ.redis (τ.procs r) input' = second at hReact
  cases hReact with
  | none => exact .none
  | @some a b hSame =>
      refine .some ⟨rfl, hSame.1, fun w => ?_⟩
      show AlikeProc (Function.update σ.procs r a.2 w) (Function.update τ.procs r b.2 w)
      by_cases hw : w = r
      · subst hw
        rw [Function.update_self, Function.update_self]
        exact hSame.2
      · rw [Function.update_of_ne hw, Function.update_of_ne hw]
        exact hRoutes.procs w

theorem elapse_alike (hRoutes : AlikeRoutes σ τ) (dt : ℚ) :
    Option.Rel AlikeRoutes (D.machine.step σ (.elapse dt)) (D.machine.step τ (.elapse dt)) := by
  simp only [Deployment.machine]
  split_ifs
  · exact .some ⟨by rw [hRoutes.now], hRoutes.redis, hRoutes.procs⟩
  · exact .none

/-- The same job is stored for requests that are alike. -/
theorem jobRequest_alike (hRoutes : AlikeRoutes σ τ) (r : ℕ) :
    (σ.turn r).bind jobRequest = (τ.turn r).bind jobRequest := by
  rcases hRoutes.procs r with ⟨hp, hq⟩ | ⟨x, y, hRequest, hAlike, hq⟩
  · simp [Routes.State.turn, hp, hq]
  · cases hp : σ.procs r with
    | idle => simp [Routes.State.turn, hp, hq, procFor]
    | finished request outcome => simp [Routes.State.turn, hp, hq, procFor]
    | running ctx pc =>
        rw [hp] at hRequest
        obtain rfl := Option.some.inj hRequest
        simp [Routes.State.turn, hp, hq, procFor, jobRequest, ctxFor, hAlike.userSub,
          hAlike.requestPayload]

theorem step_store (r : ℕ) (id : Uuid) (refreshed : Bool) :
    (machine D).step s (.store r id refreshed) = ((s.routes.turn r).bind jobRequest).bind fun job =>
      (Worker.step s.jobs (job.create id)).bind fun jobs =>
        (D.machine.step s.routes (.deliver r (stored id refreshed))).map fun routes =>
          ⟨routes, jobs⟩ := by
  simp only [machine]
  cases hTurn : s.routes.turn r with
  | none => rfl
  | some turn =>
      show (jobRequest turn).bind _ = (jobRequest turn).bind _
      congr 1
      funext job
      show (Worker.step s.jobs (job.create id)).bind _ = (Worker.step s.jobs (job.create id)).bind _
      congr 1
      funext jobs
      show (D.machine.step s.routes _).bind _ = _
      cases D.machine.step s.routes (.deliver r (stored id refreshed)) <;> rfl

theorem step_alike (hState : AlikeState s t) (hEvent : AlikeEvent e e') :
    Option.Rel AlikeState ((machine D).step s e) ((machine D).step t e') := by
  have hMap {f g : Option Routes.State} (hRel : Option.Rel AlikeRoutes f g) (jobs : Worker.State) :
      Option.Rel AlikeState (f.map fun routes => ⟨routes, jobs⟩)
        (g.map fun routes => ⟨routes, jobs⟩) := by
    cases hRel with
    | none => exact .none
    | some hRoutes => exact .some ⟨hRoutes, rfl⟩
  cases hEvent with
  | arrive r hAlike =>
      have hDeliver := deliver_alike (D := D) (r := r) hState.routes (.arrive hAlike)
      simp only [machine, receivesJob]
      rw [← hState.jobs]
      exact hMap hDeliver s.jobs
  | same e =>
      cases e with
      | route e =>
          simp only [machine]
          rw [← hState.jobs]
          split_ifs
          · exact .none
          · cases e with
            | elapse dt => exact hMap (elapse_alike hState.routes dt) s.jobs
            | deliver r input => exact hMap (deliver_alike hState.routes (.same input)) s.jobs
      | store r id refreshed =>
          rw [step_store, step_store, jobRequest_alike hState.routes, ← hState.jobs]
          cases (t.routes.turn r).bind jobRequest with
          | none => exact .none
          | some job =>
              show Option.Rel _ ((Worker.step s.jobs (job.create id)).bind _)
                ((Worker.step s.jobs (job.create id)).bind _)
              cases Worker.step s.jobs (job.create id) with
              | none => exact .none
              | some jobs => exact hMap (deliver_alike hState.routes (.same _)) jobs
      | work e =>
          simp only [machine]
          rw [← hState.jobs]
          split_ifs
          · exact .none
          · cases Worker.step s.jobs e with
            | none => exact .none
            | some jobs => exact .some ⟨hState.routes, rfl⟩

theorem procOutput_alike (h : AlikeProc p q) : procOutput D signing p = procOutput D signing q := by
  rcases h with ⟨rfl, rfl⟩ | ⟨x, y, hRequest, hAlike, rfl⟩
  · rfl
  · cases p with
    | idle => rfl
    | finished request outcome => rfl
    | running ctx pc =>
        obtain rfl := Option.some.inj hRequest
        exact (for_turnOutput hAlike pc).symm

theorem outputs_alike (hState : AlikeState s t) : outputs D signing s = outputs D signing t := by
  simp only [outputs, hState.jobs]
  congr 1
  funext r
  exact procOutput_alike (hState.routes.procs r)

theorem trace_alike {es es' : List Event} (hEvents : List.Forall₂ AlikeEvent es es')
    (hState : AlikeState s t) : trace D signing s es = trace D signing t es' := by
  induction hEvents generalizing s t with
  | nil => rw [trace, trace, outputs_alike hState]
  | @cons e e' es es' hEvent _ ih =>
      rw [trace, trace, outputs_alike hState]
      have hStep := step_alike (D := D) hState hEvent
      generalize (machine D).step s e = first at hStep
      generalize (machine D).step t e' = second at hStep
      cases hStep with
      | none => rfl
      | some hNext => simp only [ih hNext]

end Runs

/-- From one state on, two runs that differ in the Authorization headers of the
requests only, send out the same: to Redis, to the database, to the vendors
through any adapter, from the requests and from the worker, and to the callers. -/
theorem credential_undisclosed (D : Deployment) (signing : Signing) (s : State)
    {es es' : List Event} (hEvents : List.Forall₂ AlikeEvent es es') :
    trace D signing s es = trace D signing s es' :=
  trace_alike hEvents (.refl s)

section Sample

/-- A request to the asynchronous endpoint of the sample vendor, with a credential
of the caller and a callback. -/
def bearing (credential : String) : Inbound :=
  { sampleRequest .post "p" with
    headers := [("authorization", credential), ("x-callback-url", "http://c")]
    headers_lower := by
      simpa using (by decide :
        lower "authorization" = "authorization" ∧ lower "x-callback-url" = "x-callback-url") }

def sampleSigning : Signing where
  lib := ⟨"gzip", "client", fun _ params => (params.map Dict.items).getD [], fun _ => none⟩
  secrets _ := some "secret"
  adapter _ := .apiKey (.str "x-api-key") .null (.str "KEY")

/-- The request is stored as a job, which the worker runs up to the webhook. -/
def bearerJob (credential : String) : List Event :=
  .route (.deliver 0 (.arrive (bearing credential))) :: Worker.load.map .work ++
    [.route (.deliver 0 .endpointRow), .store 0 Worker.otherId true] ++
    workOnJob.map .work ++ [.work .reply]

/-- The worker calls the webhook. -/
def notifies (s : State) : Bool := s.jobs.worker matches .notifying _ _

theorem credential_undisclosed_bearer :
    ((machine jobDeployment).exec System.anyRun sampleStart (bearerJob "Bearer a")).any notifies =
        true ∧
      trace jobDeployment sampleSigning sampleStart (bearerJob "Bearer a") =
      trace jobDeployment sampleSigning sampleStart (bearerJob "Bearer b") := by
  have hAlike : Alike (bearing "Bearer a") (bearing "Bearer b") :=
    ⟨rfl, rfl, rfl, rfl, .cons (Or.inr ⟨rfl, rfl⟩) (.cons (Or.inl rfl) .nil), rfl, rfl⟩
  refine ⟨by decide +kernel, ?_⟩
  exact credential_undisclosed jobDeployment sampleSigning sampleStart
    (.cons (.arrive 0 hAlike) (List.forall₂_same.mpr fun e _ => .same e))

end Sample

end Gateway.Served

import Gateway.Routes.Machine

/-! The control flow of one request: how it gets from one await to the next,
how it finishes, and that it stays the same request throughout. -/
namespace Gateway.Routes

open Gateway.Cache Gateway.Db Gateway.Quota Gateway.Vendors

/-- The edges between the awaits of one request. -/
inductive Flow (now : ℚ) : Ctx → Pc → Input → Ctx → Pc → Prop where
  | asyncJob (ctx : Ctx) (row : Option VendorEndpoint) : Flow now ctx .selectEndpoint
      .endpointRow { ctx with endpoint := row } .createJob
  | synchronous (ctx : Ctx) (row : Option VendorEndpoint) : Flow now ctx .selectEndpoint
      .endpointRow { ctx with endpoint := row } .loadApiKey
  | limited (ctx : Ctx) (row : Option VendorApiKey) (counter : Counter)
      (hCounter : Ctx.counterAt { ctx with apiKey := row } now = some counter) :
      Flow now ctx .loadApiKey (.apiKeyRow row) { ctx with apiKey := row } (.checkQuota counter)
  | unlimited (ctx : Ctx) (row : Option VendorApiKey)
      (hCounter : Ctx.counterAt { ctx with apiKey := row } now = none) :
      Flow now ctx .loadApiKey (.apiKeyRow row) { ctx with apiKey := row } .getCached
  | admitted (ctx : Ctx) (counter : Counter) :
      Flow now ctx (.checkQuota counter) .reply ctx .getCached
  | missed (ctx : Ctx) : Flow now ctx .getCached .reply ctx .acquireLock
  | acquired (ctx : Ctx) : Flow now ctx .acquireLock .reply ctx .callVendor
  | refused (ctx : Ctx) : Flow now ctx .acquireLock .reply ctx .subscribe
  | subscribed (ctx : Ctx) : Flow now ctx .subscribe .reply ctx .getResult
  | stored (ctx : Ctx) (result : WaitResult) :
      Flow now ctx .getResult .reply ctx (.unsubscribe result)
  | notStored (ctx : Ctx) :
      Flow now ctx .getResult .reply ctx (.sleep (now + dedupWaitTimeout))
  | expired (ctx : Ctx) (deadline : ℚ) (hLate : deadline ≤ now) :
      Flow now ctx (.sleep deadline) .wake ctx (.unsubscribe .timedOut)
  | polling (ctx : Ctx) (deadline : ℚ) (hEarly : now < deadline) :
      Flow now ctx (.sleep deadline) .wake ctx (.getMessage deadline)
  | notified (ctx : Ctx) (deadline : ℚ) (cached : CachedResponse) :
      Flow now ctx (.getMessage deadline) .reply ctx (.unsubscribe (.found cached))
  | notNotified (ctx : Ctx) (deadline : ℚ) :
      Flow now ctx (.getMessage deadline) .reply ctx (.sleep deadline)
  | storable (ctx : Ctx) (v : VendorResponse) (hSuccess : success v.statusCode = true)
      (hStorable : storable (Fetched.cached ⟨v, now⟩) ctx.ttl = true) :
      Flow now ctx .callVendor (.vendor (.response v)) ctx (.setCached ⟨v, now⟩)
  | notStorable (ctx : Ctx) (v : VendorResponse) (hSuccess : success v.statusCode = true) :
      Flow now ctx .callVendor (.vendor (.response v)) ctx (.setResult ⟨v, now⟩)
  | propagated (ctx : Ctx) (v : VendorResponse) :
      Flow now ctx .callVendor (.vendor (.response v)) ctx (.releaseLock (.relayed v))
  | vendorFailed (ctx : Ctx) (failure : VendorOutcome) (status : ℕ) (detail : Detail) :
      Flow now ctx .callVendor (.vendor failure) ctx (.releaseLock (.httpException status detail))
  | vendorRaised (ctx : Ctx) :
      Flow now ctx .callVendor (.vendor .otherError) ctx (.releaseLock .unhandled)
  | cached (ctx : Ctx) (f : Fetched) : Flow now ctx (.setCached f) .reply ctx (.setResult f)
  | shared (ctx : Ctx) (f : Fetched) : Flow now ctx (.setResult f) .reply ctx (.publish f)
  | published (ctx : Ctx) (f : Fetched) :
      Flow now ctx (.publish f) .reply ctx (.releaseLock (.relayed f.response))
  | charging (ctx : Ctx) (f : Fetched) (counter : Counter)
      (hCounter : ctx.counterAt now = some counter) :
      Flow now ctx (.publish f) .reply ctx (.incrQuota f counter)
  | firstCharge (ctx : Ctx) (f : Fetched) (counter : Counter) (ttl : ℤ)
      (hTtl : (ctx.quota.bind fun q => periodTtl q.2.2) = some ttl) :
      Flow now ctx (.incrQuota f counter) .reply ctx (.expireQuota f counter ttl)
  | charged (ctx : Ctx) (f : Fetched) (counter : Counter) :
      Flow now ctx (.incrQuota f counter) .reply ctx (.releaseLock (.relayed f.response))
  | bounded (ctx : Ctx) (f : Fetched) (counter : Counter) (ttl : ℤ) :
      Flow now ctx (.expireQuota f counter ttl) .reply ctx (.releaseLock (.relayed f.response))
  | checkRaised (ctx : Ctx) (counter : Counter) (executed : Bool) :
      Flow now ctx (.checkQuota counter) (.raised executed) ctx .getCached
  | resultRaised (ctx : Ctx) (executed : Bool) :
      Flow now ctx .getResult (.raised executed) ctx (.unsubscribe .raised)
  | messageRaised (ctx : Ctx) (deadline : ℚ) (executed : Bool) :
      Flow now ctx (.getMessage deadline) (.raised executed) ctx (.unsubscribe .raised)
  | cacheRaised (ctx : Ctx) (f : Fetched) (executed : Bool) :
      Flow now ctx (.setCached f) (.raised executed) ctx (.releaseLock .unhandled)
  | shareRaised (ctx : Ctx) (f : Fetched) (executed : Bool) :
      Flow now ctx (.setResult f) (.raised executed) ctx (.releaseLock .unhandled)
  | publishRaised (ctx : Ctx) (f : Fetched) (executed : Bool) :
      Flow now ctx (.publish f) (.raised executed) ctx (.releaseLock .unhandled)
  | chargeRaised (ctx : Ctx) (f : Fetched) (counter : Counter) (executed : Bool) :
      Flow now ctx (.incrQuota f counter) (.raised executed) ctx
        (.releaseLock (.relayed f.response))
  | boundRaised (ctx : Ctx) (f : Fetched) (counter : Counter) (ttl : ℤ) (executed : Bool) :
      Flow now ctx (.expireQuota f counter ttl) (.raised executed) ctx
        (.releaseLock (.relayed f.response))

/-- How a running request finishes. -/
inductive Finish (D : Deployment) (now : ℚ) (s : RedisServer) (ctx : Ctx) :
    Pc → Input → Outcome → Prop where
  | ambiguous : Finish D now s ctx .selectEndpoint .endpointRow .unhandled
  | accepted (jobId : Uuid) : Finish D now s ctx .createJob (.jobStored jobId) (.jobAccepted jobId)
  | blocked (counter : Counter) (limit used : ℤ)
      (hUsage : quotaUsage (s.get now counter.key) = some used) (hOver : limit ≤ used)
      (detail : Detail) :
      Finish D now s ctx (.checkQuota counter) .reply (.httpException 429 detail)
  | undated (counter : Counter) : Finish D now s ctx (.checkQuota counter) .reply .unhandled
  | hit (c : CachedResponse) (hGet : s.get now (ctx.cacheKey D) = some (.text c)) :
      Finish D now s ctx .getCached .reply (.fromCache c)
  | brokenHit : Finish D now s ctx .getCached .reply .unhandled
  | deduplicated (c : CachedResponse) :
      Finish D now s ctx (.unsubscribe (.found c)) .reply (.fromDedup c)
  | timedOut : Finish D now s ctx (.unsubscribe .timedOut) .reply
      (.httpException 504 (.text "Upstream request timed out (dedup wait)."))
  | waitRaised : Finish D now s ctx (.unsubscribe .raised) .reply .unhandled
  | released (outcome : Outcome) : Finish D now s ctx (.releaseLock outcome) .reply outcome
  | raised (pc : Pc) (executed : Bool) : Finish D now s ctx pc (.raised executed) .unhandled

/-- A running request goes on to its next await or finishes. -/
def Continues (D : Deployment) (now : ℚ) (s : RedisServer) (ctx : Ctx) (pc : Pc) (input : Input) :
    Proc → Prop
  | .idle => False
  | .running ctx' pc' => Flow now ctx pc input ctx' pc'
  | .finished request outcome => request = ctx.request ∧ Finish D now s ctx pc input outcome

section Continuations

variable {D : Deployment} {now : ℚ} {s : RedisServer} {ctx : Ctx}

theorem continues_afterSelectEndpoint (row : Option (Option VendorEndpoint)) :
    Continues D now s ctx .selectEndpoint .endpointRow (afterSelectEndpoint ctx row) := by
  unfold afterSelectEndpoint
  split
  · exact ⟨rfl, .ambiguous⟩
  · split_ifs
    · exact .asyncJob _ _
    · exact .synchronous _ _

theorem continues_afterLoadApiKey (row : Option VendorApiKey) :
    Continues D now s ctx .loadApiKey (.apiKeyRow row) (afterLoadApiKey ctx now row) := by
  simp only [afterLoadApiKey]
  split
  case h_1 hCounter => exact .unlimited _ _ hCounter
  case h_2 hCounter => exact .limited _ _ _ hCounter

theorem continues_afterCheckQuota (counter : Counter) :
    Continues D now s ctx (.checkQuota counter) .reply
      (afterCheckQuota ctx now (s.get now counter.key)) := by
  simp only [afterCheckQuota]
  split
  · exact .admitted _ _
  · split
    case h_1 limit _ _ used hCheck =>
      obtain ⟨_, hUsage, hDecision⟩ := Option.map_eq_some_iff.mp hCheck
      obtain ⟨hAllowed, rfl⟩ := Prod.mk.inj hDecision
      split
      · exact ⟨rfl, .undated _⟩
      · exact ⟨rfl, .blocked _ _ _ hUsage (not_lt.mp (of_decide_eq_false hAllowed)) _⟩
    case h_2 => exact .admitted _ _

theorem continues_afterGetCached :
    Continues D now s ctx .getCached .reply (afterGetCached ctx (s.get now (ctx.cacheKey D))) := by
  unfold afterGetCached
  split
  case h_1 => exact .missed _
  case h_2 hGet => exact ⟨rfl, .hit _ hGet⟩
  case h_3 => exact ⟨rfl, .brokenHit⟩

theorem continues_afterAcquireLock (acquired : Bool) :
    Continues D now s ctx .acquireLock .reply (afterAcquireLock ctx acquired) := by
  cases acquired with
  | true => exact .acquired _
  | false => exact .refused _

theorem continues_afterGetResult (value : Option (Redis.Value CachedResponse)) :
    Continues D now s ctx .getResult .reply (afterGetResult ctx now value) := by
  unfold afterGetResult
  split
  · exact .notStored _
  · exact .stored _ _
  · exact .stored _ _

theorem continues_afterSleep (deadline : ℚ) :
    Continues D now s ctx (.sleep deadline) .wake (afterSleep ctx now deadline) := by
  unfold afterSleep
  split_ifs with hLate
  · exact .expired _ _ (sub_nonpos.mp hLate)
  · exact .polling _ _ (sub_pos.mp (not_le.mp hLate))

theorem continues_afterGetMessage (deadline : ℚ) (frame : Option (Redis.Frame CachedResponse ℕ)) :
    Continues D now s ctx (.getMessage deadline) .reply (afterGetMessage ctx deadline frame) := by
  unfold afterGetMessage
  split
  · exact .notified _ _ _
  · exact .notNotified _ _
  · exact .notNotified _ _

theorem continues_afterUnsubscribe (result : WaitResult) :
    Continues D now s ctx (.unsubscribe result) .reply (afterUnsubscribe ctx result) := by
  cases result with
  | found c => exact ⟨rfl, .deduplicated c⟩
  | timedOut => exact ⟨rfl, .timedOut⟩
  | raised => exact ⟨rfl, .waitRaised⟩

theorem continues_afterCallVendor (outcome : VendorOutcome) :
    Continues D now s ctx .callVendor (.vendor outcome) (afterCallVendor ctx now outcome) := by
  cases outcome with
  | timeout => exact .vendorFailed _ _ _ _
  | connectError => exact .vendorFailed _ _ _ _
  | otherError => exact .vendorRaised _
  | response v =>
      simp only [afterCallVendor]
      split_ifs with hSuccess hStorable
      · exact .storable _ _ hSuccess hStorable
      · exact .notStorable _ _ hSuccess
      · exact .propagated _ _

theorem continues_afterPublish (f : Fetched) :
    Continues D now s ctx (.publish f) .reply (afterPublish ctx now f) := by
  unfold afterPublish
  split
  case h_1 => exact .published _ _
  case h_2 hCounter => exact .charging _ _ _ hCounter

theorem continues_afterIncrQuota (f : Fetched) (counter : Counter) (newCount : Option ℤ) :
    Continues D now s ctx (.incrQuota f counter) .reply
      (afterIncrQuota ctx f counter newCount) := by
  unfold afterIncrQuota
  split
  case h_1 hTtl => exact .firstCharge _ _ _ _ hTtl
  case h_2 => exact .charged _ _ _

theorem continues_afterRaise {pc : Pc} {executed : Bool} {p' : Proc}
    (h : afterRaise ctx pc = some p') : Continues D now s ctx pc (.raised executed) p' := by
  cases pc with
  | checkQuota counter =>
      cases h
      exact .checkRaised _ _ _
  | getResult =>
      cases h
      exact .resultRaised _ _
  | getMessage deadline =>
      cases h
      exact .messageRaised _ _ _
  | setCached f =>
      cases h
      exact .cacheRaised _ _ _
  | setResult f =>
      cases h
      exact .shareRaised _ _ _
  | publish f =>
      cases h
      exact .publishRaised _ _ _
  | incrQuota f counter =>
      cases h
      exact .chargeRaised _ _ _ _
  | expireQuota f counter ttl =>
      cases h
      exact .boundRaised _ _ _ _ _
  | callVendor => cases h
  | sleep deadline => cases h
  | _ =>
      cases h
      exact ⟨rfl, .raised _ _⟩

end Continuations

section ControlFlow

variable {D : Deployment} {now : ℚ} {r : ℕ} {s s' : RedisServer} {ctx ctx' : Ctx} {pc pc' : Pc}
  {input : Input}

theorem continues_of_reply {p' : Proc} (h : D.reply now r ctx s pc = some (s', p')) :
    Continues D now s ctx pc .reply p' := by
  cases pc with
  | incrQuota f counter =>
      rcases reply_incrQuota h with ⟨n, -, rfl⟩ | ⟨-, -, rfl⟩
      · exact continues_afterIncrQuota f counter (some n)
      · exact continues_afterIncrQuota f counter none
  | checkQuota counter =>
      cases h
      exact continues_afterCheckQuota counter
  | getCached =>
      cases h
      exact continues_afterGetCached
  | acquireLock =>
      cases h
      exact continues_afterAcquireLock _
  | subscribe =>
      cases h
      exact .subscribed _
  | getResult =>
      cases h
      exact continues_afterGetResult _
  | getMessage deadline =>
      cases h
      exact continues_afterGetMessage deadline _
  | unsubscribe result =>
      cases h
      exact continues_afterUnsubscribe result
  | setCached f =>
      cases h
      exact .cached _ _
  | setResult f =>
      cases h
      exact .shared _ _
  | publish f =>
      cases h
      exact continues_afterPublish f
  | expireQuota f counter ttl =>
      cases h
      exact .bounded _ _ _ _
  | releaseLock outcome =>
      cases h
      exact ⟨rfl, .released _⟩
  | _ => cases h

theorem continues_of_move {p' : Proc} (h : Move D now r s (.running ctx pc) input s' p') :
    Continues D now s ctx pc input p' := by
  cases h with
  | endpointRow => exact continues_afterSelectEndpoint _
  | jobStored _ jobId => exact ⟨rfl, .accepted jobId⟩
  | apiKeyRow _ row _ => exact continues_afterLoadApiKey row
  | wake _ deadline => exact continues_afterSleep deadline
  | vendor _ outcome => exact continues_afterCallVendor outcome
  | reply _ _ hReply => exact continues_of_reply hReply
  | raised _ _ executed hRaise => exact continues_afterRaise hRaise

theorem flow_of_move (h : Move D now r s (.running ctx pc) input s' (.running ctx' pc')) :
    Flow now ctx pc input ctx' pc' :=
  continues_of_move h

theorem finish_of_move {request : Inbound} {outcome : Outcome}
    (h : Move D now r s (.running ctx pc) input s' (.finished request outcome)) :
    request = ctx.request ∧ Finish D now s ctx pc input outcome :=
  continues_of_move h

/-- A request starts running when it arrives, with its vendor resolved. -/
theorem start_cases {p : Proc} (h : Move D now r s p input s' (.running ctx pc)) :
    (p = .idle ∧ input = .arrive ctx.request ∧ s' = s ∧
      D.registry ctx.request.vendorSlug = some ctx.config ∧ pc = .selectEndpoint) ∨
      ∃ ctx₀ pc₀, p = .running ctx₀ pc₀ ∧ Flow now ctx₀ pc₀ input ctx pc := by
  cases p with
  | idle =>
      generalize hAfter : Proc.running ctx pc = p' at h
      cases h with
      | arrive request =>
        simp only [Deployment.start] at hAfter
        split at hAfter
        case h_1 => cases hAfter
        case h_2 config hConfig =>
          split_ifs at hAfter
          cases hAfter
          exact Or.inl ⟨rfl, rfl, rfl, hConfig, rfl⟩
  | running ctx₀ pc₀ => exact Or.inr ⟨ctx₀, pc₀, rfl, flow_of_move h⟩
  | finished request outcome => cases h

/-- A request that finishes on arrival is answered with an error. -/
theorem error_of_arrive {request : Inbound} {outcome : Outcome}
    (h : Move D now r s .idle input s' (.finished request outcome)) :
    outcome = .unhandled ∨ ∃ status detail, outcome = .httpException status detail := by
  generalize hAfter : Proc.finished request outcome = p' at h
  cases h with
  | arrive request' =>
    simp only [Deployment.start] at hAfter
    split at hAfter
    · cases hAfter
      exact Or.inr ⟨_, _, rfl⟩
    · split_ifs at hAfter
      cases hAfter
      exact Or.inl rfl

/-- An arriving request has no API key yet. -/
theorem apiKey_of_start {request : Inbound} (h : D.start request = .running ctx pc) :
    ctx.apiKey = none := by
  unfold Deployment.start at h
  split at h
  case h_1 => cases h
  case h_2 =>
    split_ifs at h
    cases h
    rfl

/-- The API key is the row that was read, and stays. -/
theorem apiKey_of_move (h : Move D now r s (.running ctx pc) input s' (.running ctx' pc')) :
    ctx'.apiKey = ctx.apiKey ∨ ∃ row, input = .apiKeyRow row ∧ ctx'.apiKey = row ∧
      D.activeApiKey ctx.config row = true := by
  have hFlow := flow_of_move h
  have hRead : ∀ row p', Move D now r s (.running ctx .loadApiKey) (.apiKeyRow row) s' p' →
      D.activeApiKey ctx.config row = true := by
    intro row p' hMove
    cases hMove with
    | apiKeyRow _ _ hRow => exact hRow
  cases hFlow with
  | limited => exact Or.inr ⟨_, rfl, rfl, hRead _ _ h⟩
  | unlimited => exact Or.inr ⟨_, rfl, rfl, hRead _ _ h⟩
  | _ => exact Or.inl rfl

theorem mem_of_activeApiKey {config : Vendors.VendorConfig} {k : VendorApiKey}
    (h : D.activeApiKey config (some k) = true) : k ∈ D.apiKeys := by
  have hMem : k ∈ D.apiKeys.filter fun k => k.vendorId = config.id ∧ k.isActive := by
    simpa [Deployment.activeApiKey] using h
  exact (List.mem_filter.mp hMem).1

/-- The request and its vendor stay what they were. -/
theorem Flow.same (h : Flow now ctx pc input ctx' pc') :
    ctx'.request = ctx.request ∧ ctx'.config = ctx.config := by
  cases h <;> exact ⟨rfl, rfl⟩

end ControlFlow

section Requests

variable {D : Deployment} {now : ℚ} {r : ℕ} {s s' : RedisServer} {p p' : Proc} {input : Input}

def Proc.request? : Proc → Option Inbound
  | .idle => none
  | .running ctx _ => some ctx.request
  | .finished request _ => some request

theorem request_start (D : Deployment) (request : Inbound) :
    (D.start request).request? = some request := by
  unfold Deployment.start
  split
  · rfl
  · split_ifs <;> rfl

/-- A request stays the same request until the end. -/
theorem request_of_move {request : Inbound} (h : Move D now r s p input s' p')
    (hRequest : p.request? = some request) : p'.request? = some request := by
  cases p with
  | idle => cases hRequest
  | finished request outcome => cases h
  | running ctx pc =>
      have hContinues := continues_of_move h
      cases p' with
      | idle => exact hContinues.elim
      | running ctx' pc' => exact (congrArg some hContinues.same.1).trans hRequest
      | finished request outcome => exact (congrArg some hContinues.1).trans hRequest

theorem request_update {procs : ℕ → Proc} {request : Inbound} {w : ℕ}
    (h : Move D now r s (procs r) input s' p') (hRequest : (procs w).request? = some request) :
    (Function.update procs r p' w).request? = some request := by
  by_cases hw : w = r
  · subst hw
    rw [Function.update_self]
    exact request_of_move h hRequest
  · rw [Function.update_of_ne hw]
    exact hRequest

theorem not_idle_of_move (h : Move D now r s p input s' p') : p' ≠ .idle := by
  have hRequest : p'.request? ≠ none := by
    cases p with
    | idle =>
        cases h with
        | arrive request => simp [request_start]
    | running ctx pc => simp [request_of_move h rfl]
    | finished request outcome => cases h
  rintro rfl
  exact hRequest rfl

end Requests

/-- After a move, a request is where the move led it or where it was. -/
theorem procs_cases {procs : ℕ → Proc} {r w : ℕ} {p p' : Proc}
    (h : Function.update procs r p' w = p) : w = r ∧ p' = p ∨ w ≠ r ∧ procs w = p := by
  by_cases hw : w = r
  · subst hw
    exact Or.inl ⟨rfl, by simpa using h⟩
  · exact Or.inr ⟨hw, by simpa [hw] using h⟩

/-- The awaits on the database. -/
def Pc.database : Pc → Bool
  | .selectEndpoint | .createJob | .loadApiKey => true
  | _ => false

/-- No command on Redis fails in this event. -/
def State.redisUp (s : State) : Event → Bool
  | .deliver r (.raised _) =>
      match s.procs r with
      | .running _ pc => pc.database
      | _ => true
  | _ => true

/-- While Redis works, what raises is the database, and the request is over. -/
theorem raised_of_redisUp {D : Deployment} {s : State} {r : ℕ} {executed : Bool}
    {redis : RedisServer} {p : Proc} (hUp : s.redisUp (.deliver r (.raised executed)) = true)
    (hMove : Move D s.now r s.redis (s.procs r) (.raised executed) redis p) :
    redis = s.redis ∧ ∃ ctx pc, s.procs r = .running ctx pc ∧ pc.database = true ∧
      p = .finished ctx.request .unhandled := by
  generalize hProc : s.procs r = before at hMove
  cases hMove with
  | raised ctx pc _ hRaise =>
      have hDatabase : pc.database = true := by simpa [State.redisUp, hProc] using hUp
      refine ⟨?_, ctx, pc, rfl, hDatabase, ?_⟩
      · unfold Deployment.afterFailure
        split_ifs
        · cases pc <;> first | rfl | cases hDatabase
        · rfl
      · cases pc <;> first | exact (Option.some.inj hRaise).symm | cases hDatabase

/-- The awaits on Redis. -/
def Pc.command : Pc → Bool
  | .selectEndpoint | .createJob | .loadApiKey | .sleep _ | .callVendor => false
  | _ => true

/-- While Redis works, a pending command is executed and answered. -/
theorem reply_of_redisUp {D : Deployment} {s : State} {r : ℕ} {input : Input}
    {redis : RedisServer} {p : Proc} {ctx : Ctx} {pc : Pc}
    (hUp : s.redisUp (.deliver r input) = true)
    (hMove : Move D s.now r s.redis (s.procs r) input redis p)
    (hProc : s.procs r = .running ctx pc) (hCommand : pc.command = true) :
    input = .reply ∧ D.reply s.now r ctx s.redis pc = some (redis, p) := by
  cases input with
  | raised executed =>
      obtain ⟨_, ctx', pc', hProc', hDatabase, _⟩ := raised_of_redisUp hUp hMove
      rw [hProc] at hProc'
      cases hProc'
      cases pc <;> simp [Pc.database, Pc.command] at hDatabase hCommand
  | reply =>
      rw [hProc] at hMove
      cases hMove with
      | reply _ _ hReply => exact ⟨rfl, hReply⟩
  | _ =>
      rw [hProc] at hMove
      cases hMove
      try cases hCommand

end Gateway.Routes

import Gateway.Runs.Guided
import Gateway.Runs.Herd
import Gateway.Runs.Provenance

/-! How old a response is when `get_cached` serves it, against the effective TTL
of the request that is served. The TTL belongs to the endpoint whose path is the
request's own text; the entry is found under the path without its outer slashes. -/
namespace Gateway.Routes

open Transition Gateway.Cache Gateway.Db Gateway.Vendors

/-- The effective TTL of a request that gets as far as the cache. -/
def Deployment.effectiveTtl (D : Deployment) (request : Inbound) : Option ℤ := do
  let config ← D.registry request.vendorSlug
  let endpoint ← D.selectEndpoint config request
  if D.adapterBuilds config = true ∧ endpoint.any VendorEndpoint.isAsyncJob = false then
    some (resolveTtl config.cacheTtlSeconds (endpoint.bind VendorEndpoint.cacheTtlOverride))
  else none

/-- History: the response last stored under a key, and when. -/
abbrev StoredAt := String → Option (ℚ × CachedResponse)

def recordStored (D : Deployment) (s : State) (e : Event) (h : StoredAt) : StoredAt :=
  match s.executes e with
  | some ⟨_, ctx, .setCached f⟩ => Function.update h (ctx.cacheKey D) (some (s.now, f.cached))
  | _ => h

def timed (D : Deployment) : System (State × StoredAt) Event :=
  D.machine.withHistory (fun _ => none) (recordStored D)

/-- Only these requests are made. -/
def Among (R : Set Inbound) : Event → Prop
  | .deliver _ (.arrive request) => request ∈ R
  | _ => True

/-- The step answers this request from `get_cached`. -/
def Serves (p q : State × StoredAt) (request : Inbound) (c : CachedResponse) : Prop :=
  ∃ r, p.1.procs r ≠ .finished request (.fromCache c) ∧
    q.1.procs r = .finished request (.fromCache c)

/-- The response was stored at most as long ago as the request's own TTL, which
is positive. -/
def WithinTtl (D : Deployment) (p : State × StoredAt) (request : Inbound)
    (c : CachedResponse) : Prop :=
  ∃ ttl t, D.effectiveTtl request = some ttl ∧ 0 < ttl ∧
    p.2 (request.cacheKey D) = some (t, c) ∧ p.1.now - t ≤ ttl

/-- Every response served from the cache is fresh, in every run of these requests. -/
def ServesFresh (D : Deployment) (R : Set Inbound) : Prop :=
  ∀ p, (timed D).Reaches (fun _ => Among R) p → ∀ e q, (timed D).step p e = some q →
    ∀ request c, Serves p q request c → WithinTtl D p request c

/-- Requests that share an entry: whoever stores it has no longer a TTL than
whoever reads it. -/
def TtlOrdered (D : Deployment) (R : Set Inbound) : Prop :=
  ∀ x ∈ R, ∀ y ∈ R, x.cacheKey D = y.cacheKey D → ∀ a b, D.effectiveTtl x = some a →
    D.effectiveTtl y = some b → 0 < a → a ≤ b

section Resolution

variable {D : Deployment} {now : ℚ} {r : ℕ} {s s' : RedisServer} {ctx ctx' : Ctx} {pc pc' : Pc}
  {input : Input}

theorem effectiveTtl_eq_some {request : Inbound} {ttl : ℤ} :
    D.effectiveTtl request = some ttl ↔ ∃ config endpoint,
      D.registry request.vendorSlug = some config ∧ D.adapterBuilds config = true ∧
      D.selectEndpoint config request = some endpoint ∧
      endpoint.any VendorEndpoint.isAsyncJob = false ∧
      resolveTtl config.cacheTtlSeconds (endpoint.bind VendorEndpoint.cacheTtlOverride) = ttl := by
  refine ⟨fun h => ?_, ?_⟩
  · obtain ⟨config, hConfig, h⟩ := Option.bind_eq_some_iff.mp h
    obtain ⟨endpoint, hEndpoint, h⟩ := Option.bind_eq_some_iff.mp h
    split_ifs at h with hBoth
    exact ⟨config, endpoint, hConfig, hBoth.1, hEndpoint, hBoth.2, Option.some.inj h⟩
  · rintro ⟨config, endpoint, hConfig, hBuilds, hEndpoint, hSync, rfl⟩
    simp [Deployment.effectiveTtl, hConfig, hEndpoint, hBuilds, hSync]

/-- What a running request knows of its endpoint at this point. -/
def Resolved (D : Deployment) (ctx : Ctx) : Pc → Prop
  | .selectEndpoint => D.registry ctx.request.vendorSlug = some ctx.config ∧
      D.adapterBuilds ctx.config = true
  | .createJob => True
  | _ => D.effectiveTtl ctx.request = some ctx.ttl

theorem resolved_afterSelectEndpoint (hResolved : Resolved D ctx .selectEndpoint)
    (h : afterSelectEndpoint ctx (D.selectEndpoint ctx.config ctx.request) = .running ctx' pc') :
    ctx'.request = ctx.request ∧ Resolved D ctx' pc' := by
  unfold afterSelectEndpoint at h
  split at h
  case h_1 => cases h
  case h_2 endpoint hEndpoint =>
    split_ifs at h with hAsync
    · cases h
      exact ⟨rfl, trivial⟩
    · cases h
      have hSync : endpoint.any VendorEndpoint.isAsyncJob = false := by simpa using hAsync
      exact ⟨rfl, effectiveTtl_eq_some.mpr
        ⟨ctx.config, endpoint, hResolved.1, hResolved.2, hEndpoint, hSync, rfl⟩⟩

/-- Beyond the endpoint query the TTL stays what it is. -/
theorem Flow.resolved (h : Flow now ctx pc input ctx' pc') (hPc : pc ≠ .selectEndpoint)
    (hResolved : Resolved D ctx pc) : Resolved D ctx' pc' := by
  cases h with
  | asyncJob => exact absurd rfl hPc
  | synchronous => exact absurd rfl hPc
  | _ => exact hResolved

theorem resolved_move (hResolved : Resolved D ctx pc)
    (h : Move D now r s (.running ctx pc) input s' (.running ctx' pc')) : Resolved D ctx' pc' := by
  by_cases hPc : pc = .selectEndpoint
  · subst hPc
    generalize hAfter : Proc.running ctx' pc' = p' at h
    cases h with
    | endpointRow => exact (resolved_afterSelectEndpoint hResolved hAfter.symm).2
    | reply _ _ hReply => cases hReply
    | raised _ _ _ hRaise =>
        subst hAfter
        cases hRaise
  · exact (flow_of_move h).resolved hPc hResolved

/-- Only a response with a positive TTL is about to be stored. -/
theorem Flow.ttl_pos (h : Flow now ctx pc input ctx' pc') {f : Fetched}
    (hPc : pc' = .setCached f) : 0 < ctx'.ttl := by
  cases h with
  | storable _ _ hStorable => exact of_decide_eq_true (Bool.and_eq_true_iff.mp hStorable).1
  | _ => cases hPc

end Resolution

/-- A cached entry is the last response that was stored, by one of the requests
and for as long as its TTL. -/
structure Timed (D : Deployment) (R : Set Inbound) (p : State × StoredAt) : Prop where
  known : ∀ r ctx pc, p.1.procs r = .running ctx pc → ctx.request ∈ R ∧ Resolved D ctx pc
  storing : ∀ r ctx f, p.1.procs r = .running ctx (.setCached f) → 0 < ctx.ttl
  direct : ∀ r ctx outcome, p.1.procs r = .running ctx (.releaseLock outcome) →
    outcome.shared = none
  cached : ∀ (X : Ctx) entry, p.1.redis.entries (X.cacheKey D) = some entry →
    ∃ t c, p.2 (X.cacheKey D) = some (t, c) ∧ entry.value = .text c ∧
      ∃ y ∈ R, y.cacheKey D = X.cacheKey D ∧ ∃ a, D.effectiveTtl y = some a ∧ 0 < a ∧
        entry.expiresAt = some (t + a)

section Invariant

variable {D : Deployment} {R : Set Inbound} {s : State} {h : StoredAt} {r : ℕ} {input : Input}
  {redis : RedisServer} {proc : Proc} {p q : State × StoredAt}

theorem known_move_resolved {ctx : Ctx} {pc : Pc}
    (hKnown : ∀ ctx pc, s.procs r = .running ctx pc → ctx.request ∈ R ∧ Resolved D ctx pc)
    (hArrive : ∀ request, input = .arrive request → request ∈ R)
    (hMove : Move D s.now r s.redis (s.procs r) input redis (.running ctx pc)) :
    ctx.request ∈ R ∧ Resolved D ctx pc := by
  rcases start_cases hMove with ⟨hIdle, rfl, _, hConfig, rfl⟩ | ⟨ctx₀, pc₀, hBefore, hFlow⟩
  · refine ⟨hArrive _ rfl, hConfig, ?_⟩
    generalize hAfter : Proc.running ctx .selectEndpoint = p' at hMove
    rw [hIdle] at hMove
    cases hMove with
    | arrive =>
      simp only [Deployment.start, hConfig] at hAfter
      split_ifs at hAfter with hBuilds
      exact hBuilds
  · obtain ⟨hRequest, hResolved⟩ := hKnown ctx₀ pc₀ hBefore
    rw [hBefore] at hMove
    exact ⟨hFlow.same.1 ▸ hRequest, resolved_move hResolved hMove⟩

theorem known_timed (hTimed : Timed D R (s, h)) (hAmong : Among R (.deliver r input)) {ctx : Ctx}
    {pc : Pc} (hMove : Move D s.now r s.redis (s.procs r) input redis (.running ctx pc)) :
    ctx.request ∈ R ∧ Resolved D ctx pc := by
  refine known_move_resolved (hTimed.known r) (fun request hInput => ?_) hMove
  subst hInput
  exact hAmong

theorem storing_timed {ctx : Ctx} {f : Fetched}
    (hMove : Move D s.now r s.redis (s.procs r) input redis (.running ctx (.setCached f))) :
    0 < ctx.ttl := by
  rcases start_cases hMove with ⟨_, _, _, _, hPc⟩ | ⟨ctx₀, pc₀, _, hFlow⟩
  · cases hPc
  · exact hFlow.ttl_pos rfl

/-- Where nothing is stored, the history of a key stays. -/
theorem recordStored_of_ne {e : Event} {k : String}
    (hNot : ∀ turn ∈ s.executes e, turn.pc.writes D turn.ctx ≠ some k) :
    recordStored D s e h k = h k := by
  cases hTurn : s.executes e with
  | none => simp only [recordStored, hTurn]
  | some turn =>
      obtain ⟨y, ctx, pc⟩ := turn
      cases pc with
      | setCached f =>
          have hKey : k ≠ ctx.cacheKey D := fun hSame => hNot _ hTurn (congrArg some hSame.symm)
          simp only [recordStored, hTurn, Function.update_of_ne hKey]
      | _ => simp only [recordStored, hTurn]

theorem cached_timed (hTimed : Timed D R (s, h))
    (hMove : Move D s.now r s.redis (s.procs r) input redis proc) (X : Ctx)
    {entry : Redis.Entry ℚ CachedResponse ℕ}
    (hEntry : redis.entries (X.cacheKey D) = some entry) :
    ∃ t c, recordStored D s (.deliver r input) h (X.cacheKey D) = some (t, c) ∧
      entry.value = .text c ∧ ∃ y ∈ R, y.cacheKey D = X.cacheKey D ∧
        ∃ a, D.effectiveTtl y = some a ∧ 0 < a ∧ entry.expiresAt = some (t + a) := by
  by_cases hWrites : ∃ turn ∈ s.executes (.deliver r input),
      turn.pc.writes D turn.ctx = some (X.cacheKey D)
  · obtain ⟨turn, hTurn, hKey⟩ := hWrites
    obtain ⟨hSame, f, hPc⟩ := writes_cache hKey
    obtain ⟨y, ctx, pc⟩ := turn
    obtain rfl : pc = .setCached f := hPc
    have hProc := (executes_eq_some.mp hTurn).2
    have hKnown := hTimed.known y ctx _ hProc
    have hPos := hTimed.storing y ctx f hProc
    rw [set_of_executes hTurn hMove, ← hSame, Redis.Server.set_entries_self] at hEntry
    obtain rfl := Option.some.inj hEntry
    refine ⟨s.now, f.cached, ?_, rfl, ctx.request, hKnown.1, hSame, ctx.ttl, hKnown.2, hPos, rfl⟩
    simp [recordStored, Option.mem_def.mp hTurn, hSame]
  · have hNot : ∀ turn ∈ s.executes (.deliver r input),
        turn.pc.writes D turn.ctx ≠ some (X.cacheKey D) :=
      fun turn hTurn hKey => hWrites ⟨turn, hTurn, hKey⟩
    rw [recordStored_of_ne hNot]
    rcases cache_cases X hMove with hSame | ⟨ctx, f, hProc, hInput, hKey, _⟩
    · exact hTimed.cached X entry (hSame ▸ hEntry)
    · have hExecutes := executes_of_input hInput hProc
      exact absurd (congrArg some hKey) (hNot _ hExecutes)

theorem timed_run (run : (timed D).Reaches (fun _ => Among R) p) : Timed D R p := by
  refine run.invariant (fun p hInit => ?_) fun p q e _ ih hAmong next => ?_
  · obtain ⟨⟨_, hRedis, hIdle⟩, _⟩ := hInit
    refine ⟨fun r ctx pc hProc => ?_, fun r ctx f hProc => ?_, fun r ctx outcome hProc => ?_,
      fun X entry hEntry => ?_⟩
    · cases (hIdle r).symm.trans hProc
    · cases (hIdle r).symm.trans hProc
    · cases (hIdle r).symm.trans hProc
    · rw [hRedis] at hEntry
      cases hEntry
  · obtain ⟨s, h⟩ := p
    rcases recorded_cases next with ⟨dt, rfl, _, rfl⟩ | ⟨r, input, redis, proc, rfl, hMove, rfl⟩
    · exact ⟨ih.known, ih.storing, ih.direct, ih.cached⟩
    · refine ⟨fun w ctx pc hProc => ?_, fun w ctx f hProc => ?_, fun w ctx outcome hProc => ?_,
        fun X entry hEntry => ?_⟩
      · rcases procs_cases hProc with ⟨rfl, rfl⟩ | ⟨_, hOld⟩
        · exact known_timed ih hAmong hMove
        · exact ih.known w ctx pc hOld
      · rcases procs_cases hProc with ⟨rfl, rfl⟩ | ⟨_, hOld⟩
        · exact storing_timed hMove
        · exact ih.storing w ctx f hOld
      · rcases procs_cases hProc with ⟨rfl, rfl⟩ | ⟨_, hOld⟩
        · exact direct_move hMove
        · exact ih.direct w ctx outcome hOld
      · exact cached_timed ih hMove X hEntry

/-- A request is served from the cache only by its own lookup. -/
theorem hit_of_serves {e : Event} {request : Inbound} {c : CachedResponse}
    (next : (timed D).step p e = some q) (hTimed : Timed D R p)
    (hServes : Serves p q request c) :
    ∃ r ctx, p.1.procs r = .running ctx .getCached ∧ ctx.request = request ∧
      p.1.redis.get p.1.now (ctx.cacheKey D) = some (.text c) := by
  obtain ⟨s, h⟩ := p
  obtain ⟨w, hBefore, hAfter⟩ := hServes
  rcases recorded_cases next with ⟨dt, rfl, _, rfl⟩ | ⟨r, input, redis, proc, rfl, hMove, rfl⟩
  · exact absurd hAfter hBefore
  · rcases procs_cases hAfter with ⟨rfl, rfl⟩ | ⟨_, hOld⟩
    · cases hProc : s.procs w with
      | idle =>
          rw [hProc] at hMove
          rcases error_of_arrive hMove with hError | ⟨_, _, hError⟩ <;> cases hError
      | finished =>
          rw [hProc] at hMove
          cases hMove
      | running ctx pc =>
          rw [hProc] at hMove
          obtain ⟨rfl, hFinish⟩ := finish_of_move hMove
          cases hFinish with
          | hit c hGet => exact ⟨w, ctx, hProc, rfl, hGet⟩
          | released => cases hTimed.direct w ctx _ hProc
    · exact absurd hOld hBefore

end Invariant

/-- Of ordered requests each is served no older a response than its TTL allows. -/
theorem withinTtl_of_ttlOrdered {D : Deployment} {R : Set Inbound} (hOrdered : TtlOrdered D R) :
    ServesFresh D R := by
  intro p run e q next request c hServes
  have hTimed := timed_run run
  obtain ⟨r, ctx, hProc, rfl, hGet⟩ := hit_of_serves next hTimed hServes
  obtain ⟨hRequest, hTtl⟩ := hTimed.known r ctx _ hProc
  obtain ⟨entry, hLookup, hText⟩ := Redis.Server.get_eq_some.mp hGet
  obtain ⟨hEntry, hLive⟩ := Redis.Server.lookup_eq_some.mp hLookup
  obtain ⟨t, c', hStored, hValue, y, hy, hKey, a, ha, hPos, hExpires⟩ :=
    hTimed.cached ctx entry hEntry
  obtain rfl : c' = c := Redis.Value.text.inj (hValue.symm.trans hText)
  have hLe : a ≤ ctx.ttl := hOrdered y hy ctx.request hRequest hKey a ctx.ttl ha hTtl hPos
  have hAge : p.1.now < t + a := by simpa [Redis.Entry.live, hExpires] using hLive
  have hCast : (a : ℚ) ≤ (ctx.ttl : ℚ) := Int.cast_le.mpr hLe
  exact ⟨ctx.ttl, t, hTtl, lt_of_lt_of_le hPos hLe, hStored, by linarith⟩

/-! Conversely two requests out of order are one after the other in some run. -/
section Witnessing

variable {D : Deployment} {R : Set Inbound} {now : ℚ} {redis redis' : RedisServer}
  {procs : ℕ → Proc} {h : StoredAt} {r : ℕ} {p : Proc}

/-- A run of these requests gets one of them to this point. -/
abbrev Attains (D : Deployment) (R : Set Inbound) (now : ℚ) (redis : RedisServer)
    (procs : ℕ → Proc) (h : StoredAt) (r : ℕ) (p : Proc) : Prop :=
  (timed D).Reaches (fun _ => Among R) (⟨now, redis, Function.update procs r p⟩, h)

/-- A step of a request that has arrived, other than the SET of `set_cached`. -/
theorem Attains.passOn {ctx : Ctx} {pc : Pc}
    (run : Attains D R now redis procs h r (.running ctx pc)) (input : Input) (p' : Proc)
    (hAmong : Among R (.deliver r input))
    (hReact : D.react now r redis (.running ctx pc) input = some (redis', p'))
    (hPc : ∀ f, pc ≠ .setCached f) : Attains D R now redis' procs h r p' := by
  refine Guided.pass run input p' hAmong hReact ?_
  unfold recordStored
  split
  case h_1 y ctx' f hExecutes =>
    have hProc := (executes_eq_some.mp hExecutes).2
    obtain rfl : y = r := client_of_executes hExecutes
    have hSame := (Function.update_self ..).symm.trans hProc
    exact absurd (Proc.running.inj hSame).2 (hPc f)
  case h_2 => rfl

theorem inviting_timed : Inviting (recordStored D) (fun _ => Among R) R where
  allows p r input hInput := by
    cases input with
    | arrive request => exact hInput
    | _ => trivial
  silent s r input h hInput := by
    cases input with
    | reply => cases hInput
    | raised executed =>
        cases executed with
        | false => rfl
        | true => cases hInput
    | _ => rfl

/-- A request with an effective TTL gets as far as its lookup. -/
theorem attains_getCached {request : Inbound} {ttl : ℤ}
    (run : Attains D R now redis procs h r .idle) (hRequest : request ∈ R)
    (hTtl : D.effectiveTtl request = some ttl) :
    ∃ ctx, ctx.request = request ∧ ctx.ttl = ttl ∧
      Attains D R now redis procs h r (.running ctx .getCached) := by
  obtain ⟨config, endpoint, hConfig, hBuilds, hEndpoint, hSync, rfl⟩ := effectiveTtl_eq_some.mp hTtl
  obtain ⟨row, hLookup⟩ :=
    guided_getCached inviting_timed run hRequest hConfig hBuilds hEndpoint hSync
  exact ⟨⟨request, config, endpoint, row⟩, rfl, rfl, hLookup⟩

theorem Attains.elapse (run : Attains D R now redis procs h r p) {dt : ℚ} (hdt : 0 ≤ dt) :
    Attains D R (now + dt) redis procs h r p := by
  have hAmong : Among R (.elapse dt) := trivial
  refine .step run hAmong ?_
  simp only [timed, System.withHistory, Deployment.machine, if_pos hdt]
  rfl

/-- On an empty Redis its answer gets stored. -/
theorem attains_setResult {ctx : Ctx}
    (run : Attains D R now Redis.Server.empty procs h r (.running ctx .getCached))
    (hTtl : 0 < ctx.ttl) :
    ∃ redis f, redis.entries (ctx.cacheKey D) =
        some ⟨.text f.cached, some (now + ctx.ttl), r⟩ ∧
      Attains D R now redis procs (Function.update h (ctx.cacheKey D) (some (now, f.cached))) r
        (.running ctx (.setResult f)) := by
  have hMissed : Attains D R now Redis.Server.empty procs h r (.running ctx .acquireLock) :=
    run.passOn .reply _ trivial rfl (by simp)
  obtain ⟨redis, hCalling⟩ : ∃ redis, Attains D R now redis procs h r (.running ctx .callVendor) :=
    ⟨Redis.Server.empty.set (ctx.dedupKey D) (.int 1) (some (now + lockTtlSeconds)) r,
      hMissed.passOn .reply _ trivial rfl (by simp)⟩
  have hStoring : Attains D R now redis procs h r
      (.running ctx (.setCached ⟨⟨200, [], []⟩, now⟩)) := by
    refine hCalling.passOn (.vendor (.response ⟨200, [], []⟩)) _ trivial ?_ (by simp)
    simp [Deployment.react, afterCallVendor, success, storable, hTtl, Fetched.cached]
  refine ⟨redis.set (ctx.cacheKey D) (.text (Fetched.cached ⟨⟨200, [], []⟩, now⟩))
    (some (now + ctx.ttl)) r, ⟨⟨200, [], []⟩, now⟩, Redis.Server.set_entries_self .., ?_⟩
  have hStored := Guided.react hStoring .reply (.running ctx (.setResult ⟨⟨200, [], []⟩, now⟩))
    trivial rfl
  simp only [recordStored, State.executes, State.turn, Function.update_self] at hStored
  exact hStored

end Witnessing

/-- If a request could be served what one with a longer TTL has stored, some run
serves it a response that is too old. -/
theorem ttlOrdered_of_servesFresh {D : Deployment} {R : Set Inbound} (hFresh : ServesFresh D R) :
    TtlOrdered D R := by
  intro x hx y hy hKey a b ha hb hPos
  by_contra hLess
  have hStart : Attains D R 0 Redis.Server.empty (fun _ => .idle) (fun _ => none) 0 .idle := by
    refine .init ⟨⟨le_rfl, rfl, fun r => ?_⟩, rfl⟩
    simp [Function.update_apply]
  obtain ⟨ctx, rfl, rfl, hLookup⟩ := attains_getCached hStart hx ha
  obtain ⟨redis, f, hEntry, hStored⟩ := attains_setResult hLookup hPos
  -- an age between the two TTLs
  have hTtl : max (b : ℚ) 0 < ctx.ttl :=
    max_lt (Int.cast_lt.mpr (not_le.mp hLess)) (Int.cast_pos.mpr hPos)
  obtain ⟨age, hOld, hLive⟩ := exists_between hTtl
  have hLater := Guided.other (hStored.elapse (max_lt_iff.mp hOld).2.le) Nat.one_ne_zero
  obtain ⟨ctx', rfl, rfl, hReading⟩ := attains_getCached hLater hy hb
  have hSame : ctx'.cacheKey D = ctx.cacheKey D := hKey.symm
  have hGet : redis.get (0 + age) (ctx'.cacheKey D) = some (.text f.cached) := by
    rw [hSame]
    refine Redis.Server.get_eq_some.mpr ⟨_, Redis.Server.lookup_eq_some.mpr ⟨hEntry, ?_⟩, rfl⟩
    simpa [Redis.Entry.live] using hLive
  have hReply : D.react (0 + age) 1 redis (.running ctx' .getCached) .reply =
      some (redis, .finished ctx'.request (.fromCache f.cached)) := by
    simp only [Deployment.react, Deployment.reply, hGet, afterGetCached]
  have hServes := hFresh _ hReading _ _ (guided_step_of_react hReply) ctx'.request f.cached
    ⟨1, by simp, by simp⟩
  obtain ⟨ttl, t, ht, _, hStoredAt, hAge⟩ := hServes
  obtain rfl : ttl = ctx'.ttl := Option.some.inj (ht.symm.trans hb)
  have hLast : Function.update (fun _ => none) (ctx.cacheKey D) (some ((0 : ℚ), f.cached))
      (ctx'.cacheKey D) = some (t, f.cached) := hStoredAt
  rw [hSame, Function.update_self] at hLast
  obtain rfl : 0 = t := congrArg Prod.fst (Option.some.inj hLast)
  have hNot := (max_lt_iff.mp hOld).1
  change 0 + age - 0 ≤ _ at hAge
  linarith

/-- The responses served from the cache are fresh in every run of these
requests if and only if their TTLs are ordered. -/
theorem served_fresh_iff (D : Deployment) (R : Set Inbound) :
    ServesFresh D R ↔ TtlOrdered D R :=
  ⟨ttlOrdered_of_servesFresh, withinTtl_of_ttlOrdered⟩

section Traces

/-- The vendor's TTL is a minute; responses of GET `p` are not to be cached. -/
def uncachedDeployment : Deployment :=
  { sampleDeployment 60 with
    endpoints := [⟨zeroUuid, zeroUuid, "p", "GET", some 0, false, 30⟩] }

/-- The spelling with a slash is not the endpoint's path, but has its key. -/
def spellings : Set Inbound := {sampleRequest .get "p/", sampleRequest .get "p"}

theorem served_stale :
    (∀ x ∈ spellings, x.method = .get) ∧ ¬ServesFresh uncachedDeployment spellings := by
  refine ⟨fun x hx => ?_, fun hFresh => ?_⟩
  · rcases hx with rfl | rfl <;> rfl
  · have hOrdered := ttlOrdered_of_servesFresh hFresh
    have hKey : (sampleRequest .get "p/").cacheKey uncachedDeployment =
        (sampleRequest .get "p").cacheKey uncachedDeployment := by
      decide +kernel
    have hLong : uncachedDeployment.effectiveTtl (sampleRequest .get "p/") = some 60 := by
      decide +kernel
    have hZero : uncachedDeployment.effectiveTtl (sampleRequest .get "p") = some 0 := by
      decide +kernel
    have hLe := hOrdered _ (Or.inl rfl) _ (Or.inr rfl) hKey 60 0 hLong hZero (by decide)
    exact absurd hLe (by decide)

end Traces

end Gateway.Routes

import Gateway.Cache.Fingerprint
import Gateway.Runs.Freshness
import Gateway.Runs.Sources

/-! Request headers are forwarded to the vendor and take no part in the keys, so
a response that depends on them is served to any request with the same key. -/
namespace Gateway.Routes

open Transition Http Text Gateway.Cache Gateway.Db Gateway.Vendors

/-- The names in the Vary lines of a response. -/
def varyNames (headers : Lines) : List String :=
  (values headers "vary").flatMap fun value =>
    (value.toList.splitOn ',').map fun name =>
      lower (String.ofList (name.filter fun c => !c.isWhitespace))

/-- The response to the first request depends on a forwarded header in which the
second differs: a part that was asked for with Range, or a name in Vary. -/
def Depends (x y : Inbound) (v : VendorResponse) : Prop :=
  (v.statusCode = 206 ∧ "range" ∈ x.forwardHeaders.keys ∧
      x.forwardHeaders.get? "range" ≠ y.forwardHeaders.get? "range") ∨
    ∃ name, (name ∈ varyNames v.headers ∨ "*" ∈ varyNames v.headers) ∧
      x.forwardHeaders.get? name ≠ y.forwardHeaders.get? name

/-- Equal in everything but the headers and the user. -/
structure SameButHeaders (x y : Inbound) : Prop where
  method : x.method = y.method
  vendorSlug : x.vendorSlug = y.vendorSlug
  endpointPath : x.endpointPath = y.endpointPath
  params : x.params.items.Perm y.params.items
  body : x.body = y.body

/-- The requests come from this set, and the vendor answers each of them with
one of these responses. -/
def Offering (A : Inbound → Set VendorResponse) (R : Set Inbound) (s : State) : Event → Prop
  | .deliver _ (.arrive request) => request ∈ R
  | .deliver r (.vendor (.response v)) => ∀ turn ∈ s.turn r, v ∈ A turn.ctx.request
  | _ => True

/-- In every run, what a request is served from the cache or from another request
does not depend on a header in which that request differs from it. -/
def RespectsHeaders (D : Deployment) (R : Set Inbound) (A : Inbound → Set VendorResponse) : Prop :=
  ∀ s h, (delivering D).Reaches (fun p => Offering A R p.1) (s, h) →
    ∀ w request outcome c x supplier f, s.procs w = .finished request outcome →
      outcome.shared = some c → h.supplier w = some x →
      (s.procs x).request? = some supplier → h.answer x = some f →
      SameButHeaders supplier request → ¬Depends supplier request f.response

/-- No two of the requests that get as far as the cache differ in a header on
which a 2xx answer to one of them depends. -/
def Independent (D : Deployment) (R : Set Inbound) (A : Inbound → Set VendorResponse) : Prop :=
  ∀ x ∈ R, ∀ y ∈ R, SameButHeaders x y → (D.effectiveTtl x).isSome = true →
    ∀ v ∈ A x, success v.statusCode = true → ¬Depends x y v

/-- The requests are of the set, and each answer is one to a request that gets as
far as the cache. -/
structure Grounded (D : Deployment) (R : Set Inbound) (A : Inbound → Set VendorResponse)
    (s : State) (h : Deliveries) : Prop where
  known : ∀ r ctx pc, s.procs r = .running ctx pc → ctx.request ∈ R ∧ Resolved D ctx pc
  requested : ∀ r request outcome, s.procs r = .finished request outcome → request ∈ R
  answered : ∀ x f, h.answer x = some f → ∃ request, (s.procs x).request? = some request ∧
    request ∈ R ∧ (D.effectiveTtl request).isSome = true ∧ f.response ∈ A request ∧
      success f.response.statusCode = true

section Law

variable {D : Deployment} {R : Set Inbound} {A : Inbound → Set VendorResponse} {s : State}
  {h : Deliveries} {r : ℕ} {input : Input} {redis : RedisServer} {proc : Proc}

theorem arrives_of_offering (hOffering : Offering A R s (.deliver r input)) :
    ∀ request, input = .arrive request → request ∈ R := by
  rintro request rfl
  exact hOffering

theorem requested_grounded (hGrounded : Grounded D R A s h)
    (hOffering : Offering A R s (.deliver r input))
    (hMove : Move D s.now r s.redis (s.procs r) input redis proc) {request : Inbound}
    {outcome : Outcome} (hProc : proc = .finished request outcome) : request ∈ R := by
  have hRequest : proc.request? = some request := by
    rw [hProc]
    rfl
  cases hBefore : s.procs r with
  | idle =>
      rw [hBefore] at hMove
      cases hMove with
      | arrive request' =>
          rw [request_start] at hRequest
          obtain rfl := Option.some.inj hRequest
          exact hOffering
  | running ctx pc =>
      have hSame := request_of_move hMove (show (s.procs r).request? = some ctx.request by
        rw [hBefore]
        rfl)
      obtain rfl := Option.some.inj (hSame.symm.trans hRequest)
      exact (hGrounded.known r ctx pc hBefore).1
  | finished request' outcome' =>
      rw [hBefore] at hMove
      cases hMove

theorem answered_grounded (hGrounded : Grounded D R A s h)
    (hOffering : Offering A R s (.deliver r input))
    (hMove : Move D s.now r s.redis (s.procs r) input redis proc) {x : ℕ} {f : Fetched}
    (hAnswer : (recordDeliveries D s (.deliver r input) h).answer x = some f) :
    ∃ request, (s.procs x).request? = some request ∧ request ∈ R ∧
      (D.effectiveTtl request).isSome = true ∧ f.response ∈ A request ∧
        success f.response.statusCode = true := by
  simp only [recordDeliveries] at hAnswer
  split at hAnswer
  case h_1 r' v hEvent =>
    obtain ⟨rfl, rfl⟩ := Event.deliver.inj hEvent
    split_ifs at hAnswer with hNew
    · obtain ⟨rfl, hSuccess⟩ := hNew
      obtain rfl := Option.some.inj hAnswer
      generalize hBefore : s.procs r = before at hMove
      cases hMove with
      | vendor ctx =>
          obtain ⟨hRequest, hTtl⟩ := hGrounded.known r ctx .callVendor hBefore
          have hTtl : D.effectiveTtl ctx.request = some ctx.ttl := hTtl
          refine ⟨ctx.request, rfl, hRequest, by rw [hTtl]; rfl, ?_, hSuccess⟩
          exact hOffering ⟨r, ctx, .callVendor⟩ (turn_eq_some.mpr ⟨rfl, hBefore⟩)
    · exact hGrounded.answered x f hAnswer
  case h_2 => exact hGrounded.answered x f hAnswer

theorem grounded_move (hGrounded : Grounded D R A s h)
    (hOffering : Offering A R s (.deliver r input))
    (hMove : Move D s.now r s.redis (s.procs r) input redis proc) :
    Grounded D R A ⟨s.now, redis, Function.update s.procs r proc⟩
      (recordDeliveries D s (.deliver r input) h) where
  known w ctx pc hProc := by
    rcases procs_cases hProc with ⟨rfl, rfl⟩ | ⟨_, hOld⟩
    · exact known_move_resolved (hGrounded.known w) (arrives_of_offering hOffering) hMove
    · exact hGrounded.known w ctx pc hOld
  requested w request outcome hProc := by
    rcases procs_cases hProc with ⟨rfl, hNew⟩ | ⟨_, hOld⟩
    · exact requested_grounded hGrounded hOffering hMove hNew
    · exact hGrounded.requested w request outcome hOld
  answered x f hAnswer := by
    obtain ⟨request, hRequest, hFacts⟩ := answered_grounded hGrounded hOffering hMove hAnswer
    exact ⟨request, request_update hMove hRequest, hFacts⟩

theorem grounded_run (run : (delivering D).Reaches (fun p => Offering A R p.1) (s, h)) :
    Grounded D R A s h := by
  refine run.invariant (I := fun p => Grounded D R A p.1 p.2) (fun p hInit => ?_)
    fun p q e _ ih hOffering next => ?_
  · obtain ⟨s, h⟩ := p
    obtain ⟨⟨_, _, hIdle⟩, rfl⟩ := hInit
    refine ⟨fun r ctx pc hProc => ?_, fun r request outcome hProc => ?_, fun x f hAnswer => ?_⟩
    · cases (hIdle r).symm.trans hProc
    · cases (hIdle r).symm.trans hProc
    · cases hAnswer
  · obtain ⟨s, h⟩ := p
    rcases recorded_cases next with ⟨dt, rfl, _, rfl⟩ | ⟨r, input, redis, proc, rfl, hMove, rfl⟩
    · exact ⟨ih.known, ih.requested, ih.answered⟩
    · exact grounded_move ih hOffering hMove

theorem respectsHeaders_of_independent (hIndependent : Independent D R A) :
    RespectsHeaders D R A := by
  intro s h run w request outcome c x supplier f hDone hShared hSupplier hRequest hAnswer hSame
  have hGrounded := grounded_run run
  obtain ⟨supplier', hRequest', hMem, hTtl, hOffered, hSuccess⟩ := hGrounded.answered x f hAnswer
  obtain rfl := Option.some.inj (hRequest.symm.trans hRequest')
  exact hIndependent _ hMem request (hGrounded.requested w request outcome hDone) hSame hTtl
    f.response hOffered hSuccess

end Law

/-! Conversely a request waits for another one with its key and is handed the
answer that depends on a header in which they differ. -/
section Witnessing

variable {D : Deployment} {R : Set Inbound} {A : Inbound → Set VendorResponse} {now : ℚ}
  {redis redis' : RedisServer} {procs : ℕ → Proc} {answer : ℕ → Option Fetched} {r : ℕ}
  {p : Proc} {ctx : Ctx} {pc : Pc} {x y : Inbound}

theorem inviting_offering :
    Inviting (recordDeliveries D) (fun p => Offering A R p.1) R where
  allows p r input hInput := by
    cases input with
    | arrive request => exact hInput
    | vendor outcome => cases hInput
    | _ => trivial
  silent s r input h hInput := by
    cases input with
    | reply => cases hInput
    | vendor outcome => cases hInput
    | _ => rfl

/-- A run with these answers so far gets one of the requests to this point. -/
def Offered (D : Deployment) (R : Set Inbound) (A : Inbound → Set VendorResponse)
    (answer : ℕ → Option Fetched) (now : ℚ) (redis : RedisServer) (procs : ℕ → Proc) (r : ℕ)
    (p : Proc) : Prop :=
  ∃ h, h.answer = answer ∧ Guided D .start (recordDeliveries D) (fun p => Offering A R p.1)
    now redis procs h r p

theorem react_of_reply {s s' : RedisServer} {p' : Proc}
    (hReply : D.reply now r ctx s pc = some (s', p')) :
    D.react now r s (.running ctx pc) .reply = some (s', p') := by
  cases pc <;> exact hReply

theorem turn_update : State.turn ⟨now, redis, Function.update procs r (.running ctx pc)⟩ r =
    some ⟨r, ctx, pc⟩ :=
  turn_eq_some.mpr ⟨rfl, Function.update_self ..⟩

theorem Offered.reply (run : Offered D R A answer now redis procs r (.running ctx pc)) {p' : Proc}
    (hReply : D.reply now r ctx redis pc = some (redis', p')) :
    Offered D R A answer now redis' procs r p' := by
  obtain ⟨h, rfl, run⟩ := run
  have hNext := run.react .reply p' trivial (react_of_reply hReply)
  exact ⟨recordDeliveries D _ _ h, rfl, hNext⟩

theorem Offered.miss (run : Offered D R A answer now redis procs r (.running ctx .getCached))
    (hAbsent : redis.get now (ctx.cacheKey D) = none) :
    Offered D R A answer now redis procs r (.running ctx .acquireLock) := by
  refine run.reply ?_
  simp only [Deployment.reply, hAbsent, afterGetCached]

theorem Offered.vendor (run : Offered D R A answer now redis procs r (.running ctx .callVendor))
    {v : VendorResponse} (hOffered : v ∈ A ctx.request) (hSuccess : success v.statusCode = true) :
    ∃ answer', answer' r = some ⟨v, now⟩ ∧ Offered D R A answer' now redis procs r
      (afterCallVendor ctx now (.response v)) := by
  obtain ⟨h, rfl, run⟩ := run
  refine ⟨_, ?_, _, rfl, run.react (.vendor (.response v)) _ ?_ rfl⟩
  · simp [recordDeliveries, hSuccess]
  · intro turn hTurn
    obtain ⟨-, hProc⟩ := turn_eq_some.mp (Option.mem_def.mp hTurn)
    obtain ⟨rfl, -⟩ := Proc.running.inj ((Function.update_self ..).symm.trans hProc)
    exact hOffered

theorem Offered.other (run : Offered D R A answer now redis procs r p) {w : ℕ} (hw : w ≠ r) :
    Offered D R A answer now redis (Function.update procs r p) w (procs w) := by
  obtain ⟨h, hAnswer, run⟩ := run
  exact ⟨h, hAnswer, Guided.other run hw⟩

theorem offered_getCached {request : Inbound} {ttl : ℤ}
    (run : Offered D R A answer now redis procs r .idle) (hRequest : request ∈ R)
    (hTtl : D.effectiveTtl request = some ttl) :
    ∃ ctx, ctx.request = request ∧ Offered D R A answer now redis procs r
      (.running ctx .getCached) := by
  obtain ⟨h, hAnswer, run⟩ := run
  obtain ⟨config, endpoint, hConfig, hBuilds, hEndpoint, hSync, rfl⟩ := effectiveTtl_eq_some.mp hTtl
  obtain ⟨row, hLookup⟩ :=
    guided_getCached inviting_offering run hRequest hConfig hBuilds hEndpoint hSync
  exact ⟨⟨request, config, endpoint, row⟩, rfl, h, hAnswer, hLookup⟩

theorem SameButHeaders.effectiveTtl (h : SameButHeaders x y) :
    D.effectiveTtl x = D.effectiveTtl y := by
  simp only [Deployment.effectiveTtl, Deployment.selectEndpoint, h.vendorSlug, h.endpointPath,
    h.method]

theorem SameButHeaders.dedupKey (h : SameButHeaders x y) : x.dedupKey D = y.dedupKey D := by
  have hData : cacheFingerprint (some x.params) (.bytes x.body) =
      cacheFingerprint (some y.params) (.bytes y.body) :=
    cacheFingerprint_eq_iff.mpr ⟨h.params, h.body⟩
  simp only [Inbound.dedupKey, makeDedupKey]
  rw [dedupFingerprint_eq (by rw [h.vendorSlug, h.endpointPath]) hData]

/-- The answer gets stored as a result, whether it is cached or not. -/
theorem offered_publish (run : Offered D R A answer now redis procs r (.running ctx .callVendor))
    {v : VendorResponse} (hOffered : v ∈ A ctx.request) (hSuccess : success v.statusCode = true) :
    ∃ answer' redis', answer' r = some ⟨v, now⟩ ∧
      redis'.entries (ctx.dedupKey D) = redis.entries (ctx.dedupKey D) ∧
      redis'.entries (resultKey (ctx.dedupKey D)) =
        some ⟨.text (Fetched.cached ⟨v, now⟩), some (now + resultTtlSeconds), r⟩ ∧
      Offered D R A answer' now redis' procs r (.running ctx (.publish ⟨v, now⟩)) := by
  obtain ⟨answer', hAnswer, hFetched⟩ := run.vendor hOffered hSuccess
  have hStoring : ∃ redis', redis'.entries (ctx.dedupKey D) = redis.entries (ctx.dedupKey D) ∧
      Offered D R A answer' now redis' procs r (.running ctx (.setResult ⟨v, now⟩)) := by
    simp only [afterCallVendor, hSuccess, if_true] at hFetched
    split_ifs at hFetched with hStorable
    · exact ⟨_, Redis.Server.set_entries_of_ne _ makeDedupKey_ne_makeCacheKey _ _ _,
        hFetched.reply rfl⟩
    · exact ⟨redis, rfl, hFetched⟩
  obtain ⟨redis₁, hLock, hStoring⟩ := hStoring
  exact ⟨answer', _, hAnswer,
    (Redis.Server.set_entries_of_ne _ makeDedupKey_ne_resultKey _ _ _).trans hLock,
    Redis.Server.set_entries_self .., hStoring.reply rfl⟩

/-- While another request holds the lock and its result is stored, one that has
missed the cache is handed that result. -/
theorem offered_shared (run : Offered D R A answer now redis procs r (.running ctx .acquireLock))
    {lock entry : Redis.Entry ℚ CachedResponse ℕ} {c : CachedResponse}
    (hLock : redis.lookup now (ctx.dedupKey D) = some lock)
    (hEntry : redis.lookup now (resultKey (ctx.dedupKey D)) = some entry)
    (hText : entry.value = .text c) :
    ∃ h redis', h.answer = answer ∧ h.supplier r = some entry.writer ∧
      Guided D .start (recordDeliveries D) (fun p => Offering A R p.1) now redis' procs h r
        (.finished ctx.request (.fromDedup c)) := by
  have hJoined : Offered D R A answer now redis procs r (.running ctx .subscribe) := by
    refine run.reply ?_
    simp only [Deployment.reply, Redis.Server.setNx_of_some hLock]
    rfl
  obtain ⟨h, rfl, hReading⟩ : Offered D R A answer now (redis.subscribe r (ctx.dedupKey D)) procs r
      (.running ctx .getResult) := hJoined.reply rfl
  have hLookup : (redis.subscribe r (ctx.dedupKey D)).lookup now (resultKey (ctx.dedupKey D)) =
      some entry := hEntry
  have hGet : (redis.subscribe r (ctx.dedupKey D)).get now (resultKey (ctx.dedupKey D)) =
      some (.text c) := Redis.Server.get_eq_some.mpr ⟨entry, hEntry, hText⟩
  have hReply : D.reply now r ctx (redis.subscribe r (ctx.dedupKey D)) .getResult =
      some (redis.subscribe r (ctx.dedupKey D), .running ctx (.unsubscribe (.found c))) := by
    simp only [Deployment.reply, hGet, afterGetResult]
  have hFound := hReading.react .reply _ trivial (react_of_reply hReply)
  have hDone := hFound.react .reply (.finished ctx.request (.fromDedup c)) trivial
    (react_of_reply rfl)
  refine ⟨recordDeliveries D _ _ (recordDeliveries D _ _ h), _, rfl, ?_, hDone⟩
  rw [supplier_stays fun turn hOther => ?_]
  · apply supplier_of_turn turn_update
    simp only [State.supplier, State.source, hLookup, Option.map_some]
  · obtain rfl := Option.some.inj (turn_update.symm.trans hOther)
    rfl

theorem independent_of_respectsHeaders (hRespects : RespectsHeaders D R A) :
    Independent D R A := by
  intro x hx y hy hSame hSync v hv hSuccess hDepends
  obtain ⟨ttl, hTtl⟩ := Option.isSome_iff_exists.mp hSync
  have hStart : Offered D R A (fun _ => none) 0 Redis.Server.empty (fun _ => .idle) 0 .idle := by
    refine ⟨.start, rfl, .init ⟨⟨le_rfl, rfl, fun r => ?_⟩, rfl⟩⟩
    simp [Function.update_apply]
  obtain ⟨ctx, rfl, hLookup⟩ := offered_getCached hStart hx hTtl
  have hMissed : Offered D R A (fun _ => none) 0 Redis.Server.empty (fun _ => .idle) 0
      (.running ctx .acquireLock) := hLookup.miss rfl
  have hCalling : Offered D R A (fun _ => none) 0
      (Redis.Server.empty.set (ctx.dedupKey D) (.int 1) (some (0 + lockTtlSeconds)) 0)
      (fun _ => .idle) 0 (.running ctx .callVendor) := hMissed.reply rfl
  -- the second request misses the cache before the answer to the first arrives
  obtain ⟨ctx', rfl, hWaiting⟩ :=
    offered_getCached (hCalling.other Nat.one_ne_zero) hy (hSame.effectiveTtl ▸ hTtl)
  have hAbsent : (Redis.Server.empty.set (ctx.dedupKey D) (.int 1) (some (0 + lockTtlSeconds)) 0 :
      RedisServer).get 0 (ctx'.cacheKey D) = none := by
    have hOther : ctx'.cacheKey D ≠ ctx.dedupKey D := Ne.symm makeDedupKey_ne_makeCacheKey
    rw [Redis.Server.get_eq_none, Redis.Server.lookup_eq_none,
      Redis.Server.set_entries_of_ne _ hOther]
    exact fun e hEntry => nomatch hEntry
  have hContending := hWaiting.miss hAbsent
  have hFetching := hContending.other Nat.zero_ne_one
  rw [Function.update_self] at hFetching
  obtain ⟨answer, redis, hAnswer, hLock, hResult, hStored⟩ := offered_publish hFetching hv hSuccess
  have hJoining := hStored.other Nat.one_ne_zero
  rw [Function.update_self] at hJoining
  have hKey : ctx'.dedupKey D = ctx.dedupKey D := hSame.dedupKey.symm
  rw [← hKey] at hLock hResult
  obtain ⟨h, redis', rfl, hSupplier, run⟩ := offered_shared hJoining
    (Redis.Server.lookup_eq_some.mpr
      ⟨hLock.trans (by rw [hKey]; exact Redis.Server.set_entries_self ..),
        by simp [Redis.Entry.live, lockTtlSeconds]⟩)
    (Redis.Server.lookup_eq_some.mpr
      ⟨hResult, by simp [Redis.Entry.live, resultTtlSeconds]⟩) rfl
  refine hRespects _ h run 1 ctx'.request (.fromDedup (Fetched.cached ⟨v, 0⟩))
    (Fetched.cached ⟨v, 0⟩) 0 ctx.request ⟨v, 0⟩ (by simp) rfl hSupplier ?_ hAnswer hSame hDepends
  simp only [Function.update_of_ne Nat.zero_ne_one, Function.update_self]
  rfl

end Witnessing

/-- Two requests that differ in nothing but their headers have the keys of one:
what either is served is the response to a request with its cache key or its
dedup key. The response respects the headers in every run of these requests if
and only if none of them is answered in dependence on them. -/
theorem headers_respected_iff (D : Deployment) (R : Set Inbound)
    (A : Inbound → Set VendorResponse) :
    (∀ s h, (delivering D).Reaches (fun p => Offering A R p.1) (s, h) →
      ∀ w request outcome c, s.procs w = .finished request outcome → outcome.shared = some c →
        ∃ x, h.supplier w = some x ∧ SuppliedBy s h c x fun supplier =>
          supplier.cacheKey D = request.cacheKey D ∨ supplier.dedupKey D = request.dedupKey D) ∧
    (RespectsHeaders D R A ↔ Independent D R A) :=
  ⟨fun _ _ run w request outcome c hDone hShared =>
      (credited_run run).served w request outcome c hDone hShared,
    independent_of_respectsHeaders, respectsHeaders_of_independent⟩

section Traces

/-- The request for a part of `p`, and the one for all of it. -/
def rangeRequest : Inbound :=
  { sampleRequest .get "p" with
    headers := [("range", "bytes=0-0")]
    headers_lower := by decide }

def partialAnswer : VendorResponse := ⟨206, [("content-range", "bytes 0-0/2")], [120]⟩

def wholeAnswer : VendorResponse := ⟨200, [], [120, 121]⟩

/-- The vendor honours Range. -/
def rangeOffers (request : Inbound) : Set VendorResponse :=
  if "range" ∈ request.forwardHeaders.keys then {partialAnswer} else {wholeAnswer}

theorem part_served_as_whole :
    ¬RespectsHeaders (sampleDeployment 60) {rangeRequest, sampleRequest .get "p"} rangeOffers := by
  intro hRespects
  have hIndependent := independent_of_respectsHeaders hRespects
  have hSame : SameButHeaders rangeRequest (sampleRequest .get "p") := ⟨rfl, rfl, rfl, .refl _, rfl⟩
  have hOffered : partialAnswer ∈ rangeOffers rangeRequest := by
    rw [rangeOffers, if_pos (by decide +kernel)]
    rfl
  refine hIndependent rangeRequest (Or.inl rfl) (sampleRequest .get "p") (Or.inr rfl) hSame ?_
    partialAnswer hOffered rfl (Or.inl ⟨rfl, ?_, ?_⟩)
  · decide +kernel
  · decide +kernel
  · decide +kernel

end Traces

end Gateway.Routes

import Gateway.Runs.Rounds

/-! Where a served response comes from. A fact that holds of every response when
the vendor answers with it holds of whatever is served later from the cache or
from another request, for a request with the same key. -/
namespace Gateway.Routes

open Transition Gateway.Cache Gateway.Vendors

/-- The requests come from this set, and what the vendor answers with is good
for the request that it answers. -/
def Supplied (Good : Inbound → CachedResponse → Prop) (R : Set Inbound) (s : State) : Event → Prop
  | .deliver _ (.arrive request) => request ∈ R
  | .deliver r (.vendor (.response v)) => ∀ turn ∈ s.turn r, success v.statusCode = true →
      Good turn.ctx.request (Fetched.cached ⟨v, s.now⟩)
  | _ => True

instance (Good : Inbound → CachedResponse → Prop) (R : Set Inbound)
    [∀ request c, Decidable (Good request c)] [DecidablePred (· ∈ R)] (s : State) (e : Event) :
    Decidable (Supplied Good R s e) :=
  match e with
  | .elapse _ => isTrue trivial
  | .deliver _ (.arrive request) => inferInstanceAs (Decidable (request ∈ R))
  | .deliver r (.vendor (.response v)) =>
      inferInstanceAs (Decidable (∀ turn ∈ s.turn r, success v.statusCode = true → Good _ _))
  | .deliver _ (.vendor .timeout) | .deliver _ (.vendor .connectError) => isTrue trivial
  | .deliver _ (.vendor .otherError) => isTrue trivial
  | .deliver _ .endpointRow | .deliver _ (.jobStored _) => isTrue trivial
  | .deliver _ (.apiKeyRow _) => isTrue trivial
  | .deliver _ .reply | .deliver _ .wake | .deliver _ (.raised _) => isTrue trivial

/-- The response that a request is about to share. -/
def Pc.fetched : Pc → Option Fetched
  | .setCached f | .setResult f | .publish f => some f
  | _ => none

/-- The response that comes from the cache or from another request. -/
def Outcome.shared : Outcome → Option CachedResponse
  | .fromCache c => some c
  | .fromDedup c => some c
  | _ => none

section Steps

variable {D : Deployment} {now : ℚ} {r : ℕ} {s s' : RedisServer} {p p' : Proc} {input : Input}
  {ctx ctx' : Ctx} {pc pc' : Pc}

/-- What a request shares it has got from the vendor. -/
theorem Flow.fetched (h : Flow now ctx pc input ctx' pc') {f : Fetched}
    (hFetched : pc'.fetched = some f) :
    ctx' = ctx ∧ (pc.fetched = some f ∨ ∃ v, pc = .callVendor ∧ input = .vendor (.response v) ∧
      success v.statusCode = true ∧ f = ⟨v, now⟩) := by
  cases h with
  | storable v hSuccess _ =>
      cases hFetched
      exact ⟨rfl, Or.inr ⟨v, rfl, rfl, hSuccess, rfl⟩⟩
  | notStorable v hSuccess =>
      cases hFetched
      exact ⟨rfl, Or.inr ⟨v, rfl, rfl, hSuccess, rfl⟩⟩
  | cached f' => exact ⟨rfl, Or.inl hFetched⟩
  | shared f' => exact ⟨rfl, Or.inl hFetched⟩
  | _ => cases hFetched

/-- A stored response was stored before, by the same writer, or is what the
moving request shares, under one of its own two keys. -/
theorem text_cases {k : String} {entry : Redis.Entry ℚ CachedResponse ℕ} {c : CachedResponse}
    (h : Move D now r s p input s' p') (hEntry : s'.entries k = some entry)
    (hText : entry.value = .text c) :
    (∃ before, s.entries k = some before ∧ before.value = .text c ∧
        before.writer = entry.writer) ∨
      ∃ ctx pc f, p = .running ctx pc ∧ pc.fetched = some f ∧ c = f.cached ∧ entry.writer = r ∧
        (k = ctx.cacheKey D ∨ k = resultKey (ctx.dedupKey D)) := by
  by_cases hWrites : p.writes D = some k
  · rcases move_server h with rfl | ⟨ctx, pc, p'', rfl, _, hReply⟩
    · exact Or.inl ⟨entry, hEntry, hText, rfl⟩
    · cases pc with
      | setCached f =>
          obtain ⟨hServer, _⟩ := Prod.mk.inj (Option.some.inj hReply)
          have hKey : ctx.cacheKey D = k := Option.some.inj hWrites
          rw [← hServer, ← hKey, Redis.Server.set_entries_self] at hEntry
          cases hEntry
          cases hText
          exact Or.inr ⟨ctx, _, f, rfl, rfl, rfl, rfl, Or.inl hKey.symm⟩
      | setResult f =>
          obtain ⟨hServer, _⟩ := Prod.mk.inj (Option.some.inj hReply)
          have hKey : resultKey (ctx.dedupKey D) = k := Option.some.inj hWrites
          rw [← hServer, ← hKey, Redis.Server.set_entries_self] at hEntry
          cases hEntry
          cases hText
          exact Or.inr ⟨ctx, _, f, rfl, rfl, rfl, rfl, Or.inr hKey.symm⟩
      | acquireLock =>
          obtain ⟨hServer, _⟩ := Prod.mk.inj (Option.some.inj hReply)
          have hKey : ctx.dedupKey D = k := Option.some.inj hWrites
          simp only [Redis.Server.setNx] at hServer
          split at hServer
          · cases hServer
            exact Or.inl ⟨entry, hEntry, hText, rfl⟩
          · rw [← hServer, ← hKey, Redis.Server.set_entries_self] at hEntry
            cases hEntry
            cases hText
      | releaseLock outcome =>
          obtain ⟨hServer, _⟩ := Prod.mk.inj (Option.some.inj hReply)
          have hKey : ctx.dedupKey D = k := Option.some.inj hWrites
          rw [← hServer, ← hKey, Redis.Server.del_entries_self] at hEntry
          cases hEntry
      | incrQuota f counter =>
          have hKey : counter.key = k := Option.some.inj hWrites
          rcases reply_incrQuota hReply with ⟨n, hIncr, -⟩ | ⟨-, rfl, -⟩
          · rcases Redis.Server.incr_cases hIncr with ⟨_, _, hSet⟩ | ⟨_, _, _, _, _, hSet⟩ <;>
            · rw [hSet, ← hKey, Redis.Server.set_entries_self] at hEntry
              cases hEntry
              cases hText
          · exact Or.inl ⟨entry, hEntry, hText, rfl⟩
      | expireQuota f counter ttl =>
          obtain ⟨hServer, _⟩ := Prod.mk.inj (Option.some.inj hReply)
          have hKey : counter.key = k := Option.some.inj hWrites
          rw [← hServer, ← hKey, Redis.Server.expire_entries_self] at hEntry
          obtain ⟨before, hBefore, rfl⟩ := Option.map_eq_some_iff.mp hEntry
          exact Or.inl ⟨before, hKey ▸ hBefore, hText, rfl⟩
      | _ => cases hWrites
  · exact Or.inl ⟨entry, move_entries_of_ne h hWrites ▸ hEntry, hText, rfl⟩

end Steps

/-- The response is good for a request to a known vendor that has this property. -/
def Origin (D : Deployment) (Good : Inbound → CachedResponse → Prop) (R : Set Inbound)
    (c : CachedResponse) (same : Inbound → Prop) : Prop :=
  ∃ x ∈ R, (D.registry x.vendorSlug).isSome = true ∧ Good x c ∧ same x

/-- Every response in Redis, on a connection or in the hands of a request is
good for a request with the same key. -/
structure Traceable (D : Deployment) (Good : Inbound → CachedResponse → Prop) (R : Set Inbound)
    (s : State) : Prop where
  known : ∀ r ctx pc, s.procs r = .running ctx pc →
    ctx.request ∈ R ∧ D.registry ctx.request.vendorSlug = some ctx.config
  fetched : ∀ r ctx pc f, s.procs r = .running ctx pc → pc.fetched = some f →
    Good ctx.request f.cached
  stored : ∀ k entry c, s.redis.entries k = some entry → entry.value = .text c →
    Origin D Good R c fun x => k = x.cacheKey D ∨ k = resultKey (x.dedupKey D)
  idle : ∀ w, s.procs w = .idle → s.redis.subscriptions w = none
  channel : ∀ w sub ctx pc, s.redis.subscriptions w = some sub → s.procs w = .running ctx pc →
    sub.channel = ctx.dedupKey D
  unread : ∀ w c y ctx pc, s.redis.Unread w (.message c y) → s.procs w = .running ctx pc →
    Origin D Good R c fun x => x.dedupKey D = ctx.dedupKey D
  found : ∀ w ctx c, s.procs w = .running ctx (.unsubscribe (.found c)) →
    Origin D Good R c fun x => x.dedupKey D = ctx.dedupKey D
  direct : ∀ w ctx outcome, s.procs w = .running ctx (.releaseLock outcome) →
    outcome.shared = none
  served : ∀ w request outcome c, s.procs w = .finished request outcome →
    outcome.shared = some c → request ∈ R ∧ (D.registry request.vendorSlug).isSome = true ∧
      Origin D Good R c fun x =>
        x.cacheKey D = request.cacheKey D ∨ x.dedupKey D = request.dedupKey D

section Trace

variable {D : Deployment} {Good : Inbound → CachedResponse → Prop} {R : Set Inbound} {s : State}
  {r : ℕ} {input : Input} {redis : RedisServer} {proc : Proc} {ctx : Ctx} {pc : Pc}

theorem known_move (hTrace : Traceable D Good R s)
    (hSupplied : Supplied Good R s (.deliver r input))
    (hMove : Move D s.now r s.redis (s.procs r) input redis (.running ctx pc)) :
    ctx.request ∈ R ∧ D.registry ctx.request.vendorSlug = some ctx.config := by
  rcases start_cases hMove with ⟨_, rfl, _, hConfig, _⟩ | ⟨ctx₀, pc₀, hBefore, hFlow⟩
  · exact ⟨hSupplied, hConfig⟩
  · have hKnown := hTrace.known r ctx₀ pc₀ hBefore
    rw [hFlow.same.1, hFlow.same.2]
    exact hKnown

theorem fetched_move (hTrace : Traceable D Good R s)
    (hSupplied : Supplied Good R s (.deliver r input))
    (hMove : Move D s.now r s.redis (s.procs r) input redis (.running ctx pc)) {f : Fetched}
    (hFetched : pc.fetched = some f) : Good ctx.request f.cached := by
  rcases start_cases hMove with ⟨_, _, _, _, rfl⟩ | ⟨ctx₀, pc₀, hBefore, hFlow⟩
  · cases hFetched
  · rcases hFlow.fetched hFetched with ⟨rfl, hOld | ⟨v, rfl, rfl, hSuccess, rfl⟩⟩
    · exact hTrace.fetched r ctx pc₀ f hBefore hOld
    · exact hSupplied ⟨r, ctx, .callVendor⟩ (turn_eq_some.mpr ⟨rfl, hBefore⟩) hSuccess

/-- What a request is about to share is good for itself. -/
theorem origin_of_fetched (hTrace : Traceable D Good R s) {f : Fetched}
    {same : Inbound → Prop} (hProc : s.procs r = .running ctx pc) (hFetched : pc.fetched = some f)
    (hSame : same ctx.request) : Origin D Good R f.cached same := by
  have hKnown := hTrace.known r ctx pc hProc
  exact ⟨ctx.request, hKnown.1, by rw [hKnown.2]; rfl, hTrace.fetched r ctx pc f hProc hFetched,
    hSame⟩

theorem stored_move (hTrace : Traceable D Good R s)
    (hMove : Move D s.now r s.redis (s.procs r) input redis proc) {k : String}
    {entry : Redis.Entry ℚ CachedResponse ℕ} {c : CachedResponse}
    (hEntry : redis.entries k = some entry) (hText : entry.value = .text c) :
    Origin D Good R c fun x => k = x.cacheKey D ∨ k = resultKey (x.dedupKey D) := by
  rcases text_cases hMove hEntry hText with ⟨before, hBefore, hOld, _⟩ |
    ⟨ctx, pc, f, hProc, hFetched, rfl, _, hKey⟩
  · exact hTrace.stored k before c hBefore hOld
  · exact origin_of_fetched hTrace hProc hFetched hKey

/-- A running request was idle before, or running with the same keys. -/
theorem before_running (hMove : Move D s.now r s.redis (s.procs r) input redis proc) {w : ℕ}
    (hProc : Function.update s.procs r proc w = .running ctx pc) :
    s.procs w = .idle ∨ ∃ ctx₀ pc₀, s.procs w = .running ctx₀ pc₀ ∧ ctx₀.request = ctx.request := by
  rcases procs_cases hProc with ⟨rfl, rfl⟩ | ⟨_, hOld⟩
  · rcases start_cases hMove with ⟨hIdle, _⟩ | ⟨ctx₀, pc₀, hBefore, hFlow⟩
    · exact Or.inl hIdle
    · exact Or.inr ⟨ctx₀, pc₀, hBefore, hFlow.same.1.symm⟩
  · exact Or.inr ⟨ctx, pc, hOld, rfl⟩

theorem channel_move (hTrace : Traceable D Good R s)
    (hMove : Move D s.now r s.redis (s.procs r) input redis proc) {w : ℕ}
    {sub : Redis.Subscription String CachedResponse ℕ} (hSub : redis.subscriptions w = some sub)
    (hProc : Function.update s.procs r proc w = .running ctx pc) :
    sub.channel = ctx.dedupKey D := by
  rcases before_running hMove hProc with hIdle | ⟨ctx₀, pc₀, hBefore, hRequest⟩
  · rcases channel_of_move hMove hSub with ⟨before, hOld, _⟩ | ⟨rfl, ctx', hSubscribe, _⟩
    · rw [hTrace.idle w hIdle] at hOld
      cases hOld
    · rw [hIdle] at hSubscribe
      cases hSubscribe
  · have hKey : ctx₀.dedupKey D = ctx.dedupKey D := congrArg (Inbound.dedupKey D) hRequest
    rcases channel_of_move hMove hSub with ⟨before, hOld, hChannel⟩ | ⟨rfl, ctx', hSubscribe, hNew⟩
    · rw [← hChannel, hTrace.channel w before ctx₀ pc₀ hOld hBefore, hKey]
    · rw [hBefore] at hSubscribe
      cases hSubscribe
      exact hNew.trans hKey

theorem unread_move (hTrace : Traceable D Good R s)
    (hMove : Move D s.now r s.redis (s.procs r) input redis proc) {w y : ℕ} {c : CachedResponse}
    (hUnread : redis.Unread w (.message c y))
    (hProc : Function.update s.procs r proc w = .running ctx pc) :
    Origin D Good R c fun x => x.dedupKey D = ctx.dedupKey D := by
  rcases unread_of_move hMove hUnread with hOld | ⟨ctx', f, hPublish, rfl, _, _, sub, hSub, hChannel⟩
  · rcases before_running hMove hProc with hIdle | ⟨ctx₀, pc₀, hBefore, hRequest⟩
    · have ⟨sub, hSub, _⟩ := hOld
      rw [hTrace.idle w hIdle] at hSub
      cases hSub
    · have hKey : ctx₀.dedupKey D = ctx.dedupKey D := congrArg (Inbound.dedupKey D) hRequest
      rw [← hKey]
      exact hTrace.unread w c y ctx₀ pc₀ hOld hBefore
  · rcases before_running hMove hProc with hIdle | ⟨ctx₀, pc₀, hBefore, hRequest⟩
    · rw [hTrace.idle w hIdle] at hSub
      cases hSub
    · have hKey : ctx₀.dedupKey D = ctx.dedupKey D := congrArg (Inbound.dedupKey D) hRequest
      refine origin_of_fetched hTrace hPublish rfl ?_
      rw [← hKey, ← hTrace.channel w sub ctx₀ pc₀ hSub hBefore, hChannel]

theorem found_move (hTrace : Traceable D Good R s)
    {c : CachedResponse}
    (hMove : Move D s.now r s.redis (s.procs r) input redis
      (.running ctx (.unsubscribe (.found c)))) :
    Origin D Good R c fun x => x.dedupKey D = ctx.dedupKey D := by
  obtain ⟨_, pc, y, hBefore, _, hSource⟩ := found_cases hMove
  rcases hSource with ⟨_, entry, hLookup, hText, _⟩ | ⟨_, hUnread⟩
  · have hEntry := (Redis.Server.lookup_eq_some.mp hLookup).1
    obtain ⟨x, hMem, hVendor, hGood, hKey⟩ := hTrace.stored _ entry c hEntry hText
    refine ⟨x, hMem, hVendor, hGood, ?_⟩
    rcases hKey with hCache | hResult
    · exact absurd hCache resultKey_ne_makeCacheKey
    · exact (resultKey_injective hResult).symm
  · exact hTrace.unread r c y ctx pc hUnread hBefore

theorem direct_move {outcome : Outcome}
    (hMove : Move D s.now r s.redis (s.procs r) input redis
      (.running ctx (.releaseLock outcome))) : outcome.shared = none := by
  rcases start_cases hMove with ⟨_, _, _, _, hPc⟩ | ⟨ctx₀, pc₀, hBefore, hFlow⟩
  · cases hPc
  · cases hFlow <;> rfl

/-- A request is served a response that it finds in the cache or has found while
it waited; what it is relayed is not shared. -/
theorem served_cases {request : Inbound} {outcome : Outcome} {c : CachedResponse}
    (hMove : Move D s.now r s.redis (s.procs r) input redis (.finished request outcome))
    (hShared : outcome.shared = some c)
    (hDirect : ∀ ctx, s.procs r = .running ctx (.releaseLock outcome) → outcome.shared = none) :
    input = .reply ∧ ∃ ctx, ctx.request = request ∧
      ((s.procs r = .running ctx .getCached ∧ ∃ entry,
          s.redis.lookup s.now (ctx.cacheKey D) = some entry ∧ entry.value = .text c) ∨
        s.procs r = .running ctx (.unsubscribe (.found c))) := by
  cases hBefore : s.procs r with
  | idle =>
      rw [hBefore] at hMove
      rcases error_of_arrive hMove with rfl | ⟨_, _, rfl⟩ <;> cases hShared
  | finished request' outcome' =>
      rw [hBefore] at hMove
      cases hMove
  | running ctx pc =>
      rw [hBefore] at hMove
      obtain ⟨rfl, hFinish⟩ := finish_of_move hMove
      cases hFinish with
      | hit c' hGet =>
          obtain rfl : c' = c := Option.some.inj hShared
          exact ⟨rfl, ctx, rfl, Or.inl ⟨rfl, Redis.Server.get_eq_some.mp hGet⟩⟩
      | deduplicated c' =>
          obtain rfl : c' = c := Option.some.inj hShared
          exact ⟨rfl, ctx, rfl, Or.inr rfl⟩
      | released =>
          rw [hDirect ctx hBefore] at hShared
          cases hShared
      | _ => cases hShared

theorem served_move (hTrace : Traceable D Good R s) {request : Inbound} {outcome : Outcome}
    {c : CachedResponse}
    (hMove : Move D s.now r s.redis (s.procs r) input redis (.finished request outcome))
    (hShared : outcome.shared = some c) :
    request ∈ R ∧ (D.registry request.vendorSlug).isSome = true ∧ Origin D Good R c fun x =>
      x.cacheKey D = request.cacheKey D ∨ x.dedupKey D = request.dedupKey D := by
  have hDirect (ctx : Ctx) := hTrace.direct r ctx outcome
  obtain ⟨_, ctx, rfl, hSource⟩ := served_cases hMove hShared hDirect
  have hKnown : ctx.request ∈ R ∧ D.registry ctx.request.vendorSlug = some ctx.config := by
    rcases hSource with ⟨hBefore, _⟩ | hBefore <;> exact hTrace.known r ctx _ hBefore
  refine ⟨hKnown.1, by rw [hKnown.2]; rfl, ?_⟩
  rcases hSource with ⟨_, entry, hLookup, hText⟩ | hBefore
  · have hEntry := (Redis.Server.lookup_eq_some.mp hLookup).1
    obtain ⟨x, hMem, hVendor, hGood, hKey⟩ := hTrace.stored _ entry c hEntry hText
    refine ⟨x, hMem, hVendor, hGood, Or.inl ?_⟩
    rcases hKey with hCache | hResult
    · exact hCache.symm
    · exact absurd hResult.symm resultKey_ne_makeCacheKey
  · obtain ⟨x, hMem, hVendor, hGood, hKey⟩ := hTrace.found r ctx c hBefore
    exact ⟨x, hMem, hVendor, hGood, Or.inr hKey⟩

theorem traceable_move (hTrace : Traceable D Good R s)
    (hSupplied : Supplied Good R s (.deliver r input))
    (hMove : Move D s.now r s.redis (s.procs r) input redis proc) :
    Traceable D Good R ⟨s.now, redis, Function.update s.procs r proc⟩ where
  known w ctx pc hProc := by
    rcases procs_cases hProc with ⟨rfl, rfl⟩ | ⟨_, hOld⟩
    · exact known_move hTrace hSupplied hMove
    · exact hTrace.known w ctx pc hOld
  fetched w ctx pc f hProc hFetched := by
    rcases procs_cases hProc with ⟨rfl, rfl⟩ | ⟨_, hOld⟩
    · exact fetched_move hTrace hSupplied hMove hFetched
    · exact hTrace.fetched w ctx pc f hOld hFetched
  stored k entry c hEntry hText := stored_move hTrace hMove hEntry hText
  idle w hIdle := by
    rcases procs_cases hIdle with ⟨rfl, hNew⟩ | ⟨hw, hOld⟩
    · exact absurd hNew (not_idle_of_move hMove)
    · exact subscriptions_none_of_move hMove hw (hTrace.idle w hOld)
  channel w sub ctx pc hSub hProc := channel_move hTrace hMove hSub hProc
  unread w c y ctx pc hUnread hProc := unread_move hTrace hMove hUnread hProc
  found w ctx c hProc := by
    rcases procs_cases hProc with ⟨rfl, rfl⟩ | ⟨_, hOld⟩
    · exact found_move hTrace hMove
    · exact hTrace.found w ctx c hOld
  direct w ctx outcome hProc := by
    rcases procs_cases hProc with ⟨rfl, rfl⟩ | ⟨_, hOld⟩
    · exact direct_move hMove
    · exact hTrace.direct w ctx outcome hOld
  served w request outcome c hProc hShared := by
    rcases procs_cases hProc with ⟨rfl, rfl⟩ | ⟨_, hOld⟩
    · exact served_move hTrace hMove hShared
    · exact hTrace.served w request outcome c hOld hShared

theorem traceable_run (run : D.machine.Reaches (Supplied Good R) s) :
    Traceable D Good R s := by
  induction run with
  | init start =>
      obtain ⟨_, hRedis, hIdle⟩ := start
      refine ⟨fun r ctx pc hProc => ?_, fun r ctx pc f hProc => ?_, fun k entry c hEntry => ?_,
        fun w _ => ?_, fun w sub ctx pc hSub => ?_, fun w c y ctx pc hUnread => ?_,
        fun w ctx c hProc => ?_, fun w ctx outcome hProc => ?_,
        fun w request outcome c hProc => ?_⟩
      · cases (hIdle r).symm.trans hProc
      · cases (hIdle r).symm.trans hProc
      · rw [hRedis] at hEntry
        cases hEntry
      · rw [hRedis]
        rfl
      · rw [hRedis] at hSub
        cases hSub
      · obtain ⟨sub, hSub, _⟩ := hUnread
        rw [hRedis] at hSub
        cases hSub
      · cases (hIdle w).symm.trans hProc
      · cases (hIdle w).symm.trans hProc
      · cases (hIdle w).symm.trans hProc
  | step prior hAllowed next ih =>
      rcases step_cases next with ⟨dt, rfl, _, rfl⟩ | ⟨r, input, redis, proc, rfl, hMove, rfl⟩
      · exact ⟨ih.known, ih.fetched, ih.stored, ih.idle, ih.channel, ih.unread, ih.found,
          ih.direct, ih.served⟩
      · exact traceable_move ih hAllowed hMove

end Trace

end Gateway.Routes

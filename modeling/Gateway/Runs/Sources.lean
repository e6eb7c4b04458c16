import Gateway.Runs.Frame
import Gateway.Runs.Provenance

/-! Which request a served response was fetched by. Redis keeps the writer of
an entry and the publisher of a message; the history keeps the answer that each
request got and whose response it was served. -/
namespace Gateway.Routes

open Transition Gateway.Cache Gateway.Vendors

/-- History: the 2xx answer to each request, and whose response it is served
from the cache or from another request. -/
structure Deliveries where
  answer : ℕ → Option Fetched
  supplier : ℕ → Option ℕ

def Deliveries.start : Deliveries := ⟨fun _ => none, fun _ => none⟩

/-- Whose response a request reads in this step. -/
def State.supplier (D : Deployment) (s : State) (turn : Turn) : Option ℕ :=
  match turn.pc with
  | .getCached => (s.redis.lookup s.now (turn.ctx.cacheKey D)).map Redis.Entry.writer
  | _ => s.source D turn

def recordDeliveries (D : Deployment) (s : State) (e : Event) (h : Deliveries) : Deliveries where
  answer x :=
    match e with
    | .deliver r (.vendor (.response v)) =>
        if r = x ∧ success v.statusCode = true then some ⟨v, s.now⟩ else h.answer x
    | _ => h.answer x
  supplier w :=
    match e with
    | .deliver r .reply =>
        if r = w then ((s.turn w).bind (s.supplier D)).or (h.supplier w) else h.supplier w
    | _ => h.supplier w

def delivering (D : Deployment) : System (State × Deliveries) Event :=
  D.machine.withHistory .start (recordDeliveries D)

/-- Before its vendor call is answered, a request has no answer. -/
def Proc.unanswered : Proc → Bool
  | .idle => true
  | .running _ .callVendor => true
  | .running _ pc => pc.beforeLock
  | .finished _ _ => false

/-- The response is what this request, which has the property, got as its answer. -/
def SuppliedBy (s : State) (h : Deliveries) (c : CachedResponse) (x : ℕ)
    (same : Inbound → Prop) : Prop :=
  ∃ f request, h.answer x = some f ∧ c = f.cached ∧ (s.procs x).request? = some request ∧
    same request

/-- Every response in Redis, on a connection or in the hands of a request is the
answer that its writer, its publisher or the supplier got. -/
structure Credited (D : Deployment) (s : State) (h : Deliveries) : Prop where
  trace : Traceable D (fun _ _ => True) Set.univ s
  unanswered : ∀ r, (s.procs r).unanswered = true → h.answer r = none
  fetched : ∀ r ctx pc f, s.procs r = .running ctx pc → pc.fetched = some f →
    h.answer r = some f
  stored : ∀ k entry c, s.redis.entries k = some entry → entry.value = .text c →
    SuppliedBy s h c entry.writer fun x => k = x.cacheKey D ∨ k = resultKey (x.dedupKey D)
  unread : ∀ w c y ctx pc, s.redis.Unread w (.message c y) → s.procs w = .running ctx pc →
    SuppliedBy s h c y fun x => x.dedupKey D = ctx.dedupKey D
  found : ∀ w ctx c, s.procs w = .running ctx (.unsubscribe (.found c)) →
    ∃ y, h.supplier w = some y ∧ SuppliedBy s h c y fun x => x.dedupKey D = ctx.dedupKey D
  served : ∀ w request outcome c, s.procs w = .finished request outcome →
    outcome.shared = some c → ∃ y, h.supplier w = some y ∧ SuppliedBy s h c y fun x =>
      x.cacheKey D = request.cacheKey D ∨ x.dedupKey D = request.dedupKey D

section Steps

variable {D : Deployment} {s : State} {h : Deliveries} {r w x : ℕ} {input : Input}
  {redis : RedisServer} {proc : Proc} {ctx ctx' : Ctx} {pc pc' : Pc} {now : ℚ} {c : CachedResponse}
  {same : Inbound → Prop}

theorem Flow.unanswered (hFlow : Flow now ctx pc input ctx' pc')
    (h : (Proc.running ctx' pc').unanswered = true) : (Proc.running ctx pc).unanswered = true := by
  cases hFlow with
  | _ => first | rfl | cases h

theorem unanswered_of_move (hMove : Move D s.now r s.redis (s.procs r) input redis proc)
    (h : proc.unanswered = true) : (s.procs r).unanswered = true := by
  cases proc with
  | idle => exact absurd rfl (not_idle_of_move hMove)
  | finished request outcome => cases h
  | running ctx' pc' =>
      rcases start_cases hMove with ⟨hIdle, _⟩ | ⟨ctx, pc, hBefore, hFlow⟩
      · rw [hIdle]
        rfl
      · rw [hBefore]
        exact hFlow.unanswered h

/-- An answer arrives at the vendor call and makes the request an answered one. -/
theorem vendor_move {v : VendorResponse}
    (hMove : Move D s.now r s.redis (s.procs r) (.vendor (.response v)) redis proc) :
    (s.procs r).unanswered = true ∧ proc.unanswered = false := by
  generalize s.procs r = before at hMove
  cases hMove with
  | vendor ctx =>
      refine ⟨rfl, ?_⟩
      simp only [afterCallVendor]
      split_ifs <;> rfl

/-- A step leaves a request's answer alone, unless the request was waiting for it
and it has just come. -/
theorem answer_cases (hMove : Move D s.now r s.redis (s.procs r) input redis proc) (x : ℕ) :
    (recordDeliveries D s (.deliver r input) h).answer x = h.answer x ∨
      x = r ∧ (s.procs r).unanswered = true ∧ proc.unanswered = false := by
  simp only [recordDeliveries]
  split
  case h_1 r' v hEvent =>
    obtain ⟨rfl, rfl⟩ := Event.deliver.inj hEvent
    split_ifs with hNew
    · exact Or.inr ⟨hNew.1.symm, vendor_move hMove⟩
    · exact Or.inl rfl
  case h_2 => exact Or.inl rfl

/-- An answer stays what it is. -/
theorem answer_stays (hCredited : Credited D s h)
    (hMove : Move D s.now r s.redis (s.procs r) input redis proc) {f : Fetched}
    (hAnswer : h.answer x = some f) :
    (recordDeliveries D s (.deliver r input) h).answer x = some f := by
  rcases answer_cases hMove x with hSame | ⟨rfl, hWaiting, -⟩
  · rw [hSame, hAnswer]
  · rw [hCredited.unanswered x hWaiting] at hAnswer
    cases hAnswer

theorem SuppliedBy.move (hSupplied : SuppliedBy s h c x same) (hCredited : Credited D s h)
    (hMove : Move D s.now r s.redis (s.procs r) input redis proc) :
    SuppliedBy ⟨s.now, redis, Function.update s.procs r proc⟩
      (recordDeliveries D s (.deliver r input) h) c x same := by
  obtain ⟨f, request, hAnswer, hCached, hRequest, hSame⟩ := hSupplied
  exact ⟨f, request, answer_stays hCredited hMove hAnswer, hCached,
    request_update hMove hRequest, hSame⟩

theorem unanswered_credited (hCredited : Credited D s h)
    (hMove : Move D s.now r s.redis (s.procs r) input redis proc)
    (hProc : (Function.update s.procs r proc x).unanswered = true) :
    (recordDeliveries D s (.deliver r input) h).answer x = none := by
  have hBefore : h.answer x = none := by
    by_cases hx : x = r
    · subst hx
      rw [Function.update_self] at hProc
      exact hCredited.unanswered x (unanswered_of_move hMove hProc)
    · rw [Function.update_of_ne hx] at hProc
      exact hCredited.unanswered x hProc
  rcases answer_cases hMove x with hSame | ⟨rfl, -, hAnswered⟩
  · rw [hSame, hBefore]
  · rw [Function.update_self, hAnswered] at hProc
    cases hProc

theorem fetched_credited (hCredited : Credited D s h)
    (hMove : Move D s.now r s.redis (s.procs r) input redis (.running ctx pc)) {f : Fetched}
    (hFetched : pc.fetched = some f) :
    (recordDeliveries D s (.deliver r input) h).answer r = some f := by
  rcases start_cases hMove with ⟨_, _, _, _, rfl⟩ | ⟨ctx₀, pc₀, hBefore, hFlow⟩
  · cases hFetched
  · rcases (hFlow.fetched hFetched).2 with hOld | ⟨v, rfl, rfl, hSuccess, rfl⟩
    · exact answer_stays hCredited hMove (hCredited.fetched r ctx₀ pc₀ f hBefore hOld)
    · simp [recordDeliveries, hSuccess]

/-- What a request is about to share is its own answer. -/
theorem supplied_of_fetched (hCredited : Credited D s h) {f : Fetched}
    (hProc : s.procs r = .running ctx pc) (hFetched : pc.fetched = some f)
    (hSame : same ctx.request) : SuppliedBy s h f.cached r same :=
  ⟨f, ctx.request, hCredited.fetched r ctx pc f hProc hFetched, rfl, by rw [hProc]; rfl, hSame⟩

theorem stored_credited (hCredited : Credited D s h)
    (hMove : Move D s.now r s.redis (s.procs r) input redis proc) {k : String}
    {entry : Redis.Entry ℚ CachedResponse ℕ} (hEntry : redis.entries k = some entry)
    (hText : entry.value = .text c) :
    SuppliedBy s h c entry.writer fun x => k = x.cacheKey D ∨ k = resultKey (x.dedupKey D) := by
  rcases text_cases hMove hEntry hText with ⟨before, hBefore, hOld, hWriter⟩ |
    ⟨ctx, pc, f, hProc, hFetched, rfl, hWriter, hKey⟩
  · rw [← hWriter]
    exact hCredited.stored k before c hBefore hOld
  · rw [hWriter]
    exact supplied_of_fetched hCredited hProc hFetched hKey

theorem unread_credited (hCredited : Credited D s h)
    (hMove : Move D s.now r s.redis (s.procs r) input redis proc) {y : ℕ}
    (hUnread : redis.Unread w (.message c y))
    (hProc : Function.update s.procs r proc w = .running ctx pc) :
    SuppliedBy s h c y fun x => x.dedupKey D = ctx.dedupKey D := by
  rcases before_running hMove hProc with hIdle | ⟨ctx₀, pc₀, hBefore, hRequest⟩
  · have hNone := hCredited.trace.idle w hIdle
    rcases unread_of_move hMove hUnread with ⟨sub, hSub, _⟩ | ⟨_, _, _, _, _, _, sub, hSub, _⟩ <;>
    · rw [hNone] at hSub
      cases hSub
  · have hKey : ctx₀.dedupKey D = ctx.dedupKey D := congrArg (Inbound.dedupKey D) hRequest
    rw [← hKey]
    rcases unread_of_move hMove hUnread with hOld | ⟨ctx', f, hPublish, rfl, rfl, _, sub, hSub,
      hChannel⟩
    · exact hCredited.unread w c y ctx₀ pc₀ hOld hBefore
    · apply supplied_of_fetched hCredited hPublish rfl
      rw [← hCredited.trace.channel w sub ctx₀ pc₀ hSub hBefore, hChannel]

theorem supplier_of_turn {turn : Turn} (hTurn : s.turn r = some turn)
    (hRead : s.supplier D turn = some x) :
    (recordDeliveries D s (.deliver r .reply) h).supplier r = some x := by
  simp [recordDeliveries, hTurn, hRead]

/-- Where nothing is read the supplier stays. -/
theorem supplier_stays (hNot : ∀ turn, s.turn w = some turn → s.supplier D turn = none) :
    (recordDeliveries D s (.deliver r input) h).supplier w = h.supplier w := by
  simp only [recordDeliveries]
  split
  · split_ifs
    · have hNone : (s.turn w).bind (s.supplier D) = none := by
        rw [Option.bind_eq_none_iff]
        exact hNot
      rw [hNone, Option.none_or]
    · rfl
  · rfl

theorem supplier_of_ne (hw : w ≠ r) :
    (recordDeliveries D s (.deliver r input) h).supplier w = h.supplier w := by
  simp only [recordDeliveries]
  split
  case h_1 r' hEvent =>
    obtain ⟨rfl, -⟩ := Event.deliver.inj hEvent
    rw [if_neg fun hSame => hw hSame.symm]
  case h_2 => rfl

/-- The history credits what a waiting request takes with it to its writer or publisher. -/
theorem supplier_of_found
    (hMove : Move D s.now r s.redis (s.procs r) input redis
      (.running ctx (.unsubscribe (.found c)))) :
    input = .reply ∧ ∃ pc y, s.procs r = .running ctx pc ∧
      (recordDeliveries D s (.deliver r input) h).supplier r = some y ∧
      ((∃ entry, s.redis.lookup s.now (resultKey (ctx.dedupKey D)) = some entry ∧
          entry.value = .text c ∧ entry.writer = y) ∨ s.redis.Unread r (.message c y)) := by
  obtain ⟨rfl, pc, y, hBefore, hRead, hSource⟩ := found_cases hMove
  have hSupplier : s.supplier D ⟨r, ctx, pc⟩ = some y := by
    rcases hSource with ⟨rfl, _⟩ | ⟨⟨_, rfl⟩, _⟩ <;> exact hRead
  exact ⟨rfl, pc, y, hBefore, supplier_of_turn (turn_eq_some.mpr ⟨rfl, hBefore⟩) hSupplier,
    hSource.imp And.right And.right⟩

theorem found_credited (hCredited : Credited D s h)
    (hMove : Move D s.now r s.redis (s.procs r) input redis
      (.running ctx (.unsubscribe (.found c)))) :
    ∃ y, (recordDeliveries D s (.deliver r input) h).supplier r = some y ∧
      SuppliedBy s h c y fun x => x.dedupKey D = ctx.dedupKey D := by
  obtain ⟨_, pc, y, hBefore, hSupplier, hSource⟩ := supplier_of_found hMove
  refine ⟨y, hSupplier, ?_⟩
  rcases hSource with ⟨entry, hLookup, hText, rfl⟩ | hUnread
  · have hEntry := (Redis.Server.lookup_eq_some.mp hLookup).1
    obtain ⟨f, x, hAnswer, hCached, hRequest, hKey⟩ := hCredited.stored _ entry c hEntry hText
    refine ⟨f, x, hAnswer, hCached, hRequest, ?_⟩
    rcases hKey with hCache | hResult
    · exact absurd hCache resultKey_ne_makeCacheKey
    · exact (resultKey_injective hResult).symm
  · exact hCredited.unread r c y ctx pc hUnread hBefore

/-- The history credits what a request is served to the writer of the cached
response, or to whom it credited what the request had found. -/
theorem supplier_of_served (hCredited : Credited D s h) {request : Inbound} {outcome : Outcome}
    (hMove : Move D s.now r s.redis (s.procs r) input redis (.finished request outcome))
    (hShared : outcome.shared = some c) :
    input = .reply ∧ ∃ ctx, ctx.request = request ∧
      ((∃ entry, s.redis.lookup s.now (ctx.cacheKey D) = some entry ∧ entry.value = .text c ∧
          (recordDeliveries D s (.deliver r input) h).supplier r = some entry.writer) ∨
        s.procs r = .running ctx (.unsubscribe (.found c)) ∧
          (recordDeliveries D s (.deliver r input) h).supplier r = h.supplier r) := by
  have hDirect (ctx : Ctx) := hCredited.trace.direct r ctx outcome
  obtain ⟨rfl, ctx, hRequest, hSource⟩ := served_cases hMove hShared hDirect
  refine ⟨rfl, ctx, hRequest, ?_⟩
  rcases hSource with ⟨hBefore, entry, hLookup, hText⟩ | hBefore
  · have hTurn : s.turn r = some ⟨r, ctx, .getCached⟩ := turn_eq_some.mpr ⟨rfl, hBefore⟩
    refine Or.inl ⟨entry, hLookup, hText, supplier_of_turn hTurn ?_⟩
    simp [State.supplier, hLookup]
  · have hTurn : s.turn r = some ⟨r, ctx, .unsubscribe (.found c)⟩ :=
      turn_eq_some.mpr ⟨rfl, hBefore⟩
    refine Or.inr ⟨hBefore, supplier_stays fun turn hOther => ?_⟩
    obtain rfl := Option.some.inj (hTurn.symm.trans hOther)
    rfl

theorem served_credited (hCredited : Credited D s h) {request : Inbound} {outcome : Outcome}
    (hMove : Move D s.now r s.redis (s.procs r) input redis (.finished request outcome))
    (hShared : outcome.shared = some c) :
    ∃ y, (recordDeliveries D s (.deliver r input) h).supplier r = some y ∧
      SuppliedBy s h c y fun x =>
        x.cacheKey D = request.cacheKey D ∨ x.dedupKey D = request.dedupKey D := by
  obtain ⟨_, ctx, rfl, hSource⟩ := supplier_of_served hCredited hMove hShared
  rcases hSource with ⟨entry, hLookup, hText, hSupplier⟩ | ⟨hBefore, hSame⟩
  · have hEntry := (Redis.Server.lookup_eq_some.mp hLookup).1
    obtain ⟨f, x, hAnswer, hCached, hRequest, hKey⟩ := hCredited.stored _ entry c hEntry hText
    refine ⟨entry.writer, hSupplier, f, x, hAnswer, hCached, hRequest, Or.inl ?_⟩
    rcases hKey with hCache | hResult
    · exact hCache.symm
    · exact absurd hResult.symm resultKey_ne_makeCacheKey
  · obtain ⟨y, hSupplier, f, x, hAnswer, hCached, hRequest, hKey⟩ := hCredited.found r ctx c hBefore
    exact ⟨y, hSame.trans hSupplier, f, x, hAnswer, hCached, hRequest, Or.inr hKey⟩

theorem credited_move (hCredited : Credited D s h)
    (hMove : Move D s.now r s.redis (s.procs r) input redis proc) :
    Credited D ⟨s.now, redis, Function.update s.procs r proc⟩
      (recordDeliveries D s (.deliver r input) h) where
  trace := by
    have hSupplied : Supplied (fun _ _ => True) Set.univ s (.deliver r input) := by
      unfold Supplied
      split
      · exact Set.mem_univ _
      · exact fun _ _ _ => trivial
      · trivial
    exact traceable_move hCredited.trace hSupplied hMove
  unanswered w hProc := unanswered_credited hCredited hMove hProc
  fetched w ctx pc f hProc hFetched := by
    rcases procs_cases hProc with ⟨rfl, rfl⟩ | ⟨_, hOld⟩
    · exact fetched_credited hCredited hMove hFetched
    · exact answer_stays hCredited hMove (hCredited.fetched w ctx pc f hOld hFetched)
  stored k entry c hEntry hText :=
    (stored_credited hCredited hMove hEntry hText).move hCredited hMove
  unread w c y ctx pc hUnread hProc :=
    (unread_credited hCredited hMove hUnread hProc).move hCredited hMove
  found w ctx c hProc := by
    rcases procs_cases hProc with ⟨rfl, rfl⟩ | ⟨hw, hOld⟩
    · obtain ⟨y, hSupplier, hSupplied⟩ := found_credited hCredited hMove
      exact ⟨y, hSupplier, hSupplied.move hCredited hMove⟩
    · obtain ⟨y, hSupplier, hSupplied⟩ := hCredited.found w ctx c hOld
      exact ⟨y, (supplier_of_ne hw).trans hSupplier, hSupplied.move hCredited hMove⟩
  served w request outcome c hProc hShared := by
    rcases procs_cases hProc with ⟨rfl, rfl⟩ | ⟨hw, hOld⟩
    · obtain ⟨y, hSupplier, hSupplied⟩ := served_credited hCredited hMove hShared
      exact ⟨y, hSupplier, hSupplied.move hCredited hMove⟩
    · obtain ⟨y, hSupplier, hSupplied⟩ := hCredited.served w request outcome c hOld hShared
      exact ⟨y, (supplier_of_ne hw).trans hSupplier, hSupplied.move hCredited hMove⟩

theorem credited_init (hInit : D.machine.init s) : Credited D s .start := by
  have hTrace : Traceable D (fun _ _ => True) Set.univ s :=
    traceable_run (System.Reaches.init hInit)
  obtain ⟨_, hRedis, hIdle⟩ := hInit
  refine ⟨hTrace, fun _ _ => rfl, fun r ctx pc f hProc => ?_, fun k entry c hEntry => ?_,
    fun w c y ctx pc hUnread hProc => ?_, fun w ctx c hProc => ?_,
    fun w request outcome c hProc => ?_⟩
  · cases (hIdle r).symm.trans hProc
  · rw [hRedis] at hEntry
    cases hEntry
  · cases (hIdle w).symm.trans hProc
  · cases (hIdle w).symm.trans hProc
  · cases (hIdle w).symm.trans hProc

theorem credited_elapse {dt : ℚ} (hCredited : Credited D s h) :
    Credited D { s with now := s.now + dt } h := by
  have hTrace := hCredited.trace
  exact ⟨⟨hTrace.known, hTrace.fetched, hTrace.stored, hTrace.idle, hTrace.channel, hTrace.unread,
    hTrace.found, hTrace.direct, hTrace.served⟩, hCredited.unanswered, hCredited.fetched,
    hCredited.stored, hCredited.unread, hCredited.found, hCredited.served⟩

theorem credited_run {allowed : State × Deliveries → Event → Prop}
    (run : (delivering D).Reaches allowed (s, h)) : Credited D s h := by
  refine run.invariant (I := fun p => Credited D p.1 p.2) (fun p hInit => ?_)
    fun p q e _ ih _ next => ?_
  · obtain ⟨s, h⟩ := p
    obtain ⟨hStart, rfl⟩ := hInit
    exact credited_init hStart
  · obtain ⟨s, h⟩ := p
    rcases recorded_cases next with ⟨dt, rfl, _, rfl⟩ | ⟨r, input, redis, proc, rfl, hMove, rfl⟩
    · exact credited_elapse ih
    · exact credited_move ih hMove

end Steps

end Gateway.Routes

import Gateway.Runs.Rounds

/-! The store-and-notify pattern of `dedup_publish` and `dedup_wait`: the result
is stored before it is published, and the waiting request subscribes before it
reads. The first poll of a connection only reads the confirmation of its own
subscription. -/
namespace Gateway.Routes

open Transition Gateway.Cache

/-- History of waits: whose lock refused a request, what was stored and
published when, and what a waiting request has done since it was refused. -/
structure Wakeups where
  holder : ℕ → Option ℕ
  storedAt : ℕ → Option ℚ
  shared : List (String × CachedResponse)
  published : ℕ → Bool
  early : ℕ → Bool
  readAt : ℕ → Option ℚ
  polls : ℕ → ℕ
  seen : ℕ → ℕ

def Wakeups.start : Wakeups :=
  ⟨fun _ => none, fun _ => none, [], fun _ => false, fun _ => false, fun _ => none, fun _ => 0,
    fun _ => 0⟩

/-- `early` tells whether a request subscribed before the PUBLISH of the request
that refused it, and `seen` counts its polls before that PUBLISH. -/
def recordWakeups (D : Deployment) (s : State) (e : Event) (h : Wakeups) : Wakeups :=
  match e with
  | .deliver r .reply =>
      match s.procs r with
      | .running ctx .acquireLock =>
          let lock := s.redis.lookup s.now (ctx.dedupKey D)
          { h with
            holder := Function.update h.holder r (lock.map Redis.Entry.writer)
            polls := Function.update h.polls r 0 }
      | .running _ .subscribe =>
          { h with early := Function.update h.early r (!(h.holder r).any h.published) }
      | .running _ .getResult => { h with readAt := Function.update h.readAt r (some s.now) }
      | .running _ (.getMessage _) =>
          { h with polls := Function.update h.polls r (h.polls r + 1) }
      | .running ctx (.setResult f) =>
          { h with
            storedAt := Function.update h.storedAt r ((h.storedAt r).or (some s.now))
            shared := (ctx.dedupKey D, f.cached) :: h.shared }
      | .running _ (.publish _) =>
          { h with
            published := Function.update h.published r true
            seen := fun w => if h.holder w = some r then h.polls w else h.seen w }
      | _ => h
  | _ => h

def wakeups (D : Deployment) : System (State × Wakeups) Event :=
  D.machine.withHistory Wakeups.start (recordWakeups D)

def RedisUp (p : State × Wakeups) (e : Event) : Prop := p.1.redisUp e = true

instance (p : State × Wakeups) (e : Event) : Decidable (RedisUp p e) :=
  inferInstanceAs (Decidable (_ = true))

/-- The request has this dedup key. -/
def State.Requested (D : Deployment) (s : State) (x : ℕ) (k : String) : Prop :=
  ∃ request, (s.procs x).request? = some request ∧ request.dedupKey D = k

section Record

variable {D : Deployment} {s : State} {e : Event} {h : Wakeups} {r w x : ℕ} {input : Input}

/-- The history of a wait is written by the waiting request alone. -/
theorem record_of_ne (D : Deployment) (s : State) (h : Wakeups) (input : Input) (hw : w ≠ r) :
    (recordWakeups D s (.deliver r input) h).holder w = h.holder w ∧
      (recordWakeups D s (.deliver r input) h).early w = h.early w ∧
      (recordWakeups D s (.deliver r input) h).readAt w = h.readAt w ∧
      (recordWakeups D s (.deliver r input) h).polls w = h.polls w := by
  unfold recordWakeups
  split
  case h_1 r' hEvent =>
    obtain ⟨rfl, _⟩ := Event.deliver.inj hEvent
    split <;> simp [Function.update_of_ne hw]
  case h_2 => exact ⟨rfl, rfl, rfl, rfl⟩

theorem shared_mono {post : String × CachedResponse} (hPost : post ∈ h.shared) :
    post ∈ (recordWakeups D s e h).shared := by
  unfold recordWakeups
  split
  · split <;> simp [hPost]
  · exact hPost

theorem storedAt_mono {t : ℚ} (hStored : h.storedAt x = some t) :
    (recordWakeups D s e h).storedAt x = some t := by
  unfold recordWakeups
  split
  case h_1 r =>
    split
    case h_5 =>
      by_cases hx : x = r
      · subst hx
        simp [hStored]
      · simp [hx, hStored]
    all_goals exact hStored
  case h_2 => exact hStored

theorem published_mono (hPublished : h.published x = true) :
    (recordWakeups D s e h).published x = true := by
  unfold recordWakeups
  split
  case h_1 r =>
    split
    case h_6 =>
      by_cases hx : x = r
      · simp [hx]
      · simp [hx, hPublished]
    all_goals exact hPublished
  case h_2 => exact hPublished

theorem storedAt_record {t : ℚ}
    (hStored : (recordWakeups D s (.deliver r input) h).storedAt x = some t) :
    h.storedAt x = some t ∨
      x = r ∧ t = s.now ∧ ∃ ctx f, s.procs r = .running ctx (.setResult f) := by
  unfold recordWakeups at hStored
  split at hStored
  case h_1 r' hEvent =>
    obtain ⟨rfl, _⟩ := Event.deliver.inj hEvent
    split at hStored
    case h_5 ctx f hProc =>
      by_cases hx : x = r
      · subst hx
        simp only [Function.update_self] at hStored
        rcases Option.or_eq_some_iff.mp hStored with hBefore | ⟨_, hNow⟩
        · exact Or.inl hBefore
        · exact Or.inr ⟨rfl, (Option.some.inj hNow).symm, ctx, f, hProc⟩
      · exact Or.inl (by simpa [hx] using hStored)
    all_goals exact Or.inl hStored
  case h_2 => exact Or.inl hStored

/-- Without a PUBLISH nothing is published and nobody's poll counts change. -/
theorem record_of_not_publish (D : Deployment) (h : Wakeups) (input : Input)
    (hNot : ∀ ctx f, s.procs r ≠ .running ctx (.publish f)) :
    (recordWakeups D s (.deliver r input) h).published = h.published ∧
      (recordWakeups D s (.deliver r input) h).seen = h.seen := by
  unfold recordWakeups
  split
  case h_1 r' hEvent =>
    obtain ⟨rfl, _⟩ := Event.deliver.inj hEvent
    split
    case h_6 hProc => exact absurd hProc (hNot _ _)
    all_goals exact ⟨rfl, rfl⟩
  case h_2 => exact ⟨rfl, rfl⟩

theorem record_store {ctx : Ctx} {f : Fetched} (hProc : s.procs r = .running ctx (.setResult f)) :
    recordWakeups D s (.deliver r .reply) h =
      { h with
        storedAt := Function.update h.storedAt r ((h.storedAt r).or (some s.now))
        shared := (ctx.dedupKey D, f.cached) :: h.shared } := by
  simp [recordWakeups, hProc]

theorem record_publish {ctx : Ctx} {f : Fetched} (hProc : s.procs r = .running ctx (.publish f)) :
    recordWakeups D s (.deliver r .reply) h =
      { h with
        published := Function.update h.published r true
        seen := fun w => if h.holder w = some r then h.polls w else h.seen w } := by
  simp [recordWakeups, hProc]

end Record

/-- What Redis and the history agree on while no command fails. -/
structure Posts (D : Deployment) (s : State) (h : Wakeups) : Prop where
  lock : ∀ (X : Ctx) entry, s.redis.entries (X.dedupKey D) = some entry →
    s.Requested D entry.writer (X.dedupKey D)
  result : ∀ (X : Ctx) entry, s.redis.entries (resultKey (X.dedupKey D)) = some entry →
    ∃ c, entry.value = .text c ∧ (X.dedupKey D, c) ∈ h.shared
  past : ∀ x t, h.storedAt x = some t → t ≤ s.now ∧ s.procs x ≠ .idle
  /-- A stored result is there for sixty seconds, if not replaced by a later one. -/
  stored : ∀ x t (X : Ctx), h.storedAt x = some t → s.Requested D x (X.dedupKey D) →
    ∃ entry, s.redis.entries (resultKey (X.dedupKey D)) = some entry ∧
      ∃ expiry, entry.expiresAt = some expiry ∧ t + resultTtlSeconds ≤ expiry
  publishing : ∀ x ctx f, s.procs x = .running ctx (.publish f) →
    (ctx.dedupKey D, f.cached) ∈ h.shared ∧ ∃ t, h.storedAt x = some t
  published : ∀ x, h.published x = true → ∃ t, h.storedAt x = some t

section Posts

variable {D : Deployment} {s : State} {e : Event} {h : Wakeups} {r w x : ℕ} {input : Input}
  {redis : RedisServer} {proc : Proc}

theorem requested_of_move {k : String}
    (hMove : Move D s.now r s.redis (s.procs r) input redis proc) (hRequested : s.Requested D x k) :
    State.Requested D ⟨s.now, redis, Function.update s.procs r proc⟩ x k := by
  obtain ⟨request, hRequest, hKey⟩ := hRequested
  exact ⟨request, request_update hMove hRequest, hKey⟩

/-- A request that had not arrived before the move has only arrived in it. -/
theorem requested_before {k : String}
    (hMove : Move D s.now r s.redis (s.procs r) input redis proc)
    (hRequested : State.Requested D ⟨s.now, redis, Function.update s.procs r proc⟩ x k)
    (hArrived : s.procs x ≠ .idle) : s.Requested D x k := by
  obtain ⟨request, hRequest, hKey⟩ := hRequested
  by_cases hx : x = r
  · subst hx
    simp only [Function.update_self] at hRequest
    cases hBefore : (s.procs x).request? with
    | none =>
        cases hProc : s.procs x with
        | idle => exact absurd hProc hArrived
        | running ctx pc =>
            rw [hProc] at hBefore
            cases hBefore
        | finished request outcome =>
            rw [hProc] at hBefore
            cases hBefore
    | some request' =>
        have hSame := request_of_move hMove hBefore
        rw [hRequest] at hSame
        obtain rfl := Option.some.inj hSame
        exact ⟨request, hBefore, hKey⟩
  · simp only [Function.update_of_ne hx] at hRequest
    exact ⟨request, hRequest, hKey⟩

theorem posts_publishing (hPosts : Posts D s h) (hUp : s.redisUp (.deliver r input) = true)
    (hMove : Move D s.now r s.redis (s.procs r) input redis proc) (x : ℕ) (ctx : Ctx)
    (f : Fetched) (hProc : Function.update s.procs r proc x = .running ctx (.publish f)) :
    (ctx.dedupKey D, f.cached) ∈ (recordWakeups D s (.deliver r input) h).shared ∧
      ∃ t, (recordWakeups D s (.deliver r input) h).storedAt x = some t := by
  by_cases hx : x = r
  · subst hx
    rw [Function.update_self] at hProc
    rw [hProc] at hMove
    rcases start_cases hMove with ⟨_, _, _, _, hPc⟩ | ⟨ctx₀, pc₀, hBefore, hFlow⟩
    · cases hPc
    · cases hFlow with
      | shared =>
        rw [record_store hBefore]
        refine ⟨List.mem_cons_self, ?_⟩
        cases h.storedAt x with
        | none => exact ⟨s.now, by simp⟩
        | some t => exact ⟨t, by simp⟩
  · rw [Function.update_of_ne hx] at hProc
    obtain ⟨hShared, t, hStored⟩ := hPosts.publishing x ctx f hProc
    exact ⟨shared_mono hShared, t, storedAt_mono hStored⟩

theorem posts_stored (hPosts : Posts D s h) (hUp : s.redisUp (.deliver r input) = true)
    (hMove : Move D s.now r s.redis (s.procs r) input redis proc) (x : ℕ) (t : ℚ) (X : Ctx)
    (hStored : (recordWakeups D s (.deliver r input) h).storedAt x = some t)
    (hRequested : State.Requested D ⟨s.now, redis, Function.update s.procs r proc⟩ x
      (X.dedupKey D)) :
    ∃ entry, redis.entries (resultKey (X.dedupKey D)) = some entry ∧
      ∃ expiry, entry.expiresAt = some expiry ∧ t + resultTtlSeconds ≤ expiry := by
  rcases storedAt_record hStored with hBefore | ⟨rfl, rfl, ctx, f, hProc⟩
  · obtain ⟨hPast, hArrived⟩ := hPosts.past x t hBefore
    rcases result_cases X hMove with hSame | ⟨_, _, _, _, _, hSet⟩
    · rw [hSame]
      exact hPosts.stored x t X hBefore (requested_before hMove hRequested hArrived)
    · rw [hSet, Redis.Server.set_entries_self]
      exact ⟨_, rfl, _, rfl, by linarith⟩
  · have hBefore : s.Requested D x (X.dedupKey D) :=
      requested_before hMove hRequested (by rw [hProc]; nofun)
    obtain ⟨request, hRequest, hKey⟩ := hBefore
    rw [hProc] at hRequest
    obtain rfl := Option.some.inj hRequest
    obtain ⟨_, hReply⟩ := reply_of_redisUp hUp hMove hProc rfl
    obtain ⟨rfl, _⟩ := Prod.mk.inj (Option.some.inj hReply)
    rw [← hKey, Redis.Server.set_entries_self]
    exact ⟨_, rfl, _, rfl, le_rfl⟩

theorem posts_move (hPosts : Posts D s h) (hUp : s.redisUp (.deliver r input) = true)
    (hMove : Move D s.now r s.redis (s.procs r) input redis proc) :
    Posts D ⟨s.now, redis, Function.update s.procs r proc⟩
      (recordWakeups D s (.deliver r input) h) where
  lock X entry hEntry := by
    rcases lock_cases X hMove with hSame | ⟨ctx, hProc, _, hKey, _, hNew⟩ |
      ⟨_, _, _, _, _, hGone, _⟩
    · exact requested_of_move hMove (hPosts.lock X entry (hSame ▸ hEntry))
    · simp only [hNew] at hEntry
      obtain rfl := Option.some.inj hEntry
      exact requested_of_move hMove ⟨ctx.request, by rw [hProc]; rfl, hKey⟩
    · simp only [hGone] at hEntry
      cases hEntry
  result X entry hEntry := by
    rcases result_cases X hMove with hSame | ⟨ctx, f, hProc, _, hKey, hSet⟩
    · obtain ⟨c, hText, hShared⟩ := hPosts.result X entry (hSame ▸ hEntry)
      exact ⟨c, hText, shared_mono hShared⟩
    · simp only [hSet, Redis.Server.set_entries_self] at hEntry
      obtain rfl := Option.some.inj hEntry
      obtain ⟨rfl, _⟩ := reply_of_redisUp hUp hMove hProc rfl
      refine ⟨f.cached, rfl, ?_⟩
      rw [record_store hProc, ← hKey]
      exact List.mem_cons_self
  past x t hStored := by
    rcases storedAt_record hStored with hBefore | ⟨rfl, rfl, ctx, f, hProc⟩
    · obtain ⟨hPast, hArrived⟩ := hPosts.past x t hBefore
      refine ⟨hPast, ?_⟩
      by_cases hx : x = r
      · subst hx
        simp only [Function.update_self]
        exact not_idle_of_move hMove
      · simp only [Function.update_of_ne hx]
        exact hArrived
    · simp only [Function.update_self]
      exact ⟨le_rfl, not_idle_of_move hMove⟩
  stored := posts_stored hPosts hUp hMove
  publishing := posts_publishing hPosts hUp hMove
  published x hPublished := by
    by_cases hPublish : ∃ ctx f, s.procs r = .running ctx (.publish f)
    · obtain ⟨ctx, f, hProc⟩ := hPublish
      obtain ⟨rfl, _⟩ := reply_of_redisUp hUp hMove hProc rfl
      by_cases hx : x = r
      · obtain ⟨_, t, hStored⟩ := hPosts.publishing r ctx f hProc
        refine ⟨t, ?_⟩
        rw [hx]
        exact storedAt_mono hStored
      · rw [record_publish hProc] at hPublished
        obtain ⟨t, hStored⟩ := hPosts.published x (by simpa [hx] using hPublished)
        exact ⟨t, storedAt_mono hStored⟩
    · have hNot := fun ctx f hProc => hPublish ⟨ctx, f, hProc⟩
      rw [(record_of_not_publish D h input hNot).1] at hPublished
      obtain ⟨t, hStored⟩ := hPosts.published x hPublished
      exact ⟨t, storedAt_mono hStored⟩

theorem posts_elapse {dt : ℚ} (hdt : 0 ≤ dt) (hPosts : Posts D s h) :
    Posts D { s with now := s.now + dt } h where
  lock := hPosts.lock
  result := hPosts.result
  past x t hStored :=
    ⟨(hPosts.past x t hStored).1.trans (le_add_of_nonneg_right hdt), (hPosts.past x t hStored).2⟩
  stored := hPosts.stored
  publishing := hPosts.publishing
  published := hPosts.published

theorem posts_init (hInit : D.machine.init s) : Posts D s Wakeups.start := by
  obtain ⟨_, hRedis, hIdle⟩ := hInit
  refine ⟨fun X entry hEntry => ?_, fun X entry hEntry => ?_, fun x t hStored => ?_,
    fun x t X hStored _ => ?_, fun x ctx f hProc => ?_, fun x hPublished => ?_⟩
  · rw [hRedis] at hEntry
    cases hEntry
  · rw [hRedis] at hEntry
    cases hEntry
  · cases hStored
  · cases hStored
  · rw [hIdle x] at hProc
    cases hProc
  · cases hPublished

end Posts

/-- The awaits of a waiting request on its open connection. -/
def Pc.listens : Pc → Bool
  | .getResult | .sleep _ | .getMessage _ => true
  | _ => false

/-- Every PUBLISH of the holder that the request could have polled is still
ahead of its connection. -/
def Unpolled (h : Wakeups) (w x : ℕ) : Prop :=
  h.early w = true → h.published x = true → h.seen w = h.polls w ∨ h.polls w ≤ 1

/-- A request that subscribed too late for the message read the stored result
too late as well. -/
def Overdue (h : Wakeups) (w x : ℕ) : Prop :=
  h.early w = false → ∃ t g, h.storedAt x = some t ∧ h.readAt w = some g ∧
    t + resultTtlSeconds ≤ g

/-- A connection on which `polls` reads have been made holds the confirmation,
if there was none, and then messages shared under the key. -/
def Connection (D : Deployment) (s : State) (h : Wakeups) (w : ℕ) (ctx : Ctx)
    (messages : List (Redis.Frame CachedResponse ℕ)) : Prop :=
  s.redis.subscriptions w = some ⟨ctx.dedupKey D,
      if h.polls w = 0 then .subscribe :: messages else messages⟩ ∧
    ∀ frame ∈ messages, ∃ c y, frame = .message c y ∧ (ctx.dedupKey D, c) ∈ h.shared

/-- The progress of a request that the lock of request `x` has refused. -/
inductive Waiter (D : Deployment) (s : State) (h : Wakeups) (w x : ℕ) (ctx : Ctx) : Prop where
  | subscribing (hProc : s.procs w = .running ctx .subscribe) (hPolls : h.polls w = 0)
  | listening (pc : Pc) (messages : List (Redis.Frame CachedResponse ℕ))
      (hProc : s.procs w = .running ctx pc) (hListens : pc.listens = true)
      (hConnection : Connection D s h w ctx messages)
      (hEarly : h.early w = true → h.published x = true → messages ≠ [])
      (hUnpolled : Unpolled h w x) (hLate : h.early w = false → h.published x = true)
      (hOverdue : pc = .getResult ∨ Overdue h w x)
  | woken (c : CachedResponse) (hProc : s.procs w = .running ctx (.unsubscribe (.found c)))
      (hShared : (ctx.dedupKey D, c) ∈ h.shared)
  | late (hProc : s.procs w = .running ctx (.unsubscribe .timedOut))
      (hUnpolled : Unpolled h w x) (hOverdue : Overdue h w x)
  | served (c : CachedResponse) (hProc : s.procs w = .finished ctx.request (.fromDedup c))
      (hShared : (ctx.dedupKey D, c) ∈ h.shared)
  | gaveUp (outcome : Outcome) (hProc : s.procs w = .finished ctx.request outcome)
      (hUnpolled : Unpolled h w x) (hOverdue : Overdue h w x)

/-- Every refused request is waiting for a holder of its own key. -/
def Waiting (D : Deployment) (s : State) (h : Wakeups) : Prop :=
  ∀ w x, h.holder w = some x →
    ∃ ctx, Waiter D s h w x ctx ∧ s.Requested D x (ctx.dedupKey D)

section Waiting

variable {D : Deployment} {s : State} {e : Event} {h : Wakeups} {r w x : ℕ} {input : Input}
  {redis : RedisServer} {proc : Proc} {ctx : Ctx}

theorem Overdue.of_move (hOverdue : Overdue h w x) (hw : w ≠ r) :
    Overdue (recordWakeups D s (.deliver r input) h) w x := by
  obtain ⟨_, hEarly, hRead, _⟩ := record_of_ne D s h input hw
  intro hLate
  rw [hEarly] at hLate
  obtain ⟨t, g, hStored, hReadAt, hBound⟩ := hOverdue hLate
  exact ⟨t, g, storedAt_mono hStored, hRead.trans hReadAt, hBound⟩

/-- Another request's PUBLISH finds the polls that have been made. -/
theorem Unpolled.of_move (hUnpolled : Unpolled h w x) (hHolder : h.holder w = some x)
    (hUp : s.redisUp (.deliver r input) = true)
    (hMove : Move D s.now r s.redis (s.procs r) input redis proc) (hw : w ≠ r) :
    Unpolled (recordWakeups D s (.deliver r input) h) w x := by
  obtain ⟨_, hEarly, _, hPolls⟩ := record_of_ne D s h input hw
  intro hIsEarly hPublished
  rw [hEarly] at hIsEarly
  rw [hPolls]
  by_cases hPublish : ∃ ctx f, s.procs r = .running ctx (.publish f)
  · obtain ⟨ctx, f, hProc⟩ := hPublish
    obtain ⟨rfl, _⟩ := reply_of_redisUp hUp hMove hProc rfl
    rw [record_publish hProc] at hPublished ⊢
    by_cases hx : x = r
    · left
      simp [hHolder, hx]
    · have hBefore : h.published x = true := by simpa [hx] using hPublished
      have hSeen : ¬h.holder w = some r := fun hr => hx (Option.some.inj (hHolder.symm.trans hr))
      simpa [hSeen] using hUnpolled hIsEarly hBefore
  · obtain ⟨hSame, hSeen⟩ := record_of_not_publish D h input
      fun ctx f hProc => hPublish ⟨ctx, f, hProc⟩
    rw [hSame] at hPublished
    rw [hSeen]
    exact hUnpolled hIsEarly hPublished

theorem subscriptions_of_not_publish
    (hMove : Move D s.now r s.redis (s.procs r) input redis proc) (hw : w ≠ r)
    (hNot : ∀ ctx f, s.procs r ≠ .running ctx (.publish f)) :
    redis.subscriptions w = s.redis.subscriptions w := by
  rcases move_server hMove with rfl | ⟨ctx, pc, p'', hProc, _, hReply⟩
  · rfl
  · rcases reply_subscriptions hReply with hSame | ⟨_, rfl⟩ | ⟨_, _, rfl⟩ | ⟨_, _, rfl⟩ |
      ⟨f, rfl, rfl⟩
    · rw [hSame]
    · simp [Redis.Server.subscribe, hw]
    · exact Redis.Server.poll_subscriptions_of_ne _ hw
    · simp [Redis.Server.unsubscribe, hw]
    · exact absurd hProc (hNot ctx f)

/-- What another request does to a connection: nothing, or one more message. -/
theorem Connection.of_move {messages : List (Redis.Frame CachedResponse ℕ)}
    (hConnection : Connection D s h w ctx messages) (hPosts : Posts D s h)
    (hUp : s.redisUp (.deliver r input) = true)
    (hMove : Move D s.now r s.redis (s.procs r) input redis proc) (hw : w ≠ r) :
    ∃ news, Connection D ⟨s.now, redis, Function.update s.procs r proc⟩
        (recordWakeups D s (.deliver r input) h) w ctx (messages ++ news) ∧
      ∀ ctx₀ f, s.procs r = .running ctx₀ (.publish f) → ctx₀.dedupKey D = ctx.dedupKey D →
        news ≠ [] := by
  obtain ⟨hSub, hShared⟩ := hConnection
  obtain ⟨_, _, _, hPolls⟩ := record_of_ne D s h input hw
  have hOld : ∀ frame ∈ messages, ∃ c y, frame = .message c y ∧
      (ctx.dedupKey D, c) ∈ (recordWakeups D s (.deliver r input) h).shared := by
    intro frame hFrame
    obtain ⟨c, y, hMessage, hPost⟩ := hShared frame hFrame
    exact ⟨c, y, hMessage, shared_mono hPost⟩
  by_cases hPublish : ∃ ctx₀ f, s.procs r = .running ctx₀ (.publish f) ∧
      ctx₀.dedupKey D = ctx.dedupKey D
  · obtain ⟨ctx₀, f, hProc, hKey⟩ := hPublish
    obtain ⟨rfl, hReply⟩ := reply_of_redisUp hUp hMove hProc rfl
    obtain ⟨rfl, _⟩ := Prod.mk.inj (Option.some.inj hReply)
    refine ⟨[.message f.cached r], ⟨?_, fun frame hFrame => ?_⟩, fun _ _ _ _ => nofun⟩
    · simp only [hPolls, Redis.Server.publish, hSub, Option.map_some, hKey, if_true]
      split_ifs <;> rfl
    · rcases List.mem_append.mp hFrame with hBefore | hNew
      · exact hOld frame hBefore
      · obtain ⟨hPost, _⟩ := hPosts.publishing r ctx₀ f hProc
        exact ⟨f.cached, r, List.mem_singleton.mp hNew, shared_mono (hKey ▸ hPost)⟩
  · refine ⟨[], ⟨?_, by simpa using hOld⟩, fun ctx₀ f hProc hKey =>
      absurd ⟨ctx₀, f, hProc, hKey⟩ hPublish⟩
    rw [hPolls, List.append_nil]
    by_cases hElsewhere : ∃ ctx₀ f, s.procs r = .running ctx₀ (.publish f)
    · obtain ⟨ctx₀, f, hProc⟩ := hElsewhere
      obtain ⟨rfl, hReply⟩ := reply_of_redisUp hUp hMove hProc rfl
      obtain ⟨rfl, _⟩ := Prod.mk.inj (Option.some.inj hReply)
      have hKey : ¬ctx.dedupKey D = ctx₀.dedupKey D := fun hSame =>
        hPublish ⟨ctx₀, f, hProc, hSame.symm⟩
      simp only [Redis.Server.publish, hSub, Option.map_some, hKey, if_false]
    · rw [subscriptions_of_not_publish hMove hw fun ctx₀ f hProc => hElsewhere ⟨ctx₀, f, hProc⟩,
        hSub]

theorem published_record (hUp : s.redisUp (.deliver r input) = true)
    (hMove : Move D s.now r s.redis (s.procs r) input redis proc)
    (hPublished : (recordWakeups D s (.deliver r input) h).published x = true) :
    h.published x = true ∨ x = r ∧ ∃ ctx f, s.procs r = .running ctx (.publish f) := by
  by_cases hPublish : ∃ ctx f, s.procs r = .running ctx (.publish f)
  · obtain ⟨ctx, f, hProc⟩ := hPublish
    obtain ⟨rfl, _⟩ := reply_of_redisUp hUp hMove hProc rfl
    rw [record_publish hProc] at hPublished
    by_cases hx : x = r
    · exact Or.inr ⟨hx, ctx, f, hProc⟩
    · exact Or.inl (by simpa [hx] using hPublished)
  · have hNot := fun ctx f hProc => hPublish ⟨ctx, f, hProc⟩
    rw [(record_of_not_publish D h input hNot).1] at hPublished
    exact Or.inl hPublished

/-- A waiting request stays where it is while another one moves. -/
theorem Waiter.other (hWaiter : Waiter D s h w x ctx) (hPosts : Posts D s h)
    (hHolder : h.holder w = some x) (hRequested : s.Requested D x (ctx.dedupKey D))
    (hUp : s.redisUp (.deliver r input) = true)
    (hMove : Move D s.now r s.redis (s.procs r) input redis proc) (hw : w ≠ r) :
    Waiter D ⟨s.now, redis, Function.update s.procs r proc⟩
      (recordWakeups D s (.deliver r input) h) w x ctx := by
  have hStays : ∀ before, s.procs w = before → Function.update s.procs r proc w = before :=
    fun before hProc => (Function.update_of_ne hw _ _).trans hProc
  obtain ⟨_, hEarlySame, _, hPolls⟩ :=
    record_of_ne D s h input hw
  cases hWaiter with
  | subscribing hProc hNone => exact .subscribing (hStays _ hProc) (hPolls.trans hNone)
  | woken c hProc hShared => exact .woken c (hStays _ hProc) (shared_mono hShared)
  | served c hProc hShared => exact .served c (hStays _ hProc) (shared_mono hShared)
  | late hProc hUnpolled hOverdue =>
      exact .late (hStays _ hProc) (hUnpolled.of_move hHolder hUp hMove hw) (hOverdue.of_move hw)
  | gaveUp outcome hProc hUnpolled hOverdue =>
      exact .gaveUp outcome (hStays _ hProc) (hUnpolled.of_move hHolder hUp hMove hw)
        (hOverdue.of_move hw)
  | listening pc messages hProc hListens hConnection hEarly hUnpolled hLate hOverdue =>
      obtain ⟨news, hAfter, hNews⟩ := hConnection.of_move hPosts hUp hMove hw
      refine .listening pc (messages ++ news) (hStays _ hProc) hListens hAfter ?_
        (hUnpolled.of_move hHolder hUp hMove hw) ?_ (hOverdue.imp_right fun h => h.of_move hw)
      · intro hIsEarly hPublished hEmpty
        obtain ⟨hNone, hNoNews⟩ := List.append_eq_nil_iff.mp hEmpty
        rw [hEarlySame] at hIsEarly
        rcases published_record hUp hMove hPublished with hBefore | ⟨rfl, ctx₀, f, hPublish⟩
        · exact hEarly hIsEarly hBefore hNone
        · obtain ⟨request, hRequest, hKey⟩ := hRequested
          rw [hPublish] at hRequest
          obtain rfl := Option.some.inj hRequest
          exact hNews ctx₀ f hPublish hKey hNoNews
      · intro hIsLate
        rw [hEarlySame] at hIsLate
        exact published_mono (hLate hIsLate)

theorem own_subscribe (hPolls : h.polls r = 0) (hHolder : h.holder r = some x)
    (hProc : s.procs r = .running ctx .subscribe) (hUp : s.redisUp (.deliver r input) = true)
    (hMove : Move D s.now r s.redis (s.procs r) input redis proc) :
    Waiter D ⟨s.now, redis, Function.update s.procs r proc⟩
      (recordWakeups D s (.deliver r input) h) r x ctx := by
  obtain ⟨rfl, hReply⟩ := reply_of_redisUp hUp hMove hProc rfl
  obtain ⟨rfl, rfl⟩ := Prod.mk.inj (Option.some.inj hReply)
  have hRecord : recordWakeups D s (.deliver r .reply) h =
      { h with early := Function.update h.early r (!(h.published x)) } := by
    simp [recordWakeups, hProc, hHolder]
  rw [hRecord]
  refine .listening .getResult [] (Function.update_self ..) rfl ⟨?_, by simp⟩ ?_ ?_ ?_
    (Or.inl rfl)
  · simp [Redis.Server.subscribe, hPolls]
  · intro hEarly hPublished
    simp only [Function.update_self] at hEarly hPublished
    rw [hPublished] at hEarly
    cases hEarly
  · intro hEarly hPublished
    simp only [Function.update_self] at hEarly hPublished
    rw [hPublished] at hEarly
    cases hEarly
  · intro hLate
    simpa using hLate

theorem own_read (hPosts : Posts D s h) (hRequested : s.Requested D x (ctx.dedupKey D))
    {messages : List (Redis.Frame CachedResponse ℕ)}
    (hProc : s.procs r = .running ctx .getResult)
    (hConnection : Connection D s h r ctx messages)
    (hEarly : h.early r = true → h.published x = true → messages ≠ [])
    (hUnpolled : Unpolled h r x) (hLate : h.early r = false → h.published x = true)
    (hUp : s.redisUp (.deliver r input) = true)
    (hMove : Move D s.now r s.redis (s.procs r) input redis proc) :
    Waiter D ⟨s.now, redis, Function.update s.procs r proc⟩
      (recordWakeups D s (.deliver r input) h) r x ctx := by
  obtain ⟨rfl, hReply⟩ := reply_of_redisUp hUp hMove hProc rfl
  obtain ⟨rfl, hAfter⟩ := Prod.mk.inj (Option.some.inj hReply)
  have hRecord : recordWakeups D s (.deliver r .reply) h =
      { h with readAt := Function.update h.readAt r (some s.now) } := by
    simp [recordWakeups, hProc]
  rw [hRecord]
  cases hGet : s.redis.get s.now (resultKey (ctx.dedupKey D)) with
  | none =>
      rw [hGet] at hAfter
      obtain rfl : _ = proc := hAfter
      refine .listening (.sleep (s.now + dedupWaitTimeout)) messages (Function.update_self ..) rfl
        hConnection hEarly hUnpolled hLate (Or.inr fun hIsLate => ?_)
      obtain ⟨t, hStored⟩ := hPosts.published x (hLate hIsLate)
      obtain ⟨entry, hEntry, expiry, hExpiry, hBound⟩ := hPosts.stored x t ctx hStored hRequested
      have hDead := Redis.Server.lookup_eq_none.mp (Redis.Server.get_eq_none.mp hGet) entry hEntry
      refine ⟨t, s.now, hStored, Function.update_self .., ?_⟩
      have hPassed : ¬s.now < expiry := by simpa [Redis.Entry.live, hExpiry] using hDead
      exact hBound.trans (not_lt.mp hPassed)
  | some value =>
      rw [hGet] at hAfter
      obtain ⟨entry, hLookup, hValue⟩ := Redis.Server.get_eq_some.mp hGet
      have hEntry := (Redis.Server.lookup_eq_some.mp hLookup).1
      obtain ⟨c, hText, hShared⟩ := hPosts.result ctx entry hEntry
      obtain rfl : value = .text c := hValue.symm.trans hText
      obtain rfl : _ = proc := hAfter
      exact .woken c (Function.update_self ..) hShared

theorem own_sleep {deadline : ℚ} {messages : List (Redis.Frame CachedResponse ℕ)}
    (hProc : s.procs r = .running ctx (.sleep deadline))
    (hConnection : Connection D s h r ctx messages)
    (hEarly : h.early r = true → h.published x = true → messages ≠ [])
    (hUnpolled : Unpolled h r x) (hLate : h.early r = false → h.published x = true)
    (hOverdue : Overdue h r x) (hUp : s.redisUp (.deliver r input) = true)
    (hMove : Move D s.now r s.redis (s.procs r) input redis proc) :
    Waiter D ⟨s.now, redis, Function.update s.procs r proc⟩
      (recordWakeups D s (.deliver r input) h) r x ctx := by
  cases input with
  | wake =>
      rw [hProc] at hMove
      cases hMove
      unfold afterSleep
      split_ifs
      · exact .late (Function.update_self ..) hUnpolled hOverdue
      · exact .listening (.getMessage deadline) messages (Function.update_self ..) rfl hConnection
          hEarly hUnpolled hLate (Or.inr hOverdue)
  | raised executed =>
      obtain ⟨_, ctx', pc', hProc', hDatabase, _⟩ := raised_of_redisUp hUp hMove
      rw [hProc] at hProc'
      cases hProc'
      cases hDatabase
  | reply =>
      rw [hProc] at hMove
      cases hMove with
      | reply _ _ hReply => cases hReply
  | _ =>
      rw [hProc] at hMove
      cases hMove

theorem own_poll {deadline : ℚ} {messages : List (Redis.Frame CachedResponse ℕ)}
    (hProc : s.procs r = .running ctx (.getMessage deadline))
    (hConnection : Connection D s h r ctx messages)
    (hEarly : h.early r = true → h.published x = true → messages ≠ [])
    (hLate : h.early r = false → h.published x = true)
    (hOverdue : Overdue h r x) (hUp : s.redisUp (.deliver r input) = true)
    (hMove : Move D s.now r s.redis (s.procs r) input redis proc) :
    Waiter D ⟨s.now, redis, Function.update s.procs r proc⟩
      (recordWakeups D s (.deliver r input) h) r x ctx := by
  obtain ⟨rfl, hReply⟩ := reply_of_redisUp hUp hMove hProc rfl
  obtain ⟨rfl, hAfter⟩ := Prod.mk.inj (Option.some.inj hReply)
  have hRecord : recordWakeups D s (.deliver r .reply) h =
      { h with polls := Function.update h.polls r (h.polls r + 1) } := by
    simp [recordWakeups, hProc]
  rw [hRecord]
  obtain ⟨hSub, hShared⟩ := hConnection
  by_cases hFirst : h.polls r = 0
  · -- the first poll reads the confirmation
    rw [if_pos hFirst] at hSub
    obtain ⟨hFrame, hRest⟩ := Redis.Server.poll_cons hSub
    rw [hFrame] at hAfter
    obtain rfl : _ = proc := hAfter
    refine .listening (.sleep deadline) messages (Function.update_self ..) rfl ⟨?_, hShared⟩ hEarly
      (fun _ _ => Or.inr ?_) hLate (Or.inr hOverdue)
    · simpa using hRest
    · simp [hFirst]
  · rw [if_neg hFirst] at hSub
    cases messages with
    | nil =>
        have hPoll := Redis.Server.poll_nil hSub
        rw [hPoll] at hAfter ⊢
        obtain rfl : _ = proc := hAfter
        refine .listening (.sleep deadline) [] (Function.update_self ..) rfl ⟨?_, hShared⟩ hEarly
          (fun hIsEarly hPublished => absurd rfl (hEarly hIsEarly hPublished)) hLate
          (Or.inr hOverdue)
        simpa using hSub
    | cons frame rest =>
        obtain ⟨c, y, rfl, hPost⟩ := hShared frame List.mem_cons_self
        rw [(Redis.Server.poll_cons hSub).1] at hAfter
        obtain rfl : _ = proc := hAfter
        exact .woken c (Function.update_self ..) hPost

theorem own_unsubscribe {result : WaitResult}
    (hProc : s.procs r = .running ctx (.unsubscribe result))
    (hUp : s.redisUp (.deliver r input) = true)
    (hMove : Move D s.now r s.redis (s.procs r) input redis proc) :
    proc = afterUnsubscribe ctx result ∧ recordWakeups D s (.deliver r input) h = h := by
  obtain ⟨rfl, hReply⟩ := reply_of_redisUp hUp hMove hProc rfl
  obtain ⟨rfl, rfl⟩ := Prod.mk.inj (Option.some.inj hReply)
  exact ⟨rfl, by simp [recordWakeups, hProc]⟩

/-- A waiting request makes progress by its own moves. -/
theorem Waiter.own (hWaiter : Waiter D s h r x ctx) (hPosts : Posts D s h)
    (hHolder : h.holder r = some x) (hRequested : s.Requested D x (ctx.dedupKey D))
    (hUp : s.redisUp (.deliver r input) = true)
    (hMove : Move D s.now r s.redis (s.procs r) input redis proc) :
    Waiter D ⟨s.now, redis, Function.update s.procs r proc⟩
      (recordWakeups D s (.deliver r input) h) r x ctx := by
  cases hWaiter with
  | subscribing hProc hPolls => exact own_subscribe hPolls hHolder hProc hUp hMove
  | listening pc messages hProc hListens hConnection hEarly hUnpolled hLate hOverdue =>
      cases pc with
      | getResult =>
          exact own_read hPosts hRequested hProc hConnection hEarly hUnpolled hLate hUp hMove
      | sleep deadline =>
          have hRead : Overdue h r x := hOverdue.resolve_left nofun
          exact own_sleep hProc hConnection hEarly hUnpolled hLate hRead hUp hMove
      | getMessage deadline =>
          have hRead : Overdue h r x := hOverdue.resolve_left nofun
          exact own_poll hProc hConnection hEarly hLate hRead hUp hMove
      | _ => cases hListens
  | woken c hProc hShared =>
      obtain ⟨rfl, hRecord⟩ := own_unsubscribe (h := h) hProc hUp hMove
      rw [hRecord]
      exact .served c (Function.update_self ..) hShared
  | late hProc hUnpolled hOverdue =>
      obtain ⟨rfl, hRecord⟩ := own_unsubscribe (h := h) hProc hUp hMove
      rw [hRecord]
      exact .gaveUp _ (Function.update_self ..) hUnpolled hOverdue
  | served c hProc =>
      rw [hProc] at hMove
      cases hMove
  | gaveUp outcome hProc =>
      rw [hProc] at hMove
      cases hMove

/-- A refused request starts to wait, for the request whose lock it saw. -/
theorem waiter_refused (hPosts : Posts D s h) (hProc : s.procs r = .running ctx .acquireLock)
    (hUp : s.redisUp (.deliver r input) = true)
    (hMove : Move D s.now r s.redis (s.procs r) input redis proc)
    (hHolder : (recordWakeups D s (.deliver r input) h).holder r = some x) :
    Waiter D ⟨s.now, redis, Function.update s.procs r proc⟩
        (recordWakeups D s (.deliver r input) h) r x ctx ∧ s.Requested D x (ctx.dedupKey D) := by
  obtain ⟨rfl, hReply⟩ := reply_of_redisUp hUp hMove hProc rfl
  have hRecord : recordWakeups D s (.deliver r .reply) h =
      { h with
        holder := Function.update h.holder r
          ((s.redis.lookup s.now (ctx.dedupKey D)).map Redis.Entry.writer)
        polls := Function.update h.polls r 0 } := by
    simp [recordWakeups, hProc]
  rw [hRecord] at hHolder ⊢
  simp only [Function.update_self] at hHolder
  obtain ⟨lock, hLock, rfl⟩ := Option.map_eq_some_iff.mp hHolder
  refine ⟨?_, hPosts.lock ctx lock (Redis.Server.lookup_eq_some.mp hLock).1⟩
  rcases reply_acquire hReply with ⟨_, _, rfl, rfl⟩ | ⟨hNone, _, _⟩
  · exact .subscribing (Function.update_self ..) (Function.update_self ..)
  · rw [hLock] at hNone
    cases hNone

theorem waiting_move (hPosts : Posts D s h) (hWaiting : Waiting D s h)
    (hUp : s.redisUp (.deliver r input) = true)
    (hMove : Move D s.now r s.redis (s.procs r) input redis proc) :
    Waiting D ⟨s.now, redis, Function.update s.procs r proc⟩
      (recordWakeups D s (.deliver r input) h) := by
  intro w x hHolder
  by_cases hw : w = r
  · subst hw
    by_cases hAcquire : ∃ ctx, s.procs w = .running ctx .acquireLock
    · obtain ⟨ctx, hProc⟩ := hAcquire
      obtain ⟨hWaiter, hRequested⟩ := waiter_refused hPosts hProc hUp hMove hHolder
      exact ⟨ctx, hWaiter, requested_of_move hMove hRequested⟩
    · have hSame : (recordWakeups D s (.deliver w input) h).holder = h.holder := by
        unfold recordWakeups
        split
        case h_1 r' hEvent =>
          obtain ⟨rfl, _⟩ := Event.deliver.inj hEvent
          split
          case h_1 ctx hProc => exact absurd ⟨ctx, hProc⟩ hAcquire
          all_goals rfl
        case h_2 => rfl
      rw [hSame] at hHolder
      obtain ⟨ctx, hWaiter, hRequested⟩ := hWaiting w x hHolder
      exact ⟨ctx, hWaiter.own hPosts hHolder hRequested hUp hMove,
        requested_of_move hMove hRequested⟩
  · rw [(record_of_ne D s h input hw).1] at hHolder
    obtain ⟨ctx, hWaiter, hRequested⟩ := hWaiting w x hHolder
    exact ⟨ctx, hWaiter.other hPosts hHolder hRequested hUp hMove hw,
      requested_of_move hMove hRequested⟩

theorem Waiter.elapse {dt : ℚ} (hWaiter : Waiter D s h w x ctx) :
    Waiter D { s with now := s.now + dt } h w x ctx := by
  cases hWaiter with
  | subscribing hProc hPolls => exact .subscribing hProc hPolls
  | listening pc messages hProc hListens hConnection hEarly hUnpolled hLate hOverdue =>
      exact .listening pc messages hProc hListens hConnection hEarly hUnpolled hLate hOverdue
  | woken c hProc hShared => exact .woken c hProc hShared
  | late hProc hUnpolled hOverdue => exact .late hProc hUnpolled hOverdue
  | served c hProc hShared => exact .served c hProc hShared
  | gaveUp outcome hProc hUnpolled hOverdue => exact .gaveUp outcome hProc hUnpolled hOverdue

theorem waiting_step {p q : State × Wakeups} (hPosts : Posts D p.1 p.2)
    (hWaiting : Waiting D p.1 p.2) (hUp : RedisUp p e) (next : (wakeups D).step p e = some q) :
    Posts D q.1 q.2 ∧ Waiting D q.1 q.2 := by
  obtain ⟨s, h⟩ := p
  rcases recorded_cases next with ⟨dt, rfl, hdt, rfl⟩ | ⟨r, input, redis, proc, rfl, hMove, rfl⟩
  · refine ⟨posts_elapse hdt hPosts, fun w x hHolder => ?_⟩
    obtain ⟨ctx, hWaiter, hRequested⟩ := hWaiting w x hHolder
    exact ⟨ctx, hWaiter.elapse, hRequested⟩
  · exact ⟨posts_move hPosts hUp hMove, waiting_move hPosts hWaiting hUp hMove⟩

theorem waiting_run {p : State × Wakeups} (run : (wakeups D).Reaches RedisUp p) :
    Posts D p.1 p.2 ∧ Waiting D p.1 p.2 := by
  refine run.invariant (I := fun p => Posts D p.1 p.2 ∧ Waiting D p.1 p.2) (fun p hInit => ?_)
    fun p q e _ ih hUp next => waiting_step ih.1 ih.2 hUp next
  obtain ⟨s, h⟩ := p
  obtain ⟨hStart, rfl⟩ := hInit
  exact ⟨posts_init hStart, fun w x hHolder => by cases hHolder⟩

end Waiting

/-- The request has left the wait of `dedup_wait`. -/
def Proc.left : Proc → Bool
  | .running _ (.unsubscribe _) => true
  | .finished _ _ => true
  | _ => false

/-- No lost wake-up, in every run without a failing command. A request that the
lock of `x` refused returns a response shared under its own key, if `x` has
published, the stored result was read within its sixty seconds, and a request
that had subscribed before the PUBLISH has polled at least twice, at least once
of these after the PUBLISH. -/
theorem no_lost_wakeup (D : Deployment) (p : State × Wakeups)
    (run : (wakeups D).Reaches RedisUp p) (w x : ℕ) (t g : ℚ)
    (hHolder : p.2.holder w = some x) (hLeft : (p.1.procs w).left = true)
    (hPublished : p.2.published x = true) (hStored : p.2.storedAt x = some t)
    (hRead : p.2.readAt w = some g) (hSoon : g < t + resultTtlSeconds)
    (hPolls : p.2.early w = true → 2 ≤ p.2.polls w ∧ p.2.seen w < p.2.polls w) :
    ∃ request c, (p.1.procs w).request? = some request ∧ p.1.Returned w c ∧
      (request.dedupKey D, c) ∈ p.2.shared := by
  have hMissed : ¬(Unpolled p.2 w x ∧ Overdue p.2 w x) := by
    rintro ⟨hUnpolled, hOverdue⟩
    cases hEarly : p.2.early w with
    | true =>
        obtain ⟨hTwo, hAfter⟩ := hPolls hEarly
        rcases hUnpolled hEarly hPublished with hSeen | hFew
        · omega
        · omega
    | false =>
        obtain ⟨t', g', hStored', hRead', hBound⟩ := hOverdue hEarly
        rw [hStored] at hStored'
        rw [hRead] at hRead'
        obtain rfl := Option.some.inj hStored'
        obtain rfl := Option.some.inj hRead'
        exact absurd hSoon (not_lt.mpr hBound)
  obtain ⟨ctx, hWaiter, _⟩ := (waiting_run run).2 w x hHolder
  cases hWaiter with
  | subscribing hProc =>
      rw [hProc] at hLeft
      cases hLeft
  | listening pc messages hProc hListens =>
      rw [hProc] at hLeft
      cases pc <;> simp [Proc.left, Pc.listens] at hLeft hListens
  | woken c hProc hShared =>
      exact ⟨ctx.request, c, by rw [hProc]; rfl, Or.inl ⟨ctx, hProc⟩, hShared⟩
  | late hProc hUnpolled hOverdue => exact absurd ⟨hUnpolled, hOverdue⟩ hMissed
  | served c hProc hShared =>
      exact ⟨ctx.request, c, by rw [hProc]; rfl, Or.inr ⟨ctx.request, hProc⟩, hShared⟩
  | gaveUp outcome hProc hUnpolled hOverdue => exact absurd ⟨hUnpolled, hOverdue⟩ hMissed

section Traces

theorem init_wakeups {D : Deployment} : (wakeups D).init (sampleStart, Wakeups.start) :=
  ⟨init_sampleStart, rfl⟩

/-- Request 1 subscribes, request 0 publishes, request 1 polls twice. -/
theorem no_lost_wakeup_joined :
    ∃ p, (wakeups (sampleDeployment 0)).Reaches RedisUp p ∧
      ∃ request c, (p.1.procs 1).request? = some request ∧ p.1.Returned 1 c ∧
        (request.dedupKey (sampleDeployment 0), c) ∈ p.2.shared := by
  have hDone : ((wakeups (sampleDeployment 0)).exec RedisUp (sampleStart, Wakeups.start)
      joinedRound).any (fun p => decide (p.2.holder 1 = some 0 ∧ (p.1.procs 1).left = true ∧
        p.2.published 0 = true ∧ p.2.storedAt 0 = some 0 ∧ p.2.readAt 1 = some 0 ∧
        2 ≤ p.2.polls 1 ∧ p.2.seen 1 < p.2.polls 1)) = true := by
    decide +kernel
  obtain ⟨p, run, hCheck⟩ := System.Reaches.exec_any (.init init_wakeups) hDone
  obtain ⟨hHolder, hLeft, hPublished, hStored, hRead, hTwo, hAfter⟩ := of_decide_eq_true hCheck
  exact ⟨p, run, no_lost_wakeup _ p run 1 0 0 0 hHolder hLeft hPublished hStored hRead
    (by norm_num [resultTtlSeconds]) fun _ => ⟨hTwo, hAfter⟩⟩

/-- Request 1 subscribes before request 0 publishes and polls once after it;
this poll reads the confirmation, and then the time is up. -/
def confirmedOnly : List Event :=
  upToLock 0 (sampleRequest .get "p") ++ .deliver 0 .reply ::
    upToLock 1 (sampleRequest .get "p") ++ [.deliver 1 .reply, .deliver 1 .reply,
      .deliver 1 .reply] ++ sharedCall 0 ++ [.deliver 1 .wake, .deliver 1 .reply, .elapse 30,
      .deliver 1 .wake, .deliver 1 .reply]

def gaveUp : Proc → Bool
  | .finished _ (.httpException 504 _) => true
  | _ => false

theorem wakeup_lost_after_one_poll :
    ∃ p, (wakeups (sampleDeployment 0)).Reaches RedisUp p ∧ p.2.holder 1 = some 0 ∧
      p.2.published 0 = true ∧ p.2.storedAt 0 = some 0 ∧ p.2.readAt 1 = some 0 ∧
      p.2.early 1 = true ∧ p.2.polls 1 = p.2.seen 1 + 1 ∧ (p.1.procs 1).left = true ∧
      ¬∃ c, p.1.Returned 1 c := by
  have hDone : ((wakeups (sampleDeployment 0)).exec RedisUp (sampleStart, Wakeups.start)
      confirmedOnly).any (fun p => decide ((p.2.holder 1 = some 0 ∧ p.2.published 0 = true ∧
        p.2.storedAt 0 = some 0 ∧ p.2.readAt 1 = some 0 ∧ p.2.early 1 = true ∧
        p.2.polls 1 = p.2.seen 1 + 1 ∧ (p.1.procs 1).left = true) ∧
        gaveUp (p.1.procs 1) = true)) = true := by
    decide +kernel
  obtain ⟨p, run, hCheck⟩ := System.Reaches.exec_any (.init init_wakeups) hDone
  obtain ⟨⟨hHolder, hPublished, hStored, hRead, hEarly, hPolls, hLeft⟩, hGaveUp⟩ :=
    of_decide_eq_true hCheck
  refine ⟨p, run, hHolder, hPublished, hStored, hRead, hEarly, hPolls, hLeft, ?_⟩
  rintro ⟨c, ⟨ctx, hProc⟩ | ⟨request, hProc⟩⟩ <;>
  · rw [hProc] at hGaveUp
    cases hGaveUp

end Traces

end Gateway.Routes

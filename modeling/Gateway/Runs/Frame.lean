import Gateway.Routes.Flow

/-! One request alone on any Redis: what it leaves behind when its vendor call
fails. Until it has the lock it writes nothing, and the lock it deletes again. -/
namespace Gateway.Routes

open Transition Gateway.Cache Gateway.Vendors

/-- Anything but a 2xx answer. -/
def Failed : VendorOutcome → Prop
  | .response v => success v.statusCode = false
  | .timeout | .connectError | .otherError => True

instance (outcome : VendorOutcome) : Decidable (Failed outcome) :=
  match outcome with
  | .response v => inferInstanceAs (Decidable (success v.statusCode = false))
  | .timeout | .connectError | .otherError => isTrue trivial

/-- History: how the vendor call ended and what was published since. -/
structure VendorTrace where
  outcome : Option VendorOutcome
  published : List (String × CachedResponse)

def recordTrace (D : Deployment) (s : State) (e : Event) (h : VendorTrace) : VendorTrace :=
  match e with
  | .deliver _ (.vendor outcome) => { h with outcome := some outcome }
  | _ =>
      match s.executes e with
      | some ⟨_, ctx, .publish f⟩ =>
          { h with published := (ctx.dedupKey D, f.cached) :: h.published }
      | _ => h

/-- The gateway from this state on. -/
def Deployment.machineFrom (D : Deployment) (start : State) : System (State × VendorTrace) Event :=
  ({ D.machine with init := fun s => s = start }).withHistory ⟨none, []⟩ (recordTrace D)

/-- Only this request takes steps, and Redis works. -/
def Alone (r : ℕ) (s : State) : Event → Prop
  | .elapse _ => True
  | .deliver w input => w = r ∧ s.redisUp (.deliver w input) = true

instance (r : ℕ) (s : State) (e : Event) : Decidable (Alone r s e) :=
  match e with
  | .elapse _ => isTrue trivial
  | .deliver w input => inferInstanceAs (Decidable (w = r ∧ s.redisUp (.deliver w input) = true))

/-- The awaits up to the SET NX. -/
def Pc.beforeLock : Pc → Bool
  | .selectEndpoint | .createJob | .loadApiKey | .checkQuota _ | .getCached | .acquireLock => true
  | _ => false

def Proc.beforeLock : Proc → Bool
  | .idle => true
  | .running _ pc => pc.beforeLock
  | .finished _ _ => false

/-- The lock was free when it was set, and nothing else has changed. -/
def Locked (start s : State) (k : String) : Prop :=
  ∃ t v e c, t ≤ s.now ∧ start.redis.lookup t k = none ∧ s.redis = start.redis.set k v e c

/-- The same with the lock deleted. -/
def Released (start s : State) : Prop :=
  ∃ t k v e c, t ≤ s.now ∧ start.redis.lookup t k = none ∧
    s.redis = (start.redis.set k v e c).del k

/-- Every key reads as it does on the server at the start, and the connections
are the same. -/
def SameStore (start s : State) : Prop :=
  (∀ k, s.redis.lookup s.now k = start.redis.lookup s.now k) ∧
    s.redis.subscriptions = start.redis.subscriptions

/-- What the request has done so far, unless its vendor call succeeded or it
waits for another request. -/
structure Traceless (D : Deployment) (start : State) (r : ℕ) (s : State) (h : VendorTrace) :
    Prop where
  before : (s.procs r).beforeLock = true → s.redis = start.redis ∧ h = ⟨none, []⟩
  calling : ∀ ctx, s.procs r = .running ctx .callVendor →
    Locked start s (ctx.dedupKey D) ∧ h = ⟨none, []⟩
  failed : ∀ outcome, h.outcome = some outcome → Failed outcome → h.published = [] ∧
    ((∃ ctx out, s.procs r = .running ctx (.releaseLock out) ∧
        Locked start s (ctx.dedupKey D)) ∨
      ∃ request out, s.procs r = .finished request out ∧ Released start s)

section Steps

variable {D : Deployment} {start s t : State} {r : ℕ} {h : VendorTrace} {input : Input}
  {redis redis' : RedisServer} {proc : Proc} {now : ℚ} {ctx ctx' : Ctx} {pc pc' : Pc} {k : String}

theorem Locked.mono (hLocked : Locked start s k) (hNow : s.now ≤ t.now)
    (hRedis : t.redis = s.redis) : Locked start t k := by
  obtain ⟨at_, v, e, c, hAt, hFree, hSet⟩ := hLocked
  exact ⟨at_, v, e, c, hAt.trans hNow, hFree, hRedis.trans hSet⟩

theorem Released.mono (hReleased : Released start s) (hNow : s.now ≤ t.now)
    (hRedis : t.redis = s.redis) : Released start t := by
  obtain ⟨at_, k, v, e, c, hAt, hFree, hSet⟩ := hReleased
  exact ⟨at_, k, v, e, c, hAt.trans hNow, hFree, hRedis.trans hSet⟩

/-- A key that was free when the lock was set still reads as free. -/
theorem Released.sameStore (hReleased : Released start s) : SameStore start s := by
  obtain ⟨t, k, v, e, c, hAt, hFree, hRedis⟩ := hReleased
  refine ⟨fun k' => ?_, by rw [hRedis]; rfl⟩
  rw [hRedis]
  by_cases hk : k' = k
  · subst hk
    have hGone : start.redis.lookup s.now k' = none := by
      by_contra hSome
      obtain ⟨entry, hEntry⟩ := Option.ne_none_iff_exists'.mp hSome
      rw [Redis.Server.lookup_anti hAt hEntry] at hFree
      cases hFree
    rw [hGone, Redis.Server.lookup, Redis.Server.del_entries_self]
    rfl
  · apply Redis.Server.lookup_congr
    rw [Redis.Server.del_entries_of_ne _ hk, Redis.Server.set_entries_of_ne _ hk]

theorem Flow.of_beforeLock (h : Flow now ctx pc input ctx' pc') (hPc : pc'.beforeLock = true) :
    pc.beforeLock = true := by
  cases h with
  | _ => first | rfl | cases hPc

/-- The way to the vendor call leads through the SET NX. -/
theorem Flow.of_callVendor (h : Flow now ctx pc input ctx' .callVendor) : pc = .acquireLock := by
  cases h
  rfl

/-- Before the SET NX every command is a read. -/
theorem redis_of_beforeLock (hMove : Move D now r redis (.running ctx pc) input redis' proc)
    (hPc : pc.beforeLock = true) (hLock : pc ≠ .acquireLock) : redis' = redis := by
  rcases move_server hMove with hSame | ⟨ctx₀, pc₀, p, hProc, _, hReply⟩
  · exact hSame
  · obtain ⟨rfl, rfl⟩ := Proc.running.inj hProc
    cases pc with
    | acquireLock => exact absurd rfl hLock
    | checkQuota counter => exact (Prod.mk.inj (Option.some.inj hReply)).1.symm
    | getCached => exact (Prod.mk.inj (Option.some.inj hReply)).1.symm
    | selectEndpoint => cases hReply
    | createJob => cases hReply
    | loadApiKey => cases hReply
    | _ => cases hPc

/-- The history changes at a vendor answer and at a PUBLISH. -/
theorem recordTrace_eq (hInput : ∀ outcome, input ≠ .vendor outcome)
    (hProc : ∀ ctx f, s.procs r ≠ .running ctx (.publish f)) :
    recordTrace D s (.deliver r input) h = h := by
  unfold recordTrace
  split
  case h_1 outcome hEvent =>
    exact absurd (Event.deliver.inj hEvent).2 (hInput _)
  case h_2 =>
    split
    case h_1 w ctx f hTurn =>
      obtain rfl : w = r := client_of_executes hTurn
      exact absurd (executes_eq_some.mp hTurn).2 (hProc ctx f)
    case h_2 => rfl

theorem recordTrace_outcome (hInput : ∀ outcome, input ≠ .vendor outcome) :
    (recordTrace D s (.deliver r input) h).outcome = h.outcome := by
  unfold recordTrace
  split
  case h_1 outcome hEvent =>
    exact absurd (Event.deliver.inj hEvent).2 (hInput _)
  case h_2 => split <;> rfl

theorem traceless_arrive {request : Inbound} (hTrace : Traceless D start r s h)
    (hIdle : s.procs r = .idle) : Traceless D start r
      ⟨s.now, s.redis, Function.update s.procs r (D.start request)⟩ h := by
  obtain ⟨hRedis, rfl⟩ := hTrace.before (by rw [hIdle]; rfl)
  refine ⟨fun _ => ⟨hRedis, rfl⟩, fun ctx hProc => ?_, fun outcome hOutcome => ?_⟩
  · simp only [Function.update_self, Deployment.start] at hProc
    split at hProc
    · cases hProc
    · split_ifs at hProc
      cases hProc
  · cases hOutcome

theorem traceless_before (hTrace : Traceless D start r s h)
    (hProc : s.procs r = .running ctx pc) (hPc : pc.beforeLock = true) (hLock : pc ≠ .acquireLock)
    (hMove : Move D s.now r s.redis (.running ctx pc) input redis proc) : Traceless D start r
      ⟨s.now, redis, Function.update s.procs r proc⟩ h := by
  obtain ⟨hRedis, rfl⟩ := hTrace.before (by rw [hProc]; exact hPc)
  rw [redis_of_beforeLock hMove hPc hLock]
  refine ⟨fun _ => ⟨hRedis, rfl⟩, fun ctx' hCalling => ?_, fun outcome hOutcome => ?_⟩
  · simp only [Function.update_self] at hCalling
    subst hCalling
    exact absurd (flow_of_move hMove).of_callVendor hLock
  · cases hOutcome

theorem traceless_acquire (hTrace : Traceless D start r s h)
    (hProc : s.procs r = .running ctx .acquireLock)
    (hReply : D.reply s.now r ctx s.redis .acquireLock = some (redis, proc)) :
    Traceless D start r ⟨s.now, redis, Function.update s.procs r proc⟩ h := by
  obtain ⟨hRedis, rfl⟩ := hTrace.before (by rw [hProc]; rfl)
  obtain ⟨rfl, rfl⟩ := Prod.mk.inj (Option.some.inj hReply)
  refine ⟨fun hPc => ?_, fun ctx' hCalling => ?_, fun outcome hOutcome => ?_⟩
  · simp only [Function.update_self, afterAcquireLock] at hPc
    split_ifs at hPc <;> cases hPc
  · simp only [Function.update_self] at hCalling
    cases hLookup : s.redis.lookup s.now (ctx.dedupKey D) with
    | some entry =>
        rw [Redis.Server.setNx_of_some hLookup] at hCalling
        cases hCalling
    | none =>
        rw [Redis.Server.setNx_of_none hLookup] at hCalling ⊢
        cases hCalling
        refine ⟨⟨s.now, .int 1, some (s.now + lockTtlSeconds), r, le_rfl, ?_, ?_⟩, rfl⟩
        · exact hRedis ▸ hLookup
        · show s.redis.set _ _ _ _ = _
          rw [hRedis]
  · cases hOutcome

/-- The answer is recorded; unless it is a success the lock is released next. -/
theorem traceless_vendor {outcome : VendorOutcome} (hTrace : Traceless D start r s h)
    (hProc : s.procs r = .running ctx .callVendor) : Traceless D start r
      ⟨s.now, s.redis, Function.update s.procs r (afterCallVendor ctx s.now outcome)⟩
        { h with outcome := some outcome } := by
  obtain ⟨hLocked, rfl⟩ := hTrace.calling ctx hProc
  have hContinues : Continues D s.now s.redis ctx .callVendor (.vendor outcome)
      (afterCallVendor ctx s.now outcome) := continues_afterCallVendor outcome
  refine ⟨fun hPc => ?_, fun ctx' hCalling => ?_, fun outcome' hOutcome hFailed => ⟨rfl, ?_⟩⟩
  · simp only [Function.update_self] at hPc
    cases hAfter : afterCallVendor ctx s.now outcome with
    | idle => exact (hAfter ▸ hContinues).elim
    | running ctx' pc' =>
        rw [hAfter] at hContinues hPc
        cases hContinues.of_beforeLock hPc
    | finished request out =>
        rw [hAfter] at hPc
        cases hPc
  · simp only [Function.update_self] at hCalling
    rw [hCalling] at hContinues
    cases hContinues.of_callVendor
  · obtain rfl := Option.some.inj hOutcome
    have hReleasing : ∃ out, afterCallVendor ctx s.now outcome = .running ctx (.releaseLock out) := by
      cases outcome with
      | response v =>
          have hStatus : success v.statusCode = false := hFailed
          exact ⟨.relayed v, by simp [afterCallVendor, hStatus]⟩
      | _ => exact ⟨_, rfl⟩
    obtain ⟨out, hAfter⟩ := hReleasing
    refine Or.inl ⟨ctx, out, ?_, hLocked.mono le_rfl rfl⟩
    simp only [Function.update_self, hAfter]

theorem traceless_release {out : Outcome} (hTrace : Traceless D start r s h)
    (hProc : s.procs r = .running ctx (.releaseLock out)) : Traceless D start r
      ⟨s.now, s.redis.del (ctx.dedupKey D),
        Function.update s.procs r (.finished ctx.request out)⟩ h := by
  refine ⟨fun hPc => ?_, fun ctx' hCalling => ?_, fun outcome hOutcome hFailed => ?_⟩
  · simp only [Function.update_self] at hPc
    cases hPc
  · simp only [Function.update_self] at hCalling
    cases hCalling
  · obtain ⟨hNone, ⟨ctx', out', hReleasing, hLocked⟩ | ⟨request, out', hDone, _⟩⟩ :=
      hTrace.failed outcome hOutcome hFailed
    · obtain ⟨rfl, -⟩ := Proc.running.inj (hProc.symm.trans hReleasing)
      obtain ⟨t, v, e, c, hAt, hFree, hSet⟩ := hLocked
      refine ⟨hNone, Or.inr ⟨ctx.request, out, Function.update_self .., t, _, v, e, c, hAt, hFree, ?_⟩⟩
      show s.redis.del _ = _
      rw [hSet]
    · cases hProc.symm.trans hDone

/-- Awaits of a request whose vendor call has not failed. -/
theorem traceless_other {redis : RedisServer} {h' : VendorTrace} (hTrace : Traceless D start r s h)
    (hProc : s.procs r = .running ctx pc) (hBefore : pc.beforeLock = false)
    (hRelease : ∀ out, pc ≠ .releaseLock out) (hOutcome : h'.outcome = h.outcome)
    (hMove : Move D s.now r s.redis (.running ctx pc) input redis proc) :
    Traceless D start r ⟨s.now, redis, Function.update s.procs r proc⟩ h' := by
  refine ⟨fun hPc => ?_, fun ctx' hCalling => ?_, fun outcome hSome hFailed => ?_⟩
  · simp only [Function.update_self] at hPc
    cases proc with
    | idle => exact absurd rfl (not_idle_of_move hMove)
    | running ctx' pc' =>
        rw [(flow_of_move hMove).of_beforeLock hPc] at hBefore
        cases hBefore
    | finished request out => cases hPc
  · simp only [Function.update_self] at hCalling
    subst hCalling
    obtain rfl := (flow_of_move hMove).of_callVendor
    cases hBefore
  · obtain ⟨-, ⟨ctx', out, hReleasing, -⟩ | ⟨request, out, hDone, -⟩⟩ :=
      hTrace.failed outcome (hOutcome ▸ hSome) hFailed
    · exact absurd (Proc.running.inj (hProc.symm.trans hReleasing)).2 (hRelease out)
    · cases hProc.symm.trans hDone

theorem Traceless.elapse {dt : ℚ} (hTrace : Traceless D start r s h) (hdt : 0 ≤ dt) :
    Traceless D start r { s with now := s.now + dt } h := by
  have hNow : s.now ≤ s.now + dt := le_add_of_nonneg_right hdt
  refine ⟨hTrace.before, fun ctx hProc => ?_, fun outcome hSome hFailed => ?_⟩
  · obtain ⟨hLocked, hHistory⟩ := hTrace.calling ctx hProc
    exact ⟨hLocked.mono hNow rfl, hHistory⟩
  · obtain ⟨hNone, ⟨ctx, out, hProc, hLocked⟩ | ⟨request, out, hProc, hReleased⟩⟩ :=
      hTrace.failed outcome hSome hFailed
    · exact ⟨hNone, Or.inl ⟨ctx, out, hProc, hLocked.mono hNow rfl⟩⟩
    · exact ⟨hNone, Or.inr ⟨request, out, hProc, hReleased.mono hNow rfl⟩⟩

theorem traceless_move (hTrace : Traceless D start r s h)
    (hUp : s.redisUp (.deliver r input) = true)
    (hMove : Move D s.now r s.redis (s.procs r) input redis proc) :
    Traceless D start r ⟨s.now, redis, Function.update s.procs r proc⟩
      (recordTrace D s (.deliver r input) h) := by
  cases hProc : s.procs r with
  | idle =>
      rw [hProc] at hMove
      cases hMove with
      | arrive request =>
          rw [recordTrace_eq (by simp) (by simp [hProc])]
          exact traceless_arrive hTrace hProc
  | finished request out =>
      rw [hProc] at hMove
      cases hMove
  | running ctx pc =>
      have hAnswer := fun hCommand => reply_of_redisUp hUp hMove hProc hCommand
      rw [hProc] at hMove
      by_cases hVendor : ∃ outcome, input = .vendor outcome
      · obtain ⟨outcome, rfl⟩ := hVendor
        cases hMove
        exact traceless_vendor hTrace hProc
      · have hInput : ∀ outcome, input ≠ .vendor outcome := fun outcome h => hVendor ⟨outcome, h⟩
        by_cases hLock : pc = .acquireLock
        · subst hLock
          rw [recordTrace_eq hInput (by simp [hProc])]
          exact traceless_acquire hTrace hProc (hAnswer rfl).2
        · by_cases hRelease : ∃ out, pc = .releaseLock out
          · obtain ⟨out, rfl⟩ := hRelease
            rw [recordTrace_eq hInput (by simp [hProc])]
            obtain ⟨rfl, rfl⟩ := Prod.mk.inj (Option.some.inj (hAnswer rfl).2)
            exact traceless_release hTrace hProc
          · cases hPc : pc.beforeLock with
            | true =>
                rw [recordTrace_eq hInput ?_]
                · exact traceless_before hTrace hProc hPc hLock hMove
                · intro ctx' f hPublish
                  rw [hProc] at hPublish
                  cases hPublish
                  cases hPc
            | false =>
                exact traceless_other hTrace hProc hPc (fun out h => hRelease ⟨out, h⟩)
                  (recordTrace_outcome hInput) hMove

end Steps

/-- A request whose vendor call fails leaves no trace: once it has ended, every
key of Redis reads as if the request had never been made, nothing was published
and no connection has changed. -/
theorem failed_call_leaves_no_trace {D : Deployment} {start s : State} {h : VendorTrace} {r : ℕ}
    {outcome : VendorOutcome} {request : Inbound} {out : Outcome} (hIdle : start.procs r = .idle)
    (run : (D.machineFrom start).Reaches (fun p => Alone r p.1) (s, h))
    (hOutcome : h.outcome = some outcome) (hFailed : Failed outcome)
    (hDone : s.procs r = .finished request out) : SameStore start s ∧ h.published = [] := by
  have hTrace : Traceless D start r s h := by
    refine run.invariant (I := fun p => Traceless D start r p.1 p.2) (fun p hInit => ?_)
      fun p q e _ ih hAlone next => ?_
    · obtain ⟨hStart, hHistory⟩ := hInit
      refine ⟨fun _ => ⟨congrArg State.redis hStart, hHistory⟩, fun ctx hProc => ?_,
        fun outcome hSome => ?_⟩
      · cases (hStart ▸ hProc).symm.trans hIdle
      · rw [hHistory] at hSome
        cases hSome
    · have hStep : (D.machine.withHistory ⟨none, []⟩ (recordTrace D)).step p e = some q := next
      obtain ⟨s, h⟩ := p
      rcases recorded_cases hStep with ⟨dt, rfl, hdt, rfl⟩ | ⟨w, input, redis, p, rfl, hMove, rfl⟩
      · exact ih.elapse hdt
      · obtain ⟨rfl, hUp⟩ := hAlone
        exact traceless_move ih hUp hMove
  obtain ⟨hNone, ⟨ctx, out', hReleasing, -⟩ | ⟨_, _, -, hReleased⟩⟩ :=
    hTrace.failed outcome hOutcome hFailed
  · cases hDone.symm.trans hReleasing
  · exact ⟨hReleased.sameStore, hNone⟩

section Sample

/-- A 404 that arrives after the lock has expired. -/
def notFoundAlone : List Event :=
  upToLock 0 (sampleRequest .get "p") ++ [.deliver 0 .reply, .elapse 31,
    .deliver 0 (.vendor (.response ⟨404, [], []⟩)), .deliver 0 .reply]

theorem failed_call_leaves_no_trace_at_404 :
    ∃ s h, SameStore sampleStart s ∧ h.published = [] ∧
      ((sampleDeployment 60).machineFrom sampleStart).Reaches (fun p => Alone 0 p.1) (s, h) := by
  have hRun : (((sampleDeployment 60).machineFrom sampleStart).exec (fun p => Alone 0 p.1)
      (sampleStart, ⟨none, []⟩) notFoundAlone).any (fun p =>
        p.2.outcome.any (fun outcome => decide (Failed outcome)) &&
        match p.1.procs 0 with
        | .idle | .running _ _ => false
        | .finished _ _ => true) = true := by
    decide +kernel
  have hInit : ((sampleDeployment 60).machineFrom sampleStart).init (sampleStart, ⟨none, []⟩) :=
    ⟨rfl, rfl⟩
  obtain ⟨⟨s, h⟩, run, hCheck⟩ := System.Reaches.exec_any (.init hInit) hRun
  obtain ⟨hFails, hEnd⟩ := Bool.and_eq_true_iff.mp hCheck
  obtain ⟨outcome, hOutcome, hFailed⟩ := (Option.any_eq_true _ _).mp hFails
  split at hEnd
  case h_3 request out hDone =>
    have hTrace := failed_call_leaves_no_trace rfl run hOutcome (of_decide_eq_true hFailed) hDone
    exact ⟨s, h, hTrace.1, hTrace.2, run⟩
  all_goals cases hEnd

end Sample

end Gateway.Routes

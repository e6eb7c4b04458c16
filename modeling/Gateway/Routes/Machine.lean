import Gateway.Routes.Proxy
import Gateway.Semantics.Transition

/-! Any number of requests against one Redis server. Between two awaits a
handler runs alone, so an event answers the pending await of one request or lets
time pass. Time is one clock for the workers and for Redis. -/
namespace Gateway.Routes

open Gateway.Cache Gateway.Db Gateway.Quota Gateway.Vendors

/-- The client of Redis that a value or a message comes from is a request. -/
abbrev RedisServer := Redis.Server ℚ String CachedResponse ℕ

/-- What a request may receive. A command that raises may still have been executed. -/
inductive Input where
  | arrive (request : Inbound)
  | endpointRow
  | jobStored (jobId : Uuid)
  | apiKeyRow (row : Option VendorApiKey)
  | reply
  | wake
  | vendor (outcome : VendorOutcome)
  | raised (executed : Bool)

inductive Event where
  | elapse (dt : ℚ)
  | deliver (r : ℕ) (input : Input)

section Commands

variable (D : Deployment) (now : ℚ) (r : ℕ) (ctx : Ctx) (s : RedisServer)

/-- Redis executes the pending command and the handler continues with the
reply. No command is pending at the awaits that are not listed. -/
def Deployment.reply : Pc → Option (RedisServer × Proc)
  | .checkQuota counter => some (s, afterCheckQuota ctx now (s.get now counter.key))
  | .getCached => some (s, afterGetCached ctx (s.get now (ctx.cacheKey D)))
  | .acquireLock =>
      let answer := s.setNx now (ctx.dedupKey D) (.int 1) (some (now + lockTtlSeconds)) r
      some (answer.1, afterAcquireLock ctx answer.2)
  | .subscribe => some (s.subscribe r (ctx.dedupKey D), .running ctx .getResult)
  | .getResult => some (s, afterGetResult ctx now (s.get now (resultKey (ctx.dedupKey D))))
  | .getMessage deadline => some
      ((s.poll r).1, afterGetMessage ctx deadline (s.poll r).2)
  | .unsubscribe result => some (s.unsubscribe r, afterUnsubscribe ctx result)
  | .setCached f => some
      (s.set (ctx.cacheKey D) (.text f.cached) (some (now + ctx.ttl)) r,
        .running ctx (.setResult f))
  | .setResult f => some
      (s.set (resultKey (ctx.dedupKey D)) (.text f.cached) (some (now + resultTtlSeconds)) r,
        .running ctx (.publish f))
  | .publish f => some (s.publish (ctx.dedupKey D) f.cached r, afterPublish ctx now f)
  | .incrQuota f counter =>
      match s.incr now counter.key r with
      | some (s', newCount) => some (s', afterIncrQuota ctx f counter (some newCount))
      | none => some (s, afterIncrQuota ctx f counter none)
  | .expireQuota f counter ttl => some
      (s.expire counter.key (now + ttl), .running ctx (.releaseLock (.relayed f.response)))
  | .releaseLock outcome => some (s.del (ctx.dedupKey D), .finished ctx.request outcome)
  | .selectEndpoint | .createJob | .loadApiKey | .sleep _ | .callVendor => none

/-- The key that the pending command may write. -/
def Pc.writes : Pc → Option String
  | .acquireLock => some (ctx.dedupKey D)
  | .releaseLock _ => some (ctx.dedupKey D)
  | .setCached _ => some (ctx.cacheKey D)
  | .setResult _ => some (resultKey (ctx.dedupKey D))
  | .incrQuota _ counter => some counter.key
  | .expireQuota _ counter _ => some counter.key
  | _ => none

def Proc.writes : Proc → Option String
  | .running ctx pc => pc.writes D ctx
  | _ => none

/-- The server after the pending await has failed. -/
def Deployment.afterFailure (pc : Pc) (executed : Bool) : RedisServer :=
  if executed then ((D.reply now r ctx s pc).map Prod.fst).getD s else s

end Commands

/-- One request takes one step. -/
def Deployment.react (D : Deployment) (now : ℚ) (r : ℕ) (s : RedisServer) :
    Proc → Input → Option (RedisServer × Proc)
  | .idle, .arrive request => some (s, D.start request)
  | .running ctx .selectEndpoint, .endpointRow =>
      some (s, afterSelectEndpoint ctx (D.selectEndpoint ctx.config ctx.request))
  | .running ctx .createJob, .jobStored jobId =>
      some (s, .finished ctx.request (.jobAccepted jobId))
  | .running ctx .loadApiKey, .apiKeyRow row =>
      if D.activeApiKey ctx.config row then some (s, afterLoadApiKey ctx now row) else none
  | .running ctx (.sleep deadline), .wake => some (s, afterSleep ctx now deadline)
  | .running ctx .callVendor, .vendor outcome => some (s, afterCallVendor ctx now outcome)
  | .running ctx pc, .reply => D.reply now r ctx s pc
  | .running ctx pc, .raised executed =>
      (afterRaise ctx pc).map fun p => (D.afterFailure now r ctx s pc executed, p)
  | _, _ => none

structure State where
  now : ℚ
  redis : RedisServer
  procs : ℕ → Proc

/-- The gateway from an empty Redis on. -/
def Deployment.machine (D : Deployment) : Transition.System State Event where
  init s := 0 ≤ s.now ∧ s.redis = Redis.Server.empty ∧ ∀ r, s.procs r = .idle
  step s
    | .elapse dt => if 0 ≤ dt then some { s with now := s.now + dt } else none
    | .deliver r input => (D.react s.now r s.redis (s.procs r) input).map fun (redis, p) =>
        ⟨s.now, redis, Function.update s.procs r p⟩

/-- A request and where it waits. -/
structure Turn where
  client : ℕ
  ctx : Ctx
  pc : Pc

def State.turn (s : State) (r : ℕ) : Option Turn :=
  match s.procs r with
  | .running ctx pc => some ⟨r, ctx, pc⟩
  | _ => none

/-- The request whose pending command Redis executes in an event. -/
def State.executes (s : State) : Event → Option Turn
  | .deliver r .reply => s.turn r
  | .deliver r (.raised true) => s.turn r
  | _ => none

theorem turn_eq_some {s : State} {r : ℕ} {turn : Turn} :
    s.turn r = some turn ↔ turn.client = r ∧ s.procs r = .running turn.ctx turn.pc := by
  unfold State.turn
  split
  case h_1 ctx pc hProc =>
    rw [hProc]
    refine ⟨?_, ?_⟩
    · rintro ⟨⟩
      exact ⟨rfl, rfl⟩
    · obtain ⟨client, ctx', pc'⟩ := turn
      rintro ⟨rfl, h⟩
      cases h
      rfl
  case h_2 hNot => exact ⟨nofun, fun h => absurd h.2 (hNot _ _)⟩

theorem executes_eq_some {s : State} {e : Event} {turn : Turn} :
    s.executes e = some turn ↔
      (e = .deliver turn.client .reply ∨ e = .deliver turn.client (.raised true)) ∧
        s.procs turn.client = .running turn.ctx turn.pc := by
  refine ⟨fun h => ?_, ?_⟩
  · unfold State.executes at h
    split at h
    · obtain ⟨rfl, hProc⟩ := turn_eq_some.mp h
      exact ⟨Or.inl rfl, hProc⟩
    · obtain ⟨rfl, hProc⟩ := turn_eq_some.mp h
      exact ⟨Or.inr rfl, hProc⟩
    · cases h
  · rintro ⟨rfl | rfl, hProc⟩ <;> exact turn_eq_some.mpr ⟨rfl, hProc⟩

theorem client_of_executes {s : State} {r : ℕ} {input : Input} {turn : Turn}
    (h : s.executes (.deliver r input) = some turn) : turn.client = r := by
  rcases (executes_eq_some.mp h).1 with hEvent | hEvent <;>
    exact (Event.deliver.inj hEvent).1.symm

theorem executes_of_input {s : State} {r : ℕ} {input : Input} {ctx : Ctx} {pc : Pc}
    (hInput : input = .reply ∨ input = .raised true) (hProc : s.procs r = .running ctx pc) :
    s.executes (.deliver r input) = some ⟨r, ctx, pc⟩ :=
  executes_eq_some.mpr
    ⟨hInput.imp (congrArg (Event.deliver r)) (congrArg (Event.deliver r)), hProc⟩

/-- The steps of one request, by the await that they answer. -/
inductive Move (D : Deployment) (now : ℚ) (r : ℕ) (s : RedisServer) :
    Proc → Input → RedisServer → Proc → Prop where
  | arrive (request : Inbound) : Move D now r s .idle (.arrive request) s (D.start request)
  | endpointRow (ctx : Ctx) : Move D now r s (.running ctx .selectEndpoint) .endpointRow s
      (afterSelectEndpoint ctx (D.selectEndpoint ctx.config ctx.request))
  | jobStored (ctx : Ctx) (jobId : Uuid) : Move D now r s (.running ctx .createJob)
      (.jobStored jobId) s (.finished ctx.request (.jobAccepted jobId))
  | apiKeyRow (ctx : Ctx) (row : Option VendorApiKey)
      (hRow : D.activeApiKey ctx.config row = true) :
      Move D now r s (.running ctx .loadApiKey) (.apiKeyRow row) s (afterLoadApiKey ctx now row)
  | wake (ctx : Ctx) (deadline : ℚ) : Move D now r s (.running ctx (.sleep deadline)) .wake s
      (afterSleep ctx now deadline)
  | vendor (ctx : Ctx) (outcome : VendorOutcome) : Move D now r s (.running ctx .callVendor)
      (.vendor outcome) s (afterCallVendor ctx now outcome)
  | reply (ctx : Ctx) (pc : Pc) {s' : RedisServer} {p' : Proc}
      (hReply : D.reply now r ctx s pc = some (s', p')) :
      Move D now r s (.running ctx pc) .reply s' p'
  | raised (ctx : Ctx) (pc : Pc) (executed : Bool) {p' : Proc}
      (hRaise : afterRaise ctx pc = some p') : Move D now r s (.running ctx pc)
        (.raised executed) (D.afterFailure now r ctx s pc executed) p'

section Inversion

variable {D : Deployment} {now : ℚ} {r : ℕ} {s s' : RedisServer} {p p' : Proc} {input : Input}

theorem move_of_react (h : D.react now r s p input = some (s', p')) :
    Move D now r s p input s' p' := by
  unfold Deployment.react at h
  split at h
  · cases h
    exact .arrive _
  · cases h
    exact .endpointRow _
  · cases h
    exact .jobStored _ _
  · split_ifs at h with hRow
    cases h
    exact .apiKeyRow _ _ hRow
  · cases h
    exact .wake _ _
  · cases h
    exact .vendor _ _
  · exact .reply _ _ h
  · obtain ⟨_, hRaise, h⟩ := Option.map_eq_some_iff.mp h
    cases h
    exact .raised _ _ _ hRaise
  · cases h

theorem step_cases {s t : State} {e : Event} (h : D.machine.step s e = some t) :
    (∃ dt, e = .elapse dt ∧ 0 ≤ dt ∧ t = { s with now := s.now + dt }) ∨
      ∃ r input redis p, e = .deliver r input ∧
        Move D s.now r s.redis (s.procs r) input redis p ∧
        t = ⟨s.now, redis, Function.update s.procs r p⟩ := by
  cases e with
  | elapse dt =>
      simp only [Deployment.machine] at h
      split_ifs at h with hdt
      exact Or.inl ⟨dt, rfl, hdt, (Option.some.inj h).symm⟩
  | deliver r input =>
      obtain ⟨⟨redis, p⟩, hReact, rfl⟩ := Option.map_eq_some_iff.mp h
      exact Or.inr ⟨r, input, redis, p, rfl, move_of_react hReact, rfl⟩

/-- The steps of the gateway with a history. -/
theorem recorded_cases {History : Type*} {start : History}
    {record : State → Event → History → History} {s : State} {h : History} {q : State × History}
    {e : Event} (next : (D.machine.withHistory start record).step (s, h) e = some q) :
    (∃ dt, e = .elapse dt ∧ 0 ≤ dt ∧ q = ({ s with now := s.now + dt }, record s (.elapse dt) h)) ∨
      ∃ r input redis p, e = .deliver r input ∧
        Move D s.now r s.redis (s.procs r) input redis p ∧
        q = (⟨s.now, redis, Function.update s.procs r p⟩, record s (.deliver r input) h) := by
  obtain ⟨t, h'⟩ := q
  obtain ⟨hStep, hRecord⟩ := Transition.System.withHistory_step next
  simp only at hStep hRecord
  rcases step_cases hStep with ⟨dt, rfl, hdt, rfl⟩ | ⟨r, input, redis, p, rfl, hMove, rfl⟩
  · exact Or.inl ⟨dt, rfl, hdt, by rw [hRecord]⟩
  · exact Or.inr ⟨r, input, redis, p, rfl, hMove, by rw [hRecord]⟩

/-- INCR counts, or refuses what is stored and the server stays as it is. -/
theorem reply_incrQuota {ctx : Ctx} {f : Fetched} {counter : Counter}
    (h : D.reply now r ctx s (.incrQuota f counter) = some (s', p')) :
    (∃ n, s.incr now counter.key r = some (s', n) ∧
        p' = afterIncrQuota ctx f counter (some n)) ∨
      s.incr now counter.key r = none ∧ s' = s ∧ p' = afterIncrQuota ctx f counter none := by
  simp only [Deployment.reply] at h
  split at h
  case h_1 hIncr =>
    obtain ⟨rfl, rfl⟩ := Prod.mk.inj (Option.some.inj h)
    exact Or.inl ⟨_, hIncr, rfl⟩
  case h_2 hRefused =>
    obtain ⟨rfl, rfl⟩ := Prod.mk.inj (Option.some.inj h)
    exact Or.inr ⟨hRefused, rfl, rfl⟩

theorem reply_entries_of_ne {ctx : Ctx} {pc : Pc} {k : String}
    (h : D.reply now r ctx s pc = some (s', p')) (hk : pc.writes D ctx ≠ some k) :
    s'.entries k = s.entries k := by
  cases pc with
  | acquireLock =>
      obtain ⟨rfl, rfl⟩ := Prod.mk.inj (Option.some.inj h)
      exact Redis.Server.setNx_entries_of_ne s (fun hSame => hk (congrArg some hSame.symm)) _ _ _ _
  | releaseLock outcome =>
      obtain ⟨rfl, rfl⟩ := Prod.mk.inj (Option.some.inj h)
      exact Redis.Server.del_entries_of_ne s fun hSame => hk (congrArg some hSame.symm)
  | setCached f =>
      obtain ⟨rfl, rfl⟩ := Prod.mk.inj (Option.some.inj h)
      exact Redis.Server.set_entries_of_ne s (fun hSame => hk (congrArg some hSame.symm)) _ _ _
  | setResult f =>
      obtain ⟨rfl, rfl⟩ := Prod.mk.inj (Option.some.inj h)
      exact Redis.Server.set_entries_of_ne s (fun hSame => hk (congrArg some hSame.symm)) _ _ _
  | incrQuota f counter =>
      rcases reply_incrQuota h with ⟨n, hIncr, -⟩ | ⟨-, rfl, -⟩
      · exact (Redis.Server.incr_frame hIncr).1 k fun hSame => hk (congrArg some hSame.symm)
      · rfl
  | expireQuota f counter ttl =>
      obtain ⟨rfl, rfl⟩ := Prod.mk.inj (Option.some.inj h)
      exact Redis.Server.expire_entries_of_ne s (fun hSame => hk (congrArg some hSame.symm)) _
  | getMessage deadline =>
      obtain ⟨rfl, rfl⟩ := Prod.mk.inj (Option.some.inj h)
      exact congrFun (Redis.Server.poll_entries s r) k
  | selectEndpoint => cases h
  | createJob => cases h
  | loadApiKey => cases h
  | sleep deadline => cases h
  | callVendor => cases h
  | _ =>
      obtain ⟨rfl, rfl⟩ := Prod.mk.inj (Option.some.inj h)
      rfl

theorem reply_subscriptions {ctx : Ctx} {pc : Pc}
    (h : D.reply now r ctx s pc = some (s', p')) :
    s'.subscriptions = s.subscriptions ∨
      (pc = .subscribe ∧ s' = s.subscribe r (ctx.dedupKey D)) ∨
      (∃ deadline, pc = .getMessage deadline ∧ s' = (s.poll r).1) ∨
      (∃ result, pc = .unsubscribe result ∧ s' = s.unsubscribe r) ∨
      ∃ f, pc = .publish f ∧ s' = s.publish (ctx.dedupKey D) f.cached r := by
  cases pc with
  | subscribe =>
      obtain ⟨rfl, rfl⟩ := Prod.mk.inj (Option.some.inj h)
      exact Or.inr (Or.inl ⟨rfl, rfl⟩)
  | getMessage deadline =>
      obtain ⟨rfl, rfl⟩ := Prod.mk.inj (Option.some.inj h)
      exact Or.inr (Or.inr (Or.inl ⟨deadline, rfl, rfl⟩))
  | unsubscribe result =>
      obtain ⟨rfl, rfl⟩ := Prod.mk.inj (Option.some.inj h)
      exact Or.inr (Or.inr (Or.inr (Or.inl ⟨result, rfl, rfl⟩)))
  | publish f =>
      obtain ⟨rfl, rfl⟩ := Prod.mk.inj (Option.some.inj h)
      exact Or.inr (Or.inr (Or.inr (Or.inr ⟨f, rfl, rfl⟩)))
  | acquireLock =>
      obtain ⟨rfl, rfl⟩ := Prod.mk.inj (Option.some.inj h)
      exact Or.inl (Redis.Server.setNx_subscriptions _ _ _ _ _ _)
  | incrQuota f counter =>
      rcases reply_incrQuota h with ⟨n, hIncr, -⟩ | ⟨-, rfl, -⟩
      · exact Or.inl (Redis.Server.incr_frame hIncr).2
      · exact Or.inl rfl
  | selectEndpoint => cases h
  | createJob => cases h
  | loadApiKey => cases h
  | sleep deadline => cases h
  | callVendor => cases h
  | _ =>
      obtain ⟨rfl, rfl⟩ := Prod.mk.inj (Option.some.inj h)
      exact Or.inl rfl

/-- A move leaves the server alone or has it execute the pending command, whose
reply may get lost. -/
theorem move_server (h : Move D now r s p input s' p') :
    s' = s ∨ ∃ ctx pc p'', p = .running ctx pc ∧
      (input = .reply ∧ p'' = p' ∨ input = .raised true) ∧
      D.reply now r ctx s pc = some (s', p'') := by
  cases h with
  | reply ctx pc hReply => exact Or.inr ⟨ctx, pc, _, rfl, Or.inl ⟨rfl, rfl⟩, hReply⟩
  | raised ctx pc executed hRaise =>
      cases executed with
      | false => exact Or.inl rfl
      | true =>
          cases hReply : D.reply now r ctx s pc with
          | none => exact Or.inl (by simp [Deployment.afterFailure, hReply])
          | some answer =>
              refine Or.inr ⟨ctx, pc, answer.2, rfl, Or.inr rfl, ?_⟩
              simp [Deployment.afterFailure, hReply]
  | _ => exact Or.inl rfl

/-- Whether its reply arrives or gets lost, an executed command does the same. -/
theorem server_of_executes {σ : State} {turn : Turn} {s' : RedisServer}
    (hExecutes : σ.executes (.deliver r input) = some turn)
    (h : Move D σ.now r σ.redis (σ.procs r) input s' p') :
    s' = D.afterFailure σ.now r turn.ctx σ.redis turn.pc true := by
  obtain ⟨client, ctx, pc⟩ := turn
  obtain rfl : client = r := client_of_executes hExecutes
  obtain ⟨hEvent, hProc⟩ := executes_eq_some.mp hExecutes
  rw [hProc] at h
  rcases hEvent with hEvent | hEvent
  · cases hEvent
    cases h with
    | reply _ _ hReply => simp [Deployment.afterFailure, hReply]
  · cases hEvent
    cases h with
    | raised => rfl

theorem move_entries_of_ne {k : String} (h : Move D now r s p input s' p')
    (hk : p.writes D ≠ some k) : s'.entries k = s.entries k := by
  rcases move_server h with rfl | ⟨ctx, pc, p'', rfl, _, hReply⟩
  · rfl
  · exact reply_entries_of_ne hReply hk

end Inversion

section Families

variable {D : Deployment} {ctx X : Ctx} {pc : Pc} {c : Counter}

theorem counterKey_ne_dedupKey : c.key ≠ ctx.dedupKey D :=
  Text.ne_of_head (by simp [Counter.key, quotaKey, Inbound.dedupKey, makeDedupKey])

theorem counterKey_ne_resultKey : c.key ≠ resultKey (ctx.dedupKey D) :=
  Text.ne_of_head (by simp [Counter.key, quotaKey, resultKey, Inbound.dedupKey, makeDedupKey])

theorem counterKey_ne_cacheKey : c.key ≠ ctx.cacheKey D :=
  Text.ne_of_head (by simp [Counter.key, quotaKey, Inbound.cacheKey, makeCacheKey])

/-- Only acquisition and release write a lock. -/
theorem writes_lock (h : pc.writes D ctx = some (X.dedupKey D)) :
    ctx.dedupKey D = X.dedupKey D ∧ (pc = .acquireLock ∨ ∃ outcome, pc = .releaseLock outcome) := by
  cases pc with
  | acquireLock => exact ⟨Option.some.inj h, Or.inl rfl⟩
  | releaseLock outcome => exact ⟨Option.some.inj h, Or.inr ⟨outcome, rfl⟩⟩
  | setCached f => exact absurd (Option.some.inj h).symm makeDedupKey_ne_makeCacheKey
  | setResult f => exact absurd (Option.some.inj h).symm makeDedupKey_ne_resultKey
  | incrQuota f counter => exact absurd (Option.some.inj h) counterKey_ne_dedupKey
  | expireQuota f counter ttl => exact absurd (Option.some.inj h) counterKey_ne_dedupKey
  | _ => cases h

/-- Only the SET of `dedup_publish` writes a stored result. -/
theorem writes_result (h : pc.writes D ctx = some (resultKey (X.dedupKey D))) :
    ctx.dedupKey D = X.dedupKey D ∧ ∃ f, pc = .setResult f := by
  cases pc with
  | setResult f => exact ⟨resultKey_injective (Option.some.inj h), f, rfl⟩
  | acquireLock => exact absurd (Option.some.inj h) makeDedupKey_ne_resultKey
  | releaseLock outcome => exact absurd (Option.some.inj h) makeDedupKey_ne_resultKey
  | setCached f => exact absurd (Option.some.inj h).symm resultKey_ne_makeCacheKey
  | incrQuota f counter => exact absurd (Option.some.inj h) counterKey_ne_resultKey
  | expireQuota f counter ttl => exact absurd (Option.some.inj h) counterKey_ne_resultKey
  | _ => cases h

/-- Only `set_cached` writes a cached response. -/
theorem writes_cache (h : pc.writes D ctx = some (X.cacheKey D)) :
    ctx.cacheKey D = X.cacheKey D ∧ ∃ f, pc = .setCached f := by
  cases pc with
  | setCached f => exact ⟨Option.some.inj h, f, rfl⟩
  | acquireLock => exact absurd (Option.some.inj h) makeDedupKey_ne_makeCacheKey
  | releaseLock outcome => exact absurd (Option.some.inj h) makeDedupKey_ne_makeCacheKey
  | setResult f => exact absurd (Option.some.inj h) resultKey_ne_makeCacheKey
  | incrQuota f counter => exact absurd (Option.some.inj h) counterKey_ne_cacheKey
  | expireQuota f counter ttl => exact absurd (Option.some.inj h) counterKey_ne_cacheKey
  | _ => cases h

/-- Only the quota increment writes a counter. -/
theorem writes_counter (h : pc.writes D ctx = some c.key) :
    (∃ f, pc = .incrQuota f c) ∨ ∃ f ttl, pc = .expireQuota f c ttl := by
  cases pc with
  | incrQuota f counter =>
      obtain rfl := Counter.key_injective (Option.some.inj h)
      exact Or.inl ⟨f, rfl⟩
  | expireQuota f counter ttl =>
      obtain rfl := Counter.key_injective (Option.some.inj h)
      exact Or.inr ⟨f, ttl, rfl⟩
  | acquireLock => exact absurd (Option.some.inj h).symm counterKey_ne_dedupKey
  | releaseLock outcome => exact absurd (Option.some.inj h).symm counterKey_ne_dedupKey
  | setCached f => exact absurd (Option.some.inj h).symm counterKey_ne_cacheKey
  | setResult f => exact absurd (Option.some.inj h).symm counterKey_ne_resultKey
  | _ => cases h

end Families

section Sample

/-! One vendor without API keys, to run the machine on. -/

def zeroUuid : Uuid := ⟨"00000000-0000-0000-0000-000000000000", rfl, by simp⟩

/-- Tells inputs of different lengths below 64 apart. -/
def lengthSha256 : Sha256 where
  hexdigest data := String.ofList
    (List.replicate (64 - min data.length 64) '0' ++ List.replicate (min data.length 64) '1')
  length_hexdigest data := by
    rw [String.length_ofList, List.length_append, List.length_replicate, List.length_replicate]
    omega

def sampleVendor (cacheTtlSeconds : ℤ) : VendorConfig :=
  ⟨zeroUuid, "v", "http://v", cacheTtlSeconds⟩

def sampleDeployment (cacheTtlSeconds : ℤ) : Deployment where
  sha256 := lengthSha256
  registry slug := if slug = "v" then some (sampleVendor cacheTtlSeconds) else none
  adapterBuilds _ := true
  endpoints := []
  apiKeys := []
  apiKeys_id := by simp

def sampleRequest (method : Http.Method) (path : String) : Inbound where
  method := method
  vendorSlug := "v"
  endpointPath := path
  query := []
  headers := []
  headers_lower := by simp
  body := []
  userSub := "u"

def sampleCtx (cacheTtlSeconds : ℤ) (request : Inbound) : Ctx :=
  ⟨request, sampleVendor cacheTtlSeconds, none, none⟩

def sampleStart : State := ⟨0, Redis.Server.empty, fun _ => .idle⟩

theorem init_sampleStart {D : Deployment} : D.machine.init sampleStart :=
  ⟨le_rfl, rfl, fun _ => rfl⟩

/-- A request arrives and runs up to its SET NX. -/
def upToLock (r : ℕ) (request : Inbound) : List Event :=
  [.deliver r (.arrive request), .deliver r .endpointRow, .deliver r (.apiKeyRow none),
    .deliver r .reply]

end Sample

end Gateway.Routes

import Gateway.Runs.Lease

/-! The thundering herd: a request that acquires the lock calls the vendor. The
cache is looked up before the lock is taken and not again under it. -/
namespace Gateway.Routes

open Transition Gateway.Cache

/-- History: when and by whom locks were acquired, and for each request until
when the last response lives that was cached under its key since its lookup. -/
structure Herd where
  lockedAt : LockTimes
  entered : List ℕ
  stored : ℕ → Option ℚ

def recordHerd (D : Deployment) (s : State) (e : Event) (h : Herd) : Herd where
  lockedAt := recordLock s e h.lockedAt
  entered := ((s.acquiring D e).map Turn.client).toList ++ h.entered
  stored r :=
    match s.executes e with
    | some ⟨_, ctx, .setCached _⟩ =>
        if (s.procs r).request?.map (Inbound.cacheKey D) = some (ctx.cacheKey D) then
          some (s.now + ctx.ttl)
        else h.stored r
    | some ⟨r', _, .getCached⟩ => if r' = r then none else h.stored r
    | _ => h.stored r

def Herd.start : Herd := ⟨fun _ => 0, [], fun _ => none⟩

def herd (D : Deployment) : System (State × Herd) Event :=
  D.machine.withHistory Herd.start (recordHerd D)

/-- A request acquires the lock only while every other request inside a block
under it has a running lease, and when whatever was cached under its key since
its own lookup has expired. -/
def Solo (D : Deployment) (p : State × Herd) (e : Event) : Prop :=
  ∀ turn ∈ p.1.acquiring D e,
    (∀ r ∈ p.2.entered, (p.1.procs r).InBlock D (turn.ctx.dedupKey D) →
      p.1.now < p.2.lockedAt r + lockTtlSeconds) ∧
    ∀ t ∈ p.2.stored turn.client, t ≤ p.1.now

instance (D : Deployment) (p : State × Herd) (e : Event) : Decidable (Solo D p e) :=
  inferInstanceAs (Decidable (∀ turn ∈ p.1.acquiring D e, (∀ r ∈ p.2.entered, _) ∧ ∀ t ∈ _, _))

/-- The request is in the middle of its vendor call, under this dedup key. -/
def Proc.Calling (D : Deployment) (k : String) : Proc → Prop
  | .running ctx .callVendor => ctx.dedupKey D = k
  | _ => False

instance (D : Deployment) (k : String) (p : Proc) : Decidable (p.Calling D k) :=
  match p with
  | .running ctx .callVendor => inferInstanceAs (Decidable (ctx.dedupKey D = k))
  | .idle | .finished _ _ => isFalse id
  | .running _ .selectEndpoint | .running _ .createJob | .running _ .loadApiKey => isFalse id
  | .running _ (.checkQuota _) | .running _ .getCached | .running _ .acquireLock => isFalse id
  | .running _ .subscribe | .running _ .getResult | .running _ (.sleep _) => isFalse id
  | .running _ (.getMessage _) | .running _ (.unsubscribe _) => isFalse id
  | .running _ (.setCached _) | .running _ (.setResult _) | .running _ (.publish _) => isFalse id
  | .running _ (.incrQuota _ _) | .running _ (.expireQuota _ _ _) => isFalse id
  | .running _ (.releaseLock _) => isFalse id

/-- A request that starts its vendor call is alone with it, and nothing is
cached under its key. -/
def NeededCall (D : Deployment) (s : State) (e : Event) : Prop :=
  ∀ turn ∈ s.acquiring D e,
    (∀ r, r ≠ turn.client → ¬(s.procs r).Calling D (turn.ctx.dedupKey D)) ∧
    s.redis.lookup s.now (turn.ctx.cacheKey D) = none

section Cache

variable {D : Deployment} {now : ℚ} {r : ℕ} {s s' : RedisServer} {p p' : Proc} {input : Input}

/-- A cached response changes only by a SET of `set_cached`. -/
theorem cache_cases (X : Ctx) (h : Move D now r s p input s' p') :
    s'.entries (X.cacheKey D) = s.entries (X.cacheKey D) ∨
      ∃ ctx f, p = .running ctx (.setCached f) ∧ (input = .reply ∨ input = .raised true) ∧
        ctx.cacheKey D = X.cacheKey D ∧
        s' = s.set (X.cacheKey D) (.text f.cached) (some (now + ctx.ttl)) r := by
  by_cases hWrites : p.writes D = some (X.cacheKey D)
  · rcases move_server h with rfl | ⟨ctx, pc, p'', rfl, hInput, hReply⟩
    · exact Or.inl rfl
    · obtain ⟨hKey, f, rfl⟩ := writes_cache hWrites
      obtain ⟨rfl, _⟩ := Prod.mk.inj (Option.some.inj hReply)
      exact Or.inr ⟨ctx, f, rfl, hInput.imp And.left id, hKey, by rw [hKey]⟩
  · exact Or.inl (move_entries_of_ne h hWrites)

theorem missed_of_getCached {ctx ctx' : Ctx}
    (h : D.reply now r ctx s .getCached = some (s', .running ctx' .acquireLock)) :
    s.lookup now (ctx.cacheKey D) = none := by
  have hAfter := congrArg Prod.snd (Option.some.inj h)
  simp only [afterGetCached] at hAfter
  split at hAfter
  case h_1 hGet => exact Redis.Server.get_eq_none.mp hGet
  case h_2 => cases hAfter
  case h_3 => cases hAfter

end Cache

/-- What a request that is about to take the lock would find in the cache: what
was stored since its lookup. -/
def Looked (D : Deployment) (p : State × Herd) : Prop :=
  ∀ r ctx, p.1.procs r = .running ctx .acquireLock →
    match p.2.stored r with
    | none => p.1.redis.lookup p.1.now (ctx.cacheKey D) = none
    | some t => ∃ entry, p.1.redis.entries (ctx.cacheKey D) = some entry ∧
        entry.expiresAt = some t

theorem lookup_iff_stored {D : Deployment} {p : State × Herd} (hLooked : Looked D p) {r : ℕ}
    {ctx : Ctx} (hProc : p.1.procs r = .running ctx .acquireLock) :
    p.1.redis.lookup p.1.now (ctx.cacheKey D) = none ↔ ∀ t ∈ p.2.stored r, t ≤ p.1.now := by
  have hView := hLooked r ctx hProc
  cases hStored : p.2.stored r with
  | none =>
      rw [hStored] at hView
      simpa using hView
  | some t =>
      rw [hStored] at hView
      obtain ⟨entry, hEntry, hExpires⟩ := hView
      rw [Redis.Server.lookup_eq_none]
      have hDead : entry.live p.1.now = false ↔ t ≤ p.1.now := by
        simp [Redis.Entry.live, hExpires]
      refine ⟨fun hNone t' ht => ?_, fun hPassed entry' hEntry' => ?_⟩
      · obtain rfl := Option.some.inj ht
        exact hDead.mp (hNone entry hEntry)
      · rw [hEntry] at hEntry'
        obtain rfl := Option.some.inj hEntry'
        exact hDead.mpr (hPassed t rfl)

/-- What a run of solo acquisitions keeps. -/
structure Single (D : Deployment) (p : State × Herd) : Prop where
  entered : ∀ k r, (p.1.procs r).InBlock D k → r ∈ p.2.entered
  leased : Leased D (p.1, p.2.lockedAt)
  sole : ∀ k r r', (p.1.procs r).InBlock D k → (p.1.procs r').InBlock D k → r = r'

section Single

variable {D : Deployment} {s : State} {h : Herd} {r : ℕ} {input : Input} {redis : RedisServer}
  {proc : Proc} {allowed : State × Herd → Event → Prop} {p q : State × Herd} {e : Event}

/-- Whoever acquires the lock finds nobody inside a block under it: a running
lease would have refused it, and an expired one is excluded. -/
theorem alone_of_acquiring (hSingle : Single D p) (hSolo : Solo D p e) {turn : Turn}
    (hTurn : p.1.acquiring D e = some turn) (r : ℕ) :
    ¬(p.1.procs r).InBlock D (turn.ctx.dedupKey D) := by
  intro hIn
  have hLease := (hSolo turn hTurn).1 r (hSingle.entered _ r hIn) hIn
  have hPresent := hSingle.leased.lookup hIn hLease
  obtain ⟨_, _, _, hAbsent⟩ := acquiring_eq_some.mp hTurn
  rw [hPresent] at hAbsent
  cases hAbsent

theorem single_move (hSingle : Single D (s, h)) (hSolo : Solo D (s, h) (.deliver r input))
    (hMove : Move D s.now r s.redis (s.procs r) input redis proc) :
    Single D (⟨s.now, redis, Function.update s.procs r proc⟩,
      recordHerd D s (.deliver r input) h) where
  entered k w hIn := by
    by_cases hw : w = r
    · subst hw
      simp only [Function.update_self] at hIn
      rcases inBlock_of_move hMove hIn with hBefore | ⟨ctx, hProc, rfl, hKey, hAbsent, _, _⟩
      · exact List.mem_append_right _ (hSingle.entered k w hBefore)
      · have hTurn := acquiring_of_input (Or.inl rfl) hProc (hKey ▸ hAbsent)
        simp [recordHerd, hTurn]
    · simp only [Function.update_of_ne hw] at hIn
      exact List.mem_append_right _ (hSingle.entered k w hIn)
  leased := by
    refine leased_move hSingle.leased (fun turn hTurn w hIn _ => ?_) hMove
    exact hSingle.sole _ w turn.client hIn (inBlock_of_releasing hTurn)
  sole k w w' hIn hIn' := by
    have hOther : ∀ v, v ≠ r → (Function.update s.procs r proc v).InBlock D k →
        proc.InBlock D k → False := by
      intro v hv hInV hInR
      rw [Function.update_of_ne hv] at hInV
      rcases inBlock_of_move hMove hInR with hBefore | ⟨ctx, hProc, rfl, rfl, hAbsent, _, _⟩
      · exact hv (hSingle.sole k v r hInV hBefore)
      · have hTurn := acquiring_of_input (Or.inl rfl) hProc hAbsent
        exact alone_of_acquiring hSingle hSolo hTurn v hInV
    by_cases hw : w = r
    · by_cases hw' : w' = r
      · rw [hw, hw']
      · subst hw
        simp only [Function.update_self] at hIn
        exact (hOther w' hw' hIn' hIn).elim
    · by_cases hw' : w' = r
      · subst hw'
        simp only [Function.update_self] at hIn'
        exact (hOther w hw hIn hIn').elim
      · simp only [Function.update_of_ne hw, Function.update_of_ne hw'] at hIn hIn'
        exact hSingle.sole k w w' hIn hIn'

/-- A response is cached under the key of this request. -/
def Stores (D : Deployment) (s : State) (e : Event) (ctx : Ctx) : Prop :=
  ∃ y ctx₀ f, s.executes e = some ⟨y, ctx₀, .setCached f⟩ ∧ ctx₀.cacheKey D = ctx.cacheKey D

theorem set_of_executes {y : ℕ} {ctx₀ : Ctx} {f : Fetched}
    (hExecutes : s.executes (.deliver r input) = some ⟨y, ctx₀, .setCached f⟩)
    (hMove : Move D s.now r s.redis (s.procs r) input redis proc) :
    redis = s.redis.set (ctx₀.cacheKey D) (.text f.cached) (some (s.now + ctx₀.ttl)) r :=
  server_of_executes hExecutes hMove

theorem stored_of_not_stores {w : ℕ} {ctx : Ctx} {pc : Pc} (hProc : s.procs w = .running ctx pc)
    (hw : w ≠ r) (hNot : ¬Stores D s (.deliver r input) ctx) :
    (recordHerd D s (.deliver r input) h).stored w = h.stored w := by
  simp only [recordHerd]
  split
  case h_1 y ctx₀ f hExecutes =>
    refine if_neg fun hSame => hNot ⟨y, ctx₀, f, hExecutes, ?_⟩
    simpa [hProc, Proc.request?] using hSame.symm
  case h_2 r' ctx₀ hExecutes =>
    have hClient : r' = r := client_of_executes hExecutes
    exact if_neg fun hSame => hw (hSame.symm.trans hClient)
  case h_3 => rfl

theorem looked_move (hLooked : Looked D (s, h))
    (hMove : Move D s.now r s.redis (s.procs r) input redis proc) :
    Looked D (⟨s.now, redis, Function.update s.procs r proc⟩,
      recordHerd D s (.deliver r input) h) := by
  intro w ctx hProc
  by_cases hw : w = r
  · -- it has just missed the cache
    subst hw
    simp only [Function.update_self] at hProc
    rw [hProc] at hMove
    rcases start_cases hMove with ⟨_, _, _, _, hPc⟩ | ⟨ctx₀, pc₀, hBefore, hFlow⟩
    · cases hPc
    · cases hFlow with
      | missed =>
        rw [hBefore] at hMove
        cases hMove with
        | reply _ _ hReply =>
          have hMissed := missed_of_getCached hReply
          obtain ⟨rfl, _⟩ := Prod.mk.inj (Option.some.inj hReply)
          have hRecord : (recordHerd D s (.deliver w .reply) h).stored w = none := by
            simp [recordHerd, State.executes, State.turn, hBefore]
          rw [hRecord]
          exact hMissed
  · simp only [Function.update_of_ne hw] at hProc
    have hView := hLooked w ctx hProc
    by_cases hStores : Stores D s (.deliver r input) ctx
    · obtain ⟨y, ctx₀, f, hExecutes, hKey⟩ := hStores
      have hRecord : (recordHerd D s (.deliver r input) h).stored w =
          some (s.now + ctx₀.ttl) := by
        simp [recordHerd, hExecutes, hProc, Proc.request?, hKey]
      rw [hRecord]
      exact ⟨_, by rw [set_of_executes hExecutes hMove, hKey, Redis.Server.set_entries_self], rfl⟩
    · rw [stored_of_not_stores hProc hw hStores]
      rcases cache_cases ctx hMove with hSame | ⟨ctx₀, f, hBefore, hInput, hKey, _⟩
      · simpa only [Redis.Server.lookup_congr hSame, hSame] using hView
      · exact absurd ⟨r, ctx₀, f, executes_of_input hInput hBefore, hKey⟩ hStores

theorem looked_elapse {dt : ℚ} (hdt : 0 ≤ dt) (hLooked : Looked D (s, h)) :
    Looked D ({ s with now := s.now + dt }, h) := by
  intro r ctx hProc
  have hView := hLooked r ctx hProc
  change match h.stored r with
    | none => s.redis.lookup (s.now + dt) (ctx.cacheKey D) = none
    | some t => ∃ entry, s.redis.entries (ctx.cacheKey D) = some entry ∧ entry.expiresAt = some t
  cases hStored : h.stored r with
  | none =>
      simp only [hStored] at hView
      cases hLater : s.redis.lookup (s.now + dt) (ctx.cacheKey D) with
      | none => rfl
      | some entry =>
          rw [Redis.Server.lookup_anti (le_add_of_nonneg_right hdt) hLater] at hView
          cases hView
  | some t =>
      simp only [hStored] at hView
      exact hView

theorem looked_run (run : (herd D).Reaches allowed p) : Looked D p := by
  refine run.invariant (fun p hInit r ctx hProc => ?_) fun p q e _ ih _ next => ?_
  · rw [hInit.1.2.2 r] at hProc
    cases hProc
  · obtain ⟨s, h⟩ := p
    rcases recorded_cases next with ⟨dt, rfl, hdt, rfl⟩ | ⟨r, input, redis, proc, rfl, hMove, rfl⟩
    · exact looked_elapse hdt ih
    · exact looked_move ih hMove

theorem single_run (run : (herd D).Reaches (Solo D) p) : Single D p := by
  refine run.invariant (fun p hInit => ?_) fun p q e _ ih hSolo next => ?_
  · have hNobody : ∀ k r, ¬(p.1.procs r).InBlock D k := fun k r hIn => by
      rw [hInit.1.2.2 r] at hIn
      exact hIn.elim
    exact ⟨fun k r hIn => (hNobody k r hIn).elim, fun k r hIn => (hNobody k r hIn).elim,
      fun k r _ hIn => (hNobody k r hIn).elim⟩
  · obtain ⟨s, h⟩ := p
    rcases recorded_cases next with ⟨dt, rfl, hdt, rfl⟩ | ⟨r, input, redis, proc, rfl, hMove, rfl⟩
    · exact ⟨ih.entered, leased_elapse hdt ih.leased, ih.sole⟩
    · exact single_move ih hSolo hMove

theorem inBlock_of_calling {k : String} {proc : Proc} (h : proc.Calling D k) :
    proc.InBlock D k := by
  cases proc with
  | running ctx pc =>
      cases pc with
      | callVendor => exact ⟨rfl, h⟩
      | _ => exact h.elim
  | _ => exact h.elim

end Single

/-- No redundant vendor call, in every run of solo acquisitions: whoever starts
its vendor call is alone with it, and nothing is cached under its key; and at
any time at most one request is inside a block under one lock. As for the cache
alone the condition is exact in any run. -/
theorem vendor_call_needed (D : Deployment) :
    (∀ p, (herd D).Reaches (Solo D) p → ∀ e, Solo D p e → NeededCall D p.1 e) ∧
    (∀ p, (herd D).Reaches (Solo D) p → ∀ k r r', (p.1.procs r).InBlock D k →
      (p.1.procs r').InBlock D k → r = r') ∧
    ∀ p, (herd D).Reaches System.anyRun p → ∀ e, ∀ turn ∈ p.1.acquiring D e,
      (p.1.redis.lookup p.1.now (turn.ctx.cacheKey D) = none ↔
        ∀ t ∈ p.2.stored turn.client, t ≤ p.1.now) := by
  have hExact : ∀ p, (herd D).Reaches System.anyRun p → ∀ e, ∀ turn ∈ p.1.acquiring D e,
      (p.1.redis.lookup p.1.now (turn.ctx.cacheKey D) = none ↔
        ∀ t ∈ p.2.stored turn.client, t ≤ p.1.now) := by
    intro p run e turn hTurn
    obtain ⟨_, hProc, hPc, _⟩ := acquiring_eq_some.mp hTurn
    rw [hPc] at hProc
    exact lookup_iff_stored (looked_run run) hProc
  refine ⟨fun p run e hSolo turn hTurn => ⟨fun r _ hCalling => ?_, ?_⟩,
    fun p run => (single_run run).sole, hExact⟩
  · exact alone_of_acquiring (single_run run) hSolo hTurn r (inBlock_of_calling hCalling)
  · exact (hExact p (run.mono fun _ _ _ => trivial) e turn hTurn).mpr (hSolo turn hTurn).2

section Traces

theorem init_herd {D : Deployment} : (herd D).init (sampleStart, Herd.start) :=
  ⟨init_sampleStart, rfl⟩

/-- Vendor answer, the three writes of a cached call, and the release. -/
def cachedCall (r : ℕ) : List Event :=
  [.deliver r (.vendor (.response ⟨200, [], []⟩)), .deliver r .reply, .deliver r .reply,
    .deliver r .reply, .deliver r .reply]

/-- The second call is made when the cached response of the first has expired. -/
theorem vendor_call_needed_after_expiry :
    ∃ p, (herd (sampleDeployment 60)).Reaches (Solo (sampleDeployment 60)) p ∧
      (p.1.acquiring (sampleDeployment 60) (.deliver 1 .reply)).isSome = true ∧
      NeededCall (sampleDeployment 60) p.1 (.deliver 1 .reply) := by
  have hDone : ((herd (sampleDeployment 60)).exec (Solo (sampleDeployment 60))
      (sampleStart, Herd.start) (upToLock 0 (sampleRequest .get "p") ++ .deliver 0 .reply ::
        cachedCall 0 ++ .elapse 60 :: upToLock 1 (sampleRequest .get "p"))).any
      (fun p => decide (Solo (sampleDeployment 60) p (.deliver 1 .reply) ∧
        (p.1.acquiring (sampleDeployment 60) (.deliver 1 .reply)).isSome = true)) = true := by
    decide +kernel
  obtain ⟨p, run, hCheck⟩ := System.Reaches.exec_any (.init init_herd) hDone
  obtain ⟨hSolo, hAcquires⟩ := of_decide_eq_true hCheck
  exact ⟨p, run, hAcquires, (vendor_call_needed _).1 p run _ hSolo⟩

/-- Two requests miss the cache together. The first calls the vendor, caches the
response and releases the lock, and then the second takes the lock. -/
def lookedTooEarly : List Event :=
  upToLock 0 (sampleRequest .get "p") ++ upToLock 1 (sampleRequest .get "p") ++
    .deliver 0 .reply :: cachedCall 0

/-- Two requests miss the cache together. The lock of the first expires while it
calls the vendor, and then the second takes the lock. -/
def calledTooLong : List Event :=
  upToLock 0 (sampleRequest .get "p") ++ upToLock 1 (sampleRequest .get "p") ++
    [.deliver 0 .reply, .elapse 31]

theorem vendor_call_redundant :
    (∃ p, (herd (sampleDeployment 60)).Reaches System.anyRun p ∧
      ¬NeededCall (sampleDeployment 60) p.1 (.deliver 1 .reply) ∧
      ∃ turn, p.1.acquiring (sampleDeployment 60) (.deliver 1 .reply) = some turn ∧
        p.1.redis.lookup p.1.now (turn.ctx.cacheKey (sampleDeployment 60)) ≠ none) ∧
    ∃ p, (herd (sampleDeployment 60)).Reaches System.anyRun p ∧
      ¬NeededCall (sampleDeployment 60) p.1 (.deliver 1 .reply) ∧
      ∃ turn, p.1.acquiring (sampleDeployment 60) (.deliver 1 .reply) = some turn ∧
        turn.client = 1 ∧ (p.1.procs 0).Calling (sampleDeployment 60)
          (turn.ctx.dedupKey (sampleDeployment 60)) := by
  have hCached : ((herd (sampleDeployment 60)).exec System.anyRun (sampleStart, Herd.start)
      lookedTooEarly).any (fun p =>
        (p.1.acquiring (sampleDeployment 60) (.deliver 1 .reply)).any fun turn =>
          decide (p.1.redis.lookup p.1.now (turn.ctx.cacheKey (sampleDeployment 60)) ≠ none)) =
      true := by
    decide +kernel
  have hCalling : ((herd (sampleDeployment 60)).exec System.anyRun (sampleStart, Herd.start)
      calledTooLong).any (fun p =>
        (p.1.acquiring (sampleDeployment 60) (.deliver 1 .reply)).any fun turn =>
          decide (turn.client = 1 ∧ (p.1.procs 0).Calling (sampleDeployment 60)
            (turn.ctx.dedupKey (sampleDeployment 60)))) = true := by
    decide +kernel
  refine ⟨?_, ?_⟩
  · obtain ⟨p, run, hCheck⟩ := System.Reaches.exec_any (.init init_herd) hCached
    obtain ⟨turn, hTurn, hPresent⟩ := (Option.any_eq_true _ _).mp hCheck
    have hFound := of_decide_eq_true hPresent
    exact ⟨p, run, fun hNeeded => hFound (hNeeded turn hTurn).2, turn, hTurn, hFound⟩
  · obtain ⟨p, run, hCheck⟩ := System.Reaches.exec_any (.init init_herd) hCalling
    obtain ⟨turn, hTurn, hBoth⟩ := (Option.any_eq_true _ _).mp hCheck
    obtain ⟨hClient, hBusy⟩ := of_decide_eq_true hBoth
    have hOther : 0 ≠ turn.client := by
      rw [hClient]
      exact Nat.zero_ne_one
    exact ⟨p, run, fun hNeeded => (hNeeded turn hTurn).1 0 hOther hBusy, turn, hTurn, hClient,
      hBusy⟩

end Traces

end Gateway.Routes

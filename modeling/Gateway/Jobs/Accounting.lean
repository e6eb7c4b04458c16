import Gateway.Jobs.Served
import Gateway.Runs.HardBlock

/-! What the counters of an API key count. A request whose vendor call succeeds
increments a counter once before it is answered; the worker, which calls the
same vendor for the jobs, increments none. -/
namespace Gateway.Served

open Transition Gateway.Db Gateway.Quota Gateway.Jobs Gateway.Routes Gateway.Vendors

/-- The one active API key of its vendor, with a limit and a period. -/
structure SoleKey (D : Deployment) (k : VendorApiKey) : Prop where
  mem : k ∈ D.apiKeys
  active : k.isActive = true
  sole : ∀ k' ∈ D.apiKeys, k'.vendorId = k.vendorId → k'.isActive = true → k' = k
  limit : k.quotaLimit.isSome = true
  period : k.quotaPeriod = some "daily" ∨ k.quotaPeriod = some "monthly"

section Events

variable (k : VendorApiKey) (s : State)

/-- Redis executes an INCR on a counter of the API key. -/
def increments : Event → Bool
  | .route e => (s.routes.executes e).any fun turn =>
      match turn.pc with
      | .incrQuota _ c => decide (c.keyId = k.id)
      | _ => false
  | _ => false

/-- A request to the vendor of the API key gets a 2xx answer to its vendor call. -/
def succeeds : Event → Bool
  | .route (.deliver r (.vendor (.response v))) => success v.statusCode &&
      (s.routes.turn r).any fun turn => decide (turn.ctx.config.id = k.vendorId)
  | _ => false

/-- The worker gets a 2xx answer to its call for a job of that vendor. -/
def jobSucceeds : Event → Bool
  | .work (.called (.response v _)) => success v.statusCode &&
      match s.jobs.worker with
      | .calling job _ _ => decide (job.vendorId = k.vendorId)
      | _ => false
  | _ => false

end Events

/-- History: the INCRs on the counters of an API key, and the calls of its
vendor that returned 2xx, for requests and for jobs. -/
structure Account where
  incrs : ℕ
  proxied : ℕ
  jobs : ℕ

def recordAccount (k : VendorApiKey) (s : State) (e : Event) (h : Account) : Account where
  incrs := h.incrs + (increments k s e).toNat
  proxied := h.proxied + (succeeds k s e).toNat
  jobs := h.jobs + (jobSucceeds k s e).toNat

def accounted (D : Deployment) (k : VendorApiKey) : System (State × Account) Event :=
  (machine D).withHistory ⟨0, 0, 0⟩ (recordAccount k)

/-- No command on Redis fails in this event; the worker uses none. -/
def State.redisUp (s : State) : Event → Bool
  | .route e => s.routes.redisUp e
  | _ => true

/-- The awaits between a 2xx answer and its INCR. -/
def uncharged : Pc → Bool
  | .setCached _ | .setResult _ | .publish _ | .incrQuota _ _ => true
  | _ => false

/-- The request has its 2xx answer from the vendor of the key, and its INCR to come. -/
def owes (k : VendorApiKey) : Proc → Bool
  | .running ctx pc => decide (ctx.config.id = k.vendorId) && uncharged pc
  | _ => false

/-- Each successful call is charged once: the INCRs, and those that are still to
come from requests on their way to them, are as many as the 2xx answers. -/
def ChargedOnce (k : VendorApiKey) (s : State) (h : Account) : Prop :=
  ∃ owing : Finset ℕ, (∀ r, r ∈ owing ↔ owes k (s.routes.procs r) = true) ∧
    h.incrs + owing.card = h.proxied + h.jobs

/-- Beyond the key query a request has an active key of its vendor, if there is
one, and increments a counter of that key. -/
structure Loaded (D : Deployment) (s : Routes.State) : Prop where
  active : ∀ r ctx pc, s.procs r = .running ctx pc → pc.database = false →
    D.activeApiKey ctx.config ctx.apiKey = true
  counting : ∀ r ctx f c, s.procs r = .running ctx (.incrQuota f c) →
    ∃ t, ctx.counterAt t = some c

section Keys

variable {D : Deployment} {k : VendorApiKey} {σ : Routes.State} {r : ℕ} {input : Input}
  {redis : RedisServer} {proc : Proc} {ctx : Ctx} {pc : Pc} {f : Fetched} {c : Counter}

theorem active_of_read {ctx : Ctx} {row : Option VendorApiKey}
    (hMove : Move D σ.now r σ.redis (.running ctx .loadApiKey) (.apiKeyRow row) redis proc) :
    D.activeApiKey ctx.config row = true := by
  cases hMove with
  | apiKeyRow _ _ hRow => exact hRow

theorem active_move (hLoaded : Loaded D σ)
    (hMove : Move D σ.now r σ.redis (σ.procs r) input redis (.running ctx pc))
    (hPc : pc.database = false) : D.activeApiKey ctx.config ctx.apiKey = true := by
  rcases start_cases hMove with ⟨_, _, _, _, rfl⟩ | ⟨ctx₀, pc₀, hBefore, hFlow⟩
  · cases hPc
  · rw [hBefore] at hMove
    cases hFlow with
    | asyncJob => cases hPc
    | synchronous => cases hPc
    | limited =>
        have hActive := active_of_read hMove
        exact hActive
    | unlimited =>
        have hActive := active_of_read hMove
        exact hActive
    | _ => exact hLoaded.active r _ _ hBefore rfl

theorem counting_move
    (hMove : Move D σ.now r σ.redis (σ.procs r) input redis (.running ctx (.incrQuota f c))) :
    ∃ t, ctx.counterAt t = some c := by
  rcases start_cases hMove with ⟨_, _, _, _, hPc⟩ | ⟨ctx₀, pc₀, _, hFlow⟩
  · cases hPc
  · cases hFlow with
    | charging _ _ hCounter => exact ⟨σ.now, hCounter⟩

theorem loaded_run (run : D.machine.Reaches System.anyRun σ) : Loaded D σ := by
  refine run.invariant (fun σ hInit => ?_) fun σ τ e _ ih _ next => ?_
  · obtain ⟨_, _, hIdle⟩ := hInit
    refine ⟨fun r ctx pc hProc => ?_, fun r ctx f c hProc => ?_⟩
    · cases (hIdle r).symm.trans hProc
    · cases (hIdle r).symm.trans hProc
  · rcases Routes.step_cases next with ⟨dt, _, _, rfl⟩ | ⟨r, input, redis, proc, _, hMove, rfl⟩
    · exact ⟨ih.active, ih.counting⟩
    · refine ⟨fun w ctx pc hProc hPc => ?_, fun w ctx f c hProc => ?_⟩
      · rcases procs_cases hProc with ⟨rfl, rfl⟩ | ⟨_, hOld⟩
        · exact active_move ih hMove hPc
        · exact ih.active w ctx pc hOld hPc
      · rcases procs_cases hProc with ⟨rfl, rfl⟩ | ⟨_, hOld⟩
        · exact counting_move hMove
        · exact ih.counting w ctx f c hOld

theorem activeApiKey_cases {config : VendorConfig} {row : Option VendorApiKey}
    (h : D.activeApiKey config row = true) :
    (∃ k, row = some k ∧ k ∈ D.apiKeys ∧ k.vendorId = config.id ∧ k.isActive = true) ∨
      row = none ∧ ∀ k ∈ D.apiKeys, k.vendorId = config.id → k.isActive = false := by
  cases row with
  | none =>
      refine Or.inr ⟨rfl, fun k hMem hVendor => ?_⟩
      have hEmpty : (D.apiKeys.filter fun k => k.vendorId = config.id ∧ k.isActive) = [] := by
        simpa [Deployment.activeApiKey] using h
      simpa [hVendor] using List.filter_eq_nil_iff.mp hEmpty k hMem
  | some k =>
      have hMem : k ∈ D.apiKeys.filter fun k => k.vendorId = config.id ∧ k.isActive := by
        simpa [Deployment.activeApiKey] using h
      obtain ⟨hMem, hBoth⟩ := List.mem_filter.mp hMem
      have hBoth := of_decide_eq_true hBoth
      exact Or.inl ⟨k, rfl, hMem, hBoth.1, hBoth.2⟩

/-- At the vendor of a sole key every request works with that key. -/
theorem SoleKey.apiKey (hSole : SoleKey D k) (hVendor : ctx.config.id = k.vendorId)
    (hActive : D.activeApiKey ctx.config ctx.apiKey = true) : ctx.apiKey = some k := by
  rcases activeApiKey_cases hActive with ⟨k', hKey, hMem, hId, hOn⟩ | ⟨_, hNone⟩
  · rw [hKey, hSole.sole k' hMem (hId.trans hVendor) hOn]
  · have hOff := hNone k hSole.mem hVendor.symm
    rw [hSole.active] at hOff
    cases hOff

/-- A request at that vendor has a counter at any time. -/
theorem SoleKey.counterAt (hSole : SoleKey D k) (hKey : ctx.apiKey = some k) (t : ℚ) :
    ∃ c, ctx.counterAt t = some c := by
  obtain ⟨limit, hLimit⟩ := Option.isSome_iff_exists.mp hSole.limit
  rw [counterAt_of_key hKey hLimit]
  rcases hSole.period with hPeriod | hPeriod <;>
    simp [counterOf, quotaPeriodOf, hPeriod, Quota.counterAt, periodBucket]

/-- The counter of a request belongs to the sole key of a vendor if and only if
the request goes to that vendor. -/
theorem SoleKey.keyId_iff (hSole : SoleKey D k) {t : ℚ} (hCounter : ctx.counterAt t = some c)
    (hActive : D.activeApiKey ctx.config ctx.apiKey = true) :
    c.keyId = k.id ↔ ctx.config.id = k.vendorId := by
  obtain ⟨k', _, _, hKey, _, _, hAt⟩ := counterAt_cases hCounter
  have hId : c.keyId = k'.id := (counterAt_ids hAt).2
  rcases activeApiKey_cases hActive with ⟨k'', hSome, hMem, hVendor, hOn⟩ | ⟨hNone, _⟩
  · obtain rfl : k'' = k' := Option.some.inj (hSome.symm.trans hKey)
    constructor
    · intro hSame
      rw [← hVendor, D.apiKeys_id k'' hMem k hSole.mem (hId.symm.trans hSame)]
    · intro hConfig
      rw [hId, hSole.sole k'' hMem (hVendor.trans hConfig) hOn]
  · rw [hKey] at hNone
    cases hNone

end Keys

section Balance

variable {D : Deployment} {k : VendorApiKey} {s : State} {r : ℕ} {input : Input}
  {redis : RedisServer} {proc : Proc} {ctx : Ctx} {pc : Pc}

theorem owes_of_continues (hContinues : Continues D s.routes.now s.routes.redis ctx pc input proc)
    (hPc : uncharged pc = false) (hCall : pc ≠ .callVendor) : owes k proc = false := by
  cases proc with
  | idle => rfl
  | finished request outcome => rfl
  | running ctx' pc' =>
      have hFlow : Flow s.routes.now ctx pc input ctx' pc' := hContinues
      cases hFlow with
      | storable => exact absurd rfl hCall
      | notStorable => exact absurd rfl hCall
      | cached => cases hPc
      | shared => cases hPc
      | charging => cases hPc
      | _ => simp [owes, uncharged]

/-- Only the vendor call takes an answer of the vendor. -/
theorem succeeds_of_ne (hMove : Move D s.routes.now r s.routes.redis (s.routes.procs r) input redis proc)
    (hProc : s.routes.procs r = .running ctx pc) (hCall : pc ≠ .callVendor) :
    succeeds k s (.route (.deliver r input)) = false := by
  rw [hProc] at hMove
  cases hMove with
  | vendor => exact absurd rfl hCall
  | _ => rfl

theorem increments_of_ne (hProc : s.routes.procs r = .running ctx pc)
    (hPc : ∀ f c, pc ≠ .incrQuota f c) : increments k s (.route (.deliver r input)) = false := by
  simp only [increments]
  cases hExecutes : s.routes.executes (.deliver r input) with
  | none => rfl
  | some turn =>
      obtain rfl := client_of_executes hExecutes
      have hSame := (executes_eq_some.mp hExecutes).2
      rw [hProc] at hSame
      obtain ⟨-, rfl⟩ := Proc.running.inj hSame
      cases hTurn : turn.pc with
      | incrQuota f c => exact absurd hTurn (hPc f c)
      | _ => simp [hTurn]

theorem owes_start (request : Inbound) : owes k (D.start request) = false := by
  unfold Deployment.start
  split
  · rfl
  · split_ifs
    · simp [owes, uncharged]
    · rfl

/-- After the publication a request to the vendor of the sole key is about to
increment a counter. -/
theorem owes_afterPublish (hSole : SoleKey D k)
    (hActive : D.activeApiKey ctx.config ctx.apiKey = true) (f : Fetched) (now : ℚ) :
    owes k (afterPublish ctx now f) = owes k (.running ctx (.publish f)) := by
  by_cases hVendor : ctx.config.id = k.vendorId
  · obtain ⟨c, hCounter⟩ := hSole.counterAt (hSole.apiKey hVendor hActive) now
    simp [afterPublish, hCounter, owes, uncharged]
  · unfold afterPublish
    split <;> simp [owes, hVendor]

theorem owes_afterIncrQuota (f : Fetched) (c : Counter) (newCount : Option ℤ) :
    owes k (afterIncrQuota ctx f c newCount) = false := by
  unfold afterIncrQuota
  split <;> simp [owes, uncharged]

/-- The INCR of a request is one on a counter of the sole key if the request
goes to the vendor of that key. -/
theorem increments_incrQuota (hSole : SoleKey D k) (hLoaded : Loaded D s.routes) {f : Fetched}
    {c : Counter} (hProc : s.routes.procs r = .running ctx (.incrQuota f c)) :
    increments k s (.route (.deliver r .reply)) = decide (ctx.config.id = k.vendorId) := by
  obtain ⟨t, hCounter⟩ := hLoaded.counting r ctx f c hProc
  have hActive := hLoaded.active r ctx _ hProc rfl
  have hExecutes : s.routes.executes (.deliver r .reply) = some ⟨r, ctx, .incrQuota f c⟩ :=
    executes_of_input (Or.inl rfl) hProc
  simp only [increments, hExecutes, Option.any_some]
  exact decide_eq_decide.mpr (hSole.keyId_iff hCounter hActive)

/-- A 2xx answer makes a request owe an INCR. -/
theorem owes_afterCallVendor (hProc : s.routes.procs r = .running ctx .callVendor)
    (outcome : VendorOutcome) :
    owes k (afterCallVendor ctx s.routes.now outcome) =
      succeeds k s (.route (.deliver r (.vendor outcome))) := by
  have hTurn : s.routes.turn r = some ⟨r, ctx, .callVendor⟩ := turn_eq_some.mpr ⟨rfl, hProc⟩
  cases outcome with
  | response v =>
      simp only [afterCallVendor, succeeds, hTurn, Option.any_some]
      split_ifs with hSuccess hStorable
      · simp [owes, uncharged, hSuccess]
      · simp [owes, uncharged, hSuccess]
      · simp [owes, uncharged, hSuccess]
  | _ => simp [afterCallVendor, owes, uncharged, succeeds]

/-- What a request owes after a move, together with what it has been charged in
it, is what it owed before and what it has got from its vendor in the move. -/
theorem balance_move (hSole : SoleKey D k) (hLoaded : Loaded D s.routes)
    (hUp : s.routes.redisUp (.deliver r input) = true)
    (hMove : Move D s.routes.now r s.routes.redis (s.routes.procs r) input redis proc) :
    (owes k proc).toNat + (increments k s (.route (.deliver r input))).toNat =
      (owes k (s.routes.procs r)).toNat + (succeeds k s (.route (.deliver r input))).toNat := by
  cases hProc : s.routes.procs r with
  | idle =>
      rw [hProc] at hMove
      cases hMove with
      | arrive request =>
        rw [owes_start]
        rfl
  | finished request outcome =>
      rw [hProc] at hMove
      cases hMove
  | running ctx pc =>
      by_cases hPc : uncharged pc = true
      · have hCommand : pc.command = true := by
          cases pc <;> first | rfl | cases hPc
        obtain ⟨rfl, hReply⟩ := reply_of_redisUp hUp hMove hProc hCommand
        have hSucceeds : succeeds k s (.route (.deliver r .reply)) = false := rfl
        rw [hSucceeds]
        cases pc with
        | setCached f =>
            obtain ⟨-, rfl⟩ := Prod.mk.inj (Option.some.inj hReply)
            rw [increments_of_ne hProc fun _ _ => by simp]
            rfl
        | setResult f =>
            obtain ⟨-, rfl⟩ := Prod.mk.inj (Option.some.inj hReply)
            rw [increments_of_ne hProc fun _ _ => by simp]
            rfl
        | publish f =>
            obtain ⟨-, rfl⟩ := Prod.mk.inj (Option.some.inj hReply)
            rw [increments_of_ne hProc fun _ _ => by simp,
              owes_afterPublish hSole (hLoaded.active r ctx _ hProc rfl)]
        | incrQuota f c =>
            rw [increments_incrQuota hSole hLoaded hProc]
            obtain ⟨count, rfl⟩ : ∃ count, proc = afterIncrQuota ctx f c count := by
              rcases reply_incrQuota hReply with ⟨n, -, hAfter⟩ | ⟨-, -, hAfter⟩
              · exact ⟨some n, hAfter⟩
              · exact ⟨none, hAfter⟩
            rw [owes_afterIncrQuota]
            simp [owes, uncharged]
        | _ => cases hPc
      · have hBefore : owes k (.running ctx pc) = false := by simp [owes, hPc]
        have hFree : ∀ f c, pc ≠ .incrQuota f c := by
          rintro f c rfl
          exact hPc rfl
        rw [hBefore, increments_of_ne hProc hFree]
        by_cases hCall : pc = .callVendor
        · subst hCall
          rw [hProc] at hMove
          cases hMove with
          | vendor _ outcome => simp [owes_afterCallVendor hProc outcome]
          | reply _ _ hReply => cases hReply
          | raised _ _ _ hRaise => cases hRaise
        · rw [succeeds_of_ne hMove hProc hCall]
          rw [hProc] at hMove
          rw [owes_of_continues (continues_of_move hMove) (Bool.eq_false_iff.mpr hPc) hCall]

/-- The requests that owe an INCR, after one of them has moved. -/
theorem exists_owing (r : ℕ) (proc : Proc) {procs : ℕ → Proc} {owing : Finset ℕ}
    (hOwing : ∀ w, w ∈ owing ↔ owes k (procs w) = true) :
    ∃ owing' : Finset ℕ, (∀ w, w ∈ owing' ↔ owes k (Function.update procs r proc w) = true) ∧
      owing'.card + (owes k (procs r)).toNat = owing.card + (owes k proc).toNat := by
  refine ⟨if owes k proc = true then insert r owing else owing.erase r, fun w => ?_, ?_⟩
  · by_cases hw : w = r
    · subst hw
      split_ifs with hAfter <;> simp [hAfter]
    · rw [Function.update_of_ne hw, ← hOwing]
      split_ifs <;> simp [hw]
  · by_cases hMem : r ∈ owing
    · have hBefore := (hOwing r).mp hMem
      split_ifs with hAfter
      · simp [hMem, hBefore, hAfter]
      · have hCard := Finset.card_erase_add_one hMem
        simp only [hBefore, hAfter, Bool.toNat_true, Bool.toNat_false] at hCard ⊢
        omega
    · have hBefore : owes k (procs r) = false := by
        rw [← Bool.not_eq_true, ← hOwing]
        exact hMem
      split_ifs with hAfter
      · simp [hMem, hBefore, hAfter]
      · simp [hMem, hBefore, hAfter]

/-- On the way of the requests nothing is missed and nothing else is charged. -/
def Balanced (k : VendorApiKey) (s : State) (h : Account) : Prop :=
  ∃ owing : Finset ℕ, (∀ r, r ∈ owing ↔ owes k (s.routes.procs r) = true) ∧
    h.incrs + owing.card = h.proxied

theorem balanced_route {h : Account} (hSole : SoleKey D k) (hLoaded : Loaded D s.routes)
    (hBalanced : Balanced k s h) {e : Routes.Event} {routes : Routes.State}
    (hUp : s.routes.redisUp e = true) (hRoute : D.machine.step s.routes e = some routes) :
    Balanced k ⟨routes, s.jobs⟩ (recordAccount k s (.route e) h) := by
  obtain ⟨owing, hOwing, hSum⟩ := hBalanced
  rcases Routes.step_cases hRoute with ⟨dt, rfl, _, rfl⟩ | ⟨r, input, redis, proc, rfl, hMove, rfl⟩
  · exact ⟨owing, hOwing, hSum⟩
  · obtain ⟨owing', hOwing', hCard⟩ := exists_owing r proc hOwing
    have hMoved := balance_move hSole hLoaded hUp hMove
    refine ⟨owing', hOwing', ?_⟩
    simp only [recordAccount]
    omega

/-- To store a job charges nothing. -/
theorem balanced_store {h : Account} (hBalanced : Balanced k s h) {id : Uuid} {refreshed : Bool}
    {turn : Turn} {job : JobRequest} {jobs : Worker.State} {routes : Routes.State}
    (hTurn : s.routes.turn r = some turn) (hJob : jobRequest turn = some job)
    (hRoute : D.machine.step s.routes (.deliver r (stored id refreshed)) = some routes) :
    Balanced k ⟨routes, jobs⟩ (recordAccount k s (.store r id refreshed) h) := by
  obtain ⟨owing, hOwing, hSum⟩ := hBalanced
  obtain ⟨-, hProc⟩ := turn_eq_some.mp hTurn
  rw [pc_of_jobRequest hJob] at hProc
  rcases Routes.step_cases hRoute with ⟨_, hEvent, _⟩ | ⟨_, _, redis, proc, hEvent, hMove, rfl⟩
  · cases hEvent
  · obtain ⟨rfl, rfl⟩ := Event.deliver.inj hEvent
    obtain ⟨owing', hOwing', hCard⟩ := exists_owing r proc hOwing
    rw [hProc] at hMove hCard
    rw [owes_of_continues (continues_of_move hMove) rfl (by simp)] at hCard
    refine ⟨owing', hOwing', ?_⟩
    have hBefore : owes k (.running turn.ctx .createJob) = false := by simp [owes, uncharged]
    simp only [hBefore, Bool.toNat_false, Nat.add_zero] at hCard
    rw [hCard]
    exact hSum

theorem balanced_run (hSole : SoleKey D k) {h : Account}
    (run : (accounted D k).Reaches (fun p e => p.1.redisUp e = true) (s, h)) : Balanced k s h := by
  refine run.invariant (I := fun p => Balanced k p.1 p.2) (fun p hInit => ?_)
    fun p q e prior ih hUp next => ?_
  · obtain ⟨s, h⟩ := p
    obtain ⟨⟨⟨_, _, hIdle⟩, _⟩, rfl⟩ := hInit
    have hIdle : ∀ r, s.routes.procs r = .idle := hIdle
    exact ⟨∅, fun r => by simp [hIdle r, owes], rfl⟩
  · obtain ⟨s, h⟩ := p
    obtain ⟨t, h'⟩ := q
    obtain ⟨hStep, rfl⟩ := System.withHistory_step next
    have hLoaded := loaded_run (routes_of_run prior)
    cases step_cases hStep with
    | route e routes hRoute => exact balanced_route hSole hLoaded ih hUp hRoute
    | store r id refreshed turn job jobs routes hTurn hJob hCreate hRoute =>
        exact balanced_store ih hTurn hJob hRoute
    | work e jobs hWork => exact ih

theorem Balanced.chargedOnce_iff {h : Account} (hBalanced : Balanced k s h) :
    ChargedOnce k s h ↔ h.jobs = 0 := by
  obtain ⟨owing, hOwing, hSum⟩ := hBalanced
  constructor
  · rintro ⟨owing', hOwing', hAll⟩
    have hSame : owing' = owing := by
      ext r
      rw [hOwing', hOwing]
    rw [hSame] at hAll
    omega
  · intro hNone
    exact ⟨owing, hOwing, by omega⟩

end Balance

/-- In every run without a Redis failure the INCRs on the counters of a sole key
account for the calls that requests made to its vendor; each successful call is
charged once if and only if no call for a job has been successful. -/
theorem charged_once_iff {D : Deployment} {k : VendorApiKey} (hSole : SoleKey D k) {s : State}
    {h : Account} (run : (accounted D k).Reaches (fun p e => p.1.redisUp e = true) (s, h)) :
    Balanced k s h ∧ (ChargedOnce k s h ↔ h.jobs = 0) :=
  ⟨balanced_run hSole run, (balanced_run hSole run).chargedOnce_iff⟩

section Sample

/-- A metered vendor with an asynchronous endpoint. -/
def jobDeployment : Deployment := { meteredDeployment with endpoints := [Worker.sampleEndpoint] }

def sampleStart : State := ⟨Routes.sampleStart, Worker.sampleStart⟩

theorem init_sampleStart : (accounted jobDeployment sampleKey).init (sampleStart, ⟨0, 0, 0⟩) :=
  ⟨⟨Routes.init_sampleStart, Worker.init_sampleStart⟩, rfl⟩

theorem soleKey_sampleKey : SoleKey jobDeployment sampleKey where
  mem := List.mem_singleton_self _
  active := rfl
  sole _ hMem _ _ := List.mem_singleton.mp hMem
  limit := rfl
  period := Or.inl rfl

/-- A synchronous request that is answered by the vendor and charged. -/
def chargedRequest : List Event := (upToAdmission 0 "q" ++ throughCharge 0).map .route

/-- The worker finds a job and gets it answered by the vendor. -/
def workOnJob : List Worker.Event :=
  .pendingRows [Worker.otherId] :: Worker.upToEndpoint ++
    [.endpointRow (some Worker.sampleEndpoint), .called (.response sampleAnswer (.ok ""))]

/-- The job of a request to the asynchronous endpoint, up to the answer. -/
def answeredJob : List Event :=
  Worker.load.map .work ++
    [.route (.deliver 0 (.arrive (sampleRequest .post "p"))), .route (.deliver 0 .endpointRow),
      .store 0 Worker.otherId true] ++
    workOnJob.map .work

def accounts (incrs proxied jobs : ℕ) (p : State × Account) : Bool :=
  p.2.incrs == incrs && p.2.proxied == proxied && p.2.jobs == jobs

theorem charged_once_request : ∃ p,
    (accounted jobDeployment sampleKey).Reaches (fun p e => p.1.redisUp e = true) p ∧
      accounts 1 1 0 p = true ∧ Balanced sampleKey p.1 p.2 ∧
      (ChargedOnce sampleKey p.1 p.2 ↔ p.2.jobs = 0) := by
  obtain ⟨p, run, hAccounts⟩ := (System.Reaches.init init_sampleStart).exec_any
    (by decide +kernel : ((accounted jobDeployment sampleKey).exec
      (fun p e => p.1.redisUp e = true) (sampleStart, ⟨0, 0, 0⟩) chargedRequest).any
        (accounts 1 1 0) = true)
  exact ⟨p, run, hAccounts, charged_once_iff soleKey_sampleKey run⟩

/-- The vendor has answered the call for the job, and no counter is incremented. -/
theorem job_not_charged : ∃ p,
    (accounted jobDeployment sampleKey).Reaches (fun p e => p.1.redisUp e = true) p ∧
      SoleKey jobDeployment sampleKey ∧ accounts 0 0 1 p = true ∧
      ¬ChargedOnce sampleKey p.1 p.2 := by
  obtain ⟨p, run, hAccounts⟩ := (System.Reaches.init init_sampleStart).exec_any
    (by decide +kernel : ((accounted jobDeployment sampleKey).exec
      (fun p e => p.1.redisUp e = true) (sampleStart, ⟨0, 0, 0⟩) answeredJob).any
        (accounts 0 0 1) = true)
  refine ⟨p, run, soleKey_sampleKey, hAccounts, ?_⟩
  rw [(balanced_run soleKey_sampleKey run).chargedOnce_iff]
  simp only [accounts, Bool.and_eq_true, beq_iff_eq] at hAccounts
  omega

end Sample

end Gateway.Served

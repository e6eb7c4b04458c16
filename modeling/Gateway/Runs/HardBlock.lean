import Gateway.Routes.Flow
import Mathlib.Data.Finset.Card
import Mathlib.Tactic.Linarith

/-! The quota as a hard block. The check and the charge of a request are two
commands with the vendor call between them, so the check of one request does
not see the requests that have been admitted and are not charged yet. -/
namespace Gateway.Routes

open Transition Gateway.Cache Gateway.Db Gateway.Quota Gateway.Vendors

/-- The awaits between admission and the charge. -/
def Pc.pending : Pc → Bool
  | .getCached | .acquireLock | .callVendor | .setCached _ | .setResult _ | .publish _ => true
  | _ => false

/-- The request may still charge this counter: it is about to, or it is admitted
and the bucket of the counter is not over. -/
def Proc.MayCharge (now : ℚ) (c : Counter) : Proc → Prop
  | .running ctx pc => (∃ f, pc = .incrQuota f c) ∨
      pc.pending = true ∧ ∃ t, now ≤ t ∧ ctx.counterAt t = some c
  | _ => False

/-- The request is admitted with this API key and not charged yet. -/
def Proc.inFlight (k : VendorApiKey) : Proc → Bool
  | .running ctx pc => decide (ctx.apiKey = some k) && (pc.pending || pc matches .incrQuota _ _)
  | _ => false

/-- History: who has arrived, and how often each counter was incremented. -/
structure Ledger where
  arrived : Finset ℕ
  charges : Counter → ℕ

def recordLedger (s : State) (e : Event) (h : Ledger) : Ledger where
  arrived :=
    match e with
    | .deliver r (.arrive _) => insert r h.arrived
    | _ => h.arrived
  charges c :=
    match s.executes e with
    | some ⟨_, _, .incrQuota _ c'⟩ => if c' = c then h.charges c + 1 else h.charges c
    | _ => h.charges c

def Ledger.start : Ledger := ⟨∅, fun _ => 0⟩

def ledger (D : Deployment) : System (State × Ledger) Event :=
  D.machine.withHistory Ledger.start recordLedger

/-- The value of a counter; an absent one counts as zero. -/
def State.usage (s : State) (c : Counter) : ℤ := (quotaUsage (s.redis.get s.now c.key)).getD 0

/-- The counter whose value is the pending reply of a quota check. -/
def Pc.checked : Pc → Option Counter
  | .checkQuota c => some c
  | _ => none

/-- Where a check admits a request, the counter of the moment leaves room for it
beside those admitted with the same API key and not charged yet. -/
def Reserved (k : VendorApiKey) (limit : ℤ) (p : State × Ledger) (e : Event) : Prop :=
  p.1.redisUp e = true ∧ ∀ turn ∈ p.1.executes e, ∀ checked ∈ turn.pc.checked,
    turn.ctx.apiKey = some k → p.1.usage checked < limit → ∀ c ∈ turn.ctx.counterAt p.1.now,
      p.1.usage c + (p.2.arrived.filter fun r => (p.1.procs r).inFlight k = true).card < limit

instance (k : VendorApiKey) (limit : ℤ) (p : State × Ledger) (e : Event) :
    Decidable (Reserved k limit p e) :=
  inferInstanceAs (Decidable (_ ∧ ∀ turn ∈ p.1.executes e, ∀ checked ∈ turn.pc.checked,
    _ → _ → ∀ c ∈ _, _ < _))

section Filter

variable {α : Type*} [DecidableEq α] {A A' : Finset α} {P P' : α → Prop} [DecidablePred P]
  [DecidablePred P'] {r : α}

/-- A predicate that changes at one element keeps, loses or wins one member. -/
theorem card_filter_le_of (hA : A' ⊆ insert r A) (hSame : ∀ w, w ≠ r → P' w → P w)
    (hr : P' r → r ∈ A ∧ P r) : (A'.filter P').card ≤ (A.filter P).card := by
  refine Finset.card_le_card fun w hw => ?_
  obtain ⟨hMem, hP⟩ := Finset.mem_filter.mp hw
  by_cases h : w = r
  · subst h
    exact Finset.mem_filter.mpr (hr hP)
  · exact Finset.mem_filter.mpr ⟨Finset.mem_of_mem_insert_of_ne (hA hMem) h, hSame w h hP⟩

theorem card_filter_add_one_le (hA : A' ⊆ insert r A) (hSame : ∀ w, w ≠ r → P' w → P w)
    (hr : ¬P' r) (hMem : r ∈ A) (hP : P r) :
    (A'.filter P').card + 1 ≤ (A.filter P).card := by
  have hSub : A'.filter P' ⊆ (A.filter P).erase r := fun w hw => by
    obtain ⟨hMem', hP'⟩ := Finset.mem_filter.mp hw
    have hNe : w ≠ r := fun h => hr (h ▸ hP')
    exact Finset.mem_erase.mpr ⟨hNe, Finset.mem_filter.mpr
      ⟨Finset.mem_of_mem_insert_of_ne (hA hMem') hNe, hSame w hNe hP'⟩⟩
  have hCard := Finset.card_erase_add_one (Finset.mem_filter.mpr ⟨hMem, hP⟩)
  have hLe := Finset.card_le_card hSub
  omega

theorem card_filter_le_add_one (hA : A' ⊆ insert r A) (hSame : ∀ w, w ≠ r → P' w → P w) :
    (A'.filter P').card ≤ (A.filter P).card + 1 := by
  have hSub : A'.filter P' ⊆ insert r (A.filter P) := fun w hw => by
    obtain ⟨hMem, hP'⟩ := Finset.mem_filter.mp hw
    by_cases h : w = r
    · exact Finset.mem_insert.mpr (Or.inl h)
    · exact Finset.mem_insert_of_mem (Finset.mem_filter.mpr
        ⟨Finset.mem_of_mem_insert_of_ne (hA hMem) h, hSame w h hP'⟩)
  exact (Finset.card_le_card hSub).trans (Finset.card_insert_le _ _)

end Filter

section Counters

variable {D : Deployment} {now : ℚ} {ctx : Ctx} {c : Counter} {k : VendorApiKey} {limit : ℤ}

theorem counterAt_cases {t : ℚ} (h : ctx.counterAt t = some c) :
    ∃ k limit period, ctx.apiKey = some k ∧ k.quotaLimit = some limit ∧
      k.quotaPeriod = some period ∧ Quota.counterAt k.vendorId k.id period t = some c := by
  obtain ⟨⟨k, limit, period⟩, hQuota, hCounter⟩ := Option.bind_eq_some_iff.mp h
  obtain ⟨k', hKey, hRest⟩ := Option.bind_eq_some_iff.mp hQuota
  obtain ⟨limit', hLimit, hRest⟩ := Option.bind_eq_some_iff.mp hRest
  obtain ⟨period', hPeriod, hAll⟩ := Option.bind_eq_some_iff.mp hRest
  cases hAll
  exact ⟨k, limit, period, hKey, hLimit, hPeriod, hCounter⟩

theorem quota_of_key (hKey : ctx.apiKey = some k) (hLimit : k.quotaLimit = some limit) :
    ctx.quota = k.quotaPeriod.map fun period => (k, limit, period) := by
  cases hPeriod : k.quotaPeriod <;> simp [Ctx.quota, hKey, hLimit, hPeriod]

/-- The period of an API key. One without a period counts nothing, like one
with an unknown period. -/
def quotaPeriodOf (k : VendorApiKey) : String := k.quotaPeriod.getD ""

abbrev counterOf (k : VendorApiKey) (t : ℚ) : Option Counter :=
  Quota.counterAt k.vendorId k.id (quotaPeriodOf k) t

theorem counterAt_of_key (hKey : ctx.apiKey = some k) (hLimit : k.quotaLimit = some limit) (t : ℚ) :
    ctx.counterAt t = counterOf k t := by
  cases hPeriod : k.quotaPeriod with
  | none =>
      simp [Ctx.counterAt, quota_of_key hKey hLimit, counterOf, quotaPeriodOf, hPeriod,
        Quota.counterAt, periodBucket]
  | some period =>
      simp [Ctx.counterAt, quota_of_key hKey hLimit, counterOf, quotaPeriodOf, hPeriod]

theorem ttl_of_key (hKey : ctx.apiKey = some k) (hLimit : k.quotaLimit = some limit) :
    (ctx.quota.bind fun q => periodTtl q.2.2) = periodTtl (quotaPeriodOf k) := by
  cases hPeriod : k.quotaPeriod with
  | none => simp [quota_of_key hKey hLimit, quotaPeriodOf, hPeriod, periodTtl]
  | some period => simp [quota_of_key hKey hLimit, quotaPeriodOf, hPeriod]

/-- The counter of an API key is only worked on under that API key. -/
theorem key_of_counterAt {t : ℚ} (hCounter : ctx.counterAt t = some c)
    (hKeyed : ∀ k', ctx.apiKey = some k' → k' ∈ D.apiKeys) (hMem : k ∈ D.apiKeys)
    (hId : c.keyId = k.id) : ctx.apiKey = some k := by
  obtain ⟨k', _, _, hKey, _, _, hAt⟩ := counterAt_cases hCounter
  have hSame : k'.id = k.id := (counterAt_ids hAt).2.symm.trans hId
  rw [hKey, D.apiKeys_id k' (hKeyed k' hKey) k hMem hSame]

end Counters

/-- The counter that a request has computed and not given up. -/
def Pc.counter : Pc → Option Counter
  | .checkQuota c => some c
  | .incrQuota _ c => some c
  | .expireQuota _ c _ => some c
  | _ => none

/-- What the running requests know about their counters. -/
structure Tracked (D : Deployment) (s : State) (h : Ledger) : Prop where
  epoch : 0 ≤ s.now
  arrived : ∀ r, s.procs r ≠ .idle → r ∈ h.arrived
  keyed : ∀ r ctx pc, s.procs r = .running ctx pc → ∀ k', ctx.apiKey = some k' → k' ∈ D.apiKeys
  computed : ∀ r ctx pc c, s.procs r = .running ctx pc → pc.counter = some c →
    ∃ t, 0 ≤ t ∧ t ≤ s.now ∧ ctx.counterAt t = some c
  bounded : ∀ r ctx f c ttl, s.procs r = .running ctx (.expireQuota f c ttl) →
    (ctx.quota.bind fun q => periodTtl q.2.2) = some ttl

/-- What Redis and the ledger agree on about the counters of one API key, while
no command fails. -/
structure Booked (k : VendorApiKey) (s : State) (h : Ledger) : Prop where
  begun : ∀ c, c.keyId = k.id → h.charges c ≠ 0 →
    ∃ t, 0 ≤ t ∧ t ≤ s.now ∧ counterOf k t = some c
  value : ∀ c, c.keyId = k.id → ∀ entry, s.redis.entries c.key = some entry →
    ∃ n : ℕ, entry.value = .int n ∧ 1 ≤ n ∧ n ≤ h.charges c
  /-- In its bucket the counter holds the number of charges and does not expire. -/
  synced : ∀ c, counterOf k s.now = some c → h.charges c ≠ 0 →
    ∃ entry, s.redis.entries c.key = some entry ∧ entry.value = .int (h.charges c) ∧
      ∀ expiry, entry.expiresAt = some expiry → ∃ t ttl, 0 ≤ t ∧
        counterOf k t = some c ∧ periodTtl (quotaPeriodOf k) = some ttl ∧
        t + ttl ≤ expiry

section Booked

variable {D : Deployment} {k : VendorApiKey} {limit : ℤ} {s : State}
  {h : Ledger} {r : ℕ} {input : Input} {redis : RedisServer} {proc : Proc} {c : Counter}

theorem Booked.live (hBooked : Booked k s h)
    (hNow : counterOf k s.now = some c) (hCharged : h.charges c ≠ 0) :
    ∃ entry, s.redis.lookup s.now c.key = some entry ∧ entry.value = .int (h.charges c) := by
  obtain ⟨entry, hEntry, hValue, hExpiry⟩ := hBooked.synced c hNow hCharged
  refine ⟨entry, Redis.Server.lookup_eq_some.mpr ⟨hEntry, ?_⟩, hValue⟩
  cases hExpires : entry.expiresAt with
  | none => simp [Redis.Entry.live, hExpires]
  | some expiry =>
      obtain ⟨t, ttl, hEpoch, hStart, hTtl, hBound⟩ := hExpiry expiry hExpires
      have hInside := counterAt_lt hEpoch hTtl hStart hNow
      simpa [Redis.Entry.live, hExpires] using lt_of_lt_of_le hInside hBound

/-- The counter of the moment is the number of its charges. -/
theorem Booked.usage_eq (hBooked : Booked k s h)
    (hNow : counterOf k s.now = some c) :
    s.usage c = h.charges c := by
  by_cases hCharged : h.charges c = 0
  · have hNone : s.redis.get s.now c.key = none := by
      refine Redis.Server.get_eq_none.mpr (Redis.Server.lookup_eq_none.mpr fun entry hEntry => ?_)
      obtain ⟨n, _, hOne, hLe⟩ := hBooked.value c (counterAt_ids hNow).2 entry hEntry
      omega
    simp [State.usage, hNone, quotaUsage, hCharged]
  · obtain ⟨entry, hLookup, hValue⟩ := hBooked.live hNow hCharged
    have hGet : s.redis.get s.now c.key = some (.int (h.charges c)) :=
      Redis.Server.get_eq_some.mpr ⟨entry, hLookup, hValue⟩
    simp [State.usage, hGet, quotaUsage]

theorem charges_of_incr {ctx : Ctx} {f : Fetched}
    (hProc : s.procs r = .running ctx (.incrQuota f c)) :
    (recordLedger s (.deliver r .reply) h).charges c = h.charges c + 1 := by
  simp [recordLedger, State.executes, State.turn, hProc]

theorem charges_of_not_incr (hNot : ¬∃ ctx f, s.procs r = .running ctx (.incrQuota f c)) :
    (recordLedger s (.deliver r input) h).charges c = h.charges c := by
  simp only [recordLedger]
  split
  case h_1 y ctx f c' hExecutes =>
    obtain rfl : y = r := client_of_executes hExecutes
    refine if_neg fun hSame => hNot ⟨ctx, f, ?_⟩
    rw [← hSame]
    exact (executes_eq_some.mp hExecutes).2
  case h_2 => rfl

/-- A counter changes by an INCR or an EXPIRE of the quota increment. -/
theorem counter_cases (c : Counter) (hUp : s.redisUp (.deliver r input) = true)
    (hMove : Move D s.now r s.redis (s.procs r) input redis proc) :
    (redis.entries c.key = s.redis.entries c.key ∧
        (recordLedger s (.deliver r input) h).charges c = h.charges c) ∨
      (∃ ctx f n, s.procs r = .running ctx (.incrQuota f c) ∧
        s.redis.incr s.now c.key r = some (redis, n) ∧
        (recordLedger s (.deliver r input) h).charges c = h.charges c + 1) ∨
      (∃ ctx f, s.procs r = .running ctx (.incrQuota f c) ∧
        s.redis.incr s.now c.key r = none ∧ redis = s.redis ∧
        (recordLedger s (.deliver r input) h).charges c = h.charges c + 1) ∨
      ∃ ctx f ttl, s.procs r = .running ctx (.expireQuota f c ttl) ∧
        redis = s.redis.expire c.key (s.now + ttl) ∧
        (recordLedger s (.deliver r input) h).charges c = h.charges c := by
  by_cases hCharge : ∃ ctx f, s.procs r = .running ctx (.incrQuota f c)
  · obtain ⟨ctx, f, hProc⟩ := hCharge
    obtain ⟨rfl, hReply⟩ := reply_of_redisUp hUp hMove hProc rfl
    have hCount : (recordLedger s (.deliver r .reply) h).charges c = h.charges c + 1 :=
      charges_of_incr hProc
    rcases reply_incrQuota hReply with ⟨n, hIncr, -⟩ | ⟨hRefused, rfl, -⟩
    · exact Or.inr (Or.inl ⟨ctx, f, n, hProc, hIncr, hCount⟩)
    · exact Or.inr (Or.inr (Or.inl ⟨ctx, f, hProc, hRefused, rfl, hCount⟩))
  · have hCount : (recordLedger s (.deliver r input) h).charges c = h.charges c :=
      charges_of_not_incr hCharge
    by_cases hWrites : (s.procs r).writes D = some c.key
    · rcases move_server hMove with rfl | ⟨ctx, pc, p'', hProc, _, hReply⟩
      · exact Or.inl ⟨rfl, hCount⟩
      · rw [hProc] at hWrites
        rcases writes_counter hWrites with ⟨f, rfl⟩ | ⟨f, ttl, rfl⟩
        · exact absurd ⟨ctx, f, hProc⟩ hCharge
        · obtain ⟨rfl, _⟩ := Prod.mk.inj (Option.some.inj hReply)
          exact Or.inr (Or.inr (Or.inr ⟨ctx, f, ttl, hProc, rfl, hCount⟩))
    · exact Or.inl ⟨move_entries_of_ne hMove hWrites, hCount⟩

/-- The increment of a counter that holds what `Booked` says. -/
theorem incr_booked (hBooked : Booked k s h) (hId : c.keyId = k.id) :
    ∃ n : ℕ, 1 ≤ n ∧ n ≤ h.charges c + 1 ∧ ∃ expiry,
      s.redis.incr s.now c.key r = some (s.redis.set c.key (.int n) expiry r, (n : ℤ)) ∧
      (counterOf k s.now = some c → n = h.charges c + 1 ∧
        ∀ e, expiry = some e → ∃ t ttl, 0 ≤ t ∧
          counterOf k t = some c ∧ periodTtl (quotaPeriodOf k) = some ttl ∧
          t + ttl ≤ e) := by
  cases hLookup : s.redis.lookup s.now c.key with
  | none =>
      refine ⟨1, le_rfl, by omega, none, by simp [Redis.Server.incr, hLookup], fun hNow => ?_⟩
      have hFree : h.charges c = 0 := by
        by_contra hCharged
        obtain ⟨entry, hPresent, _⟩ := hBooked.live hNow hCharged
        rw [hLookup] at hPresent
        cases hPresent
      exact ⟨by omega, nofun⟩
  | some entry =>
      have hEntry := (Redis.Server.lookup_eq_some.mp hLookup).1
      obtain ⟨n, hValue, hOne, hLe⟩ := hBooked.value c hId entry hEntry
      obtain ⟨value, expiry, writer⟩ := entry
      obtain rfl : value = .int n := hValue
      refine ⟨n + 1, by omega, by omega, expiry, by simp [Redis.Server.incr, hLookup],
        fun hNow => ?_⟩
      obtain ⟨entry', hEntry', hValue', hExpiry⟩ := hBooked.synced c hNow (by omega)
      rw [hEntry] at hEntry'
      obtain rfl := Option.some.inj hEntry'
      refine ⟨?_, fun e he => hExpiry e he⟩
      have hSame : (n : ℤ) = h.charges c := by simpa using hValue'
      omega

/-- The API key of a counter that a request works on. -/
theorem Tracked.begun_of_counter (hTracked : Tracked D s h) (hMem : k ∈ D.apiKeys)
    (hLimit : k.quotaLimit = some limit) {ctx : Ctx} {pc : Pc}
    (hProc : s.procs r = .running ctx pc) (hCounter : pc.counter = some c)
    (hId : c.keyId = k.id) :
    ctx.apiKey = some k ∧ ∃ t, 0 ≤ t ∧ t ≤ s.now ∧ counterOf k t = some c := by
  obtain ⟨t, hEpoch, hPast, hAt⟩ := hTracked.computed r ctx pc c hProc hCounter
  have hKey := key_of_counterAt hAt (hTracked.keyed r ctx pc hProc) hMem hId
  exact ⟨hKey, t, hEpoch, hPast, (counterAt_of_key hKey hLimit t).symm.trans hAt⟩

theorem tracked_arrived (hTracked : Tracked D s h)
    (hMove : Move D s.now r s.redis (s.procs r) input redis proc) {w : ℕ}
    (hw : Function.update s.procs r proc w ≠ .idle) :
    w ∈ (recordLedger s (.deliver r input) h).arrived := by
  have hKept : h.arrived ⊆ (recordLedger s (.deliver r input) h).arrived := by
    intro w hw
    cases input with
    | arrive request => exact Finset.mem_insert_of_mem hw
    | _ => exact hw
  by_cases hwr : w = r
  · subst hwr
    by_cases hIdle : s.procs w = .idle
    · rw [hIdle] at hMove
      cases hMove with
      | arrive request => exact Finset.mem_insert_self _ _
    · exact hKept (hTracked.arrived w hIdle)
  · exact hKept (hTracked.arrived w (by simpa [hwr] using hw))

theorem tracked_keyed (hTracked : Tracked D s h)
    (hMove : Move D s.now r s.redis (s.procs r) input redis proc) {w : ℕ} {ctx : Ctx} {pc : Pc}
    (hw : Function.update s.procs r proc w = .running ctx pc) {k' : VendorApiKey}
    (hKey : ctx.apiKey = some k') : k' ∈ D.apiKeys := by
  rcases procs_cases hw with ⟨rfl, rfl⟩ | ⟨_, hBefore⟩
  · generalize hBefore : s.procs w = before at hMove
    cases before with
    | idle =>
        generalize hAfter : Proc.running ctx pc = after at hMove
        cases hMove with
        | arrive request =>
          rw [apiKey_of_start hAfter.symm] at hKey
          cases hKey
    | running ctx₀ pc₀ =>
        rcases apiKey_of_move hMove with hSame | ⟨row, _, hRow, hActive⟩
        · exact hTracked.keyed w ctx₀ pc₀ hBefore k' (hSame ▸ hKey)
        · rw [hKey] at hRow
          exact mem_of_activeApiKey (hRow ▸ hActive)
    | finished request outcome => cases hMove
  · exact hTracked.keyed w ctx pc hBefore k' hKey

theorem tracked_computed (hTracked : Tracked D s h)
    (hMove : Move D s.now r s.redis (s.procs r) input redis proc) {w : ℕ} {ctx : Ctx} {pc : Pc}
    (hw : Function.update s.procs r proc w = .running ctx pc) (hCounter : pc.counter = some c) :
    ∃ t, 0 ≤ t ∧ t ≤ s.now ∧ ctx.counterAt t = some c := by
  rcases procs_cases hw with ⟨rfl, rfl⟩ | ⟨_, hBefore⟩
  · rcases start_cases hMove with ⟨_, _, _, _, rfl⟩ | ⟨ctx₀, pc₀, hBefore, hFlow⟩
    · cases hCounter
    · cases hFlow with
      | limited row c' hAt =>
          obtain rfl : c' = c := Option.some.inj hCounter
          exact ⟨s.now, hTracked.epoch, le_rfl, hAt⟩
      | charging f c' hAt =>
          obtain rfl : c' = c := Option.some.inj hCounter
          exact ⟨s.now, hTracked.epoch, le_rfl, hAt⟩
      | firstCharge f c' ttl hTtl =>
          obtain rfl : c' = c := Option.some.inj hCounter
          exact hTracked.computed w ctx _ c' hBefore rfl
      | _ => cases hCounter
  · exact hTracked.computed w ctx pc c hBefore hCounter

theorem tracked_move (hTracked : Tracked D s h)
    (hMove : Move D s.now r s.redis (s.procs r) input redis proc) :
    Tracked D ⟨s.now, redis, Function.update s.procs r proc⟩
      (recordLedger s (.deliver r input) h) where
  epoch := hTracked.epoch
  arrived _ hw := tracked_arrived hTracked hMove hw
  keyed _ _ _ hw _ hKey := tracked_keyed hTracked hMove hw hKey
  computed _ _ _ _ hw hCounter := tracked_computed hTracked hMove hw hCounter
  bounded w ctx f c ttl hw := by
    rcases procs_cases hw with ⟨rfl, rfl⟩ | ⟨_, hBefore⟩
    · rcases start_cases hMove with ⟨_, _, _, _, hSame⟩ | ⟨ctx₀, pc₀, _, hFlow⟩
      · cases hSame
      · cases hFlow with
        | firstCharge f c ttl hTtl => exact hTtl
    · exact hTracked.bounded w ctx f c ttl hBefore

theorem booked_value (hBooked : Booked k s h) (hUp : s.redisUp (.deliver r input) = true)
    (hMove : Move D s.now r s.redis (s.procs r) input redis proc) (hId : c.keyId = k.id)
    {entry : Redis.Entry ℚ CachedResponse ℕ} (hEntry : redis.entries c.key = some entry) :
    ∃ n : ℕ, entry.value = .int n ∧ 1 ≤ n ∧
      n ≤ (recordLedger s (.deliver r input) h).charges c := by
  obtain ⟨n, hOne, hLe, expiry, hIncr, _⟩ := incr_booked (r := r) hBooked hId
  rcases counter_cases (h := h) c hUp hMove with ⟨hEntries, hSame⟩ |
    ⟨ctx, f, n', _, hIncr', hCount⟩ | ⟨ctx, f, _, hRefused, _⟩ | ⟨ctx, f, ttl, _, rfl, hSame⟩
  · rw [hSame]
    exact hBooked.value c hId entry (hEntries ▸ hEntry)
  · rw [hIncr] at hIncr'
    cases hIncr'
    rw [Redis.Server.set_entries_self] at hEntry
    cases hEntry
    exact ⟨n, rfl, hOne, hCount ▸ hLe⟩
  · rw [hIncr] at hRefused
    cases hRefused
  · rw [Redis.Server.expire_entries_self] at hEntry
    obtain ⟨before, hBefore, rfl⟩ := Option.map_eq_some_iff.mp hEntry
    rw [hSame]
    exact hBooked.value c hId before hBefore

theorem booked_synced (hTracked : Tracked D s h) (hBooked : Booked k s h)
    (hMem : k ∈ D.apiKeys) (hLimit : k.quotaLimit = some limit)
    (hUp : s.redisUp (.deliver r input) = true)
    (hMove : Move D s.now r s.redis (s.procs r) input redis proc)
    (hNow : counterOf k s.now = some c)
    (hCharged : (recordLedger s (.deliver r input) h).charges c ≠ 0) :
    ∃ entry, redis.entries c.key = some entry ∧
      entry.value = .int ((recordLedger s (.deliver r input) h).charges c) ∧
      ∀ expiry, entry.expiresAt = some expiry → ∃ t ttl, 0 ≤ t ∧
        counterOf k t = some c ∧ periodTtl (quotaPeriodOf k) = some ttl ∧ t + ttl ≤ expiry := by
  have hId := (counterAt_ids hNow).2
  obtain ⟨n, _, _, expiry, hIncr, hSync⟩ := incr_booked (r := r) hBooked hId
  rcases counter_cases (h := h) c hUp hMove with ⟨hEntries, hSame⟩ |
    ⟨ctx, f, n', _, hIncr', hCount⟩ | ⟨ctx, f, _, hRefused, _⟩ | ⟨ctx, f, ttl, hProc, rfl, hSame⟩
  · rw [hSame] at hCharged ⊢
    obtain ⟨entry, hEntry, hRest⟩ := hBooked.synced c hNow hCharged
    exact ⟨entry, hEntries.trans hEntry, hRest⟩
  · rw [hIncr] at hIncr'
    cases hIncr'
    obtain ⟨hValue, hExpiry⟩ := hSync hNow
    refine ⟨_, Redis.Server.set_entries_self _ _ _ _ _, ?_, hExpiry⟩
    rw [hCount, hValue]
  · rw [hIncr] at hRefused
    cases hRefused
  · rw [hSame] at hCharged ⊢
    obtain ⟨entry, hEntry, hValue, _⟩ := hBooked.synced c hNow hCharged
    refine ⟨⟨entry.value, some (s.now + ttl), entry.writer⟩, ?_, hValue, ?_⟩
    · rw [Redis.Server.expire_entries_self, hEntry]
      rfl
    · intro e he
      cases he
      have hKey := (hTracked.begun_of_counter hMem hLimit hProc rfl hId).1
      have hTtl := hTracked.bounded r ctx f c ttl hProc
      rw [ttl_of_key hKey hLimit] at hTtl
      exact ⟨s.now, ttl, hTracked.epoch, hNow, hTtl, le_rfl⟩

theorem booked_move (hTracked : Tracked D s h) (hBooked : Booked k s h)
    (hMem : k ∈ D.apiKeys) (hLimit : k.quotaLimit = some limit)
    (hUp : s.redisUp (.deliver r input) = true)
    (hMove : Move D s.now r s.redis (s.procs r) input redis proc) :
    Booked k ⟨s.now, redis, Function.update s.procs r proc⟩
      (recordLedger s (.deliver r input) h) where
  begun c hId hCharged := by
    rcases counter_cases (h := h) c hUp hMove with ⟨_, hSame⟩ | ⟨ctx, f, n, hProc, _⟩ |
      ⟨ctx, f, hProc, _⟩ | ⟨ctx, f, ttl, _, _, hSame⟩
    · exact hBooked.begun c hId (hSame ▸ hCharged)
    · exact (hTracked.begun_of_counter hMem hLimit hProc rfl hId).2
    · exact (hTracked.begun_of_counter hMem hLimit hProc rfl hId).2
    · exact hBooked.begun c hId (hSame ▸ hCharged)
  value _ hId _ hEntry := booked_value hBooked hUp hMove hId hEntry
  synced _ hNow hCharged := booked_synced hTracked hBooked hMem hLimit hUp hMove hNow hCharged

theorem tracked_elapse {dt : ℚ} (hdt : 0 ≤ dt) (hTracked : Tracked D s h) :
    Tracked D { s with now := s.now + dt } h := by
  refine ⟨add_nonneg hTracked.epoch hdt, hTracked.arrived, hTracked.keyed, ?_, hTracked.bounded⟩
  intro r ctx pc c hProc hCounter
  obtain ⟨t, hEpoch, hPast, hAt⟩ := hTracked.computed r ctx pc c hProc hCounter
  exact ⟨t, hEpoch, hPast.trans (le_add_of_nonneg_right hdt), hAt⟩

/-- In a bucket that goes on, nothing changes; in a new one nothing is charged yet. -/
theorem booked_elapse {dt : ℚ} (hdt : 0 ≤ dt) (hBooked : Booked k s h) :
    Booked k { s with now := s.now + dt } h := by
  have hLater : s.now ≤ s.now + dt := le_add_of_nonneg_right hdt
  refine ⟨fun c hId hCharged => ?_, hBooked.value, fun c hNow hCharged => ?_⟩
  · obtain ⟨t, hEpoch, hPast, hAt⟩ := hBooked.begun c hId hCharged
    exact ⟨t, hEpoch, hPast.trans hLater, hAt⟩
  · obtain ⟨t, _, hPast, hAt⟩ := hBooked.begun c (counterAt_ids hNow).2 hCharged
    exact hBooked.synced c (counterAt_convex hPast hLater hAt hNow) hCharged

end Booked

open scoped Classical in
/-- How many requests may still charge this counter. -/
noncomputable def outstanding (s : State) (h : Ledger) (c : Counter) : ℕ :=
  (h.arrived.filter fun r => (s.procs r).MayCharge s.now c).card

/-- The charges of a counter leave room for all that may still come. -/
def Within (k : VendorApiKey) (limit : ℤ) (s : State) (h : Ledger) : Prop :=
  ∀ c, c.keyId = k.id → (h.charges c : ℤ) + outstanding s h c ≤ limit

section Within

variable {D : Deployment} {k : VendorApiKey} {limit : ℤ} {s : State} {h : Ledger} {r : ℕ}
  {input : Input} {redis : RedisServer} {proc : Proc} {c : Counter} {ctx : Ctx}

theorem Proc.MayCharge.earlier {now later : ℚ} (hle : now ≤ later) {p : Proc}
    (hMay : p.MayCharge later c) : p.MayCharge now c := by
  cases p with
  | running ctx pc =>
      rcases hMay with hNext | ⟨hPending, t, hFuture, hAt⟩
      · exact Or.inl hNext
      · exact Or.inr ⟨hPending, t, hle.trans hFuture, hAt⟩
  | _ => cases hMay

theorem outstanding_le {Q : ℕ → Prop} [DecidablePred Q]
    (hMay : ∀ w, (s.procs w).MayCharge s.now c → Q w) :
    outstanding s h c ≤ (h.arrived.filter Q).card := by
  classical
  unfold outstanding
  refine Finset.card_le_card fun w hw => ?_
  simp only [Finset.mem_filter] at hw ⊢
  exact ⟨hw.1, hMay w hw.2⟩

/-- A request starts to be able to charge only when a quota check admits it. -/
theorem mayCharge_move {now : ℚ} {redis redis' : RedisServer} {p : Proc}
    (hMove : Move D now r redis p input redis' proc) (hMay : proc.MayCharge now c) :
    p.MayCharge now c ∨ ∃ ctx checked, p = .running ctx (.checkQuota checked) ∧
      proc = .running ctx .getCached := by
  cases proc with
  | running ctx pc =>
      rcases start_cases hMove with ⟨_, _, _, _, rfl⟩ | ⟨ctx₀, pc₀, rfl, hFlow⟩
      · rcases hMay with ⟨f, hNext⟩ | ⟨hPending, _⟩
        · cases hNext
        · cases hPending
      · have hKeep (hPending : pc₀.pending = true) (hCtx : ctx = ctx₀)
            (hStill : pc.pending = true) : (Proc.running ctx₀ pc₀).MayCharge now c := by
          rcases hMay with ⟨f, rfl⟩ | ⟨_, hAt⟩
          · cases hStill
          · exact Or.inr ⟨hPending, hCtx ▸ hAt⟩
        have hNever (hStop : pc.pending = false) (hOther : ∀ f, pc ≠ .incrQuota f c) : False := by
          rcases hMay with ⟨f, hNext⟩ | ⟨hPending, _⟩
          · exact hOther f hNext
          · rw [hStop] at hPending
            cases hPending
        cases hFlow with
        | admitted counter => exact Or.inr ⟨_, counter, rfl, rfl⟩
        | checkRaised counter executed => exact Or.inr ⟨_, counter, rfl, rfl⟩
        | unlimited row hCounter =>
            rcases hMay with ⟨f, hNext⟩ | ⟨_, t, _, hAt⟩
            · cases hNext
            · obtain ⟨⟨k, limit, period⟩, hQuota, hAt⟩ := Option.bind_eq_some_iff.mp hAt
              have hSome : (Quota.counterAt k.vendorId k.id period now).isSome =
                  (Quota.counterAt k.vendorId k.id period t).isSome := Quota.counterAt_isSome now t
              simp only [Ctx.counterAt, hQuota, Option.bind_eq_bind, Option.bind_some] at hCounter
              simp [hCounter, hAt] at hSome
        | charging f counter hCounter =>
            rcases hMay with ⟨f', hNext⟩ | ⟨hPending, _⟩
            · cases hNext
              exact Or.inl (Or.inr ⟨rfl, now, le_rfl, hCounter⟩)
            · cases hPending
        | missed => exact Or.inl (hKeep rfl rfl rfl)
        | acquired => exact Or.inl (hKeep rfl rfl rfl)
        | storable => exact Or.inl (hKeep rfl rfl rfl)
        | notStorable => exact Or.inl (hKeep rfl rfl rfl)
        | cached => exact Or.inl (hKeep rfl rfl rfl)
        | shared => exact Or.inl (hKeep rfl rfl rfl)
        | _ => exact (hNever rfl (by intro f hNext; cases hNext)).elim
  | _ => cases hMay

theorem inFlight_of_mayCharge (hTracked : Tracked D s h) (hMem : k ∈ D.apiKeys)
    (hId : c.keyId = k.id) (hMay : (s.procs r).MayCharge s.now c) :
    (s.procs r).inFlight k = true := by
  cases hProc : s.procs r with
  | running ctx pc =>
      rw [hProc] at hMay
      have hKeyed := hTracked.keyed r ctx pc hProc
      rcases hMay with ⟨f, rfl⟩ | ⟨hPending, t, _, hAt⟩
      · obtain ⟨t, _, _, hAt⟩ := hTracked.computed r ctx _ c hProc rfl
        simp [Proc.inFlight, key_of_counterAt hAt hKeyed hMem hId]
      · simp [Proc.inFlight, key_of_counterAt hAt hKeyed hMem hId, hPending]
  | idle => simp [hProc, Proc.MayCharge] at hMay
  | finished request outcome => simp [hProc, Proc.MayCharge] at hMay

/-- A check that admits saw a counter below the limit. -/
theorem usage_lt_of_admitted (hTracked : Tracked D s h) (hBooked : Booked k s h)
    (hLimit : k.quotaLimit = some limit) {checked : Counter} {period : String}
    (hProc : s.procs r = .running ctx (.checkQuota checked)) (hKey : ctx.apiKey = some k)
    (hPeriod : k.quotaPeriod = some period)
    (hReply : afterCheckQuota ctx s.now (s.redis.get s.now checked.key) =
      .running ctx .getCached) : s.usage checked < limit := by
  obtain ⟨t, _, _, hAt⟩ := hTracked.computed r ctx _ checked hProc rfl
  have hId : checked.keyId = k.id :=
    (counterAt_ids ((counterAt_of_key hKey hLimit t).symm.trans hAt)).2
  have hQuota : ctx.quota = some (k, limit, period) := by
    rw [quota_of_key hKey hLimit, hPeriod]
    rfl
  obtain ⟨used, hUsed⟩ : ∃ used, quotaUsage (s.redis.get s.now checked.key) = some used := by
    cases hGet : s.redis.get s.now checked.key with
    | none => exact ⟨0, rfl⟩
    | some v =>
        obtain ⟨entry, hLookup, rfl⟩ := Redis.Server.get_eq_some.mp hGet
        obtain ⟨n, hValue, _⟩ :=
          hBooked.value checked hId entry (Redis.Server.lookup_eq_some.mp hLookup).1
        exact ⟨n, by rw [hValue]; rfl⟩
  have hUsage : s.usage checked = used := by simp [State.usage, hUsed]
  by_contra hOver
  have hCheck : Quota.checkQuota limit (s.redis.get s.now checked.key) = some (false, used) := by
    simp only [Quota.checkQuota, hUsed, Option.map_some]
    rw [decide_eq_false (by omega)]
  simp only [afterCheckQuota, hQuota, hCheck] at hReply
  split at hReply <;> cases hReply

/-- Where a check admits, one more charge fits. -/
theorem room_of_admitted (hTracked : Tracked D s h) (hBooked : Booked k s h)
    (hMem : k ∈ D.apiKeys) (hLimit : k.quotaLimit = some limit) (hId : c.keyId = k.id)
    (hReserved : Reserved k limit (s, h) (.deliver r .reply)) {checked : Counter}
    (hProc : s.procs r = .running ctx (.checkQuota checked))
    (hReply : afterCheckQuota ctx s.now (s.redis.get s.now checked.key) = .running ctx .getCached)
    (hMay : (Proc.running ctx .getCached).MayCharge s.now c) :
    (h.charges c : ℤ) + outstanding s h c < limit := by
  obtain ⟨t, hFuture, hAt⟩ : ∃ t, s.now ≤ t ∧ ctx.counterAt t = some c := by
    rcases hMay with ⟨f, hNext⟩ | ⟨_, hAt⟩
    · cases hNext
    · exact hAt
  have hKey := key_of_counterAt hAt (hTracked.keyed r ctx _ hProc) hMem hId
  obtain ⟨k', _, period, hKey', _, hPeriod, _⟩ := counterAt_cases hAt
  obtain rfl : k' = k := Option.some.inj (hKey'.symm.trans hKey)
  have hAt' : counterOf k' t = some c := (counterAt_of_key hKey hLimit t).symm.trans hAt
  obtain ⟨current, hCurrent⟩ : ∃ current, counterOf k' s.now = some current := by
    rw [← Option.isSome_iff_exists, Quota.counterAt_isSome s.now t]
    exact Option.isSome_iff_exists.mpr ⟨c, hAt'⟩
  have hUsage := hBooked.usage_eq hCurrent
  have hRoom : s.usage current +
      (h.arrived.filter fun w => (s.procs w).inFlight k' = true).card < limit :=
    hReserved.2 ⟨r, ctx, .checkQuota checked⟩ (executes_eq_some.mpr ⟨Or.inl rfl, hProc⟩) checked rfl
      hKey (usage_lt_of_admitted hTracked hBooked hLimit hProc hKey hPeriod hReply) current
      ((counterAt_of_key hKey hLimit s.now).trans hCurrent)
  have hCount : outstanding s h c ≤
      (h.arrived.filter fun w => (s.procs w).inFlight k' = true).card :=
    outstanding_le fun w hMay => inFlight_of_mayCharge hTracked hMem hId hMay
  have hCharges : (h.charges c : ℤ) ≤ s.usage current := by
    by_cases hFree : h.charges c = 0
    · omega
    · -- the counter was begun, so its bucket is the current one
      obtain ⟨t₀, _, hPast, hStart⟩ := hBooked.begun c hId hFree
      have hNow := counterAt_convex hPast hFuture hStart hAt'
      obtain rfl : current = c := Option.some.inj (hCurrent.symm.trans hNow)
      omega
  omega

theorem not_mayCharge_of_charge {now : ℚ} {redis redis' : RedisServer} {f : Fetched}
    (hReply : D.reply now r ctx redis (.incrQuota f c) = some (redis', proc)) :
    ¬proc.MayCharge now c := by
  intro hMay
  cases proc with
  | running ctx' pc' =>
      have hFlow : Flow now ctx (.incrQuota f c) .reply ctx' pc' := continues_of_reply hReply
      cases hFlow <;>
      · rcases hMay with ⟨f', hNext⟩ | ⟨hPending, _⟩
        · cases hNext
        · cases hPending
  | _ => exact hMay

theorem within_move (hTracked : Tracked D s h) (hBooked : Booked k s h)
    (hWithin : Within k limit s h) (hMem : k ∈ D.apiKeys) (hLimit : k.quotaLimit = some limit)
    (hReserved : Reserved k limit (s, h) (.deliver r input))
    (hMove : Move D s.now r s.redis (s.procs r) input redis proc) :
    Within k limit ⟨s.now, redis, Function.update s.procs r proc⟩
      (recordLedger s (.deliver r input) h) := by
  classical
  intro c hId
  have hOld := hWithin c hId
  have hArrived : (recordLedger s (.deliver r input) h).arrived ⊆ insert r h.arrived := by
    cases input with
    | arrive request => exact subset_rfl
    | _ => exact Finset.subset_insert _ _
  have hSame (w : ℕ) (hw : w ≠ r)
      (hMay : (Function.update s.procs r proc w).MayCharge s.now c) :
      (s.procs w).MayCharge s.now c := by
    rwa [Function.update_of_ne hw] at hMay
  have hOne : outstanding ⟨s.now, redis, Function.update s.procs r proc⟩
      (recordLedger s (.deliver r input) h) c ≤ outstanding s h c + 1 :=
    card_filter_le_add_one hArrived hSame
  by_cases hCharge : ∃ ctx f, s.procs r = .running ctx (.incrQuota f c)
  · -- a charge turns one outstanding request into one charge
    obtain ⟨ctx, f, hProc⟩ := hCharge
    obtain ⟨rfl, hReply⟩ := reply_of_redisUp hReserved.1 hMove hProc rfl
    have hCount : (recordLedger s (.deliver r .reply) h).charges c = h.charges c + 1 :=
      charges_of_incr hProc
    have hMoved : outstanding ⟨s.now, redis, Function.update s.procs r proc⟩
        (recordLedger s (.deliver r .reply) h) c + 1 ≤ outstanding s h c := by
      refine card_filter_add_one_le hArrived hSame ?_ (hTracked.arrived r (by simp [hProc]))
        (by rw [hProc]; exact Or.inl ⟨f, rfl⟩)
      simpa only [Function.update_self] using not_mayCharge_of_charge hReply
    omega
  · have hCount : (recordLedger s (.deliver r input) h).charges c = h.charges c :=
      charges_of_not_incr hCharge
    by_cases hNew : proc.MayCharge s.now c ∧ ¬(s.procs r).MayCharge s.now c
    · rcases mayCharge_move hMove hNew.1 with hBefore | ⟨ctx, checked, hProc, rfl⟩
      · exact absurd hBefore hNew.2
      · obtain ⟨rfl, hReply⟩ := reply_of_redisUp hReserved.1 hMove hProc rfl
        have hRoom := room_of_admitted hTracked hBooked hMem hLimit hId hReserved hProc
          (congrArg Prod.snd (Option.some.inj hReply)) hNew.1
        omega
    · have hKept : outstanding ⟨s.now, redis, Function.update s.procs r proc⟩
          (recordLedger s (.deliver r input) h) c ≤ outstanding s h c := by
        refine card_filter_le_of hArrived hSame fun hMay => ?_
        simp only [Function.update_self] at hMay
        have hBefore : (s.procs r).MayCharge s.now c := by
          by_contra hNot
          exact hNew ⟨hMay, hNot⟩
        refine ⟨hTracked.arrived r fun hIdle => ?_, hBefore⟩
        rw [hIdle] at hBefore
        exact hBefore
      omega

/-- Time only takes counters away from what may still be charged. -/
theorem within_elapse {dt : ℚ} (hdt : 0 ≤ dt) (hWithin : Within k limit s h) :
    Within k limit { s with now := s.now + dt } h := by
  classical
  intro c hId
  have hFewer : outstanding { s with now := s.now + dt } h c ≤ outstanding s h c :=
    outstanding_le fun w hMay => hMay.earlier (le_add_of_nonneg_right hdt)
  have hOld := hWithin c hId
  omega

end Within

/-- Everything the ledger says at a moment of a run. -/
structure Balanced (D : Deployment) (k : VendorApiKey) (limit : ℤ) (p : State × Ledger) : Prop where
  tracked : Tracked D p.1 p.2
  booked : Booked k p.1 p.2
  within : Within k limit p.1 p.2

section Runs

variable {D : Deployment} {k : VendorApiKey} {limit : ℤ} {p q : State × Ledger}

theorem balanced_init (hNonneg : 0 ≤ limit) (hInit : (ledger D).init p) : Balanced D k limit p := by
  obtain ⟨s, h⟩ := p
  obtain ⟨⟨hNow, hRedis, hIdle⟩, rfl⟩ := hInit
  refine ⟨⟨hNow, fun r hr => absurd (hIdle r) hr, fun r ctx pc hProc => ?_,
    fun r ctx pc c hProc => ?_, fun r ctx f c ttl hProc => ?_⟩,
    ⟨fun c _ hCharged => absurd rfl hCharged, fun c _ entry hEntry => ?_,
      fun c _ hCharged => absurd rfl hCharged⟩, fun c _ => ?_⟩
  · rw [hIdle r] at hProc
    cases hProc
  · rw [hIdle r] at hProc
    cases hProc
  · rw [hIdle r] at hProc
    cases hProc
  · rw [hRedis] at hEntry
    cases hEntry
  · simpa [outstanding, Ledger.start] using hNonneg

theorem balanced_step (hMem : k ∈ D.apiKeys) (hLimit : k.quotaLimit = some limit) {e : Event}
    (hBalanced : Balanced D k limit p) (hReserved : Reserved k limit p e)
    (hStep : (ledger D).step p e = some q) : Balanced D k limit q := by
  obtain ⟨s, h⟩ := p
  obtain ⟨hTracked, hBooked, hWithin⟩ := hBalanced
  rcases recorded_cases hStep with ⟨dt, rfl, hdt, rfl⟩ | ⟨r, input, redis, proc, rfl, hMove, rfl⟩
  · exact ⟨tracked_elapse hdt hTracked, booked_elapse hdt hBooked, within_elapse hdt hWithin⟩
  · exact ⟨tracked_move hTracked hMove,
      booked_move hTracked hBooked hMem hLimit hReserved.1 hMove,
      within_move hTracked hBooked hWithin hMem hLimit hReserved hMove⟩

theorem balanced_run (hMem : k ∈ D.apiKeys) (hLimit : k.quotaLimit = some limit)
    (hNonneg : 0 ≤ limit) (run : (ledger D).Reaches (Reserved k limit) p) :
    Balanced D k limit p :=
  run.invariant (I := Balanced D k limit) (fun _ => balanced_init hNonneg)
    fun _ _ _ _ hBalanced => balanced_step hMem hLimit hBalanced

/-- The quota is a hard block in every run whose admitting checks leave room for
the requests under way: no counter of the API key exceeds the limit, and the
charges so far together with all that may still come stay within it. -/
theorem quota_hard_block (hMem : k ∈ D.apiKeys) (hLimit : k.quotaLimit = some limit)
    (hNonneg : 0 ≤ limit) (run : (ledger D).Reaches (Reserved k limit) p) (c : Counter)
    (hId : c.keyId = k.id) :
    (∀ entry, p.1.redis.entries c.key = some entry →
      ∃ n : ℕ, entry.value = .int n ∧ (n : ℤ) ≤ limit) ∧
    (p.2.charges c : ℤ) + outstanding p.1 p.2 c ≤ limit := by
  have hBalanced := balanced_run hMem hLimit hNonneg run
  have hWithin := hBalanced.within c hId
  refine ⟨fun entry hEntry => ?_, hWithin⟩
  obtain ⟨n, hValue, _, hLe⟩ := hBalanced.booked.value c hId entry hEntry
  exact ⟨n, hValue, by omega⟩

end Runs

section Sample

/-! One API key with a daily limit of one call. -/

def sampleKey : VendorApiKey where
  id := zeroUuid
  vendorId := zeroUuid
  keyName := "k"
  quotaLimit := some 1
  quotaPeriod := some "daily"
  isActive := true

def meteredDeployment : Deployment :=
  { sampleDeployment 0 with
    apiKeys := [sampleKey]
    apiKeys_id := by simp }

def sampleCounter : Counter := ⟨zeroUuid, zeroUuid, "1970-01-01"⟩

def sampleAnswer : VendorResponse := ⟨200, [], []⟩

/-- A request arrives and passes its quota check. -/
def upToAdmission (r : ℕ) (path : String) : List Event :=
  [.deliver r (.arrive (sampleRequest .get path)), .deliver r .endpointRow,
    .deliver r (.apiKeyRow (some sampleKey)), .deliver r .reply]

/-- It misses the cache, takes the lock, gets its answer and is charged. -/
def throughCharge (r : ℕ) : List Event :=
  [.deliver r .reply, .deliver r .reply, .deliver r (.vendor (.response sampleAnswer)),
    .deliver r .reply, .deliver r .reply, .deliver r .reply]

theorem init_ledger : (ledger meteredDeployment).init (sampleStart, Ledger.start) :=
  ⟨init_sampleStart, rfl⟩

/-- One request is charged, and the next one is refused. -/
theorem quota_hard_block_in_turn :
    ∃ p, (ledger meteredDeployment).Reaches (Reserved sampleKey 1) p ∧
      p.2.charges sampleCounter = 1 ∧
      (∀ entry, p.1.redis.entries sampleCounter.key = some entry →
        ∃ n : ℕ, entry.value = .int n ∧ (n : ℤ) ≤ 1) ∧
      (p.2.charges sampleCounter : ℤ) + outstanding p.1 p.2 sampleCounter ≤ 1 := by
  have hDone : ((ledger meteredDeployment).exec (Reserved sampleKey 1)
      (sampleStart, Ledger.start) (upToAdmission 0 "p" ++ throughCharge 0 ++
        upToAdmission 1 "pq")).any
      (fun p => decide (p.2.charges sampleCounter = 1)) = true := by
    decide +kernel
  obtain ⟨p, run, hCheck⟩ := System.Reaches.exec_any (.init init_ledger) hDone
  obtain ⟨hEntries, hCharges⟩ := quota_hard_block (D := meteredDeployment) (k := sampleKey)
    (by decide) rfl (by decide) run sampleCounter rfl
  exact ⟨p, run, of_decide_eq_true hCheck, hEntries, hCharges⟩

/-- Two requests are checked before either is charged, and both are charged. -/
theorem quota_exceeded :
    sampleKey ∈ meteredDeployment.apiKeys ∧ sampleKey.quotaLimit = some 1 ∧
      ∃ p, (ledger meteredDeployment).Reaches (fun p e => p.1.redisUp e = true) p ∧
        p.2.charges sampleCounter = 2 ∧ p.1.usage sampleCounter = 2 := by
  have hDone : ((ledger meteredDeployment).exec (fun p e => p.1.redisUp e = true)
      (sampleStart, Ledger.start) (upToAdmission 0 "p" ++ upToAdmission 1 "pq" ++
        throughCharge 0 ++ throughCharge 1)).any
      (fun p => decide (p.2.charges sampleCounter = 2 ∧ p.1.usage sampleCounter = 2)) = true := by
    decide +kernel
  obtain ⟨p, run, hCheck⟩ := System.Reaches.exec_any (.init init_ledger) hDone
  exact ⟨by decide, rfl, p, run, of_decide_eq_true hCheck⟩

end Sample

end Gateway.Routes

import Gateway.Quota.Counting

/-! What the counter of a period holds as long as that period lasts, whatever
fails. Commands may come as late after the reading of the clock as they like, their
answers may be lost and callers may be cancelled. Redis may create a counter again
after its expiry, but both lie behind its period. -/
namespace Gateway.Quota.Callers

open Calendar Transition Gateway.Db Rollover

/-- The increments that Redis has executed, the newest first. -/
def tally (s : State) (e : Event) (calls : List Call) : List Call :=
  match e with
  | .incr r delivery =>
      match s.pc r with
      | .incr call _ => if delivery = .lost then calls else call :: calls
      | .idle | .expire _ _ | .finished _ => calls
  | .tick _ | .call _ _ _ _ | .expire _ _ | .cancel _ => calls

abbrev tallied : System (State × List Call) Event := machine.withHistory [] tally

/-- A call can still read the clock in the period of the counter. -/
def Open (now : DateTime) (c : Counter) : Prop :=
  ∃ call : Call, call.counter = some c ∧ now ≤ call.time

/-- The counter in the store against the executed increments. -/
structure Exact (store : Store) (calls : List Call) (c : Counter) : Prop where
  absent : store.entries c.key = none → countOf c calls = 0
  present : ∀ e, store.entries c.key = some e →
    e.value = .int (countOf c calls) ∧ 0 < countOf c calls
  outlives : ∀ e x, store.entries c.key = some e → e.expiresAt = some x →
    ∀ call : Call, call.counter = some c → (call.time.stamp : ℤ) < x

/-- A counter never holds more than the increments of its period. -/
def Bounded (store : Store) (calls : List Call) (c : Counter) : Prop :=
  ∀ e, store.entries c.key = some e → ∃ m, e.value = .int m ∧ m ≤ countOf c calls

structure Tallied (p : State × List Call) : Prop where
  exact : ∀ c, Open p.1.now c → Exact p.1.store p.2 c
  bounded : ∀ c, Bounded p.1.store p.2 c
  reading : ∀ r call c, p.1.pc r = .incr call c → call.counter = some c ∧ call.time ≤ p.1.now
  pending : ∀ r key ttl, p.1.pc r = .expire key ttl → ∃ (call : Call) (c : Counter),
    call.counter = some c ∧ call.time ≤ p.1.now ∧ c.key = key ∧ periodTtl call.period = some ttl

section Periods

variable {period : String} {s t u now later : DateTime} {c : Counter} {call : Call}

theorem samePeriod_of_between (hPeriod : period = "daily" ∨ period = "monthly") (hst : s ≤ t)
    (htu : t ≤ u) (h : SamePeriod period s u) : SamePeriod period s t := by
  rw [samePeriod_iff hPeriod hst]
  have hEnd := (samePeriod_iff hPeriod (hst.trans htu)).mp h
  exact (DateTime.dayNumber_le htu).trans_lt hEnd

theorem Open.earlier (h : Open later c) (hLater : now ≤ later) : Open now c := by
  obtain ⟨call, hCall, hTime⟩ := h
  exact ⟨call, hCall, hLater.trans hTime⟩

/-- A call that has read the clock and works on an open counter read it in the
period of now. -/
theorem Open.samePeriod (h : Open now c) (hCall : call.counter = some c) (hPast : call.time ≤ now) :
    SamePeriod call.period call.time now := by
  obtain ⟨last, hLast, hTime⟩ := h
  exact samePeriod_of_between (period_of_counter hCall) hPast hTime
    (samePeriod_of_counter hCall hLast).2

/-- In the same period the clock names the same counter. -/
theorem counter_of_samePeriod (hCall : call.counter = some c)
    (hSame : SamePeriod call.period call.time now) : Call.counter { call with time := now } = some c := by
  have hKnown := period_of_counter hCall
  rw [← hCall]
  exact (counterAt_eq_iff hKnown hKnown).mpr
    ⟨rfl, rfl, rfl, hSame.1.symm, hSame.2.1.symm, fun hDaily => (hSame.2.2 hDaily).symm⟩

theorem open_of_samePeriod (hCall : call.counter = some c)
    (hSame : SamePeriod call.period call.time now) : Open now c :=
  ⟨_, counter_of_samePeriod hCall hSame, le_rfl⟩

theorem Open.now_counter (h : Open now c) (hCall : call.counter = some c)
    (hPast : call.time ≤ now) : Call.counter { call with time := now } = some c :=
  counter_of_samePeriod hCall (h.samePeriod hCall hPast)

end Periods

section Commands

variable {s : State} {store : Store} {calls : List Call} {c : Counter} {call : Call}

theorem Exact.congr (h : Exact s.store calls c) (hEntry : store.entries c.key = s.store.entries c.key)
    {calls' : List Call} (hCount : countOf c calls' = countOf c calls) : Exact store calls' c := by
  constructor
  · rw [hEntry, hCount]
    exact h.absent
  · rw [hEntry, hCount]
    exact h.present
  · rw [hEntry]
    exact h.outlives

/-- Within its period a counter does not expire. -/
theorem Exact.lookup (h : Exact s.store calls c) (hCall : call.counter = some c)
    (hNow : call.time = s.now) {e : Redis.Entry ℤ Empty ℕ}
    (hEntry : s.store.entries c.key = some e) : s.store.lookup s.clock c.key = some e := by
  rw [Redis.Server.lookup_eq_some]
  refine ⟨hEntry, ?_⟩
  cases hExpires : e.expiresAt with
  | none => simp [Redis.Entry.live, hExpires]
  | some x =>
      have hBefore := h.outlives e x hEntry hExpires call hCall
      rw [hNow] at hBefore
      rw [Redis.Entry.live, hExpires]
      exact decide_eq_true hBefore

theorem Exact.quotaUsage (h : Exact s.store calls c) (hCall : call.counter = some c)
    (hNow : call.time = s.now) :
    quotaUsage (s.store.get s.clock c.key) = some (countOf c calls : ℤ) := by
  cases hEntry : s.store.entries c.key with
  | none =>
      have hGet : s.store.get s.clock c.key = none := by
        rw [Redis.Server.get_eq_none, Redis.Server.lookup_eq_none]
        simp [hEntry]
      rw [hGet, h.absent hEntry]
      rfl
  | some e =>
      have hGet : s.store.get s.clock c.key = some (.int (countOf c calls)) :=
        Redis.Server.get_eq_some.mpr ⟨e, h.lookup hCall hNow hEntry, (h.present e hEntry).1⟩
      rw [hGet]
      rfl

/-- INCR within the period counts one more and keeps the expiry. -/
theorem Exact.incr (hSound : Sound s) (h : Exact s.store calls c) (hCall : call.counter = some c)
    (hOpen : Open s.now c) (hPast : call.time ≤ s.now) {r : ℕ} {n : ℤ}
    (hIncr : s.store.incr s.clock c.key r = some (store, n)) :
    Exact store (call :: calls) c := by
  have hNow := hOpen.now_counter hCall hPast
  obtain ⟨-, hSelf⟩ := incr_effect hSound.positive hIncr
  have hCount : countOf c (call :: calls) = countOf c calls + 1 := countOf_cons_self hCall
  rcases hSelf with ⟨hAbsent, -, hNew⟩ | ⟨e, m, hLookup, hValue, -, -, hNew⟩
  · have hNone : s.store.entries c.key = none := by
      by_contra hSome
      obtain ⟨e, hEntry⟩ := Option.ne_none_iff_exists'.mp hSome
      rw [h.lookup hNow rfl hEntry] at hAbsent
      cases hAbsent
    rw [h.absent hNone] at hCount
    constructor
    · rw [hNew]
      exact fun hEmpty => absurd hEmpty (Option.some_ne_none _)
    · intro e' hEntry
      obtain rfl := Option.some.inj (hNew.symm.trans hEntry)
      exact ⟨by rw [hCount]; rfl, by omega⟩
    · intro e' x hEntry hExpires
      obtain rfl := Option.some.inj (hNew.symm.trans hEntry)
      cases hExpires
  · have hBefore := (Redis.Server.lookup_eq_some.mp hLookup).1
    have hOld : m = countOf c calls :=
      Redis.Value.int.inj (hValue.symm.trans (h.present e hBefore).1)
    constructor
    · rw [hNew]
      exact fun hEmpty => absurd hEmpty (Option.some_ne_none _)
    · intro e' hEntry
      obtain rfl := Option.some.inj (hNew.symm.trans hEntry)
      exact ⟨by rw [hCount, hOld]; rfl, by omega⟩
    · intro e' x hEntry hExpires
      obtain rfl := Option.some.inj (hNew.symm.trans hEntry)
      exact h.outlives e x hBefore hExpires

/-- After its expiry a counter starts from zero again, so it may fall behind. -/
theorem Bounded.incr (hSound : Sound s) (h : Bounded s.store calls c) (hCall : call.counter = some c)
    {r : ℕ} {n : ℤ} (hIncr : s.store.incr s.clock c.key r = some (store, n)) :
    Bounded store (call :: calls) c := by
  obtain ⟨-, hSelf⟩ := incr_effect hSound.positive hIncr
  have hCount : countOf c (call :: calls) = countOf c calls + 1 := countOf_cons_self hCall
  intro e hEntry
  rcases hSelf with ⟨-, -, hNew⟩ | ⟨old, m, hLookup, hValue, -, -, hNew⟩
  · obtain rfl := Option.some.inj (hNew.symm.trans hEntry)
    exact ⟨1, rfl, by omega⟩
  · obtain ⟨m', hOld, hLe⟩ := h old (Redis.Server.lookup_eq_some.mp hLookup).1
    obtain rfl : m = m' := Redis.Value.int.inj (hValue.symm.trans hOld)
    obtain rfl := Option.some.inj (hNew.symm.trans hEntry)
    exact ⟨m + 1, rfl, by omega⟩

theorem Bounded.congr (h : Bounded s.store calls c)
    (hEntry : store.entries c.key = s.store.entries c.key) {calls' : List Call}
    (hCount : countOf c calls' = countOf c calls) : Bounded store calls' c := by
  unfold Bounded
  rw [hEntry, hCount]
  exact h

theorem Bounded.expire (h : Bounded s.store calls c) (hUnlimited : Unlimited s c.key) (ttl : ℤ) :
    Bounded (s.expireLive c.key ttl) calls c := by
  obtain ⟨-, e, hEntry, hNew⟩ := expireLive_effect hUnlimited ttl
  intro e' hEntry'
  obtain rfl := Option.some.inj (hNew.symm.trans hEntry')
  exact h e hEntry

/-- GET finds at most that many. -/
theorem Bounded.quotaUsage_le (h : Bounded s.store calls c) {current : ℤ}
    (hUsage : quotaUsage (s.store.get s.clock c.key) = some current) :
    current ≤ countOf c calls := by
  cases hGet : s.store.get s.clock c.key with
  | none =>
      rw [hGet] at hUsage
      obtain rfl : 0 = current := Option.some.inj hUsage
      exact Int.natCast_nonneg _
  | some value =>
      obtain ⟨e, hLookup, rfl⟩ := Redis.Server.get_eq_some.mp hGet
      obtain ⟨m, hValue, hLe⟩ := h e (Redis.Server.lookup_eq_some.mp hLookup).1
      rw [hGet, hValue] at hUsage
      obtain rfl : m = current := Option.some.inj hUsage
      exact hLe

/-- EXPIRE within the period sets an expiry behind it. -/
theorem Exact.expire (h : Exact s.store calls c) (hUnlimited : Unlimited s c.key)
    (hCall : call.counter = some c) (hOpen : Open s.now c) (hPast : call.time ≤ s.now) {ttl : ℤ}
    (hTtl : periodTtl call.period = some ttl) : Exact (s.expireLive c.key ttl) calls c := by
  obtain ⟨-, e, hEntry, hNew⟩ := expireLive_effect hUnlimited ttl
  constructor
  · rw [hNew]
    exact fun hEmpty => absurd hEmpty (Option.some_ne_none _)
  · intro e' hEntry'
    obtain rfl := Option.some.inj (hNew.symm.trans hEntry')
    exact h.present e hEntry
  · intro e' x hEntry' hExpires other hOther
    obtain rfl := Option.some.inj (hNew.symm.trans hEntry')
    obtain rfl : s.clock + ttl * microsPerSecond = x := Option.some.inj hExpires
    have hKind := samePeriod_of_counter (hOpen.now_counter hCall hPast) hOther
    exact stamp_lt_add_ttl (period_of_counter hCall) hTtl hKind.2

end Commands

section Invariant

variable {s : State} {calls : List Call}

/-- A caller who moves without a command. -/
theorem Tallied.goto (h : Tallied (s, calls)) (r : ℕ) {pc : Pc}
    (hReading : ∀ call c, pc = .incr call c → call.counter = some c ∧ call.time ≤ s.now)
    (hExpire : ∀ key ttl, pc = .expire key ttl → ∃ (call : Call) (c : Counter),
      call.counter = some c ∧ call.time ≤ s.now ∧ c.key = key ∧ periodTtl call.period = some ttl) :
    Tallied (s.goto r pc, calls) := by
  refine ⟨h.exact, h.bounded, ?_, ?_⟩
  · intro r' call c hPc
    rcases goto_pc_eq hPc with ⟨-, hNew⟩ | ⟨-, hOld⟩
    · exact hReading call c hNew
    · exact h.reading r' call c hOld
  · intro r' key ttl hPc
    rcases goto_pc_eq hPc with ⟨-, hNew⟩ | ⟨-, hOld⟩
    · exact hExpire key ttl hNew
    · exact h.pending r' key ttl hOld

theorem Tallied.finish (h : Tallied (s, calls)) (r : ℕ) (result : Option ℤ) :
    Tallied (s.goto r (.finished result), calls) :=
  h.goto r (by simp) (by simp)

theorem Tallied.begin (h : Tallied (s, calls)) (r : ℕ) (v k : Uuid) (period : String) :
    Tallied (s.begin r v k period, calls) := by
  unfold State.begin
  simp only
  split
  · exact h.finish r none
  · rename_i c hCounter
    refine h.goto r ?_ (by simp)
    intro call c' hPc
    injection hPc with hCall hSame
    subst hCall hSame
    exact ⟨hCounter, le_rfl⟩

/-- An executed INCR is counted. -/
theorem Tallied.incr (hSound : Sound s) (h : Tallied (s, calls)) {r : ℕ} {call : Call} {c : Counter}
    (hPc : s.pc r = .incr call c) {store : Store} {n : ℤ}
    (hIncr : s.store.incr s.clock c.key r = some (store, n)) :
    Tallied ({ s with store := store }, call :: calls) := by
  obtain ⟨hCall, hPast⟩ := h.reading r call c hPc
  have hOther {c' : Counter} (hNe : c' ≠ c) : store.entries c'.key = s.store.entries c'.key ∧
      countOf c' (call :: calls) = countOf c' calls :=
    ⟨(incr_effect hSound.positive hIncr).1 _ fun hEq => hNe (Counter.key_injective hEq),
      countOf_cons_of_ne fun hEq => hNe (Option.some.inj (hEq.symm.trans hCall))⟩
  refine ⟨fun c' hOpen => ?_, fun c' => ?_, h.reading, h.pending⟩
  · by_cases hSame : c' = c
    · subst hSame
      exact (h.exact c' hOpen).incr hSound hCall hOpen hPast hIncr
    · exact (h.exact c' hOpen).congr (hOther hSame).1 (hOther hSame).2
  · by_cases hSame : c' = c
    · subst hSame
      exact (h.bounded c').incr hSound hCall hIncr
    · exact (h.bounded c').congr (hOther hSame).1 (hOther hSame).2

theorem Tallied.expireLive (hSound : Sound s) (h : Tallied (s, calls)) {r : ℕ} {key : String}
    {ttl : ℤ} (hPc : s.pc r = .expire key ttl) :
    Tallied ({ s with store := s.expireLive key ttl }, calls) := by
  obtain ⟨call, c, hCall, hPast, rfl, hTtl⟩ := h.pending r key ttl hPc
  have hUnlimited := hSound.unlimited r c.key ttl hPc
  have hOther {c' : Counter} (hNe : c' ≠ c) :
      (s.expireLive c.key ttl).entries c'.key = s.store.entries c'.key :=
    (expireLive_effect hUnlimited ttl).1 _ fun hEq => hNe (Counter.key_injective hEq)
  refine ⟨fun c' hOpen => ?_, fun c' => ?_, h.reading, h.pending⟩
  · by_cases hSame : c' = c
    · subst hSame
      exact (h.exact c' hOpen).expire hUnlimited hCall hOpen hPast hTtl
    · exact (h.exact c' hOpen).congr (hOther hSame) rfl
  · by_cases hSame : c' = c
    · subst hSame
      exact (h.bounded c').expire hUnlimited ttl
    · exact (h.bounded c').congr (hOther hSame) rfl

theorem Tallied.step {p q : State × List Call} {e : Event} (hSound : Sound p.1) (h : Tallied p)
    (next : tallied.step p e = some q) : Tallied q := by
  obtain ⟨s, calls⟩ := p
  obtain ⟨t, calls'⟩ := q
  obtain ⟨hStep, rfl⟩ := System.withHistory_step next
  rcases step_cases hStep with ⟨later, rfl, hLater, rfl⟩ | ⟨r, v, k, period, rfl, -, rfl⟩ |
    ⟨r, delivery, call, c, rfl, hPc, rfl⟩ | ⟨r, delivery, key, ttl, rfl, hPc, rfl⟩ |
    ⟨r, rfl, -, rfl⟩
  · refine ⟨fun c hOpen => h.exact c (hOpen.earlier hLater), h.bounded, fun r call c hPc => ?_,
      fun r key ttl hPc => ?_⟩
    · exact ⟨(h.reading r call c hPc).1, (h.reading r call c hPc).2.trans hLater⟩
    · obtain ⟨call, c, hCall, hPast, hRest⟩ := h.pending r key ttl hPc
      exact ⟨call, c, hCall, hPast.trans hLater, hRest⟩
  · exact h.begin r v k period
  · have hCaller : s.pc r = .incr call c := hPc
    simp only [tally, hCaller]
    rcases incrStep_cases s r call c delivery with ⟨rfl, hStep⟩ |
      ⟨store, n, hIncr, ⟨rfl, hStep⟩ | ⟨rfl, hStep⟩⟩
    · rw [hStep]
      exact h.finish r none
    · rw [hStep]
      exact (h.incr hSound hCaller hIncr).finish r none
    · rw [hStep]
      obtain ⟨hCall, hPast⟩ := h.reading r call c hCaller
      refine (h.incr hSound hCaller hIncr).goto r ?_ ?_
      · intro call' c' hAfter
        exact absurd hAfter (afterIncr_ne_incr call call' c c' n)
      · intro key ttl hAfter
        obtain ⟨-, hKey, hTtl⟩ := eq_of_afterIncr hAfter
        exact ⟨call, c, hCall, hPast, hKey, hTtl⟩
  · have hExecuted := h.expireLive hSound hPc
    cases delivery with
    | lost => exact h.finish r none
    | unanswered => exact hExecuted.finish r none
    | answered => exact hExecuted.finish r (some 1)
  · exact h.finish r none

theorem tallied_of_init {s : State} (start : machine.init s) : Tallied (s, []) := by
  obtain ⟨hStore, hIdle⟩ := start
  have hEmpty (c : Counter) : s.store.entries c.key = none := by
    rw [hStore]
    rfl
  refine ⟨fun c _ => ⟨fun _ => rfl, ?_, ?_⟩, fun c => ?_, ?_, ?_⟩
  · simp [hEmpty]
  · simp [hEmpty]
  · simp [Bounded, hEmpty]
  · simp [hIdle]
  · simp [hIdle]

end Invariant

/-- The increments that belong to the vendor, the key and the period of a reading. -/
def used (reading : Call) (calls : List Call) : ℕ :=
  (calls.filter fun call => call.vendorId = reading.vendorId ∧ call.keyId = reading.keyId ∧
    call.period = reading.period ∧ SamePeriod reading.period call.time reading.time).length

theorem countOf_eq_used {reading : Call} {c : Counter} (h : reading.counter = some c)
    (calls : List Call) : countOf c calls = used reading calls := by
  have hPeriod := period_of_counter h
  rw [countOf, List.countP_eq_length_filter, used]
  congr 1
  apply List.filter_congr
  intro call _
  rw [decide_eq_decide, ← h]
  by_cases hKnown : call.period = "daily" ∨ call.period = "monthly"
  · rw [Call.counter, Call.counter, counterAt_eq_iff hKnown hPeriod]
    constructor
    · rintro ⟨hVendor, hKey, hKind, hSame⟩
      exact ⟨hVendor, hKey, hKind, hKind ▸ hSame⟩
    · rintro ⟨hVendor, hKey, hKind, hSame⟩
      exact ⟨hVendor, hKey, hKind, hKind.symm ▸ hSame⟩
  · constructor
    · intro hSame
      exact absurd (period_of_counter (hSame.trans h)) hKnown
    · rintro ⟨-, -, hKind, -⟩
      exact absurd (hKind ▸ hPeriod) hKnown

/-- GET finds the number of executed increments, if the period of the reading of
the clock is not over. -/
theorem Tallied.quotaUsage {s : State} {calls : List Call} (h : Tallied (s, calls))
    {reading : Call} {c : Counter} (hCounter : reading.counter = some c)
    (hPast : reading.time ≤ s.now) (hSame : SamePeriod reading.period reading.time s.now) :
    Quota.quotaUsage (s.store.get s.clock c.key) = some (used reading calls : ℤ) := by
  have hOpen := open_of_samePeriod hCounter hSame
  rw [(h.exact c hOpen).quotaUsage (hOpen.now_counter hCounter hPast) rfl,
    countOf_eq_used hCounter]

/-- Also later it never finds more. -/
theorem Tallied.quotaUsage_le {s : State} {calls : List Call} (h : Tallied (s, calls))
    {reading : Call} {c : Counter} (hCounter : reading.counter = some c) {current : ℤ}
    (hUsage : Quota.quotaUsage (s.store.get s.clock c.key) = some current) :
    current ≤ used reading calls := by
  rw [← countOf_eq_used hCounter]
  exact (h.bounded c).quotaUsage_le hUsage

end Gateway.Quota.Callers

import Gateway.Quota.Expiry

/-! Quota counters count exactly: without failures the counter of a period holds
the number of increments in it, whatever the callers do in between, and it
outlives its period. -/
namespace Gateway.Quota.Callers

open Calendar Transition Gateway.Db Rollover

/-- Nothing fails, and INCR is sent at the instant of the call's reading of the
clock. -/
def Punctual (s : State) : Event → Prop
  | .tick _ => True
  | .call _ _ _ _ => True
  | .incr r delivery => delivery = .answered ∧ ∀ call c, s.pc r = .incr call c → call.time = s.now
  | .expire _ delivery => delivery = .answered
  | .cancel _ => False

/-- The reading of the clock that a call is about to count with. -/
def Pc.reading : Pc → Option DateTime
  | .incr call _ => some call.time
  | _ => none

theorem punctual_incr {s : State} {r : ℕ} {delivery : Delivery} :
    delivery = .answered ∧ (∀ time ∈ (s.pc r).reading, time = s.now) ↔
      Punctual s (.incr r delivery) := by
  cases hPc : s.pc r <;> simp [Punctual, Pc.reading, hPc]

instance (s : State) : (e : Event) → Decidable (Punctual s e)
  | .tick _ | .call _ _ _ _ => isTrue trivial
  | .incr _ _ => decidable_of_iff _ punctual_incr
  | .expire _ delivery => inferInstanceAs (Decidable (delivery = .answered))
  | .cancel _ => isFalse id

/-- The increments so far, the newest first. -/
def record (s : State) (e : Event) (calls : List Call) : List Call :=
  match e with
  | .incr r _ =>
      match s.pc r with
      | .incr call _ => call :: calls
      | .idle | .expire _ _ | .finished _ => calls
  | .tick _ | .call _ _ _ _ | .expire _ _ | .cancel _ => calls

abbrev recorded : System (State × List Call) Event := machine.withHistory [] record

/-- A month is not spelled like a day. -/
theorem periodBucket_kinds (s t : DateTime) :
    Rollover.periodBucket "daily" s ≠ Rollover.periodBucket "monthly" t := by
  have hDaily : Rollover.periodBucket "daily" s = some s.date.isoDate := rfl
  have hMonthly : Rollover.periodBucket "monthly" t = some t.date.isoMonth := by
    unfold Rollover.periodBucket
    rw [if_neg (by decide), if_pos rfl]
  rw [hDaily, hMonthly]
  intro h
  have hList := congrArg String.toList (Option.some.inj h)
  simp only [Date.isoDate, Date.isoMonth, String.toList_append, List.append_assoc] at hList
  obtain ⟨-, hRest⟩ := Text.append_sep_inj (Text.sep_notMem_repr _) (Text.sep_notMem_repr _) hList
  have hMonth : (Text.twoDigits s.date.month).toList ++
      '-' :: (Text.twoDigits s.date.day).toList = (Text.twoDigits t.date.month).toList := hRest
  have hSep : '-' ∈ (Text.twoDigits t.date.month).toList := by
    rw [← hMonth]
    simp
  exact Text.sep_notMem_twoDigits _ hSep

theorem counterAt_eq_bucket {v v' k k' : Uuid} {period period' : String} {s t : DateTime} :
    Rollover.counterAt v k period s = Rollover.counterAt v' k' period' t →
      Rollover.periodBucket period s = Rollover.periodBucket period' t := by
  intro h
  have hBucket := congrArg (Option.map Counter.bucket) h
  simpa [Rollover.counterAt, Function.comp_def] using hBucket

/-- Counters of known periods are the same exactly within one period. -/
theorem counterAt_eq_iff {v v' k k' : Uuid} {period period' : String} {s t : DateTime}
    (hPeriod : period = "daily" ∨ period = "monthly")
    (hPeriod' : period' = "daily" ∨ period' = "monthly") :
    Rollover.counterAt v k period s = Rollover.counterAt v' k' period' t ↔
      v = v' ∧ k = k' ∧ period = period' ∧ SamePeriod period s t := by
  constructor
  · intro h
    have hBucket := counterAt_eq_bucket h
    have hKind : period = period' := by
      rcases hPeriod with rfl | rfl <;> rcases hPeriod' with rfl | rfl
      · rfl
      · exact absurd hBucket (periodBucket_kinds s t)
      · exact absurd hBucket.symm (periodBucket_kinds t s)
      · rfl
    subst hKind
    have hSame := (periodBucket_eq_iff hPeriod).mp hBucket
    obtain ⟨b, hb⟩ : ∃ b, Rollover.periodBucket period t = some b := by
      rcases hPeriod with rfl | rfl
      · exact ⟨_, rfl⟩
      · exact ⟨_, rfl⟩
    simp only [Rollover.counterAt, hBucket, hb, Option.map_some, Option.some.injEq,
      Counter.mk.injEq] at h
    exact ⟨h.1, h.2.1, rfl, hSame⟩
  · rintro ⟨rfl, rfl, rfl, hSame⟩
    rw [Rollover.counterAt, Rollover.counterAt, (periodBucket_eq_iff hPeriod).mpr hSame]

theorem period_of_counter {v k : Uuid} {period : String} {time : DateTime} {c : Counter}
    (h : Rollover.counterAt v k period time = some c) : period = "daily" ∨ period = "monthly" := by
  unfold Rollover.counterAt Rollover.periodBucket at h
  split_ifs at h with hDaily hMonthly
  · exact Or.inl hDaily
  · exact Or.inr hMonthly
  · cases h

/-- The calls that went to a counter. -/
def countOf (c : Counter) (calls : List Call) : ℕ :=
  calls.countP fun call => call.counter = some c

/-- The store against the increments so far. -/
structure Counted (p : State × List Call) : Prop where
  past : ∀ call ∈ p.2, call.time ≤ p.1.now
  reading : ∀ r call c, p.1.pc r = .incr call c → call.counter = some c
  absent : ∀ c : Counter, p.1.store.entries c.key = none → countOf c p.2 = 0
  present : ∀ (c : Counter) e, p.1.store.entries c.key = some e →
    e.value = .int (countOf c p.2) ∧ 0 < countOf c p.2
  outlives : ∀ call ∈ p.2, ∀ c, call.counter = some c → ∀ e x,
    p.1.store.entries c.key = some e → e.expiresAt = some x →
      ∀ t, SamePeriod call.period call.time t → (t.stamp : ℤ) < x
  pending : ∀ r key ttl, p.1.pc r = .expire key ttl →
    ∃ call ∈ p.2, ∃ c, call.counter = some c ∧ c.key = key ∧ periodTtl call.period = some ttl

section Invariant

variable {s t : State} {calls : List Call}

/-- Two calls that went to the same counter lie in one period. -/
theorem samePeriod_of_counter {call call' : Call} {c : Counter} (h : call.counter = some c)
    (h' : call'.counter = some c) :
    call.period = call'.period ∧ SamePeriod call.period call.time call'.time := by
  have hSame := (counterAt_eq_iff (period_of_counter h) (period_of_counter h')).mp
    (h.trans h'.symm)
  exact hSame.2.2

/-- The expiry of a counter lies after all of its period. -/
theorem Counted.lt_expiry (h : Counted (s, calls)) {c : Counter} {call : Call}
    (hCall : call.counter = some c) {e : Redis.Entry ℤ Empty ℕ}
    (hEntry : s.store.entries c.key = some e) {x : ℤ} (hExpires : e.expiresAt = some x)
    {time : DateTime} (hPeriod : SamePeriod call.period call.time time) :
    (time.stamp : ℤ) < x := by
  obtain ⟨earlier, hMem, hEarlier⟩ := List.countP_pos_iff.mp (h.present c e hEntry).2
  rw [decide_eq_true_iff] at hEarlier
  obtain ⟨hKind, hTogether⟩ := samePeriod_of_counter hEarlier hCall
  rw [← hKind] at hPeriod
  exact h.outlives earlier hMem c hEarlier e x hEntry hExpires time (hTogether.trans hPeriod)

/-- As long as its period lasts a counter is in Redis. -/
theorem Counted.lookup (h : Counted (s, calls)) {c : Counter} {call : Call}
    (hCall : call.counter = some c) (hNow : call.time = s.now)
    {e : Redis.Entry ℤ Empty ℕ} (hEntry : s.store.entries c.key = some e) :
    s.store.lookup s.clock c.key = some e := by
  rw [Redis.Server.lookup_eq_some]
  refine ⟨hEntry, ?_⟩
  cases hExpires : e.expiresAt with
  | none => simp [Redis.Entry.live, hExpires]
  | some x =>
      have hBefore := h.lt_expiry hCall hEntry hExpires (samePeriod_of_counter hCall hCall).2
      rw [hNow] at hBefore
      rw [Redis.Entry.live, hExpires]
      exact decide_eq_true hBefore

theorem countOf_cons_self {call : Call} {c : Counter} (h : call.counter = some c) :
    countOf c (call :: calls) = countOf c calls + 1 :=
  List.countP_cons_of_pos (decide_eq_true h)

theorem countOf_cons_of_ne {call : Call} {c : Counter} (h : call.counter ≠ some c) :
    countOf c (call :: calls) = countOf c calls :=
  List.countP_cons_of_neg (by simpa using h)

/-- INCR moves the counter to the new count, under the expiry that it had. -/
theorem Counted.incr_entry (hSound : Sound s) (h : Counted (s, calls)) {r : ℕ} {call : Call}
    {c : Counter} (hCall : call.counter = some c) (hNow : call.time = s.now) {store : Store}
    {n : ℤ} (hIncr : s.store.incr s.clock c.key r = some (store, n)) :
    ∃ e, store.entries c.key = some e ∧ e.value = .int (countOf c (call :: calls)) ∧
      ∀ x, e.expiresAt = some x →
        ∃ e', s.store.entries c.key = some e' ∧ e'.expiresAt = some x := by
  obtain ⟨-, hSelf⟩ := incr_effect hSound.positive hIncr
  rw [countOf_cons_self hCall]
  cases hBefore : s.store.entries c.key with
  | none =>
      rcases hSelf with ⟨-, -, hNew⟩ | ⟨e, m, hLookup, -⟩
      · rw [h.absent c hBefore]
        exact ⟨_, hNew, rfl, fun x hx => by cases hx⟩
      · rw [(Redis.Server.lookup_eq_some.mp hLookup).1] at hBefore
        cases hBefore
  | some e =>
      -- the counter is still in Redis and holds the count
      have hLookup := h.lookup hCall hNow hBefore
      rcases hSelf with ⟨hAbsent, -⟩ | ⟨e', m, hLookup', hValue, -, -, hNew⟩
      · rw [hLookup] at hAbsent
        cases hAbsent
      · obtain rfl : e = e' := Option.some.inj (hLookup.symm.trans hLookup')
        have hCount : m = countOf c calls :=
          Redis.Value.int.inj (hValue.symm.trans (h.present c e hBefore).1)
        exact ⟨_, hNew, by rw [hCount]; rfl, fun x hx => ⟨e, rfl, hx⟩⟩

/-- INCR counts its call. -/
theorem Counted.incr (hSound : Sound s) (h : Counted (s, calls)) {r : ℕ} {call : Call}
    {c : Counter} (hPc : s.pc r = .incr call c) (hNow : call.time = s.now) :
    Counted (incrStep s r call c .answered, call :: calls) := by
  have hCall := h.reading r call c hPc
  rcases incrStep_cases s r call c .answered with ⟨hLost, -⟩ |
    ⟨store, n, hIncr, ⟨hUnanswered, -⟩ | ⟨-, hStep⟩⟩
  · cases hLost
  · cases hUnanswered
  obtain ⟨hOthers, -⟩ := incr_effect hSound.positive hIncr
  obtain ⟨e, hNew, hValue, hExpiry⟩ := h.incr_entry hSound hCall hNow hIncr
  have hKey {c' : Counter} (hNe : c' ≠ c) : c'.key ≠ c.key := fun hSame =>
    hNe (Counter.key_injective hSame)
  have hCount {c' : Counter} (hNe : c' ≠ c) : countOf c' (call :: calls) = countOf c' calls :=
    countOf_cons_of_ne fun hSame => hNe (Option.some.inj (hSame.symm.trans hCall))
  rw [hStep]
  constructor
  · intro call' hMem
    rcases List.mem_cons.mp hMem with rfl | hOld
    · exact hNow.le
    · exact h.past call' hOld
  · intro r' call' c' hPc'
    rcases goto_pc_eq hPc' with ⟨-, hAfter⟩ | ⟨-, hOld⟩
    · exact absurd hAfter (afterIncr_ne_incr call call' c c' n)
    · exact h.reading r' call' c' hOld
  · intro c' hNone
    have hNe : c' ≠ c := by
      rintro rfl
      cases hNew.symm.trans hNone
    rw [hCount hNe]
    exact h.absent c' ((hOthers _ (hKey hNe)).symm.trans hNone)
  · intro c' e' hEntry'
    by_cases hSame : c' = c
    · subst hSame
      obtain rfl := Option.some.inj (hNew.symm.trans hEntry')
      exact ⟨hValue, by rw [countOf_cons_self hCall]; omega⟩
    · rw [hCount hSame]
      exact h.present c' e' ((hOthers _ (hKey hSame)).symm.trans hEntry')
  · intro call' hMem c' hCall' e' x hEntry' hExpires t hPeriod
    by_cases hSame : c' = c
    · subst hSame
      obtain rfl := Option.some.inj (hNew.symm.trans hEntry')
      obtain ⟨e'', hBefore, hx⟩ := hExpiry x hExpires
      exact h.lt_expiry hCall' hBefore hx hPeriod
    · rcases List.mem_cons.mp hMem with rfl | hOld
      · exact absurd (Option.some.inj (hCall'.symm.trans hCall)) hSame
      · exact h.outlives call' hOld c' hCall' e' x
          ((hOthers _ (hKey hSame)).symm.trans hEntry') hExpires t hPeriod
  · intro r' key ttl hPc'
    rcases goto_pc_eq hPc' with ⟨-, hAfter⟩ | ⟨-, hOld⟩
    · obtain ⟨-, hKeys, hTtl⟩ := eq_of_afterIncr hAfter
      exact ⟨call, List.mem_cons_self, c, hCall, hKeys, hTtl⟩
    · obtain ⟨call', hMem, hRest⟩ := h.pending r' key ttl hOld
      exact ⟨call', List.mem_cons_of_mem _ hMem, hRest⟩

/-- EXPIRE gives the counter of a period an expiry after that period. -/
theorem Counted.expire (hSound : Sound s) (h : Counted (s, calls)) {r : ℕ} {key : String}
    {ttl : ℤ} (hPc : s.pc r = .expire key ttl) :
    Counted (expireStep s r key ttl .answered, calls) := by
  obtain ⟨hOthers, e, hEntry, hNew⟩ := expireLive_effect (hSound.unlimited r key ttl hPc) ttl
  obtain ⟨creator, hCreator, c, hCounter, rfl, hTtl⟩ := h.pending r key ttl hPc
  constructor
  · exact h.past
  · intro r' call c' hPc'
    rcases goto_pc_eq hPc' with ⟨-, hDone⟩ | ⟨-, hOld⟩
    · cases hDone
    · exact h.reading r' call c' hOld
  · intro c' hNone
    have hNe : c'.key ≠ c.key := by
      intro hSame
      rw [hSame] at hNone
      cases hNew.symm.trans hNone
    exact h.absent c' ((hOthers _ hNe).symm.trans hNone)
  · intro c' e' hEntry'
    by_cases hSame : c'.key = c.key
    · rw [hSame] at hEntry'
      obtain rfl := Option.some.inj (hNew.symm.trans hEntry')
      exact h.present c' e (by rw [hSame]; exact hEntry)
    · exact h.present c' e' ((hOthers _ hSame).symm.trans hEntry')
  · intro call hMem c' hCall e' x hEntry' hExpires t hPeriod
    by_cases hSame : c'.key = c.key
    · obtain rfl := Counter.key_injective hSame
      obtain rfl := Option.some.inj (hNew.symm.trans hEntry')
      obtain rfl : s.clock + ttl * microsPerSecond = x := Option.some.inj hExpires
      obtain ⟨hKind, hTogether⟩ := samePeriod_of_counter hCounter hCall
      rw [← hKind] at hPeriod
      have hBefore := stamp_lt_add_ttl (period_of_counter hCounter) hTtl
        (hTogether.trans hPeriod)
      have hPast : (creator.time.stamp : ℤ) ≤ s.clock :=
        Int.ofNat_le.mpr (h.past creator hCreator)
      exact lt_of_lt_of_le hBefore (by linarith)
    · exact h.outlives call hMem c' hCall e' x ((hOthers _ hSame).symm.trans hEntry') hExpires t
        hPeriod
  · intro r' key' ttl' hPc'
    rcases goto_pc_eq hPc' with ⟨-, hDone⟩ | ⟨-, hOld⟩
    · cases hDone
    · exact h.pending r' key' ttl' hOld

/-- A caller who moves without a command. -/
theorem Counted.goto (h : Counted (s, calls)) (r : ℕ) {pc : Pc}
    (hReading : ∀ call c, pc = .incr call c → call.counter = some c)
    (hExpire : ∀ key ttl, pc ≠ .expire key ttl) : Counted (s.goto r pc, calls) := by
  refine ⟨h.past, ?_, h.absent, h.present, h.outlives, ?_⟩
  · intro r' call c hPc
    rcases goto_pc_eq hPc with ⟨-, hNew⟩ | ⟨-, hOld⟩
    · exact hReading call c hNew
    · exact h.reading r' call c hOld
  · intro r' key ttl hPc
    rcases goto_pc_eq hPc with ⟨-, hNew⟩ | ⟨-, hOld⟩
    · exact absurd hNew (hExpire key ttl)
    · exact h.pending r' key ttl hOld

theorem Counted.begin (h : Counted (s, calls)) (r : ℕ) (v k : Uuid) (period : String) :
    Counted (s.begin r v k period, calls) := by
  unfold State.begin
  simp only
  split
  · exact h.goto r (by simp) (by simp)
  · rename_i c hCounter
    refine h.goto r ?_ (by simp)
    intro call c' hPc
    injection hPc with hCall hSame
    subst hCall hSame
    exact hCounter

theorem Counted.step {p q : State × List Call} {e : Event} (hSound : Sound p.1) (h : Counted p)
    (hPunctual : Punctual p.1 e) (next : recorded.step p e = some q) : Counted q := by
  obtain ⟨s, calls⟩ := p
  obtain ⟨t, calls'⟩ := q
  obtain ⟨hStep, rfl⟩ := System.withHistory_step next
  rcases step_cases hStep with ⟨later, rfl, hLater, rfl⟩ | ⟨r, v, k, period, rfl, -, rfl⟩ |
    ⟨r, delivery, call, c, rfl, hPc, rfl⟩ | ⟨r, delivery, key, ttl, rfl, hPc, rfl⟩ | ⟨r, rfl, -, -⟩
  · exact ⟨fun call hMem => (h.past call hMem).trans hLater, h.reading, h.absent, h.present,
      h.outlives, h.pending⟩
  · exact h.begin r v k period
  · obtain ⟨rfl, hReading⟩ := hPunctual
    have hCaller : s.pc r = .incr call c := hPc
    have hRecord : record s (.incr r .answered) calls = call :: calls := by
      simp only [record, hCaller]
    rw [hRecord]
    exact h.incr hSound hCaller (hReading call c hCaller)
  · obtain rfl : delivery = .answered := hPunctual
    exact h.expire hSound hPc
  · exact hPunctual.elim

theorem counted_of_reaches {p : State × List Call}
    (run : recorded.Reaches (fun p e => Punctual p.1 e) p) : Counted p := by
  apply run.invariant (I := Counted)
  · rintro ⟨s, calls⟩ ⟨⟨hStore, hIdle⟩, hCalls⟩
    obtain rfl : calls = [] := hCalls
    have hEmpty (c : Counter) : s.store.entries c.key = none := by
      rw [show s.store = .empty from hStore]
      rfl
    have hPc (r : ℕ) : s.pc r = .idle := hIdle r
    constructor
    · simp
    · simp [hPc]
    · exact fun _ _ => rfl
    · simp [hEmpty]
    · simp
    · simp [hPc]
  · intro p q e prior h hPunctual next
    exact h.step (sound_of_reaches prior.forget) hPunctual next

/-- A read of the usage finds the count of the counter of that instant. -/
theorem getQuotaUsage_eq (h : Counted (s, calls)) {v k : Uuid} {period : String} {c : Counter}
    (hCounter : Rollover.counterAt v k period s.now = some c) :
    getQuotaUsage s v k period = some (countOf c calls : ℤ) := by
  have hUsage : getQuotaUsage s v k period = quotaUsage (s.store.get s.clock c.key) := by
    rw [getQuotaUsage, hCounter]
    rfl
  rw [hUsage]
  cases hEntry : s.store.entries c.key with
  | none =>
      have hGet : s.store.get s.clock c.key = none := by
        rw [Redis.Server.get_eq_none, Redis.Server.lookup_eq_none]
        simp [hEntry]
      rw [hGet, h.absent c hEntry]
      rfl
  | some e =>
      let reading : Call := ⟨v, k, period, s.now⟩
      have hReading : reading.counter = some c := hCounter
      have hLookup := h.lookup hReading rfl hEntry
      have hGet : s.store.get s.clock c.key = some (.int (countOf c calls)) :=
        Redis.Server.get_eq_some.mpr ⟨e, hLookup, (h.present c e hEntry).1⟩
      rw [hGet]
      rfl

end Invariant

/-- Quota counters count exactly. At every point of every run a read for a
vendor, a key and a period answers the number of increments for these in the
UTC day or month of the read, and the counter of an increment does not expire
within its period. -/
theorem usage_exact (s : State) (calls : List Call)
    (run : recorded.Reaches (fun p e => Punctual p.1 e) (s, calls)) :
    (∀ (vendorId keyId : Uuid) (period : String), period = "daily" ∨ period = "monthly" →
      getQuotaUsage s vendorId keyId period =
        some ((calls.filter fun call => call.vendorId = vendorId ∧ call.keyId = keyId ∧
          call.period = period ∧ SamePeriod period call.time s.now).length : ℤ)) ∧
    ∀ call ∈ calls, ∀ c, call.counter = some c → ∀ entry x,
      s.store.entries c.key = some entry → entry.expiresAt = some x →
        ∀ t, SamePeriod call.period call.time t → (t.stamp : ℤ) < x := by
  have h := counted_of_reaches run
  refine ⟨fun v k period hPeriod => ?_, h.outlives⟩
  obtain ⟨c, hCounter⟩ : ∃ c, Rollover.counterAt v k period s.now = some c := by
    rcases hPeriod with rfl | rfl
    · exact ⟨_, rfl⟩
    · exact ⟨_, rfl⟩
  rw [getQuotaUsage_eq h hCounter, countOf, List.countP_eq_length_filter]
  congr 3
  apply List.filter_congr
  intro call hMem
  rw [decide_eq_decide, ← hCounter]
  by_cases hKnown : call.period = "daily" ∨ call.period = "monthly"
  · rw [Call.counter, counterAt_eq_iff hKnown hPeriod]
    constructor
    · rintro ⟨hVendor, hKey, hKind, hSame⟩
      exact ⟨hVendor, hKey, hKind, hKind ▸ hSame⟩
    · rintro ⟨hVendor, hKey, hKind, hSame⟩
      exact ⟨hVendor, hKey, hKind, hKind.symm ▸ hSame⟩
  · constructor
    · intro hSame
      exact absurd (period_of_counter (hSame.trans hCounter)) hKnown
    · rintro ⟨-, -, hKind, -⟩
      exact absurd (hKind ▸ hPeriod) hKnown

/-- Two callers count for the day and a third one for the month. -/
def firstDay : List Event :=
  [.call 0 .nil .nil "daily", .call 1 .nil .nil "daily", .incr 0 .answered, .incr 1 .answered,
    .expire 0 .answered, .call 2 .nil .nil "monthly", .incr 2 .answered]

/-- What the increments come to for a read at a time. -/
def tallyAt (now : DateTime) (calls : List Call) (period : String) : ℕ :=
  (calls.filter fun call => call.vendorId = .nil ∧ call.keyId = .nil ∧ call.period = period ∧
    SamePeriod period call.time now).length

/-- The reads on that day, and in the next month. -/
theorem usage_exact_sample : ∃ s t, machine.step s (.tick marchMorning) = some t ∧
    (getQuotaUsage s .nil .nil "daily" = some 2 ∧ getQuotaUsage s .nil .nil "monthly" = some 1) ∧
      getQuotaUsage t .nil .nil "daily" = some 0 ∧ getQuotaUsage t .nil .nil "monthly" = some 0 := by
  have start : recorded.Reaches (fun p e => Punctual p.1 e) (sampleStart, []) :=
    .init ⟨init_sampleStart, rfl⟩
  obtain ⟨⟨s, calls⟩, run, hEnd⟩ := start.exec_any
    (by decide +kernel : (recorded.exec (fun p e => Punctual p.1 e) (sampleStart, [])
      firstDay).any (fun p => decide (p.1.now = leapNoon ∧
        (tallyAt leapNoon p.2 "daily" = 2 ∧ tallyAt leapNoon p.2 "monthly" = 1) ∧
          tallyAt marchMorning p.2 "daily" = 0 ∧ tallyAt marchMorning p.2 "monthly" = 0)) = true)
  obtain ⟨hNow, hLeap, hMarch⟩ := of_decide_eq_true hEnd
  have hNow : s.now = leapNoon := hNow
  have next : machine.step s (.tick marchMorning) = some { s with now := marchMorning } := by
    simp only [machine, hNow, leapNoon_le, if_true]
  have later : recorded.Reaches (fun p e => Punctual p.1 e)
      ({ s with now := marchMorning }, calls) :=
    run.step (e := .tick marchMorning) trivial
      (by simp only [System.withHistory, next]; rfl)
  have hUsage {s : State} {calls : List Call}
      (run : recorded.Reaches (fun p e => Punctual p.1 e) (s, calls)) {daily monthly : ℕ}
      (hTally : tallyAt s.now calls "daily" = daily ∧ tallyAt s.now calls "monthly" = monthly) :
      getQuotaUsage s .nil .nil "daily" = some (daily : ℤ) ∧
        getQuotaUsage s .nil .nil "monthly" = some (monthly : ℤ) := by
    obtain ⟨rfl, rfl⟩ := hTally
    exact ⟨(usage_exact s calls run).1 .nil .nil "daily" (Or.inl rfl),
      (usage_exact s calls run).1 .nil .nil "monthly" (Or.inr rfl)⟩
  exact ⟨s, _, next, hUsage run (by rw [hNow]; exact hLeap), hUsage later hMarch⟩

end Gateway.Quota.Callers

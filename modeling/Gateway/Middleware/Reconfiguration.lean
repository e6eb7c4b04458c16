import Gateway.Middleware.Wiring

/-! The limit of a vendor while it is reconfigured. The middleware takes the limit
of each request from the registry of the moment, so that the evaluations of one key
have different capacities, and Redis may fail at any of them. -/
namespace Gateway.Middleware.Reconfiguration

open Transition RateLimit

/-- What becomes of an evaluation of the script. -/
inductive Delivery where
  | answered
  | unanswered
  | lost
  deriving DecidableEq

/-- `check_rate_limit` on a key, with the exception of a Redis that fails as no answer. -/
def attempt (delivery : Delivery) (capacityRpm : ℤ) (now : ℚ) (key : String) (buckets : Buckets) :
    Buckets × Option (Bool × ℤ) :=
  match delivery with
  | .answered => evaluate capacityRpm now key buckets
  | .unanswered => ((evaluate capacityRpm now key buckets).1, none)
  | .lost => (buckets, none)

/-- `limits` is what the registry has for the slugs that it knows. -/
structure State where
  now : ℚ
  limits : String → Option ℤ
  buckets : Buckets

inductive Event where
  | elapse (dt : ℚ)
  | reload (limits : String → Option ℤ)
  | receive (path : String) (delivery : Delivery)

section Machine

variable (vendorRpm : ℤ)

/-- `vendor_rpm`; `settings.rate_limit_vendor_rpm` for a slug that the registry
does not know. -/
def State.limit (s : State) (slug : String) : ℤ := (s.limits slug).getD vendorRpm

/-- `check_rate_limit` on the key of a vendor. -/
def State.check (s : State) (slug : String) (delivery : Delivery) : Buckets × Option (Bool × ℤ) :=
  attempt delivery (s.limit vendorRpm slug) s.now (vendorKey slug) s.buckets

def step (s : State) : Event → Option State
  | .elapse dt => if 0 ≤ dt then some { s with now := s.now + dt } else none
  | .reload limits => some { s with limits := limits }
  | .receive path delivery =>
      match extractVendorSlug path with
      | none => some s
      | some slug => some { s with buckets := (s.check vendorRpm slug delivery).1 }

def machine : System State Event where
  init s := ∀ key, s.buckets key = none
  step := step vendorRpm

/-- Whether `dispatch` goes on to `call_next`: an exception is no refusal. -/
def goesOn : Option (Bool × ℤ) → Bool
  | some (allowed, _) => allowed
  | none => true

/-- A request to a vendor, with the limit of its evaluation, and whether the limiter
let it pass. -/
structure Entry where
  slug : String
  time : ℚ
  capacityRpm : ℤ
  delivery : Delivery
  passed : Bool

/-- The request that comes now. -/
def State.entry (s : State) (slug : String) (delivery : Delivery) : Entry :=
  ⟨slug, s.now, s.limit vendorRpm slug, delivery, goesOn (s.check vendorRpm slug delivery).2⟩

def record (s : State) (e : Event) (log : List Entry) : List Entry :=
  match e with
  | .receive path delivery =>
      match extractVendorSlug path with
      | none => log
      | some slug => s.entry vendorRpm slug delivery :: log
  | .elapse _ | .reload _ => log

def logged : System (State × List Entry) Event := (machine vendorRpm).withHistory [] (record vendorRpm)

end Machine

/-- The check raises: Redis does not answer, or the script fails for the limit 0. -/
def Entry.unchecked (e : Entry) : Bool := decide (e.delivery ≠ .answered ∨ e.capacityRpm = 0)

/-- The request took a token. -/
def Entry.served (e : Entry) : Bool := e.passed && !e.unchecked

def Entry.during (e : Entry) (slug : String) (start stop : ℚ) : Bool :=
  decide (e.slug = slug ∧ start ≤ e.time ∧ e.time ≤ stop)

/-- The requests to a vendor between two times that the limiter let pass. -/
def passes (log : List Entry) (slug : String) (start stop : ℚ) : ℕ :=
  log.countP fun e => e.during slug start stop && e.passed

/-- The requests to a vendor between two times that were not checked. -/
def waived (log : List Entry) (slug : String) (start stop : ℚ) : ℕ :=
  log.countP fun e => e.during slug start stop && e.unchecked

/-- The requests to a vendor between two times that took a token. -/
def served (log : List Entry) (slug : String) (start stop : ℚ) : ℕ :=
  log.countP fun e => e.during slug start stop && e.served

/-- Those from `start` on. -/
def servedSince (log : List Entry) (slug : String) (start : ℚ) : ℕ :=
  log.countP fun e => decide (e.slug = slug ∧ start ≤ e.time) && e.served

/-- Who passes takes a token or is not checked. -/
theorem passes_le (log : List Entry) (slug : String) (start stop : ℚ) :
    passes log slug start stop ≤ served log slug start stop + waived log slug start stop := by
  unfold passes
  rw [List.countP_eq_length_filter, List.length_eq_countP_add_countP Entry.unchecked, add_comm]
  refine Nat.add_le_add ?_ ?_ <;> rw [List.countP_filter] <;>
    refine List.countP_mono_left fun e _ h => ?_
  · simp only [Entry.served]
    grind
  · grind

section Script

variable {capacityRpm : ℤ} {now : ℚ} {stored : Option Bucket}

/-- What an evaluation leaves, for any capacity. -/
theorem checkRateLimit_left (capacityRpm : ℤ) (now : ℚ) (key : Option Bucket) :
    ∃ expiresAt, (checkRateLimit capacityRpm now key).1 =
        some ⟨TokenBucket.spend (newTokens capacityRpm (capacityRpm / 60) now key), now, expiresAt⟩ ∧
      (expiresAt = some (now + 61) ∨ capacityRpm = 0 ∧ expiresAt = key.bind Bucket.expiresAt) := by
  by_cases hZero : capacityRpm = 0
  · subst hZero
    refine ⟨key.bind Bucket.expiresAt, ?_, Or.inr ⟨rfl, rfl⟩⟩
    delta checkRateLimit
    simp only [tokenBucketLua, expireSeconds, Int.cast_zero, zero_div, if_true, storeAndExpire,
      TokenBucket.spend]
    split_ifs <;> rfl
  · refine ⟨some (now + 61), ?_, Or.inl rfl⟩
    delta checkRateLimit
    simp only [tokenBucketLua, expireSeconds_of_ne hZero, storeAndExpire, TokenBucket.spend]
    split_ifs <;> simp_all

/-- The script answers unless the limit is 0. -/
theorem isSome_checkRateLimit (hZero : capacityRpm ≠ 0) (now : ℚ) (key : Option Bucket) :
    (checkRateLimit capacityRpm now key).2.isSome = true := by
  have hRate : (capacityRpm : ℚ) / 60 ≠ 0 :=
    div_ne_zero (Int.cast_ne_zero.mpr hZero) (by norm_num)
  delta checkRateLimit
  simp only [tokenBucketLua, expireSeconds_of_ne hZero, storeAndExpire]
  split_ifs <;> simp_all

/-- Only a whole token lets a request pass, and an empty bucket has none. -/
theorem of_passed {key : Option Bucket}
    (h : (checkRateLimit capacityRpm now key).2.any Prod.fst = true) :
    capacityRpm ≠ 0 ∧ 1 ≤ newTokens capacityRpm (capacityRpm / 60) now key := by
  have hZero : capacityRpm ≠ 0 := by
    rintro rfl
    delta checkRateLimit at h
    simp only [tokenBucketLua, expireSeconds, Int.cast_zero, zero_div, if_true, storeAndExpire] at h
    split_ifs at h <;> cases h
  refine ⟨hZero, ?_⟩
  by_contra hLess
  delta checkRateLimit at h
  simp only [tokenBucketLua, expireSeconds_of_ne hZero, storeAndExpire, if_neg hLess] at h
  split_ifs at h <;> simp_all

end Script

section Budget

/-- What is left of a full bucket and its refill since `start`. -/
def left (C : ℤ) (start : ℚ) (count : ℕ) (time : ℚ) : ℚ := C + C / 60 * (time - start) - count

theorem left_mono {C : ℤ} (hC : 0 ≤ C) (start : ℚ) (count : ℕ) {time later : ℚ} (h : time ≤ later) :
    left C start count time ≤ left C start count later := by
  have hRate : (0 : ℚ) ≤ C / 60 := div_nonneg (by exact_mod_cast hC) (by norm_num)
  have := mul_le_mul_of_nonneg_left (sub_le_sub_right h start) hRate
  unfold left
  linarith

/-- The bucket holds no more than what is left, and is not full again before that. -/
structure Covered (C : ℤ) (start : ℚ) (count : ℕ) (b : Bucket) : Prop where
  started : start ≤ b.lastRefill
  nonneg : 0 ≤ left C start count b.lastRefill
  tokens : b.tokens ≤ left C start count b.lastRefill
  expires : ∀ e, b.expiresAt = some e → (C : ℚ) ≤ left C start count e

variable {C capacityRpm : ℤ} {start now : ℚ} {count : ℕ} {stored : Option Bucket}

/-- The level of an evaluation is covered, if its capacity is at most `C`: by the
bucket, or because it is the first one since `start`. -/
theorem newTokens_le_left (hC : 0 ≤ C) (hCapacity : capacityRpm ≤ C)
    (hBefore : (∃ b, stored = some b ∧ Covered C start count b ∧ b.lastRefill ≤ now) ∨
      count = 0 ∧ start ≤ now) :
    newTokens capacityRpm (capacityRpm / 60) now (visible now stored) ≤ left C start count now := by
  have hCapacityLe : (capacityRpm : ℚ) ≤ C := by exact_mod_cast hCapacity
  rcases hBefore with ⟨b, rfl, hCovered, hPast⟩ | ⟨rfl, hStart⟩
  · rcases visible_sound now (some b) with hSame | ⟨hGone, b', hb, e, hExpires, hOver⟩
    · rw [hSame]
      refine (min_le_right _ _).trans ?_
      have hRefill : (now - b.lastRefill) * ((capacityRpm : ℚ) / 60) ≤
          (now - b.lastRefill) * ((C : ℚ) / 60) :=
        mul_le_mul_of_nonneg_left (by linarith) (sub_nonneg.mpr hPast)
      have hTokens := hCovered.tokens
      simp only [Option.map_some, Option.getD_some, left] at hTokens ⊢
      linarith
    · obtain rfl := Option.some.inj hb
      rw [hGone]
      refine (min_le_left _ _).trans (hCapacityLe.trans ?_)
      exact (hCovered.expires e hExpires).trans (left_mono hC start count hOver)
  · refine (min_le_left _ _).trans (hCapacityLe.trans ?_)
    have hFull : left C start 0 start = C := by simp [left]
    exact hFull.symm.le.trans (left_mono hC start 0 hStart)

/-- An evaluation keeps its bucket covered, also when it lets a request pass. -/
theorem covered_check (hC : 0 ≤ C) (hCapacity : capacityRpm ≤ C)
    (hBefore : (∃ b, stored = some b ∧ Covered C start count b ∧ b.lastRefill ≤ now) ∨
      count = 0 ∧ start ≤ now) {passed : Bool}
    (hPassed : passed = true →
      (checkRateLimit capacityRpm now (visible now stored)).2.any Prod.fst = true) :
    ∃ b, (checkRateLimit capacityRpm now (visible now stored)).1 = some b ∧ b.lastRefill = now ∧
      Covered C start (count + if passed then 1 else 0) b := by
  obtain ⟨expiresAt, hLeft, hExpiry⟩ := checkRateLimit_left capacityRpm now (visible now stored)
  have hLevel := newTokens_le_left hC hCapacity hBefore
  have hStart : start ≤ now ∧ 0 ≤ left C start count now := by
    rcases hBefore with ⟨b, -, hCovered, hPast⟩ | ⟨rfl, hStart⟩
    · exact ⟨hCovered.started.trans hPast, hCovered.nonneg.trans (left_mono hC start count hPast)⟩
    · have hFull : (C : ℚ) = left C start 0 start := by simp [left]
      have hPositive : (0 : ℚ) ≤ C := by exact_mod_cast hC
      exact ⟨hStart, (hFull ▸ hPositive).trans (left_mono hC start 0 hStart)⟩
  set level := newTokens capacityRpm (capacityRpm / 60) now (visible now stored)
  set after := count + if passed then 1 else 0 with hAfter
  have hCost (time : ℚ) : left C start after time =
      left C start count time - if passed then 1 else 0 := by
    rw [hAfter, left, left]
    cases passed with
    | true =>
        simp only [if_true, Nat.cast_add, Nat.cast_one]
        ring
    | false => simp
  have hSpend : 0 ≤ left C start after now ∧ TokenBucket.spend level ≤ left C start after now := by
    rw [hCost]
    cases passed with
    | true =>
        have hToken : 1 ≤ level := (of_passed (hPassed rfl)).2
        rw [TokenBucket.spend, if_pos hToken]
        simp only [if_true]
        exact ⟨by linarith, by linarith⟩
    | false =>
        simp only [Bool.false_eq_true, if_false, sub_zero]
        exact ⟨hStart.2, (TokenBucket.spend_le level).trans hLevel⟩
  refine ⟨_, hLeft, rfl, hStart.1, hSpend.1, hSpend.2, fun e hExpires => ?_⟩
  rcases hExpiry with rfl | ⟨hZero, rfl⟩
  · obtain rfl := Option.some.inj hExpires
    have hPositive : (0 : ℚ) ≤ C := by exact_mod_cast hC
    have hNow := hSpend.1
    simp only [left] at hNow ⊢
    linarith
  · -- without a refill rate nothing passes and the key keeps its expiry
    have hNone : passed = false := by
      by_contra hPass
      exact (of_passed (hPassed (by simpa using hPass))).1 hZero
    rw [hCost, hNone]
    simp only [Bool.false_eq_true, if_false, sub_zero]
    obtain ⟨b, hVisible, hExpires⟩ := Option.bind_eq_some_iff.mp hExpires
    obtain ⟨hStored, hLive⟩ := Option.filter_eq_some_iff.mp hVisible
    rcases hBefore with ⟨b', hb', hCovered, -⟩ | ⟨rfl, -⟩
    · obtain rfl := Option.some.inj (hStored.symm.trans hb')
      exact hCovered.expires e hExpires
    · rw [hExpires] at hLive
      have hLater : now < e := of_decide_eq_true hLive
      have hFull : left C start 0 start = C := by simp [left]
      exact hFull.symm.le.trans (left_mono hC start 0 (hStart.1.trans hLater.le))

end Budget

/-- The limits that were in force for a vendor between two times were at most `C`. -/
def Within (log : List Entry) (slug : String) (start : ℚ) (stop : Option ℚ) (C : ℤ) : Prop :=
  ∀ e ∈ log, e.slug = slug → start ≤ e.time → (∀ last ∈ stop, e.time ≤ last) → e.capacityRpm ≤ C

/-- What holds of the keys and of the evaluations in every run. -/
structure Tracked (p : State × List Entry) : Prop where
  past : ∀ e ∈ p.2, e.time ≤ p.1.now
  covered : ∀ slug start C, 0 ≤ C → Within p.2 slug start none C →
    (∃ e ∈ p.2, e.delivery ≠ .lost ∧ e.slug = slug ∧ start ≤ e.time) →
      ∃ b, p.1.buckets (vendorKey slug) = some b ∧ b.lastRefill ≤ p.1.now ∧
        Covered C start (servedSince p.2 slug start) b
  bounded : ∀ slug start stop C, 0 ≤ C → start ≤ stop → Within p.2 slug start (some stop) C →
    (served p.2 slug start stop : ℚ) ≤ C + C / 60 * (stop - start)

section Runs

variable {vendorRpm : ℤ} {s t : State} {log : List Entry} {e : Event} {entry : Entry}
  {slug : String} {delivery : Delivery} {start stop : ℚ} {C : ℤ}

theorem vendorKey_injective {slug slug' : String} (h : vendorKey slug = vendorKey slug') :
    slug = slug' := by
  have hList := congrArg String.toList h
  simp only [vendorKey, String.toList_append] at hList
  exact String.toList_inj.mp (List.append_cancel_left hList)

theorem servedSince_cons : servedSince (entry :: log) slug start = servedSince log slug start +
    if decide (entry.slug = slug ∧ start ≤ entry.time) && entry.served then 1 else 0 :=
  List.countP_cons

/-- A token is taken by an evaluation that is answered. -/
theorem Entry.answered_of_served (h : entry.served = true) :
    entry.passed = true ∧ entry.delivery = .answered ∧ entry.capacityRpm ≠ 0 := by
  obtain ⟨hPassed, hChecked⟩ := Bool.and_eq_true_iff.mp h
  have hChecked : ¬(entry.delivery ≠ .answered ∨ entry.capacityRpm = 0) := by
    simpa only [Entry.unchecked, Bool.not_eq_true', decide_eq_false_iff_not] using hChecked
  push Not at hChecked
  exact ⟨hPassed, hChecked⟩

theorem Entry.not_lost_of_served (h : entry.served = true) : entry.delivery ≠ .lost := by
  rw [(Entry.answered_of_served h).2.1]
  decide

/-- Nothing is served while nothing comes. -/
theorem servedSince_eq_zero (h : ¬∃ e ∈ log, e.delivery ≠ .lost ∧ e.slug = slug ∧ start ≤ e.time) :
    servedSince log slug start = 0 := by
  refine List.countP_eq_zero.mpr fun e hMem hCounted => h ⟨e, hMem, ?_⟩
  obtain ⟨hTime, hServed⟩ := Bool.and_eq_true_iff.mp hCounted
  exact ⟨Entry.not_lost_of_served hServed, of_decide_eq_true hTime⟩

/-- As long as nothing comes after `stop`, it is no bound. -/
theorem served_eq (hPast : ∀ e ∈ log, e.time ≤ stop) :
    served log slug start stop = servedSince log slug start := by
  refine List.countP_congr fun e hMem => ?_
  simp [Entry.during, hPast e hMem]

theorem served_cons_of_late (h : stop < entry.time) :
    served (entry :: log) slug start stop = served log slug start stop :=
  List.countP_cons_of_neg (by simp [Entry.during, not_le.mpr h])

/-- What a request that takes a token got from the script. -/
theorem check_of_served (h : (s.entry vendorRpm slug delivery).served = true) :
    (checkRateLimit (s.limit vendorRpm slug) s.now
      (visible s.now (s.buckets (vendorKey slug)))).2.any Prod.fst = true := by
  obtain ⟨hPassed, hAnswered, hLimit⟩ := Entry.answered_of_served h
  obtain rfl : delivery = .answered := hAnswered
  have hLimit : s.limit vendorRpm slug ≠ 0 := hLimit
  obtain ⟨answer, hAnswer⟩ := Option.isSome_iff_exists.mp
    (isSome_checkRateLimit hLimit s.now (visible s.now (s.buckets (vendorKey slug))))
  simp only [State.entry, State.check, attempt, evaluate, hAnswer, goesOn] at hPassed
  rw [hAnswer]
  exact hPassed

/-- An evaluation that is executed leaves the bucket of the script. -/
theorem check_of_executed (hExecuted : delivery ≠ .lost) (other : String) :
    (s.check vendorRpm slug delivery).1 (vendorKey other) =
      if other = slug then (checkRateLimit (s.limit vendorRpm slug) s.now
        (visible s.now (s.buckets (vendorKey slug)))).1
      else s.buckets (vendorKey other) := by
  have hEvaluated : (s.check vendorRpm slug delivery).1 =
      (evaluate (s.limit vendorRpm slug) s.now (vendorKey slug) s.buckets).1 := by
    cases delivery with
    | lost => exact absurd rfl hExecuted
    | answered => rfl
    | unanswered => rfl
  rw [hEvaluated]
  split_ifs with hSlug
  · rw [hSlug]
    exact Function.update_self ..
  · exact Function.update_of_ne (fun hSame => hSlug (vendorKey_injective hSame)) ..

theorem Within.tail {last : Option ℚ} (h : Within (entry :: log) slug start last C) :
    Within log slug start last C :=
  fun e hMem => h e (List.mem_cons_of_mem _ hMem)

theorem Tracked.unchanged (h : Tracked (s, log)) (hBuckets : t.buckets = s.buckets)
    (hNow : s.now ≤ t.now) : Tracked (t, log) := by
  refine ⟨fun e hMem => (h.past e hMem).trans hNow, ?_, h.bounded⟩
  intro slug start C hC hWithin hSome
  obtain ⟨b, hStored, hPast, hCovered⟩ := h.covered slug start C hC hWithin hSome
  exact ⟨b, (congrFun hBuckets _).trans hStored, hPast.trans hNow, hCovered⟩

/-- An evaluation for a vendor keeps the buckets of all vendors covered. -/
theorem Tracked.covered_cons (h : Tracked (s, log)) (hExecuted : delivery ≠ .lost) (other : String)
    (hC : 0 ≤ C) (hWithin : Within (s.entry vendorRpm slug delivery :: log) other start none C)
    (hSome : ∃ e ∈ s.entry vendorRpm slug delivery :: log,
      e.delivery ≠ .lost ∧ e.slug = other ∧ start ≤ e.time) :
    ∃ b, (s.check vendorRpm slug delivery).1 (vendorKey other) = some b ∧ b.lastRefill ≤ s.now ∧
      Covered C start (servedSince (s.entry vendorRpm slug delivery :: log) other start) b := by
  rw [servedSince_cons, check_of_executed hExecuted]
  by_cases hSlug : other = slug
  · subst hSlug
    have hStart : start ≤ s.now := by
      obtain ⟨e, hMem, -, -, hTime⟩ := hSome
      rcases List.mem_cons.mp hMem with rfl | hOld
      · exact hTime
      · exact hTime.trans (h.past e hOld)
    have hCapacity : s.limit vendorRpm other ≤ C :=
      hWithin _ List.mem_cons_self rfl hStart (by simp)
    have hBefore : (∃ b, s.buckets (vendorKey other) = some b ∧
        Covered C start (servedSince log other start) b ∧ b.lastRefill ≤ s.now) ∨
          servedSince log other start = 0 ∧ start ≤ s.now := by
      by_cases hOld : ∃ e ∈ log, e.delivery ≠ .lost ∧ e.slug = other ∧ start ≤ e.time
      · obtain ⟨b, hStored, hPast, hCovered⟩ := h.covered other start C hC hWithin.tail hOld
        exact Or.inl ⟨b, hStored, hCovered, hPast⟩
      · exact Or.inr ⟨servedSince_eq_zero hOld, hStart⟩
    obtain ⟨b, hStored, hRefill, hCovered⟩ := covered_check hC hCapacity hBefore
      fun hServed : (s.entry vendorRpm other delivery).served = true => check_of_served hServed
    refine ⟨b, ?_, hRefill.le, ?_⟩
    · rw [if_pos rfl]
      exact hStored
    · have hNow : decide ((s.entry vendorRpm other delivery).slug = other ∧
          start ≤ (s.entry vendorRpm other delivery).time) = true :=
        decide_eq_true ⟨rfl, hStart⟩
      rw [hNow, Bool.true_and]
      exact hCovered
  · have hOld : ∃ e ∈ log, e.delivery ≠ .lost ∧ e.slug = other ∧ start ≤ e.time := by
      obtain ⟨e, hMem, hDelivery, hOther, hTime⟩ := hSome
      rcases List.mem_cons.mp hMem with rfl | hOld
      · exact absurd hOther.symm hSlug
      · exact ⟨e, hOld, hDelivery, hOther, hTime⟩
    obtain ⟨b, hStored, hPast, hCovered⟩ := h.covered other start C hC hWithin.tail hOld
    refine ⟨b, ?_, hPast, ?_⟩
    · rw [if_neg hSlug]
      exact hStored
    · simpa [State.entry, Ne.symm hSlug] using hCovered

theorem Tracked.past_cons (h : Tracked (s, log)) :
    ∀ e ∈ s.entry vendorRpm slug delivery :: log, e.time ≤ s.now := by
  intro e hMem
  rcases List.mem_cons.mp hMem with rfl | hOld
  · exact le_rfl
  · exact h.past e hOld

/-- A request whose evaluation Redis executes. -/
theorem Tracked.cons (h : Tracked (s, log)) (hExecuted : delivery ≠ .lost) :
    Tracked ({ s with buckets := (s.check vendorRpm slug delivery).1 },
      s.entry vendorRpm slug delivery :: log) := by
  refine ⟨h.past_cons, fun other start C => h.covered_cons hExecuted other, ?_⟩
  intro other start stop C hC hOrder hWithin
  have hLength : (0 : ℚ) ≤ C / 60 * (stop - start) :=
    mul_nonneg (div_nonneg (by exact_mod_cast hC) (by norm_num)) (sub_nonneg.mpr hOrder)
  rcases lt_or_ge stop s.now with hLate | hEarly
  · rw [served_cons_of_late hLate]
    exact h.bounded other start stop C hC hOrder hWithin.tail
  · rw [served_eq fun e hMem => (h.past_cons e hMem).trans hEarly]
    by_cases hSome : ∃ e ∈ s.entry vendorRpm slug delivery :: log,
        e.delivery ≠ .lost ∧ e.slug = other ∧ start ≤ e.time
    · have hOpen : Within (s.entry vendorRpm slug delivery :: log) other start none C :=
        fun e hMem hOther hTime _ => hWithin e hMem hOther hTime fun last hLast => by
          obtain rfl := Option.some.inj hLast
          exact (h.past_cons e hMem).trans hEarly
      obtain ⟨b, -, hRefill, hCovered⟩ := h.covered_cons hExecuted other hC hOpen hSome
      have hNonneg := hCovered.nonneg.trans (left_mono hC start _ (hRefill.trans hEarly))
      unfold left at hNonneg
      linarith
    · rw [servedSince_eq_zero hSome]
      have hPositive : (0 : ℚ) ≤ C := by exact_mod_cast hC
      rw [Nat.cast_zero]
      linarith

/-- A request whose evaluation never reaches Redis takes no token. -/
theorem Tracked.cons_lost (h : Tracked (s, log)) :
    Tracked (s, s.entry vendorRpm slug .lost :: log) := by
  have hNot : ¬(s.entry vendorRpm slug .lost).served = true := fun hServed =>
    Entry.not_lost_of_served hServed rfl
  refine ⟨h.past_cons, ?_, ?_⟩
  · rintro other start C hC hWithin ⟨e, hMem, hDelivery, hAfter⟩
    have hSame : servedSince (s.entry vendorRpm slug .lost :: log) other start =
        servedSince log other start := List.countP_cons_of_neg (by simp [hNot])
    rw [hSame]
    refine h.covered other start C hC hWithin.tail ⟨e, ?_, hDelivery, hAfter⟩
    rcases List.mem_cons.mp hMem with rfl | hOld
    · exact absurd rfl hDelivery
    · exact hOld
  · intro other start stop C hC hOrder hWithin
    have hSame : served (s.entry vendorRpm slug .lost :: log) other start stop =
        served log other start stop := List.countP_cons_of_neg (by simp [hNot])
    rw [hSame]
    exact h.bounded other start stop C hC hOrder hWithin.tail

theorem Tracked.step {p q : State × List Entry} (h : Tracked p)
    (next : (logged vendorRpm).step p e = some q) : Tracked q := by
  obtain ⟨s, log⟩ := p
  obtain ⟨t, log'⟩ := q
  obtain ⟨hStep, rfl⟩ := System.withHistory_step next
  cases e with
  | elapse dt =>
      simp only [machine, Reconfiguration.step] at hStep
      split_ifs at hStep with hTime
      cases hStep
      exact h.unchanged rfl (le_add_of_nonneg_right hTime)
  | reload limits =>
      cases hStep
      exact h.unchanged rfl le_rfl
  | receive path delivery =>
      simp only [machine, Reconfiguration.step] at hStep
      simp only [record]
      cases hSlug : extractVendorSlug path with
      | none =>
          rw [hSlug] at hStep
          cases hStep
          exact h
      | some slug =>
          rw [hSlug] at hStep
          cases hStep
          by_cases hLost : delivery = .lost
          · subst hLost
            exact h.cons_lost
          · exact h.cons hLost

end Runs

/-- The limit of a vendor follows its configuration. In every run with reloads that
change limits in any way and with Redis failures, whatever went before, in any window
of time in which the limits of the requests to a vendor are at most `C` the limiter
lets at most `C` of them and the refill of `C` per minute pass, besides those that it
does not check, since Redis gives no answer or since the limit is 0. -/
theorem limit_follows_reload {vendorRpm : ℤ} {s : State} {log : List Entry}
    (run : (logged vendorRpm).Reaches System.anyRun (s, log)) {slug : String} {start length : ℚ}
    (hLength : 0 ≤ length) {C : ℤ} (hC : 0 ≤ C)
    (hWithin : ∀ e ∈ log, e.slug = slug → start ≤ e.time → e.time ≤ start + length →
      e.capacityRpm ≤ C) :
    (passes log slug start (start + length) : ℚ) ≤
      C + C / 60 * length + waived log slug start (start + length) := by
  have hTracked : Tracked (s, log) := by
    apply run.invariant (I := Tracked)
    · rintro ⟨s, log⟩ ⟨hBuckets, hLog⟩
      obtain rfl : log = [] := hLog
      refine ⟨by simp, by simp, fun slug start stop C hC hOrder _ => ?_⟩
      have hPositive : (0 : ℚ) ≤ C := by exact_mod_cast hC
      have hRate : (0 : ℚ) ≤ C / 60 * (stop - start) :=
        mul_nonneg (div_nonneg hPositive (by norm_num)) (sub_nonneg.mpr hOrder)
      rw [show served [] slug start stop = 0 from rfl, Nat.cast_zero]
      linarith
    · intro p q e _ h _ next
      exact h.step next
  have hBound := hTracked.bounded slug start (start + length) C hC
    (le_add_of_nonneg_right hLength) fun e hMem hSlug hStart hStop =>
      hWithin e hMem hSlug hStart (hStop _ rfl)
  rw [add_sub_cancel_left] at hBound
  have hPasses : (passes log slug start (start + length) : ℚ) ≤
      served log slug start (start + length) + waived log slug start (start + length) := by
    exact_mod_cast passes_le log slug start (start + length)
  linarith

/-- The limit of a vendor goes down from three requests to one. A minute later one of
two requests that are checked passes, and one that is not. -/
def lowered : List Event :=
  [.reload fun _ => some 3, .receive "/vendors/v/p" .answered, .reload fun _ => some 1, .elapse 60,
    .receive "/vendors/v/p" .answered, .receive "/vendors/v/p" .answered,
    .receive "/vendors/v/p" .lost]

def Entry.since (entry : Entry) (start : ℚ) : Bool :=
  decide (entry.time < start ∨ entry.slug = "v" ∧ entry.capacityRpm ≤ 1)

theorem limit_follows_reload_lowered : ∃ s log,
    (logged 60).Reaches System.anyRun (s, log) ∧ log.length = 4 ∧
      passes log "v" 60 (60 + 0) = 2 ∧ waived log "v" 60 (60 + 0) = 1 ∧
        (passes log "v" 60 (60 + 0) : ℚ) ≤
          (1 : ℤ) + (1 : ℤ) / 60 * 0 + waived log "v" 60 (60 + 0) := by
  have hInit : (logged 60).init (⟨0, fun _ => none, fun _ => none⟩, []) := ⟨fun _ => rfl, rfl⟩
  obtain ⟨⟨s, log⟩, run, hCheck⟩ := (System.Reaches.init hInit).exec_any
    (by decide +kernel : ((logged 60).exec System.anyRun _ lowered).any
      (fun p => p.2.all (fun e => e.since 60) && decide (p.2.length = 4 ∧
        passes p.2 "v" 60 (60 + 0) = 2 ∧ waived p.2 "v" 60 (60 + 0) = 1)) = true)
  obtain ⟨hAll, hCounts⟩ := Bool.and_eq_true_iff.mp hCheck
  obtain ⟨hLength, hPasses, hWaived⟩ := of_decide_eq_true hCounts
  refine ⟨s, log, run, hLength, hPasses, hWaived,
    limit_follows_reload run le_rfl (by decide) ?_⟩
  intro e hMem _ hStart _
  rcases of_decide_eq_true (List.all_eq_true.mp hAll e hMem) with hEarly | ⟨-, hLow⟩
  · exact absurd hEarly (not_lt.mpr hStart)
  · exact hLow

end Gateway.Middleware.Reconfiguration

import Gateway.Middleware.RateLimitConformance

/-! The script under clocks that are not its own. The caller reads `time.time()`
before Redis gets to its script, and several gateways share a key, so that the
readings may arrive in any order; EXPIRE counts from the clock of the server. -/
namespace Gateway.Middleware.RateLimit

/-- One evaluation of the script: the clock of the server, the caller's reading
`now` and the key as HMGET finds it. -/
def evalScript (capacityRpm : ℤ) (server now : ℚ) (found : Option Bucket) : Option Bucket :=
  let ttl := expireSeconds capacityRpm (capacityRpm / 60)
  (checkRateLimit capacityRpm now found).1.map fun b =>
    { b with expiresAt := ttl.elim (found.bind Bucket.expiresAt) fun s => some (server + s) }

/-- The key before evaluation `n`, each with its own capacity and clocks. -/
def leftBefore (view : View) (capacityRpm : ℕ → ℤ) (server now : ℕ → ℚ) : ℕ → Option Bucket
  | 0 => none
  | n + 1 => evalScript (capacityRpm n) (server n) (now n)
      (view (server n) (leftBefore view capacityRpm server now n))

/-- With one clock for both this is the script as `check_rate_limit` runs it. -/
theorem evalScript_self (capacityRpm : ℤ) (now : ℚ) (found : Option Bucket) :
    evalScript capacityRpm now now found = (checkRateLimit capacityRpm now found).1 := by
  delta evalScript checkRateLimit
  simp only [tokenBucketLua]
  cases hTtl : expireSeconds capacityRpm (capacityRpm / 60) with
  | none =>
      split_ifs <;> rfl
  | some seconds =>
      simp only [storeAndExpire]
      split_ifs <;> rfl

theorem leftBefore_self (view : View) (capacityRpm : ℤ) (t : ℕ → ℚ) (n : ℕ) :
    leftBefore view (fun _ => capacityRpm) t t n = storedBefore view capacityRpm t n := by
  induction n with
  | zero => rfl
  | succ n ih => rw [leftBefore, storedBefore, ih, evalScript_self]

section Step

variable {capacityRpm : ℤ} (hCapacity : 1 ≤ capacityRpm) {server now : ℚ}
  {found : Option Bucket}

include hCapacity

theorem evalScript_eq : evalScript capacityRpm server now found =
    some ⟨TokenBucket.spend (newTokens capacityRpm (capacityRpm / 60) now found), now,
      some (server + 61)⟩ := by
  rw [evalScript, checkRateLimit_eq hCapacity, expireSeconds_eq hCapacity]
  rfl

/-- A bucket that holds no debt and was not written in the future of the
reading is refilled to a level between zero and the capacity. -/
theorem newTokens_mem
    (hFound : ∀ b, found = some b → 0 ≤ b.tokens ∧ b.lastRefill ≤ now) :
    0 ≤ newTokens capacityRpm (capacityRpm / 60) now found ∧
      newTokens capacityRpm (capacityRpm / 60) now found ≤ capacityRpm := by
  have hPositive : (0 : ℚ) < capacityRpm := by exact_mod_cast hCapacity
  refine ⟨le_min hPositive.le ?_, min_le_left _ _⟩
  cases found with
  | none => simpa using hPositive.le
  | some b =>
      obtain ⟨hTokens, hLast⟩ := hFound b rfl
      have hElapsed : 0 ≤ now - b.lastRefill := by linarith
      exact add_nonneg hTokens (mul_nonneg hElapsed (refillRate_pos hCapacity).le)

end Step

/-- The bucket holds no debt and its last refill does not lie after `time`. -/
def InCredit (time : ℚ) (stored : Option Bucket) : Prop :=
  ∀ b, stored = some b → 0 ≤ b.tokens ∧ b.lastRefill ≤ time

/-- Losing an expired key does no harm. -/
theorem InCredit.of_sound {time clock : ℚ} {stored : Option Bucket} {view : View}
    (hView : Sound view) (h : InCredit time stored) : InCredit time (view clock stored) := by
  rcases hView clock stored with hSame | ⟨hGone, _⟩
  · rwa [hSame]
  · rw [hGone]
    intro b hb
    cases hb

theorem InCredit.evalScript {capacityRpm : ℤ} (hCapacity : 1 ≤ capacityRpm) {server now : ℚ}
    {found : Option Bucket} (h : InCredit now found) :
    InCredit now (evalScript capacityRpm server now found) := by
  intro b hb
  rw [evalScript_eq hCapacity] at hb
  obtain rfl := Option.some.inj hb
  exact ⟨TokenBucket.spend_nonneg (newTokens_mem hCapacity h).1, le_rfl⟩

/-- The run lemma: readings that arrive in order never leave a debt. -/
theorem inCredit_leftBefore {view : View} (hView : Sound view) {capacityRpm : ℕ → ℤ}
    (hCapacity : ∀ n, 1 ≤ capacityRpm n) {server now : ℕ → ℚ} {n : ℕ}
    (hOrder : ∀ i j, i ≤ j → j < n → now i ≤ now j) {time : ℚ}
    (hTime : ∀ i < n, now i ≤ time) :
    InCredit time (leftBefore view capacityRpm server now n) := by
  induction n generalizing time with
  | zero =>
      intro b hb
      cases hb
  | succ n ih =>
      have hPrior : InCredit (now n) (leftBefore view capacityRpm server now n) :=
        ih (fun i j hij hj => hOrder i j hij (by omega)) fun i hi => hOrder i n hi.le n.lt_succ_self
      intro b hb
      obtain ⟨hTokens, hLast⟩ :=
        (hPrior.of_sound hView).evalScript (hCapacity n) b (by rw [leftBefore] at hb; exact hb)
      exact ⟨hTokens, hLast.trans (hTime n n.lt_succ_self)⟩

theorem leftBefore_succ (view : View) (capacityRpm : ℕ → ℤ) (server now : ℕ → ℚ) (n : ℕ)
    (hCapacity : 1 ≤ capacityRpm n) :
    leftBefore view capacityRpm server now (n + 1) =
      some ⟨TokenBucket.spend (newTokens (capacityRpm n) (capacityRpm n / 60) (now n)
        (view (server n) (leftBefore view capacityRpm server now n))), now n,
          some (server n + 61)⟩ := by
  rw [leftBefore, evalScript_eq hCapacity]

/-- What a run of `count` evaluations keeps under the key: `tokens` between zero
and the capacity, and a `last_refill` that never goes back. -/
structure Sane (capacityRpm : ℤ) (server now : ℕ → ℚ) (count : ℕ) : Prop where
  tokens : ∀ n ≤ count, ∀ b, leftBefore visible (fun _ => capacityRpm) server now n = some b →
    0 ≤ b.tokens ∧ b.tokens ≤ capacityRpm
  lastRefill : ∀ m n, m ≤ n → n ≤ count → ∀ b b',
    leftBefore visible (fun _ => capacityRpm) server now m = some b →
    leftBefore visible (fun _ => capacityRpm) server now n = some b' →
    b.lastRefill ≤ b'.lastRefill

/-- The state stays sane exactly in the runs in which the scripts are evaluated
in the order in which their callers read the clock. -/
theorem sane_iff_ordered (capacityRpm : ℤ) (hCapacity : 1 ≤ capacityRpm) (server now : ℕ → ℚ)
    (count : ℕ) :
    Sane capacityRpm server now count ↔ ∀ i j, i ≤ j → j < count → now i ≤ now j := by
  have hStored (n : ℕ) := leftBefore_succ visible (fun _ => capacityRpm) server now n hCapacity
  constructor
  · intro hSane i j hij hj
    exact hSane.lastRefill (i + 1) (j + 1) (by omega) (by omega) _ _ (hStored i) (hStored j)
  · intro hOrder
    have hCredit (n : ℕ) (hn : n < count) : InCredit (now n)
        (visible (server n) (leftBefore visible (fun _ => capacityRpm) server now n)) :=
      (inCredit_leftBefore visible_sound (fun _ => hCapacity)
        (fun i j hij hj => hOrder i j hij (by omega))
        fun i hi => hOrder i n hi.le hn).of_sound visible_sound
    constructor
    · intro n hn b hb
      cases n with
      | zero => cases hb
      | succ n =>
          obtain ⟨hLow, hHigh⟩ := newTokens_mem hCapacity (hCredit n hn)
          rw [hStored n] at hb
          obtain rfl := Option.some.inj hb
          exact ⟨TokenBucket.spend_nonneg hLow, (TokenBucket.spend_le _).trans hHigh⟩
    · intro m n hmn hn b b' hb hb'
      cases m with
      | zero => cases hb
      | succ m =>
          cases n with
          | zero => omega
          | succ n =>
              rw [hStored m] at hb
              rw [hStored n] at hb'
              obtain rfl := Option.some.inj hb
              obtain rfl := Option.some.inj hb'
              exact hOrder m n (by omega) (by omega)

/-- Three requests of one second each, evaluated in order. -/
theorem sane_iff_ordered_three : (1 : ℤ) ≤ 60 ∧ Sane 60 (fun n => n) (fun n => n) 3 :=
  ⟨by decide, (sane_iff_ordered 60 (by decide) (fun n => n) (fun n => n) 3).mpr
    fun _ _ hij _ => Nat.cast_le.mpr hij⟩

/-- Two callers read the clock at 10 and at 11 and the second one's script is
evaluated first: the other one leaves a debt and sets the refill time back. -/
theorem not_sane_overtaken :
    leftBefore visible (fun _ => 1) (fun n => 11 + n) (fun n => 11 - n) 1 =
        some ⟨0, 11, some 72⟩ ∧
      leftBefore visible (fun _ => 1) (fun n => 11 + n) (fun n => 11 - n) 2 =
        some ⟨-1 / 60, 10, some 73⟩ ∧
      ¬∀ capacityRpm : ℤ, 1 ≤ capacityRpm → ∀ (server now : ℕ → ℚ) (count : ℕ),
        Sane capacityRpm server now count := by
  have hFirst : leftBefore visible (fun _ => 1) (fun n => 11 + n) (fun n => 11 - n) 1 =
      some ⟨0, 11, some 72⟩ := by
    rw [leftBefore_succ _ _ _ _ _ (by decide)]
    norm_num [leftBefore, visible, newTokens, TokenBucket.spend]
  have hSecond : leftBefore visible (fun _ => 1) (fun n => 11 + n) (fun n => 11 - n) 2 =
      some ⟨-1 / 60, 10, some 73⟩ := by
    rw [leftBefore_succ _ _ _ _ _ (by decide), hFirst]
    norm_num [visible, newTokens, TokenBucket.spend, Option.filter]
  refine ⟨hFirst, hSecond, fun hAll => ?_⟩
  have hTokens := ((hAll 1 le_rfl _ _ 2).tokens 2 le_rfl _ hSecond).1
  norm_num at hTokens

/-- `Retry-After` is honest: at least one second, and who comes back after it
and finds that nobody else has asked in the meantime is let through, whether
the key is still there or has expired. -/
theorem retryAfter_honest (capacityRpm : ℕ → ℤ) (hCapacity : ∀ n, 1 ≤ capacityRpm n)
    (t : ℕ → ℚ) (hTime : Monotone t) (n : ℕ) (retryAfter : ℤ)
    (hDenied : (checkRateLimit (capacityRpm n) (t n)
      (visible (t n) (leftBefore visible capacityRpm t t n))).2 = some (false, retryAfter)) :
    1 ≤ retryAfter ∧ ∀ t', t n + retryAfter ≤ t' →
      (checkRateLimit (capacityRpm n) t'
        (visible t' (leftBefore visible capacityRpm t t (n + 1)))).2 = some (true, 0) := by
  have hRate := refillRate_pos (hCapacity n)
  have hOne : (1 : ℚ) ≤ capacityRpm n := by exact_mod_cast hCapacity n
  set found := visible (t n) (leftBefore visible capacityRpm t t n)
  have hAfter : retryAfter = ⌈1 / ((capacityRpm n : ℚ) / 60)⌉ := by
    rw [checkRateLimit_eq (hCapacity n)] at hDenied
    by_cases hEnough : 1 ≤ newTokens (capacityRpm n) (capacityRpm n / 60) (t n) found
    · rw [if_pos hEnough] at hDenied
      cases hDenied
    · rw [if_neg hEnough] at hDenied
      exact (congrArg Prod.snd (Option.some.inj hDenied)).symm
  subst hAfter
  have hWait : (1 : ℚ) ≤ ⌈1 / ((capacityRpm n : ℚ) / 60)⌉ * ((capacityRpm n : ℚ) / 60) := by
    calc (1 : ℚ) = 1 / ((capacityRpm n : ℚ) / 60) * ((capacityRpm n : ℚ) / 60) := by
          rw [div_mul_cancel₀ _ hRate.ne']
      _ ≤ _ := mul_le_mul_of_nonneg_right (Int.le_ceil _) hRate.le
  refine ⟨Int.one_le_ceil_iff.mpr (one_div_pos.mpr hRate), fun t' hLate => ?_⟩
  have hStored := leftBefore_succ visible capacityRpm t t n (hCapacity n)
  have hCredit : InCredit (t n) (leftBefore visible capacityRpm t t (n + 1)) :=
    inCredit_leftBefore visible_sound hCapacity (fun i j hij _ => hTime hij)
      fun i hi => hTime (by omega)
  have hEnough : 1 ≤ newTokens (capacityRpm n) (capacityRpm n / 60) t'
      (visible t' (leftBefore visible capacityRpm t t (n + 1))) := by
    apply le_min hOne
    rcases visible_sound t' (leftBefore visible capacityRpm t t (n + 1)) with hSame | ⟨hGone, _⟩
    · obtain ⟨hTokens, -⟩ := hCredit _ hStored
      rw [hSame, hStored]
      have hElapsed : (⌈1 / ((capacityRpm n : ℚ) / 60)⌉ : ℚ) * ((capacityRpm n : ℚ) / 60) ≤
          (t' - t n) * ((capacityRpm n : ℚ) / 60) :=
        mul_le_mul_of_nonneg_right (by linarith) hRate.le
      exact hWait.trans (hElapsed.trans (le_add_of_nonneg_left hTokens))
    · rw [hGone]
      simpa using hOne
  rw [checkRateLimit_eq (hCapacity n), if_pos hEnough]

/-- At one request per minute the second request is sent away for sixty seconds. -/
theorem retryAfter_honest_sixty :
    (checkRateLimit 1 5 (visible 5 (some ⟨0, 5, some 66⟩))).2 = some (false, 60) ∧
      (checkRateLimit 1 65 (visible 65
        (leftBefore visible (fun _ => 1) (fun _ => 5) (fun _ => 5) 2))).2 = some (true, 0) := by
  have hFirst : leftBefore visible (fun _ => 1) (fun _ => 5) (fun _ => 5) 1 =
      some ⟨0, 5, some 66⟩ := by
    rw [leftBefore_succ _ _ _ _ _ (by decide)]
    norm_num [leftBefore, visible, newTokens, TokenBucket.spend]
  have hDenied : (checkRateLimit 1 5 (visible 5 (some ⟨0, 5, some 66⟩))).2 = some (false, 60) := by
    rw [checkRateLimit_eq (by decide)]
    norm_num [visible, newTokens, Option.filter]
  refine ⟨hDenied, (retryAfter_honest (fun _ => 1) (fun _ => by decide) (fun _ => 5)
    monotone_const 1 60 ?_).2 65 (by norm_num)⟩
  rw [hFirst]
  exact hDenied

end Gateway.Middleware.RateLimit

import Gateway.Middleware.RateLimit

/-! The script refines the token bucket: on a clock that never runs backwards
every evaluation decides as the bucket of `TokenBucket` does, and the expiry of
the key is invisible because the bucket is full again by then. -/
namespace Gateway.Middleware.RateLimit

/-- A view may lose a key, but only after the expiry that was set on it. -/
def Sound (view : View) : Prop :=
  ∀ now stored, view now stored = stored ∨
    view now stored = none ∧ ∃ b, stored = some b ∧ ∃ e, b.expiresAt = some e ∧ e ≤ now

theorem unexpired_sound : Sound unexpired := fun _ _ => Or.inl rfl

theorem visible_sound : Sound visible := by
  intro now stored
  cases stored with
  | none => exact Or.inl rfl
  | some b =>
      cases hExp : b.expiresAt with
      | none => exact Or.inl (by simp [visible, Option.filter, hExp])
      | some e =>
          by_cases h : now < e
          · exact Or.inl (by simp [visible, Option.filter, hExp, h])
          · exact Or.inr ⟨by simp [visible, Option.filter, hExp, h], b, rfl, e, hExp,
              not_lt.mp h⟩

section Refinement

variable {capacityRpm : ℤ} (hCapacity : 1 ≤ capacityRpm) {t : ℕ → ℚ} (hTime : Monotone t)
  {view : View} (hView : Sound view)

include hCapacity hTime hView

/-- The refined level at evaluation `n` is the level of the abstract bucket.
A key that has expired was written at least 61 seconds ago, so the abstract
bucket has refilled completely and starting afresh makes no difference. -/
theorem newTokens_eq_level (n : ℕ) :
    newTokens capacityRpm (capacityRpm / 60) (t n)
        (view (t n) (storedBefore view capacityRpm t n)) =
      TokenBucket.level (capacityRpm : ℚ) (capacityRpm / 60) t n := by
  have hPositive : (0 : ℚ) < capacityRpm := by exact_mod_cast hCapacity
  induction n with
  | zero =>
      rcases hView (t 0) none with h | ⟨h, _⟩ <;>
        simp [storedBefore, h, newTokens, TokenBucket.level]
  | succ n ih =>
      set before := view (t n) (storedBefore view capacityRpm t n)
      have hStored : storedBefore view capacityRpm t (n + 1) =
          some ⟨TokenBucket.spend (TokenBucket.level (capacityRpm : ℚ) (capacityRpm / 60) t n),
            t n, some (t n + 61)⟩ := by
        rw [storedBefore, checkRateLimit_eq hCapacity, ih]
      rw [hStored]
      rcases hView (t (n + 1)) _ with hSame | ⟨hGone, b, hb, e, hExp, hLe⟩
      · rw [hSame]
        rfl
      · obtain rfl := Option.some.inj hb
        obtain rfl := Option.some.inj hExp
        have hRefill : (capacityRpm : ℚ) ≤
            (t (n + 1) - t n) * ((capacityRpm : ℚ) / 60) := by
          have hElapsed : (61 : ℚ) ≤ t (n + 1) - t n := by linarith
          have hRate := refillRate_pos hCapacity
          nlinarith
        have hLeft : 0 ≤ TokenBucket.spend
            (TokenBucket.level (capacityRpm : ℚ) (capacityRpm / 60) t n) :=
          TokenBucket.spend_nonneg (TokenBucket.level_nonneg hPositive.le
            (refillRate_pos hCapacity).le hTime n)
        rw [hGone, TokenBucket.level, min_eq_left (by linarith)]
        simp [newTokens]

theorem allowed_iff_admitted (n : ℕ) :
    allowed view capacityRpm t n ↔
      TokenBucket.admitted (capacityRpm : ℚ) (capacityRpm / 60) t n := by
  rw [allowed_iff hCapacity, newTokens_eq_level hCapacity hTime hView, TokenBucket.admitted]

end Refinement

/-- Number of allowed evaluations among `i, ..., j - 1`. -/
def allowedIn (view : View) (capacityRpm : ℤ) (t : ℕ → ℚ) (i j : ℕ) : ℕ :=
  ((Finset.Ico i j).filter fun n => allowed view capacityRpm t n).card

theorem allowedIn_eq {capacityRpm : ℤ} (hCapacity : 1 ≤ capacityRpm) {t : ℕ → ℚ}
    (hTime : Monotone t) {view : View} (hView : Sound view) (i j : ℕ) :
    allowedIn view capacityRpm t i j =
      TokenBucket.admittedIn (capacityRpm : ℚ) (capacityRpm / 60) t i j := by
  unfold allowedIn TokenBucket.admittedIn
  congr 1
  exact Finset.filter_congr fun n _ => allowed_iff_admitted hCapacity hTime hView n

/-! The evaluations of one key so far, as a list with the newest first. -/
section Past

variable {capacityRpm : ℤ} {now : ℚ} {times : List ℚ}

/-- What the evaluations at these times leave under the key. -/
def keptAfter (capacityRpm : ℤ) : List ℚ → Option Bucket
  | [] => none
  | now :: earlier => (checkRateLimit capacityRpm now (visible now (keptAfter capacityRpm earlier))).1

/-- The times do not decrease, and each evaluation was allowed. -/
def AllAllowed (capacityRpm : ℤ) : List ℚ → Prop
  | [] => True
  | now :: earlier => (∀ time ∈ earlier, time ≤ now) ∧
      (checkRateLimit capacityRpm now (visible now (keptAfter capacityRpm earlier))).2.any
        Prod.fst = true ∧
      AllAllowed capacityRpm earlier

/-- The first `n` times of a sequence, the newest first. -/
def past (t : ℕ → ℚ) : ℕ → List ℚ
  | 0 => []
  | n + 1 => t n :: past t n

theorem past_congr {t t' : ℕ → ℚ} {n : ℕ} (h : ∀ k < n, t k = t' k) : past t n = past t' n := by
  induction n with
  | zero => rfl
  | succ n ih => rw [past, past, h n n.lt_succ_self, ih fun k hk => h k (by omega)]

theorem mem_past {t : ℕ → ℚ} {n k : ℕ} (h : k < n) : t k ∈ past t n := by
  induction n with
  | zero => omega
  | succ n ih =>
      rcases Nat.lt_succ_iff_lt_or_eq.mp h with hOld | rfl
      · exact List.mem_cons_of_mem _ (ih hOld)
      · exact List.mem_cons_self

/-- Times that do not decrease are the past of a sequence that never does. -/
theorem exists_past (h : AllAllowed capacityRpm times) :
    ∃ t, Monotone t ∧ times = past t times.length := by
  induction times with
  | nil => exact ⟨fun _ => 0, monotone_const, rfl⟩
  | cons now earlier ih =>
      obtain ⟨hLast, -, hEarlier⟩ := h
      obtain ⟨t, hTime, hPast⟩ := ih hEarlier
      refine ⟨fun k => if k < earlier.length then t k else now, fun i j hij => ?_, ?_⟩
      · show (if _ then _ else _) ≤ if _ then _ else _
        split_ifs with hi hj
        · exact hTime hij
        · apply hLast
          rw [hPast]
          exact mem_past hi
        · omega
        · exact le_rfl
      · have hSame : past (fun k => if k < earlier.length then t k else now) earlier.length =
            earlier := (past_congr fun k hk => if_pos hk).trans hPast.symm
        show _ = (if _ then _ else _) :: past _ earlier.length
        rw [if_neg (lt_irrefl _), hSame]

theorem keptAfter_past (t : ℕ → ℚ) (n : ℕ) :
    keptAfter capacityRpm (past t n) = storedBefore visible capacityRpm t n := by
  induction n with
  | zero => rfl
  | succ n ih => rw [past, keptAfter, storedBefore, ih]

theorem allowed_of_allAllowed {t : ℕ → ℚ} {n : ℕ} (h : AllAllowed capacityRpm (past t n)) {k : ℕ}
    (hk : k < n) : allowed visible capacityRpm t k = true := by
  induction n with
  | zero => omega
  | succ n ih =>
      obtain ⟨-, hAllowed, hEarlier⟩ := h
      rcases Nat.lt_succ_iff_lt_or_eq.mp hk with hOld | rfl
      · exact ih hEarlier hOld
      · rwa [keptAfter_past] at hAllowed

theorem length_filter_past (t : ℕ → ℚ) (p : ℚ → Bool) (n : ℕ) :
    ((past t n).filter p).length = ((Finset.range n).filter fun k => p (t k) = true).card := by
  induction n with
  | zero => rfl
  | succ n ih =>
      rw [past, List.filter_cons, Finset.range_add_one, Finset.filter_insert]
      split_ifs with hp
      · rw [List.length_cons, Finset.card_insert_of_notMem (by simp), ih]
      · exact ih

/-- No window holds more allowed evaluations than the bucket and its refill. -/
theorem window_of_allAllowed (hCapacity : 1 ≤ capacityRpm) (h : AllAllowed capacityRpm times)
    (start : ℚ) {length : ℚ} (hLength : 0 ≤ length) :
    ((times.filter fun time => start ≤ time ∧ time ≤ start + length).length : ℚ) ≤
      capacityRpm + (capacityRpm : ℚ) / 60 * length := by
  obtain ⟨t, hTime, hPast⟩ := exists_past h
  have hPositive : (0 : ℚ) < capacityRpm := by exact_mod_cast hCapacity
  rw [hPast] at h ⊢
  rw [length_filter_past]
  have hBound := TokenBucket.window_bound (t := t) hPositive.le (refillRate_pos hCapacity).le
    times.length start hLength
  refine le_trans (Nat.cast_le.mpr (Finset.card_le_card fun k hk => ?_)) hBound
  rw [Finset.mem_filter, decide_eq_true_iff] at hk
  have hAllowed := allowed_of_allAllowed h (Finset.mem_range.mp hk.1)
  rw [allowed_iff_admitted hCapacity hTime visible_sound] at hAllowed
  exact Finset.mem_filter.mpr ⟨hk.1, hAllowed, hk.2⟩

end Past

/-- Token-bucket conformance, for every integer capacity from one on and every
sequence of evaluations at non-decreasing times. An evaluation is allowed
exactly when it fits into every window ending with it; no window of time, cut
out of any finite part of the sequence, admits more than the bucket and its
refill; and the expiry of the key never changes a decision. -/
theorem conformance (capacityRpm : ℤ) (hCapacity : 1 ≤ capacityRpm) (t : ℕ → ℚ)
    (hTime : Monotone t) :
    (∀ n, allowed visible capacityRpm t n ↔
      ∀ i ≤ n, (allowedIn visible capacityRpm t i n : ℚ) + 1 ≤
        capacityRpm + (capacityRpm : ℚ) / 60 * (t n - t i)) ∧
    (∀ (count : ℕ) (start length : ℚ), 0 ≤ length →
      ((((Finset.range count).filter fun n => allowed visible capacityRpm t n ∧
        start ≤ t n ∧ t n ≤ start + length).card : ℕ) : ℚ) ≤
        capacityRpm + (capacityRpm : ℚ) / 60 * length) ∧
    (∀ n, allowed visible capacityRpm t n ↔ allowed unexpired capacityRpm t n) := by
  have hPositive : (0 : ℚ) ≤ capacityRpm := by
    have : (0 : ℚ) < capacityRpm := by exact_mod_cast hCapacity
    exact this.le
  have hAdmitted := allowed_iff_admitted hCapacity hTime visible_sound
  refine ⟨fun n => ?_, fun count start length hLength => ?_, fun n => ?_⟩
  · rw [hAdmitted, TokenBucket.admitted_iff]
    exact forall₂_congr fun i _ => by rw [allowedIn_eq hCapacity hTime visible_sound]
  · have hBound := TokenBucket.window_bound (t := t) hPositive (refillRate_pos hCapacity).le
      count start hLength
    simpa only [hAdmitted] using hBound
  · rw [hAdmitted, allowed_iff_admitted hCapacity hTime unexpired_sound]

/-- One request per second against a limit of sixty per minute. -/
theorem conformance_sixty :
    (1 : ℤ) ≤ 60 ∧ Monotone (fun n : ℕ => (n : ℚ)) ∧
      (allowed visible 60 (fun n => n) 90 ↔ allowed unexpired 60 (fun n => n) 90) :=
  ⟨by decide, Nat.mono_cast,
    (conformance 60 (by decide) (fun n => n) Nat.mono_cast).2.2 90⟩

end Gateway.Middleware.RateLimit

import Mathlib.Algebra.Order.Field.Basic
import Mathlib.Algebra.BigOperators.Intervals
import Mathlib.Order.Interval.Finset.Nat
import Mathlib.Tactic.Linarith

/-! The token bucket over an ordered field. A request of cost one at each of
the times `t 0 ≤ t 1 ≤ ...` is admitted when the bucket holds a whole token.
The bucket keeps one number; its contract speaks about every window of the
past. The two meet in the min-plus formula `le_level_iff`. -/
namespace TokenBucket

variable {K : Type*} [Field K] [LinearOrder K]

/-- What is left after one request: a token is taken only if a whole one is there. -/
def spend (level : K) : K := if 1 ≤ level then level - 1 else level

variable (capacity rate : K) (t : ℕ → K)

/-- Tokens in the bucket when request `n` is looked at. -/
def level : ℕ → K
  | 0 => capacity
  | n + 1 => min capacity (spend (level n) + (t (n + 1) - t n) * rate)

def admitted (n : ℕ) : Prop := 1 ≤ level capacity rate t n

instance (n : ℕ) : Decidable (admitted capacity rate t n) :=
  inferInstanceAs (Decidable (_ ≤ _))

/-- Number of admitted requests among `i, ..., j - 1`. -/
def admittedIn (i j : ℕ) : ℕ := ((Finset.Ico i j).filter (admitted capacity rate t)).card

variable {capacity rate t}

theorem spend_nonneg [IsStrictOrderedRing K] {x : K} (h : 0 ≤ x) : 0 ≤ spend x := by
  unfold spend
  split_ifs with hOne
  · linarith
  · exact h

theorem spend_le [IsStrictOrderedRing K] (x : K) : spend x ≤ x := by
  unfold spend
  split_ifs
  · exact sub_le_self x zero_le_one
  · exact le_rfl

theorem admittedIn_self (i : ℕ) : admittedIn capacity rate t i i = 0 := by
  simp [admittedIn]

theorem admittedIn_succ {i n : ℕ} (h : i ≤ n) :
    admittedIn capacity rate t i (n + 1) =
      admittedIn capacity rate t i n + if admitted capacity rate t n then 1 else 0 := by
  have hSplit : Finset.Ico i (n + 1) = insert n (Finset.Ico i n) := by
    ext k
    simp only [Finset.mem_Ico, Finset.mem_insert]
    omega
  unfold admittedIn
  rw [hSplit, Finset.filter_insert]
  split_ifs with hn
  · rw [Finset.card_insert_of_notMem (by simp)]
  · rfl

theorem spend_level (n : ℕ) :
    spend (level capacity rate t n) =
      level capacity rate t n - if admitted capacity rate t n then 1 else 0 := by
  unfold spend
  by_cases h : admitted capacity rate t n
  · rw [if_pos h, if_pos (show 1 ≤ level capacity rate t n from h)]
  · rw [if_neg h, if_neg (show ¬1 ≤ level capacity rate t n from h), sub_zero]

variable [IsStrictOrderedRing K]

theorem level_nonneg (hCapacity : 0 ≤ capacity) (hRate : 0 ≤ rate) (hTime : Monotone t)
    (n : ℕ) : 0 ≤ level capacity rate t n := by
  induction n with
  | zero => exact hCapacity
  | succ n ih =>
      have hElapsed : 0 ≤ t (n + 1) - t n := sub_nonneg.mpr (hTime (Nat.le_succ n))
      exact le_min hCapacity (add_nonneg (spend_nonneg ih) (mul_nonneg hElapsed hRate))

/-- The min-plus formula: the level is the least, over all starting points in
the past, of a full bucket plus the refill since then minus what was admitted
since then. -/
theorem le_level_iff (n : ℕ) (x : K) :
    x ≤ level capacity rate t n ↔
      ∀ i ≤ n, x + admittedIn capacity rate t i n ≤ capacity + rate * (t n - t i) := by
  induction n generalizing x with
  | zero =>
      constructor
      · intro h i hi
        obtain rfl : i = 0 := Nat.le_zero.mp hi
        simpa [admittedIn_self, level] using h
      · intro h
        simpa [admittedIn_self, level] using h 0 le_rfl
  | succ n ih =>
      let taken : K := if admitted capacity rate t n then 1 else 0
      have hCount (i : ℕ) (hi : i ≤ n) : (admittedIn capacity rate t i (n + 1) : K) =
          admittedIn capacity rate t i n + taken := by
        rw [admittedIn_succ hi, Nat.cast_add]
        simp [taken]
      have hStep : x ≤ level capacity rate t (n + 1) ↔
          x ≤ capacity ∧ x + taken - (t (n + 1) - t n) * rate ≤ level capacity rate t n := by
        rw [level, le_min_iff, spend_level]
        exact and_congr_right fun _ => ⟨fun h => by linarith, fun h => by linarith⟩
      rw [hStep, ih]
      constructor
      · rintro ⟨hFull, hPast⟩ i hi
        rcases Nat.le_succ_iff.mp hi with hOld | rfl
        · have h := hPast i hOld
          rw [hCount i hOld]
          linarith
        · simpa [admittedIn_self] using hFull
      · intro h
        refine ⟨by simpa [admittedIn_self] using h (n + 1) le_rfl, fun i hi => ?_⟩
        have h := h i (hi.trans n.le_succ)
        rw [hCount i hi] at h
        linarith

/-- A request is admitted exactly when it fits into every window that ends with it. -/
theorem admitted_iff (n : ℕ) :
    admitted capacity rate t n ↔
      ∀ i ≤ n, (admittedIn capacity rate t i n : K) + 1 ≤ capacity + rate * (t n - t i) := by
  rw [admitted, le_level_iff]
  exact forall₂_congr fun i _ => by rw [add_comm]

/-- No window of time admits more than a full bucket plus its refill. The
window is cut out of the first `count` requests by its end points. -/
theorem window_bound (hCapacity : 0 ≤ capacity) (hRate : 0 ≤ rate)
    (count : ℕ) (start : K) {length : K} (hLength : 0 ≤ length) :
    ((((Finset.range count).filter fun n =>
      admitted capacity rate t n ∧ start ≤ t n ∧ t n ≤ start + length).card : ℕ) : K) ≤
      capacity + rate * length := by
  set window := (Finset.range count).filter fun n =>
    admitted capacity rate t n ∧ start ≤ t n ∧ t n ≤ start + length with hWindow
  rcases window.eq_empty_or_nonempty with hEmpty | hNonempty
  · rw [hEmpty]
    simpa using add_nonneg hCapacity (mul_nonneg hRate hLength)
  · let first := window.min' hNonempty
    let last := window.max' hNonempty
    have hFirst : start ≤ t first := (Finset.mem_filter.mp (window.min'_mem hNonempty)).2.2.1
    have hLast := (Finset.mem_filter.mp (window.max'_mem hNonempty)).2
    have hSubset : window ⊆
        insert last ((Finset.Ico first last).filter (admitted capacity rate t)) := by
      intro n hn
      have hLe := window.le_max' n hn
      have hGe := window.min'_le n hn
      rcases eq_or_lt_of_le hLe with hEq | hLt
      · exact Finset.mem_insert.mpr (Or.inl hEq)
      · exact Finset.mem_insert_of_mem (Finset.mem_filter.mpr
          ⟨Finset.mem_Ico.mpr ⟨hGe, hLt⟩, (Finset.mem_filter.mp hn).2.1⟩)
    have hCard : window.card ≤ admittedIn capacity rate t first last + 1 :=
      (Finset.card_le_card hSubset).trans (Finset.card_insert_le _ _)
    have hOrder : first ≤ last := window.min'_le _ (window.max'_mem hNonempty)
    have hFits := (admitted_iff last).mp hLast.1 first hOrder
    have hSpan : rate * (t last - t first) ≤ rate * length :=
      mul_le_mul_of_nonneg_left (by linarith [hLast.2.2]) hRate
    calc
      (window.card : K) ≤ admittedIn capacity rate t first last + 1 := by exact_mod_cast hCard
      _ ≤ capacity + rate * (t last - t first) := hFits
      _ ≤ capacity + rate * length := by linarith

end TokenBucket

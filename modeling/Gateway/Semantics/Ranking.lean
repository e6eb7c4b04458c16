import Mathlib.Data.Nat.Basic
import Gateway.Semantics.Transition

/-! Ranking arguments over runs: what a run has spent is covered by the fall of
a potential, and a run whose rank can always be lowered can be brought to its goal. -/
namespace Transition.System

variable {State Event : Type*}

section Meter

variable (M : System State Event)

/-- The same system with what its steps have cost since the last reset. -/
def lapped (reset : State → Event → Bool) (cost : State → Event → ℕ) : System (State × ℕ) Event :=
  M.withHistory 0 fun s e spent => if reset s e then 0 else spent + cost s e

/-- The same system with what its steps have cost so far. -/
def metered (cost : State → Event → ℕ) : System (State × ℕ) Event :=
  M.lapped (fun _ _ => false) cost

variable {M} {allowed : State → Event → Prop} {reset : State → Event → Bool}
  {cost : State → Event → ℕ}

theorem init_lapped {s : State} (h : M.init s) : (M.lapped reset cost).init (s, 0) := ⟨h, rfl⟩

theorem init_metered {s : State} (h : M.init s) : (M.metered cost).init (s, 0) := init_lapped h

/-- The invariant rule with a meter. -/
theorem Reaches.invariant_metered {allowed : State × ℕ → Event → Prop} {I : State → ℕ → Prop}
    (hInit : ∀ s, M.init s → I s 0)
    (hStep : ∀ s spent t e, I s spent → M.step s e = some t → I t (spent + cost s e))
    {p : State × ℕ} (run : (M.metered cost).Reaches allowed p) : I p.1 p.2 := by
  unfold metered lapped at run
  refine run.invariant_history (I := fun p => I p.1 p.2) hInit
    fun s spent t e h _ next => ?_
  rw [if_neg Bool.false_ne_true]
  exact hStep s spent t e h next

/-- A run with a meter is a run, under the same condition. -/
theorem Reaches.unmetered {p : State × ℕ}
    (run : (M.lapped reset cost).Reaches (fun p e => allowed p.1 e) p) : M.Reaches allowed p.1 := by
  induction run with
  | init start => exact .init start.1
  | step _ hAllowed next ih => exact .step ih hAllowed (withHistory_step next).1

/-- Each step is paid for out of the potential, which a reset fills up to the
budget at most; so the budget covers every lap. -/
theorem Reaches.lap_le {potential : State → ℕ} {budget : ℕ}
    (hInit : ∀ s, M.init s → potential s ≤ budget)
    (hReset : ∀ s e t, M.Reaches allowed s → allowed s e → M.step s e = some t →
      reset s e = true → potential t ≤ budget)
    (hStep : ∀ s e t, M.Reaches allowed s → allowed s e → M.step s e = some t →
      reset s e = false → cost s e + potential t ≤ potential s)
    {p : State × ℕ} (run : (M.lapped reset cost).Reaches (fun p e => allowed p.1 e) p) :
    p.2 + potential p.1 ≤ budget := by
  induction run with
  | init start =>
      rw [start.2, Nat.zero_add]
      exact hInit _ start.1
  | @step p q e prior hAllowed next ih =>
      obtain ⟨hNext, hSpent⟩ := withHistory_step next
      rw [hSpent]
      cases hLap : reset p.1 e with
      | true =>
          rw [if_pos rfl, Nat.zero_add]
          exact hReset _ _ _ prior.unmetered hAllowed hNext hLap
      | false =>
          have hPaid := hStep _ _ _ prior.unmetered hAllowed hNext hLap
          rw [if_neg Bool.false_ne_true]
          omega

/-- Without resets the budget covers the run. -/
theorem Reaches.spent_le {potential : State → ℕ} {budget : ℕ}
    (hInit : ∀ s, M.init s → potential s ≤ budget)
    (hStep : ∀ s e t, M.Reaches allowed s → allowed s e → M.step s e = some t →
      cost s e + potential t ≤ potential s)
    {p : State × ℕ} (run : (M.metered cost).Reaches (fun p e => allowed p.1 e) p) :
    p.2 + potential p.1 ≤ budget :=
  run.lap_le hInit (fun _ _ _ _ _ _ hLap => absurd hLap Bool.false_ne_true)
    fun s e t prior hAllowed next _ => hStep s e t prior hAllowed next

end Meter

section Descent

variable {M : System State Event} {allowed : State → Event → Prop}

/-- Two runs one behind the other. -/
theorem Reaches.append {s t u : State} (first : (M.startingAt s).Reaches allowed t)
    (second : (M.startingAt t).Reaches allowed u) : (M.startingAt s).Reaches allowed u := by
  induction second with
  | init start =>
      cases start
      exact first
  | step _ hAllowed next ih => exact .step ih hAllowed next

/-- A rank that can be lowered as long as the goal is not met leads to the goal. -/
theorem Reaches.descend {goal : State → Prop} {rank : State → ℕ}
    (hLower : ∀ s, M.Reaches allowed s → ¬goal s →
      ∃ t, (M.startingAt s).Reaches allowed t ∧ rank t < rank s)
    {s : State} (run : M.Reaches allowed s) :
    ∃ t, (M.startingAt s).Reaches allowed t ∧ goal t := by
  induction hRank : rank s using Nat.strong_induction_on generalizing s with
  | _ n ih =>
      by_cases hGoal : goal s
      · exact ⟨s, .init rfl, hGoal⟩
      · obtain ⟨t, first, hLess⟩ := hLower s run hGoal
        obtain ⟨u, second, hDone⟩ := ih (rank t) (hRank ▸ hLess) (run.trans first) rfl
        exact ⟨u, first.append second, hDone⟩

end Descent

end Transition.System

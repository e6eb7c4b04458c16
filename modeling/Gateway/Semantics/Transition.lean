import Mathlib.Tactic.Common

/-! Event systems with explicit runs. The event resolves every choice of the
environment (which party moves, what an external party answers, how much time
passes), so that `step` is a function and a run is a list of events. -/
namespace Transition

variable {State Event : Type*}

structure System (State Event : Type*) where
  init : State → Prop
  step : State → Event → Option State

namespace System

/-- States at the end of a run all of whose steps are allowed. The condition
sees the state before the step, never the state it leads to. -/
inductive Reaches (M : System State Event) (allowed : State → Event → Prop) : State → Prop where
  | init {s : State} (start : M.init s) : M.Reaches allowed s
  | step {s t : State} {e : Event} (prior : M.Reaches allowed s) (hAllowed : allowed s e)
      (next : M.step s e = some t) : M.Reaches allowed t

/-- Every event is allowed. -/
def anyRun : State → Event → Prop := fun _ _ => True

variable {M : System State Event} {allowed : State → Event → Prop}

/-- The invariant rule. A step may use that its source is itself reached. -/
theorem Reaches.invariant {I : State → Prop} (hInit : ∀ s, M.init s → I s)
    (hStep : ∀ s t e, M.Reaches allowed s → I s → allowed s e → M.step s e = some t → I t)
    {s : State} (run : M.Reaches allowed s) : I s := by
  induction run with
  | init start => exact hInit _ start
  | step prior hAllowed next ih => exact hStep _ _ _ prior ih hAllowed next

/-- A run under a stronger condition is a run under a weaker one. -/
theorem Reaches.mono {allowed' : State → Event → Prop}
    (h : ∀ s e, allowed s e → allowed' s e) {s : State} (run : M.Reaches allowed s) :
    M.Reaches allowed' s := by
  induction run with
  | init start => exact .init start
  | step _ hAllowed next ih => exact .step ih (h _ _ hAllowed) next

/-- The system from one of its states on. -/
def startingAt (M : System State Event) (s : State) : System State Event :=
  { M with init := fun t => t = s }

/-- A run that goes on where another one ended. -/
theorem Reaches.trans {s t : State} (prior : M.Reaches allowed s)
    (rest : (M.startingAt s).Reaches allowed t) : M.Reaches allowed t := by
  induction rest with
  | init start =>
      cases start
      exact prior
  | step _ hAllowed next ih => exact .step ih hAllowed next

/-- Runs carry over to a system that follows every step with one of its own. -/
theorem Reaches.simulate {State' Event' : Type*} {N : System State' Event'}
    {allowed' : State' → Event' → Prop} (f : State → State') (g : State → Event → Event')
    (hInit : ∀ s, M.init s → N.init (f s))
    (hStep : ∀ s e t, allowed s e → M.step s e = some t →
      allowed' (f s) (g s e) ∧ N.step (f s) (g s e) = some (f t))
    {s : State} (run : M.Reaches allowed s) : N.Reaches allowed' (f s) := by
  induction run with
  | init start => exact .init (hInit _ start)
  | step _ hAllowed next ih =>
      obtain ⟨hAllowed', next'⟩ := hStep _ _ _ hAllowed next
      exact .step ih hAllowed' next'

instance (s : State) (e : Event) : Decidable (anyRun s e) := isTrue trivial

/-- Execute a list of events as long as every step is allowed where it is taken. -/
def exec (M : System State Event) (allowed : State → Event → Prop)
    [∀ s e, Decidable (allowed s e)] : State → List Event → Option State
  | s, [] => some s
  | s, e :: es =>
      if allowed s e then (M.step s e).bind fun t => M.exec allowed t es else none

/-- A list of events that executes to the end under a condition is a run under a
weaker one. -/
theorem Reaches.exec_mono {allowed' : State → Event → Prop} [∀ s e, Decidable (allowed' s e)]
    (h : ∀ s e, allowed' s e → allowed s e) {s t : State} {es : List Event}
    (prior : M.Reaches allowed s) (done : M.exec allowed' s es = some t) :
    M.Reaches allowed t := by
  induction es generalizing s with
  | nil =>
      obtain rfl : s = t := by simpa [System.exec] using done
      exact prior
  | cons e es ih =>
      simp only [System.exec] at done
      split_ifs at done with hAllowed
      obtain ⟨middle, next, done⟩ := Option.bind_eq_some_iff.mp done
      exact ih (.step prior (h s e hAllowed) next) done

/-- A list of events that executes to the end is a run. -/
theorem Reaches.exec [∀ s e, Decidable (allowed s e)] {s t : State} {es : List Event}
    (prior : M.Reaches allowed s) (done : M.exec allowed s es = some t) :
    M.Reaches allowed t :=
  prior.exec_mono (fun _ _ hAllowed => hAllowed) done

/-- A check that an executed list of events passes at its end. -/
theorem Reaches.exec_any [∀ s e, Decidable (allowed s e)] {s : State} {es : List Event}
    {check : State → Bool} (prior : M.Reaches allowed s)
    (done : (M.exec allowed s es).any check = true) :
    ∃ t, M.Reaches allowed t ∧ check t = true := by
  obtain ⟨t, hExec, hCheck⟩ := (Option.any_eq_true _ _).mp done
  exact ⟨t, prior.exec hExec, hCheck⟩

section History

variable {History : Type*} (M)

/-- The same system with a history variable. `record` reads the state before
the step and the event; the original state never reads the history. -/
def withHistory (start : History) (record : State → Event → History → History) :
    System (State × History) Event where
  init p := M.init p.1 ∧ p.2 = start
  step p e := (M.step p.1 e).map fun t => (t, record p.1 e p.2)

variable {M} {start : History} {record : State → Event → History → History}

theorem withHistory_step {p q : State × History} {e : Event}
    (h : (M.withHistory start record).step p e = some q) :
    M.step p.1 e = some q.1 ∧ q.2 = record p.1 e p.2 := by
  obtain ⟨t, next, rfl⟩ := Option.map_eq_some_iff.mp h
  exact ⟨next, rfl⟩

/-- The invariant rule with a history. -/
theorem Reaches.invariant_history {allowed : State × History → Event → Prop}
    {I : State × History → Prop} (hInit : ∀ s, M.init s → I (s, start))
    (hStep : ∀ s history t e, I (s, history) → allowed (s, history) e → M.step s e = some t →
      I (t, record s e history))
    {p : State × History} (run : (M.withHistory start record).Reaches allowed p) : I p := by
  induction run with
  | @init p hStart =>
      rw [show p = (p.1, start) from Prod.ext rfl hStart.2]
      exact hInit p.1 hStart.1
  | @step p q e _ hAllowed next ih =>
      obtain ⟨next, hRecord⟩ := withHistory_step next
      rw [show q = (q.1, record p.1 e p.2) from Prod.ext rfl hRecord]
      exact hStep p.1 p.2 q.1 e ih hAllowed next

/-- Every run of the original system has a history. -/
theorem Reaches.remember {s : State} (run : M.Reaches allowed s) :
    ∃ history, (M.withHistory start record).Reaches (fun p e => allowed p.1 e) (s, history) := by
  induction run with
  | init h => exact ⟨start, .init ⟨h, rfl⟩⟩
  | @step s t e _ hAllowed next ih =>
      obtain ⟨history, run⟩ := ih
      exact ⟨record s e history, .step run hAllowed (by simp [withHistory, next])⟩

/-- A run with a history is a run of the original system. -/
theorem Reaches.forget {allowed : State × History → Event → Prop} {p : State × History}
    (run : (M.withHistory start record).Reaches allowed p) : M.Reaches anyRun p.1 := by
  induction run with
  | init h => exact .init h.1
  | step _ _ next ih => exact .step ih trivial (withHistory_step next).1

end History

end System

end Transition

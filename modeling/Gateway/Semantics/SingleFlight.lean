import Gateway.Semantics.Transition
import Mathlib.Data.List.Basic
import Mathlib.Logic.Function.Basic
import Mathlib.Order.Basic

/-! Values that are refreshed under a double-checked lock. Callers take the value
while it is usable; a caller that finds none waits for the lock, looks again when
it has it, and refreshes only if there still is none. -/
namespace SingleFlight

open Transition

variable {Time Value : Type*}

/-- A refresh that brought a value. -/
structure Refresh (Time Value : Type*) where
  started : Time
  finished : Time
  value : Value

inductive Pc (Time Value : Type*) where
  | idle
  | waiting
  | refreshing (started : Time)
  | returned (value : Value) (time : Time)
  | failed

/-- The finished refreshes are listed from the latest on; no step reads them. -/
structure State (Time Value : Type*) where
  now : Time
  value : Option Value
  lock : Option ℕ
  callers : ℕ → Pc Time Value
  refreshes : List (Refresh Time Value)

inductive Event (Time Value : Type*) where
  | tick (later : Time)
  | call (c : ℕ)
  | acquire (c : ℕ)
  | finish (c : ℕ) (value : Value)
  | fail (c : ℕ)

def goto (s : State Time Value) (c : ℕ) (pc : Pc Time Value) : State Time Value :=
  { s with callers := Function.update s.callers c pc }

section Machine

variable (usable : Value → Time → Bool)

/-- The value, if it can be used now. -/
def State.held (s : State Time Value) : Option Value := s.value.filter fun v => usable v s.now

/-- One look at the value, and where a caller without one goes. -/
def look (s : State Time Value) (c : ℕ) (otherwise : State Time Value) : State Time Value :=
  match s.held usable with
  | some v => goto s c (.returned v s.now)
  | none => otherwise

variable [Preorder Time] [DecidableLE Time]

def step (s : State Time Value) : Event Time Value → Option (State Time Value)
  | .tick later => if s.now ≤ later then some { s with now := later } else none
  | .call c =>
      match s.callers c with
      | .idle => some (look usable s c (goto s c .waiting))
      | _ => none
  | .acquire c =>
      match s.callers c, s.lock with
      | .waiting, none =>
          some (look usable s c { goto s c (.refreshing s.now) with lock := some c })
      | _, _ => none
  | .finish c value =>
      match s.callers c with
      | .refreshing started =>
          some
            { goto s c (.returned value s.now) with
              value := some value
              lock := none
              refreshes := ⟨started, s.now, value⟩ :: s.refreshes }
      | _ => none
  | .fail c =>
      match s.callers c with
      | .waiting => some (goto s c .failed)
      | .refreshing _ => some { goto s c .failed with lock := none }
      | _ => none

def machine : System (State Time Value) (Event Time Value) where
  init s := s.value = none ∧ s.lock = none ∧ s.callers = (fun _ => .idle) ∧ s.refreshes = []
  step := step usable

end Machine

section Look

variable {usable : Value → Time → Bool}

theorem held_eq_some {s : State Time Value} {v : Value} :
    s.held usable = some v ↔ s.value = some v ∧ usable v s.now = true :=
  Option.filter_eq_some_iff

theorem look_some {s otherwise : State Time Value} {c : ℕ} {v : Value}
    (h : s.held usable = some v) : look usable s c otherwise = goto s c (.returned v s.now) := by
  rw [look, h]

theorem look_none {s otherwise : State Time Value} {c : ℕ} (h : s.held usable = none) :
    look usable s c otherwise = otherwise := by
  rw [look, h]

theorem callers_goto {s : State Time Value} {c c' : ℕ} {pc : Pc Time Value} :
    (goto s c pc).callers c' = if c' = c then pc else s.callers c' := by
  by_cases h : c' = c
  · simp [goto, h]
  · simp [goto, h]

/-- A caller that does not refresh moves on beside the one that holds the lock. -/
theorem holder_goto {s : State Time Value}
    (h : ∀ c, s.lock = some c → ∃ started, s.callers c = .refreshing started)
    {c : ℕ} (hPc : ∀ started, s.callers c ≠ .refreshing started) (pc : Pc Time Value) :
    ∀ c', (goto s c pc).lock = some c' →
      ∃ started, (goto s c pc).callers c' = .refreshing started := by
  intro c' hLock
  obtain ⟨started, hHolder⟩ := h c' hLock
  have hNe : c' ≠ c := by
    rintro rfl
    exact hPc started hHolder
  exact ⟨started, by rw [callers_goto, if_neg hNe, hHolder]⟩

end Look

section Invariant

variable [Preorder Time] (usable : Value → Time → Bool)

/-- A refresh brings a value that can be used. -/
def Brings (s : State Time Value) : Event Time Value → Prop
  | .finish _ value => usable value s.now = true
  | _ => True

/-- One refresh at a time, each after all values before it have become unusable;
what is returned could be used at that time. -/
structure Sound (s : State Time Value) : Prop where
  single : ∀ c started, s.callers c = .refreshing started → s.lock = some c
  after : ∀ c started, s.callers c = .refreshing started → started ≤ s.now ∧
    ∀ f ∈ s.refreshes, usable f.value started = false
  spaced : s.refreshes.Pairwise fun later earlier => usable earlier.value later.started = false
  current : ∀ f ∈ s.refreshes, usable f.value s.now = true → s.value = some f.value
  returned : ∀ c value time, s.callers c = .returned value time → usable value time = true

variable {usable} {s : State Time Value}

theorem Sound.unusable_of_held (h : Sound usable s) (hHeld : s.held usable = none) :
    ∀ f ∈ s.refreshes, usable f.value s.now = false := by
  intro f hf
  by_contra hUsable
  rw [Bool.not_eq_false] at hUsable
  have hSome := held_eq_some.mpr ⟨h.current f hf hUsable, hUsable⟩
  rw [hHeld] at hSome
  cases hSome

/-- A caller that neither refreshes nor holds the lock moves on. -/
theorem Sound.moved (h : Sound usable s) {c : ℕ} {pc : Pc Time Value} {lock : Option ℕ}
    (hLock : ∀ c', c' ≠ c → s.lock = some c' → lock = some c')
    (hPc : ∀ started, pc ≠ .refreshing started)
    (hReturned : ∀ value time, pc = .returned value time → usable value time = true) :
    Sound usable { goto s c pc with lock := lock } := by
  have hOther : ∀ c' started, (goto s c pc).callers c' = .refreshing started →
      c' ≠ c ∧ s.callers c' = .refreshing started := by
    intro c' started hc'
    rw [callers_goto] at hc'
    split_ifs at hc' with hSame
    · exact absurd hc' (hPc started)
    · exact ⟨hSame, hc'⟩
  constructor
  · intro c' started hc'
    obtain ⟨hNe, hBefore⟩ := hOther c' started hc'
    exact hLock c' hNe (h.single c' started hBefore)
  · intro c' started hc'
    exact h.after c' started (hOther c' started hc').2
  · exact h.spaced
  · exact h.current
  · intro c' value time hc'
    change (goto s c pc).callers c' = _ at hc'
    rw [callers_goto] at hc'
    split_ifs at hc' with hSame
    · exact hReturned value time hc'
    · exact h.returned c' value time hc'

theorem Sound.rest (h : Sound usable s) {c : ℕ} {pc : Pc Time Value}
    (hPc : ∀ started, pc ≠ .refreshing started)
    (hReturned : ∀ value time, pc = .returned value time → usable value time = true) :
    Sound usable (goto s c pc) :=
  have hMoved : Sound usable { goto s c pc with lock := s.lock } :=
    h.moved (fun _ _ hLock => hLock) hPc hReturned
  hMoved

/-- A look at the value keeps the invariant if going on without one does. -/
theorem Sound.look (h : Sound usable s) {c : ℕ} {otherwise : State Time Value}
    (hOtherwise : s.held usable = none → Sound usable otherwise) :
    Sound usable (look usable s c otherwise) := by
  cases hHeld : s.held usable with
  | none =>
      rw [look_none hHeld]
      exact hOtherwise hHeld
  | some v =>
      rw [look_some hHeld]
      refine h.rest (fun _ hPc => by cases hPc) ?_
      intro value time hPc
      cases hPc
      exact (held_eq_some.mp hHeld).2

/-- A refresh starts when no value is usable and nobody else refreshes. -/
theorem Sound.refresh (h : Sound usable s) {c : ℕ} (hLock : s.lock = none)
    (hHeld : s.held usable = none) :
    Sound usable { goto s c (.refreshing s.now) with lock := some c } := by
  have hNobody : ∀ c' started, s.callers c' ≠ .refreshing started := by
    intro c' started hc'
    have hHolds := h.single c' started hc'
    rw [hLock] at hHolds
    cases hHolds
  have hOnly : ∀ c' started, (goto s c (.refreshing s.now)).callers c' = .refreshing started →
      c' = c ∧ started = s.now := by
    intro c' started hc'
    rw [callers_goto] at hc'
    split_ifs at hc' with hSame
    · cases hc'
      exact ⟨hSame, rfl⟩
    · exact absurd hc' (hNobody c' started)
  constructor
  · intro c' started hc'
    rw [(hOnly c' started hc').1]
  · intro c' started hc'
    rw [(hOnly c' started hc').2]
    exact ⟨le_rfl, h.unusable_of_held hHeld⟩
  · exact h.spaced
  · exact h.current
  · intro c' value time hc'
    change (goto s c _).callers c' = _ at hc'
    rw [callers_goto] at hc'
    split_ifs at hc' with hSame
    exact h.returned c' value time hc'

/-- Values do not become usable again. -/
def Expiring (usable : Value → Time → Bool) : Prop :=
  ∀ v t t', t ≤ t' → usable v t = false → usable v t' = false

theorem Sound.finish (h : Sound usable s) (hExpiring : Expiring usable) {c : ℕ} {started : Time}
    {value : Value} (hPc : s.callers c = .refreshing started)
    (hUsable : usable value s.now = true) :
    Sound usable
      { goto s c (.returned value s.now) with
        value := some value
        lock := none
        refreshes := ⟨started, s.now, value⟩ :: s.refreshes } := by
  obtain ⟨hStarted, hBefore⟩ := h.after c started hPc
  have hNobody : ∀ c' started', (goto s c (.returned value s.now)).callers c' ≠
      .refreshing started' := by
    intro c' started' hc'
    rw [callers_goto] at hc'
    split_ifs at hc' with hSame
    have hHolds := h.single c' started' hc'
    rw [h.single c started hPc] at hHolds
    exact hSame (Option.some.inj hHolds).symm
  constructor
  · intro c' started' hc'
    exact absurd hc' (hNobody c' started')
  · intro c' started' hc'
    exact absurd hc' (hNobody c' started')
  · exact List.pairwise_cons.mpr ⟨hBefore, h.spaced⟩
  · intro f hf hStill
    rcases List.mem_cons.mp hf with rfl | hOld
    · rfl
    · have hExpired := hExpiring f.value started s.now hStarted (hBefore f hOld)
      exact absurd (hExpired.symm.trans hStill) Bool.false_ne_true
  · intro c' value' time hc'
    change (goto s c _).callers c' = _ at hc'
    rw [callers_goto] at hc'
    split_ifs at hc' with hSame
    · cases hc'
      exact hUsable
    · exact h.returned c' value' time hc'

end Invariant

section Runs

variable [Preorder Time] [DecidableLE Time] {usable : Value → Time → Bool}
  {s t : State Time Value} {e : Event Time Value}

theorem Sound.step (h : Sound usable s) (hExpiring : Expiring usable) (hBrings : Brings usable s e)
    (next : (machine usable).step s e = some t) : Sound usable t := by
  cases e with
  | tick later =>
      simp only [machine, SingleFlight.step] at next
      split_ifs at next with hLater
      cases next
      refine ⟨h.single, ?_, h.spaced, ?_, h.returned⟩
      · intro c started hPc
        obtain ⟨hStarted, hBefore⟩ := h.after c started hPc
        exact ⟨hStarted.trans hLater, hBefore⟩
      · intro f hf hUsable
        apply h.current f hf
        by_contra hUnusable
        rw [Bool.not_eq_true] at hUnusable
        have hStill := hExpiring f.value s.now later hLater hUnusable
        rw [hUsable] at hStill
        cases hStill
  | call c =>
      simp only [machine, SingleFlight.step] at next
      split at next
      · cases next
        refine h.look fun _ => h.rest (fun _ hPc => by cases hPc) ?_
        intro value time hPc
        cases hPc
      · cases next
  | acquire c =>
      simp only [machine, SingleFlight.step] at next
      split at next
      · rename_i _ hLock
        cases next
        exact h.look fun hHeld => h.refresh hLock hHeld
      · cases next
  | finish c value =>
      simp only [machine, SingleFlight.step] at next
      split at next
      · rename_i started hPc
        cases next
        exact h.finish hExpiring hPc hBrings
      · cases next
  | fail c =>
      simp only [machine, SingleFlight.step] at next
      split at next
      · cases next
        exact h.rest (fun _ hPc => by cases hPc) (fun _ _ hPc => by cases hPc)
      · rename_i started hPc
        cases next
        refine h.moved ?_ (fun _ hPc => by cases hPc) (fun _ _ hPc => by cases hPc)
        intro c' hNe hLock
        rw [h.single c started hPc] at hLock
        exact absurd (Option.some.inj hLock).symm hNe
      · cases next

theorem holder_step (h : ∀ c, s.lock = some c → ∃ started, s.callers c = .refreshing started)
    (next : (machine usable).step s e = some t) :
    ∀ c, t.lock = some c → ∃ started, t.callers c = .refreshing started := by
  cases e with
  | tick later =>
      simp only [machine, SingleFlight.step] at next
      split_ifs at next
      cases next
      exact h
  | call c =>
      simp only [machine, SingleFlight.step] at next
      split at next
      · rename_i hIdle
        cases next
        have hPc : ∀ started, s.callers c ≠ .refreshing started := by
          intro started hRefreshing
          rw [hIdle] at hRefreshing
          cases hRefreshing
        cases hHeld : s.held usable with
        | none =>
            rw [look_none hHeld]
            exact holder_goto h hPc _
        | some v =>
            rw [look_some hHeld]
            exact holder_goto h hPc _
      · cases next
  | acquire c =>
      simp only [machine, SingleFlight.step] at next
      split at next
      · rename_i hWaiting _
        cases next
        cases hHeld : s.held usable with
        | none =>
            rw [look_none hHeld]
            intro c' hLock
            cases hLock
            exact ⟨s.now, Function.update_self ..⟩
        | some v =>
            rw [look_some hHeld]
            refine holder_goto h ?_ _
            intro started hRefreshing
            rw [hWaiting] at hRefreshing
            cases hRefreshing
      · cases next
  | finish c value =>
      simp only [machine, SingleFlight.step] at next
      split at next
      · cases next
        intro c' hLock
        cases hLock
      · cases next
  | fail c =>
      simp only [machine, SingleFlight.step] at next
      split at next
      · rename_i hWaiting
        cases next
        refine holder_goto h ?_ _
        intro started hRefreshing
        rw [hWaiting] at hRefreshing
        cases hRefreshing
      · cases next
        intro c' hLock
        cases hLock
      · cases next

theorem sound_of_init (h : (machine usable).init s) : Sound usable s := by
  obtain ⟨-, -, hCallers, hRefreshes⟩ := h
  constructor
  · intro c started hPc
    rw [hCallers] at hPc
    cases hPc
  · intro c started hPc
    rw [hCallers] at hPc
    cases hPc
  · rw [hRefreshes]
    exact List.Pairwise.nil
  · intro f hf
    rw [hRefreshes] at hf
    cases hf
  · intro c value time hPc
    rw [hCallers] at hPc
    cases hPc

/-- The lock is held by a caller that refreshes. -/
theorem reaches_holder {allowed : State Time Value → Event Time Value → Prop}
    (run : (machine usable).Reaches allowed s) {c : ℕ} (hLock : s.lock = some c) :
    ∃ started, s.callers c = .refreshing started := by
  refine run.invariant (I := fun s => ∀ c, s.lock = some c →
    ∃ started, s.callers c = .refreshing started) ?_ ?_ c hLock
  · intro s hInit c hLock
    rw [hInit.2.1] at hLock
    cases hLock
  · intro s t e _ ih _ next c hLock
    exact holder_step ih next c hLock

/-- The run rule: refreshes that bring usable values are single-flight. -/
theorem reaches_sound (hExpiring : Expiring usable)
    (run : (machine usable).Reaches (Brings usable) s) : Sound usable s := by
  apply run.invariant
  · intro s hInit
    exact sound_of_init hInit
  · intro s t e _ h hBrings next
    exact h.step hExpiring hBrings next

end Runs

end SingleFlight

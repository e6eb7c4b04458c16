import Mathlib.Data.List.Basic

/-! Noninterference of a machine that answers events. What one party is answered
depends on the events that it sees, if there is a relation between states that these
events carry along and the others leave alone. -/
namespace Noninterference

variable {State Event Output : Type*} (step : State → Event → State × Option Output)

/-- The answers to the events of a party. -/
def outputs (mine : Event → Bool) : State → List Event → List Output
  | _, [] => []
  | s, e :: es =>
      let result := step s e
      if mine e then result.2.toList ++ outputs mine result.1 es else outputs mine result.1 es

variable {step} {mine sees : Event → Bool} {Hidden : Event → Prop} {R : State → State → Prop}

/-- The unwinding rule: the answers are those of the run without the events that the
party does not see. -/
theorem outputs_filter (hMine : ∀ e, mine e = true → sees e = true)
    (hSeen : ∀ s t e, R s t → sees e = true →
      R (step s e).1 (step t e).1 ∧ (mine e = true → (step s e).2 = (step t e).2))
    (hHidden : ∀ s t e, R s t → sees e = false → Hidden e → R (step s e).1 t) {es : List Event}
    (hEvents : ∀ e ∈ es, sees e = false → Hidden e) {s t : State} (h : R s t) :
    outputs step mine s es = outputs step mine t (es.filter sees) := by
  induction es generalizing s t with
  | nil => rfl
  | cons e es ih =>
      have hRest : ∀ e ∈ es, sees e = false → Hidden e := fun e' he' =>
        hEvents e' (List.mem_cons_of_mem _ he')
      cases hSees : sees e with
      | true =>
          obtain ⟨hNext, hAnswer⟩ := hSeen s t e h hSees
          rw [List.filter_cons_of_pos hSees]
          simp only [outputs, ih hRest hNext]
          split_ifs with hIs
          · rw [hAnswer hIs]
          · rfl
      | false =>
          have hNot : ¬mine e = true := by
            intro hIs
            rw [hMine e hIs] at hSees
            cases hSees
          have hNext := hHidden s t e h hSees (hEvents e List.mem_cons_self hSees)
          rw [List.filter_cons_of_neg (by simp [hSees])]
          simp only [outputs, if_neg hNot]
          exact ih hRest hNext

end Noninterference

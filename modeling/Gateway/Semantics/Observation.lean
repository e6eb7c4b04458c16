import Gateway.Semantics.Transition

/-! Observers of an event system. An observer asks a question at any time and
sees the answer of that moment; what it sees over a whole run is in order as soon
as each step of the system moves every answer along a preorder. -/
namespace Transition.System

variable {State Event Query Answer : Type*} (M : System State Event)

/-- The system with its observers and the answers they got, the latest first. -/
def observed (view : State → Query → Answer) :
    System (State × List (Query × Answer)) (Event ⊕ Query) where
  init p := M.init p.1 ∧ p.2 = []
  step p
    | .inl e => (M.step p.1 e).map fun t => (t, p.2)
    | .inr q => some (p.1, (q, view p.1 q) :: p.2)

/-- The condition on the system's own steps; an observer may ask at any time. -/
def whenMoving (allowed : State → Event → Prop) (p : State × List (Query × Answer)) :
    Event ⊕ Query → Prop
  | .inl e => allowed p.1 e
  | .inr _ => True

variable {M} {view : State → Query → Answer} {allowed : State → Event → Prop}

instance [∀ s e, Decidable (allowed s e)] (p : State × List (Query × Answer))
    (e : Event ⊕ Query) : Decidable (whenMoving allowed p e) :=
  match e with
  | .inl e => inferInstanceAs (Decidable (allowed p.1 e))
  | .inr _ => isTrue trivial

/-- Observers leave no traces. -/
theorem Reaches.unobserved {p : State × List (Query × Answer)}
    (run : (M.observed view).Reaches (whenMoving allowed) p) : M.Reaches allowed p.1 := by
  induction run with
  | init start => exact .init start.1
  | @step p q e _ hAllowed next ih =>
      cases e with
      | inl e =>
          obtain ⟨t, hNext, rfl⟩ := Option.map_eq_some_iff.mp next
          exact .step ih hAllowed hNext
      | inr question =>
          obtain rfl := Option.some.inj next
          exact ih

/-- What holds of every answer that may be given holds of every answer given. -/
theorem Reaches.answers_sound {P : Query → Answer → Prop}
    (hView : ∀ s, M.Reaches allowed s → ∀ q, P q (view s q))
    {p : State × List (Query × Answer)}
    (run : (M.observed view).Reaches (whenMoving allowed) p) : ∀ o ∈ p.2, P o.1 o.2 := by
  induction run with
  | init start =>
      intro o hMem
      rw [start.2] at hMem
      cases hMem
  | @step p q e prior _ next ih =>
      cases e with
      | inl e =>
          obtain ⟨t, _, rfl⟩ := Option.map_eq_some_iff.mp next
          exact ih
      | inr question =>
          obtain rfl := Option.some.inj next
          intro o hMem
          rcases List.mem_cons.mp hMem with rfl | hMem
          · exact hView _ prior.unobserved _
          · exact ih o hMem

variable {R : Answer → Answer → Prop}

/-- Every answer that was ever given is below the one that would be given now. -/
theorem Reaches.answers_le (hRefl : ∀ a, R a a) (hTrans : ∀ a b c, R a b → R b c → R a c)
    (hStep : ∀ s e t, M.Reaches allowed s → allowed s e → M.step s e = some t →
      ∀ q, R (view s q) (view t q))
    {p : State × List (Query × Answer)}
    (run : (M.observed view).Reaches (whenMoving allowed) p) :
    ∀ o ∈ p.2, R o.2 (view p.1 o.1) := by
  induction run with
  | init start =>
      intro o hMem
      rw [start.2] at hMem
      cases hMem
  | @step p q e prior hAllowed next ih =>
      cases e with
      | inl e =>
          obtain ⟨t, hNext, rfl⟩ := Option.map_eq_some_iff.mp next
          intro o hMem
          exact hTrans _ _ _ (ih o hMem) (hStep _ _ _ prior.unobserved hAllowed hNext o.1)
      | inr question =>
          obtain rfl := Option.some.inj next
          intro o hMem
          rcases List.mem_cons.mp hMem with rfl | hMem
          · exact hRefl _
          · exact ih o hMem

/-- Answers to the same question are in order. -/
theorem Reaches.answers_in_order (hRefl : ∀ a, R a a)
    (hTrans : ∀ a b c, R a b → R b c → R a c)
    (hStep : ∀ s e t, M.Reaches allowed s → allowed s e → M.step s e = some t →
      ∀ q, R (view s q) (view t q))
    {p : State × List (Query × Answer)}
    (run : (M.observed view).Reaches (whenMoving allowed) p) :
    p.2.Pairwise fun later earlier => later.1 = earlier.1 → R earlier.2 later.2 := by
  induction run with
  | init start =>
      rw [start.2]
      exact .nil
  | @step p q e prior hAllowed next ih =>
      cases e with
      | inl e =>
          obtain ⟨t, _, rfl⟩ := Option.map_eq_some_iff.mp next
          exact ih
      | inr question =>
          obtain rfl := Option.some.inj next
          refine .cons ?_ ih
          rintro earlier hMem rfl
          exact prior.answers_le hRefl hTrans hStep earlier hMem

end Transition.System

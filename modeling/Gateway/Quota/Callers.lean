import Gateway.Quota.Rollover
import Gateway.Semantics.Transition

/-! `increment_quota` under concurrency: every caller reads the clock, sends
INCR and, if it was the one that created the counter, sends EXPIRE. Between two
of these any other caller may move and time may pass; a command may be lost, its
answer may be lost, and a call may be cancelled. -/
namespace Gateway.Quota.Callers

open Calendar Transition Gateway.Db

/-- The keys of the counters. Nothing else is stored under them. -/
abbrev Store := Redis.Server ℤ String Empty ℕ

/-- One `increment_quota` with its reading of the clock. -/
structure Call where
  vendorId : Uuid
  keyId : Uuid
  period : String
  time : DateTime
  deriving DecidableEq

def Call.counter (call : Call) : Option Counter :=
  Rollover.counterAt call.vendorId call.keyId call.period call.time

/-- Which command of a caller comes next. -/
inductive Pc where
  | idle
  | incr (call : Call) (c : Counter)
  | expire (key : String) (ttl : ℤ)
  | finished (result : Option ℤ)

def Pc.inProgress : Pc → Bool
  | .idle => false
  | .incr _ _ => true
  | .expire _ _ => true
  | .finished _ => false

structure State where
  now : DateTime
  store : Store
  pc : ℕ → Pc

/-- What becomes of a command. -/
inductive Delivery where
  | answered
  | unanswered
  | lost
  deriving DecidableEq

inductive Event where
  | tick (later : DateTime)
  | call (r : ℕ) (vendorId keyId : Uuid) (period : String)
  | incr (r : ℕ) (delivery : Delivery)
  | expire (r : ℕ) (delivery : Delivery)
  | cancel (r : ℕ)

namespace State

variable (s : State)

def clock : ℤ := s.now.stamp

def goto (r : ℕ) (pc : Pc) : State := { s with pc := Function.update s.pc r pc }

/-- `increment_quota` up to INCR; an unknown period raises. -/
def begin (r : ℕ) (vendorId keyId : Uuid) (period : String) : State :=
  let call : Call := ⟨vendorId, keyId, period, s.now⟩
  match call.counter with
  | none => s.goto r (.finished none)
  | some c => s.goto r (.incr call c)

/-- EXPIRE; nothing happens to a key that is not there. -/
def expireLive (key : String) (ttl : ℤ) : Store :=
  match s.store.lookup s.clock key with
  | none => s.store
  | some _ => s.store.expire key (s.clock + ttl * microsPerSecond)

end State

/-- The rest of `increment_quota` after the reply of INCR. -/
def afterIncr (call : Call) (c : Counter) (newCount : ℤ) : Pc :=
  if newCount = 1 then
    match periodTtl call.period with
    | none => .finished none
    | some ttl => .expire c.key ttl
  else .finished (some newCount)

def incrStep (s : State) (r : ℕ) (call : Call) (c : Counter) (delivery : Delivery) : State :=
  match delivery, s.store.incr s.clock c.key r with
  | .lost, _ => s.goto r (.finished none)
  | _, none => s.goto r (.finished none)
  | .unanswered, some (store, _) => { s with store := store }.goto r (.finished none)
  | .answered, some (store, n) => { s with store := store }.goto r (afterIncr call c n)

def expireStep (s : State) (r : ℕ) (key : String) (ttl : ℤ) (delivery : Delivery) : State :=
  match delivery with
  | .lost => s.goto r (.finished none)
  | .unanswered => { s with store := s.expireLive key ttl }.goto r (.finished none)
  | .answered => { s with store := s.expireLive key ttl }.goto r (.finished (some 1))

/-- All callers on one server. -/
def machine : System State Event where
  init s := s.store = .empty ∧ ∀ r, s.pc r = .idle
  step s e :=
    match e with
    | .tick later => if s.now ≤ later then some { s with now := later } else none
    | .call r vendorId keyId period =>
        match s.pc r with
        | .idle => some (s.begin r vendorId keyId period)
        | .incr _ _ | .expire _ _ | .finished _ => none
    | .incr r delivery =>
        match s.pc r with
        | .incr call c => some (incrStep s r call c delivery)
        | .idle | .expire _ _ | .finished _ => none
    | .expire r delivery =>
        match s.pc r with
        | .expire key ttl => some (expireStep s r key ttl delivery)
        | .idle | .incr _ _ | .finished _ => none
    | .cancel r => if (s.pc r).inProgress then some (s.goto r (.finished none)) else none

/-- `get_quota_usage`, with its GET at the instant of its reading of the clock;
`none` where it raises. It writes nothing. -/
def getQuotaUsage (s : State) (vendorId keyId : Uuid) (period : String) : Option ℤ :=
  (Rollover.counterAt vendorId keyId period s.now).bind fun c => quotaUsage (s.store.get s.clock c.key)

section Steps

variable {s t : State}

/-- Everything a step can do. -/
theorem step_cases {e : Event} (next : machine.step s e = some t) :
    (∃ later, e = .tick later ∧ s.now ≤ later ∧ t = { s with now := later }) ∨
    (∃ r v k period, e = .call r v k period ∧ s.pc r = .idle ∧ t = s.begin r v k period) ∨
    (∃ r delivery call c, e = .incr r delivery ∧ s.pc r = .incr call c ∧
      t = incrStep s r call c delivery) ∨
    (∃ r delivery key ttl, e = .expire r delivery ∧ s.pc r = .expire key ttl ∧
      t = expireStep s r key ttl delivery) ∨
    ∃ r, e = .cancel r ∧ (s.pc r).inProgress = true ∧ t = s.goto r (.finished none) := by
  cases e with
  | tick later =>
      simp only [machine] at next
      split_ifs at next with hLater
      exact Or.inl ⟨later, rfl, hLater, (Option.some.inj next).symm⟩
  | call r v k period =>
      simp only [machine] at next
      cases hPc : s.pc r with
      | idle =>
          rw [hPc] at next
          exact Or.inr (Or.inl ⟨r, v, k, period, rfl, hPc, (Option.some.inj next).symm⟩)
      | incr | expire | finished => simp [hPc] at next
  | incr r delivery =>
      simp only [machine] at next
      cases hPc : s.pc r with
      | incr call c =>
          rw [hPc] at next
          exact Or.inr (Or.inr (Or.inl ⟨r, delivery, call, c, rfl, hPc,
            (Option.some.inj next).symm⟩))
      | idle | expire | finished => simp [hPc] at next
  | expire r delivery =>
      simp only [machine] at next
      cases hPc : s.pc r with
      | expire key ttl =>
          rw [hPc] at next
          exact Or.inr (Or.inr (Or.inr (Or.inl ⟨r, delivery, key, ttl, rfl, hPc,
            (Option.some.inj next).symm⟩)))
      | idle | incr | finished => simp [hPc] at next
  | cancel r =>
      simp only [machine] at next
      split_ifs at next with hProgress
      exact Or.inr (Or.inr (Or.inr (Or.inr ⟨r, rfl, hProgress, (Option.some.inj next).symm⟩)))

@[simp] theorem goto_store (r : ℕ) (pc : Pc) : (s.goto r pc).store = s.store := rfl

@[simp] theorem goto_now (r : ℕ) (pc : Pc) : (s.goto r pc).now = s.now := rfl

@[simp] theorem goto_pc_self (r : ℕ) (pc : Pc) : (s.goto r pc).pc r = pc :=
  Function.update_self ..

theorem goto_pc_of_ne {r r' : ℕ} (h : r' ≠ r) (pc : Pc) : (s.goto r pc).pc r' = s.pc r' :=
  Function.update_of_ne h ..

/-- A caller who is somewhere after a `goto` has been sent there or was there. -/
theorem goto_pc_eq {r r' : ℕ} {pc pc' : Pc} (h : (s.goto r pc).pc r' = pc') :
    r' = r ∧ pc = pc' ∨ r' ≠ r ∧ s.pc r' = pc' := by
  by_cases hr : r' = r
  · subst hr
    rw [goto_pc_self] at h
    exact Or.inl ⟨rfl, h⟩
  · rw [goto_pc_of_ne hr] at h
    exact Or.inr ⟨hr, h⟩

/-- INCR is refused on a text, and there is none. -/
theorem incr_answers (store : Store) (clock : ℤ) (key : String) (r : ℕ) :
    ∃ store' n, store.incr clock key r = some (store', n) := by
  unfold Redis.Server.incr
  split
  · exact ⟨_, _, rfl⟩
  · exact ⟨_, _, rfl⟩
  · rename_i payload _ _ _
    exact payload.elim

/-- INCR reaches the server or is lost. -/
theorem incrStep_cases (s : State) (r : ℕ) (call : Call) (c : Counter) (delivery : Delivery) :
    delivery = .lost ∧ incrStep s r call c delivery = s.goto r (.finished none) ∨
    ∃ store n, s.store.incr s.clock c.key r = some (store, n) ∧
      (delivery = .unanswered ∧ incrStep s r call c delivery =
          { s with store := store }.goto r (.finished none) ∨
        delivery = .answered ∧ incrStep s r call c delivery =
          { s with store := store }.goto r (afterIncr call c n)) := by
  obtain ⟨store, n, hIncr⟩ := incr_answers s.store s.clock c.key r
  cases delivery with
  | lost => exact Or.inl ⟨rfl, rfl⟩
  | unanswered => exact Or.inr ⟨store, n, hIncr, Or.inl ⟨rfl, by simp only [incrStep, hIncr]⟩⟩
  | answered => exact Or.inr ⟨store, n, hIncr, Or.inr ⟨rfl, by simp only [incrStep, hIncr]⟩⟩

end Steps

end Gateway.Quota.Callers

import Gateway.Runs.Guided
import Mathlib.Algebra.Order.Floor.Semiring
import Mathlib.Algebra.Order.Archimedean.Basic
import Mathlib.Data.Rat.Floor
import Gateway.Routes.Flow
import Gateway.Semantics.Ranking

/-! A request to the proxy route comes to its end. The only loop is the polling
loop of `dedup_wait`, and its rounds are bounded because every round sleeps. -/
namespace Gateway.Routes

open Transition Gateway.Cache Gateway.Db Gateway.Quota

/-- `asyncio.sleep(0.01)` -/
def pollSleep : ℚ := 1 / 100

/-- When the await behind the next one may be answered at the earliest: behind a
poll the loop sleeps. -/
def Proc.readyAt (now : ℚ) : Proc → ℚ
  | .running _ (.getMessage _) => now + pollSleep
  | _ => now

/-- From when on the pending await of each request may be answered. -/
def recordReady (s : State) (e : Event) (ready : ℕ → ℚ) : ℕ → ℚ :=
  match e with
  | .elapse _ => ready
  | .deliver r _ => Function.update ready r ((s.procs r).readyAt s.now)

def paced (D : Deployment) : System (State × (ℕ → ℚ)) Event :=
  D.machine.withHistory (fun _ => 0) recordReady

/-- A sleeping request does not wake early. -/
def Slept (p : State × (ℕ → ℚ)) : Event → Prop
  | .deliver r .wake => p.2 r ≤ p.1.now
  | _ => True

instance (p : State × (ℕ → ℚ)) (e : Event) : Decidable (Slept p e) := by
  unfold Slept
  split <;> infer_instance

/-- The steps of one request. -/
def ownStep (r : ℕ) (_ : State × (ℕ → ℚ)) : Event → ℕ
  | .elapse _ => 0
  | .deliver client _ => if client = r then 1 else 0

/-- The rounds of the polling loop that fit before the deadline. -/
def pollsLeft (deadline ready : ℚ) : ℕ := ⌈(deadline - ready) / pollSleep⌉₊

/-- The steps that a request at an await has yet to take, at most. -/
def Pc.budget (ready : ℚ) : Pc → ℕ
  | .selectEndpoint => 6009
  | .loadApiKey => 6008
  | .checkQuota _ => 6007
  | .getCached => 6006
  | .acquireLock => 6005
  | .subscribe => 6004
  | .getResult => 6003
  | .sleep deadline => 2 * pollsLeft deadline ready + 2
  | .getMessage deadline => 2 * pollsLeft deadline ready + 1
  | .callVendor => 7
  | .setCached _ => 6
  | .setResult _ => 5
  | .publish _ => 4
  | .incrQuota _ _ => 3
  | .expireQuota _ _ _ => 2
  | .createJob | .unsubscribe _ | .releaseLock _ => 1

def Proc.budget (ready : ℚ) : Proc → ℕ
  | .idle => 6010
  | .running _ pc => pc.budget ready
  | .finished _ _ => 0

def budget (r : ℕ) (p : State × (ℕ → ℚ)) : ℕ := (p.1.procs r).budget (p.2 r)

section PollsLeft

theorem pollSleep_pos : 0 < pollSleep := by norm_num [pollSleep]

theorem pollsLeft_antitone {deadline ready ready' : ℚ} (h : ready ≤ ready') :
    pollsLeft deadline ready' ≤ pollsLeft deadline ready := by
  unfold pollsLeft
  exact Nat.ceil_mono (div_le_div_of_nonneg_right (sub_le_sub_left h _) pollSleep_pos.le)

/-- A round of the loop takes the sleep at least. -/
theorem pollsLeft_sleep {deadline ready now : ℚ} (hReady : ready ≤ now) (hEarly : ready < deadline) :
    pollsLeft deadline (now + pollSleep) + 1 ≤ pollsLeft deadline ready := by
  have hBack : (deadline - (now + pollSleep)) / pollSleep ≤ (deadline - ready) / pollSleep - 1 := by
    rw [le_sub_iff_add_le, div_add_one pollSleep_pos.ne']
    exact div_le_div_of_nonneg_right (by linarith) pollSleep_pos.le
  have hPos : 0 < pollsLeft deadline ready :=
    Nat.ceil_pos.mpr (div_pos (sub_pos.mpr hEarly) pollSleep_pos)
  have hLess : pollsLeft deadline (now + pollSleep) ≤ pollsLeft deadline ready - 1 := by
    unfold pollsLeft
    rw [← Nat.ceil_sub_one]
    exact Nat.ceil_mono hBack
  omega

theorem pollsLeft_waitTimeout (now : ℚ) : pollsLeft (now + dedupWaitTimeout) now = 3000 := by
  unfold pollsLeft
  have hAll : (now + dedupWaitTimeout - now) / pollSleep = ((3000 : ℕ) : ℚ) := by
    norm_num [dedupWaitTimeout, pollSleep]
  rw [hAll, Nat.ceil_natCast]

end PollsLeft

/-- While a request polls, the head of the loop was passed before the deadline. -/
def Polled (p : State × (ℕ → ℚ)) : Prop :=
  ∀ r ctx deadline, p.1.procs r = .running ctx (.getMessage deadline) →
    p.2 r ≤ p.1.now ∧ p.2 r < deadline

section Steps

variable {D : Deployment}

theorem polled_step {p q : State × (ℕ → ℚ)} {e : Event} (hPolled : Polled p)
    (next : (paced D).step p e = some q) : Polled q := by
  obtain ⟨s, ready⟩ := p
  rcases recorded_cases next with ⟨dt, rfl, hdt, rfl⟩ | ⟨r, e, redis, p', rfl, hMove, rfl⟩
  · intro w ctx deadline hProc
    obtain ⟨hNow, hEarly⟩ := hPolled w ctx deadline hProc
    exact ⟨hNow.trans (le_add_of_nonneg_right hdt), hEarly⟩
  · intro w ctx deadline hProc
    rcases procs_cases hProc with ⟨rfl, rfl⟩ | ⟨hw, hProc⟩
    · -- only the head of the loop leads to a poll
      rcases start_cases hMove with ⟨-, -, -, -, hPc⟩ | ⟨ctx₀, pc₀, hBefore, hFlow⟩
      · cases hPc
      · cases hFlow with
        | polling _ hEarly =>
            have hReady : recordReady s (.deliver w .wake) ready w = s.now := by
              simp [recordReady, hBefore, Proc.readyAt]
            exact ⟨hReady.le, hReady.trans_lt hEarly⟩
    · have hReady : recordReady s (.deliver r e) ready w = ready w :=
        Function.update_of_ne hw _ _
      obtain ⟨hNow, hEarly⟩ := hPolled w ctx deadline hProc
      exact ⟨hReady.le.trans hNow, hReady.trans_lt hEarly⟩

theorem polled_run {p : State × (ℕ → ℚ)} (run : (paced D).Reaches Slept p) : Polled p := by
  induction run with
  | init hInit =>
      intro w ctx deadline hProc
      rw [hInit.1.2.2 w] at hProc
      cases hProc
  | step _ _ next ih => exact polled_step ih next

/-- An edge of the control flow uses up budget. -/
theorem budget_of_flow {now ready : ℚ} {ctx ctx' : Ctx} {pc pc' : Pc} {input : Input}
    (hPolled : ∀ deadline, pc = .getMessage deadline → ready ≤ now ∧ ready < deadline)
    (hSlept : input = .wake → ready ≤ now) (hFlow : Flow now ctx pc input ctx' pc') :
    1 + pc'.budget ((Proc.running ctx pc).readyAt now) ≤ pc.budget ready := by
  cases hFlow with
  | notStored => simp [Pc.budget, Proc.readyAt, pollsLeft_waitTimeout]
  | expired =>
      simp only [Pc.budget]
      omega
  | polling deadline _ =>
      have hLess : pollsLeft deadline now ≤ pollsLeft deadline ready := pollsLeft_antitone (hSlept rfl)
      simp only [Pc.budget, Proc.readyAt]
      omega
  | notNotified deadline =>
      obtain ⟨hNow, hEarly⟩ := hPolled deadline rfl
      have hSleep := pollsLeft_sleep hNow hEarly
      simp only [Pc.budget, Proc.readyAt]
      omega
  | notified deadline _ =>
      have hSleep := pollsLeft_sleep (hPolled deadline rfl).1 (hPolled deadline rfl).2
      simp only [Pc.budget]
      omega
  | messageRaised deadline _ =>
      have hSleep := pollsLeft_sleep (hPolled deadline rfl).1 (hPolled deadline rfl).2
      simp only [Pc.budget]
      omega
  | _ => simp [Pc.budget]

theorem budget_pos (ready : ℚ) (pc : Pc) : 1 ≤ pc.budget ready := by
  cases pc <;> simp [Pc.budget]

/-- Every step of a request uses up budget. -/
theorem budget_of_move {now ready : ℚ} {r : ℕ} {redis redis' : RedisServer} {p p' : Proc}
    {input : Input}
    (hPolled : ∀ ctx deadline, p = .running ctx (.getMessage deadline) →
      ready ≤ now ∧ ready < deadline)
    (hSlept : input = .wake → ready ≤ now) (hMove : Move D now r redis p input redis' p') :
    1 + p'.budget (p.readyAt now) ≤ p.budget ready := by
  cases p' with
  | idle => exact absurd rfl (not_idle_of_move hMove)
  | finished request outcome =>
      cases p with
      | idle => simp [Proc.budget]
      | running ctx pc => exact budget_pos ready pc
      | finished => cases hMove
  | running ctx pc =>
      rcases start_cases hMove with ⟨rfl, -, -, -, rfl⟩ | ⟨ctx₀, pc₀, rfl, hFlow⟩
      · simp [Proc.budget, Pc.budget]
      · exact budget_of_flow (fun deadline hPc => hPolled ctx₀ deadline (by rw [hPc])) hSlept hFlow

theorem ownStep_add_budget (r : ℕ) {p q : State × (ℕ → ℚ)} {e : Event}
    (run : (paced D).Reaches Slept p) (hSlept : Slept p e) (next : (paced D).step p e = some q) :
    ownStep r p e + budget r q ≤ budget r p := by
  have hPolled := polled_run run
  obtain ⟨s, ready⟩ := p
  rcases recorded_cases next with ⟨dt, rfl, hdt, rfl⟩ | ⟨client, input, redis, p', rfl, hMove, rfl⟩
  · exact (Nat.zero_add _).le
  · by_cases hClient : client = r
    · subst hClient
      have hWake : input = .wake → ready client ≤ s.now := by
        rintro rfl
        exact hSlept
      have hUsed := budget_of_move (fun ctx deadline hProc => hPolled client ctx deadline hProc)
        hWake hMove
      simpa [ownStep, budget, recordReady] using hUsed
    · simp [ownStep, budget, recordReady, hClient, Ne.symm hClient]

/-- A request at an await can be answered. -/
theorem exists_answer (now : ℚ) (r : ℕ) (redis : RedisServer) (ctx : Ctx) (pc : Pc) :
    ∃ input, (D.react now r redis (.running ctx pc) input).isSome = true := by
  cases pc with
  | selectEndpoint => exact ⟨.endpointRow, rfl⟩
  | createJob => exact ⟨.jobStored .nil, rfl⟩
  | loadApiKey =>
      obtain ⟨row, hRow⟩ := exists_activeApiKey D ctx.config
      exact ⟨.apiKeyRow row, by simp only [Deployment.react, if_pos hRow, Option.isSome_some]⟩
  | sleep deadline => exact ⟨.wake, rfl⟩
  | callVendor => exact ⟨.vendor .timeout, rfl⟩
  | incrQuota f counter =>
      refine ⟨.reply, ?_⟩
      simp only [Deployment.react, Deployment.reply]
      split <;> rfl
  | _ => exact ⟨.reply, rfl⟩

theorem answered_step {s : State} {ready : ℕ → ℚ} {r : ℕ} {input : Input}
    (hAnswer : (D.react s.now r s.redis (s.procs r) input).isSome = true) :
    ∃ q, (paced D).step (s, ready) (.deliver r input) = some q := by
  obtain ⟨⟨redis, p'⟩, hReact⟩ := Option.isSome_iff_exists.mp hAnswer
  exact ⟨(⟨s.now, redis, Function.update s.procs r p'⟩, recordReady s (.deliver r input) ready),
    by simp [paced, System.withHistory, Deployment.machine, hReact]⟩

/-- A running request can be brought closer to its end, once it has slept. -/
theorem exists_lower {p : State × (ℕ → ℚ)} {r : ℕ} (run : (paced D).Reaches Slept p) {ctx : Ctx}
    {pc : Pc} (hProc : p.1.procs r = .running ctx pc) :
    ∃ q, ((paced D).startingAt p).Reaches Slept q ∧ budget r q < budget r p := by
  obtain ⟨s, ready⟩ := p
  -- let the time pass until the request may wake
  obtain ⟨dt, hdt, hReady⟩ : ∃ dt, 0 ≤ dt ∧ ready r ≤ s.now + dt :=
    ⟨max 0 (ready r - s.now), le_max_left _ _, by linarith [le_max_right 0 (ready r - s.now)]⟩
  have hElapse : (paced D).step (s, ready) (.elapse dt) =
      some ({ s with now := s.now + dt }, ready) := by
    simp [paced, System.withHistory, Deployment.machine, hdt, recordReady]
  have hRest : Slept (s, ready) (.elapse dt) := trivial
  have hLater : budget r ({ s with now := s.now + dt }, ready) = budget r (s, ready) := rfl
  obtain ⟨input, hAnswer⟩ := exists_answer (D := D) (s.now + dt) r s.redis ctx pc
  obtain ⟨q, hNext⟩ :
      ∃ q, (paced D).step ({ s with now := s.now + dt }, ready) (.deliver r input) = some q :=
    answered_step (by rw [← hProc] at hAnswer; exact hAnswer)
  have hSlept : Slept ({ s with now := s.now + dt }, ready) (.deliver r input) := by
    cases input <;> first | exact hReady | trivial
  have hUsed := ownStep_add_budget r (run.step hRest hElapse) hSlept hNext
  have hOwn : ownStep r ({ s with now := s.now + dt }, ready) (.deliver r input) = 1 := if_pos rfl
  have hWaited : ((paced D).startingAt (s, ready)).Reaches Slept
      ({ s with now := s.now + dt }, ready) := .step (.init rfl) hRest hElapse
  refine ⟨q, hWaited.step hSlept hNext, ?_⟩
  omega

end Steps

/-- How a request ended. -/
def Proc.outcome? : Proc → Option Outcome
  | .idle => none
  | .running _ _ => none
  | .finished _ outcome => some outcome

theorem arrived_step {D : Deployment} {p q : State × (ℕ → ℚ)} {e : Event} {r : ℕ}
    (hArrived : p.1.procs r ≠ .idle) (next : (paced D).step p e = some q) :
    q.1.procs r ≠ .idle := by
  obtain ⟨s, ready⟩ := p
  rcases recorded_cases next with ⟨dt, rfl, hdt, rfl⟩ | ⟨client, input, redis, p', rfl, hMove, rfl⟩
  · exact hArrived
  · intro hIdle
    rcases procs_cases hIdle with ⟨-, rfl⟩ | ⟨-, hBefore⟩
    · exact not_idle_of_move hMove rfl
    · exact hArrived hBefore

/-- A request takes at most 6010 steps, whatever the others do and whatever fails,
and as long as it has not ended the run can go on to its end. -/
theorem request_ends (D : Deployment) (r : ℕ) (p : (State × (ℕ → ℚ)) × ℕ)
    (run : ((paced D).metered (ownStep r)).Reaches (fun p e => Slept p.1 e) p) :
    p.2 ≤ 6010 ∧
      (p.1.1.procs r ≠ .idle →
        ∃ q, ((paced D).startingAt p.1).Reaches Slept q ∧
          ∃ outcome, (q.1.procs r).outcome? = some outcome) := by
  constructor
  · have hInit : ∀ s, (paced D).init s → budget r s ≤ 6010 := by
      intro s hInit
      exact (congrArg (Proc.budget (s.2 r)) (hInit.1.2.2 r)).le
    have hSpent := run.spent_le hInit fun _ _ _ prior hSlept next =>
      ownStep_add_budget r prior hSlept next
    omega
  · intro hArrived
    have hLower : ∀ s, (paced D).Reaches Slept s → ¬(∀ ctx pc, s.1.procs r ≠ .running ctx pc) →
        ∃ t, ((paced D).startingAt s).Reaches Slept t ∧ budget r t < budget r s := by
      intro s prior hNot
      push Not at hNot
      obtain ⟨ctx, pc, hProc⟩ := hNot
      exact exists_lower prior hProc
    obtain ⟨q, rest, hGoal⟩ := run.unmetered.descend hLower
    have hStill : q.1.procs r ≠ .idle := by
      refine rest.invariant (I := fun p => p.1.procs r ≠ .idle) ?_ ?_
      · rintro s rfl
        exact hArrived
      · intro s t e _ hBefore _ next
        exact arrived_step hBefore next
    refine ⟨q, rest, ?_⟩
    cases hProc : q.1.procs r with
    | idle => exact absurd hProc hStill
    | running ctx pc => exact absurd hProc (hGoal ctx pc)
    | finished request outcome => exact ⟨outcome, rfl⟩

section Effects

/-- The awaits outside of the polling loop that act on something shared. -/
inductive Effect where
  | acquire
  | subscribe
  | unsubscribe
  | vendor
  | cache
  | result
  | publish
  | increment
  | expire
  | release
  deriving DecidableEq

def Pc.effect : Pc → Option Effect
  | .acquireLock => some .acquire
  | .subscribe => some .subscribe
  | .unsubscribe _ => some .unsubscribe
  | .callVendor => some .vendor
  | .setCached _ => some .cache
  | .setResult _ => some .result
  | .publish _ => some .publish
  | .incrQuota _ _ => some .increment
  | .expireQuota _ _ _ => some .expire
  | .releaseLock _ => some .release
  | .selectEndpoint | .createJob | .loadApiKey | .checkQuota _ | .getCached => none
  | .getResult | .sleep _ | .getMessage _ => none

def Effect.stage : Effect → ℕ
  | .acquire => 4
  | .subscribe => 5
  | .vendor => 5
  | .cache => 6
  | .result => 7
  | .unsubscribe => 8
  | .publish => 8
  | .increment => 9
  | .expire => 10
  | .release => 11

/-- How far a request has come; only the polling loop stays at its stage. -/
def Pc.stage : Pc → ℕ
  | .selectEndpoint => 0
  | .createJob => 1
  | .loadApiKey => 1
  | .checkQuota _ => 2
  | .getCached => 3
  | .getResult => 6
  | .sleep _ => 7
  | .getMessage _ => 7
  | .acquireLock => Effect.stage .acquire
  | .subscribe => Effect.stage .subscribe
  | .unsubscribe _ => Effect.stage .unsubscribe
  | .callVendor => Effect.stage .vendor
  | .setCached _ => Effect.stage .cache
  | .setResult _ => Effect.stage .result
  | .publish _ => Effect.stage .publish
  | .incrQuota _ _ => Effect.stage .increment
  | .expireQuota _ _ _ => Effect.stage .expire
  | .releaseLock _ => Effect.stage .release

/-- Whether the request may still be at an await with the effect. -/
def Proc.yet (k : Effect) : Proc → ℕ
  | .idle => 1
  | .running _ pc => if pc.stage ≤ k.stage then 1 else 0
  | .finished _ _ => 0

/-- The answers, or exceptions, that a request got at its awaits with the effect. -/
def effects (r : ℕ) (k : Effect) (s : State) : Event → ℕ
  | .elapse _ => 0
  | .deliver client _ =>
      match s.procs client with
      | .running _ pc => if client = r ∧ pc.effect = some k then 1 else 0
      | _ => 0

variable {D : Deployment}

theorem stage_of_effect {pc : Pc} {k : Effect} (h : pc.effect = some k) : pc.stage = k.stage := by
  cases pc <;> simp [Pc.effect] at h <;> subst h <;> rfl

theorem stage_of_flow {now : ℚ} {ctx ctx' : Ctx} {pc pc' : Pc} {input : Input}
    (hFlow : Flow now ctx pc input ctx' pc') :
    pc.stage ≤ pc'.stage ∧ (pc.effect ≠ none → pc.stage < pc'.stage) := by
  cases hFlow <;> simp [Pc.stage, Effect.stage, Pc.effect]

theorem yet_of_move {now : ℚ} {r : ℕ} {redis redis' : RedisServer} {p p' : Proc} {input : Input}
    {k : Effect} (hMove : Move D now r redis p input redis' p') : p'.yet k ≤ p.yet k := by
  cases p' with
  | idle => exact absurd rfl (not_idle_of_move hMove)
  | finished request outcome => exact Nat.zero_le _
  | running ctx pc =>
      rcases start_cases hMove with ⟨rfl, -, -, -, -⟩ | ⟨ctx₀, pc₀, rfl, hFlow⟩
      · simp only [Proc.yet]
        split_ifs <;> omega
      · have hStage := (stage_of_flow hFlow).1
        simp only [Proc.yet]
        split_ifs <;> omega

/-- Behind an await with an effect there is no other await with that effect. -/
theorem yet_of_effect {now : ℚ} {r : ℕ} {redis redis' : RedisServer} {ctx : Ctx} {pc : Pc}
    {p' : Proc} {input : Input} {k : Effect} (hEffect : pc.effect = some k)
    (hMove : Move D now r redis (.running ctx pc) input redis' p') :
    1 + p'.yet k ≤ (Proc.running ctx pc).yet k := by
  have hStage := stage_of_effect hEffect
  cases p' with
  | idle => exact absurd rfl (not_idle_of_move hMove)
  | finished request outcome => simp [Proc.yet, hStage]
  | running ctx' pc' =>
      have hLater := (stage_of_flow (flow_of_move hMove)).2 (by simp [hEffect])
      simp only [Proc.yet, hStage, le_refl, if_true]
      rw [if_neg (by omega)]

/-- A request takes its lock, calls its vendor, stores, publishes, charges and
releases at most once each, also when its commands fail. -/
theorem effect_once (D : Deployment) (r : ℕ) (k : Effect) (p : State × ℕ)
    (run : (D.machine.metered (effects r k)).Reaches (fun p e => System.anyRun p.1 e) p) :
    p.2 ≤ 1 := by
  have hInit : ∀ s, D.machine.init s → (s.procs r).yet k ≤ 1 := by
    intro s hInit
    rw [hInit.2.2 r]
    rfl
  suffices hStep : ∀ s e t, D.machine.Reaches System.anyRun s → System.anyRun s e →
      D.machine.step s e = some t → effects r k s e + (t.procs r).yet k ≤ (s.procs r).yet k by
    have hSpent := run.spent_le hInit hStep
    omega
  intro s e t _ _ next
  rcases step_cases next with ⟨dt, rfl, -, rfl⟩ | ⟨client, input, redis, p', rfl, hMove, rfl⟩
  · exact (Nat.zero_add _).le
  · by_cases hClient : client = r
    · subst hClient
      simp only [effects, Function.update_self]
      cases hProc : s.procs client with
      | idle =>
          rw [hProc] at hMove
          simpa using yet_of_move hMove
      | finished request outcome =>
          rw [hProc] at hMove
          cases hMove
      | running ctx pc =>
          rw [hProc] at hMove
          by_cases hEffect : pc.effect = some k
          · simpa [hEffect] using yet_of_effect hEffect hMove
          · simpa [hEffect] using yet_of_move hMove
    · have hNone : effects r k s (.deliver client input) = 0 := by
        simp only [effects]
        split <;> simp [hClient]
      have hSame : Function.update s.procs client p' r = s.procs r :=
        Function.update_of_ne (Ne.symm hClient) _ _
      rw [hNone, Nat.zero_add]
      exact (congrArg (Proc.yet k) hSame).le

end Effects

section Traces

/-- Request 0 holds the lock; request 1 waits behind it and polls once. -/
def waiting : List Event :=
  upToLock 0 (sampleRequest .get "p") ++ .deliver 0 .reply ::
    upToLock 1 (sampleRequest .get "p") ++ [.deliver 1 .reply, .deliver 1 .reply,
      .deliver 1 .reply, .deliver 1 .wake, .deliver 1 .reply]

theorem init_paced {D : Deployment} : (paced D).init (sampleStart, fun _ => 0) :=
  ⟨init_sampleStart, rfl⟩

theorem request_ends_waiting :
    ∃ p, ((paced (sampleDeployment 0)).metered (ownStep 1)).Reaches (fun p e => Slept p.1 e) p ∧
      p.2 ≤ 6010 ∧ ∃ q, ((paced (sampleDeployment 0)).startingAt p.1).Reaches Slept q ∧
        ∃ outcome, (q.1.procs 1).outcome? = some outcome := by
  have hDone : (((paced (sampleDeployment 0)).metered (ownStep 1)).exec (fun p e => Slept p.1 e)
      ((sampleStart, fun _ => 0), 0) waiting).any (fun p => (p.1.1.procs 1).request?.isSome) =
        true := by
    decide +kernel
  obtain ⟨p, run, hCheck⟩ :=
    System.Reaches.exec_any (.init (System.init_metered init_paced)) hDone
  obtain ⟨hBound, hEnds⟩ := request_ends _ _ p run
  refine ⟨p, run, hBound, hEnds ?_⟩
  intro hIdle
  rw [hIdle] at hCheck
  cases hCheck

theorem effect_once_vendor :
    ∃ p, ((sampleDeployment 0).machine.metered (effects 0 .vendor)).Reaches
        (fun p e => System.anyRun p.1 e) p ∧ p.2 = 1 ∧ p.2 ≤ 1 := by
  have hDone : (((sampleDeployment 0).machine.metered (effects 0 .vendor)).exec
      (fun p e => System.anyRun p.1 e) (sampleStart, 0) (upToLock 0 (sampleRequest .get "p") ++
        [.deliver 0 .reply, .deliver 0 (.vendor .timeout)])).any (fun p => decide (p.2 = 1)) = true := by
    decide +kernel
  obtain ⟨p, run, hCheck⟩ :=
    System.Reaches.exec_any (.init (System.init_metered init_sampleStart)) hDone
  exact ⟨p, run, of_decide_eq_true hCheck, effect_once _ _ _ p run⟩

end Traces

end Gateway.Routes

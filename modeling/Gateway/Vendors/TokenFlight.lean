import Gateway.Semantics.SingleFlight
import Gateway.Vendors.OAuth

/-! `prepare_request` of one `OAuth2ClientCredentialsAdapter`, called by any number
of requests at once. The token endpoint says of each token how long it lasts. -/
namespace Gateway.Vendors.TokenFlight

open Transition Gateway.Vendors.OAuth

/-- Where a call is. A call that is done has a token, the expiry that was recorded
for it and the time at which `_ensure_token` returned it, or has raised. -/
inductive Pc where
  | idle
  | waiting
  | fetching (started : ℚ)
  | returned (accessToken : String) (expiresAt : ℚ) (time : ℚ)
  | raised

/-- A fetch that brought a token, and the `expires_in` of its answer. -/
structure Fetched where
  started : ℚ
  finished : ℚ
  accessToken : String
  expiresIn : ℤ

/-- `fetches` lists the latest fetch first, and no step reads it. -/
structure State where
  now : ℚ
  adapter : OAuth.Adapter
  calls : ℕ → Pc
  fetches : List Fetched

inductive Event where
  | tick (later : ℚ)
  | prepareRequest (c : ℕ)
  | acquire (c : ℕ)
  | token (c : ℕ) (accessToken : String) (expiresIn : ℤ)
  | raise (c : ℕ)

def goto (s : State) (c : ℕ) (pc : Pc) : State := { s with calls := Function.update s.calls c pc }

/-- The end of `_ensure_token`. -/
def ensured (s : State) : Pc :=
  match s.adapter.accessToken with
  | some accessToken => .returned accessToken s.adapter.expiresAt s.now
  | none => .raised

def step (s : State) : Event → Option State
  | .tick later => if s.now ≤ later then some { s with now := later } else none
  | .prepareRequest c =>
      match s.calls c with
      | .idle => some (goto s c (if s.adapter.unusable s.now then .waiting else ensured s))
      | _ => none
  | .acquire c =>
      match s.calls c, s.adapter.lock with
      | .waiting, none =>
          -- the token is looked at again under the lock
          if s.adapter.unusable s.now then
            some { goto s c (.fetching s.now) with adapter := { s.adapter with lock := some c } }
          else some (goto s c (ensured s))
      | _, _ => none
  | .token c accessToken expiresIn =>
      match s.calls c with
      | .fetching started =>
          some
            { now := s.now
              adapter := ⟨some accessToken, s.now + expiresIn, none⟩
              calls := Function.update s.calls c
                (.returned accessToken (s.now + expiresIn) s.now)
              fetches := ⟨started, s.now, accessToken, expiresIn⟩ :: s.fetches }
      | _ => none
  | .raise c =>
      match s.calls c with
      | .waiting => some (goto s c .raised)
      | .fetching _ =>
          some { goto s c .raised with adapter := { s.adapter with lock := none } }
      | _ => none

def machine : System State Event where
  init s := s.adapter = .new ∧ s.calls = (fun _ => .idle) ∧ s.fetches = []
  step := step

/-- The tokens that are fetched last longer than the buffer. -/
def Lasting (_ : State) : Event → Prop
  | .token _ _ expiresIn => expiryBuffer < expiresIn
  | _ => True

/-- The call that a step is about. -/
def Event.caller : Event → Option ℕ
  | .tick _ => none
  | .prepareRequest c | .acquire c | .token c _ _ | .raise c => some c

/-- How far a call has come. -/
def Pc.stage : Pc → ℕ
  | .idle => 0
  | .waiting => 1
  | .fetching _ => 2
  | .returned _ _ _ | .raised => 3

/-- The fetches bring tokens that last, and no call fails or is cancelled. -/
def Succeeding (s : State) (e : Event) : Prop := Lasting s e ∧ ∀ c, e ≠ .raise c

/-- What a step does to the calls: the one it is about comes further, and ends
without a token only by raising. -/
structure Advances (s : State) (e : Event) (t : State) : Prop where
  others : ∀ c, e.caller ≠ some c → t.calls c = s.calls c
  further : ∀ c, e.caller = some c → (s.calls c).stage < (t.calls c).stage
  raises : ∀ c, t.calls c = .raised → s.calls c = .raised ∨ e = .raise c

/-- A call can come to a token from here, with fetches that succeed. -/
def Obtains (s : State) (c : ℕ) : Prop :=
  ∃ t, (machine.startingAt s).Reaches Succeeding t ∧
    ∃ accessToken expiresAt time, t.calls c = .returned accessToken expiresAt time

/-- The fetches of an adapter are single-flight, and every call comes to a token that
lasts longer than the buffer. -/
structure Flights (s : State) : Prop where
  one : ∀ c started c' started', s.calls c = .fetching started →
    s.calls c' = .fetching started' → c = c'
  later : ∀ c started, s.calls c = .fetching started →
    ∀ f ∈ s.fetches, f.finished + (f.expiresIn - expiryBuffer) ≤ started
  spaced : s.fetches.Pairwise fun later earlier =>
    earlier.finished + (earlier.expiresIn - expiryBuffer) ≤ later.started
  attached : ∀ c accessToken expiresAt time,
    s.calls c = .returned accessToken expiresAt time → time + expiryBuffer < expiresAt
  advances : ∀ e t, machine.step s e = some t → Advances s e t
  obtains : ∀ c, (s.calls c).stage < 3 → Obtains s c

/-- With a usable token `_ensure_token` returns it. -/
theorem ensured_of_usable {s : State} (h : s.adapter.unusable s.now = false) :
    ∃ accessToken, s.adapter.accessToken = some accessToken ∧
      ensured s = .returned accessToken s.adapter.expiresAt s.now := by
  obtain ⟨accessToken, hToken⟩ := Option.ne_none_iff_exists'.mp
    (Option.isNone_eq_false_iff.mp (Bool.or_eq_false_iff.mp h).1 |> Option.isSome_iff_ne_none.mp)
  exact ⟨accessToken, hToken, by rw [ensured, hToken]⟩

section Refinement

/-- A token with its recorded expiry, as a value that is refreshed. -/
structure Token where
  accessToken : String
  expiresAt : ℚ

def Token.usable (token : Token) (now : ℚ) : Bool := decide (now < token.expiresAt - expiryBuffer)

theorem expiring_usable : SingleFlight.Expiring Token.usable := by
  intro token now later hLater hUnusable
  simp only [Token.usable, decide_eq_false_iff_not, not_lt] at hUnusable ⊢
  exact hUnusable.trans hLater

def Pc.flight : Pc → SingleFlight.Pc ℚ Token
  | .idle => .idle
  | .waiting => .waiting
  | .fetching started => .refreshing started
  | .returned accessToken expiresAt time => .returned ⟨accessToken, expiresAt⟩ time
  | .raised => .failed

def Fetched.refresh (f : Fetched) : SingleFlight.Refresh ℚ Token :=
  ⟨f.started, f.finished, ⟨f.accessToken, f.finished + f.expiresIn⟩⟩

def State.flight (s : State) : SingleFlight.State ℚ Token where
  now := s.now
  value := s.adapter.accessToken.map fun accessToken => ⟨accessToken, s.adapter.expiresAt⟩
  lock := s.adapter.lock
  callers c := (s.calls c).flight
  refreshes := s.fetches.map Fetched.refresh

def State.flightEvent (s : State) : Event → SingleFlight.Event ℚ Token
  | .tick later => .tick later
  | .prepareRequest c => .call c
  | .acquire c => .acquire c
  | .token c accessToken expiresIn => .finish c ⟨accessToken, s.now + expiresIn⟩
  | .raise c => .fail c

variable {s t : State} {e : Event}

theorem flight_goto (c : ℕ) (pc : Pc) :
    (goto s c pc).flight = SingleFlight.goto s.flight c pc.flight := by
  have hCalls : (fun c' => (Function.update s.calls c pc c').flight) =
      Function.update (fun c' => (s.calls c').flight) c pc.flight := by
    funext c'
    by_cases h : c' = c <;> simp [h]
  simp only [goto, State.flight, SingleFlight.goto, hCalls]

theorem held_of_unusable (h : s.adapter.unusable s.now = true) :
    s.flight.held Token.usable = none := by
  rw [Option.eq_none_iff_forall_ne_some]
  intro token hHeld
  obtain ⟨hValue, hUsable⟩ := SingleFlight.held_eq_some.mp hHeld
  obtain ⟨accessToken, hToken, rfl⟩ := Option.map_eq_some_iff.mp hValue
  have hExpired : s.adapter.expiresAt - expiryBuffer ≤ s.now := by
    simpa [OAuth.Adapter.unusable, hToken] using h
  exact absurd (of_decide_eq_true hUsable) (not_lt.mpr hExpired)

/-- The token that `_ensure_token` returns is the value that is held. -/
theorem held_of_usable (h : s.adapter.unusable s.now = false) :
    ∃ token, s.flight.held Token.usable = some token ∧
      (ensured s).flight = .returned token s.now := by
  obtain ⟨accessToken, hToken, hEnsured⟩ := ensured_of_usable h
  have hFresh := (Bool.or_eq_false_iff.mp h).2
  refine ⟨⟨accessToken, s.adapter.expiresAt⟩, ?_, by rw [hEnsured]; rfl⟩
  refine SingleFlight.held_eq_some.mpr ⟨by simp [State.flight, hToken], ?_⟩
  exact decide_eq_true (not_le.mp (of_decide_eq_false hFresh))

/-- A look at the adapter is a look at the value. -/
theorem flight_look (c : ℕ) (otherwise : State) :
    (if s.adapter.unusable s.now then otherwise else goto s c (ensured s)).flight =
      SingleFlight.look Token.usable s.flight c otherwise.flight := by
  cases hUnusable : s.adapter.unusable s.now with
  | true =>
      rw [SingleFlight.look_none (held_of_unusable hUnusable)]
      rfl
  | false =>
      obtain ⟨token, hHeld, hReturned⟩ := held_of_usable hUnusable
      rw [SingleFlight.look_some hHeld]
      exact (flight_goto c _).trans (by rw [hReturned]; rfl)

/-- Every step of the adapter is a step of the lock. -/
theorem flight_step (next : machine.step s e = some t) :
    (SingleFlight.machine Token.usable).step s.flight (s.flightEvent e) = some t.flight := by
  have hCaller : ∀ c pc, s.calls c = pc → s.flight.callers c = pc.flight := by
    rintro c pc rfl
    rfl
  cases e with
  | tick later =>
      simp only [machine, step] at next
      split_ifs at next with hLater
      cases next
      exact if_pos hLater
  | prepareRequest c =>
      simp only [machine, step] at next
      split at next
      · rename_i hIdle
        cases next
        have hLook := flight_look (s := s) c (goto s c .waiting)
        rw [flight_goto] at hLook
        simp only [State.flightEvent, SingleFlight.machine, SingleFlight.step, hCaller c _ hIdle]
        refine congrArg some (hLook.symm.trans (congrArg State.flight ?_))
        split_ifs <;> rfl
      · cases next
  | acquire c =>
      simp only [machine, step] at next
      split at next
      · rename_i hWaiting hLock
        have hLook := flight_look (s := s) c
          { goto s c (.fetching s.now) with adapter := { s.adapter with lock := some c } }
        have hFetching : State.flight
            { goto s c (.fetching s.now) with adapter := { s.adapter with lock := some c } } =
              { SingleFlight.goto s.flight c (.refreshing s.now) with lock := some c } :=
          congrArg (fun u : SingleFlight.State ℚ Token => { u with lock := some c })
            (flight_goto c (.fetching s.now))
        have hFree : s.flight.lock = none := hLock
        rw [hFetching] at hLook
        simp only [State.flightEvent, SingleFlight.machine, SingleFlight.step, hCaller c _ hWaiting,
          hFree]
        refine congrArg some (hLook.symm.trans (congrArg State.flight ?_))
        split_ifs at next ⊢ <;> cases next <;> rfl
      · cases next
  | token c accessToken expiresIn =>
      simp only [machine, step] at next
      split at next
      · rename_i started hFetching
        cases next
        simp only [State.flightEvent, SingleFlight.machine, SingleFlight.step,
          hCaller c _ hFetching]
        let token : Token := ⟨accessToken, s.now + expiresIn⟩
        let refresh : SingleFlight.Refresh ℚ Token := ⟨started, s.now, token⟩
        have hReturned := flight_goto (s := s) c (.returned accessToken (s.now + expiresIn) s.now)
        exact congrArg (fun u : SingleFlight.State ℚ Token =>
          some
            { u with
              value := some token
              lock := none
              refreshes := refresh :: u.refreshes })
          hReturned.symm
      · cases next
  | raise c =>
      simp only [machine, step] at next
      split at next
      · rename_i hWaiting
        cases next
        simp only [State.flightEvent, SingleFlight.machine, SingleFlight.step, hCaller c _ hWaiting]
        exact congrArg some (flight_goto c .raised).symm
      · rename_i started hFetching
        cases next
        simp only [State.flightEvent, SingleFlight.machine, SingleFlight.step,
          hCaller c _ hFetching]
        exact congrArg (fun u : SingleFlight.State ℚ Token => some { u with lock := none })
          (flight_goto c .raised).symm
      · cases next

theorem fetching_of_refreshing {c : ℕ} {started : ℚ}
    (h : s.flight.callers c = .refreshing started) : s.calls c = .fetching started := by
  change (s.calls c).flight = _ at h
  cases hPc : s.calls c <;> rw [hPc] at h <;> cases h
  rfl

/-- Runs of the adapter are runs of the lock, whose refreshes bring usable tokens. -/
theorem flight_run (run : machine.Reaches Lasting s) :
    (SingleFlight.machine Token.usable).Reaches (SingleFlight.Brings Token.usable) s.flight := by
  refine run.simulate State.flight State.flightEvent ?_ ?_
  · rintro s ⟨hAdapter, hCalls, hFetches⟩
    refine ⟨?_, ?_, ?_, ?_⟩
    · simp [State.flight, hAdapter, OAuth.Adapter.new]
    · simp [State.flight, hAdapter, OAuth.Adapter.new]
    · funext c
      simp [State.flight, hCalls, Pc.flight]
    · simp [State.flight, hFetches]
  · intro s e t hLasting next
    refine ⟨?_, flight_step next⟩
    cases e with
    | token c accessToken expiresIn =>
        have hLonger : expiryBuffer < (expiresIn : ℚ) := hLasting
        apply decide_eq_true
        change s.now < s.now + expiresIn - expiryBuffer
        linarith
    | _ => trivial

end Refinement

theorem usable_false_iff {token : Token} {now : ℚ} :
    token.usable now = false ↔ token.expiresAt - expiryBuffer ≤ now := by
  simp only [Token.usable, decide_eq_false_iff_not, not_lt]

section Progress

variable {s t : State} {e : Event}

/-- A call that is not the one a step is about stays where it is. -/
theorem goto_others {c : ℕ} {pc : Pc} :
    ∀ c', some c ≠ some c' → (goto s c pc).calls c' = s.calls c' := by
  intro c' hNe
  exact Function.update_of_ne (fun h => hNe (congrArg some h.symm)) pc s.calls

/-- A call that moves on in one step. -/
theorem Advances.of_update {c : ℕ} {pc : Pc} (hCaller : e.caller = some c)
    (hCalls : t.calls = Function.update s.calls c pc) (hFurther : (s.calls c).stage < pc.stage)
    (hRaises : pc = .raised → e = .raise c) : Advances s e t := by
  constructor
  · intro c' hOther
    rw [hCaller] at hOther
    rw [hCalls]
    exact goto_others c' hOther
  · intro c' hSame
    cases hCaller.symm.trans hSame
    rw [hCalls, Function.update_self]
    exact hFurther
  · intro c' hRaised
    rw [hCalls] at hRaised
    by_cases hSame : c' = c
    · cases hSame
      rw [Function.update_self] at hRaised
      exact .inr (hRaises hRaised)
    · rw [Function.update_of_ne hSame] at hRaised
      exact .inl hRaised

theorem advances_step (next : machine.step s e = some t) : Advances s e t := by
  cases e with
  | tick later =>
      simp only [machine, step] at next
      split_ifs at next
      cases next
      exact ⟨fun _ _ => rfl, fun _ hCaller => (by cases hCaller), fun _ hRaised => .inl hRaised⟩
  | prepareRequest c =>
      simp only [machine, step] at next
      split at next
      · rename_i hIdle
        cases next
        cases hUnusable : s.adapter.unusable s.now with
        | true =>
            exact .of_update rfl rfl (by simp [hIdle, Pc.stage]) (fun h => by cases h)
        | false =>
            obtain ⟨accessToken, -, hEnsured⟩ := ensured_of_usable hUnusable
            refine .of_update rfl rfl ?_ ?_
            · simp [hIdle, hEnsured, Pc.stage]
            · simp [hEnsured]
      · cases next
  | acquire c =>
      simp only [machine, step] at next
      split at next
      · rename_i hWaiting _
        cases hUnusable : s.adapter.unusable s.now with
        | true =>
            rw [hUnusable] at next
            cases next
            exact .of_update rfl rfl (by simp [hWaiting, Pc.stage]) (fun h => by cases h)
        | false =>
            obtain ⟨accessToken, -, hEnsured⟩ := ensured_of_usable hUnusable
            rw [hUnusable, hEnsured] at next
            cases next
            exact .of_update rfl rfl (by simp [hWaiting, Pc.stage]) (fun h => by cases h)
      · cases next
  | token c accessToken expiresIn =>
      simp only [machine, step] at next
      split at next
      · rename_i hFetching
        cases next
        exact .of_update rfl rfl (by simp [hFetching, Pc.stage]) (fun h => by cases h)
      · cases next
  | raise c =>
      simp only [machine, step] at next
      split at next
      · rename_i hWaiting
        cases next
        exact .of_update rfl rfl (by simp [hWaiting, Pc.stage]) (fun _ => rfl)
      · rename_i hFetching
        cases next
        exact .of_update rfl rfl (by simp [hFetching, Pc.stage]) (fun _ => rfl)
      · cases next

theorem Obtains.after {c : ℕ} (h : Obtains t c) (hSucceeding : Succeeding s e)
    (next : machine.step s e = some t) : Obtains s c := by
  obtain ⟨u, run, hReturned⟩ := h
  have first : (machine.startingAt s).Reaches Succeeding t :=
    .step (.init rfl) hSucceeding next
  exact ⟨u, first.trans run, hReturned⟩

theorem Obtains.of_returned {c : ℕ} {accessToken : String} {expiresAt time : ℚ}
    (h : s.calls c = .returned accessToken expiresAt time) : Obtains s c :=
  ⟨s, .init rfl, accessToken, expiresAt, time, h⟩

/-- The answer of the token endpoint, whatever it is, ends a fetch. -/
theorem token_step {c : ℕ} {started : ℚ} (h : s.calls c = .fetching started) :
    ∃ t, machine.step s (.token c "" 31) = some t ∧ Succeeding s (.token c "" 31) ∧
      (∃ accessToken expiresAt time, t.calls c = .returned accessToken expiresAt time) ∧
      t.adapter.lock = none ∧ ∀ c', c' ≠ c → t.calls c' = s.calls c' := by
  refine ⟨_, by simp only [machine, step, h]; rfl, ⟨?_, fun _ => by simp⟩, ?_, rfl, ?_⟩
  · norm_num [Lasting, expiryBuffer]
  · exact ⟨"", s.now + (31 : ℤ), s.now, Function.update_self ..⟩
  · intro c' hNe
    exact Function.update_of_ne hNe _ _

theorem obtains_of_fetching {c : ℕ} {started : ℚ} (h : s.calls c = .fetching started) :
    Obtains s c := by
  obtain ⟨t, next, hSucceeding, ⟨_, _, _, hReturned⟩, -, -⟩ := token_step h
  exact (Obtains.of_returned hReturned).after hSucceeding next

/-- A waiting call looks at the token again as soon as the lock is free. -/
theorem obtains_of_free {c : ℕ} (h : s.calls c = .waiting) (hLock : s.adapter.lock = none) :
    Obtains s c := by
  have hSucceeding : Succeeding s (.acquire c) := ⟨trivial, fun _ => by simp⟩
  cases hUnusable : s.adapter.unusable s.now with
  | true =>
      have next : machine.step s (.acquire c) =
          some { goto s c (.fetching s.now) with adapter := { s.adapter with lock := some c } } := by
        simp [machine, step, h, hLock, hUnusable]
      have hFetching : Function.update s.calls c (.fetching s.now) c = .fetching s.now :=
        Function.update_self ..
      exact (obtains_of_fetching hFetching).after hSucceeding next
  | false =>
      obtain ⟨accessToken, -, hEnsured⟩ := ensured_of_usable hUnusable
      have next : machine.step s (.acquire c) = some (goto s c (ensured s)) := by
        simp [machine, step, h, hLock, hUnusable]
      have hReturned : (goto s c (ensured s)).calls c =
          .returned accessToken s.adapter.expiresAt s.now :=
        (Function.update_self ..).trans hEnsured
      exact (Obtains.of_returned hReturned).after hSucceeding next

/-- Whoever holds the lock is fetching, and gives it back with its token. -/
theorem obtains_of_waiting {c : ℕ} (h : s.calls c = .waiting)
    (hHolder : ∀ c, s.adapter.lock = some c → ∃ started, s.calls c = .fetching started) :
    Obtains s c := by
  cases hLock : s.adapter.lock with
  | none => exact obtains_of_free h hLock
  | some holder =>
      obtain ⟨started, hFetching⟩ := hHolder holder hLock
      obtain ⟨t, next, hSucceeding, -, hFree, hOthers⟩ := token_step hFetching
      have hNe : c ≠ holder := by
        rintro rfl
        rw [h] at hFetching
        cases hFetching
      have hWaiting : t.calls c = .waiting := (hOthers c hNe).trans h
      exact (obtains_of_free hWaiting hFree).after hSucceeding next

theorem obtains_of_unended {c : ℕ} (h : (s.calls c).stage < 3)
    (hHolder : ∀ c, s.adapter.lock = some c → ∃ started, s.calls c = .fetching started) :
    Obtains s c := by
  cases hPc : s.calls c with
  | idle =>
      have hSucceeding : Succeeding s (.prepareRequest c) := ⟨trivial, fun _ => by simp⟩
      cases hUnusable : s.adapter.unusable s.now with
      | true =>
          have next : machine.step s (.prepareRequest c) = some (goto s c .waiting) := by
            simp [machine, step, hPc, hUnusable]
          refine (obtains_of_waiting (Function.update_self ..) ?_).after hSucceeding next
          intro holder hLock
          obtain ⟨started, hFetching⟩ := hHolder holder hLock
          have hNe : holder ≠ c := by
            rintro rfl
            rw [hPc] at hFetching
            cases hFetching
          exact ⟨started, (Function.update_of_ne hNe _ _).trans hFetching⟩
      | false =>
          obtain ⟨accessToken, -, hEnsured⟩ := ensured_of_usable hUnusable
          have next : machine.step s (.prepareRequest c) = some (goto s c (ensured s)) := by
            simp [machine, step, hPc, hUnusable]
          have hReturned : (goto s c (ensured s)).calls c =
              .returned accessToken s.adapter.expiresAt s.now :=
            (Function.update_self ..).trans hEnsured
          exact (Obtains.of_returned hReturned).after hSucceeding next
  | waiting => exact obtains_of_waiting hPc hHolder
  | fetching started => exact obtains_of_fetching hPc
  | returned accessToken expiresAt time => simp [hPc, Pc.stage] at h
  | raised => simp [hPc, Pc.stage] at h

end Progress

/-- Token fetches of one adapter are single-flight, for any calls at once and any
times between their steps. -/
theorem token_fetch_single_flight {s : State} (run : machine.Reaches Lasting s) : Flights s := by
  have hSound := SingleFlight.reaches_sound expiring_usable (flight_run run)
  have hFetching : ∀ c started, s.calls c = .fetching started →
      s.flight.callers c = .refreshing started := by
    intro c started hPc
    simp [State.flight, hPc, Pc.flight]
  have hHolder : ∀ c, s.adapter.lock = some c → ∃ started, s.calls c = .fetching started := by
    intro c hLock
    obtain ⟨started, hRefreshing⟩ := SingleFlight.reaches_holder (flight_run run) hLock
    exact ⟨started, fetching_of_refreshing hRefreshing⟩
  constructor
  · intro c started c' started' hPc hPc'
    have hHolds := hSound.single c started (hFetching c started hPc)
    rw [hSound.single c' started' (hFetching c' started' hPc')] at hHolds
    exact (Option.some.inj hHolds).symm
  · intro c started hPc f hf
    have hUnusable := (hSound.after c started (hFetching c started hPc)).2 f.refresh
      (List.mem_map_of_mem hf)
    have hExpired := usable_false_iff.mp hUnusable
    change f.finished + f.expiresIn - expiryBuffer ≤ started at hExpired
    linarith
  · refine (List.pairwise_map.mp hSound.spaced).imp ?_
    intro later earlier hUnusable
    have hExpired := usable_false_iff.mp hUnusable
    change earlier.finished + earlier.expiresIn - expiryBuffer ≤ later.started at hExpired
    linarith
  · intro c accessToken expiresAt time hPc
    have hUsable := hSound.returned c ⟨accessToken, expiresAt⟩ time
      (by simp [State.flight, hPc, Pc.flight])
    have hLater : time < expiresAt - expiryBuffer := of_decide_eq_true hUsable
    linarith
  · intro e t next
    exact advances_step next
  · intro c hUnended
    exact obtains_of_unended hUnended hHolder

section Sample

instance (s : State) (e : Event) : Decidable (Lasting s e) :=
  match e with
  | .token _ _ expiresIn => inferInstanceAs (Decidable (expiryBuffer < (expiresIn : ℚ)))
  | .tick _ | .prepareRequest _ | .acquire _ | .raise _ => isTrue trivial

def sampleStart : State := ⟨5, .new, fun _ => .idle, []⟩

/-- Two calls at once, one that is cancelled, and one after the token has run out. -/
def sampleCalls : List Event :=
  [.prepareRequest 0, .prepareRequest 1, .prepareRequest 2, .acquire 0, .raise 2, .tick 6,
    .token 0 "a" 60, .acquire 1, .tick 36, .prepareRequest 3, .acquire 3]

/-- One fetch was made for two calls, and the next is in flight. -/
def sampleCalled (s : State) : Bool :=
  decide (s.fetches.length = 1 ∧ s.adapter.lock = some 3) &&
    match s.calls 1 with
    | .returned accessToken _ _ => decide (accessToken = "a")
    | _ => false

theorem token_fetch_single_flight_sample : ∃ s, sampleCalled s = true ∧ Flights s := by
  have start : machine.Reaches Lasting sampleStart := .init ⟨rfl, rfl, rfl⟩
  have hExec : (machine.exec Lasting sampleStart sampleCalls).any sampleCalled = true := by
    decide +kernel
  obtain ⟨s, run, hCalled⟩ := start.exec_any hExec
  exact ⟨s, hCalled, token_fetch_single_flight run⟩

end Sample

end Gateway.Vendors.TokenFlight

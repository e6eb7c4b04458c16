import Gateway.Middleware.RateLimitConformance
import Gateway.Routes.Machine

/-! `RateLimitMiddleware`, `check_user_rate_limit` and the dependencies of the
proxy route. The middleware limits the requests to a vendor before the route is
reached; the dependency would limit those of a user, but the route does not
list it. -/
namespace Gateway.Middleware

open Transition RateLimit Gateway.Vendors Gateway.Routes

/-- `_extract_vendor_slug`: the path segment after `/vendors/` or `/v1/`. -/
def extractVendorSlug (path : String) : Option String :=
  ["/vendors/", "/v1/"].findSome? fun mount =>
    (path.toList.dropPrefix? mount.toList).bind fun rest =>
      let slug := rest.takeWhile (· ≠ '/')
      if slug = [] then none else some (String.ofList slug)

/-- `rate_limit_user_rpm` and `rate_limit_vendor_rpm` of the settings, the column
`rate_limit_rpm` of a vendor, and the URL path that the framework reports. -/
structure Limits where
  userRpm : ℤ
  vendorRpm : ℤ
  rateLimitRpm : VendorConfig → ℤ
  urlPath : Inbound → String

/-- The hashes under the rate-limit keys. -/
abbrev Buckets := String → Option Bucket

/-- A 429 answer of a limit: its scope and the seconds in `Retry-After`. -/
structure Refusal where
  scope : String
  retryAfter : ℤ
  deriving DecidableEq

/-- `check_rate_limit` on one of the keys. -/
def evaluate (capacityRpm : ℤ) (now : ℚ) (key : String) (buckets : Buckets) :
    Buckets × Option (Bool × ℤ) :=
  let result := checkRateLimit capacityRpm now (visible now (buckets key))
  (Function.update buckets key result.1, result.2)

/-- `RateLimitMiddleware.dispatch` up to `call_next`. A check that raises lets
the request pass. -/
def dispatch (D : Deployment) (L : Limits) (now : ℚ) (request : Inbound) (buckets : Buckets) :
    Buckets × Option Refusal :=
  match extractVendorSlug (L.urlPath request) with
  | none => (buckets, none)
  | some slug =>
      let vendorRpm := ((D.registry slug).map L.rateLimitRpm).getD L.vendorRpm
      match evaluate vendorRpm now (vendorKey slug) buckets with
      | (buckets, some (false, retryAfter)) => (buckets, some ⟨"vendor", retryAfter⟩)
      | (buckets, _) => (buckets, none)

/-- `check_user_rate_limit` -/
def checkUserRateLimit (L : Limits) (now : ℚ) (request : Inbound) (buckets : Buckets) :
    Buckets × Option Refusal :=
  match evaluate L.userRpm now (userKey request.userSub) buckets with
  | (buckets, none) => (buckets, none)
  | (buckets, some (false, retryAfter)) => (buckets, some ⟨"user", retryAfter⟩)
  | (buckets, some (true, _)) =>
      match extractVendorSlug (L.urlPath request) with
      | none => (buckets, none)
      | some slug =>
          match evaluate L.userRpm now (userVendorKey request.userSub slug) buckets with
          | (buckets, some (false, retryAfter)) => (buckets, some ⟨"user_vendor", retryAfter⟩)
          | (buckets, _) => (buckets, none)

/-- What a route may depend on. -/
inductive Dependency where
  | getCurrentUser
  | getRedis
  | getDb
  | checkUserRateLimit

/-- The dependencies of `proxy`. -/
def proxyDependencies : List Dependency := [.getCurrentUser, .getRedis, .getDb]

/-- Dependencies are resolved in their order before the handler runs. Of an
authenticated request only the check reads and writes rate-limit keys. -/
def resolveDependencies (L : Limits) (now : ℚ) (request : Inbound) :
    List Dependency → Buckets → Buckets × Option Refusal
  | [], buckets => (buckets, none)
  | .checkUserRateLimit :: rest, buckets =>
      match checkUserRateLimit L now request buckets with
      | (buckets, some refusal) => (buckets, some refusal)
      | (buckets, none) => resolveDependencies L now request rest buckets
  | _ :: rest, buckets => resolveDependencies L now request rest buckets

/-- Where a request is before its handler runs. -/
inductive Gate where
  | outside
  | passed (request : Inbound)
  | refused (refusal : Refusal)
  | entered

/-- The request that is about to enter the route. -/
def Gate.request? : Gate → Option Inbound
  | .passed request => some request
  | _ => none

/-- The served application: the handlers, and what stands in front of them. -/
structure Front where
  routes : State
  buckets : Buckets
  gate : ℕ → Gate

inductive FrontEvent where
  | elapse (dt : ℚ)
  | receive (r : ℕ) (request : Inbound)
  | enter (r : ℕ)
  | handle (r : ℕ) (input : Input)

def Front.pass (s : Front) (r : ℕ) (gate : Gate) (buckets : Buckets) : Front :=
  { s with buckets := buckets, gate := Function.update s.gate r gate }

/-- A request runs through the middleware, then through the dependencies of the
route, then through its handler. -/
def front (D : Deployment) (L : Limits) : System Front FrontEvent where
  init s := D.machine.init s.routes ∧ (∀ key, s.buckets key = none) ∧ ∀ r, s.gate r = .outside
  step s
    | .elapse dt => (D.machine.step s.routes (.elapse dt)).map fun routes => { s with routes := routes }
    | .receive r request =>
        match s.gate r with
        | .outside =>
            match dispatch D L s.routes.now request s.buckets with
            | (buckets, none) => some (s.pass r (.passed request) buckets)
            | (buckets, some refusal) => some (s.pass r (.refused refusal) buckets)
        | _ => none
    | .enter r =>
        match s.gate r with
        | .passed request =>
            match resolveDependencies L s.routes.now request proxyDependencies s.buckets with
            | (buckets, some refusal) => some (s.pass r (.refused refusal) buckets)
            | (buckets, none) =>
                (D.machine.step s.routes (.deliver r (.arrive request))).map fun routes =>
                  { s.pass r .entered buckets with routes := routes }
        | _ => none
    | .handle r input =>
        match input with
        | .arrive _ => none
        | _ => (D.machine.step s.routes (.deliver r input)).map fun routes =>
            { s with routes := routes }

/-- The status code of the answer. -/
def outcomeStatus : Outcome → ℕ
  | .jobAccepted _ => 202
  | .relayed v => ((relayResponse v).map Http.Response.statusCode).getD 500
  | .fromCache c | .fromDedup c => ((cachedToResponse c).map Http.Response.statusCode).getD 500
  | .httpException status _ => status
  | .unhandled => 500

/-- A request that reached the route. -/
structure Entry where
  client : ℕ
  user : String
  time : ℚ

/-- History: the buckets that the check would keep if the route depended on it,
and the requests that reached the route, the newest first. -/
structure Shadow where
  buckets : Buckets
  entered : List Entry

def Shadow.start : Shadow := ⟨fun _ => none, []⟩

def recordEntry (L : Limits) (s : Front) (e : FrontEvent) (h : Shadow) : Shadow :=
  match e with
  | .enter r =>
      match (s.gate r).request? with
      | some request =>
          ⟨(checkUserRateLimit L s.routes.now request h.buckets).1,
            ⟨r, request.userSub, s.routes.now⟩ :: h.entered⟩
      | none => h
  | _ => h

def shadowed (D : Deployment) (L : Limits) : System (Front × Shadow) FrontEvent :=
  (front D L).withHistory .start (recordEntry L)

/-- A request reaches the route only when the check would let it pass. -/
def WouldPass (L : Limits) (p : Front × Shadow) : FrontEvent → Prop
  | .enter r => ∀ request ∈ (p.1.gate r).request?,
      (checkUserRateLimit L p.1.routes.now request p.2.buckets).2 = none
  | _ => True

instance (L : Limits) (p : Front × Shadow) (e : FrontEvent) : Decidable (WouldPass L p e) :=
  match e with
  | .enter _ => inferInstanceAs (Decidable (∀ request ∈ _, _))
  | .elapse _ | .receive _ _ | .handle _ _ => isTrue trivial

/-- The status code that a request is answered with by its handler. -/
def Front.statusCode (s : Front) (r : ℕ) : Option ℕ :=
  match s.routes.procs r with
  | .idle => none
  | .running _ _ => none
  | .finished _ outcome => some (outcomeStatus outcome)

/-- How many requests of a user reached the route within a window of time and
are answered with anything other than 429. -/
def Shadow.served (h : Shadow) (s : Front) (user : String) (start length : ℚ) : ℕ :=
  (h.entered.filter fun e => e.user = user ∧ (start ≤ e.time ∧ e.time ≤ start + length) ∧
    (s.statusCode e.client).any (· ≠ 429)).length

section Bound

variable {D : Deployment} {L : Limits} {s : Front} {h : Shadow} {now : ℚ} {key : String}
  {request : Inbound} {buckets : Buckets} {times : String → List ℚ}

/-- The times at which a user's requests reached the route. -/
def Shadow.arrivals (h : Shadow) (user : String) : List ℚ :=
  (h.entered.filter fun e => e.user = user).map Entry.time

/-- Every bucket is what is left of evaluations at these times, all allowed. -/
def Conforms (capacityRpm : ℤ) (now : ℚ) (buckets : Buckets) (times : String → List ℚ) : Prop :=
  ∀ key, buckets key = keptAfter capacityRpm (times key) ∧ AllAllowed capacityRpm (times key) ∧
    ∀ time ∈ times key, time ≤ now

theorem conforms_evaluate {capacityRpm : ℤ} {retryAfter : ℤ}
    (hConforms : Conforms capacityRpm now buckets times)
    (hAllowed : (evaluate capacityRpm now key buckets).2 = some (true, retryAfter)) :
    Conforms capacityRpm now (evaluate capacityRpm now key buckets).1
      (Function.update times key (now :: times key)) := by
  intro k
  by_cases hk : k = key
  · subst hk
    obtain ⟨hKept, hAll, hPast⟩ := hConforms k
    simp only [evaluate, hKept] at hAllowed ⊢
    rw [Function.update_self, Function.update_self]
    refine ⟨rfl, ⟨hPast, by rw [hAllowed]; rfl, hAll⟩, fun time hTime => ?_⟩
    rcases List.mem_cons.mp hTime with rfl | hOld
    · exact le_rfl
    · exact hPast time hOld
  · simp only [evaluate]
    rw [Function.update_of_ne hk, Function.update_of_ne hk]
    exact hConforms k

/-- With a positive capacity the script does not fail. -/
theorem evaluate_answers {capacityRpm : ℤ} (hCapacity : 1 ≤ capacityRpm) :
    ∃ isAllowed retryAfter,
      (evaluate capacityRpm now key buckets).2 = some (isAllowed, retryAfter) := by
  simp only [evaluate, checkRateLimit_eq hCapacity]
  split_ifs
  · exact ⟨true, 0, rfl⟩
  · exact ⟨false, _, rfl⟩

/-- A check that lets a request pass has taken a token from the user's bucket,
and then perhaps one from the user's bucket at the vendor. -/
theorem check_cases (hLimit : 1 ≤ L.userRpm)
    (hPass : (checkUserRateLimit L now request buckets).2 = none) :
    ∃ n, (evaluate L.userRpm now (userKey request.userSub) buckets).2 = some (true, n) ∧
      ((checkUserRateLimit L now request buckets).1 =
          (evaluate L.userRpm now (userKey request.userSub) buckets).1 ∨
        ∃ slug m, (evaluate L.userRpm now (userVendorKey request.userSub slug)
            (evaluate L.userRpm now (userKey request.userSub) buckets).1).2 = some (true, m) ∧
          (checkUserRateLimit L now request buckets).1 =
            (evaluate L.userRpm now (userVendorKey request.userSub slug)
              (evaluate L.userRpm now (userKey request.userSub) buckets).1).1) := by
  obtain ⟨isAllowed, n, hUser⟩ : ∃ isAllowed n, (evaluate L.userRpm now (userKey request.userSub)
    buckets).2 = some (isAllowed, n) := evaluate_answers hLimit
  rcases hFirst : evaluate L.userRpm now (userKey request.userSub) buckets with ⟨middle, answer⟩
  rw [hFirst] at hUser
  obtain rfl : answer = some (isAllowed, n) := hUser
  -- deriving the equation of the nested matches, as `unfold` does, takes long
  delta checkUserRateLimit at hPass ⊢
  simp only [hFirst] at hPass ⊢
  cases isAllowed with
  | false => cases hPass
  | true =>
      refine ⟨n, rfl, ?_⟩
      cases hSlug : extractVendorSlug (L.urlPath request) with
      | none => exact Or.inl rfl
      | some slug =>
          obtain ⟨isAllowed, m, hVendor⟩ : ∃ isAllowed m, (evaluate L.userRpm now
            (userVendorKey request.userSub slug) middle).2 = some (isAllowed, m) :=
            evaluate_answers hLimit
          rcases hSecond : evaluate L.userRpm now (userVendorKey request.userSub slug) middle with
            ⟨last, answer⟩
          rw [hSecond] at hVendor
          obtain rfl : answer = some (isAllowed, m) := hVendor
          simp only [hSlug, hSecond] at hPass ⊢
          cases isAllowed with
          | false => cases hPass
          | true => exact Or.inr ⟨slug, m, by rw [hSecond], by rw [hSecond]⟩

/-- A request that the check lets pass is one more evaluation of its user's bucket. -/
theorem conforms_check (hLimit : 1 ≤ L.userRpm) (hConforms : Conforms L.userRpm now buckets times)
    (hPass : (checkUserRateLimit L now request buckets).2 = none) :
    ∃ times', Conforms L.userRpm now (checkUserRateLimit L now request buckets).1 times' ∧
      (now :: times (userKey request.userSub)).Sublist (times' (userKey request.userSub)) ∧
      ∀ k, (times k).Sublist (times' k) := by
  have hGrows (times : String → List ℚ) (key k : String) :
      (times k).Sublist (Function.update times key (now :: times key) k) := by
    by_cases hk : k = key
    · subst hk
      rw [Function.update_self]
      exact List.sublist_cons_self ..
    · rw [Function.update_of_ne hk]
  have hTaken : (now :: times (userKey request.userSub)).Sublist (Function.update times
      (userKey request.userSub) (now :: times (userKey request.userSub))
      (userKey request.userSub)) := by
    rw [Function.update_self]
  obtain ⟨n, hUser, hSame | ⟨slug, m, hVendor, hSame⟩⟩ := check_cases hLimit hPass
  · rw [hSame]
    exact ⟨_, conforms_evaluate hConforms hUser, hTaken, hGrows times _⟩
  · rw [hSame]
    exact ⟨_, conforms_evaluate (conforms_evaluate hConforms hUser) hVendor,
      hTaken.trans (hGrows _ _ _), fun k => (hGrows times _ k).trans (hGrows _ _ k)⟩

theorem now_of_deliver {σ τ : State} {r : ℕ} {input : Input}
    (next : D.machine.step σ (.deliver r input) = some τ) : τ.now = σ.now := by
  rcases step_cases next with ⟨_, hEvent, _⟩ | ⟨_, _, _, _, _, _, rfl⟩
  · cases hEvent
  · rfl

theorem now_mono {t : Front} {e : FrontEvent} (next : (front D L).step s e = some t) :
    s.routes.now ≤ t.routes.now := by
  cases e with
  | elapse dt =>
      obtain ⟨routes, hStep, rfl⟩ := Option.map_eq_some_iff.mp next
      simp only [Deployment.machine] at hStep
      split_ifs at hStep with hdt
      obtain rfl := Option.some.inj hStep
      exact le_add_of_nonneg_right hdt
  | receive r request =>
      simp only [front] at next
      split at next
      · split at next <;> cases next <;> exact le_rfl
      · cases next
  | enter r =>
      simp only [front] at next
      split at next
      · split at next
        · cases next
          exact le_rfl
        · obtain ⟨routes, hStep, rfl⟩ := Option.map_eq_some_iff.mp next
          exact (now_of_deliver hStep).ge
      · cases next
  | handle r input =>
      simp only [front] at next
      split at next
      · cases next
      · obtain ⟨routes, hStep, rfl⟩ := Option.map_eq_some_iff.mp next
        exact (now_of_deliver hStep).ge

/-- The check's buckets are those of the arrivals, and every arrival was allowed. -/
def Tracked (L : Limits) (s : Front) (h : Shadow) : Prop :=
  ∃ times, Conforms L.userRpm s.routes.now h.buckets times ∧
    ∀ user, (h.arrivals user).Sublist (times (userKey user))

theorem Conforms.later {capacityRpm : ℤ} {later : ℚ}
    (hConforms : Conforms capacityRpm now buckets times) (hLater : now ≤ later) :
    Conforms capacityRpm later buckets times := fun key =>
  ⟨(hConforms key).1, (hConforms key).2.1, fun time hTime =>
    ((hConforms key).2.2 time hTime).trans hLater⟩

theorem tracked_enter (hLimit : 1 ≤ L.userRpm) (hTracked : Tracked L s h) {r : ℕ}
    (hGate : (s.gate r).request? = some request) (hPass : WouldPass L (s, h) (.enter r)) :
    Tracked L s (recordEntry L s (.enter r) h) := by
  obtain ⟨times, hConforms, hArrivals⟩ := hTracked
  obtain ⟨times', hConforms', hTaken, hGrows⟩ :=
    conforms_check hLimit hConforms (hPass request hGate)
  simp only [recordEntry, hGate]
  refine ⟨times', hConforms', fun user => ?_⟩
  by_cases hUser : request.userSub = user
  · subst hUser
    simp only [Shadow.arrivals, List.filter_cons, decide_true, if_true, List.map_cons]
    exact ((hArrivals request.userSub).cons_cons _).trans hTaken
  · simp only [Shadow.arrivals, List.filter_cons, hUser, decide_false, Bool.false_eq_true, if_false]
    exact (hArrivals user).trans (hGrows _)

theorem tracked_run (hLimit : 1 ≤ L.userRpm)
    (run : (shadowed D L).Reaches (WouldPass L) (s, h)) : Tracked L s h := by
  refine run.invariant (I := fun p => Tracked L p.1 p.2) (fun p hInit => ?_)
    fun p q e _ ih hPass next => ?_
  · obtain ⟨s, h⟩ := p
    obtain ⟨_, rfl⟩ := hInit
    exact ⟨fun _ => [], fun key => ⟨rfl, trivial, nofun⟩, fun user => .slnil⟩
  · obtain ⟨s, h⟩ := p
    obtain ⟨t, h'⟩ := q
    obtain ⟨hStep, rfl⟩ := System.withHistory_step next
    have hNow := now_mono hStep
    have hTracked : Tracked L s (recordEntry L s e h) := by
      cases e with
      | enter r =>
          cases hGate : (s.gate r).request? with
          | some request => exact tracked_enter hLimit ih hGate hPass
          | none =>
              simp only [recordEntry, hGate]
              exact ih
      | _ => exact ih
    obtain ⟨times, hConforms, hArrivals⟩ := hTracked
    exact ⟨times, hConforms.later hNow, hArrivals⟩

theorem served_le (user : String) (start length : ℚ) :
    h.served s user start length ≤
      ((h.arrivals user).filter fun time => start ≤ time ∧ time ≤ start + length).length := by
  simp only [Shadow.served, Shadow.arrivals, List.filter_map, List.length_map, List.filter_filter,
    ← List.countP_eq_length_filter]
  apply List.countP_mono_left
  intro e _ hCounted
  have hBoth := of_decide_eq_true hCounted
  simp [hBoth.1, hBoth.2.1]

end Bound

/-- As long as requests reach the route only when the check that it leaves out
would let them pass, no window serves a user more than the limit. -/
theorem user_limit_while_within {D : Deployment} {L : Limits} (hLimit : 1 ≤ L.userRpm) {s : Front}
    {h : Shadow} (run : (shadowed D L).Reaches (WouldPass L) (s, h)) (user : String) (start : ℚ)
    {length : ℚ} (hLength : 0 ≤ length) :
    (h.served s user start length : ℚ) ≤ L.userRpm + L.userRpm * length / 60 := by
  obtain ⟨times, hConforms, hArrivals⟩ := tracked_run hLimit run
  have hAllowed := (hConforms (userKey user)).2.1
  have hWithin := ((hArrivals user).filter fun time =>
    start ≤ time ∧ time ≤ start + length).length_le
  have hCount := (served_le (s := s) user start length).trans hWithin
  calc
    (h.served s user start length : ℚ) ≤ _ := Nat.cast_le.mpr hCount
    _ ≤ L.userRpm + (L.userRpm : ℚ) / 60 * length := window_of_allAllowed hLimit hAllowed start hLength
    _ = L.userRpm + L.userRpm * length / 60 := by ring

section Traces

/-- A user limit of one request per minute. -/
def oneLimits : Limits where
  userRpm := 1
  vendorRpm := 1000
  rateLimitRpm _ := 600
  urlPath request := "/vendors/" ++ request.vendorSlug ++ "/" ++ request.endpointPath

def frontStart : Front := ⟨sampleStart, fun _ => none, fun _ => .outside⟩

theorem init_frontStart : (shadowed (sampleDeployment 0) oneLimits).init (frontStart, .start) :=
  ⟨⟨init_sampleStart, fun _ => rfl, fun _ => rfl⟩, rfl⟩

/-- One request, from the middleware to the answer of the vendor. -/
def relay (r : ℕ) : List FrontEvent :=
  [.receive r (sampleRequest .get "p"), .enter r, .handle r .endpointRow,
    .handle r (.apiKeyRow none), .handle r .reply, .handle r .reply,
    .handle r (.vendor (.response ⟨200, [], []⟩)), .handle r .reply, .handle r .reply,
    .handle r .reply]

/-- An await fails, of Redis or of the database. -/
def FrontEvent.failing : FrontEvent → Bool
  | .handle _ (.raised _) => true
  | _ => false

/-- So many requests of the sample user are served within a time from the start on. -/
def servedWithin (length : ℚ) (count : ℕ) (p : Front × Shadow) : Bool :=
  p.2.served p.1 "u" 0 length == count

theorem user_limit_while_within_one : ∃ p,
    (shadowed (sampleDeployment 0) oneLimits).Reaches (WouldPass oneLimits) p ∧
      p.2.served p.1 "u" 0 30 = 1 ∧
      (p.2.served p.1 "u" 0 30 : ℚ) ≤ oneLimits.userRpm + oneLimits.userRpm * 30 / 60 := by
  obtain ⟨p, run, hServed⟩ := (System.Reaches.init init_frontStart).exec_any
    (by decide +kernel : ((shadowed (sampleDeployment 0) oneLimits).exec (WouldPass oneLimits)
      (frontStart, .start) (relay 0)).any (servedWithin 30 1) = true)
  exact ⟨p, run, eq_of_beq hServed, user_limit_while_within (by decide) run "u" 0 (by norm_num)⟩

/-- Two requests of one user at one instant, both answered by the vendor. -/
theorem user_limit_exceeded : ∃ p,
    (shadowed (sampleDeployment 0) oneLimits).Reaches (fun _ e => e.failing = false) p ∧
      1 ≤ oneLimits.userRpm ∧
      ¬(p.2.served p.1 "u" 0 0 : ℚ) ≤ oneLimits.userRpm + oneLimits.userRpm * 0 / 60 := by
  obtain ⟨p, run, hServed⟩ := (System.Reaches.init init_frontStart).exec_any
    (by decide +kernel : ((shadowed (sampleDeployment 0) oneLimits).exec
      (fun _ e => e.failing = false) (frontStart, .start) (relay 0 ++ relay 1)).any
        (servedWithin 0 2) = true)
  refine ⟨p, run, by decide, ?_⟩
  rw [eq_of_beq hServed]
  norm_num [oneLimits]

end Traces

end Gateway.Middleware

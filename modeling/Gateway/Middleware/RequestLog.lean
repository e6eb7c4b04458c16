import Gateway.Auth.CurrentUser
import Gateway.Middleware.Paths
import Gateway.Routes.Relay

/-! The request log of `LoggingMiddleware` and the request counter of
`TracingMiddleware`, and whether they tell the truth about a proxied request.
The two learn of it from the response and from `request.state`. Durations and
spans are left out. -/
namespace Gateway.Middleware

open Http Text Transition Gateway.Auth Gateway.Cache Gateway.Routes Gateway.Vendors

/-- The attributes of `request.state` that the gateway reads or writes. -/
structure RequestState where
  traceId : Option String
  spanId : Option String
  user : Option UserIdentity

/-- The record that `LoggingMiddleware` emits; `None` for a user is null. -/
structure LogRecord where
  event : String
  traceId : String
  spanId : Option String
  userId : Json.Value
  serviceAccount : Bool
  vendorSlug : Option String
  endpoint : Option String
  method : String
  statusCode : Option ℕ
  cacheHit : Bool
  quotaRemaining : Option ℤ

/-- An increment of `gateway_requests_total`, with the values that are passed as
its labels. -/
structure RequestLabels where
  vendor : String
  endpoint : String
  status : String
  user : Json.Value

/-- What the parts of the application have in common while they serve a request,
and what they have emitted so far. -/
structure Scope where
  state : RequestState
  log : List LogRecord
  requestsTotal : List RequestLabels

/-- A part of the application ends with a response, or raises. -/
abbrev App := Scope → Scope × Option Response

/-- What both middlewares read of a request and of its span. The span's two
identifiers are there when its context is valid. -/
structure Arrival where
  method : String
  path : String
  span : Option (String × String)
  uuid : String

/-- `headers.get(name)` of a response: the first of its lines. -/
def headerOf (response : Response) (name : String) : Option String :=
  (values response.lines name).head?

/-- `value.upper() == "HIT"`. In Latin-1 no other letters have these upper forms. -/
def saysHit (value : String) : Bool := decide (value.toList.map Char.toUpper = "HIT".toList)

/-- The white space of Latin-1. -/
def isSpace (c : Char) : Bool :=
  decide (c.toNat ∈ [9, 10, 11, 12, 13, 28, 29, 30, 31, 32, 133, 160])

/-- Digits with single underscores between them, and not too many. -/
def natOf? (chars : List Char) : Option ℕ :=
  let groups := chars.splitOn '_'
  if (groups.all fun group => !group.isEmpty && group.all Char.isDigit) &&
      decide (groups.flatten.length ≤ 4300) then
    some (Nat.ofDigitChars 10 groups.flatten 0)
  else none

/-- `int(value)` of a header value. -/
def intOf? (value : String) : Option ℤ :=
  match ((value.toList.dropWhile isSpace).reverse.dropWhile isSpace).reverse with
  | '-' :: digits => (natOf? digits).map fun n => -(n : ℤ)
  | '+' :: digits => (natOf? digits).map Int.ofNat
  | digits => (natOf? digits).map Int.ofNat

namespace Logging

/-- `_get_trace_ids` -/
def getTraceIds (arrival : Arrival) : String × Option String :=
  match arrival.span with
  | some (traceId, spanId) => (traceId, some spanId)
  | none => (arrival.uuid, none)

/-- The record for what `call_next` has ended with. -/
def record (arrival : Arrival) (state : RequestState) (response : Option Response) : LogRecord where
  event := if response.isSome then "request.complete" else "request.error"
  traceId := (getTraceIds arrival).1
  spanId := (getTraceIds arrival).2
  userId := (state.user.map UserIdentity.sub).getD .null
  serviceAccount := (state.user.map UserIdentity.isServiceAccount).getD false
  vendorSlug := (parseVendorAndEndpoint arrival.path).1
  endpoint := (parseVendorAndEndpoint arrival.path).2
  method := arrival.method
  statusCode := response.map Response.statusCode
  cacheHit := (response.bind fun response => headerOf response "X-Cache").any saysHit
  quotaRemaining := (response.bind fun response => headerOf response "X-Quota-Remaining").bind intOf?

/-- `LoggingMiddleware.dispatch` -/
def dispatch (arrival : Arrival) (callNext : App) : App := fun scope =>
  let state := { scope.state with traceId := some (getTraceIds arrival).1 }
  let (scope, response) := callNext { scope with state := state }
  ({ scope with log := scope.log ++ [record arrival scope.state response] }, response)

end Logging

namespace Tracing

/-- The labels for what `call_next` has ended with. -/
def labels (arrival : Arrival) (state : RequestState) (response : Option Response) :
    RequestLabels where
  vendor := (parseVendorAndEndpoint arrival.path).1
  endpoint := (parseVendorAndEndpoint arrival.path).2
  status := toString ((response.map Response.statusCode).getD 500)
  user := (state.user.map UserIdentity.sub).getD (.str "anonymous")

/-- `TracingMiddleware.dispatch` -/
def dispatch (arrival : Arrival) (callNext : App) : App := fun scope =>
  let (traceId, spanId) := arrival.span.getD
    ("00000000000000000000000000000000", "0000000000000000")
  let state := { scope.state with traceId := some traceId, spanId := some spanId }
  let (scope, response) := callNext { scope with state := state }
  ({ scope with requestsTotal := scope.requestsTotal ++ [labels arrival scope.state response] },
    response)

end Tracing

/-- A JSON answer of the framework. -/
def jsonResponse (statusCode : ℕ) (headers : Lines) (content : Bytes) : Response :=
  ⟨statusCode, headers ++ [("content-length", Nat.repr content.length),
    ("content-type", "application/json")], content⟩

/-- The JSON documents of the answers that are not relayed, and of a refusal to
authenticate. -/
structure Documents where
  outcome : Routes.Outcome → Bytes
  refusal : ℕ → Bytes

/-- What the handler `proxy` answers; an exception that it does not handle is raised. -/
def answer (documents : Documents) (outcome : Routes.Outcome) : Option Response :=
  match outcome with
  | .jobAccepted _ => some (jsonResponse 202 [] (documents.outcome outcome))
  | .relayed _ | .fromCache _ | .fromDedup _ => outcome.response
  | .httpException status _ => some (jsonResponse status [] (documents.outcome outcome))
  | .unhandled => none

/-- The proxy route: the dependency `get_current_user`, then the handler, which
ends with the given outcome. Neither of them assigns to `request.state`. -/
def route (documents : Documents) (identity : Auth.Outcome UserIdentity)
    (outcome : Routes.Outcome) : App := fun scope =>
  match identity with
  | .ok _ => (scope, answer documents outcome)
  | .http statusCode =>
      (scope, some (jsonResponse statusCode [("www-authenticate", "Bearer")]
        (documents.refusal statusCode)))
  | .escaped => (scope, none)

/-- The application, for a request that the rate limiter lets pass. -/
def app (arrival : Arrival) (endpoint : App) : App :=
  Tracing.dispatch arrival (Logging.dispatch arrival endpoint)

/-- A request comes in with nothing in its state. -/
def Scope.start : Scope := ⟨⟨none, none, none⟩, [], []⟩

/-- The request was served, from `get_cached` or `dedup_wait`. -/
def servedShared (outcome : Routes.Outcome) : Bool :=
  outcome.shared.isSome && outcome.response.isSome

/-- The one record says whether the response is shared, and so does the only
X-Cache line of the response, if there is one. -/
structure TruthfulCache (shared : Bool) (result : Scope × Option Response) : Prop where
  record : ∃ record, result.1.log = [record] ∧ record.cacheHit = shared
  lines : ∀ response ∈ result.2, (values response.lines "x-cache").length ≤ 1 ∧
    ∀ value ∈ values response.lines "x-cache", saysHit value = shared

/-- The one record and the one increment name the caller. -/
structure TruthfulCaller (user : UserIdentity) (result : Scope × Option Response) : Prop where
  record : ∃ record, result.1.log = [record] ∧ record.userId = user.sub
  labels : ∃ labels, result.1.requestsTotal = [labels] ∧ labels.user = user.sub

structure Truthful (user : UserIdentity) (shared : Bool) (result : Scope × Option Response) :
    Prop where
  cache : TruthfulCache shared result
  caller : TruthfulCaller user result

/-- The vendor has sent no X-Cache line with the response, where it is shared, and
none that says a hit, where it is its own answer to the request; or the headers of the
vendor cannot be sent at all. -/
def Quiet (outcome : Routes.Outcome) : Prop :=
  outcome.response.isSome = true →
    match outcome with
    | .relayed v => ∀ value ∈ (joinLines v.headers).get? "x-cache", saysHit value = false
    | .fromCache c | .fromDedup c =>
        ∀ f : Fetched, c = f.cached → hasLine f.response.headers "x-cache" = false
    | .jobAccepted _ | .httpException _ _ | .unhandled => True

section Emitted

variable {arrival : Arrival} {documents : Documents} {user : UserIdentity}
  {outcome : Routes.Outcome} {shared : Bool} {response : Response}

/-- What an authenticated request has emitted. Nobody has put the user into the state. -/
theorem app_route (arrival : Arrival) (documents : Documents) (user : UserIdentity)
    (outcome : Routes.Outcome) :
    ∃ state : RequestState, state.user = none ∧
      app arrival (route documents (.ok user) outcome) .start =
        (⟨state, [Logging.record arrival state (answer documents outcome)],
          [Tracing.labels arrival state (answer documents outcome)]⟩, answer documents outcome) := by
  let state : RequestState :=
    { traceId := some (Logging.getTraceIds arrival).1
      spanId := some (arrival.span.getD
        ("00000000000000000000000000000000", "0000000000000000")).2
      user := none }
  exact ⟨state, rfl, rfl⟩

/-- No user is named null in the log and "anonymous" in the counter. -/
theorem not_truthfulCaller :
    ¬TruthfulCaller user (app arrival (route documents (.ok user) outcome) .start) := by
  obtain ⟨state, hNone, hApp⟩ := app_route arrival documents user outcome
  rw [hApp]
  rintro ⟨⟨record, hLog, hRecord⟩, labels, hTotal, hLabels⟩
  obtain rfl := List.singleton_inj.mp hLog
  obtain rfl := List.singleton_inj.mp hTotal
  have hNull : user.sub = .null := by
    rw [← hRecord]
    simp [Logging.record, hNone]
  have hAnonymous : user.sub = .str "anonymous" := by
    rw [← hLabels]
    simp [Tracing.labels, hNone]
  rw [hNull] at hAnonymous
  cases hAnonymous

theorem headerOf_xCache (response : Response) :
    headerOf response "X-Cache" = (values response.lines "x-cache").head? := by
  have hLower : lower "X-Cache" = lower "x-cache" := by decide +kernel
  simp only [headerOf, values, hLower]

/-- Both the log and the client go by the X-Cache lines of the response. -/
theorem truthfulCache_iff (hAnswer : answer documents outcome = some response) :
    TruthfulCache shared (app arrival (route documents (.ok user) outcome) .start) ↔
      (values response.lines "x-cache").head?.any saysHit = shared ∧
        (values response.lines "x-cache").length ≤ 1 ∧
        ∀ value ∈ values response.lines "x-cache", saysHit value = shared := by
  obtain ⟨state, -, hApp⟩ := app_route arrival documents user outcome
  rw [hApp, hAnswer]
  have hRecord : (Logging.record arrival state (some response)).cacheHit =
      (values response.lines "x-cache").head?.any saysHit := by
    rw [← headerOf_xCache]
    rfl
  constructor
  · rintro ⟨⟨record, hLog, hHit⟩, hLines⟩
    obtain rfl := List.singleton_inj.mp hLog
    rw [hRecord] at hHit
    exact ⟨hHit, hLines response rfl⟩
  · rintro ⟨hHit, hLines⟩
    refine ⟨⟨_, rfl, hRecord.trans hHit⟩, fun response' hSame => ?_⟩
    cases hSame
    exact hLines

theorem truthfulCache_of_raised (hAnswer : answer documents outcome = none) :
    TruthfulCache false (app arrival (route documents (.ok user) outcome) .start) := by
  obtain ⟨state, -, hApp⟩ := app_route arrival documents user outcome
  rw [hApp, hAnswer]
  exact ⟨⟨_, rfl, rfl⟩, fun response hSome => by cases hSome⟩

/-- A JSON answer has no X-Cache line. -/
theorem values_jsonResponse (statusCode : ℕ) (content : Bytes) :
    values (jsonResponse statusCode [] content).lines "x-cache" = [] := by
  have hLength : lower "content-length" ≠ lower "x-cache" := by decide +kernel
  have hType : lower "content-type" ≠ lower "x-cache" := by decide +kernel
  simp [jsonResponse, values, hLength, hType]

end Emitted

section Lines

variable {headers : Dict String String} {lines : Lines} {name : String}

/-- The server library changes the names to lower case and adds a line of its own. -/
theorem values_build {content : Bytes} {statusCode : ℕ}
    (hName : lower "content-length" ≠ lower name) :
    values (Response.build content statusCode headers).lines name = values headers.items name := by
  have hLower : values (headers.items.map fun e => (lower e.1, e.2)) name =
      values headers.items name := by
    simp only [values, List.filter_map, Function.comp_def, lower_lower, List.map_map]
  unfold Response.build
  simp only
  split_ifs
  · exact hLower
  · rw [values_append, hLower]
    simp [values, hName]

/-- In a dictionary of lower-case names a name has its value as its only line. -/
theorem values_lower (hLower : ∀ k ∈ headers.keys, lower k = k) (hName : lower name = name) :
    values headers.items name = (headers.get? name).toList := by
  cases hGet : headers.get? name with
  | none =>
      apply values_eq_nil
      by_contra hHas
      rw [Bool.not_eq_false, hasLine_iff] at hHas
      obtain ⟨e, hMem, hSame⟩ := hHas
      rw [hLower e.1 (List.mem_map_of_mem hMem), hName] at hSame
      have hSome : headers.get? name = some e.2 := Dict.get?_eq_some.mpr (hSame ▸ hMem)
      rw [hGet] at hSome
      cases hSome
  | some value =>
      rw [Option.toList_some, values_dict (Dict.get?_eq_some.mp hGet)]
      intro k hk hSame
      rw [hLower k hk, hName] at hSame
      exact hSame

theorem get?_filterResponseHeaders (hName : lower name ∉ hopByHop) :
    (filterResponseHeaders headers).get? name = headers.get? name := by
  apply Option.ext
  intro value
  rw [Dict.get?_eq_some, Dict.get?_eq_some, filterResponseHeaders, Dict.filterKeys, List.mem_filter]
  exact and_iff_left (decide_eq_true hName)

theorem lower_keys_filterResponseHeaders (hLower : ∀ k ∈ headers.keys, lower k = k) :
    ∀ k ∈ (filterResponseHeaders headers).keys, lower k = k := by
  intro k hk
  exact hLower k ((List.filter_sublist.map Prod.fst).subset hk)

/-- The X-Cache line of a vendor as it comes through the filter. -/
theorem values_relayed (lines : Lines) :
    values (filterResponseHeaders (joinLines lines)).items "x-cache" =
      ((joinLines lines).get? "x-cache").toList := by
  rw [values_lower (lower_keys_filterResponseHeaders fun k hk => lower_of_mem_joinLines hk)
    (by decide +kernel), get?_filterResponseHeaders (by decide +kernel)]

theorem get?_joinLines_eq_none :
    (joinLines lines).get? "x-cache" = none ↔ hasLine lines "x-cache" = false := by
  have hName : lower "x-cache" = "x-cache" := by decide +kernel
  have hKeys : ((joinLines lines).get? "x-cache").isSome = true ↔ hasLine lines "x-cache" = true := by
    rw [hasLine_iff, hName, ← mem_keys_joinLines, Option.isSome_iff_exists]
    constructor
    · rintro ⟨value, hGet⟩
      exact List.mem_map_of_mem (Dict.get?_eq_some.mp hGet)
    · intro hMem
      obtain ⟨e, hMem, hSame⟩ := List.mem_map.mp hMem
      exact ⟨e.2, Dict.get?_eq_some.mpr (hSame ▸ hMem)⟩
  rw [← Option.isNone_iff_eq_none, ← Option.not_isSome, Bool.not_eq_true', Bool.eq_false_iff,
    Bool.eq_false_iff]
  exact not_congr hKeys

/-- A shared response has the X-Cache line of the gateway behind that of the vendor. -/
theorem values_cached {f : Fetched} {response : Response}
    (h : cachedToResponse f.cached = some response) : values response.lines "x-cache" =
      ((joinLines f.response.headers).get? "x-cache").toList ++ ["HIT"] := by
  obtain ⟨-, rfl⟩ := Response.make_eq_some.mp h
  have hLower : ∀ k ∈ (filterResponseHeaders f.cached.headers).keys, lower k = k :=
    lower_keys_filterResponseHeaders (lower_keys_filterResponseHeaders fun k hk =>
      lower_of_mem_joinLines hk)
  have hNew : "X-Cache" ∉ (filterResponseHeaders f.cached.headers).keys := by
    intro hMem
    have hSame := hLower "X-Cache" hMem
    exact absurd hSame (by decide +kernel)
  have hName : lower "X-Cache" = lower "x-cache" := by decide +kernel
  rw [values_build (by decide +kernel), Dict.items_insert hNew, values_append,
    values_lower hLower (by decide +kernel), get?_filterResponseHeaders (by decide +kernel),
    Fetched.cached, get?_filterResponseHeaders (by decide +kernel)]
  simp [values, hName]

end Lines

section Truth

variable {arrival : Arrival} {documents : Documents} {user : UserIdentity}

/-- Relayed from the vendor, a response is no hit unless the vendor says so. -/
theorem truthfulCache_relayed (v : VendorResponse) :
    TruthfulCache false (app arrival (route documents (.ok user) (.relayed v)) .start) ↔
      Quiet (.relayed v) := by
  cases hResponse : relayResponse v with
  | none =>
      refine iff_of_true (truthfulCache_of_raised hResponse) fun hSome => ?_
      rw [Outcome.response, hResponse] at hSome
      cases hSome
  | some response =>
      have hSent : Outcome.response (.relayed v) = some response := hResponse
      have hAnswer : answer documents (.relayed v) = some response := hResponse
      obtain ⟨-, rfl⟩ := Response.make_eq_some.mp hResponse
      rw [truthfulCache_iff hAnswer, values_build (by decide +kernel), values_relayed]
      simp only [Quiet, hSent, Option.isSome_some, true_implies]
      cases (joinLines v.headers).get? "x-cache" <;> simp

/-- A shared response has one X-Cache line unless the vendor has sent one too. -/
theorem truthfulCache_cached {outcome : Routes.Outcome} {f : Fetched} {response : Response}
    (hAnswer : answer documents outcome = some response)
    (hResponse : cachedToResponse f.cached = some response) :
    TruthfulCache true (app arrival (route documents (.ok user) outcome) .start) ↔
      hasLine f.response.headers "x-cache" = false := by
  rw [truthfulCache_iff hAnswer, values_cached hResponse, ← get?_joinLines_eq_none]
  cases (joinLines f.response.headers).get? "x-cache" with
  | none =>
      have hHit : saysHit "HIT" = true := by decide
      simp [hHit]
  | some value => simp

theorem quiet_shared {c : CachedResponse} {outcome : Routes.Outcome} {f : Fetched}
    (hShared : outcome.shared = some c) (hFetched : c = f.cached)
    (hSent : outcome.response.isSome = true) :
    Quiet outcome ↔ hasLine f.response.headers "x-cache" = false := by
  have hSame (f : Fetched) : hasLine f.response.headers "x-cache" = false ↔
      f.cached.headers.get? "x-cache" = none := by
    rw [← get?_joinLines_eq_none, Fetched.cached, get?_filterResponseHeaders (by decide +kernel)]
  have hAll : (∀ f' : Fetched, c = f'.cached → hasLine f'.response.headers "x-cache" = false) ↔
      hasLine f.response.headers "x-cache" = false := by
    constructor
    · intro h
      exact h f hFetched
    · intro h f' hFetched'
      rw [hSame, ← hFetched', hFetched, ← hSame]
      exact h
  cases outcome with
  | fromCache c' | fromDedup c' =>
      obtain rfl := Option.some.inj hShared
      simp only [Quiet, hSent, true_implies]
      exact hAll
  | _ => cases hShared

/-- A response that is shared, and can be sent, or cannot. -/
theorem truthfulCache_shared {c : CachedResponse} {outcome : Routes.Outcome} {f : Fetched}
    (hShared : outcome.shared = some c) (hFetched : c = f.cached) :
    TruthfulCache (servedShared outcome)
      (app arrival (route documents (.ok user) outcome) .start) ↔ Quiet outcome := by
  have hAnswer : answer documents outcome = outcome.response ∧
      outcome.response = cachedToResponse f.cached := by
    cases outcome with
    | fromCache c' | fromDedup c' =>
        obtain rfl := Option.some.inj hShared
        exact ⟨rfl, by rw [Outcome.response, hFetched]⟩
    | _ => cases hShared
  cases hResponse : outcome.response with
  | none =>
      have hServed : servedShared outcome = false := by simp [servedShared, hResponse]
      rw [hServed]
      refine iff_of_true (truthfulCache_of_raised (hAnswer.1.trans hResponse)) fun hSome => ?_
      rw [hResponse] at hSome
      cases hSome
  | some response =>
      have hServed : servedShared outcome = true := by simp [servedShared, hResponse, hShared]
      rw [hServed, quiet_shared hShared hFetched (by simp [hResponse])]
      exact truthfulCache_cached (hAnswer.1.trans hResponse) (hAnswer.2.symm.trans hResponse)

/-- In every run the log and the client are told whether a response is shared
exactly if the vendor is quiet about it. -/
theorem truthfulCache_iff_quiet {D : Deployment} {s : State}
    (run : D.machine.Reaches System.anyRun s) {r : ℕ} {request : Inbound}
    {outcome : Routes.Outcome} (hProc : s.procs r = .finished request outcome) :
    TruthfulCache (servedShared outcome)
      (app arrival (route documents (.ok user) outcome) .start) ↔ Quiet outcome := by
  have hJson (statusCode : ℕ) (hAnswer : answer documents outcome =
        some (jsonResponse statusCode [] (documents.outcome outcome))) :
      TruthfulCache false (app arrival (route documents (.ok user) outcome) .start) := by
    rw [truthfulCache_iff hAnswer, values_jsonResponse]
    exact ⟨rfl, Nat.zero_le 1, nofun⟩
  cases outcome with
  | jobAccepted jobId => exact iff_of_true (hJson 202 rfl) fun _ => trivial
  | relayed v => exact truthfulCache_relayed v
  | fromCache c =>
      obtain ⟨f, hFetched⟩ := fetched_of_run run hProc rfl
      exact truthfulCache_shared rfl hFetched
  | fromDedup c =>
      obtain ⟨f, hFetched⟩ := fetched_of_run run hProc rfl
      exact truthfulCache_shared rfl hFetched
  | httpException status detail => exact iff_of_true (hJson status rfl) fun _ => trivial
  | unhandled => exact iff_of_true (truthfulCache_of_raised rfl) fun _ => trivial

end Truth

/-- Whoever the caller is and whatever the vendor sends, the log and the counter
do not name the caller of a proxied request; what they and the client learn about
the cache is true exactly if the vendor is quiet about it. -/
theorem request_log_untruthful {Key : Type*} {L : TokenLibrary Key} {w : World Key}
    {credentials : Option String} {user : UserIdentity}
    (hUser : getCurrentUser L w credentials = .ok user) {D : Deployment} {s : State}
    (run : D.machine.Reaches System.anyRun s) {r : ℕ} {request : Inbound}
    {outcome : Routes.Outcome} (hProc : s.procs r = .finished request outcome)
    (arrival : Arrival) (documents : Documents) :
    ¬Truthful user (servedShared outcome)
        (app arrival (route documents (getCurrentUser L w credentials) outcome) .start) ∧
      (TruthfulCache (servedShared outcome)
          (app arrival (route documents (getCurrentUser L w credentials) outcome) .start) ↔
        Quiet outcome) := by
  rw [hUser]
  exact ⟨fun hTruthful => not_truthfulCaller hTruthful.caller, truthfulCache_iff_quiet run hProc⟩

section Sample

/-- The portal knows whose token it is. -/
def knownToken : World Unit :=
  { unreachable with
    portal := .response 200 (some (.obj [("valid", .bool true), ("user_id", .str "u")])) }

theorem user_knownToken : ∃ user, getCurrentUser rejecting knownToken (some "tok_1") = .ok user ∧
    user.sub = .str "u" := by
  have hRoute : isPortalToken "tok_1" = true := by decide
  simp only [getCurrentUser, hRoute, if_true]
  exact ⟨_, rfl, rfl⟩

/-- A request is answered by the vendor, and the same request again from the cache. -/
def answeredTwice (headers : Lines) : List Event :=
  upToLock 0 (sampleRequest .get "p") ++
    [.deliver 0 .reply, .deliver 0 (.vendor (.response ⟨200, headers, []⟩)), .deliver 0 .reply,
      .deliver 0 .reply, .deliver 0 .reply, .deliver 0 .reply] ++
    upToLock 1 (sampleRequest .get "p")

def outcomeOf : Proc → Option Routes.Outcome
  | .idle => none
  | .running _ _ => none
  | .finished _ outcome => some outcome

theorem finished_of_outcomeOf {proc : Proc} {outcome : Routes.Outcome}
    (h : outcomeOf proc = some outcome) : ∃ request, proc = .finished request outcome := by
  cases proc with
  | finished request outcome' =>
      obtain rfl := Option.some.inj h
      exact ⟨request, rfl⟩
  | _ => cases h

def relays (headers : Lines) : Routes.Outcome → Bool
  | .relayed v => decide (v.headers = headers)
  | .jobAccepted _ | .fromCache _ | .fromDedup _ | .httpException _ _ | .unhandled => false

def hits : Routes.Outcome → Bool
  | .fromCache c => (cachedToResponse c).isSome
  | .jobAccepted _ | .relayed _ | .fromDedup _ | .httpException _ _ | .unhandled => false

/-- The first request is answered with these headers, and the second one from the cache. -/
def answersBoth (headers : Lines) (s : State) : Bool :=
  (outcomeOf (s.procs 0)).any (relays headers) && (outcomeOf (s.procs 1)).any hits

theorem of_answersBoth {headers : Lines} {s : State} (h : answersBoth headers s = true) :
    ∃ request v request' c, s.procs 0 = .finished request (.relayed v) ∧ v.headers = headers ∧
      s.procs 1 = .finished request' (.fromCache c) ∧ servedShared (.fromCache c) = true := by
  obtain ⟨hFirst, hSecond⟩ := Bool.and_eq_true_iff.mp h
  obtain ⟨outcome, hOutcome, hRelays⟩ := (Option.any_eq_true _ _).mp hFirst
  obtain ⟨outcome', hOutcome', hHits⟩ := (Option.any_eq_true _ _).mp hSecond
  obtain ⟨request, hProc⟩ := finished_of_outcomeOf hOutcome
  obtain ⟨request', hProc'⟩ := finished_of_outcomeOf hOutcome'
  cases outcome with
  | relayed v =>
      cases outcome' with
      | fromCache c =>
          exact ⟨request, v, request', c, hProc, of_decide_eq_true hRelays, hProc', by
            simpa [servedShared, Outcome.shared, Outcome.response, hits] using hHits⟩
      | _ => cases hHits
  | _ => cases hRelays

def sampleArrival : Arrival := ⟨"GET", "/vendors/v/p", none, "0"⟩

def noDocuments : Documents := ⟨fun _ => [], fun _ => []⟩

theorem request_log_untruthful_cached : ∃ (s : State) (request : Inbound) (c : CachedResponse)
    (user : UserIdentity),
    s.procs 1 = .finished request (.fromCache c) ∧
      ¬Truthful user true (app sampleArrival (route noDocuments
        (getCurrentUser rejecting knownToken (some "tok_1")) (.fromCache c)) .start) ∧
      (TruthfulCache true (app sampleArrival (route noDocuments
          (getCurrentUser rejecting knownToken (some "tok_1")) (.fromCache c)) .start) ↔
        Quiet (.fromCache c)) := by
  obtain ⟨user, hUser, -⟩ := user_knownToken
  obtain ⟨s, run, hBoth⟩ :=
    (System.Reaches.init (init_sampleStart : (sampleDeployment 60).machine.init sampleStart)).exec_any
      (by decide +kernel : ((sampleDeployment 60).machine.exec System.anyRun sampleStart
        (answeredTwice [])).any (answersBoth []) = true)
  obtain ⟨-, -, request, c, -, -, hProc, hShared⟩ := of_answersBoth hBoth
  refine ⟨s, request, c, user, hProc, ?_⟩
  rw [← hShared]
  exact request_log_untruthful hUser run hProc sampleArrival noDocuments

/-- The vendor says a hit of its own: the log does too, and it names nobody. -/
theorem request_log_wrong : ∃ (s : State) (request : Inbound) (v : VendorResponse)
    (user : UserIdentity), (sampleDeployment 60).machine.Reaches System.anyRun s ∧
      s.procs 0 = .finished request (.relayed v) ∧
      getCurrentUser rejecting knownToken (some "tok_1") = .ok user ∧ user.sub = .str "u" ∧
      ¬Truthful user false (app sampleArrival (route noDocuments (.ok user) (.relayed v)) .start) ∧
      ¬TruthfulCache false
        (app sampleArrival (route noDocuments (.ok user) (.relayed v)) .start) := by
  obtain ⟨user, hUser, hSub⟩ := user_knownToken
  obtain ⟨s, run, hBoth⟩ :=
    (System.Reaches.init (init_sampleStart : (sampleDeployment 60).machine.init sampleStart)).exec_any
      (by decide +kernel : ((sampleDeployment 60).machine.exec System.anyRun sampleStart
        (answeredTwice [("X-Cache", "HIT")])).any (answersBoth [("X-Cache", "HIT")]) = true)
  obtain ⟨request, v, -, -, hProc, hHeaders, -, -⟩ := of_answersBoth hBoth
  refine ⟨s, request, v, user, run, hProc, hUser, hSub,
    fun hTruthful => not_truthfulCaller hTruthful.caller, fun hTruthful => ?_⟩
  have hQuiet := (truthfulCache_relayed v).mp hTruthful
  have hHit : (joinLines v.headers).get? "x-cache" = some "HIT" := by
    rw [hHeaders]
    decide +kernel
  have hSent : (relayResponse v).isSome = true := by
    rw [relayResponse, Response.make_isSome, hHeaders]
    decide +kernel
  have hSays : saysHit "HIT" = false := hQuiet hSent "HIT" hHit
  exact absurd hSays (by decide)

end Sample

end Gateway.Middleware

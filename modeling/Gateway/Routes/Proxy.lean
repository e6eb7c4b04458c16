import Gateway.Cache.Dedup
import Gateway.Quota.Tracker
import Gateway.Semantics.Jsonb
import Gateway.Semantics.Utf8
import Gateway.Vendors.Client

/-! `gateway/routes/proxy.py`: the handler `proxy` together with the coroutines
it awaits. A program point is an `await`; the functions named `after...` are the
code between two of them. -/
namespace Gateway.Routes

open Http Text Gateway.Cache Gateway.Db Gateway.Quota Gateway.Vendors

/-- `_HOP_BY_HOP` -/
def hopByHop : List String :=
  ["connection", "keep-alive", "proxy-authenticate", "proxy-authorization", "te", "trailers",
    "transfer-encoding", "upgrade"]

/-- `_filter_response_headers` -/
def filterResponseHeaders (headers : Dict String String) : Dict String String :=
  headers.filterKeys fun k => lower k ∉ hopByHop

/-- `_cached_to_response`; `none` where `Response` raises. -/
def cachedToResponse (cached : CachedResponse) : Option Response :=
  Response.make cached.body cached.statusCode
    ((filterResponseHeaders cached.headers).insert "X-Cache" "HIT")

/-- The response built from the vendor's own answer; `none` where `Response` raises. -/
def relayResponse (r : VendorResponse) : Option Response :=
  Response.make r.content r.statusCode (filterResponseHeaders (joinLines r.headers))

/-- An authenticated request to the proxy route. The server interface delivers
header names in lower case. -/
structure Inbound where
  method : Method
  vendorSlug : String
  endpointPath : String
  query : List (String × String)
  headers : Lines
  headers_lower : ∀ line ∈ headers, lower line.1 = line.1
  body : Bytes
  userSub : String
  deriving DecidableEq

/-- `dict(request.query_params)` -/
def Inbound.params (request : Inbound) : Dict String String := Dict.ofList request.query

/-- `forward_headers` -/
def Inbound.forwardHeaders (request : Inbound) : Dict String String :=
  Dict.ofList (request.headers.filter fun line =>
    lower line.1 ∉ hopByHop ∧ lower line.1 ∉ ["host", "authorization"])

/-- The call of `VendorClient.request` on the synchronous path. -/
def Inbound.vendorCall (request : Inbound) : VendorCall where
  method := request.method.name
  path := request.endpointPath
  headers := request.forwardHeaders
  content := some request.body
  params := if request.params.items = [] then none else some request.params
  timeout := none

/-- `request_payload` of an asynchronous job. -/
def Inbound.requestPayload (request : Inbound) : Jsonb.Object :=
  let forwardHdrs := Dict.ofList (request.headers.map fun line => (lower line.1, line.2))
  let storedHeaders := forwardHdrs.filterKeys fun k => lower k ≠ "authorization"
  { items :=
      [("method", .str request.method.name), ("path", .str request.endpointPath),
        ("params", .obj request.params),
        ("body", if request.body = [] then .null else .str (decodeReplace request.body)),
        ("forward_headers", .obj (forwardHdrs.filterKeys fun k => k ∉ ["host", "authorization"])),
        ("headers", .obj storedHeaders)]
    nodup := by simp }

/-- What is fixed while the gateway runs: the registry, the rows of the database
and the hash function. The identifiers of API keys are a primary key. -/
structure Deployment where
  sha256 : Sha256
  registry : String → Option VendorConfig
  adapterBuilds : VendorConfig → Bool
  endpoints : List VendorEndpoint
  apiKeys : List VendorApiKey
  apiKeys_id : ∀ k ∈ apiKeys, ∀ k' ∈ apiKeys, k.id = k'.id → k = k'

/-- `scalar_one_or_none` of the endpoint query; `none` when it raises because
several rows match. -/
def Deployment.selectEndpoint (D : Deployment) (config : VendorConfig) (request : Inbound) :
    Option (Option VendorEndpoint) :=
  match D.endpoints.filter fun e => e.vendorId = config.id ∧ e.path = request.endpointPath ∧
      e.method = request.method.name with
  | [] => some none
  | [e] => some (some e)
  | _ => none

/-- Answers that `_load_active_api_key` may get: any active key of the vendor,
nothing only if there is none. -/
def Deployment.activeApiKey (D : Deployment) (config : VendorConfig)
    (row : Option VendorApiKey) : Bool :=
  let active := D.apiKeys.filter fun k => k.vendorId = config.id ∧ k.isActive
  match row with
  | none => active.isEmpty
  | some k => active.contains k

/-- The local variables of `proxy` once the vendor is resolved. -/
structure Ctx where
  request : Inbound
  config : VendorConfig
  endpoint : Option VendorEndpoint
  apiKey : Option VendorApiKey

section Locals

variable (D : Deployment) (request : Inbound) (ctx : Ctx)

/-- `cache_key` -/
def Inbound.cacheKey : String :=
  makeCacheKey D.sha256 request.vendorSlug request.endpointPath (some request.params)
    (.bytes request.body)

/-- `dedup_key` -/
def Inbound.dedupKey : String :=
  makeDedupKey D.sha256 request.vendorSlug request.endpointPath (some request.params)
    (.bytes request.body)

abbrev Ctx.cacheKey : String := ctx.request.cacheKey D

abbrev Ctx.dedupKey : String := ctx.request.dedupKey D

/-- The key, limit and period when `quota_applicable`. -/
def Ctx.quota : Option (VendorApiKey × ℤ × String) := do
  let k ← ctx.apiKey
  let limit ← k.quotaLimit
  let period ← k.quotaPeriod
  some (k, limit, period)

/-- The counter of a call of the quota tracker at a given time. -/
def Ctx.counterAt (now : ℚ) : Option Counter := do
  let (k, _, period) ← ctx.quota
  Quota.counterAt k.vendorId k.id period now

/-- The effective TTL. -/
def Ctx.ttl : ℤ :=
  resolveTtl ctx.config.cacheTtlSeconds (ctx.endpoint.bind VendorEndpoint.cacheTtlOverride)

end Locals

/-- Detail of an HTTPException. -/
inductive Detail where
  | text (message : String)
  | quotaExceeded (vendor key : String) (limit used : ℤ) (period : String)
      (resetsAt : Calendar.Date)

/-- How a request ends: what is answered, or what a `Response` is built of. A
`Response` that raises leaves the handler, and the lock, as one that is returned. -/
inductive Outcome where
  | jobAccepted (jobId : Uuid)
  | relayed (r : VendorResponse)
  | fromCache (c : CachedResponse)
  | fromDedup (c : CachedResponse)
  | httpException (status : ℕ) (detail : Detail)
  | unhandled

/-- The response that is relayed, fresh or from Redis. -/
def Outcome.response : Outcome → Option Response
  | .relayed v => relayResponse v
  | .fromCache c | .fromDedup c => cachedToResponse c
  | .jobAccepted _ | .httpException _ _ | .unhandled => none

/-- How `dedup_wait` leaves its `try` block. -/
inductive WaitResult where
  | found (c : CachedResponse)
  | timedOut
  | raised

/-- A 2xx answer of the vendor and the time it arrived. -/
structure Fetched where
  response : VendorResponse
  at_ : ℚ

/-- `cached_response` -/
def Fetched.cached (f : Fetched) : CachedResponse where
  statusCode := f.response.statusCode
  headers := filterResponseHeaders (joinLines f.response.headers)
  body := f.response.content
  cachedAt := f.at_

/-- The `await`s of `proxy`, `check_quota`, `get_cached`, `dedup_context`,
`dedup_wait`, `set_cached`, `dedup_publish` and `increment_quota`. Reading the
request body touches nothing shared and is not listed. -/
inductive Pc where
  | selectEndpoint
  | createJob
  | loadApiKey
  | checkQuota (counter : Counter)
  | getCached
  | acquireLock
  | subscribe
  | getResult
  | sleep (deadline : ℚ)
  | getMessage (deadline : ℚ)
  | unsubscribe (result : WaitResult)
  | callVendor
  | setCached (f : Fetched)
  | setResult (f : Fetched)
  | publish (f : Fetched)
  | incrQuota (f : Fetched) (counter : Counter)
  | expireQuota (f : Fetched) (counter : Counter) (ttl : ℤ)
  | releaseLock (outcome : Outcome)

/-- A request before, during and after its handler. -/
inductive Proc where
  | idle
  | running (ctx : Ctx) (pc : Pc)
  | finished (request : Inbound) (outcome : Outcome)

section Continuations

variable (ctx : Ctx)

/-- The handler up to the endpoint query. -/
def Deployment.start (D : Deployment) (request : Inbound) : Proc :=
  match D.registry request.vendorSlug with
  | none => .finished request
      (.httpException 404 (.text ("Vendor '" ++ request.vendorSlug ++ "' not found.")))
  | some config =>
      if D.adapterBuilds config then .running ⟨request, config, none, none⟩ .selectEndpoint
      else .finished request .unhandled

/-- `row = none`: the query raised. -/
def afterSelectEndpoint (row : Option (Option VendorEndpoint)) : Proc :=
  match row with
  | none => .finished ctx.request .unhandled
  | some endpoint =>
      if endpoint.any VendorEndpoint.isAsyncJob then
        .running { ctx with endpoint := endpoint } .createJob
      else .running { ctx with endpoint := endpoint } .loadApiKey

/-- An unknown period makes `check_quota` raise, which lets the request pass. -/
def afterLoadApiKey (now : ℚ) (row : Option VendorApiKey) : Proc :=
  let ctx' : Ctx := { ctx with apiKey := row }
  match ctx'.counterAt now with
  | none => .running ctx' .getCached
  | some counter => .running ctx' (.checkQuota counter)

def afterCheckQuota (now : ℚ) (value : Option (Redis.Value CachedResponse)) : Proc :=
  match ctx.quota with
  | none => .running ctx .getCached
  | some (k, limit, period) =>
      match Quota.checkQuota limit value with
      | some (false, used) =>
          match resetsAt period now with
          | none => .finished ctx.request .unhandled
          | some date => .finished ctx.request (.httpException 429
              (.quotaExceeded ctx.request.vendorSlug k.keyName limit used period date))
      | _ => .running ctx .getCached

/-- `_deserialise` raises on a value that is not a stored response. -/
def afterGetCached : Option (Redis.Value CachedResponse) → Proc
  | none => .running ctx .acquireLock
  | some (.text c) => .finished ctx.request (.fromCache c)
  | some (.int _) => .finished ctx.request .unhandled

def afterAcquireLock (acquired : Bool) : Proc :=
  if acquired then .running ctx .callVendor else .running ctx .subscribe

def afterGetResult (now : ℚ) : Option (Redis.Value CachedResponse) → Proc
  | none => .running ctx (.sleep (now + dedupWaitTimeout))
  | some (.text c) => .running ctx (.unsubscribe (.found c))
  | some (.int _) => .running ctx (.unsubscribe .raised)

/-- The head of the polling loop. -/
def afterSleep (now deadline : ℚ) : Proc :=
  if deadline - now ≤ 0 then .running ctx (.unsubscribe .timedOut)
  else .running ctx (.getMessage deadline)

/-- The confirmation of the subscription is read and ignored. -/
def afterGetMessage (deadline : ℚ) : Option (Redis.Frame CachedResponse ℕ) → Proc
  | some (.message c _) => .running ctx (.unsubscribe (.found c))
  | some .subscribe => .running ctx (.sleep deadline)
  | none => .running ctx (.sleep deadline)

def afterUnsubscribe : WaitResult → Proc
  | .found c => .finished ctx.request (.fromDedup c)
  | .timedOut => .finished ctx.request
      (.httpException 504 (.text "Upstream request timed out (dedup wait)."))
  | .raised => .finished ctx.request .unhandled

/-- `set_cached` issues its command only for a storable response. -/
def afterCallVendor (now : ℚ) : VendorOutcome → Proc
  | .timeout => .running ctx
      (.releaseLock (.httpException 504 (.text "Vendor request timed out")))
  | .connectError => .running ctx
      (.releaseLock (.httpException 502 (.text "Could not connect to vendor")))
  | .otherError => .running ctx (.releaseLock .unhandled)
  | .response r =>
      if success r.statusCode then
        if storable (Fetched.cached ⟨r, now⟩) ctx.ttl then .running ctx (.setCached ⟨r, now⟩)
        else .running ctx (.setResult ⟨r, now⟩)
      else .running ctx (.releaseLock (.relayed r))

def afterPublish (now : ℚ) (f : Fetched) : Proc :=
  match ctx.counterAt now with
  | none => .running ctx (.releaseLock (.relayed f.response))
  | some counter => .running ctx (.incrQuota f counter)

/-- EXPIRE follows only the first increment; a refused INCR is swallowed. -/
def afterIncrQuota (f : Fetched) (counter : Counter) (newCount : Option ℤ) : Proc :=
  match newCount, ctx.quota.bind fun q => periodTtl q.2.2 with
  | some 1, some ttl => .running ctx (.expireQuota f counter ttl)
  | _, _ => .running ctx (.releaseLock (.relayed f.response))

/-- Where an exception raised by the pending `await` leads. The vendor call has
its own outcomes, and sleeping does not fail. -/
def afterRaise : Pc → Option Proc
  | .checkQuota _ => some (.running ctx .getCached)
  | .getResult => some (.running ctx (.unsubscribe .raised))
  | .getMessage _ => some (.running ctx (.unsubscribe .raised))
  | .setCached _ => some (.running ctx (.releaseLock .unhandled))
  | .setResult _ => some (.running ctx (.releaseLock .unhandled))
  | .publish _ => some (.running ctx (.releaseLock .unhandled))
  | .incrQuota f _ => some (.running ctx (.releaseLock (.relayed f.response)))
  | .expireQuota f _ _ => some (.running ctx (.releaseLock (.relayed f.response)))
  | .callVendor => none
  | .sleep _ => none
  | _ => some (.finished ctx.request .unhandled)

end Continuations

end Gateway.Routes

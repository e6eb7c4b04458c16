import Gateway.Jobs.Fidelity
import Gateway.Vendors.Adapters

/-! The credential that a vendor request carries, for the headers and parameters
that a caller makes `proxy` forward. -/
namespace Gateway.Routes

open Http Json Text Gateway.Db Gateway.Vendors

/-- The calls of the vendor for a request: at once, or from the job that it creates. -/
inductive Calls (request : Inbound) : VendorCall → Prop where
  | synchronous : Calls request request.vendorCall
  | asJob {vendorId endpointId : Uuid} {requestedBy : String} {job : Jobs.Job}
      {endpoint : VendorEndpoint} {call : VendorCall}
      (hJob : Jobs.createJob vendorId endpointId requestedBy (some request.requestPayload) =
        some job)
      (hCall : Jobs.jobCall endpoint job = some call) : Calls request call

/-- The headers and the query parameters that an adapter is configured to set. -/
structure Credential where
  headers : Lines
  params : List (String × String)

section Credential

variable (secrets : String → Option String) (token : Option String)

def credentialOf : Adapter → Option Credential
  | .apiKey headerName queryParam keyRef =>
      match secretOf secrets keyRef, headerName.truthy, headerName, queryParam with
      | some key, true, .str name, _ => some ⟨[(name, key)], []⟩
      | some key, false, _, .str name => some ⟨[], [(name, key)]⟩
      | _, _, _, _ => none
  | .oauth2 .. => token.map fun token => ⟨[("Authorization", "Bearer " ++ token)], []⟩
  | .basic usernameRef passwordRef =>
      match secretOf secrets usernameRef, secretOf secrets passwordRef with
      | some username, some password =>
          some ⟨[("Authorization", "Basic " ++ base64 (utf8 (username ++ ":" ++ password)))], []⟩
      | _, _ => none
  | .custom (.obj refs) =>
      (resolveRefs secrets (Dict.ofList refs).items).map fun extra => ⟨extra, []⟩
  | .custom _ => none
  | .noAuth => some ⟨[], []⟩

/-- Each configured header is one line, each configured parameter occurs once,
with the configured value. -/
structure Carries (c : Credential) (signed : Request) : Prop where
  header : ∀ e ∈ c.headers, values signed.lines e.1 = [e.2]
  param : ∀ e ∈ c.params, (signed.params.filter fun p => p.1 = e.1).map Prod.snd = [e.2]

variable {secrets token} {lib : ClientLibrary}

theorem resolveRefs_keys {refs : Members} {extra : Lines}
    (h : resolveRefs secrets refs = some extra) : extra.map Prod.fst = refs.map Prod.fst := by
  induction refs generalizing extra with
  | nil =>
      obtain rfl : extra = [] := by simpa [resolveRefs] using h.symm
      rfl
  | cons e refs ih =>
      simp only [resolveRefs, List.mapM_cons, Option.pure_def, Option.bind_eq_bind,
        Option.bind_eq_some_iff, Option.map_eq_some_iff, Option.some.injEq] at h
      obtain ⟨line, ⟨value, -, rfl⟩, rest, hRest, rfl⟩ := h
      simp [ih hRest]

/-- What `prepare_request` does with a credential. -/
inductive Prepared (lib : ClientLibrary) (request signed : Request) : Credential → Prop where
  | headers {extra : Lines} (nodup : (extra.map Prod.fst).Nodup)
      (made : withHeaders lib request extra = some signed) :
      Prepared lib request signed ⟨extra, []⟩
  | param {name value : String} (made : withParam lib request name value = some signed) :
      Prepared lib request signed ⟨[], [(name, value)]⟩
  | nothing (same : signed = request) : Prepared lib request signed ⟨[], []⟩

theorem prepared_of_prepareRequest {adapter : Adapter} {request signed : Request}
    (h : adapter.prepareRequest lib secrets token request = some signed) :
    ∃ c, credentialOf secrets token adapter = some c ∧ Prepared lib request signed c := by
  cases adapter with
  | apiKey headerName queryParam keyRef =>
      simp only [Adapter.prepareRequest, prepareApiKey, Option.bind_eq_bind,
        Option.bind_eq_some_iff] at h
      obtain ⟨key, hKey, h⟩ := h
      split_ifs at h with hTruthy
      · cases headerName with
        | str name => exact ⟨_, by simp [credentialOf, hKey, hTruthy], .headers (by simp) h⟩
        | _ => cases h
      · cases queryParam with
        | str name => exact ⟨_, by simp [credentialOf, hKey, hTruthy], .param h⟩
        | _ => cases h
  | oauth2 tokenUrl clientIdRef clientSecretRef scopes =>
      simp only [Adapter.prepareRequest, prepareOAuth2, Option.bind_eq_bind,
        Option.bind_eq_some_iff] at h
      obtain ⟨text, hToken, h⟩ := h
      exact ⟨_, by simp [credentialOf, hToken], .headers (by simp) h⟩
  | basic usernameRef passwordRef =>
      simp only [Adapter.prepareRequest, prepareBasic, Option.bind_eq_bind,
        Option.bind_eq_some_iff] at h
      obtain ⟨username, hUsername, password, hPassword, h⟩ := h
      exact ⟨_, by simp [credentialOf, hUsername, hPassword], .headers (by simp) h⟩
  | custom headerRefs =>
      cases headerRefs with
      | obj refs =>
          simp only [Adapter.prepareRequest, prepareCustom, Option.bind_eq_bind,
            Option.bind_eq_some_iff] at h
          obtain ⟨extra, hExtra, h⟩ := h
          refine ⟨⟨extra, []⟩, by simp [credentialOf, hExtra], .headers ?_ h⟩
          rw [resolveRefs_keys hExtra]
          exact (Dict.ofList refs).nodup
      | _ => cases h
  | noAuth => exact ⟨_, rfl, .nothing (Option.some.inj h).symm⟩

/-- Header by header: the name is set in one spelling, and that spelling is the
lower case, unless the request has no line of the name. -/
def Spelled (c : Credential) (request : Request) : Prop :=
  ∀ e ∈ c.headers, (∀ e' ∈ c.headers, lower e'.1 = lower e.1 → e'.1 = e.1) ∧
    (lower e.1 = e.1 ∨ hasLine request.lines e.1 = false)

/-- The dictionary that `withHeaders` builds has one line of a set name exactly
if no other key has that name in another case. -/
theorem values_withHeaders {request signed : Request} {extra : Lines}
    (hNodup : (extra.map Prod.fst).Nodup)
    (hMade : withHeaders lib request extra = some signed) {e : String × String} (he : e ∈ extra) :
    values signed.lines e.1 = [e.2] ↔
      (∀ e' ∈ extra, lower e'.1 = lower e.1 → e'.1 = e.1) ∧
        (lower e.1 = e.1 ∨ hasLine request.lines e.1 = false) := by
  have hItem : (e.1, e.2) ∈ ((joinLines request.lines).update extra).items :=
    Dict.mem_items_update hNodup he
  have hHas : hasLine ((joinLines request.lines).update extra).items e.1 = true :=
    hasLine_iff.mpr ⟨_, hItem, rfl⟩
  rw [Request.lines_of_make hMade, values_completeLines hHas, values_dict hItem]
  simp only [Dict.mem_keys_update, mem_keys_joinLines]
  constructor
  · intro hOnly
    constructor
    · intro e' he' hName
      exact hOnly e'.1 (Or.inl (List.mem_map_of_mem he')) hName
    · cases hLine : hasLine request.lines e.1 with
      | false => exact Or.inr rfl
      | true =>
          obtain ⟨line, hMem, hName⟩ := hasLine_iff.mp hLine
          exact Or.inl (hOnly (lower e.1) (Or.inr ⟨line, hMem, hName⟩) (lower_lower _))
  · rintro ⟨hExtra, hOld⟩ k hk hName
    rcases hk with hk | ⟨line, hMem, rfl⟩
    · obtain ⟨e', he', rfl⟩ := List.mem_map.mp hk
      exact hExtra e' he' hName
    · rw [lower_lower] at hName
      rcases hOld with hLower | hNone
      · rw [hName, hLower]
      · rw [hasLine_iff.mpr ⟨line, hMem, hName⟩] at hNone
        cases hNone

/-- Setting a parameter leaves one occurrence of it. -/
theorem params_withParam {request signed : Request} {name value : String}
    (hMade : withParam lib request name value = some signed) :
    (signed.params.filter fun p => p.1 = name).map Prod.snd = [value] := by
  have hItem : (name, value) ∈ ((firstValues request.params).insert name value).items :=
    Dict.mem_items_insert.mpr (Or.inl rfl)
  have hOnly := (Dict.filter_eq_singleton (p := fun k => decide (k = name)) hItem (by simp)).mpr
    fun k _ hk => by simpa using hk
  rw [Request.params_of_make hMade, hOnly]
  rfl

theorem carries_iff {request signed : Request} {c : Credential}
    (h : Prepared lib request signed c) : Carries c signed ↔ Spelled c request := by
  cases h with
  | @headers extra hNodup hMade =>
      constructor
      · intro hCarries e he
        exact (values_withHeaders hNodup hMade he).mp (hCarries.header e he)
      · intro hSpelled
        refine ⟨?_, by simp⟩
        intro e he
        exact (values_withHeaders hNodup hMade he).mpr (hSpelled e he)
  | @param name value hMade =>
      constructor
      · intro _ e he
        cases he
      · intro _
        refine ⟨by simp, ?_⟩
        intro e he
        obtain rfl : e = (name, value) := by simpa using he
        exact params_withParam hMade
  | nothing =>
      constructor
      · intro _ e he
        cases he
      · intro _
        exact ⟨by simp, by simp⟩

/-- The request that `VendorClient.request` sends. -/
def signedRequest (lib : ClientLibrary) (secrets : String → Option String) (token : Option String)
    (config : VendorConfig) (call : VendorCall) (adapter : Adapter) : Option Request :=
  (buildRequest lib config call).bind fun request => adapter.prepareRequest lib secrets token request

section Forwarded

variable {config : VendorConfig} {request : Inbound} {call : VendorCall}

/-- The headers of a call have names in lower case, and never these two. -/
theorem keys_of_calls (h : Calls request call) {name : String} (hName : name ∈ call.headers.keys) :
    lower name = name ∧ name ∉ ["host", "authorization"] := by
  have hJob {name : String} (hName : name ∈ (Jobs.jobHeaders request).keys) :
      lower name = name ∧ name ∉ ["host", "authorization"] := by
    obtain ⟨hLine, hOther⟩ := (Jobs.mem_keys_jobHeaders request).mp hName
    obtain ⟨line, hMem, rfl⟩ := List.mem_map.mp hLine
    exact ⟨request.headers_lower line hMem, hOther⟩
  cases h with
  | synchronous =>
      have hForwarded : name ∈ request.forwardHeaders.keys := hName
      rw [Jobs.forwardHeaders_eq] at hForwarded
      obtain ⟨line, hMem, rfl⟩ := List.mem_map.mp hForwarded
      exact hJob (List.mem_map_of_mem (List.mem_filter.mp hMem).1)
  | asJob hCreated hCall =>
      rw [Jobs.jobCall_createJob _ hCreated] at hCall
      cases hCall
      exact hJob (((Jsonb.normal_perm _).map Prod.fst).mem_iff.mp hName)

theorem hasLine_of_calls (h : Calls request call) {name : String} :
    hasLine call.headers.items name = true ↔ lower name ∈ call.headers.keys := by
  rw [hasLine_iff]
  constructor
  · rintro ⟨line, hMem, hName⟩
    have hKey : line.1 ∈ call.headers.keys := List.mem_map_of_mem hMem
    rw [← hName, (keys_of_calls h hKey).1]
    exact hKey
  · intro hKey
    obtain ⟨line, hMem, hName⟩ := List.mem_map.mp hKey
    exact ⟨line, hMem, by rw [hName, lower_lower]⟩

/-- A line is added that tells the length of the body. -/
def TellsLength (call : VendorCall) : Prop :=
  call.content.getD [] ≠ [] ∨
    call.method ∈ ["POST", "PUT", "PATCH"] ∧ "transfer-encoding" ∉ call.headers.keys

instance (call : VendorCall) : Decidable (TellsLength call) :=
  inferInstanceAs (Decidable (_ ∨ _ ∧ _))

/-- The names of the lines that the library adds on its own. -/
def libraryNames (lib : ClientLibrary) (config : VendorConfig) (call : VendorCall) : List String :=
  ["accept", "accept-encoding", "connection", "user-agent"] ++
    (if (lib.host (vendorUrl config call.path)).isSome then ["host"] else []) ++
      if TellsLength call then ["content-length"] else []

/-- The unsigned request has the lines that are forwarded and the library's own. -/
theorem hasLine_buildRequest (hCalls : Calls request call) {unsigned : Request}
    (h : buildRequest lib config call = some unsigned) {name : String} :
    hasLine unsigned.lines name = true ↔
      lower name ∈ call.headers.keys ∨ lower name ∈ libraryNames lib config call := by
  unfold buildRequest at h
  split_ifs at h
  have hOwn (name : String) : hasLine lib.headers name = true ↔
      lower name ∈ ["accept", "accept-encoding", "connection", "user-agent"] := by
    have hNames : lower "Accept" = "accept" ∧ lower "Accept-Encoding" = "accept-encoding" ∧
        lower "Connection" = "connection" ∧ lower "User-Agent" = "user-agent" := by
      decide
    simp [hasLine, ClientLibrary.headers, hNames, @eq_comm _ (lower name)]
  have hCoding : hasLine (mergeLines lib.headers call.headers.items) "Transfer-Encoding" = false ↔
      "transfer-encoding" ∉ call.headers.keys := by
    have hName : lower "Transfer-Encoding" = "transfer-encoding" := by decide
    rw [← Bool.not_eq_true, hasLine_mergeLines, hasLine_of_calls hCalls, hOwn, hName]
    exact not_congr (or_iff_right (by decide))
  rw [Request.lines_of_make h, hasLine_completeLines, hasLine_mergeLines, hasLine_of_calls hCalls,
    hOwn, hCoding]
  simp only [libraryNames, TellsLength, List.mem_append]
  grind

/-- Header by header: the name is set in one spelling, and that spelling is the
lower case, unless the call forwards no header of the name and it is none of
those that the library adds. -/
def Unambiguous (lib : ClientLibrary) (config : VendorConfig) (call : VendorCall) (c : Credential) :
    Prop :=
  ∀ e ∈ c.headers, (∀ e' ∈ c.headers, lower e'.1 = lower e.1 → e'.1 = e.1) ∧
    (lower e.1 = e.1 ∨
      (lower e.1 ∉ call.headers.keys ∧ lower e.1 ∉ libraryNames lib config call))

/-- A vendor request that is sent, at once or from a job, carries exactly the
configured credential if and only if the names of its headers are unambiguous. -/
theorem credential_exact {adapter : Adapter} {signed : Request} (hCalls : Calls request call)
    (h : signedRequest lib secrets token config call adapter = some signed) :
    ∃ c, credentialOf secrets token adapter = some c ∧
      (Carries c signed ↔ Unambiguous lib config call c) := by
  obtain ⟨unsigned, hUnsigned, hSigned⟩ := Option.bind_eq_some_iff.mp h
  obtain ⟨c, hCredential, hPrepared⟩ := prepared_of_prepareRequest hSigned
  refine ⟨c, hCredential, ?_⟩
  rw [carries_iff hPrepared]
  unfold Spelled Unambiguous
  simp only [← Bool.not_eq_true, hasLine_buildRequest hCalls hUnsigned, not_or]

/-- The proxy strips `Authorization`, so the adapters that set it are unambiguous. -/
theorem authorization_unambiguous (hCalls : Calls request call) (value : String) :
    Unambiguous lib config call ⟨[("Authorization", value)], []⟩ := by
  intro e he
  obtain rfl : e = ("Authorization", value) := by simpa using he
  have hName : lower "Authorization" = "authorization" := by decide
  constructor
  · intro e' he' _
    obtain rfl : e' = ("Authorization", value) := by simpa using he'
    rfl
  · refine Or.inr ⟨?_, ?_⟩
    · intro hForwarded
      exact absurd (keys_of_calls hCalls hForwarded).2 (by rw [hName]; decide)
    · rw [hName, libraryNames]
      split_ifs <;> decide

end Forwarded

end Credential

section Sample

def sampleLibrary : ClientLibrary where
  acceptEncoding := "gzip, deflate"
  userAgent := "python-httpx"
  query _ params := (params.map Dict.items).getD []
  host _ := some "v"

def sampleSecrets (ref : String) : Option String := if ref = "KEY" then some "secret" else none

def sampleConfig : VendorConfig := ⟨.nil, "v", "http://v", 0⟩

/-- A request whose caller sends a header of the configured name. -/
def forgingRequest : Inbound where
  method := .get
  vendorSlug := "v"
  endpointPath := "p"
  query := []
  headers := [("x-api-key", "mine")]
  headers_lower := by
    intro line hLine
    obtain rfl : line = ("x-api-key", "mine") := by simpa using hLine
    decide
  body := []
  userSub := "u1"

/-- The configuration of an API key in a header. -/
def headerConfig (name : String) : Members :=
  [("header_name", .str name), ("key_reference", .str "KEY")]

/-- With the configured spelling `X-Api-Key` the vendor gets the caller's value
beside the secret. -/
theorem credential_doubled : ∃ adapter c signed,
    buildAdapter "api_key" (headerConfig "X-Api-Key") = some adapter ∧
      credentialOf sampleSecrets none adapter = some c ∧
      signedRequest sampleLibrary sampleSecrets none sampleConfig forgingRequest.vendorCall
        adapter = some signed ∧
      values signed.lines "X-Api-Key" = ["mine", "secret"] ∧ ¬Carries c signed := by
  have hValues : (signedRequest sampleLibrary sampleSecrets none sampleConfig
      forgingRequest.vendorCall (.apiKey (.str "X-Api-Key") .null (.str "KEY"))).map
        (fun signed => values signed.lines "X-Api-Key") = some ["mine", "secret"] := by
    decide +kernel
  obtain ⟨signed, hSigned, hBoth⟩ := Option.map_eq_some_iff.mp hValues
  refine ⟨_, ⟨[("X-Api-Key", "secret")], []⟩, signed, rfl, rfl, hSigned, hBoth, ?_⟩
  intro hCarries
  have hOne := hCarries.header ("X-Api-Key", "secret") (by simp)
  rw [hBoth] at hOne
  exact absurd hOne (by decide)

/-- The call that the worker makes for the request, if a job is created for it. -/
def forgingJobCall : Option VendorCall :=
  (Jobs.sampleJob forgingRequest).bind (Jobs.jobCall Jobs.sampleEndpoint)

/-- With the spelling `x-api-key` the secret replaces the caller's value, at once and
in the call of the job. -/
theorem credential_exact_lower : ∃ call, forgingJobCall = some call ∧
    ∀ call' ∈ [forgingRequest.vendorCall, call], ∃ signed,
      signedRequest sampleLibrary sampleSecrets none sampleConfig call'
          (.apiKey (.str "x-api-key") .null (.str "KEY")) = some signed ∧
        Carries ⟨[("x-api-key", "secret")], []⟩ signed := by
  have hSigns : forgingJobCall.any (fun call => [forgingRequest.vendorCall, call].all fun call' =>
      (signedRequest sampleLibrary sampleSecrets none sampleConfig call'
        (.apiKey (.str "x-api-key") .null (.str "KEY"))).isSome) = true := by
    decide +kernel
  obtain ⟨call, hCall, hAll⟩ := (Option.any_eq_true _ _).mp hSigns
  refine ⟨call, hCall, fun call' hMem => ?_⟩
  have hCalls : Calls forgingRequest call' := by
    rcases List.mem_pair.mp hMem with rfl | rfl
    · exact .synchronous
    · unfold forgingJobCall at hCall
      obtain ⟨job, hJob, hCall⟩ := Option.bind_eq_some_iff.mp hCall
      exact .asJob hJob hCall
  obtain ⟨signed, hSigned⟩ := Option.isSome_iff_exists.mp (List.all_eq_true.mp hAll call' hMem)
  obtain ⟨c, hCredential, hIff⟩ := credential_exact hCalls hSigned
  obtain rfl : ⟨[("x-api-key", "secret")], []⟩ = c := Option.some.inj hCredential
  refine ⟨signed, hSigned, hIff.mpr fun e he => ?_⟩
  obtain rfl : e = ("x-api-key", "secret") := by simpa using he
  refine ⟨?_, Or.inl (by decide)⟩
  intro e' he' _
  obtain rfl : e' = ("x-api-key", "secret") := by simpa using he'
  rfl

end Sample

end Gateway.Routes

import Gateway.Jobs.Manager
import Gateway.Routes.Machine

/-! The two paths of one request: the vendor call that the worker makes for a
job against the call of the synchronous path. -/
namespace Gateway.Jobs

open Http Text Gateway.Db Gateway.Vendors Gateway.Routes

/-- Two calls with the same method, path, parameters, headers and body bytes. A
dictionary is its entries, and no body is the empty body. -/
structure SameCall (a b : VendorCall) : Prop where
  method : a.method = b.method
  path : a.path = b.path
  params : ((a.params.map Dict.items).getD []).Perm ((b.params.map Dict.items).getD [])
  headers : a.headers.items.Perm b.headers.items
  body : a.content.getD [] = b.content.getD []

section Headers

variable (request : Inbound)

/-- The headers of the job payload, before the column reorders them. -/
def jobHeaders : Dict String String :=
  (Dict.ofList request.headers).filterKeys fun k => k ∉ ["host", "authorization"]

theorem lower_lines :
    request.headers.map (fun line => (lower line.1, line.2)) = request.headers := by
  have hSame : ∀ line ∈ request.headers, (lower line.1, line.2) = line := by
    intro line hLine
    rw [request.headers_lower line hLine]
  rw [List.map_congr_left hSame, List.map_id']

/-- The synchronous path drops the hop-by-hop headers as well. -/
theorem forwardHeaders_eq :
    request.forwardHeaders = (jobHeaders request).filterKeys fun k => k ∉ hopByHop := by
  have hLines : (request.headers.filter fun line =>
        decide (lower line.1 ∉ hopByHop ∧ lower line.1 ∉ ["host", "authorization"])) =
      request.headers.filter fun line =>
        decide (line.1 ∉ ["host", "authorization"]) && decide (line.1 ∉ hopByHop) := by
    apply List.filter_congr
    intro line hLine
    rw [request.headers_lower line hLine, Bool.decide_and, Bool.and_comm]
  rw [Inbound.forwardHeaders, hLines, jobHeaders, Dict.filterKeys_filterKeys,
    Dict.ofList_filterKeys fun k => decide (k ∉ ["host", "authorization"]) && decide (k ∉ hopByHop)]

theorem mem_keys_jobHeaders {k : String} :
    k ∈ (jobHeaders request).keys ↔
      k ∈ request.headers.map Prod.fst ∧ k ∉ ["host", "authorization"] := by
  have hFilter := Dict.ofList_filterKeys (fun k => decide (k ∉ ["host", "authorization"]))
    request.headers
  rw [jobHeaders, hFilter, Dict.mem_keys_ofList]
  constructor
  · intro h
    obtain ⟨line, hLine, rfl⟩ := List.mem_map.mp h
    obtain ⟨hMem, hName⟩ := List.mem_filter.mp hLine
    exact ⟨List.mem_map_of_mem hMem, of_decide_eq_true hName⟩
  · rintro ⟨h, hName⟩
    obtain ⟨line, hLine, rfl⟩ := List.mem_map.mp h
    exact List.mem_map_of_mem (List.mem_filter.mpr ⟨hLine, decide_eq_true hName⟩)

/-- No header of the request is a hop-by-hop header. -/
def EndToEnd : Prop := ∀ line ∈ request.headers, line.1 ∉ hopByHop

instance : Decidable (EndToEnd request) :=
  inferInstanceAs (Decidable (∀ line ∈ request.headers, line.1 ∉ hopByHop))

theorem endToEnd_iff :
    EndToEnd request ↔ ∀ k ∈ (jobHeaders request).keys, k ∉ hopByHop := by
  constructor
  · intro h k hk
    obtain ⟨line, hLine, rfl⟩ := List.mem_map.mp ((mem_keys_jobHeaders request).mp hk).1
    exact h line hLine
  · intro h line hLine hHop
    have hOther : line.1 ∉ ["host", "authorization"] := by
      intro hMem
      have hNone : ∀ name ∈ ["host", "authorization"], name ∉ hopByHop := by decide
      exact hNone line.1 hMem hHop
    exact h line.1 ((mem_keys_jobHeaders request).mpr ⟨List.mem_map_of_mem hLine, hOther⟩) hHop

/-- The two sets of headers are the same exactly if nothing is dropped. -/
theorem headers_iff :
    (Jsonb.normal (jobHeaders request)).items.Perm request.forwardHeaders.items ↔
      EndToEnd request := by
  rw [endToEnd_iff, forwardHeaders_eq]
  have hSelf := Dict.filterKeys_eq_self (d := jobHeaders request)
    (p := fun k => decide (k ∉ hopByHop))
  constructor
  · intro hPerm k hk
    have hLength : ((jobHeaders request).filterKeys fun k => k ∉ hopByHop).items.length =
        (jobHeaders request).items.length := by
      rw [← hPerm.length_eq, (Jsonb.normal_perm _).length_eq]
    have hItems : ((jobHeaders request).filterKeys fun k => k ∉ hopByHop).items =
        (jobHeaders request).items := List.filter_sublist.eq_of_length hLength
    exact of_decide_eq_true (hSelf.mp (Dict.ext hItems) k hk)
  · intro h
    rw [hSelf.mpr fun k hk => decide_eq_true (h k hk)]
    exact Jsonb.normal_perm _

end Headers

/-- The body that the worker sends for a stored body. -/
theorem body_iff (request : Inbound) :
    utf8 (if request.body = [] then "" else decodeReplace request.body) = request.body ↔
      WellFormed request.body := by
  split_ifs with hEmpty
  · rw [hEmpty]
    exact ⟨fun _ => ⟨"", rfl⟩, fun _ => rfl⟩
  · exact utf8_decodeReplace

section Call

variable {vendorId endpointId : Uuid} {requestedBy : String} {request : Inbound} {job : Job}

/-- The parameters of a call as `params if params else None` passes them. -/
theorem getD_params (params : Dict String String) :
    (((if params.items = [] then none else some params).map Dict.items).getD [] :
      List (String × String)) = params.items := by
  split_ifs with hEmpty
  · exact hEmpty.symm
  · rfl

/-- The worker calls the vendor with what the request had, as the column and the
decoder give it back. -/
theorem jobCall_createJob (endpoint : VendorEndpoint)
    (hJob : createJob vendorId endpointId requestedBy (some request.requestPayload) = some job) :
    jobCall endpoint job = some
      { method := request.method.name
        path := request.endpointPath
        headers := Jsonb.normal (jobHeaders request)
        content :=
          if request.body = [] then none else some (utf8 (decodeReplace request.body))
        params := if (Jsonb.normal request.params).items = [] then none
          else some (Jsonb.normal request.params)
        timeout := some endpoint.timeoutSeconds } := by
  have hMember := get?_createJob hJob
  have hMethod : request.requestPayload.get? "method" = some (.str request.method.name) := rfl
  have hPath : request.requestPayload.get? "path" = some (.str request.endpointPath) := rfl
  have hParams : request.requestPayload.get? "params" = some (.obj request.params) := rfl
  have hHeaders : request.requestPayload.get? "forward_headers" =
      some (.obj (jobHeaders request)) := by
    rw [jobHeaders, ← lower_lines request]
    rfl
  have hBody : request.requestPayload.get? "body" =
      some (if request.body = [] then .null else .str (decodeReplace request.body)) := rfl
  have hContent : bodyMember (job.requestPayload.getD Dict.empty) =
      if request.body = [] then none else some (utf8 (decodeReplace request.body)) := by
    rw [bodyMember, hMember, hBody]
    split_ifs <;> rfl
  simp only [jobCall, textMember, objectMember, hMember, hMethod, hPath, hParams, hHeaders,
    hContent, Option.map_some, Jsonb.Value.normal]
  rfl

theorem sameCall_iff {endpoint : VendorEndpoint} {call : VendorCall}
    (hJob : createJob vendorId endpointId requestedBy (some request.requestPayload) = some job)
    (hCall : jobCall endpoint job = some call) :
    SameCall call request.vendorCall ↔ WellFormed request.body ∧ EndToEnd request := by
  rw [jobCall_createJob endpoint hJob] at hCall
  cases hCall
  have hContent : ((if request.body = [] then none
      else some (utf8 (decodeReplace request.body))).getD [] : Bytes) =
      utf8 (if request.body = [] then "" else decodeReplace request.body) := by
    split_ifs <;> rfl
  constructor
  · intro hSame
    have hBody := hSame.body
    rw [hContent] at hBody
    exact ⟨(body_iff request).mp hBody, (headers_iff request).mp hSame.headers⟩
  · rintro ⟨hBody, hHeaders⟩
    refine ⟨rfl, rfl, ?_, (headers_iff request).mpr hHeaders, ?_⟩
    · have hParams := Jsonb.normal_perm request.params
      rw [← getD_params, ← getD_params request.params] at hParams
      exact hParams
    · rw [hContent]
      exact (body_iff request).mpr hBody

/-- Without a hop-by-hop header and with a body in UTF-8 the two paths call the
vendor alike, and otherwise they do not. -/
theorem job_fidelity (endpoint : VendorEndpoint)
    (hJob : createJob vendorId endpointId requestedBy (some request.requestPayload) = some job) :
    ∃ call, jobCall endpoint job = some call ∧
      (SameCall call request.vendorCall ↔ WellFormed request.body ∧ EndToEnd request) := by
  have hCall := jobCall_createJob endpoint hJob
  exact ⟨_, hCall, sameCall_iff hJob hCall⟩

end Call

section Sample

def sampleEndpoint : VendorEndpoint where
  id := zeroUuid
  vendorId := zeroUuid
  path := "p"
  method := "POST"
  cacheTtlOverride := none
  isAsyncJob := true
  timeoutSeconds := 30

/-- A text body, and a header that is passed on. -/
def plainPost : Inbound :=
  { sampleRequest .post "p" with
    headers := [("host", "g"), ("x-a", "1")]
    headers_lower := by decide
    body := utf8 "a" }

/-- A body that is not UTF-8. -/
def binaryPost : Inbound := { sampleRequest .post "p" with body := [0xFF] }

/-- A hop-by-hop header. -/
def keepAlivePost : Inbound :=
  { sampleRequest .post "p" with
    headers := [("connection", "keep-alive")]
    headers_lower := by decide }

def sampleJob (request : Inbound) : Option Job :=
  createJob zeroUuid zeroUuid "u" (some request.requestPayload)

theorem job_fidelity_plain :
    ∃ job call, sampleJob plainPost = some job ∧ jobCall sampleEndpoint job = some call ∧
      SameCall call plainPost.vendorCall := by
  have hCreated : (sampleJob plainPost).isSome = true := by decide +kernel
  obtain ⟨job, hJob⟩ := Option.isSome_iff_exists.mp hCreated
  obtain ⟨call, hCall, hSame⟩ := job_fidelity sampleEndpoint hJob
  exact ⟨job, call, hJob, hCall, hSame.mpr ⟨⟨"a", rfl⟩, by decide⟩⟩

theorem not_sameCall_of {request : Inbound} (hCreated : (sampleJob request).isSome = true)
    (hNot : ¬(WellFormed request.body ∧ EndToEnd request)) :
    ∃ job call, sampleJob request = some job ∧ jobCall sampleEndpoint job = some call ∧
      ¬SameCall call request.vendorCall := by
  obtain ⟨job, hJob⟩ := Option.isSome_iff_exists.mp hCreated
  have hCall := jobCall_createJob sampleEndpoint hJob
  exact ⟨job, _, hJob, hCall, fun hSame => hNot ((sameCall_iff hJob hCall).mp hSame)⟩

/-- The worker replaces the byte, and it passes the hop-by-hop header on. -/
theorem job_differs :
    (∃ job call, sampleJob binaryPost = some job ∧ jobCall sampleEndpoint job = some call ∧
      ¬SameCall call binaryPost.vendorCall) ∧
    ∃ job call, sampleJob keepAlivePost = some job ∧ jobCall sampleEndpoint job = some call ∧
      ¬SameCall call keepAlivePost.vendorCall := by
  constructor
  · apply not_sameCall_of
    · decide +kernel
    · rintro ⟨hBody, _⟩
      exact absurd (utf8_decodeReplace.mpr hBody) (by decide +kernel)
  · apply not_sameCall_of
    · decide +kernel
    · rintro ⟨_, hHeaders⟩
      exact absurd (hHeaders ("connection", "keep-alive") (by decide)) (by decide)

end Sample

end Gateway.Jobs

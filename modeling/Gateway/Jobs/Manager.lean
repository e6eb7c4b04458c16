import Gateway.Semantics.Jsonb
import Gateway.Semantics.Utf8
import Gateway.Vendors.Client

/-! `gateway/jobs/manager.py`: the row that `create_job` stores and the vendor
call that `run_job` rebuilds from it. -/
namespace Gateway.Jobs

open Text Gateway.Db Gateway.Vendors

inductive Status where
  | pending
  | inProgress
  | completed
  | failed
  deriving DecidableEq

structure Job where
  vendorId : Uuid
  endpointId : Uuid
  requestedBy : String
  status : Status
  requestPayload : Option Jsonb.Object

/-- `create_job`; `none` when the database refuses the row. -/
def createJob (vendorId endpointId : Uuid) (requestedBy : String)
    (requestPayload : Option Jsonb.Object) : Option Job :=
  if Jsonb.storableText requestedBy then
    (Jsonb.store (requestPayload.getD Dict.empty)).map fun stored =>
      ⟨vendorId, endpointId, requestedBy, .pending, some stored⟩
  else none

section Payload

variable (payload : Jsonb.Object)

/-- `payload.get(key, default)` where a text is expected. -/
def textMember (key default : String) : Option String :=
  match payload.get? key with
  | none => some default
  | some (.str s) => some s
  | some _ => none

/-- `payload.get(key) or {}` where an object is expected. -/
def objectMember (key : String) : Option (Dict String String) :=
  match payload.get? key with
  | some (.obj fields) => some fields
  | some (.str s) => if s = "" then some Dict.empty else none
  | _ => some Dict.empty

/-- The bytes of the stored body. -/
def bodyMember : Option Bytes :=
  match payload.get? "body" with
  | some (.str s) => some (utf8 s)
  | _ => none

end Payload

/-- The call of `VendorClient.request` in `run_job`; `none` when a member of the
payload has a type that no such call takes. -/
def jobCall (endpoint : VendorEndpoint) (job : Job) : Option VendorCall := do
  let payload := job.requestPayload.getD Dict.empty
  let method ← textMember payload "method" (if endpoint.method = "" then "GET" else endpoint.method)
  let path ← textMember payload "path" endpoint.path
  let params ← objectMember payload "params"
  let forwardHeaders ← objectMember payload "forward_headers"
  some
    { method := method
      path := path
      headers := forwardHeaders
      content := bodyMember payload
      params := if params.items = [] then none else some params
      timeout := some endpoint.timeoutSeconds }

section Stored

variable {vendorId endpointId : Uuid} {requestedBy : String} {payload : Jsonb.Object} {job : Job}

/-- The payload of a created job has the members that it was created with. -/
theorem get?_createJob
    (hJob : createJob vendorId endpointId requestedBy (some payload) = some job) (key : String) :
    (job.requestPayload.getD Dict.empty).get? key = (payload.get? key).map Jsonb.Value.normal := by
  unfold createJob at hJob
  split_ifs at hJob
  obtain ⟨stored, hStored, rfl⟩ := Option.map_eq_some_iff.mp hJob
  exact Jsonb.get?_store hStored key

end Stored

end Gateway.Jobs

import Gateway.Db.Models
import Gateway.Semantics.Http
import Mathlib.Data.Multiset.Defs

/-! `gateway/vendors/registry.py` and `gateway/vendors/client.py`: the vendor
configuration a request works with, and what `VendorClient.request` is called
with and answers. -/
namespace Gateway.Vendors

open Http Text Gateway.Db

structure VendorConfig where
  id : Uuid
  slug : String
  baseUrl : String
  cacheTtlSeconds : ℤ

/-- The URL `VendorClient.request` builds for a path. -/
def vendorUrl (config : VendorConfig) (path : String) : String :=
  rstrip '/' config.baseUrl ++ "/" ++ lstrip '/' path

/-- Arguments of one call of `VendorClient.request`. -/
structure VendorCall where
  method : String
  path : String
  headers : Dict String String
  content : Option Bytes
  params : Option (Dict String String)
  timeout : Option ℤ

/-- A request on the wire, without its headers. -/
structure Forwarded where
  method : String
  url : String
  params : Multiset (String × String)
  body : Bytes
  deriving DecidableEq

def VendorCall.wire (config : VendorConfig) (call : VendorCall) : Forwarded where
  method := call.method
  url := vendorUrl config call.path
  params := (call.params.map Dict.items).getD []
  body := call.content.getD []

/-- `httpx.Response`: the header lines as received, the body after decoding. -/
structure VendorResponse where
  statusCode : ℕ
  headers : Lines
  content : Bytes
  deriving DecidableEq

/-- How an awaited `VendorClient.request` ends. The last case covers every other
exception: of the transport, of the adapter, of the secret lookup. -/
inductive VendorOutcome where
  | response (r : VendorResponse)
  | timeout
  | connectError
  | otherError

def success (statusCode : ℕ) : Bool := decide (200 ≤ statusCode ∧ statusCode < 300)

end Gateway.Vendors

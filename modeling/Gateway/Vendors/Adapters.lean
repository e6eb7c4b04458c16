import Gateway.Semantics.Json
import Gateway.Vendors.Client

/-! `gateway/vendors/adapters/`: how an adapter is built from the configuration
of a vendor, and the credential that it puts into a request. The configuration
is JSON whose types nothing checks. -/
namespace Gateway.Vendors

open Http Json Text

/-- A `VendorAdapter`, with the fields that its constructor sets. -/
inductive Adapter where
  | apiKey (headerName queryParam keyRef : Value)
  | oauth2 (tokenUrl clientIdRef clientSecretRef scopes : Value)
  | basic (usernameRef passwordRef : Value)
  | custom (headerRefs : Value)
  | noAuth

section Build

variable (config : Members)

/-- `config.get(name)` -/
def configValue (name : String) : Value := (member? config name).getD .null

/-- `ApiKeyAdapter.__init__`; `none` where it raises. -/
def buildApiKey : Option Adapter := do
  let headerName := configValue config "header_name"
  let queryParam := configValue config "query_param"
  let keyRef ← member? config "key_reference"
  if headerName.truthy || queryParam.truthy then some (.apiKey headerName queryParam keyRef)
  else none

/-- `OAuth2ClientCredentialsAdapter.__init__` -/
def buildOAuth2 : Option Adapter := do
  let tokenUrl ← member? config "token_url"
  let clientIdRef ← member? config "client_id_ref"
  let clientSecretRef ← member? config "client_secret_ref"
  some (.oauth2 tokenUrl clientIdRef clientSecretRef ((member? config "scopes").getD (.arr [])))

/-- `BasicAuthAdapter.__init__` -/
def buildBasic : Option Adapter := do
  let usernameRef ← member? config "username_ref"
  let passwordRef ← member? config "password_ref"
  some (.basic usernameRef passwordRef)

/-- `CustomHeaderAdapter.__init__` -/
def buildCustom : Option Adapter :=
  let headerRefs := (member? config "headers").getD (.obj [])
  if headerRefs.truthy then some (.custom headerRefs) else none

end Build

/-- `build_adapter`; `none` where it raises. -/
def buildAdapter (authType : String) (authConfig : Members) : Option Adapter :=
  if authType = "api_key" then buildApiKey authConfig
  else if authType = "oauth2" then buildOAuth2 authConfig
  else if authType = "basic" then buildBasic authConfig
  else if authType = "custom" then buildCustom authConfig
  else if authType = "none" then some .noAuth
  else none

/-- What the HTTP library supplies: two lines of its own, the query and the Host
of a URL. -/
structure ClientLibrary where
  acceptEncoding : String
  userAgent : String
  query : String → Option (Dict String String) → List (String × String)
  host : String → Option String

/-- The lines of a new client. -/
def ClientLibrary.headers (lib : ClientLibrary) : Lines :=
  [("Accept", "*/*"), ("Accept-Encoding", lib.acceptEncoding), ("Connection", "keep-alive"),
    ("User-Agent", lib.userAgent)]

section Prepare

variable (lib : ClientLibrary) (secrets : String → Option String)

/-- The unsigned request of `VendorClient.request`. -/
def buildRequest (config : VendorConfig) (call : VendorCall) : Option Request :=
  let url := vendorUrl config call.path
  if call.headers.items.all fun line => isAscii line.1 && isAscii line.2 then
    Request.make call.method url (lib.query url call.params) (lib.host url)
      (mergeLines lib.headers call.headers.items) (call.content.getD [])
  else none

/-- `await self._secrets.get(ref)`; only a text can be a reference. -/
def secretOf : Value → Option String
  | .str ref => secrets ref
  | _ => none

/-- The request again, its headers as a dictionary updated with some more. -/
def withHeaders (request : Request) (extra : Lines) : Option Request :=
  Request.make request.method request.url request.params (lib.host request.url)
    ((joinLines request.lines).update extra).items request.content

/-- `dict(request.url.params)`: the first value of a repeated parameter. -/
def firstValues (params : List (String × String)) : Dict String String :=
  params.foldl (fun d e => if e.1 ∈ d.keys then d else d.insert e.1 e.2) Dict.empty

/-- The request again with one query parameter set. -/
def withParam (request : Request) (name value : String) : Option Request :=
  Request.make request.method request.url ((firstValues request.params).insert name value).items
    (lib.host request.url) request.lines request.content

/-- `ApiKeyAdapter.prepare_request` -/
def prepareApiKey (headerName queryParam keyRef : Value) (request : Request) : Option Request := do
  let key ← secretOf secrets keyRef
  if headerName.truthy then
    match headerName with
    | .str name => withHeaders lib request [(name, key)]
    | _ => none
  else
    match queryParam with
    | .str name => withParam lib request name key
    | _ => none

/-- `BasicAuthAdapter.prepare_request` -/
def prepareBasic (usernameRef passwordRef : Value) (request : Request) : Option Request := do
  let username ← secretOf secrets usernameRef
  let password ← secretOf secrets passwordRef
  let credentials := base64 (utf8 (username ++ ":" ++ password))
  withHeaders lib request [("Authorization", "Basic " ++ credentials)]

/-- `OAuth2ClientCredentialsAdapter.prepare_request`, with the result of `_ensure_token`. -/
def prepareOAuth2 (token : Option String) (request : Request) : Option Request := do
  let token ← token
  withHeaders lib request [("Authorization", "Bearer " ++ token)]

/-- The loop that resolves the references of the custom headers. -/
def resolveRefs (refs : Members) : Option Lines :=
  refs.mapM fun e => (secretOf secrets e.2).map fun value => (e.1, value)

/-- `CustomHeaderAdapter.prepare_request` -/
def prepareCustom (headerRefs : Value) (request : Request) : Option Request :=
  match headerRefs with
  | .obj members => do
      let extra ← resolveRefs secrets (Dict.ofList members).items
      withHeaders lib request extra
  | _ => none

/-- `prepare_request`; `none` where it raises. -/
def Adapter.prepareRequest (token : Option String) (request : Request) : Adapter → Option Request
  | .apiKey headerName queryParam keyRef =>
      prepareApiKey lib secrets headerName queryParam keyRef request
  | .oauth2 .. => prepareOAuth2 lib token request
  | .basic usernameRef passwordRef => prepareBasic lib secrets usernameRef passwordRef request
  | .custom headerRefs => prepareCustom lib secrets headerRefs request
  | .noAuth => some request

end Prepare

end Gateway.Vendors

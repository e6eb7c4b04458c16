import Gateway.Auth.Dependencies

/-! `get_current_user`: the two ways to an identity, over every answer of the
key endpoint and of the portal. The documents are JSON, so a key set need not be
one. -/
namespace Gateway.Auth

open Json

/-- The functions of the token library on the documents that it is given. -/
structure TokenLibrary (Key : Type*) where
  construct : Members → Option Key
  getUnverifiedHeader : String → Except String Members
  decode : String → Key → List String → Dict String String → Option String → Option String →
    Except DecodeError Members

/-- `raise_for_status` and `json` in `_fetch_jwks`. -/
def HttpAnswer.document : HttpAnswer → Option Value
  | .transportError => none
  | .response statusCode body => if 200 ≤ statusCode ∧ statusCode < 300 then body else none

/-- An entry on which the loop of `update` raises. -/
def brokenEntry : KeyData (Option Members) := ⟨some "?", none⟩

/-- What the loop of `update` makes of an entry of the document. -/
def keyEntry : Value → KeyData (Option Members)
  | .obj data =>
      match (member? data "kid").filter Value.truthy with
      | none => ⟨none, some data⟩
      | some kid =>
          match kid.hashKey with
          | some text => ⟨some text, some data⟩
          | none => brokenEntry
  | _ => brokenEntry

/-- The entries that `update` goes through; a document without a list of them
fails after the old keys are dropped. -/
def keyEntries : Value → List (KeyData (Option Members))
  | .obj jwks =>
      match ((member? jwks "keys").getD (.arr [])).iterate with
      | some entries => entries.map keyEntry
      | none => [brokenEntry]
  | _ => [brokenEntry]

def HttpAnswer.fetch (answer : HttpAnswer) (clock : ℚ) : Fetch (Option Members) :=
  ⟨answer.document.map keyEntries, clock⟩

/-- `unverified_header.get("kid")`, `None` like an absent one. -/
def headerKid (header : Members) : Option Value :=
  match member? header "kid" with
  | some .null => none
  | kid => kid

def asKey : Option Value → Kid
  | none => .absent
  | some kid =>
      match kid.hashKey with
      | some text => .key text
      | none => .unhashable

section Library

variable {Key : Type*} (L : TokenLibrary Key)

def textClaim (claims : Members) (name : String) : Option String :=
  match member? claims name with
  | some (.str s) => some s
  | _ => none

/-- The library as the verification of a token uses it. -/
def TokenLibrary.jose : Jose String (Option Members) Key Members where
  construct keyData := keyData.material.bind L.construct
  getUnverifiedHeader token := (L.getUnverifiedHeader token).map fun header =>
    asKey (headerKid header)
  decode := L.decode
  iss claims := textClaim claims "iss"
  aud claims := (textClaim claims "aud").toList

end Library

/-- The settings and the state that a call of `get_current_user` meets, and what
the two services answer to it. -/
structure World (Key : Type*) where
  settings : Settings
  portalTokenCacheTtl : ℤ
  cache : JWKSCache Key
  clock : ℚ
  firstJwks : HttpAnswer
  firstClock : ℚ
  retryJwks : HttpAnswer
  retryClock : ℚ
  cached : Option Members
  portal : HttpAnswer

/-- `is_portal_token` -/
def isPortalToken (token : String) : Bool := "tok_".toList.isPrefixOf token.toList

section Authenticate

variable {Key : Type*} (L : TokenLibrary Key) (w : World Key)

def World.first : Fetch (Option Members) := w.firstJwks.fetch w.firstClock

def World.retry : Fetch (Option Members) := w.retryJwks.fetch w.retryClock

/-- `verify_token` -/
def verified (token : String) : Except Failure Members :=
  (verifyToken L.jose w.settings w.cache w.clock w.first w.retry token).2

/-- `_validate_jwt` -/
def validateJwt (token : String) : Outcome UserIdentity :=
  match verified L w token with
  | .ok claims => claimsIdentity claims
  | .error (.auth e) => .http e.statusCode
  | .error .escaped => .escaped

/-- `_validate_portal_token` once `validate` has ended. -/
def afterValidate : Validation → Outcome UserIdentity
  | .payload data => portalIdentity data
  | .none => .http 401
  | .raised => .escaped

/-- `_validate_portal_token` -/
def validatePortalToken : Outcome UserIdentity :=
  afterValidate (validate w.portalTokenCacheTtl w.cached w.portal)

/-- `get_current_user`; the credentials are absent without a bearer token. -/
def getCurrentUser (credentials : Option String) : Outcome UserIdentity :=
  match credentials with
  | none => .http 401
  | some token => if isPortalToken token then validatePortalToken w else validateJwt L w token

end Authenticate

section KeySet

variable {Token Material Key Claims : Type*} (jose : Jose Token Material Key Claims)

/-- The loop of `update` ends exactly if every key with a `kid` can be constructed. -/
theorem installKeys_ends {entries : List (KeyData Material)} {keys : Dict String Key} :
    (installKeys jose entries keys).2 = true ↔
      ∀ entry ∈ entries, (entry.kid.filter (· ≠ "")).isSome → (jose.construct entry).isSome := by
  induction entries generalizing keys with
  | nil => simp [installKeys]
  | cons entry entries ih =>
      rw [List.forall_mem_cons]
      cases hKid : entry.kid.filter (· ≠ "") with
      | none => simp only [installKeys, hKid, ih, Option.isSome_none, Bool.false_eq_true,
          false_implies, true_and]
      | some kid =>
          cases hConstruct : jose.construct entry with
          | none =>
              simp only [installKeys, hKid, hConstruct]
              simp
          | some key => simp only [installKeys, hKid, hConstruct, ih, Option.isSome_some,
              true_implies, true_and]

/-- A refresh ends exactly if there is a document whose keys can be installed. -/
theorem refresh_ends {cache : JWKSCache Key} {fetch : Fetch Material} :
    (cache.refresh jose fetch).2 = true ↔ ∃ entries, fetch.document = some entries ∧
      ∀ entry ∈ entries, (entry.kid.filter (· ≠ "")).isSome → (jose.construct entry).isSome := by
  cases hDocument : fetch.document with
  | none => simp [JWKSCache.refresh, hDocument]
  | some entries =>
      have hUpdate : (cache.refresh jose fetch).2 = (installKeys jose entries Dict.empty).2 := by
        simp only [JWKSCache.refresh, hDocument, JWKSCache.update]
        split_ifs with h <;> simp [h]
      rw [hUpdate, installKeys_ends]
      simp

/-- The selection of a key raises exactly if the `kid` cannot be looked up, or it
forces a refresh that raises. -/
theorem select_escapes {cache : JWKSCache Key} {retry : Fetch Material} {kid : Kid} :
    (cache.select jose retry kid).2 = .error .escaped ↔
      cache.keys.items ≠ [] ∧ (kid = .unhashable ∨ ∃ text, kid = .key text ∧
        cache.keys.get? text = none ∧ (cache.refresh jose retry).2 = false) := by
  unfold JWKSCache.select
  cases cache.keys.items with
  | nil => simp
  | cons entry rest =>
      cases kid with
      | absent => simp
      | unhashable => simp
      | key text =>
          cases hGet : cache.keys.get? text with
          | some key => simp [hGet]
          | none =>
              cases hRefresh : (cache.refresh jose retry).2 with
              | false => simp [hGet, hRefresh]
              | true =>
                  cases hAgain : (cache.refresh jose retry).1.keys.get? text <;>
                    simp [hGet, hRefresh, hAgain]

variable {settings : Settings} {cache : JWKSCache Key} {clock : ℚ} {first retry : Fetch Material}

/-- The cache that a key is selected from. -/
def heldCache (settings : Settings) (cache : JWKSCache Key) (clock : ℚ) (first : Fetch Material) :
    JWKSCache Key :=
  if cache.isStale settings clock then (cache.refresh jose first).1 else cache

/-- The first fetch, if there is one, ends. -/
def FirstEnds (settings : Settings) (cache : JWKSCache Key) (clock : ℚ) (first : Fetch Material) :
    Prop :=
  cache.isStale settings clock = true → (cache.refresh jose first).2 = true

theorem getSigningKey_held {kid : Kid}
    (h : FirstEnds jose settings cache clock first) :
    (getSigningKey jose settings cache clock first retry kid).2 =
      ((heldCache jose settings cache clock first).select jose retry kid).2 := by
  unfold getSigningKey heldCache
  split_ifs with hStale
  · simp [h hStale]
  · rfl

theorem getSigningKey_raises {kid : Kid}
    (h : ¬FirstEnds jose settings cache clock first) :
    (getSigningKey jose settings cache clock first retry kid).2 = .error .escaped := by
  unfold FirstEnds at h
  obtain ⟨hStale, hRefresh⟩ := Classical.not_imp.mp h
  simp [getSigningKey, hStale, hRefresh]

end KeySet

section Totality

variable {Key : Type*} (L : TokenLibrary Key) (w : World Key)

/-- An entry of a key set that `update` goes past or installs. -/
def Installable (entry : Value) : Prop :=
  ∃ data, entry = .obj data ∧ ∀ kid, member? data "kid" = some kid → kid.truthy = true →
    kid.hashKey.isSome ∧ (L.construct data).isSome

/-- An answer with a key set that can be installed. -/
def KeySet (answer : HttpAnswer) : Prop :=
  ∃ jwks entries, answer.document = some (.obj jwks) ∧
    ((member? jwks "keys").getD (.arr [])).iterate = some entries ∧
      ∀ entry ∈ entries, Installable L entry

/-- Claims from which an identity can be built. -/
def Identifiable (claims : Members) : Prop :=
  (member? claims "sub").isSome ∧
    (((member? claims "roles").getD (.arr [])).truthy = false →
      ∀ access, member? claims "realm_access" = some access → ∃ members, access = .obj members)

/-- The keys that a token is verified with. -/
def heldKeys : Dict String Key := (heldCache L.jose w.settings w.cache w.clock w.first).keys

/-- What a token that is no portal token needs of the key endpoint, of its own
header, of its decoding and of its claims. -/
structure JwtTame (token : String) (header : Members) : Prop where
  first : w.cache.isStale w.settings w.clock = true → KeySet L w.firstJwks
  hashable : (heldKeys L w).items ≠ [] → ∀ kid, headerKid header = some kid → kid.hashKey.isSome
  retry : (heldKeys L w).items ≠ [] → ∀ kid text, headerKid header = some kid →
    kid.hashKey = some text → (heldKeys L w).get? text = none → KeySet L w.retryJwks
  decodes : ∀ key, signingKey L.jose w.settings w.cache w.clock w.first w.retry token = some key →
    L.decode token key w.settings.jwtAlgorithms (decodeOptions w.settings) none none ≠ .error .raised
  claims : ∀ claims, verified L w token = .ok claims → Identifiable claims

/-- What a portal token needs of the cached entry or of the portal. -/
def PortalTame : Prop :=
  match w.cached with
  | some data => valid data = true → (member? data "user_id").isSome
  | none =>
      ∀ statusCode body, w.portal = .response statusCode body →
        200 ≤ statusCode ∧ statusCode < 300 → 0 < w.portalTokenCacheTtl ∧
          ∃ data, body = some (.obj data) ∧
            (valid data = true → (member? data "user_id").isSome)

def Tame (credentials : Option String) : Prop :=
  ∀ token, credentials = some token →
    if isPortalToken token then PortalTame w
    else ∀ header, L.getUnverifiedHeader token = .ok header → JwtTame L w token header

/-- A value is returned or status 401 is raised. -/
def Outcome.Total {α : Type*} (o : Outcome α) : Prop := (∃ a, o = .ok a) ∨ o = .http 401

variable {L w}

theorem hashKey_ne_empty {value : Value} {text : String} (h : value.hashKey = some text) :
    text ≠ "" := by
  rintro rfl
  cases value with
  | bool b => cases b <;> simp [Value.hashKey] at h
  | _ => simp [Value.hashKey] at h

theorem keyEntry_installable {entry : Value} :
    (((keyEntry entry).kid.filter (· ≠ "")).isSome → (L.jose.construct (keyEntry entry)).isSome) ↔
      Installable L entry := by
  cases entry with
  | obj data =>
      have hData : Installable L (.obj data) ↔ ∀ kid, member? data "kid" = some kid →
          kid.truthy = true → kid.hashKey.isSome ∧ (L.construct data).isSome := by
        simp [Installable]
      rw [hData]
      cases hKid : (member? data "kid").filter Value.truthy with
      | none =>
          simp only [keyEntry, hKid, Option.filter_none, Option.isSome_none, Bool.false_eq_true,
            false_implies, true_iff]
          intro kid hMember hTruthy
          exact absurd hTruthy (Option.filter_eq_none_iff.mp hKid kid hMember)
      | some kid =>
          obtain ⟨hMember, hTruthy⟩ := Option.filter_eq_some_iff.mp hKid
          cases hText : kid.hashKey with
          | none =>
              have hEntry : keyEntry (.obj data) = brokenEntry := by
                simp only [keyEntry, hKid, hText]
              rw [hEntry]
              simp [brokenEntry, TokenLibrary.jose, hMember, hTruthy, hText]
          | some text =>
              have hEntry : keyEntry (.obj data) = ⟨some text, some data⟩ := by
                simp only [keyEntry, hKid, hText]
              rw [hEntry]
              simp [TokenLibrary.jose, hMember, hTruthy, hText, hashKey_ne_empty hText]
  | _ => simp [keyEntry, brokenEntry, TokenLibrary.jose, Installable]

/-- A refresh ends exactly on a key set that can be installed. -/
theorem refresh_keySet {cache : JWKSCache Key} {answer : HttpAnswer} {clock : ℚ} :
    (cache.refresh L.jose (answer.fetch clock)).2 = true ↔ KeySet L answer := by
  rw [refresh_ends]
  have hBroken : ¬∀ entry ∈ [brokenEntry], (entry.kid.filter (· ≠ "")).isSome →
      (L.jose.construct entry).isSome := by
    simp [brokenEntry, TokenLibrary.jose]
  unfold KeySet HttpAnswer.fetch
  cases answer.document with
  | none => simp
  | some document =>
      simp only [Option.map_some, Option.some.injEq, exists_eq_left']
      cases document with
      | obj jwks =>
          simp only [keyEntries, Value.obj.injEq, exists_and_left, exists_eq_left']
          cases ((member? jwks "keys").getD (.arr [])).iterate with
          | none => simpa using hBroken
          | some entries =>
              simp only [List.forall_mem_map, keyEntry_installable, Option.some.injEq,
                exists_eq_left']
      | _ => simpa [keyEntries] using hBroken

/-- The first fetch ends exactly if it is not made or brings a key set. -/
theorem firstEnds_iff : FirstEnds L.jose w.settings w.cache w.clock w.first ↔
    (w.cache.isStale w.settings w.clock = true → KeySet L w.firstJwks) := by
  unfold FirstEnds World.first
  rw [refresh_keySet]

/-- The search for the key of a token raises exactly if a fetch that it needs brings
no key set, or there are keys and no key can have its `kid`. -/
theorem getSigningKey_escapes (kid : Kid) :
    (getSigningKey L.jose w.settings w.cache w.clock w.first w.retry kid).2 ≠ .error .escaped ↔
      (w.cache.isStale w.settings w.clock = true → KeySet L w.firstJwks) ∧
        ((heldKeys L w).items ≠ [] → kid ≠ .unhashable) ∧
        ((heldKeys L w).items ≠ [] → ∀ text, kid = .key text → (heldKeys L w).get? text = none →
          KeySet L w.retryJwks) := by
  rw [← firstEnds_iff]
  by_cases hFirst : FirstEnds L.jose w.settings w.cache w.clock w.first
  · rw [getSigningKey_held _ hFirst, Ne, select_escapes]
    have hRetry : ((heldCache L.jose w.settings w.cache w.clock w.first).refresh L.jose
        w.retry).2 = true ↔ KeySet L w.retryJwks := refresh_keySet
    rw [← hRetry]
    simp only [heldKeys, hFirst, true_and, not_and, not_or, not_exists, Bool.not_eq_false,
      ← imp_and]
  · rw [getSigningKey_raises _ hFirst]
    simp [hFirst]

/-- Verification raises exactly if the search for the key or the decoding does. -/
theorem verified_raises {token : String} {header : Members}
    (hHeader : L.getUnverifiedHeader token = .ok header) :
    verified L w token = .error .escaped ↔
      (getSigningKey L.jose w.settings w.cache w.clock w.first w.retry
          (asKey (headerKid header))).2 = .error .escaped ∨
        ∃ key, signingKey L.jose w.settings w.cache w.clock w.first w.retry token = some key ∧
          L.decode token key w.settings.jwtAlgorithms (decodeOptions w.settings) none none =
            .error .raised := by
  have hKid : L.jose.getUnverifiedHeader token = .ok (asKey (headerKid header)) := by
    simp [TokenLibrary.jose, hHeader, Except.map]
  simp only [verified, verifyToken, signingKey, hKid]
  cases getSigningKey L.jose w.settings w.cache w.clock w.first w.retry
      (asKey (headerKid header)) with
  | mk cache result =>
      cases result with
      | error failure => simp [Except.toOption]
      | ok key =>
          have hLibrary : L.jose.decode = L.decode := rfl
          simp only [Except.toOption, Option.some.injEq, exists_eq_left', hLibrary]
          cases L.decode token key w.settings.jwtAlgorithms (decodeOptions w.settings)
              none none with
          | ok claims => simp
          | error e => cases e <;> simp

theorem asKey_ne_unhashable {kid : Option Value} :
    asKey kid ≠ .unhashable ↔ ∀ value, kid = some value → value.hashKey.isSome := by
  cases kid with
  | none => simp [asKey]
  | some value => cases hText : value.hashKey <;> simp [asKey, hText]

theorem asKey_eq_key {kid : Option Value} {text : String} :
    asKey kid = .key text ↔ ∃ value, kid = some value ∧ value.hashKey = some text := by
  cases kid with
  | none => simp [asKey]
  | some value => cases hText : value.hashKey <;> simp [asKey, hText]

/-- The first four conditions of `JwtTame` say that verification does not raise. -/
theorem verified_escapes {token : String} {header : Members}
    (hHeader : L.getUnverifiedHeader token = .ok header) :
    verified L w token ≠ .error .escaped ↔
      (w.cache.isStale w.settings w.clock = true → KeySet L w.firstJwks) ∧
        ((heldKeys L w).items ≠ [] → ∀ kid, headerKid header = some kid → kid.hashKey.isSome) ∧
        ((heldKeys L w).items ≠ [] → ∀ kid text, headerKid header = some kid →
          kid.hashKey = some text → (heldKeys L w).get? text = none → KeySet L w.retryJwks) ∧
        ∀ key, signingKey L.jose w.settings w.cache w.clock w.first w.retry token = some key →
          L.decode token key w.settings.jwtAlgorithms (decodeOptions w.settings) none none ≠
            .error .raised := by
  rw [Ne, verified_raises hHeader, not_or, ← Ne, getSigningKey_escapes, asKey_ne_unhashable]
  simp only [asKey_eq_key, forall_exists_index, and_imp, not_exists, not_and, and_assoc, ne_eq]
  refine and_congr_right fun _ => and_congr_right fun _ => and_congr_left fun _ =>
    imp_congr_right fun _ => ?_
  exact forall_comm

theorem claimedRoles_isSome {claims : Members} : (claimedRoles claims).isSome ↔
    (((member? claims "roles").getD (.arr [])).truthy = false →
      ∀ access, member? claims "realm_access" = some access → ∃ members, access = .obj members) := by
  simp only [claimedRoles]
  generalize (member? claims "roles").getD (.arr []) = roles
  cases roles.truthy with
  | true => simp
  | false =>
      simp only [Bool.false_eq_true, if_false, realmRoles, true_implies]
      cases member? claims "realm_access" with
      | none => simp
      | some access => cases access <;> simp

theorem claimsIdentity_total {claims : Members} :
    (claimsIdentity claims).Total ↔ Identifiable claims := by
  unfold Identifiable
  rw [← claimedRoles_isSome]
  unfold claimsIdentity Outcome.Total
  cases claimedRoles claims with
  | none => simp
  | some roles => cases member? claims "sub" <;> simp

theorem portalIdentity_total (result : Members) :
    (portalIdentity result).Total ↔
      (valid result = true → (member? result "user_id").isSome) := by
  unfold portalIdentity Outcome.Total
  cases valid result with
  | false => simp
  | true => cases member? result "user_id" <;> simp

theorem validateJwt_total {token : String} {header : Members}
    (hHeader : L.getUnverifiedHeader token = .ok header) :
    (validateJwt L w token).Total ↔ JwtTame L w token header := by
  have hTame : JwtTame L w token header ↔ verified L w token ≠ .error .escaped ∧
      ∀ claims, verified L w token = .ok claims → Identifiable claims := by
    rw [verified_escapes hHeader]
    constructor
    · rintro ⟨hFirst, hHashable, hRetry, hDecodes, hClaims⟩
      exact ⟨⟨hFirst, hHashable, hRetry, hDecodes⟩, hClaims⟩
    · rintro ⟨⟨hFirst, hHashable, hRetry, hDecodes⟩, hClaims⟩
      exact ⟨hFirst, hHashable, hRetry, hDecodes, hClaims⟩
  rw [hTame]
  unfold validateJwt
  cases verified L w token with
  | ok claims => simpa using claimsIdentity_total
  | error failure =>
      cases failure with
      | auth e => simp [Outcome.Total, AuthError.statusCode]
      | escaped => simp [Outcome.Total]

/-- The answer of the portal with a success status. -/
theorem afterValidate_success {ttl : ℤ} {statusCode : ℕ} {body : Option Value}
    (hStatus : 200 ≤ statusCode ∧ statusCode < 300) :
    (afterValidate (onAnswer ttl (.response statusCode body)).result).Total ↔
      0 < ttl ∧ ∃ data, body = some (.obj data) ∧
        (valid data = true → (member? data "user_id").isSome) := by
  have hRaised : ¬(afterValidate .raised).Total := by
    simp [afterValidate, Outcome.Total]
  cases body with
  | none => simpa [onAnswer, hStatus, Reaction.result] using hRaised
  | some value =>
      cases value with
      | obj data =>
          rw [onAnswer_object hStatus]
          by_cases hTtl : 0 < ttl
          · have hTotal := portalIdentity_total data
            cases hValid : valid data with
            | true => simpa [hTtl, onHit, hValid, afterValidate] using hTotal
            | false => simp [hTtl, onHit, hValid, afterValidate, Outcome.Total]
          · simpa [hTtl] using hRaised
      | _ => simpa [onAnswer, hStatus, Reaction.result] using hRaised

theorem validatePortalToken_total : (validatePortalToken w).Total ↔ PortalTame w := by
  unfold validatePortalToken PortalTame validate
  cases w.cached with
  | some data =>
      simp only [onHit]
      cases hValid : valid data with
      | true => simpa [hValid, afterValidate] using portalIdentity_total data
      | false => simp [afterValidate, Outcome.Total]
  | none =>
      cases w.portal with
      | transportError => simp [onAnswer, Reaction.result, afterValidate, Outcome.Total]
      | response statusCode body =>
          by_cases hStatus : 200 ≤ statusCode ∧ statusCode < 300
          · simp only [afterValidate_success hStatus]
            constructor
            · intro h _ _ hSame _
              cases hSame
              exact h
            · intro h
              exact h statusCode body rfl hStatus
          · have hNone : (onAnswer w.portalTokenCacheTtl (.response statusCode body)).result =
                .none := by
              simp [onAnswer, hStatus, Reaction.result]
            simp only [hNone, afterValidate]
            constructor
            · intro _ _ _ hSame hSuccess
              cases hSame
              exact absurd hSuccess hStatus
            · intro _
              exact Or.inr rfl

/-- Authentication is total exactly in a tame world. -/
theorem authentication_total (credentials : Option String) :
    ((∃ user, getCurrentUser L w credentials = .ok user) ∨
        getCurrentUser L w credentials = .http 401) ↔ Tame L w credentials := by
  change (getCurrentUser L w credentials).Total ↔ _
  unfold getCurrentUser Tame
  cases credentials with
  | none => simp [Outcome.Total]
  | some token =>
      simp only [Option.some.injEq, forall_eq']
      split_ifs with hPortal
      · exact validatePortalToken_total
      · cases hHeader : L.getUnverifiedHeader token with
        | ok header =>
            simp only [Except.ok.injEq, forall_eq', validateJwt_total hHeader]
        | error reason =>
            have hMalformed : validateJwt L w token = .http 401 := by
              simp [validateJwt, verified, verifyToken, TokenLibrary.jose, hHeader, Except.map,
                AuthError.statusCode]
            simp [hMalformed, Outcome.Total]

end Totality

section Sample

/-- A token with the header {"alg":"RS256","kid":"1"} and the claims {"iat":null}. -/
def sampleToken : String := "eyJhbGciOiJSUzI1NiIsImtpZCI6IjEifQ.eyJpYXQiOm51bGx9.c2ln"

def readHeader (token : String) : Except String Members :=
  if token = sampleToken then .ok [("alg", .str "RS256"), ("kid", .str "1")]
  else .error "Error decoding token headers."

/-- A library that reads the header of one token, and rejects its signature. -/
def rejecting : TokenLibrary Unit where
  construct _ := some ()
  getUnverifiedHeader := readHeader
  decode _ _ _ _ _ _ := .error (.other "Signature verification failed.")

/-- The token is signed; its `iat` is no number. -/
def signing : TokenLibrary Unit := { rejecting with decode _ _ _ _ _ _ := .error .raised }

/-- A gateway that has fetched no keys yet, and services that do not answer. -/
def unreachable : World Unit where
  settings := {}
  portalTokenCacheTtl := 60
  cache := ⟨Dict.empty, 0⟩
  clock := 1000
  firstJwks := .transportError
  firstClock := 1000
  retryJwks := .transportError
  retryClock := 1000
  cached := none
  portal := .transportError

/-- The key of the token is cached, under the dictionary key of the text "1". -/
def cachedKey : World Unit := { unreachable with cache := ⟨Dict.empty.insert "'1" (), 900⟩ }

/-- The portal answers with a text that is not JSON. -/
def garbled : World Unit := { unreachable with portal := .response 200 none }

theorem header_sampleToken :
    rejecting.getUnverifiedHeader sampleToken = .ok [("alg", .str "RS256"), ("kid", .str "1")] := by
  simp [rejecting, readHeader]

/-- An error of the key endpoint, a claim of the wrong kind in a signed token and a
garbled answer of the portal all escape. -/
theorem authentication_not_total :
    getCurrentUser rejecting unreachable (some sampleToken) = .escaped ∧
      getCurrentUser signing cachedKey (some sampleToken) = .escaped ∧
      getCurrentUser rejecting garbled (some "tok_1") = .escaped ∧
      ¬∀ (w : World Unit) (credentials : Option String),
        (∃ user, getCurrentUser rejecting w credentials = .ok user) ∨
          getCurrentUser rejecting w credentials = .http 401 := by
  have hRoute : isPortalToken sampleToken = false := by decide +kernel
  have hStale : unreachable.cache.isStale unreachable.settings unreachable.clock = true := by
    decide +kernel
  have hVerified : verified rejecting unreachable sampleToken = .error .escaped := by
    by_contra hEnds
    obtain ⟨jwks, entries, hDocument, -⟩ := ((verified_escapes header_sampleToken).mp hEnds).1 hStale
    cases hDocument
  have hJwt : getCurrentUser rejecting unreachable (some sampleToken) = .escaped := by
    simp [getCurrentUser, hRoute, validateJwt, hVerified]
  have hFresh : cachedKey.cache.isStale cachedKey.settings cachedKey.clock = false := by
    decide +kernel
  have hKid : signing.jose.getUnverifiedHeader sampleToken = .ok (.key "'1") := by
    change (readHeader sampleToken).map (fun header => asKey (headerKid header)) = _
    rw [readHeader, if_pos rfl]
    simp [Except.map, headerKid, member?, asKey, Value.hashKey]
  have hDecoded : verified signing cachedKey sampleToken = .error .escaped := by
    simp only [verified, verifyToken, hKid, getSigningKey, hFresh]
    rfl
  have hClaims : getCurrentUser signing cachedKey (some sampleToken) = .escaped := by
    simp [getCurrentUser, hRoute, validateJwt, hDecoded]
  have hPortal : getCurrentUser rejecting garbled (some "tok_1") = .escaped := by
    have hRoute : isPortalToken "tok_1" = true := by decide
    simp only [getCurrentUser, hRoute, if_true]
    rfl
  refine ⟨hJwt, hClaims, hPortal, ?_⟩
  intro hTotal
  rcases hTotal garbled (some "tok_1") with ⟨user, hUser⟩ | hStatus
  · rw [hPortal] at hUser
    cases hUser
  · rw [hPortal] at hStatus
    cases hStatus

end Sample

end Gateway.Auth

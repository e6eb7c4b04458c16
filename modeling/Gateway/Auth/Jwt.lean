import Gateway.Semantics.Dict
import Mathlib.Algebra.Order.Ring.Rat

/-! `gateway/auth/jwt.py`: the cache of signing keys and the verification of a
token, as functions of what the key endpoint and the token library answer. -/
namespace Gateway.Auth

/-- The settings of `gateway/config.py` that verification reads. -/
structure Settings where
  jwksCacheTtlSeconds : ℤ := 300
  jwtAlgorithms : List String := ["RS256"]
  jwtAudience : Option String := none
  jwtIssuer : Option String := none

/-- `AuthError`, by the place that raises it; the texts are those of the library. -/
inductive AuthError where
  | malformedHeader (reason : String)
  | noKeys
  | unknownKey (kid : String)
  | expired
  | invalidClaims (reason : String)
  | notVerified (reason : String)
  deriving DecidableEq

def AuthError.statusCode : AuthError → ℕ := fun _ => 401

/-- How a verification fails. Exceptions of the key endpoint and of key
construction are not turned into an `AuthError`. -/
inductive Failure where
  | auth (e : AuthError)
  | escaped
  deriving DecidableEq

/-- How `jwt.decode` fails: with one of the three errors that are caught, `JWTError` last,
or with another exception, as for a claim `iat` that is `null`. -/
inductive DecodeError where
  | expiredSignature
  | claims (reason : String)
  | other (reason : String)
  | raised

/-- `unverified_header.get("kid")` as a key of a dictionary; a list or an object is none. -/
inductive Kid where
  | absent
  | key (text : String)
  | unhashable

/-- One entry of a key set. -/
structure KeyData (Material : Type*) where
  kid : Option String
  material : Material

/-- The functions of the token library. `decode` takes the options and the
arguments `audience` and `issuer`, of which it reads the claims `aud` and `iss`. -/
structure Jose (Token Material Key Claims : Type*) where
  construct : KeyData Material → Option Key
  getUnverifiedHeader : Token → Except String Kid
  decode : Token → Key → List String → Dict String String → Option String → Option String →
    Except DecodeError Claims
  iss : Claims → Option String
  aud : Claims → List String

structure JWKSCache (Key : Type*) where
  keys : Dict String Key
  fetchedAt : ℚ

/-- An answer of the key endpoint, if it is a key set, and the clock once it is read. -/
structure Fetch (Material : Type*) where
  document : Option (List (KeyData Material))
  clock : ℚ

variable {Token Material Key Claims : Type*}

section Cache

variable (jose : Jose Token Material Key Claims) (settings : Settings)

def JWKSCache.isStale (cache : JWKSCache Key) (clock : ℚ) : Bool :=
  decide (settings.jwksCacheTtlSeconds < clock - cache.fetchedAt)

/-- The loop of `update`, which ends early when a key cannot be constructed. -/
def installKeys : List (KeyData Material) → Dict String Key → Dict String Key × Bool
  | [], keys => (keys, true)
  | keyData :: rest, keys =>
      match keyData.kid.filter (· ≠ "") with
      | none => installKeys rest keys
      | some kid =>
          match jose.construct keyData with
          | none => (keys, false)
          | some key => installKeys rest (keys.insert kid key)

/-- `update`; whether it gets to its end. -/
def JWKSCache.update (cache : JWKSCache Key) (jwks : List (KeyData Material)) (clock : ℚ) :
    JWKSCache Key × Bool :=
  let installed := installKeys jose jwks Dict.empty
  if installed.2 then (⟨installed.1, clock⟩, true)
  else (⟨installed.1, cache.fetchedAt⟩, false)

/-- `_fetch_jwks` and `update`. -/
def JWKSCache.refresh (cache : JWKSCache Key) (fetch : Fetch Material) : JWKSCache Key × Bool :=
  match fetch.document with
  | none => (cache, false)
  | some jwks => cache.update jose jwks fetch.clock

/-- The end of `get_signing_key`, with one forced refresh for an unknown key. -/
def JWKSCache.select (cache : JWKSCache Key) (retry : Fetch Material) (kid : Kid) :
    JWKSCache Key × Except Failure Key :=
  match cache.keys.items, kid with
  | [], _ => (cache, .error (.auth .noKeys))
  | (_, key) :: _, .absent => (cache, .ok key)
  | _, .unhashable => (cache, .error .escaped)
  | _, .key kid =>
      match cache.keys.get? kid with
      | some key => (cache, .ok key)
      | none =>
          let refreshed := cache.refresh jose retry
          if refreshed.2 then
            match refreshed.1.keys.get? kid with
            | some key => (refreshed.1, .ok key)
            | none => (refreshed.1, .error (.auth (.unknownKey kid)))
          else (refreshed.1, .error .escaped)

/-- `get_signing_key`, with the answers to its first and to its forced fetch. -/
def getSigningKey (cache : JWKSCache Key) (clock : ℚ) (first retry : Fetch Material)
    (kid : Kid) : JWKSCache Key × Except Failure Key :=
  if cache.isStale settings clock then
    let refreshed := cache.refresh jose first
    if refreshed.2 then refreshed.1.select jose retry kid else (refreshed.1, .error .escaped)
  else cache.select jose retry kid

end Cache

/-- A setting as a condition reads it: the empty text counts as none. -/
def configured (setting : Option String) : Option String := setting.filter (· ≠ "")

/-- One `if` of `decode_options`. -/
def withOption (options : Dict String String) (name : String) (setting : Option String) :
    Dict String String :=
  match configured setting with
  | some value => options.insert name value
  | none => options

/-- `decode_options` -/
def decodeOptions (settings : Settings) : Dict String String :=
  withOption (withOption Dict.empty "audience" settings.jwtAudience) "issuer" settings.jwtIssuer

theorem mem_keys_withOption {options : Dict String String} {name k : String}
    {setting : Option String} (h : k ∈ (withOption options name setting).keys) :
    k = name ∨ k ∈ options.keys := by
  unfold withOption at h
  cases hSetting : configured setting with
  | none =>
      rw [hSetting] at h
      exact Or.inr h
  | some value =>
      rw [hSetting] at h
      exact Dict.mem_keys_insert.mp h

theorem mem_keys_decodeOptions {settings : Settings} {k : String}
    (h : k ∈ (decodeOptions settings).keys) : k = "issuer" ∨ k = "audience" := by
  rcases mem_keys_withOption h with hIssuer | hRest
  · exact Or.inl hIssuer
  · rcases mem_keys_withOption hRest with hAudience | hNone
    · exact Or.inr hAudience
    · simp [Dict.keys, Dict.empty] at hNone

section Verify

variable (jose : Jose Token Material Key Claims) (settings : Settings)

/-- `verify_token` -/
def verifyToken (cache : JWKSCache Key) (clock : ℚ) (first retry : Fetch Material)
    (token : Token) : JWKSCache Key × Except Failure Claims :=
  match jose.getUnverifiedHeader token with
  | .error reason => (cache, .error (.auth (.malformedHeader reason)))
  | .ok kid =>
      match getSigningKey jose settings cache clock first retry kid with
      | (cache', .error failure) => (cache', .error failure)
      | (cache', .ok key) =>
          match jose.decode token key settings.jwtAlgorithms (decodeOptions settings) none none with
          | .ok claims => (cache', .ok claims)
          | .error .expiredSignature => (cache', .error (.auth .expired))
          | .error (.claims reason) => (cache', .error (.auth (.invalidClaims reason)))
          | .error (.other reason) => (cache', .error (.auth (.notVerified reason)))
          | .error .raised => (cache', .error .escaped)

/-- The key that a token is to be verified with. -/
def signingKey (cache : JWKSCache Key) (clock : ℚ) (first retry : Fetch Material)
    (token : Token) : Option Key :=
  match jose.getUnverifiedHeader token with
  | .error _ => none
  | .ok kid => (getSigningKey jose settings cache clock first retry kid).2.toOption

/-- A token is accepted exactly if it has a signing key and `decode` accepts it
under the options. -/
theorem verifyToken_eq_ok {cache : JWKSCache Key} {clock : ℚ} {first retry : Fetch Material}
    {token : Token} {claims : Claims} :
    (verifyToken jose settings cache clock first retry token).2 = .ok claims ↔
      ∃ key, signingKey jose settings cache clock first retry token = some key ∧
        jose.decode token key settings.jwtAlgorithms (decodeOptions settings) none none =
          .ok claims := by
  unfold verifyToken signingKey
  cases jose.getUnverifiedHeader token with
  | error reason => simp
  | ok kid =>
      simp only
      cases hKey : getSigningKey jose settings cache clock first retry kid with
      | mk cache' result =>
          cases result with
          | error failure => simp [Except.toOption]
          | ok key =>
              simp only [Except.toOption, Option.some.injEq, exists_eq_left']
              cases hDecode : jose.decode token key settings.jwtAlgorithms
                  (decodeOptions settings) none none with
              | ok c => simp
              | error e => cases e <;> simp

end Verify

/-- The options that the token library knows. -/
def joseOptions : List String :=
  ["verify_signature", "verify_aud", "verify_iat", "verify_exp", "verify_nbf", "verify_iss",
    "verify_sub", "verify_jti", "verify_at_hash", "require_aud", "require_iat", "require_exp",
    "require_nbf", "require_iss", "require_sub", "require_jti", "require_at_hash", "leeway"]

/-- What the token library documents: other options are ignored, and a call
without the arguments `audience` and `issuer` accepts a token whose signature
and times are right, if its claims pass the rule for such a call. -/
structure Documented (jose : Jose Token Material Key Claims)
    (verified : Token → Key → List String → Option Claims) (plain : Claims → Prop) : Prop where
  ignored : ∀ token key algorithms options audience issuer,
    (∀ k ∈ options.keys, k ∉ joseOptions) →
      jose.decode token key algorithms options audience issuer =
        jose.decode token key algorithms Dict.empty audience issuer
  plainly : ∀ token key algorithms claims,
    jose.decode token key algorithms Dict.empty none none = .ok claims ↔
      verified token key algorithms = some claims ∧ plain claims

/-- The claims have the issuer and the audience that are configured. -/
structure Meets (jose : Jose Token Material Key Claims) (settings : Settings) (claims : Claims) :
    Prop where
  issuer : ∀ value ∈ configured settings.jwtIssuer, jose.iss claims = some value
  audience : ∀ value ∈ configured settings.jwtAudience, value ∈ jose.aud claims

section Enforcement

variable (jose : Jose Token Material Key Claims)
  (verified : Token → Key → List String → Option Claims) (settings : Settings)
  (cache : JWKSCache Key) (clock : ℚ) (first retry : Fetch Material) (token : Token)

/-- The token is correctly signed and unexpired, with these claims. -/
def Signed (claims : Claims) : Prop :=
  ∃ key, signingKey jose settings cache clock first retry token = some key ∧
    verified token key settings.jwtAlgorithms = some claims

/-- What is accepted has the configured issuer and audience, and what has them
and is correctly signed and unexpired is accepted. -/
structure Enforced : Prop where
  sound : ∀ claims, (verifyToken jose settings cache clock first retry token).2 = .ok claims →
    Meets jose settings claims
  complete : ∀ claims, Signed jose verified settings cache clock first retry token claims →
    Meets jose settings claims →
      (verifyToken jose settings cache clock first retry token).2 = .ok claims

variable {jose verified settings cache clock first retry token} {plain : Claims → Prop}

/-- The configured values are passed as options that the library ignores. -/
theorem accepted_iff (hJose : Documented jose verified plain) {claims : Claims} :
    (verifyToken jose settings cache clock first retry token).2 = .ok claims ↔
      Signed jose verified settings cache clock first retry token claims ∧ plain claims := by
  have hUnknown : ∀ k ∈ (decodeOptions settings).keys, k ∉ joseOptions := by
    intro k hk
    rcases mem_keys_decodeOptions hk with rfl | rfl <;> decide
  rw [verifyToken_eq_ok]
  constructor
  · rintro ⟨key, hKey, hDecode⟩
    rw [hJose.ignored _ _ _ _ _ _ hUnknown] at hDecode
    have hVerified := (hJose.plainly _ _ _ _).mp hDecode
    exact ⟨⟨key, hKey, hVerified.1⟩, hVerified.2⟩
  · rintro ⟨⟨key, hKey, hVerified⟩, hPlain⟩
    refine ⟨key, hKey, ?_⟩
    rw [hJose.ignored _ _ _ _ _ _ hUnknown]
    exact (hJose.plainly _ _ _ _).mpr ⟨hVerified, hPlain⟩

/-- The configuration is enforced exactly on the tokens for which the rule
without arguments happens to agree with it. -/
theorem audience_issuer_enforced (hJose : Documented jose verified plain) :
    Enforced jose verified settings cache clock first retry token ↔
      ∀ claims, Signed jose verified settings cache clock first retry token claims →
        (plain claims ↔ Meets jose settings claims) := by
  constructor
  · rintro ⟨hSound, hComplete⟩ claims hSigned
    constructor
    · intro hPlain
      exact hSound claims ((accepted_iff hJose).mpr ⟨hSigned, hPlain⟩)
    · intro hMeets
      exact ((accepted_iff hJose).mp (hComplete claims hSigned hMeets)).2
  · intro hAgree
    constructor
    · intro claims hAccepted
      obtain ⟨hSigned, hPlain⟩ := (accepted_iff hJose).mp hAccepted
      exact (hAgree claims hSigned).mp hPlain
    · intro claims hSigned hMeets
      exact (accepted_iff hJose).mpr ⟨hSigned, (hAgree claims hSigned).mpr hMeets⟩

end Enforcement

section Sample

/-- The two claims that matter here, of tokens that are all correctly signed. -/
structure SampleClaims where
  iss : Option String := none
  aud : List String := []
  deriving DecidableEq

/-- A token without the claim `aud` passes every audience, and one that has it
needs the argument. -/
def sampleJose : Jose SampleClaims Unit Unit SampleClaims where
  construct _ := some ()
  getUnverifiedHeader _ := .ok .absent
  decode token _ _ _ audience issuer :=
    if token.aud = [] ∨ ∃ value ∈ audience, value ∈ token.aud then
      if issuer = none ∨ token.iss = issuer then .ok token
      else .error (.claims "Invalid issuer")
    else .error (.claims "Invalid audience")
  iss := SampleClaims.iss
  aud := SampleClaims.aud

def sampleVerified (token : SampleClaims) (_ : Unit) (_ : List String) : Option SampleClaims :=
  some token

theorem sampleJose_documented :
    Documented sampleJose sampleVerified fun claims => claims.aud = [] := by
  constructor
  · intro token key algorithms options audience issuer hUnknown
    rfl
  · intro token key algorithms claims
    unfold sampleVerified
    by_cases hAud : token.aud = []
    · simp only [sampleJose, hAud, true_or, ↓reduceIte, Except.ok.injEq, Option.some.injEq]
      constructor
      · rintro rfl
        exact ⟨rfl, hAud⟩
      · exact And.left
    · have hRejected : sampleJose.decode token key algorithms Dict.empty none none =
          .error (.claims "Invalid audience") := by
        simp [sampleJose, hAud]
      rw [hRejected]
      constructor
      · intro hDecode
        cases hDecode
      · rintro ⟨hClaims, hPlain⟩
        cases hClaims
        exact absurd hPlain hAud

/-- A cache with one key, still fresh at time 0. -/
def sampleCache : JWKSCache Unit := ⟨Dict.empty.insert "key-1" (), 0⟩

/-- The endpoint does not answer; the cache is fresh. -/
def noAnswer : Fetch Unit := ⟨none, 0⟩

def sampleSettings : Settings := { jwtAudience := some "gateway", jwtIssuer := some "portal" }

theorem sample_signed (token : SampleClaims) :
    Signed sampleJose sampleVerified sampleSettings sampleCache 0 noAnswer noAnswer token token := by
  have hFresh : sampleCache.isStale sampleSettings 0 = false := by
    decide +kernel
  have hKey : signingKey sampleJose sampleSettings sampleCache 0 noAnswer noAnswer token =
      some () := by
    simp only [signingKey, sampleJose, getSigningKey, hFresh]
    rfl
  exact ⟨(), hKey, rfl⟩

/-- An issuer is configured, and no audience. -/
def issuerSettings : Settings := { jwtIssuer := some "portal" }

theorem audience_issuer_enforced_issuer :
    Enforced sampleJose sampleVerified issuerSettings sampleCache 0 noAnswer noAnswer
      ⟨some "portal", []⟩ := by
  apply (audience_issuer_enforced sampleJose_documented).mpr
  rintro claims ⟨key, -, hClaims⟩
  cases hClaims
  constructor
  · intro hPlain
    constructor
    · intro value hValue
      cases hValue
      rfl
    · intro value hValue
      cases hValue
  · intro hMeets
    rfl

def foreignToken : SampleClaims := ⟨some "other", []⟩

def ownToken : SampleClaims := ⟨some "portal", ["gateway"]⟩

/-- With an issuer and an audience configured, a token that another issuer made
for no audience is accepted, and one that has both claims is rejected. -/
theorem audience_issuer_not_enforced :
    (verifyToken sampleJose sampleSettings sampleCache 0 noAnswer noAnswer foreignToken).2 =
        .ok foreignToken ∧
      (∀ claims,
        (verifyToken sampleJose sampleSettings sampleCache 0 noAnswer noAnswer ownToken).2 ≠
          .ok claims) ∧
      ¬Enforced sampleJose sampleVerified sampleSettings sampleCache 0 noAnswer noAnswer
        foreignToken ∧
      ¬Enforced sampleJose sampleVerified sampleSettings sampleCache 0 noAnswer noAnswer
        ownToken := by
  have hAccepted : (verifyToken sampleJose sampleSettings sampleCache 0 noAnswer noAnswer
      foreignToken).2 = .ok foreignToken :=
    (accepted_iff sampleJose_documented).mpr ⟨sample_signed _, rfl⟩
  have hRejected : ∀ claims, (verifyToken sampleJose sampleSettings sampleCache 0 noAnswer noAnswer
      ownToken).2 ≠ .ok claims := by
    intro claims hOk
    obtain ⟨⟨key, -, hClaims⟩, hPlain⟩ := (accepted_iff sampleJose_documented).mp hOk
    cases hClaims
    cases hPlain
  refine ⟨hAccepted, hRejected, ?_, ?_⟩
  · intro hEnforced
    have hIssuer := (hEnforced.sound _ hAccepted).issuer "portal" rfl
    exact absurd hIssuer (by decide)
  · intro hEnforced
    have hMeets : Meets sampleJose sampleSettings ownToken := by
      constructor
      · intro value hValue
        cases hValue
        rfl
      · intro value hValue
        cases hValue
        decide
    exact hRejected _ (hEnforced.complete _ (sample_signed _) hMeets)

end Sample

end Gateway.Auth

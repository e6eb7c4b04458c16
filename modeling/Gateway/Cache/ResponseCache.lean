import Gateway.Semantics.Dict
import Gateway.Semantics.Text
import Mathlib.Data.Rat.Defs

/-! `gateway/cache/response_cache.py`: the key of a cached response, the record
that is stored and the rules for storing it. SHA-256 is a parameter. -/
namespace Gateway.Cache

open Text

/-- `hashlib.sha256(data).hexdigest()`: 64 characters for any input. -/
structure Sha256 where
  hexdigest : Bytes → String
  length_hexdigest : ∀ data, (hexdigest data).length = 64

/-- A body argument: `bytes | str | None`. -/
inductive Body where
  | bytes (data : Bytes)
  | str (text : String)
  | none

def Body.toBytes : Body → Bytes
  | .bytes data => data
  | .str text => utf8 text
  | .none => []

/-- `json.dumps(sorted((params or {}).items()), separators=(",", ":"))` -/
def paramsStr (params : Option (Dict String String)) : String :=
  Json.dumpsPairs (sortedItems ((params.map Dict.items).getD []))

/-- The bytes that `make_cache_key` hashes. -/
def cacheFingerprint (params : Option (Dict String String)) (body : Body) : Bytes :=
  utf8 (paramsStr params) ++ body.toBytes

def makeCacheKey (sha256 : Sha256) (vendorSlug endpointPath : String)
    (params : Option (Dict String String)) (body : Body) : String :=
  let path := strip '/' endpointPath
  "cache:" ++ vendorSlug ++ ":" ++ path ++ ":" ++
    sha256.hexdigest (cacheFingerprint params body)

/-- Equal cache keys: the digest has a fixed length, so the text before it and
the digest agree separately. The slug and the path are not separated. -/
theorem makeCacheKey_inj {sha256 : Sha256} {slug slug' path path' : String}
    {params params' : Option (Dict String String)} {body body' : Body}
    (h : makeCacheKey sha256 slug path params body =
      makeCacheKey sha256 slug' path' params' body') :
    slug ++ ":" ++ strip '/' path = slug' ++ ":" ++ strip '/' path' ∧
      sha256.hexdigest (cacheFingerprint params body) =
        sha256.hexdigest (cacheFingerprint params' body') := by
  simp only [makeCacheKey] at h
  have hParts := append_inj_of_length
    (by rw [sha256.length_hexdigest, sha256.length_hexdigest]) h
  have hText := (append_inj_of_length rfl hParts.1).1
  exact ⟨by simpa [String.append_assoc] using hText, hParts.2⟩

/-- `CachedResponse` -/
structure CachedResponse where
  statusCode : ℕ
  headers : Dict String String
  body : Bytes
  cachedAt : ℚ

/-- The guard of `set_cached`: a positive TTL and a 2xx status. -/
def storable (response : CachedResponse) (ttlSeconds : ℤ) : Bool :=
  decide (0 < ttlSeconds) && decide (200 ≤ response.statusCode ∧ response.statusCode < 300)

/-- `resolve_ttl` -/
def resolveTtl (vendorTtl : ℤ) (endpointTtlOverride : Option ℤ) : ℤ :=
  endpointTtlOverride.getD vendorTtl

end Gateway.Cache

import Gateway.Cache.ResponseCache

/-! `gateway/cache/dedup.py`: the keys of the lock, of the channel and of the
stored result, and the lifetimes of the first and the last. -/
namespace Gateway.Cache

open Text

def lockTtlSeconds : ℚ := 30

def resultTtlSeconds : ℚ := 60

/-- Default timeout of `dedup_wait`. -/
def dedupWaitTimeout : ℚ := 30

/-- `_result_key` -/
def resultKey (key : String) : String := key ++ ":result"

/-- The bytes that `make_dedup_key` hashes. -/
def dedupFingerprint (vendorSlug endpointPath : String)
    (params : Option (Dict String String)) (body : Body) : Bytes :=
  let path := strip '/' endpointPath
  utf8 (vendorSlug ++ ":" ++ path ++ ":") ++ utf8 (paramsStr params) ++ body.toBytes

def makeDedupKey (sha256 : Sha256) (vendorSlug endpointPath : String)
    (params : Option (Dict String String)) (body : Body) : String :=
  "dedup:" ++ sha256.hexdigest (dedupFingerprint vendorSlug endpointPath params body)

variable {sha256 : Sha256} {slug slug' path path' : String}
  {params params' : Option (Dict String String)} {body body' : Body}

theorem makeDedupKey_inj
    (h : makeDedupKey sha256 slug path params body =
      makeDedupKey sha256 slug' path' params' body') :
    sha256.hexdigest (dedupFingerprint slug path params body) =
      sha256.hexdigest (dedupFingerprint slug' path' params' body') := by
  simp only [makeDedupKey] at h
  exact (append_inj_of_length (by rw [sha256.length_hexdigest, sha256.length_hexdigest]) h).2

theorem resultKey_injective : Function.Injective resultKey := fun _ _ h =>
  (append_inj_of_length rfl h).1

/-- What the cache tells apart by its text and its digest, the dedup digest
covers in one input. -/
theorem dedupFingerprint_eq
    (hText : slug ++ ":" ++ strip '/' path = slug' ++ ":" ++ strip '/' path')
    (hFingerprint : cacheFingerprint params body = cacheFingerprint params' body') :
    dedupFingerprint slug path params body = dedupFingerprint slug' path' params' body' := by
  simp only [dedupFingerprint, List.append_assoc]
  simp only [cacheFingerprint] at hFingerprint
  rw [hText, hFingerprint]

theorem length_makeDedupKey : (makeDedupKey sha256 slug path params body).length = 70 := by
  rw [makeDedupKey, String.length_append, sha256.length_hexdigest]
  rfl

/-- A lock key is never a result key: they differ in length. -/
theorem makeDedupKey_ne_resultKey :
    makeDedupKey sha256 slug path params body ≠
      resultKey (makeDedupKey sha256 slug' path' params' body') := by
  intro h
  have hLength := congrArg String.length h
  rw [resultKey, String.length_append, length_makeDedupKey, length_makeDedupKey] at hLength
  exact absurd hLength (by decide)

theorem makeDedupKey_ne_makeCacheKey :
    makeDedupKey sha256 slug path params body ≠ makeCacheKey sha256 slug' path' params' body' :=
  ne_of_head (by simp [makeDedupKey, makeCacheKey])

theorem resultKey_ne_makeCacheKey :
    resultKey (makeDedupKey sha256 slug path params body) ≠
      makeCacheKey sha256 slug' path' params' body' :=
  ne_of_head (by simp [resultKey, makeDedupKey, makeCacheKey])

end Gateway.Cache

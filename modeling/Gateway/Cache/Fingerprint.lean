import Gateway.Cache.Dedup
import Gateway.Semantics.JsonText

/-! What the two keys of a request tell apart. The cache key hashes the
parameters and the body and keeps vendor and path outside of the digest; the
dedup key hashes all four in one text. -/
namespace Gateway.Cache

open Text

instance : Std.Total pairLe where
  total e e' := by
    rcases lt_trichotomy e.1.toList e'.1.toList with h | h | h
    · exact Or.inl (Or.inl h)
    · have hFirst : e.1 = e'.1 := String.toList_inj.mp h
      rcases le_total e.2.toList e'.2.toList with h | h
      · exact Or.inl (Or.inr ⟨hFirst, h⟩)
      · exact Or.inr (Or.inr ⟨hFirst.symm, h⟩)
    · exact Or.inr (Or.inl h)

instance : IsTrans (String × String) pairLe where
  trans a b c := by
    rintro (hab | ⟨hab, hab'⟩) (hbc | ⟨hbc, hbc'⟩)
    · exact Or.inl (hab.trans hbc)
    · exact Or.inl (hbc ▸ hab)
    · exact Or.inl (hab ▸ hbc)
    · exact Or.inr ⟨hab.trans hbc, hab'.trans hbc'⟩

instance : Std.Antisymm pairLe where
  antisymm e e' := by
    rintro (h | ⟨h, hLe⟩) (h' | ⟨h', hLe'⟩)
    · exact absurd h' h.asymm
    · exact absurd h (h' ▸ lt_irrefl _)
    · exact absurd h' (h ▸ lt_irrefl _)
    · exact Prod.ext h (String.toList_inj.mp (hLe.antisymm hLe'))

/-- Sorting forgets the order of insertion and nothing else. -/
theorem sortedItems_eq_iff {items items' : List (String × String)} :
    sortedItems items = sortedItems items' ↔ items.Perm items' := by
  have hPerm := List.perm_insertionSort pairLe items
  have hPerm' := List.perm_insertionSort pairLe items'
  constructor
  · intro h
    have hSame : List.insertionSort pairLe items = List.insertionSort pairLe items' := h
    exact hPerm.symm.trans (hSame ▸ hPerm')
  · intro h
    exact ((hPerm.trans h).trans hPerm'.symm).eq_of_pairwise'
      (List.pairwise_insertionSort pairLe items) (List.pairwise_insertionSort pairLe items')

/-- The entries of `params or {}`. -/
def paramItems (params : Option (Dict String String)) : List (String × String) :=
  (params.map Dict.items).getD []

section Cache

variable {sha256 : Sha256} {slug path : String} {params params' : Option (Dict String String)}
  {body body' : Body}

/-- The hashed bytes tell parameters and body apart: the text of the parameters
says where it ends. -/
theorem cacheFingerprint_eq_iff :
    cacheFingerprint params body = cacheFingerprint params' body' ↔
      (paramItems params).Perm (paramItems params') ∧ body.toBytes = body'.toBytes := by
  rw [← sortedItems_eq_iff]
  constructor
  · intro h
    exact Json.utf8_dumpsPairs_selfDelimiting _ _ _ _ h
  · rintro ⟨hParams, hBody⟩
    have hText : paramsStr params = paramsStr params' := congrArg Json.dumpsPairs hParams
    rw [cacheFingerprint, cacheFingerprint, hText, hBody]

/-- The cache fingerprint is exact: with one vendor and path, and unless SHA-256
collides on the two hashed texts, keys agree exactly for equal parameters and
equal body bytes. -/
theorem cache_fingerprint_exact
    (hHash : Set.InjOn sha256.hexdigest
      {cacheFingerprint params body, cacheFingerprint params' body'}) :
    makeCacheKey sha256 slug path params body = makeCacheKey sha256 slug path params' body' ↔
      (paramItems params).Perm (paramItems params') ∧ body.toBytes = body'.toBytes := by
  rw [← cacheFingerprint_eq_iff]
  constructor
  · intro h
    exact hHash (Set.mem_insert ..) (Set.mem_insert_of_mem _ rfl) (makeCacheKey_inj h).2
  · intro h
    rw [makeCacheKey, makeCacheKey, h]

end Cache

/-- The arguments of `make_cache_key` and `make_dedup_key`. -/
structure KeyArgs where
  vendorSlug : String
  endpointPath : String
  params : Option (Dict String String)
  body : Body

namespace KeyArgs

variable (sha256 : Sha256) (a b : KeyArgs)

def cacheKey : String := makeCacheKey sha256 a.vendorSlug a.endpointPath a.params a.body

def dedupKey : String := makeDedupKey sha256 a.vendorSlug a.endpointPath a.params a.body

/-- What stands before the parameters: the slug, a colon, the normalised path. -/
def route : String := a.vendorSlug ++ ":" ++ strip '/' a.endpointPath

/-- The parameters and then the body, as both keys hash them. -/
def data : Bytes := cacheFingerprint a.params a.body

def dedupData : Bytes := dedupFingerprint a.vendorSlug a.endpointPath a.params a.body

def colon : Bytes := utf8 ":"

theorem dedupData_eq : a.dedupData = utf8 a.route ++ (colon ++ a.data) := by
  simp [dedupData, dedupFingerprint, route, data, cacheFingerprint, colon, utf8]

/-- The second route goes on where the first one ends, with a colon and the
beginning of the first one's data; what follows there after another colon is
the data of the second. -/
def Overtakes : Prop :=
  ∃ between, utf8 b.route = utf8 a.route ++ (colon ++ between) ∧
    a.data = between ++ (colon ++ b.data)

/-- Two requests are hashed to one dedup text although the cache keeps them
apart exactly if the route of one overtakes the other's. -/
theorem dedupData_eq_iff :
    a.dedupData = b.dedupData ↔
      (a.route = b.route ∧ a.data = b.data) ∨ Overtakes a b ∨ Overtakes b a := by
  have hSplit (a b : KeyArgs) (more : Bytes) (hRoute : utf8 b.route = utf8 a.route ++ more)
      (hData : colon ++ a.data = more ++ (colon ++ b.data)) :
      (a.route = b.route ∧ a.data = b.data) ∨ Overtakes a b := by
    cases more with
    | nil =>
        rw [List.append_nil] at hRoute
        exact Or.inl ⟨(utf8_injective hRoute).symm, List.append_cancel_left hData⟩
    | cons c between =>
        have hColon : colon = [58] := by decide
        rw [hColon, List.singleton_append, List.cons_append] at hData
        obtain ⟨rfl, hRest⟩ := List.cons.inj hData
        rw [Overtakes, hColon]
        exact Or.inr ⟨between, hRoute, hRest⟩
  rw [dedupData_eq, dedupData_eq]
  constructor
  · intro h
    rcases List.append_eq_append_iff.mp h with ⟨more, hRoute, hData⟩ | ⟨more, hRoute, hData⟩
    · rcases hSplit a b more hRoute hData with hSame | hOver
      · exact Or.inl hSame
      · exact Or.inr (Or.inl hOver)
    · rcases hSplit b a more hRoute hData with ⟨hSame, hSame'⟩ | hOver
      · exact Or.inl ⟨hSame.symm, hSame'.symm⟩
      · exact Or.inr (Or.inr hOver)
  · rintro (⟨hRoute, hData⟩ | ⟨between, hRoute, hData⟩ | ⟨between, hRoute, hData⟩)
    · rw [hRoute, hData]
    · rw [hRoute, hData]
      simp only [List.append_assoc]
    · rw [hRoute, hData]
      simp only [List.append_assoc]

variable {a b}

/-- The overtaking route has the colon and the bracket that open the other's
parameters. -/
theorem Overtakes.bracket (h : Overtakes a b) :
    ∃ front back, utf8 b.route = front ++ (utf8 ":[" ++ back) := by
  obtain ⟨between, hRoute, hData⟩ := h
  obtain ⟨rest, hOpens⟩ := Json.utf8_dumpsPairs_head (sortedItems (paramItems a.params))
  have hOpens : a.data = utf8 "[" ++ (rest ++ a.body.toBytes) := by
    rw [← List.append_assoc, ← hOpens]
    rfl
  rw [hOpens] at hData
  cases between with
  | nil => cases hData
  | cons c between =>
      obtain ⟨rfl, -⟩ := List.cons.inj hData
      exact ⟨utf8 a.route, between, hRoute⟩

theorem Overtakes.ne (h : Overtakes a b) : a.route ≠ b.route := by
  obtain ⟨between, hRoute, -⟩ := h
  intro hSame
  have hLength := congrArg List.length hRoute
  rw [hSame] at hLength
  simp only [List.length_append] at hLength
  have hColon : colon.length = 1 := by decide
  omega

end KeyArgs

/-- The dedup key and the cache key identify the same requests exactly if the
route of neither overtakes the other's, unless SHA-256 collides on the texts
that the two keys hash. -/
theorem keys_identify_alike {sha256 : Sha256} {a b : KeyArgs}
    (hDedup : Set.InjOn sha256.hexdigest {a.dedupData, b.dedupData})
    (hCache : Set.InjOn sha256.hexdigest {a.data, b.data}) :
    (a.dedupKey sha256 = b.dedupKey sha256 ↔ a.cacheKey sha256 = b.cacheKey sha256) ↔
      ¬a.Overtakes b ∧ ¬b.Overtakes a := by
  have hDedupKey : a.dedupKey sha256 = b.dedupKey sha256 ↔ a.dedupData = b.dedupData := by
    constructor
    · intro h
      exact hDedup (Set.mem_insert ..) (Set.mem_insert_of_mem _ rfl) (makeDedupKey_inj h)
    · intro h
      exact congrArg (fun data => "dedup:" ++ sha256.hexdigest data) h
  have hCacheKey : a.cacheKey sha256 = b.cacheKey sha256 ↔ a.route = b.route ∧ a.data = b.data := by
    constructor
    · intro h
      obtain ⟨hRoute, hDigest⟩ := makeCacheKey_inj h
      exact ⟨hRoute, hCache (Set.mem_insert ..) (Set.mem_insert_of_mem _ rfl) hDigest⟩
    · rintro ⟨hRoute, hData⟩
      have hKey (a : KeyArgs) :
          a.cacheKey sha256 = "cache:" ++ a.route ++ ":" ++ sha256.hexdigest a.data := by
        simp [KeyArgs.cacheKey, makeCacheKey, KeyArgs.route, KeyArgs.data, String.append_assoc]
      rw [hKey, hKey, hRoute, hData]
  rw [hDedupKey, hCacheKey, KeyArgs.dedupData_eq_iff]
  constructor
  · intro h
    refine ⟨fun hOver => ?_, fun hOver => ?_⟩
    · exact hOver.ne (h.mp (Or.inr (Or.inl hOver))).1
    · exact hOver.ne (h.mp (Or.inr (Or.inr hOver))).1.symm
  · rintro ⟨hNot, hNot'⟩
    simp [hNot, hNot']

section Sample

/-- Tells inputs of different lengths up to 64 apart. -/
def countingSha256 : Sha256 where
  hexdigest data := String.ofList
    ((List.range 64).map fun i => if i < data.length then '1' else '0')
  length_hexdigest data := by simp [String.length_ofList]

/-- Two parameters in either order, and a body as text or as bytes. -/
theorem cache_fingerprint_exact_reordered :
    makeCacheKey countingSha256 "v" "p" (some (Dict.ofList [("b", "2"), ("a", "é")])) (.str "x") =
      makeCacheKey countingSha256 "v" "p" (some (Dict.ofList [("a", "é"), ("b", "2")]))
        (.bytes [120]) := by
  refine (cache_fingerprint_exact ?_).mpr ?_
  · rw [Set.injOn_pair]
    intro _
    decide +kernel
  · decide +kernel

def plainArgs : KeyArgs := ⟨"v", "p", none, .str "[]"⟩

def slashedArgs : KeyArgs := ⟨"v", "/p/", some Dict.empty, .str "[]"⟩

theorem keys_identify_alike_slashed :
    plainArgs.dedupKey countingSha256 = slashedArgs.dedupKey countingSha256 ↔
      plainArgs.cacheKey countingSha256 = slashedArgs.cacheKey countingSha256 := by
  have hRoute : plainArgs.route = slashedArgs.route := by decide +kernel
  refine (keys_identify_alike (Set.injOn_pair.mpr fun _ => ?_)
    (Set.injOn_pair.mpr fun _ => ?_)).mpr ⟨fun h => h.ne hRoute, fun h => h.ne hRoute.symm⟩
  · decide +kernel
  · decide +kernel

def bodyArgs : KeyArgs := ⟨"v", "p", none, .str ":[]"⟩

def pathArgs : KeyArgs := ⟨"v", "p:[]", none, .str ""⟩

/-- The path of one request ends like the body of the other. -/
theorem keys_identify_apart :
    '/' ∉ "v".toList ∧ Set.InjOn countingSha256.hexdigest {bodyArgs.dedupData, pathArgs.dedupData} ∧
      Set.InjOn countingSha256.hexdigest {bodyArgs.data, pathArgs.data} ∧
      bodyArgs.dedupKey countingSha256 = pathArgs.dedupKey countingSha256 ∧
      bodyArgs.cacheKey countingSha256 ≠ pathArgs.cacheKey countingSha256 := by
  refine ⟨by decide, Set.injOn_pair.mpr fun _ => ?_, Set.injOn_pair.mpr fun h => absurd h ?_,
    ?_, ?_⟩
  · decide +kernel
  · decide +kernel
  · decide +kernel
  · decide +kernel

end Sample

end Gateway.Cache

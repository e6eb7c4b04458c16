import Gateway.Routes.Query
import Gateway.Semantics.PercentEncoding
import Mathlib.Data.List.DropRight

/-! Where the URL of a vendor request points. `VendorClient.request` joins the
base URL and the decoded path as texts; the HTTP library parses the result. -/
namespace Gateway.Routes

open Http Text Rfc3986 Gateway.Vendors

/-- An absolute URL with an authority and neither a query nor a fragment, such
as an `http` or `https` URL with an optional path. -/
structure IsBase (url : String) : Prop where
  scheme : (parse url.toList).scheme.isSome = true
  authority : ∃ authority, authority ≠ [] ∧ (parse url.toList).authority = some authority
  query : (parse url.toList).query = none
  fragment : (parse url.toList).fragment = none

/-- The library sends given parameters in the place of the query of a URL, finds no
parameter in a URL without a query, and leaves the slashes of a path. -/
structure ParsesUrls (lib : ClientLibrary) (safe : Char → Bool) : Prop where
  given : Replaces lib
  none : ∀ url : String, (parse url.toList).query = none → lib.query url none = []
  slash : safe '/' = true

/-- The path of a URL as it is sent: without its dot segments, and with the characters
that are not safe percent-encoded. -/
def sentPath (safe : Char → Bool) (url : String) : List Char :=
  quote safe (normalPath (parse url.toList).path)

/-- The path of the base URL and a slash. -/
def basePath (safe : Char → Bool) (config : VendorConfig) : List Char :=
  sentPath safe (rstrip '/' config.baseUrl ++ "/")

/-- The vendor request goes to the site of the base URL, its path is the base path
followed by the segments of the caller's, and its parameters are the caller's. -/
structure Stays (safe : Char → Bool) (config : VendorConfig) (request : Inbound)
    (built : Request) : Prop where
  scheme : (parse built.url.toList).scheme = (parse config.baseUrl.toList).scheme
  authority : (parse built.url.toList).authority = (parse config.baseUrl.toList).authority
  path : Follows (basePath safe config) (sentPath safe built.url) request.endpointPath.toList
  query : ∀ pair ∈ built.params, pair ∈ request.query

/-- A path without the characters that end it in a URL, without a slash at its
beginning, and of segments that mean what they say. -/
def Plain (path : String) : Prop :=
  (∀ c ∈ path.toList, c ∉ ['?', '#']) ∧ path.toList.head? ≠ some '/' ∧ Literal path.toList

instance (path : String) : Decidable (Plain path) :=
  @instDecidableAnd _ _ (List.decidableBAll _ _) (inferInstanceAs (Decidable (_ ∧ _)))

section Join

variable {url : String} {site : Site} {path : List Char} {s : List Char}

/-- Stripping slashes at the end leaves the site. -/
theorem rstrip_site (hUrl : url.toList = site.text ++ path) (hRooted : Rooted path) :
    ∃ kept, (rstrip '/' url).toList = site.text ++ kept ∧ Rooted kept ∧ kept <+: path := by
  have hSite : site.text.reverse.dropWhile (· == '/') = site.text.reverse := by
    obtain ⟨last, rest, hLast⟩ : ∃ last rest, site.authority.reverse = last :: rest :=
      List.exists_cons_of_ne_nil (by simpa using site.authority_ne)
    have hMem : last ∈ site.authority := by
      rw [← List.mem_reverse, hLast]
      exact List.mem_cons_self
    have hNot : last ≠ '/' := by
      rintro rfl
      exact site.authority_clean _ hMem (by simp)
    simp [Site.text, hLast, hNot]
  have hKept : path.rdropWhile (· == '/') <+: path := List.rdropWhile_prefix _ _
  refine ⟨path.rdropWhile (· == '/'), ?_, ?_, hKept⟩
  · rw [rstrip, String.toList_ofList, hUrl, List.reverse_append, List.dropWhile_append]
    split_ifs with hEmpty
    · have hNil : path.rdropWhile (· == '/') = [] := by
        simpa [List.rdropWhile] using hEmpty
      rw [hSite, hNil, List.reverse_reverse, List.append_nil]
    · rw [List.reverse_append, List.reverse_reverse]
      rfl
  · generalize path.rdropWhile (· == '/') = kept at hKept
    rcases hRooted with rfl | ⟨rest, rfl⟩
    · exact Or.inl (List.prefix_nil.mp hKept)
    · cases kept with
      | nil => exact Or.inl rfl
      | cons c kept =>
          obtain rfl : c = '/' := (List.cons_prefix_cons.mp hKept).1
          exact Or.inr ⟨kept, rfl⟩

/-- What the URL has of a path is the path itself exactly if nothing ends it and no slash
is stripped. -/
theorem joined_eq_iff : before ['?', '#'] (s.dropWhile (· == '/')) = s ↔
    (∀ c ∈ s, c ∉ ['?', '#']) ∧ s.head? ≠ some '/' := by
  constructor
  · intro h
    refine ⟨fun c hc => notMem_before c (h ▸ hc), ?_⟩
    cases s with
    | nil => simp
    | cons c s =>
        rintro hHead
        obtain rfl := Option.some.inj hHead
        have hShort : (before ['?', '#'] (s.dropWhile (· == '/'))).length ≤ s.length :=
          ((List.takeWhile_sublist _).trans (List.dropWhile_sublist _)).length_le
        rw [List.dropWhile_cons_of_pos (by simp)] at h
        rw [h, List.length_cons] at hShort
        omega
  · rintro ⟨hStops, hHead⟩
    have hSame : s.dropWhile (· == '/') = s := by
      cases s with
      | nil => rfl
      | cons c s => exact List.dropWhile_cons_of_neg (by simpa using hHead)
    rw [hSame, before_eq_self hStops]

theorem joined_clean {kept : List Char} (hKept : ∀ c ∈ kept, c ∉ ['?', '#'])
    (h : ∀ c ∈ s, c ∉ ['?', '#']) : ∀ c ∈ kept ++ '/' :: s, c ∉ ['?', '#'] := by
  intro c hc
  rcases List.mem_append.mp hc with hOld | hNew
  · exact hKept c hOld
  · rcases List.mem_cons.mp hNew with rfl | hNew
    · simp
    · exact h c hNew

end Join

section Parsed

variable {lib : ClientLibrary} {config : VendorConfig} {request : Inbound} {call : VendorCall}
  {built : Request} {path : String}

theorem vendorUrl_toList : (vendorUrl config path).toList =
    (rstrip '/' config.baseUrl).toList ++ '/' :: (lstrip '/' path).toList := by
  simp [vendorUrl]

theorem plain_iff : Plain path ↔
    before ['?', '#'] (lstrip '/' path).toList = path.toList ∧ Literal path.toList := by
  rw [lstrip, String.toList_ofList, joined_eq_iff, Plain, and_assoc]

/-- The base URL is a site with a path, which the vendor URL extends. -/
theorem exists_vendorSite (hBase : IsBase config.baseUrl) :
    ∃ (site : Site) (basePath kept : List Char),
      config.baseUrl.toList = site.text ++ basePath ∧ Rooted basePath ∧
        (rstrip '/' config.baseUrl).toList = site.text ++ kept ∧ Rooted kept ∧
          ∀ c ∈ kept, c ∉ ['?', '#'] := by
  obtain ⟨site, basePath, hText, hRooted, hClean⟩ :=
    exists_site hBase.scheme hBase.authority hBase.query hBase.fragment
  obtain ⟨kept, hKept, hKeptRooted, hPrefix⟩ := rstrip_site hText hRooted
  exact ⟨site, basePath, kept, hText, hRooted, hKept, hKeptRooted,
    fun c hc => hClean c (hPrefix.subset hc)⟩

/-- Whatever the path is, the vendor URL has the scheme and the authority of the
base URL; and its path is the expected one exactly if the caller's is plain. -/
theorem vendorUrl_parsed {safe : Char → Bool} (hSlash : safe '/' = true) (path : String)
    (hBase : IsBase config.baseUrl) :
    (parse (vendorUrl config path).toList).scheme = (parse config.baseUrl.toList).scheme ∧
      (parse (vendorUrl config path).toList).authority =
        (parse config.baseUrl.toList).authority ∧
      (Follows (basePath safe config) (sentPath safe (vendorUrl config path)) path.toList ↔
        Plain path) ∧
      (Plain path → (parse (vendorUrl config path).toList).query = none) := by
  obtain ⟨site, sitePath, kept, hText, hRooted, hKept, hKeptRooted, hClean⟩ :=
    exists_vendorSite hBase
  have hJoined (x : List Char) : Rooted (kept ++ '/' :: x) := by
    rcases hKeptRooted with rfl | ⟨rest, rfl⟩
    · exact Or.inr ⟨x, rfl⟩
    · exact Or.inr ⟨rest ++ '/' :: x, rfl⟩
  have hPath (x : List Char) :
      before ['?', '#'] (kept ++ '/' :: x) = kept ++ '/' :: before ['?', '#'] x := by
    rw [before_append hClean]
    rfl
  have hUrl : (vendorUrl config path).toList =
      site.text ++ (kept ++ '/' :: (lstrip '/' path).toList) := by
    rw [vendorUrl_toList, hKept, List.append_assoc]
  have hBasePath : basePath safe config = quote safe (normalPath (kept ++ ['/'])) := by
    have hSlashed : (rstrip '/' config.baseUrl ++ "/").toList =
        site.text ++ (kept ++ '/' :: []) := by
      simp [hKept]
    rw [basePath, sentPath, hSlashed, (parse_site _ (hJoined [])).2.2.1, hPath]
    rfl
  have hSent : sentPath safe (vendorUrl config path) =
      quote safe (normalPath (kept ++ '/' :: before ['?', '#'] (lstrip '/' path).toList)) := by
    rw [sentPath, hUrl, (parse_site _ (hJoined _)).2.2.1, hPath]
  have hSub : (before ['?', '#'] (lstrip '/' path).toList).Sublist path.toList := by
    rw [lstrip, String.toList_ofList]
    exact (List.takeWhile_sublist _).trans (List.dropWhile_sublist _)
  obtain ⟨hScheme, hAuthority, -, -⟩ := parse_site site hRooted
  obtain ⟨hScheme', hAuthority', -, hQuery⟩ :=
    parse_site site (hJoined (lstrip '/' path).toList)
  rw [← hText] at hScheme hAuthority
  rw [← hUrl] at hScheme' hAuthority' hQuery
  refine ⟨hScheme'.trans hScheme.symm, hAuthority'.trans hAuthority.symm, ?_, ?_⟩
  · rw [hSent, hBasePath, plain_iff]
    exact follows_iff hSlash hKeptRooted hSub
  · intro hPlain
    refine hQuery (joined_clean hClean fun c hc => hPlain.1 c ?_)
    rw [lstrip, String.toList_ofList] at hc
    exact (List.dropWhile_sublist _).mem hc

/-- The vendor request goes to the scheme and the authority of the base URL; it
stays below the base path, with the caller's segments and query, if and only if the
caller's path is plain. -/
theorem vendor_stays_iff {safe : Char → Bool} (hLib : ParsesUrls lib safe)
    (hBase : IsBase config.baseUrl) (hCalls : Calls request call)
    (hBuilt : buildRequest lib config call = some built) :
    (parse built.url.toList).scheme = (parse config.baseUrl.toList).scheme ∧
      (parse built.url.toList).authority = (parse config.baseUrl.toList).authority ∧
      (Stays safe config request built ↔ Plain request.endpointPath) := by
  obtain ⟨hUrl, hParams⟩ : built.url = vendorUrl config request.endpointPath ∧
      built.params = lib.query (vendorUrl config request.endpointPath) call.params := by
    unfold buildRequest at hBuilt
    split_ifs at hBuilt
    rw [Request.params_of_make hBuilt, Request.url_of_make hBuilt, path_of_calls hCalls]
    exact ⟨rfl, rfl⟩
  obtain ⟨hScheme, hAuthority, hPath, hQuery⟩ :=
    vendorUrl_parsed hLib.slash request.endpointPath hBase
  rw [hUrl]
  refine ⟨hScheme, hAuthority, ?_⟩
  constructor
  · intro hStays
    exact hPath.mp (hUrl ▸ hStays.path)
  · intro hPlain
    refine ⟨hUrl ▸ hScheme, hUrl ▸ hAuthority, hUrl ▸ hPath.mpr hPlain, ?_⟩
    intro pair hPair
    obtain ⟨hWithout, hWith⟩ := params_of_calls hCalls
    by_cases hEmpty : request.query = []
    · rw [hParams, hWithout hEmpty, hLib.none _ (hQuery hPlain)] at hPair
      cases hPair
    · obtain ⟨params, hCall, hPerm⟩ := hWith hEmpty
      rw [hParams, hCall, hLib.given] at hPair
      exact Dict.of_mem_ofList (hPerm.subset hPair)

end Parsed

section Sample

/-- The characters that the library leaves in a path: the printable ones of ASCII without
the blank and eight others. -/
def pathSafe (c : Char) : Bool :=
  decide (32 < c.toNat ∧ c.toNat < 127) &&
    decide (c.toNat ∉ [0x22, 0x23, 0x3C, 0x3E, 0x3F, 0x60, 0x7B, 0x7D])

theorem parsesUrls_sampleLibrary : ParsesUrls sampleLibrary pathSafe :=
  ⟨replaces_sampleLibrary, fun _ _ => rfl, by decide⟩

/-- A vendor whose API is below `/api`. -/
def apiConfig : VendorConfig := ⟨.nil, "v", "http://v/api", 0⟩

theorem isBase_apiConfig : IsBase apiConfig.baseUrl where
  scheme := by decide
  authority := ⟨['v'], by decide, by decide⟩
  query := by decide
  fragment := by decide

theorem exists_built (path : String) : ∃ built,
    buildRequest sampleLibrary apiConfig (sampleRequest .get path).vendorCall = some built := by
  have hSome : (buildRequest sampleLibrary apiConfig
      (sampleRequest .get "p").vendorCall).isSome = true := by
    decide +kernel
  exact Option.isSome_iff_exists.mp hSome

theorem vendor_stays_items : ∃ built,
    buildRequest sampleLibrary apiConfig (sampleRequest .get "items/7").vendorCall = some built ∧
      Stays pathSafe apiConfig (sampleRequest .get "items/7") built := by
  obtain ⟨built, hBuilt⟩ := exists_built "items/7"
  have hPlain : Plain (sampleRequest .get "items/7").endpointPath := by decide +kernel
  exact ⟨built, hBuilt, (vendor_stays_iff parsesUrls_sampleLibrary isBase_apiConfig .synchronous
    hBuilt).2.2.mpr hPlain⟩

/-- A decoded `../` leads out of the API, and so does `%2e%2e` when the vendor reads it;
`%2F` is read as a slash, a slash at the beginning is lost, and a decoded `?` begins a
query. -/
theorem vendor_escapes :
    sentPath pathSafe (vendorUrl apiConfig "../admin") = "/admin".toList ∧
      segments (sentPath pathSafe (vendorUrl apiConfig "%2e%2e/admin")) =
        ["", "api", "..", "admin"].map utf8 ∧
      (parse (vendorUrl apiConfig "items?all=1").toList).query = some "all=1".toList ∧
      ∀ path ∈ ["../admin", "%2e%2e/admin", "a%2Fb", "/items", "items?all=1", "items#1"],
        ∃ built, buildRequest sampleLibrary apiConfig (sampleRequest .get path).vendorCall =
            some built ∧
          ¬Stays pathSafe apiConfig (sampleRequest .get path) built := by
  refine ⟨by decide +kernel, by decide +kernel, by decide +kernel, fun path hPath => ?_⟩
  have hNot : ∀ path ∈ ["../admin", "%2e%2e/admin", "a%2Fb", "/items", "items?all=1", "items#1"],
      ¬Plain path := by
    decide +kernel
  obtain ⟨built, hBuilt⟩ := exists_built path
  have hUrl : built.url = vendorUrl apiConfig path := by
    unfold buildRequest at hBuilt
    split_ifs at hBuilt
    exact Request.url_of_make hBuilt
  refine ⟨built, hBuilt, fun hStays => hNot path hPath ?_⟩
  have hFollows := hStays.path
  rw [hUrl] at hFollows
  exact (vendorUrl_parsed (by decide) path isBase_apiConfig).2.2.1.mp hFollows

end Sample

end Gateway.Routes

import Gateway.Middleware.Wiring
import Gateway.Semantics.Regex

/-! The four patterns that take a request path apart: that of the proxy route,
and those of the rate limiter, of the request log and of the tracing. -/
namespace Gateway.Middleware

open Text RateLimit Gateway.Routes

/-- `[^/]` -/
def notSlash (c : Char) : Bool := decide (c ≠ '/')

/-- `.` without the flag DOTALL. -/
def notNewline (c : Char) : Bool := decide (c ≠ '\n')

/-- `(?:vendors|v1)` -/
def mount : Pattern := .alt (.lit "vendors".toList) (.lit "v1".toList)

/-- `^/vendors/([^/]+)/(.*)$` -/
def routePattern : Pattern :=
  .seq .start (.seq (.lit "/vendors/".toList) (.seq (.group 1 (.plus notSlash))
    (.seq (.lit ['/']) (.seq (.group 2 (.star notNewline)) .stop))))

/-- `_VENDOR_SLUG_RE` of `rate_limit.py`: `^/(?:vendors|v1)/([^/]+)` -/
def rateLimitPattern : Pattern :=
  .seq .start (.seq (.lit ['/']) (.seq mount (.seq (.lit ['/']) (.group 1 (.plus notSlash)))))

/-- `_VENDOR_SLUG_RE` of `logging.py` and of `tracing.py`:
`^/(?:vendors|v1)/([^/]+)(.*)?$` -/
def endpointPattern : Pattern :=
  .seq .start (.seq (.lit ['/']) (.seq mount (.seq (.lit ['/']) (.seq (.group 1 (.plus notSlash))
    (.seq (.opt (.group 2 (.star notNewline))) .stop)))))

/-- `m.group(n) or default`, of a group that may have taken no part. -/
def groupOr (m : Match) (n : ℕ) (default : String) : String :=
  match m.group n with
  | none => default
  | some text => if text = "" then default else text

/-- The path parameters of the proxy route. -/
def routeParams (path : String) : Option (String × String) := do
  let m ← routePattern.match? path
  let vendorSlug ← m.group 1
  let endpointPath ← m.group 2
  some (vendorSlug, endpointPath)

namespace Logging

/-- `_parse_vendor_and_endpoint` -/
def parseVendorAndEndpoint (path : String) : Option String × Option String :=
  match endpointPattern.match? path with
  | none => (none, none)
  | some m => (m.group 1, some (groupOr m 2 "/"))

end Logging

namespace Tracing

/-- `_parse_vendor_and_endpoint` -/
def parseVendorAndEndpoint (path : String) : String × String :=
  match endpointPattern.match? path with
  | none => ("unknown", path)
  | some m => ((m.group 1).getD "", groupOr m 2 "/")

end Tracing

section Patterns

variable {path : String} {slug rest s : List Char} {m : Match}

/-- What a path is that the route matches: a slug without a slash, and an
endpoint without a line feed, which one line feed may follow. -/
theorem of_routePattern (h : m ∈ routePattern.ways 0 s) :
    ∃ slug endpoint tail, s = "/vendors/".toList ++ (slug ++ '/' :: (endpoint ++ tail)) ∧
      slug ≠ [] ∧ (∀ c ∈ slug, notSlash c = true) ∧ (∀ c ∈ endpoint, notNewline c = true) ∧
      (tail = [] ∨ tail = ['\n']) ∧ m.groups = [(2, endpoint), (1, slug)] := by
  obtain ⟨_, hStart, _, hMounted, rfl⟩ := mem_seq.mp h
  obtain ⟨-, rfl⟩ := mem_start.mp hStart
  obtain ⟨_, hMount, _, hSlugged, rfl⟩ := mem_seq.mp hMounted
  obtain ⟨afterMount, rfl, rfl⟩ := mem_lit.mp hMount
  obtain ⟨_, hFirst, _, hSlashed, rfl⟩ := mem_seq.mp hSlugged
  obtain ⟨slug, hSlug, rfl⟩ := mem_group.mp hFirst
  obtain ⟨rfl, hNe, hSlashes, hGroups⟩ := of_mem_plus hSlug
  obtain ⟨_, hSlash, _, hEnded, rfl⟩ := mem_seq.mp hSlashed
  obtain ⟨afterSlash, hAfter, rfl⟩ := mem_lit.mp hSlash
  obtain ⟨_, hSecond, _, hStop, rfl⟩ := mem_seq.mp hEnded
  obtain ⟨endpoint, hEndpoint, rfl⟩ := mem_group.mp hSecond
  obtain ⟨rfl, hLines, hGroups'⟩ := of_mem_star hEndpoint
  obtain ⟨hTail, rfl⟩ := mem_stop.mp hStop
  refine ⟨slug.text, endpoint.text, endpoint.rest, ?_, hNe, hSlashes, hLines, hTail, ?_⟩
  · rw [show slug.rest = '/' :: (endpoint.text ++ endpoint.rest) from hAfter]
  · simp [Match.append, hGroups, hGroups']

theorem first_mount {name : List Char} (h : name ∈ ["vendors".toList, "v1".toList])
    {position : ℕ} : First mount position (name ++ rest) ⟨name, rest, []⟩ := by
  simp only [List.mem_cons, List.not_mem_nil, or_false] at h
  rcases h with rfl | rfl
  · exact first_lit.alt_left
  · refine First.alt_right (List.eq_nil_iff_forall_not_mem.mpr fun m hm => ?_) first_lit
    obtain ⟨rest', hSame, -⟩ := mem_lit.mp hm
    injection hSame with _ hTail
    injection hTail with hChar
    exact absurd hChar (by decide)

/-- A path under a mount with a slug, as the search of both patterns goes through it. -/
theorem first_mounted {name : List Char} (h : name ∈ ["vendors".toList, "v1".toList])
    {b : Pattern} (hFirst : First b (0 + 1 + name.length + 1) rest m) :
    ∃ m', First (.seq .start (.seq (.lit ['/']) (.seq mount (.seq (.lit ['/']) b)))) 0
        ('/' :: (name ++ '/' :: rest)) m' ∧ m'.groups = m.groups := by
  have hSlash (position : ℕ) (s : List Char) :
      First (.lit ['/']) position ('/' :: s) ⟨['/'], s, []⟩ := first_lit
  refine ⟨_, first_start.seq ((hSlash 0 _).seq ((first_mount h).seq ((hSlash _ rest).seq hFirst))),
    ?_⟩
  simp [Match.append]

/-- The pattern of the rate limiter takes the whole segment. -/
theorem first_rateLimitPattern {name : List Char} (h : name ∈ ["vendors".toList, "v1".toList])
    (hSlug : rest.takeWhile notSlash ≠ []) :
    ∃ m, First rateLimitPattern 0 ('/' :: (name ++ '/' :: rest)) m ∧
      m.groups = [(1, rest.takeWhile notSlash)] :=
  first_mounted h (first_plus hSlug).group

theorem of_rateLimitPattern (h : m ∈ rateLimitPattern.ways 0 s) :
    ∃ name ∈ ["vendors".toList, "v1".toList], ∃ rest, s = '/' :: (name ++ '/' :: rest) ∧
      rest.takeWhile notSlash ≠ [] := by
  obtain ⟨_, hStart, _, hMounted, rfl⟩ := mem_seq.mp h
  obtain ⟨-, rfl⟩ := mem_start.mp hStart
  obtain ⟨_, hSlash, _, hNamed, rfl⟩ := mem_seq.mp hMounted
  obtain ⟨afterSlash, rfl, rfl⟩ := mem_lit.mp hSlash
  obtain ⟨_, hMount, _, hSlashed, rfl⟩ := mem_seq.mp hNamed
  obtain ⟨name, hName, afterName, rfl, rfl⟩ : ∃ name ∈ ["vendors".toList, "v1".toList],
      ∃ afterName, afterSlash = name ++ afterName ∧ _ = (⟨name, afterName, []⟩ : Match) := by
    rcases mem_alt.mp hMount with hVendors | hV1
    · obtain ⟨afterName, hSame, hMatch⟩ := mem_lit.mp hVendors
      exact ⟨_, List.mem_cons_self, afterName, hSame, hMatch⟩
    · obtain ⟨afterName, hSame, hMatch⟩ := mem_lit.mp hV1
      exact ⟨_, List.mem_cons_of_mem _ List.mem_cons_self, afterName, hSame, hMatch⟩
  obtain ⟨_, hSecond, _, hGroup, rfl⟩ := mem_seq.mp hSlashed
  obtain ⟨rest, rfl, rfl⟩ := mem_lit.mp hSecond
  obtain ⟨slug, hSlug, rfl⟩ := mem_group.mp hGroup
  obtain ⟨hRest, hNe, hAll, -⟩ := of_mem_plus hSlug
  refine ⟨name, hName, rest, rfl, ?_⟩
  obtain ⟨c, text, hText⟩ := List.exists_cons_of_ne_nil hNe
  have hc : notSlash c = true := hAll c (by rw [hText]; exact List.mem_cons_self)
  rw [show rest = slug.text ++ slug.rest from hRest, hText, List.cons_append,
    List.takeWhile_cons_of_pos hc]
  exact List.cons_ne_nil _ _

/-- The slug behind a mount, for a path under one. -/
theorem extractVendorSlug_mounted {name : List Char} (h : name ∈ ["vendors".toList, "v1".toList])
    (hPath : path.toList = '/' :: (name ++ '/' :: rest)) :
    extractVendorSlug path = if rest.takeWhile notSlash = [] then none
      else some (String.ofList (rest.takeWhile notSlash)) := by
  simp only [List.mem_cons, List.not_mem_nil, or_false] at h
  unfold extractVendorSlug
  rw [hPath]
  have hNone (x : List Char) : ('/' :: ("vendors".toList ++ '/' :: x)).dropPrefix?
      "/v1/".toList = none := rfl
  have hOther (x : List Char) : ('/' :: ("v1".toList ++ '/' :: x)).dropPrefix?
      "/vendors/".toList = none := rfl
  rcases h with rfl | rfl
  · have hDrop : ('/' :: ("vendors".toList ++ '/' :: rest)).dropPrefix? "/vendors/".toList =
        some rest := List.dropPrefix?_append_of_beq rest (BEq.refl "/vendors/".toList)
    simp only [List.findSome?_cons, List.findSome?_nil, hDrop, hNone, Option.bind_some,
      Option.bind_none]
    unfold notSlash
    split_ifs <;> rfl
  · have hDrop : ('/' :: ("v1".toList ++ '/' :: rest)).dropPrefix? "/v1/".toList =
        some rest := List.dropPrefix?_append_of_beq rest (BEq.refl "/v1/".toList)
    simp only [List.findSome?_cons, List.findSome?_nil, hDrop, hOther, Option.bind_some,
      Option.bind_none]
    unfold notSlash
    split_ifs <;> rfl

/-- The rate limiter reads the slug off its pattern. -/
theorem extractVendorSlug_eq (path : String) :
    extractVendorSlug path = (rateLimitPattern.match? path).bind fun m => m.group 1 := by
  by_cases hMatch : ∃ name ∈ ["vendors".toList, "v1".toList], ∃ rest,
      path.toList = '/' :: (name ++ '/' :: rest) ∧ rest.takeWhile notSlash ≠ []
  · obtain ⟨name, hName, rest, hPath, hSlug⟩ := hMatch
    obtain ⟨m, hFirst, hGroups⟩ := first_rateLimitPattern hName hSlug
    have hFound : rateLimitPattern.match? path = some m := by
      rw [Pattern.match?, hPath]
      exact hFirst
    rw [extractVendorSlug_mounted hName hPath, if_neg hSlug, hFound, Option.bind_some, Match.group,
      hGroups]
    rfl
  · have hNone : rateLimitPattern.match? path = none := by
      rw [Pattern.match?, List.head?_eq_none_iff]
      exact List.eq_nil_iff_forall_not_mem.mpr fun m hm => hMatch (of_rateLimitPattern hm)
    rw [hNone, Option.bind_none, extractVendorSlug, List.findSome?_eq_none_iff]
    intro name hName
    rw [Option.bind_eq_none_iff]
    intro rest hRest
    obtain ⟨start, hPath, hSame⟩ := List.dropPrefix?_eq_some_iff.mp hRest
    obtain rfl := eq_of_beq hSame
    by_contra hSlug
    have hNe : rest.takeWhile notSlash ≠ [] := fun hEmpty => hSlug (if_pos hEmpty)
    simp only [List.mem_cons, List.not_mem_nil, or_false] at hName
    rcases hName with rfl | rfl
    · exact hMatch ⟨"vendors".toList, by simp, rest, hPath, hNe⟩
    · exact hMatch ⟨"v1".toList, by simp, rest, hPath, hNe⟩

end Patterns

section Agreement

variable {path vendorSlug endpointPath : String}

/-- What the route hands to `proxy`, and the path that it comes from. -/
theorem path_of_routeParams (h : routeParams path = some (vendorSlug, endpointPath)) :
    ∃ tail, path.toList = "/vendors/".toList ++
        (vendorSlug.toList ++ '/' :: (endpointPath.toList ++ tail)) ∧
      vendorSlug.toList ≠ [] ∧ (∀ c ∈ vendorSlug.toList, notSlash c = true) ∧
      (∀ c ∈ endpointPath.toList, notNewline c = true) ∧ (tail = [] ∨ tail = ['\n']) := by
  unfold routeParams at h
  simp only [Option.bind_eq_bind, Option.bind_eq_some_iff, Option.some.injEq, Prod.mk.injEq] at h
  obtain ⟨m, hMatch, slug, hSlug, endpoint, hEndpoint, rfl, rfl⟩ := h
  obtain ⟨slugText, endpointText, tail, hPath, hNe, hSlashes, hLines, hTail, hGroups⟩ :=
    of_routePattern (First.mem hMatch)
  rw [Match.group, hGroups] at hSlug hEndpoint
  obtain rfl : String.ofList slugText = slug := Option.some.inj hSlug
  obtain rfl : String.ofList endpointText = endpoint := Option.some.inj hEndpoint
  simp only [String.toList_ofList]
  exact ⟨tail, hPath, hNe, hSlashes, hLines, hTail⟩

theorem takeWhile_slug {slug : List Char} (h : ∀ c ∈ slug, notSlash c = true) (rest : List Char) :
    (slug ++ '/' :: rest).takeWhile notSlash = slug ∧
      (slug ++ '/' :: rest).dropWhile notSlash = '/' :: rest := by
  rw [List.takeWhile_append_of_pos h, List.dropWhile_append_of_pos h]
  simp [notSlash]

theorem takeWhile_endpoint {endpoint tail : List Char}
    (h : ∀ c ∈ endpoint, notNewline c = true) (hTail : tail = [] ∨ tail = ['\n']) :
    ('/' :: (endpoint ++ tail)).takeWhile notNewline = '/' :: endpoint ∧
      ('/' :: (endpoint ++ tail)).dropWhile notNewline = tail := by
  have hSlash : notNewline '/' = true := by decide
  rw [List.takeWhile_cons_of_pos hSlash, List.dropWhile_cons_of_pos hSlash,
    List.takeWhile_append_of_pos h, List.dropWhile_append_of_pos h]
  rcases hTail with rfl | rfl <;> simp [notNewline]

/-- The pattern of the log and the tracing stops where the route does. -/
theorem first_endpointPattern {slug endpoint tail : List Char} (hNe : slug ≠ [])
    (hSlashes : ∀ c ∈ slug, notSlash c = true) (hLines : ∀ c ∈ endpoint, notNewline c = true)
    (hTail : tail = [] ∨ tail = ['\n']) :
    ∃ m, First endpointPattern 0
        ("/vendors/".toList ++ (slug ++ '/' :: (endpoint ++ tail))) m ∧
      m.groups = [(2, '/' :: endpoint), (1, slug)] := by
  obtain ⟨hSlug, hAfterSlug⟩ := takeWhile_slug hSlashes (endpoint ++ tail)
  obtain ⟨hEndpoint, hAfterEndpoint⟩ := takeWhile_endpoint hLines hTail
  have hPlus (position : ℕ) : First (.plus notSlash) position (slug ++ '/' :: (endpoint ++ tail))
      ⟨slug, '/' :: (endpoint ++ tail), []⟩ := by
    have hTaken : (slug ++ '/' :: (endpoint ++ tail)).takeWhile notSlash ≠ [] := by
      rw [hSlug]
      exact hNe
    have hFirst := @first_plus _ position _ hTaken
    rwa [hSlug, hAfterSlug] at hFirst
  have hStar (position : ℕ) : First (.star notNewline) position ('/' :: (endpoint ++ tail))
      ⟨'/' :: endpoint, tail, []⟩ := by
    have hFirst := @first_star notNewline position ('/' :: (endpoint ++ tail))
    rwa [hEndpoint, hAfterEndpoint] at hFirst
  have hMount : "vendors".toList ∈ ["vendors".toList, "v1".toList] := List.mem_cons_self
  exact first_mounted hMount
    ((hPlus _).group.seq ((hStar _).group.alt_left.seq (first_stop hTail)))

theorem match_endpointPattern (h : routeParams path = some (vendorSlug, endpointPath)) :
    ∃ m, endpointPattern.match? path = some m ∧ m.group 1 = some vendorSlug ∧
      groupOr m 2 "/" = "/" ++ endpointPath := by
  obtain ⟨tail, hPath, hNe, hSlashes, hLines, hTail⟩ := path_of_routeParams h
  obtain ⟨m, hFirst, hGroups⟩ := first_endpointPattern hNe hSlashes hLines hTail
  refine ⟨m, by rw [Pattern.match?, hPath]; exact hFirst, ?_, ?_⟩
  · rw [Match.group, hGroups]
    exact congrArg some String.ofList_toList
  · have hGroup : m.group 2 = some ("/" ++ endpointPath) := by
      rw [Match.group, hGroups]
      refine congrArg some (String.toList_inj.mp ?_)
      rw [String.toList_ofList, String.toList_append]
      rfl
    have hText : "/" ++ endpointPath ≠ "" := by
      intro hEmpty
      have hList := congrArg String.toList hEmpty
      rw [String.toList_append] at hList
      cases hList
    rw [groupOr, hGroup]
    exact if_neg hText

theorem extractVendorSlug_of_routeParams (h : routeParams path = some (vendorSlug, endpointPath)) :
    extractVendorSlug path = some vendorSlug := by
  obtain ⟨tail, hPath, hNe, hSlashes, -, -⟩ := path_of_routeParams h
  have hSlug := (takeWhile_slug hSlashes (endpointPath.toList ++ tail)).1
  have hMount : "vendors".toList ∈ ["vendors".toList, "v1".toList] := List.mem_cons_self
  obtain ⟨m, hFirst, hGroups⟩ := first_rateLimitPattern hMount (hSlug.trans_ne hNe)
  have hFound : rateLimitPattern.match? path = some m := by
    rw [Pattern.match?, hPath]
    exact hFirst
  rw [extractVendorSlug_eq, hFound, Option.bind_some, Match.group, hGroups, hSlug]
  exact congrArg some String.ofList_toList

/-- The middleware charges the bucket of the vendor that the route has found. -/
theorem dispatch_of_routeParams (h : routeParams path = some (vendorSlug, endpointPath))
    (D : Deployment) (L : Limits) (now : ℚ) {request : Inbound} (hPath : L.urlPath request = path)
    (buckets : Buckets) :
    (dispatch D L now request buckets).1 =
      (evaluate (((D.registry vendorSlug).map L.rateLimitRpm).getD L.vendorRpm) now
        (vendorKey vendorSlug) buckets).1 := by
  simp only [dispatch, hPath, extractVendorSlug_of_routeParams h]
  split
  all_goals
    rename_i hEvaluated
    rw [hEvaluated]

/-- Every parser finds the slug and the endpoint that the route has found, and
the limiter charges that vendor. -/
theorem parsers_agree (h : routeParams path = some (vendorSlug, endpointPath)) :
    extractVendorSlug path = some vendorSlug ∧
      Logging.parseVendorAndEndpoint path = (some vendorSlug, some ("/" ++ endpointPath)) ∧
      Tracing.parseVendorAndEndpoint path = (vendorSlug, "/" ++ endpointPath) ∧
      ∀ (D : Deployment) (L : Limits) (now : ℚ) (request : Inbound) (buckets : Buckets),
        L.urlPath request = path → (dispatch D L now request buckets).1 =
          (evaluate (((D.registry vendorSlug).map L.rateLimitRpm).getD L.vendorRpm) now
            (vendorKey vendorSlug) buckets).1 := by
  obtain ⟨m, hMatch, hSlug, hEndpoint⟩ := match_endpointPattern h
  refine ⟨extractVendorSlug_of_routeParams h, ?_, ?_, ?_⟩
  · rw [Logging.parseVendorAndEndpoint, hMatch]
    simp only [hSlug, hEndpoint]
  · rw [Tracing.parseVendorAndEndpoint, hMatch]
    simp only [hSlug, hEndpoint, Option.getD_some]
  · intro D L now request buckets hPath
    exact dispatch_of_routeParams h D L now hPath buckets

/-- A line feed in the slug, one at the end, and repeated slashes. -/
theorem parsers_agree_lines :
    extractVendorSlug "/vendors/a\nb/x//%:\n" = some "a\nb" ∧
      Logging.parseVendorAndEndpoint "/vendors/a\nb/x//%:\n" = (some "a\nb", some "/x//%:") ∧
      Tracing.parseVendorAndEndpoint "/vendors/a\nb/x//%:\n" = ("a\nb", "/x//%:") := by
  have hRoute : routeParams "/vendors/a\nb/x//%:\n" = some ("a\nb", "x//%:") := by
    decide +kernel
  obtain ⟨hLimit, hLog, hTrace, -⟩ := parsers_agree hRoute
  exact ⟨hLimit, hLog, hTrace⟩

end Agreement

end Gateway.Middleware

import Gateway.Auth.PortalTokens
import Gateway.Cache.Fingerprint
import Gateway.Middleware.RateLimit
import Gateway.Quota.Tracker
import Gateway.Semantics.Glob
import Mathlib.Data.Finset.Card

/-! `flush_vendor` of `gateway/cache/response_cache.py`: a SCAN for the keys that
match a pattern with the slug in it, which deletes page by page. -/
namespace Gateway.Cache

open Text Glob

/-- The calls that build a key of the gateway's Redis. -/
inductive GatewayKey where
  | cache (args : KeyArgs)
  | dedup (args : KeyArgs)
  | dedupResult (args : KeyArgs)
  | rateLimitVendor (slug : String)
  | rateLimitUser (userId : String)
  | rateLimitUserVendor (userId slug : String)
  | quota (vendorId keyId bucket : String)
  | portalToken (plain : String)
  | other (text : String) (foreign : ¬(utf8 "cache:") <+: utf8 text)

namespace GatewayKey

def text (sha256 : Sha256) : GatewayKey → String
  | .cache args => args.cacheKey sha256
  | .dedup args => args.dedupKey sha256
  | .dedupResult args => resultKey (args.dedupKey sha256)
  | .rateLimitVendor slug => Middleware.RateLimit.vendorKey slug
  | .rateLimitUser userId => Middleware.RateLimit.userKey userId
  | .rateLimitUserVendor userId slug => Middleware.RateLimit.userVendorKey userId slug
  | .quota vendorId keyId bucket => Quota.quotaKey vendorId keyId bucket
  | .portalToken plain => Auth.portalCacheKey sha256 plain
  | .other text _ => text

/-- The key of a cached response of this vendor. -/
def cachedFor (slug : String) : GatewayKey → Bool
  | .cache args => decide (args.vendorSlug = slug)
  | _ => false

end GatewayKey

/-- The keys in a Redis and the call that built each of them. -/
structure Store (sha256 : Sha256) where
  keys : Finset String
  origin : String → GatewayKey
  origin_text : ∀ k ∈ keys, (origin k).text sha256 = k

/-- The reply of one SCAN. -/
structure ScanReply where
  cursor : ℕ
  keys : List String

/-- DEL: the keys that stay and the number of those that were there. -/
def delete (keys : Finset String) (names : List String) : Finset String × ℕ :=
  (keys \ names.toFinset, (keys ∩ names.toFinset).card)

/-- One round of the loop of `_delete_by_pattern`. -/
def deletePage (keys : Finset String) (deleted : ℕ) (reply : ScanReply) : Finset String × ℕ :=
  if reply.keys = [] then (keys, deleted)
  else
    let answer := delete keys reply.keys
    (answer.1, deleted + answer.2)

/-- `_delete_by_pattern` on the replies of SCAN; `none` while the cursor has not
come back to zero. -/
def deleteByPattern : List ScanReply → Finset String → ℕ → Option (Finset String × ℕ)
  | [], _, _ => none
  | reply :: replies, keys, deleted =>
      let page := deletePage keys deleted reply
      if reply.cursor = 0 then some page else deleteByPattern replies page.1 page.2

/-- The key is there at every SCAN. -/
def PresentThroughout (k : String) : List ScanReply → Finset String → Prop
  | [], _ => True
  | reply :: replies, keys =>
      k ∈ keys ∧ PresentThroughout k replies (deletePage keys 0 reply).1

/-- A full iteration of SCAN with MATCH over keys from which the loop deletes.
Pages may be empty and repeat keys. -/
structure Iteration (value : UInt8 → ℤ) (pattern : String) (keys : Finset String) where
  replies : List ScanReply
  last : ScanReply
  open_ : ∀ reply ∈ replies, reply.cursor ≠ 0
  closed : last.cursor = 0
  matching : ∀ reply ∈ replies ++ [last], ∀ k ∈ reply.keys,
    k ∈ keys ∧ globMatches value pattern k = true
  complete : ∀ k, globMatches value pattern k = true → PresentThroughout k (replies ++ [last]) keys →
    ∃ reply ∈ replies ++ [last], k ∈ reply.keys

/-- The pattern of `flush_vendor`. -/
def vendorPattern (slug : String) : String := "cache:" ++ slug ++ ":*"

section Loop

variable {value : UInt8 → ℤ} {pattern k : String} {keys : Finset String} {replies : List ScanReply}

theorem deletePage_eq (keys : Finset String) (deleted : ℕ) (reply : ScanReply) :
    deletePage keys deleted reply =
      (keys \ reply.keys.toFinset, deleted + (keys ∩ reply.keys.toFinset).card) := by
  unfold deletePage
  split_ifs with hEmpty
  · simp [hEmpty]
  · rfl

/-- The keys of all pages. -/
def listed (replies : List ScanReply) : Finset String :=
  (replies.flatMap ScanReply.keys).toFinset

theorem listed_cons (reply : ScanReply) (replies : List ScanReply) :
    listed (reply :: replies) = reply.keys.toFinset ∪ listed replies := by
  simp [listed]

/-- The loop deletes the keys of all pages and counts each of them once. -/
theorem deleteByPattern_append (last : ScanReply) (hOpen : ∀ reply ∈ replies, reply.cursor ≠ 0)
    (hClosed : last.cursor = 0) (deleted : ℕ) :
    deleteByPattern (replies ++ [last]) keys deleted =
      some (keys \ listed (replies ++ [last]),
        deleted + (keys ∩ listed (replies ++ [last])).card) := by
  induction replies generalizing keys deleted with
  | nil => simp [deleteByPattern, hClosed, deletePage_eq, listed]
  | cons reply replies ih =>
      have hCursor : reply.cursor ≠ 0 := hOpen reply List.mem_cons_self
      have hLater : ∀ later ∈ replies, later.cursor ≠ 0 := fun later hLater =>
        hOpen later (List.mem_cons_of_mem _ hLater)
      have hRest := @ih (keys \ reply.keys.toFinset) hLater
        (deleted + (keys ∩ reply.keys.toFinset).card)
      have hCard : (keys ∩ reply.keys.toFinset).card +
          ((keys \ reply.keys.toFinset) ∩ listed (replies ++ [last])).card =
          (keys ∩ (reply.keys.toFinset ∪ listed (replies ++ [last]))).card := by
        rw [← Finset.card_union_of_disjoint]
        · congr 1
          ext k
          simp only [Finset.mem_union, Finset.mem_inter, Finset.mem_sdiff]
          tauto
        · rw [Finset.disjoint_left]
          intro k hk hk'
          simp only [Finset.mem_inter, Finset.mem_sdiff] at hk hk'
          exact hk'.1.2 hk.2
      simp only [List.cons_append, deleteByPattern, if_neg hCursor, deletePage_eq, hRest,
        listed_cons, sdiff_sdiff_left, ← hCard, add_assoc, Finset.sup_eq_union]

/-- A key that no page lists is never deleted. -/
theorem presentThroughout (hKey : k ∈ keys) (hNot : k ∉ listed replies) :
    PresentThroughout k replies keys := by
  induction replies generalizing keys with
  | nil => trivial
  | cons reply replies ih =>
      rw [listed_cons, Finset.mem_union, not_or] at hNot
      refine ⟨hKey, ih ?_ hNot.2⟩
      rw [deletePage_eq]
      exact Finset.mem_sdiff.mpr ⟨hKey, hNot.1⟩

namespace Iteration

variable (it : Iteration value pattern keys)

def pages : List ScanReply := it.replies ++ [it.last]

/-- The pages list exactly the keys that match. -/
theorem listed_pages : listed it.pages = keys.filter fun k => globMatches value pattern k = true := by
  ext k
  rw [Finset.mem_filter]
  constructor
  · intro h
    obtain ⟨reply, hReply, hKey⟩ := List.mem_flatMap.mp (List.mem_toFinset.mp h)
    exact it.matching reply hReply k hKey
  · rintro ⟨hKey, hMatch⟩
    by_contra hNot
    obtain ⟨reply, hReply, hListed⟩ := it.complete k hMatch (presentThroughout hKey hNot)
    exact hNot (List.mem_toFinset.mpr (List.mem_flatMap.mpr ⟨reply, hReply, hListed⟩))

/-- Whatever the pages are, the keys that match are deleted and counted. -/
theorem deleteByPattern_eq : deleteByPattern it.pages keys 0 =
    some (keys.filter fun k => ¬globMatches value pattern k = true,
      (keys.filter fun k => globMatches value pattern k = true).card) := by
  rw [pages, deleteByPattern_append it.last it.open_ it.closed, ← pages, listed_pages,
    Finset.filter_not, Finset.inter_eq_right.mpr (Finset.filter_subset _ _), zero_add]

/-- All keys that match on one page. -/
noncomputable def whole (value : UInt8 → ℤ) (pattern : String) (keys : Finset String) :
    Iteration value pattern keys where
  replies := []
  last := ⟨0, (keys.filter fun k => globMatches value pattern k = true).toList⟩
  open_ := by simp
  closed := rfl
  matching := by simp
  complete k hMatch hPresent := by
    have hKey : k ∈ keys := hPresent.1
    simp [hKey, hMatch]

end Iteration

end Loop

section Vendor

variable {value : UInt8 → ℤ} {sha256 : Sha256} {store : Store sha256} {slug k : String}

/-- `flush_vendor` -/
def flushVendor (it : Iteration value (vendorPattern slug) store.keys) :
    Option (Finset String × ℕ) :=
  deleteByPattern it.pages store.keys 0

/-- The flush removes the cached responses of the vendor, nothing else, and
returns their number. -/
def FlushesExactly (store : Store sha256) (slug : String)
    (result : Option (Finset String × ℕ)) : Prop :=
  let removed := store.keys.filter fun k => (store.origin k).cachedFor slug = true
  result = some (store.keys \ removed, removed.card)

/-- The pattern matches exactly the keys of the vendor. -/
theorem flushesExactly_iff (it : Iteration value (vendorPattern slug) store.keys) :
    FlushesExactly store slug (flushVendor it) ↔ ∀ k ∈ store.keys,
      (globMatches value (vendorPattern slug) k = true ↔
        (store.origin k).cachedFor slug = true) := by
  have hSame : FlushesExactly store slug (flushVendor it) ↔
      (store.keys.filter fun k => globMatches value (vendorPattern slug) k = true) =
        store.keys.filter fun k => (store.origin k).cachedFor slug = true := by
    unfold FlushesExactly flushVendor
    rw [it.deleteByPattern_eq, Finset.filter_not]
    constructor
    · intro h
      have hKept := (Prod.mk.inj (Option.some.inj h)).1
      rw [← Finset.sdiff_sdiff_eq_self (Finset.filter_subset _ store.keys), hKept,
        Finset.sdiff_sdiff_eq_self (Finset.filter_subset _ store.keys)]
    · intro h
      rw [h]
  rw [hSame, Finset.filter_inj']

/-- The characters that a glob pattern does not take for themselves. -/
def globSpecial : List Char := ['*', '?', '[', Char.ofNat 92]

/-- The slug stands for itself in a pattern. -/
def Plain (slug : String) : Prop := ∀ c ∈ slug.toList, c ∉ globSpecial

instance : Decidable (Plain slug) := List.decidableBAll (· ∉ globSpecial) slug.toList

/-- What every key of the vendor begins with. -/
def vendorPrefix (slug : String) : String := "cache:" ++ slug ++ ":"

theorem vendorPrefix_injective : Function.Injective vendorPrefix := by
  intro slug slug' h
  simpa [vendorPrefix, ← String.toList_inj] using h

/-- A cached response of another vendor begins with the prefix of this one. -/
def Crosses (store : Store sha256) (slug : String) : Prop :=
  ∃ k ∈ store.keys, ∃ args, store.origin k = .cache args ∧ args.vendorSlug ≠ slug ∧
    utf8 (vendorPrefix slug) <+: utf8 k

theorem utf8_vendorPattern : utf8 (vendorPattern slug) = utf8 (vendorPrefix slug) ++ [asterisk] := by
  rw [vendorPattern, vendorPrefix, utf8_append _ ":*", utf8_append _ ":", List.append_assoc]
  rfl

/-- Of the bytes of the prefix only those of the slug can be special. -/
theorem mem_vendorPrefix {c : Char} (hc : c ∈ globSpecial) :
    c.toUInt8 ∈ utf8 (vendorPrefix slug) ↔ c ∈ slug.toList := by
  have hAround : ∀ c ∈ globSpecial, c.toNat < 128 ∧ c ∉ "cache:".toList ∧ c ∉ ":".toList := by
    simp [globSpecial]
  obtain ⟨hAscii, hBefore, hAfter⟩ := hAround c hc
  rw [mem_utf8_iff hAscii]
  simp only [vendorPrefix, String.toList_append, List.mem_append, hBefore, hAfter, false_or,
    or_false]

/-- The characters whose bytes are elastic. -/
def elasticChars : List Char := ['*', '[', Char.ofNat 92]

theorem elasticChars_subset : elasticChars ⊆ globSpecial := by decide

theorem exists_elastic_iff :
    (∃ b ∈ utf8 (vendorPrefix slug), Elastic b) ↔ ∃ c ∈ elasticChars, c ∈ slug.toList := by
  have hBytes (b : UInt8) : Elastic b ↔ ∃ c ∈ elasticChars, c.toUInt8 = b := by
    simp [Elastic, elasticChars, asterisk, bracket, escape, eq_comm]
  constructor
  · rintro ⟨b, hb, hElastic⟩
    obtain ⟨c, hc, rfl⟩ := (hBytes b).mp hElastic
    exact ⟨c, hc, (mem_vendorPrefix (elasticChars_subset hc)).mp hb⟩
  · rintro ⟨c, hc, hMem⟩
    exact ⟨c.toUInt8, (mem_vendorPrefix (elasticChars_subset hc)).mpr hMem,
      (hBytes _).mpr ⟨c, hc, rfl⟩⟩

/-- Without elastic characters the tokens follow the bytes. -/
theorem parse_vendorPattern (hElastic : ∀ b ∈ utf8 (vendorPrefix slug), ¬Elastic b) :
    parse value (utf8 (vendorPattern slug)).length (utf8 (vendorPattern slug)) =
      (utf8 (vendorPrefix slug)).map simple ++ [.star] := by
  rw [utf8_vendorPattern, List.length_append, parse_simple hElastic]
  rfl

/-- The pattern of a plain slug matches what begins with its prefix. -/
theorem globMatches_of_plain (hPlain : Plain slug) :
    globMatches value (vendorPattern slug) k = true ↔ utf8 (vendorPrefix slug) <+: utf8 k := by
  have hElastic : ∀ b ∈ utf8 (vendorPrefix slug), ¬Elastic b := by
    intro b hb hElastic
    obtain ⟨c, hc, hMem⟩ := exists_elastic_iff.mp ⟨b, hb, hElastic⟩
    exact hPlain c hMem (elasticChars_subset hc)
  have hQuestion : question ∉ utf8 (vendorPrefix slug) := by
    intro hMem
    have hSpecial : '?' ∈ globSpecial := by decide
    exact hPlain '?' ((mem_vendorPrefix hSpecial).mp hMem) hSpecial
  rw [globMatches, parse_vendorPattern hElastic, accepts_simple hQuestion]
  constructor
  · rintro ⟨rest, hSplit, -⟩
    exact ⟨rest, hSplit.symm⟩
  · rintro ⟨rest, hSplit⟩
    exact ⟨rest, hSplit.symm, accepts_star_nil⟩

theorem cacheKey_eq (args : KeyArgs) : args.cacheKey sha256 = vendorPrefix args.vendorSlug ++
    (strip '/' args.endpointPath ++ ":" ++ sha256.hexdigest args.data) := by
  simp [KeyArgs.cacheKey, makeCacheKey, vendorPrefix, KeyArgs.data, String.append_assoc]

theorem prefix_cacheKey (args : KeyArgs) :
    utf8 (vendorPrefix args.vendorSlug) <+: utf8 (args.cacheKey sha256) := by
  rw [cacheKey_eq, utf8_append]
  exact List.prefix_append _ _

/-- Only the keys of cached responses begin as they do. -/
theorem cache_of_begins {key : GatewayKey} (hCache : utf8 "cache:" <+: utf8 (key.text sha256)) :
    ∃ args, key = .cache args := by
  have hHead : (utf8 (key.text sha256)).head? = some 99 := by
    obtain ⟨rest, hRest⟩ := hCache
    rw [← hRest]
    rfl
  cases key with
  | cache args => exact ⟨args, rfl⟩
  | other text foreign => exact absurd hCache foreign
  | _ =>
      simp only [GatewayKey.text, KeyArgs.dedupKey, makeDedupKey, resultKey, String.append_assoc,
        Middleware.RateLimit.vendorKey, Middleware.RateLimit.userKey,
        Middleware.RateLimit.userVendorKey, Quota.quotaKey, Auth.portalCacheKey,
        utf8_append, List.head?_append] at hHead
      cases hHead

/-- Only cached responses begin with the prefix of a vendor. -/
theorem cache_of_prefix {key : GatewayKey}
    (h : utf8 (vendorPrefix slug) <+: utf8 (key.text sha256)) : ∃ args, key = .cache args := by
  refine cache_of_begins (List.IsPrefix.trans ?_ h)
  rw [vendorPrefix, utf8_append, utf8_append, List.append_assoc]
  exact List.prefix_append _ _

/-- For a plain slug the flush is exact unless another vendor's response begins
with the prefix. -/
theorem flushesExactly_of_plain (hPlain : Plain slug)
    (it : Iteration value (vendorPattern slug) store.keys) :
    FlushesExactly store slug (flushVendor it) ↔ ¬Crosses store slug := by
  rw [flushesExactly_iff]
  constructor
  · rintro hExact ⟨k, hKey, args, hOrigin, hNe, hPrefix⟩
    have hFor := (hExact k hKey).mp ((globMatches_of_plain hPlain).mpr hPrefix)
    rw [hOrigin] at hFor
    exact hNe (of_decide_eq_true hFor)
  · intro hNot k hKey
    rw [globMatches_of_plain hPlain]
    constructor
    · intro hPrefix
      obtain ⟨args, hOrigin⟩ : ∃ args, store.origin k = .cache args := by
        rw [← store.origin_text k hKey] at hPrefix
        exact cache_of_prefix hPrefix
      by_contra hOther
      refine hNot ⟨k, hKey, args, hOrigin, fun hSame => hOther ?_, hPrefix⟩
      rw [hOrigin]
      exact decide_eq_true hSame
    · intro hFor
      cases hOrigin : store.origin k with
      | cache args =>
          rw [hOrigin] at hFor
          have hSlug : args.vendorSlug = slug := of_decide_eq_true hFor
          have hText : args.cacheKey sha256 = k := by
            rw [← store.origin_text k hKey, hOrigin]
            rfl
          rw [← hText, ← hSlug]
          exact prefix_cacheKey args
      | _ =>
          rw [hOrigin] at hFor
          cases hFor

/-- A store with a single cached response. -/
def singleStore (sha256 : Sha256) (args : KeyArgs) : Store sha256 where
  keys := {args.cacheKey sha256}
  origin _ := .cache args
  origin_text _ hKey := (Finset.mem_singleton.mp hKey).symm

/-- The request without path, parameters and body. -/
def bareArgs (slug : String) : KeyArgs := ⟨slug, "", none, .none⟩

/-- One cached response that the pattern treats in the wrong way. -/
theorem exists_inexact (args : KeyArgs)
    (hCross : args.vendorSlug ≠ slug → ¬utf8 (vendorPrefix slug) <+: utf8 (args.cacheKey sha256))
    (hWrong : ¬(globMatches value (vendorPattern slug) (args.cacheKey sha256) = true ↔
      args.vendorSlug = slug)) :
    ∃ store : Store sha256, ¬Crosses store slug ∧
      ∀ it : Iteration value (vendorPattern slug) store.keys,
        ¬FlushesExactly store slug (flushVendor it) := by
  refine ⟨singleStore sha256 args, ?_, fun it hExact => hWrong ?_⟩
  · rintro ⟨k, hKey, args', hOrigin, hNe, hPrefix⟩
    obtain rfl : args = args' := GatewayKey.cache.inj hOrigin
    rw [Finset.mem_singleton.mp hKey] at hPrefix
    exact hCross hNe hPrefix
  · have hSame := (flushesExactly_iff it).mp hExact _ (Finset.mem_singleton_self _)
    simpa [singleStore, GatewayKey.cachedFor] using hSame

/-- The key of the bare request: two colons and the digest after the slug. -/
theorem utf8_bareKey : utf8 ((bareArgs slug).cacheKey sha256) =
    utf8 ("cache:" ++ slug) ++ utf8 (":" ++ (":" ++ sha256.hexdigest (bareArgs slug).data)) := by
  have hPath : strip '/' "" = "" := by decide
  rw [cacheKey_eq, ← utf8_append]
  simp [bareArgs, vendorPrefix, String.append_assoc, hPath]

/-- A pattern with an elastic character that matches the bare key also matches
it with the beginning of the pattern and a letter put before it. -/
theorem globMatches_again (hElastic : ∃ c ∈ elasticChars, c ∈ slug.toList)
    (hOwn : globMatches value (vendorPattern slug) ((bareArgs slug).cacheKey sha256) = true) :
    globMatches value (vendorPattern slug)
      ("cache:" ++ slug ++ ("x" ++ (bareArgs slug).cacheKey sha256)) = true := by
  have hPattern : utf8 (vendorPattern slug) = utf8 ("cache:" ++ slug) ++ utf8 ":*" := by
    rw [vendorPattern, utf8_append _ ":*"]
  have hLong : (utf8 ":*").length <
      (utf8 (":" ++ (":" ++ sha256.hexdigest (bareArgs slug).data))).length := by
    have hDigest : utf8 (sha256.hexdigest (bareArgs slug).data) ≠ utf8 "" := by
      intro hNil
      have hLength := sha256.length_hexdigest (bareArgs slug).data
      rw [utf8_injective hNil] at hLength
      cases hLength
    have hPos := List.length_pos_iff.mpr hDigest
    rw [utf8_append, utf8_append, List.length_append, List.length_append]
    show 2 < 1 + (1 + _)
    omega
  have hBase : ∃ b ∈ utf8 ("cache:" ++ slug), Elastic b := by
    obtain ⟨b, hb, hIs⟩ := exists_elastic_iff.mpr hElastic
    rw [vendorPrefix, utf8_append _ ":", List.mem_append] at hb
    refine ⟨b, hb.resolve_right ?_, hIs⟩
    rintro hColon
    obtain rfl := List.mem_singleton.mp hColon
    exact absurd hIs (by decide)
  rw [globMatches, hPattern, utf8_bareKey] at hOwn
  rw [globMatches, hPattern, utf8_append _ ("x" ++ _), utf8_append "x", utf8_bareKey]
  exact accepts_again hBase rfl hLong hOwn (utf8 "x")

/-- With an elastic character the pattern misses the vendor's own response, or
it also takes one whose slug goes on after the vendor's. -/
theorem exists_inexact_of_elastic (value : UInt8 → ℤ) (sha256 : Sha256)
    (hElastic : ∃ c ∈ elasticChars, c ∈ slug.toList) :
    ∃ store : Store sha256, ¬Crosses store slug ∧
      ∀ it : Iteration value (vendorPattern slug) store.keys,
        ¬FlushesExactly store slug (flushVendor it) := by
  by_cases hOwn : globMatches value (vendorPattern slug) ((bareArgs slug).cacheKey sha256) = true
  · -- the longer slug and its key, which ends with the vendor's own
    let longer := slug ++ "x" ++ "cache:" ++ slug
    have hNe : longer ≠ slug := by
      intro hSame
      have hLength := congrArg String.length hSame
      simp only [longer, String.length_append, show "x".length = 1 from rfl] at hLength
      omega
    have hKey : (bareArgs longer).cacheKey sha256 =
        "cache:" ++ slug ++ ("x" ++ (bareArgs slug).cacheKey sha256) := by
      simp [longer, cacheKey_eq, bareArgs, vendorPrefix, KeyArgs.data, String.append_assoc]
    refine exists_inexact (bareArgs longer) (fun _ hPrefix => ?_)
      fun hSame => hNe (hSame.mp ?_)
    · rw [hKey, vendorPrefix, utf8_append _ ":", utf8_append _ ("x" ++ _)] at hPrefix
      obtain ⟨rest, hRest⟩ := (List.prefix_append_right_inj _).mp hPrefix
      rw [utf8_append] at hRest
      cases hRest
    · rw [hKey]
      exact globMatches_again hElastic hOwn
  · exact exists_inexact (bareArgs slug) (fun hNe => absurd rfl hNe)
      fun hSame => hOwn (hSame.mpr rfl)

/-- A question mark in the slug also matches the slug with a letter there. -/
theorem exists_inexact_of_question (value : UInt8 → ℤ) (sha256 : Sha256)
    (hElastic : ¬∃ c ∈ elasticChars, c ∈ slug.toList) (hQuestion : '?' ∈ slug.toList) :
    ∃ store : Store sha256, ¬Crosses store slug ∧
      ∀ it : Iteration value (vendorPattern slug) store.keys,
        ¬FlushesExactly store slug (flushVendor it) := by
  let lettered := String.ofList (slug.toList.map fun c => if c = '?' then 'x' else c)
  have hNe : lettered ≠ slug := by
    intro hSame
    have hMem : '?' ∈ lettered.toList := hSame ▸ hQuestion
    simp only [lettered, String.toList_ofList, List.mem_map] at hMem
    obtain ⟨c, -, hc⟩ := hMem
    split_ifs at hc with hIs
    · exact absurd hc (by decide)
    · exact hIs hc
  have hBytes : List.Forall₂ (fun c d => c = question ∨ d = c) (utf8 (vendorPrefix slug))
      (utf8 (vendorPrefix lettered)) := by
    have hSame (bytes : Bytes) : List.Forall₂ (fun c d => c = question ∨ d = c) bytes bytes :=
      List.forall₂_same.mpr fun _ _ => Or.inr rfl
    simp only [vendorPrefix, utf8_append]
    refine List.rel_append (List.rel_append (hSame _) ?_) (hSame _)
    rw [utf8, utf8, String.toList_ofList]
    induction slug.toList with
    | nil => exact .nil
    | cons c chars ih =>
        rw [List.map_cons, List.flatMap_cons, List.flatMap_cons]
        refine List.rel_append ?_ ih
        split_ifs with hIs
        · subst hIs
          exact .cons (Or.inl rfl) .nil
        · exact hSame _
  refine exists_inexact (bareArgs lettered) (fun _ hPrefix => ?_)
      fun hSame => hNe (hSame.mp ?_)
  · rw [cacheKey_eq, utf8_append] at hPrefix
    have hEq := (List.prefix_of_prefix_length_le hPrefix (List.prefix_append _ _)
      hBytes.length_eq.le).eq_of_length hBytes.length_eq
    exact hNe (vendorPrefix_injective (utf8_injective hEq)).symm
  · rw [globMatches, parse_vendorPattern fun b hb hb' => hElastic (exists_elastic_iff.mp ⟨b, hb, hb'⟩),
      cacheKey_eq, utf8_append]
    exact accepts_question hBytes accepts_star_nil

/-- For a plain slug, and for no other, every flush is exact unless another
vendor's response begins with the prefix. -/
theorem flush_vendor_exact_iff (value : UInt8 → ℤ) (sha256 : Sha256) (slug : String) :
    (∀ (store : Store sha256) (it : Iteration value (vendorPattern slug) store.keys),
      FlushesExactly store slug (flushVendor it) ↔ ∀ k ∈ store.keys,
        (globMatches value (vendorPattern slug) k = true ↔
          (store.origin k).cachedFor slug = true)) ∧
    (Plain slug ↔ ∀ (store : Store sha256) (it : Iteration value (vendorPattern slug) store.keys),
      FlushesExactly store slug (flushVendor it) ↔ ¬Crosses store slug) := by
  refine ⟨fun _ it => flushesExactly_iff it, fun hPlain _ it => flushesExactly_of_plain hPlain it,
    fun hExact c hMem hSpecial => ?_⟩
  have hNot : ¬∃ store : Store sha256, ¬Crosses store slug ∧
      ∀ it : Iteration value (vendorPattern slug) store.keys,
        ¬FlushesExactly store slug (flushVendor it) := by
    rintro ⟨store, hCross, hInexact⟩
    have it := Iteration.whole value (vendorPattern slug) store.keys
    exact hInexact it ((hExact store it).mpr hCross)
  by_cases hElastic : ∃ c ∈ elasticChars, c ∈ slug.toList
  · exact hNot (exists_inexact_of_elastic value sha256 hElastic)
  · have hQuestion : c = '?' := by
      have hOnly : ∀ c ∈ globSpecial, c ∉ elasticChars → c = '?' := by
        simp [globSpecial, elasticChars]
      exact hOnly c hSpecial fun hc => hElastic ⟨c, hc, hMem⟩
    exact hNot (exists_inexact_of_question value sha256 hElastic (hQuestion ▸ hMem))

end Vendor

section Sample

/-- The response of a vendor whose slug goes on after a colon. -/
def regionalArgs : KeyArgs := ⟨"v:eu", "p", none, .none⟩

/-- Flushing "v" removes it, whatever pages the scan returns. -/
theorem flush_vendor_not_exact :
    ¬∀ (store : Store countingSha256)
      (it : Iteration (fun c => (c.toNat : ℤ)) (vendorPattern "v") store.keys),
      FlushesExactly store "v" (flushVendor it) := by
  intro hExact
  have hPlain : Plain "v" := by simp [Plain, globSpecial]
  have hCross : Crosses (singleStore countingSha256 regionalArgs) "v" := by
    refine ⟨regionalArgs.cacheKey countingSha256, Finset.mem_singleton_self _, regionalArgs, rfl, ?_⟩
    decide +kernel
  have it := Iteration.whole (fun c => (c.toNat : ℤ)) (vendorPattern "v")
    (singleStore countingSha256 regionalArgs).keys
  exact (flushesExactly_of_plain hPlain it).mp (hExact _ it) hCross

end Sample

end Gateway.Cache

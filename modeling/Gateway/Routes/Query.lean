import Gateway.Routes.Credentials

/-! The query parameters of a vendor request against those of the caller. They
pass through a dictionary on the way into `VendorClient.request`, and through
another one in the adapter that puts an API key into the query. -/
namespace Gateway.Vendors

variable {params : List (String × String)}

theorem mem_keys_foldl_first {d : Dict String String} {k : String} :
    k ∈ (params.foldl (fun d e => if e.1 ∈ d.keys then d else d.insert e.1 e.2) d).keys ↔
      k ∈ params.map Prod.fst ∨ k ∈ d.keys := by
  induction params generalizing d with
  | nil => simp
  | cons e params ih =>
      rw [List.foldl_cons, ih, List.map_cons, List.mem_cons]
      by_cases he : e.1 ∈ d.keys
      · rw [if_pos he]
        constructor
        · rintro (hRest | hOld)
          · exact Or.inl (Or.inr hRest)
          · exact Or.inr hOld
        · rintro ((rfl | hRest) | hOld)
          · exact Or.inr he
          · exact Or.inl hRest
          · exact Or.inr hOld
      · rw [if_neg he, Dict.mem_keys_insert]
        tauto

/-- No name gets lost. -/
theorem mem_keys_firstValues {k : String} :
    k ∈ (firstValues params).keys ↔ k ∈ params.map Prod.fst := by
  rw [firstValues, mem_keys_foldl_first]
  simp [Dict.keys, Dict.empty]

/-- Pairs with different names stay as they are. -/
theorem firstValues_items (hNodup : (params.map Prod.fst).Nodup) :
    (firstValues params).items = params := by
  have hFold : ∀ d : Dict String String, ((d.items ++ params).map Prod.fst).Nodup →
      params.foldl (fun d e => if e.1 ∈ d.keys then d else d.insert e.1 e.2) d =
        params.foldl (fun d e => d.insert e.1 e.2) d := by
    clear hNodup
    induction params with
    | nil => exact fun _ _ => rfl
    | cons e params ih =>
        intro d hNodup
        have hNew : e.1 ∉ d.keys := Dict.notMem_keys_of_nodup hNodup
        have hInsert : (d.insert e.1 e.2).items = d.items ++ [e] := Dict.items_insert hNew
        rw [List.foldl_cons, List.foldl_cons, if_neg hNew]
        apply ih
        rw [hInsert]
        simpa using hNodup
  rw [firstValues, hFold Dict.empty (by simpa [Dict.empty] using hNodup)]
  exact Dict.ofList_items hNodup

end Gateway.Vendors

namespace Gateway.Routes

open Http Json Gateway.Db Gateway.Vendors

/-- The pairs whose names the adapter does not set itself. -/
def Credential.kept (c : Credential) (pairs : List (String × String)) : List (String × String) :=
  pairs.filter fun pair => pair.1 ∉ c.params.map Prod.fst

/-- The library sends given parameters in the place of the query of the URL. -/
def Replaces (lib : ClientLibrary) : Prop :=
  ∀ url params, lib.query url (some params) = params.items

section Forwarding

variable {lib : ClientLibrary} {secrets : String → Option String} {token : Option String}
  {config : VendorConfig} {request : Inbound} {call : VendorCall}

theorem path_of_calls (h : Calls request call) : call.path = request.endpointPath := by
  cases h with
  | synchronous => rfl
  | asJob hJob hCall =>
      rw [Jobs.jobCall_createJob _ hJob] at hCall
      cases hCall
      rfl

/-- A call has the caller's parameters as a dictionary, in some order. -/
theorem params_of_calls (h : Calls request call) :
    (request.query = [] → call.params = none) ∧
      (request.query ≠ [] → ∃ params, call.params = some params ∧
        params.items.Perm request.params.items) := by
  have hEmpty : request.params.items = [] ↔ request.query = [] := by
    constructor
    · intro hItems
      by_contra hQuery
      obtain ⟨pair, rest, hCons⟩ := List.exists_cons_of_ne_nil hQuery
      have hKey : pair.1 ∈ request.params.keys :=
        Dict.mem_keys_ofList.mpr (by rw [hCons]; exact List.mem_cons_self)
      rw [Dict.keys, hItems] at hKey
      cases hKey
    · intro hQuery
      rw [Inbound.params, hQuery]
      rfl
  cases h with
  | synchronous =>
      constructor
      · intro hQuery
        exact if_pos (hEmpty.mpr hQuery)
      · intro hQuery
        exact ⟨request.params, if_neg (mt hEmpty.mp hQuery), List.Perm.refl _⟩
  | asJob hJob hCall =>
      rw [Jobs.jobCall_createJob _ hJob] at hCall
      cases hCall
      have hNormal := Jsonb.normal_perm request.params
      constructor
      · intro hQuery
        apply if_pos
        rw [hEmpty.mpr hQuery] at hNormal
        exact List.perm_nil.mp hNormal
      · intro hQuery
        refine ⟨Jsonb.normal request.params, if_neg ?_, hNormal⟩
        intro hItems
        rw [hItems] at hNormal
        exact hQuery (hEmpty.mp (List.nil_perm.mp hNormal))

/-- The parameters that the adapter sends for those of the unsigned request. -/
theorem params_of_prepared {unsigned signed : Request} {c : Credential}
    (h : Prepared lib unsigned signed c) :
    c.params = [] ∧ signed.params = unsigned.params ∨
      ∃ name value, c.params = [(name, value)] ∧
        signed.params = ((firstValues unsigned.params).insert name value).items := by
  cases h with
  | headers _ hMade => exact Or.inl ⟨rfl, Request.params_of_make hMade⟩
  | param hMade => exact Or.inr ⟨_, _, rfl, Request.params_of_make hMade⟩
  | nothing hSame => exact Or.inl ⟨rfl, congrArg Request.params hSame⟩

theorem kept_of_params_nil {c : Credential} (h : c.params = []) (pairs : List (String × String)) :
    c.kept pairs = pairs := by
  simp [Credential.kept, h]

theorem kept_of_params_singleton {c : Credential} {name value : String}
    (h : c.params = [(name, value)]) (pairs : List (String × String)) :
    c.kept pairs = pairs.filter fun pair => decide (pair.1 ≠ name) := by
  simp [Credential.kept, h]

/-- The query of the signed request is the expected one if the adapter is given
the kept pairs, up to names that it replaces. -/
theorem signed_perm_iff {unsigned signed : Request} {c : Credential}
    (h : Prepared lib unsigned signed c) (hNodup : (unsigned.params.map Prod.fst).Nodup)
    (pairs : List (String × String)) :
    signed.params.Perm (c.kept pairs ++ c.params) ↔
      (c.kept unsigned.params).Perm (c.kept pairs) := by
  rcases params_of_prepared h with ⟨hNone, hSame⟩ | ⟨name, value, hOne, hSigned⟩
  · rw [hSame, hNone, List.append_nil, kept_of_params_nil hNone, kept_of_params_nil hNone]
  · have hInsert := Dict.insert_items_perm (firstValues unsigned.params) name value
    rw [firstValues_items hNodup] at hInsert
    rw [hSigned, hOne, kept_of_params_singleton hOne, kept_of_params_singleton hOne,
      hInsert.congr_left]
    exact List.perm_append_right_iff _

/-- Where the caller sends nothing, the query is the expected one if the adapter
is given nothing but what it replaces. -/
theorem signed_perm_nil_iff {unsigned signed : Request} {c : Credential}
    (h : Prepared lib unsigned signed c) :
    signed.params.Perm c.params ↔ c.kept unsigned.params = [] := by
  rcases params_of_prepared h with ⟨hNone, hSame⟩ | ⟨name, value, hOne, hSigned⟩
  · rw [hSame, hNone, kept_of_params_nil hNone, List.perm_nil]
  · have hInsert := Dict.insert_items_perm (firstValues unsigned.params) name value
    have hCancel (kept : List (String × String)) :
        (kept ++ [(name, value)]).Perm [(name, value)] ↔ kept = [] := by
      show (kept ++ [(name, value)]).Perm ([] ++ [(name, value)]) ↔ kept = []
      rw [List.perm_append_right_iff, List.perm_nil]
    rw [hSigned, hOne, kept_of_params_singleton hOne, hInsert.congr_left, hCancel,
      List.filter_eq_nil_iff, List.filter_eq_nil_iff]
    have hNames (P : String → Prop) : (∀ e ∈ (firstValues unsigned.params).items, P e.1) ↔
        ∀ e ∈ unsigned.params, P e.1 := by
      constructor
      · intro hAll e he
        have hKey := mem_keys_firstValues.mpr (List.mem_map_of_mem he)
        obtain ⟨e', he', hSame⟩ := List.mem_map.mp hKey
        exact hSame ▸ hAll e' he'
      · intro hAll e he
        have hKey := mem_keys_firstValues.mp (List.mem_map_of_mem he)
        obtain ⟨e', he', hSame⟩ := List.mem_map.mp hKey
        exact hSame ▸ hAll e' he'
    exact hNames fun k => ¬decide (k ≠ name) = true

/-- The kept pairs get through a dictionary exactly if their names differ. -/
theorem kept_params_perm_iff (c : Credential) :
    (c.kept request.params.items).Perm (c.kept request.query) ↔
      ((c.kept request.query).map Prod.fst).Nodup := by
  have hFilter := Dict.ofList_filterKeys (fun k => decide (k ∉ c.params.map Prod.fst))
    request.query
  have hItems : c.kept request.params.items = (Dict.ofList (c.kept request.query)).items :=
    congrArg Dict.items hFilter
  rw [hItems]
  exact Dict.ofList_perm_iff

/-- The query of a vendor request has the caller's pairs, with what an adapter
sets replaced, if and only if the kept pairs have different names and, where the
caller has no query, neither has the URL that the path makes. -/
theorem query_forwarded_iff (hLib : Replaces lib) {adapter : Adapter} {signed : Request}
    (hCalls : Calls request call)
    (hSigned : signedRequest lib secrets token config call adapter = some signed) :
    ∃ c, credentialOf secrets token adapter = some c ∧
      (signed.params.Perm (c.kept request.query ++ c.params) ↔
        ((c.kept request.query).map Prod.fst).Nodup ∧
          (request.query = [] →
            c.kept (lib.query (vendorUrl config request.endpointPath) none) = [])) := by
  obtain ⟨unsigned, hUnsigned, hAdapter⟩ := Option.bind_eq_some_iff.mp hSigned
  obtain ⟨c, hCredential, hPrepared⟩ := prepared_of_prepareRequest hAdapter
  refine ⟨c, hCredential, ?_⟩
  have hParams : unsigned.params =
      lib.query (vendorUrl config request.endpointPath) call.params := by
    unfold buildRequest at hUnsigned
    split_ifs at hUnsigned
    rw [Request.params_of_make hUnsigned, path_of_calls hCalls]
  obtain ⟨hWithout, hWith⟩ := params_of_calls hCalls
  by_cases hQuery : request.query = []
  · rw [hWithout hQuery] at hParams
    have hKept : c.kept request.query = [] := by
      rw [hQuery]
      rfl
    rw [hKept, List.nil_append, signed_perm_nil_iff hPrepared, hParams]
    simp [hQuery]
  · obtain ⟨params, hCall, hPerm⟩ := hWith hQuery
    rw [hCall, hLib] at hParams
    have hNodup : (unsigned.params.map Prod.fst).Nodup := by
      rw [hParams]
      exact params.nodup
    have hSame : (c.kept unsigned.params).Perm (c.kept request.params.items) := by
      rw [hParams]
      exact hPerm.filter _
    rw [signed_perm_iff hPrepared hNodup, hSame.congr_left, kept_params_perm_iff]
    simp [hQuery]

end Forwarding

section Sample

theorem replaces_sampleLibrary : Replaces sampleLibrary := fun _ _ => rfl

/-- An API key in the query, under a name that the caller uses as well. -/
def queryKeyAdapter : Adapter := .apiKey .null (.str "key") (.str "KEY")

def queryOf (query : List (String × String)) : Inbound :=
  { sampleRequest .get "p" with query := query }

theorem query_forwarded_key : ∃ signed,
    signedRequest sampleLibrary sampleSecrets none sampleConfig
        (queryOf [("a", "1"), ("key", "mine"), ("key", "too")]).vendorCall queryKeyAdapter =
          some signed ∧
      signed.params.Perm [("a", "1"), ("key", "secret")] := by
  have hSome : (signedRequest sampleLibrary sampleSecrets none sampleConfig
      (queryOf [("a", "1"), ("key", "mine"), ("key", "too")]).vendorCall
        queryKeyAdapter).isSome = true := by
    decide +kernel
  obtain ⟨signed, hSigned⟩ := Option.isSome_iff_exists.mp hSome
  obtain ⟨c, hCredential, hIff⟩ :=
    query_forwarded_iff replaces_sampleLibrary .synchronous hSigned
  obtain rfl : ⟨[], [("key", "secret")]⟩ = c := Option.some.inj hCredential
  exact ⟨signed, hSigned, hIff.mpr ⟨by decide, by simp [queryOf]⟩⟩

/-- Of a repeated name only the last value reaches the vendor. -/
theorem query_collapsed : ∃ signed,
    signedRequest sampleLibrary sampleSecrets none sampleConfig
        (queryOf [("a", "1"), ("a", "2")]).vendorCall .noAuth = some signed ∧
      signed.params = [("a", "2")] ∧ ¬signed.params.Perm (queryOf [("a", "1"), ("a", "2")]).query := by
  have hParams : (signedRequest sampleLibrary sampleSecrets none sampleConfig
      (queryOf [("a", "1"), ("a", "2")]).vendorCall .noAuth).map Request.params =
        some [("a", "2")] := by
    decide +kernel
  obtain ⟨signed, hSigned, hOne⟩ := Option.map_eq_some_iff.mp hParams
  refine ⟨signed, hSigned, hOne, ?_⟩
  intro hPerm
  have hLength := hPerm.length_eq
  rw [hOne] at hLength
  exact absurd hLength (by decide)

end Sample

end Gateway.Routes

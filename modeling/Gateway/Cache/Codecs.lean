import Gateway.Cache.Dedup
import Gateway.Semantics.IsoFormat
import Gateway.Semantics.JsonDocument

/-! `_serialise` and `_deserialise` of `gateway/cache/response_cache.py`, and
`_serialise_result` and `_deserialise_result` of `gateway/cache/dedup.py`. The
two modules write and read the same JSON object. Texts are code points, among
them surrogates. -/
namespace Gateway.Cache.Codecs

open Text Text.Json Calendar

/-- `CachedResponse`. Of the time zone, the offset at the time is kept. -/
structure CachedResponse where
  statusCode : ℤ
  headers : Dict CodePoints CodePoints
  body : Bytes
  cachedAt : OffsetDateTime

section Hex

/-- `bytes.hex` -/
def hex (data : Bytes) : List Char :=
  data.flatMap fun b => [Nat.digitChar (b.toNat / 16), Nat.digitChar (b.toNat % 16)]

/-- `bytes.fromhex`; whitespace may stand between two bytes. -/
def fromhex : List Char → Option Bytes
  | [] => some []
  | c :: s =>
      if c.toNat = 32 ∨ 9 ≤ c.toNat ∧ c.toNat ≤ 13 then fromhex s
      else
        match s with
        | [] => none
        | d :: s => do
            let high ← hexDigit? c
            let low ← hexDigit? d
            let rest ← fromhex s
            some (UInt8.ofNat (high * 16 + low) :: rest)

theorem fromhex_hex (data : Bytes) : fromhex (hex data) = some data := by
  induction data with
  | nil => rfl
  | cons b data ih =>
      have hBound := b.toNat_lt
      have hHigh : b.toNat / 16 < 16 := by omega
      have hLow : b.toNat % 16 < 16 := Nat.mod_lt _ (by decide)
      have hSpace : ¬((Nat.digitChar (b.toNat / 16)).toNat = 32 ∨
          9 ≤ (Nat.digitChar (b.toNat / 16)).toNat ∧
            (Nat.digitChar (b.toNat / 16)).toNat ≤ 13) := by
        have hAll : ∀ m : Fin 16, 13 < (Nat.digitChar m).toNat ∧ (Nat.digitChar m).toNat ≠ 32 := by
          decide
        have hDigit := hAll ⟨_, hHigh⟩
        simp only at hDigit
        omega
      have hByte : UInt8.ofNat (b.toNat / 16 * 16 + b.toNat % 16) = b := by
        rw [Nat.div_add_mod', UInt8.ofNat_toNat]
      rw [hex, List.flatMap_cons, ← hex, List.cons_append, List.cons_append, List.nil_append,
        fromhex.eq_def]
      simp only [if_neg hSpace, hexDigit?_digitChar hHigh,
        hexDigit?_digitChar hLow, ih, hByte, Option.bind_eq_bind, Option.bind_some]

end Hex

section Members

def character? (c : CodePoint) : Option Char :=
  if isHigh c.val || isLow c.val then none else some (Char.ofNat c.val)

/-- The characters of a text; `none` if it has a surrogate. -/
def characters? (s : CodePoints) : Option (List Char) := s.mapM character?

def intOf : Document → Option ℤ
  | .int n => some n
  | _ => none

def textOf : Document → Option (List Char)
  | .str s => characters? s
  | _ => none

def pairOf (m : CodePoints × Document) : Option (CodePoints × CodePoints) :=
  match m.2 with
  | .str s => some (m.1, s)
  | _ => none

def headersOf : Document → Option (Dict CodePoints CodePoints)
  | .obj members => (members.mapM pairOf).map Dict.ofList
  | _ => none

/-- `data[name]`; of a repeated member the last one counts. -/
def member? (data : List (CodePoints × Document)) (name : String) : Option Document :=
  (data.reverse.find? fun m => decide (m.1 = codePoints name.toList)).map Prod.snd

theorem character?_codePoint (c : Char) : character? (codePoint c) = some c := by
  have hScalar := toNat_cases c
  have hVal : (codePoint c).val = c.toNat := rfl
  have hNot : (isHigh c.toNat || isLow c.toNat) = false := by
    simp only [isHigh, isLow, Bool.or_eq_false_iff, decide_eq_false_iff_not]
    omega
  rw [character?, hVal, hNot, Char.ofNat_toNat]
  rfl

theorem characters?_codePoints (s : List Char) : characters? (codePoints s) = some s := by
  induction s with
  | nil => rfl
  | cons c s ih =>
      rw [characters?, codePoints] at ih ⊢
      rw [List.map_cons, List.mapM_cons, character?_codePoint, ih]
      rfl

theorem headersOf_items (headers : Dict CodePoints CodePoints) :
    headersOf (.obj (headers.items.map fun e => (e.1, .str e.2))) = some headers := by
  have hPairs (items : List (CodePoints × CodePoints)) :
      (items.map fun e => (e.1, Document.str e.2)).mapM pairOf = some items := by
    induction items with
    | nil => rfl
    | cons e items ih => simp [pairOf, ih]
  have hDict : Dict.ofList headers.items = headers := Dict.ext (Dict.ofList_items headers.nodup)
  rw [headersOf, hPairs, Option.map_some, hDict]

end Members

section Record

variable (response : CachedResponse)

/-- The dictionary that is handed to `json.dumps`. -/
def document : Document :=
  .obj
    [(codePoints "status_code".toList, .int response.statusCode),
      (codePoints "headers".toList, .obj (response.headers.items.map fun e => (e.1, .str e.2))),
      (codePoints "body".toList, .str (codePoints (hex response.body))),
      (codePoints "cached_at".toList, .str (codePoints response.cachedAt.isoformat))]

def encode : Option String := (dumps (document response)).map String.ofList

/-- `none` where it raises, or where a field would get a value of another type. -/
def decode (raw : String) : Option CachedResponse :=
  match loads raw.toList with
  | some (.obj data) => do
      let statusCode ← (member? data "status_code").bind intOf
      let headers ← (member? data "headers").bind headersOf
      let body ← ((member? data "body").bind textOf).bind fromhex
      let cachedAt ← ((member? data "cached_at").bind textOf).bind fromisoformat
      some ⟨statusCode, headers, body, cachedAt⟩
  | _ => none

/-- `_serialise` -/
def serialise : Option String := encode response

/-- `_deserialise` -/
def deserialise (raw : String) : Option CachedResponse := decode raw

/-- `_serialise_result` -/
def serialiseResult : Option String := encode response

/-- `_deserialise_result` -/
def deserialiseResult (raw : String) : Option CachedResponse := decode raw

/-- The status has at most 4300 digits, and in no header name or value does a
high surrogate stand directly before a low one. -/
def Encodable : Prop :=
  response.statusCode.natAbs < 10 ^ maxStrDigits ∧
    ∀ e ∈ response.headers.items, Unpaired e.1 ∧ Unpaired e.2

end Record

section RoundTrip

variable {response : CachedResponse}

theorem readable_document (h : Encodable response) : Readable (document response) := by
  obtain ⟨hStatus, hHeaders⟩ := h
  refine .obj ?_ ?_
  · intro m hm
    simp only [List.mem_cons, List.not_mem_nil, or_false] at hm
    rcases hm with rfl | rfl | rfl | rfl <;> exact unpaired_codePoints _
  · intro m hm
    simp only [List.mem_cons, List.not_mem_nil, or_false] at hm
    rcases hm with rfl | rfl | rfl | rfl
    · exact .int hStatus
    · refine .obj ?_ ?_
      · intro e he
        obtain ⟨e, hMem, rfl⟩ := List.mem_map.mp he
        exact (hHeaders e hMem).1
      · intro e he
        obtain ⟨e, hMem, rfl⟩ := List.mem_map.mp he
        exact .str (hHeaders e hMem).2
    · exact .str (unpaired_codePoints _)
    · exact .str (unpaired_codePoints _)

/-- The fields are read from the document of a record. -/
theorem decode_encode (h : Encodable response) :
    ∃ text, encode response = some text ∧ decode text = some response := by
  obtain ⟨text, hText, hLoads⟩ := loads_dumps (readable_document h)
  refine ⟨String.ofList text, by rw [encode, hText, Option.map_some], ?_⟩
  rw [decode, String.toList_ofList, hLoads, document]
  have hBody : textOf (.str (codePoints (hex response.body))) = some (hex response.body) :=
    characters?_codePoints _
  have hCachedAt : textOf (.str (codePoints response.cachedAt.isoformat)) =
      some response.cachedAt.isoformat := characters?_codePoints _
  have hMembers (status headers body cachedAt : Document) :
      let data := [(codePoints "status_code".toList, status),
        (codePoints "headers".toList, headers), (codePoints "body".toList, body),
        (codePoints "cached_at".toList, cachedAt)]
      member? data "status_code" = some status ∧ member? data "headers" = some headers ∧
        member? data "body" = some body ∧ member? data "cached_at" = some cachedAt :=
    ⟨rfl, rfl, rfl, rfl⟩
  obtain ⟨hStatus, hHeaders, hBodyMember, hCachedAtMember⟩ := hMembers (.int response.statusCode)
    (.obj (response.headers.items.map fun e => (e.1, .str e.2)))
    (.str (codePoints (hex response.body))) (.str (codePoints response.cachedAt.isoformat))
  simp only [hStatus, hHeaders, hBodyMember, hCachedAtMember, hBody, hCachedAt, intOf,
    headersOf_items, fromhex_hex, fromisoformat_isoformat, Option.bind_eq_bind, Option.bind_some]

/-- Either decoder gives back what either encoder was given, and both encoders
are injective, on encodable records. -/
theorem codecs_round_trip :
    (∀ response, Encodable response → ∀ encoder ∈ [serialise, serialiseResult],
      ∀ decoder ∈ [deserialise, deserialiseResult],
        (encoder response).bind decoder = some response) ∧
      ∀ encoder ∈ [serialise, serialiseResult],
        Set.InjOn encoder {response | Encodable response} := by
  have hRound : ∀ response, Encodable response → (encode response).bind decode = some response := by
    intro response h
    obtain ⟨text, hText, hDecode⟩ := decode_encode h
    rw [hText, Option.bind_some, hDecode]
  constructor
  · intro response h encoder hEncoder decoder hDecoder
    simp only [List.mem_cons, List.not_mem_nil, or_false] at hEncoder hDecoder
    rcases hEncoder with rfl | rfl <;> rcases hDecoder with rfl | rfl <;> exact hRound response h
  · intro encoder hEncoder response h response' h' hSame
    have hEncode : encode response = encode response' := by
      simp only [List.mem_cons, List.not_mem_nil, or_false] at hEncoder
      rcases hEncoder with rfl | rfl <;> exact hSame
    have hBoth := hRound response h
    rw [hEncode, hRound response' h'] at hBoth
    exact (Option.some.inj hBoth).symm

/-- A record of the proxy at a UTC time. -/
def ofCached (c : Cache.CachedResponse) (dt : DateTime) : CachedResponse where
  statusCode := c.statusCode
  headers :=
    { items := c.headers.items.map fun e => (codePoints e.1.toList, codePoints e.2.toList)
      nodup := by
        rw [List.map_map]
        have hInjective : Function.Injective fun k : String => codePoints k.toList := by
          intro k k' h
          exact String.toList_inj.mp (codePoint_injective.list_map h)
        have hKeys := c.headers.nodup.map hInjective
        rw [List.map_map] at hKeys
        exact hKeys }
  body := c.body
  cachedAt := ⟨dt, 0, by decide⟩

/-- The records that the proxy stores have texts without surrogates. -/
theorem encodable_ofCached {c : Cache.CachedResponse} (dt : DateTime)
    (h : c.statusCode < 10 ^ maxStrDigits) : Encodable (ofCached c dt) := by
  refine ⟨h, ?_⟩
  intro e he
  obtain ⟨e, -, rfl⟩ := List.mem_map.mp he
  exact ⟨unpaired_codePoints _, unpaired_codePoints _⟩

end RoundTrip

section Sample

theorem epoch_year : 1 ≤ (Date.ofDay 0).year ∧ (Date.ofDay 0).year ≤ 9999 := by decide

theorem zero_lt_microsPerDay : 0 < microsPerDay := by decide

/-- The start of 1970 in UTC, with a header `x`. -/
def sampleResponse (statusCode : ℤ) (value : CodePoints) : CachedResponse where
  statusCode := statusCode
  headers := ⟨[(codePoints ['x'], value)], List.nodup_singleton _⟩
  body := [0, 255]
  cachedAt := ⟨⟨Date.ofDay 0, 0, epoch_year, zero_lt_microsPerDay⟩, 0, zero_lt_microsPerDay⟩

theorem encodable_sample {value : CodePoints} (h : Unpaired value) :
    Encodable (sampleResponse 200 value) := by
  constructor
  · have hDigits : 10 ^ 3 ≤ 10 ^ maxStrDigits := Nat.pow_le_pow_right (by decide) (by decide)
    exact lt_of_lt_of_le (show 200 < 10 ^ 3 by decide) hDigits
  · intro e he
    obtain rfl := List.mem_singleton.mp he
    exact ⟨unpaired_codePoints _, h⟩

/-- `json.dumps` raises on an integer with too many digits. -/
theorem serialise_of_long {statusCode : ℤ} (h : 10 ^ maxStrDigits ≤ statusCode.natAbs)
    (value : CodePoints) : serialise (sampleResponse statusCode value) = none := by
  have hInt : dumpsInt statusCode = none := by
    rw [dumpsInt, if_neg (Nat.not_lt.mpr h)]
  simp [serialise, encode, document, sampleResponse, dumps, dumpsMembers, hInt]

theorem codecs_round_trip_sample :
    (serialise (sampleResponse 200 (codePoints ['a']))).bind deserialiseResult =
      some (sampleResponse 200 (codePoints ['a'])) :=
  codecs_round_trip.1 _ (encodable_sample (unpaired_codePoints _)) serialise (by simp)
    deserialiseResult (by simp)

/-- Two surrogates are written like the character that they make up. -/
theorem codecs_confuse :
    sampleResponse 200 [0xD83D, 0xDE00] ≠ sampleResponse 200 [0x1F600] ∧
      serialise (sampleResponse 200 [0xD83D, 0xDE00]) =
        serialise (sampleResponse 200 [0x1F600]) ∧
      (serialise (sampleResponse 200 [0xD83D, 0xDE00])).bind deserialise ≠
        some (sampleResponse 200 [0xD83D, 0xDE00]) ∧
      serialise (sampleResponse (10 ^ maxStrDigits) []) = none := by
  have hNe : sampleResponse 200 [0xD83D, 0xDE00] ≠ sampleResponse 200 [0x1F600] := by
    intro h
    have hItems := congrArg (fun response => response.headers.items) h
    simp [sampleResponse] at hItems
  have hText : dumpsText [0xD83D, 0xDE00] = dumpsText [0x1F600] := by decide
  have hSame : serialise (sampleResponse 200 [0xD83D, 0xDE00]) =
      serialise (sampleResponse 200 [0x1F600]) := by
    simp only [serialise, encode, document, sampleResponse, dumps, dumpsMembers, List.map_cons,
      List.map_nil, hText]
  have hLong (d : ℕ) : 10 ^ d ≤ (10 ^ d : ℤ).natAbs := by
    rw [Int.natAbs_pow]
    exact le_rfl
  have hUnpaired : Unpaired [0x1F600] := by decide
  refine ⟨hNe, hSame, ?_, serialise_of_long (hLong maxStrDigits) []⟩
  obtain ⟨text, hEncode, hDecode⟩ := decode_encode (encodable_sample hUnpaired)
  rw [hSame, serialise, hEncode, Option.bind_some, deserialise, hDecode]
  exact fun h => hNe (Option.some.inj h).symm

end Sample

end Gateway.Cache.Codecs

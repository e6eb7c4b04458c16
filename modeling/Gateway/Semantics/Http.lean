import Gateway.Semantics.Dict
import Gateway.Semantics.Text

/-! HTTP messages as the client and server libraries present them. Header names
compare without case; a list of lines keeps order and repetitions. -/
namespace Http

open Text

inductive Method where
  | get
  | post
  | put
  | delete
  | patch
  deriving DecidableEq

def Method.name : Method → String
  | .get => "GET"
  | .post => "POST"
  | .put => "PUT"
  | .delete => "DELETE"
  | .patch => "PATCH"

abbrev Lines := List (String × String)

/-- One more line under a dictionary of lower-case names: the values of a
repeated name are joined with a comma. -/
def addLine (headers : Dict String String) (line : String × String) : Dict String String :=
  let name := lower line.1
  headers.insert name (((headers.get? name).map fun value => value ++ ", " ++ line.2).getD line.2)

/-- `dict(headers)` of the client library. -/
def joinLines (lines : Lines) : Dict String String := lines.foldl addLine Dict.empty

theorem lower_of_mem_joinLines {lines : Lines} {name : String}
    (h : name ∈ (joinLines lines).keys) : lower name = name := by
  have hFold (lines : Lines) (d : Dict String String) (hd : ∀ k ∈ d.keys, lower k = k) :
      ∀ k ∈ (lines.foldl addLine d).keys, lower k = k := by
    induction lines generalizing d with
    | nil => exact hd
    | cons line lines ih =>
        apply ih
        intro k hk
        rcases Dict.mem_keys_insert.mp hk with rfl | hOld
        · exact lower_lower _
        · exact hd k hOld
  exact hFold lines Dict.empty (by simp [Dict.keys, Dict.empty]) name h

/-- The keys of `dict(headers)` are the names in lower case. -/
theorem mem_keys_joinLines {lines : Lines} {name : String} :
    name ∈ (joinLines lines).keys ↔ ∃ line ∈ lines, lower line.1 = name := by
  have hFold (lines : Lines) (d : Dict String String) :
      name ∈ (lines.foldl addLine d).keys ↔
        (∃ line ∈ lines, lower line.1 = name) ∨ name ∈ d.keys := by
    induction lines generalizing d with
    | nil => simp
    | cons line lines ih =>
        rw [List.foldl_cons, ih, addLine, Dict.mem_keys_insert, List.exists_mem_cons_iff,
          eq_comm (b := lower line.1)]
        exact or_left_comm.trans or_assoc.symm
  rw [joinLines, hFold]
  simp [Dict.keys, Dict.empty]

/-- The values of the lines of one name, in any case. -/
def values (lines : Lines) (name : String) : List String :=
  (lines.filter fun line => lower line.1 = lower name).map Prod.snd

/-- `name in headers` -/
def hasLine (lines : Lines) (name : String) : Bool :=
  lines.any fun line => lower line.1 = lower name

theorem hasLine_iff {lines : Lines} {name : String} :
    hasLine lines name = true ↔ ∃ line ∈ lines, lower line.1 = lower name := by
  simp [hasLine]

theorem values_append (lines more : Lines) (name : String) :
    values (lines ++ more) name = values lines name ++ values more name := by
  simp [values]

theorem values_eq_nil {lines : Lines} {name : String} (h : hasLine lines name = false) :
    values lines name = [] := by
  have hNone : ∀ line ∈ lines, ¬lower line.1 = lower name := by
    simpa [hasLine] using h
  simpa [values] using hNone

/-- In a dictionary the lines of one name are one line exactly if no other key
has that name in another case. -/
theorem values_dict {d : Dict String String} {name value : String} (h : (name, value) ∈ d.items) :
    values d.items name = [value] ↔ ∀ k ∈ d.keys, lower k = lower name → k = name := by
  have hFilter := Dict.filter_eq_singleton (p := fun k => decide (lower k = lower name)) h (by simp)
  simp only [decide_eq_true_eq] at hFilter
  rw [← hFilter]
  have hMem : (name, value) ∈ d.items.filter fun e => lower e.1 = lower name := by
    simpa using h
  constructor
  · intro hValues
    obtain ⟨e, hOnly, -⟩ := List.map_eq_singleton_iff.mp hValues
    rw [hOnly, List.mem_singleton] at hMem
    rw [hOnly, hMem]
  · intro hOnly
    rw [values, hOnly]
    rfl

section Request

/-- A request that has not been sent. Its query is kept apart from the URL. -/
structure Request where
  method : String
  url : String
  params : List (String × String)
  lines : Lines
  content : Bytes
  deriving DecidableEq

/-- Header names and values are written in ASCII. -/
def isAscii (s : String) : Bool := s.toList.all fun c => decide (c.toNat < 128)

/-- `headers.update(update)` -/
def mergeLines (lines update : Lines) : Lines :=
  (lines.filter fun line => !hasLine update line.1) ++ update

theorem hasLine_mergeLines {lines update : Lines} {name : String} :
    hasLine (mergeLines lines update) name = true ↔
      hasLine lines name = true ∨ hasLine update name = true := by
  simp only [mergeLines, hasLine_iff, List.mem_append, List.mem_filter]
  constructor
  · rintro ⟨line, ⟨hMem, -⟩ | hMem, hName⟩
    · exact Or.inl ⟨line, hMem, hName⟩
    · exact Or.inr ⟨line, hMem, hName⟩
  · rintro (⟨line, hMem, hName⟩ | ⟨line, hMem, hName⟩)
    · cases hHas : hasLine update line.1 with
      | false => exact ⟨line, Or.inl ⟨hMem, by simp [hHas]⟩, hName⟩
      | true =>
          obtain ⟨line', hMem', hName'⟩ := hasLine_iff.mp hHas
          exact ⟨line', Or.inr hMem', hName'.trans hName⟩
    · exact ⟨line, Or.inr hMem, hName⟩

/-- The lines of a new request: a Content-Length and a Host are added where the
given lines have none. -/
def completeLines (method : String) (host : Option String) (content : Bytes) (lines : Lines) :
    Lines :=
  let sized :=
    if content = [] ∨ hasLine lines "Content-Length" then lines
    else lines ++ [("Content-Length", Nat.repr content.length)]
  let hostLine := if hasLine sized "Host" then [] else (host.map fun h => ("Host", h)).toList
  let zeroLine :=
    if hasLine sized "Content-Length" ∨ hasLine sized "Transfer-Encoding" ∨
        method ∉ ["POST", "PUT", "PATCH"] then []
    else [("Content-Length", "0")]
  hostLine ++ zeroLine ++ sized

/-- The constructor of a request; `none` when a line is not ASCII. -/
def Request.make (method url : String) (params : List (String × String)) (host : Option String)
    (lines : Lines) (content : Bytes) : Option Request :=
  if lines.all fun line => isAscii line.1 && isAscii line.2 then
    some ⟨method, url, params, completeLines method host content lines, content⟩
  else none

section Make

variable {method url : String} {params : List (String × String)} {host : Option String}
  {lines : Lines} {content : Bytes} {request : Request}
  (h : Request.make method url params host lines content = some request)

include h

/-- A request that is made has what it was made from. -/
theorem Request.eq_of_make :
    request = ⟨method, url, params, completeLines method host content lines, content⟩ := by
  unfold Request.make at h
  split_ifs at h
  exact (Option.some.inj h).symm

theorem Request.url_of_make : request.url = url := by
  rw [Request.eq_of_make h]

theorem Request.params_of_make : request.params = params := by
  rw [Request.eq_of_make h]

theorem Request.lines_of_make : request.lines = completeLines method host content lines := by
  rw [Request.eq_of_make h]

end Make

theorem hasLine_append {lines more : Lines} {name : String} :
    hasLine (lines ++ more) name = (hasLine lines name || hasLine more name) := by
  simp [hasLine]

theorem hasLine_congr {lines : Lines} {name name' : String} (h : lower name = lower name') :
    hasLine lines name = hasLine lines name' := by
  simp [hasLine, h]

/-- The completion adds no line of a name that is there. -/
theorem values_completeLines {method : String} {host : Option String} {content : Bytes}
    {lines : Lines} {name : String} (h : hasLine lines name = true) :
    values (completeLines method host content lines) name = values lines name := by
  have hAdded (lines : Lines) (h : hasLine lines name = true) (other value : String)
      (hOther : hasLine lines other = false) : values [(other, value)] name = [] := by
    apply values_eq_nil
    by_contra hHas
    have hSame : lower other = lower name := by simpa [hasLine] using hHas
    rw [hasLine_congr hSame, h] at hOther
    cases hOther
  have hSized : ∀ sized, sized = lines ∨ (hasLine lines "Content-Length" = false ∧
      sized = lines ++ [("Content-Length", Nat.repr content.length)]) →
        hasLine sized name = true ∧ values sized name = values lines name := by
    rintro sized (rfl | ⟨hLength, rfl⟩)
    · exact ⟨h, rfl⟩
    · rw [hasLine_append, h, values_append, hAdded lines h _ _ hLength]
      simp
  unfold completeLines
  generalize hDef : (if content = [] ∨ hasLine lines "Content-Length" then lines
    else lines ++ [("Content-Length", Nat.repr content.length)]) = sized
  obtain ⟨hHas, hValues⟩ := hSized sized (by
    split_ifs at hDef with hCond
    · exact Or.inl hDef.symm
    · exact Or.inr ⟨by simpa using (not_or.mp hCond).2, hDef.symm⟩)
  simp only [values_append, hValues]
  have hHost : values (if hasLine sized "Host" then []
      else (host.map fun h => ("Host", h)).toList) name = [] := by
    split_ifs with hCond
    · rfl
    · cases host with
      | none => rfl
      | some h => exact hAdded sized hHas _ _ (by simpa using hCond)
  have hZero : values (if hasLine sized "Content-Length" ∨ hasLine sized "Transfer-Encoding" ∨
      method ∉ ["POST", "PUT", "PATCH"] then [] else [("Content-Length", "0")]) name = [] := by
    split_ifs with hCond
    · rfl
    · exact hAdded sized hHas _ _ (by simpa using (not_or.mp hCond).1)
  rw [hHost, hZero]
  simp

theorem hasLine_unless {p : Prop} [Decidable p] {lines : Lines} {name : String} :
    hasLine (if p then [] else lines) name = true ↔ ¬p ∧ hasLine lines name = true := by
  have hNil : hasLine [] name = false := rfl
  by_cases h : p <;> simp [h, hNil]

theorem hasLine_singleton {other value name : String} :
    hasLine [(other, value)] name = true ↔ lower other = lower name := by
  simp [hasLine]

/-- The names that a completed request has: those of the given lines, and Host
and Content-Length where they are added. -/
theorem hasLine_completeLines {method : String} {host : Option String} {content : Bytes}
    {lines : Lines} {name : String} :
    hasLine (completeLines method host content lines) name = true ↔
      hasLine lines name = true ∨ (lower name = "host" ∧ host.isSome) ∨
        (lower name = "content-length" ∧ (content ≠ [] ∨
          method ∈ ["POST", "PUT", "PATCH"] ∧ hasLine lines "Transfer-Encoding" = false)) := by
  have hLength : lower "Content-Length" = lower name ↔ lower name = "content-length" := by
    rw [show lower "Content-Length" = "content-length" by decide, eq_comm]
  have hHost : lower "Host" = lower name ↔ lower name = "host" := by
    rw [show lower "Host" = "host" by decide, eq_comm]
  have hLengthHas : lower name = "content-length" →
      hasLine lines name = hasLine lines "Content-Length" := fun h =>
    hasLine_congr (hLength.mpr h).symm
  have hHostHas : lower name = "host" → hasLine lines name = hasLine lines "Host" := fun h =>
    hasLine_congr (hHost.mpr h).symm
  have hHostLine : hasLine (host.map fun h => ("Host", h)).toList name = true ↔
      host.isSome ∧ lower name = "host" := by
    cases host with
    | none => simp [hasLine]
    | some h =>
        change hasLine [("Host", h)] name = true ↔ _
        rw [hasLine_singleton, hHost]
        simp
  have hOther (value : String) : hasLine [("Content-Length", value)] "Host" = false ∧
      hasLine [("Content-Length", value)] "Transfer-Encoding" = false := by
    have hNotHost : lower "Content-Length" ≠ lower "Host" := by decide
    have hNotCoding : lower "Content-Length" ≠ lower "Transfer-Encoding" := by decide
    simp [hasLine, hNotHost, hNotCoding]
  unfold completeLines
  by_cases hSized : content = [] ∨ hasLine lines "Content-Length" = true
  · simp only [if_pos hSized, hasLine_append, Bool.or_eq_true, hasLine_unless, hHostLine,
      hasLine_singleton, hLength]
    grind
  · simp only [if_neg hSized, hasLine_append, Bool.or_eq_true, hasLine_unless, hHostLine,
      hasLine_singleton, hLength, (hOther _).1, (hOther _).2]
    grind

end Request

/-- The number that the value of a Content-Length line denotes. -/
def contentLength? (value : String) : Option ℕ :=
  if value.toList ≠ [] ∧ value.toList.all Char.isDigit then
    some (Nat.ofDigitChars 10 value.toList 0)
  else none

theorem contentLength?_repr (n : ℕ) : contentLength? (Nat.repr n) = some n := by
  have hNonempty : (Nat.repr n).toList ≠ [] := by
    simp [Nat.repr, Nat.toDigits_ne_nil]
  have hDigits : (Nat.repr n).toList.all Char.isDigit = true := by
    rw [List.all_eq_true]
    intro c hc
    have hMem : c ∈ Nat.toDigits 10 n := by simpa [Nat.repr] using hc
    exact Nat.isDigit_of_mem_toDigits (by decide) (by decide) hMem
  rw [contentLength?, if_pos ⟨hNonempty, hDigits⟩, ofDigitChars_repr]

structure Response where
  statusCode : ℕ
  lines : Lines
  body : Bytes
  deriving DecidableEq

/-- Statuses that never carry a Content-Length of the server library's own. -/
def bodiless (statusCode : ℕ) : Bool :=
  decide (statusCode < 200) || statusCode == 204 || statusCode == 304

/-- The server library writes header names and values in Latin-1. -/
def isLatin1 (s : String) : Bool := s.toList.all fun c => decide (c.toNat < 256)

def latin1Headers (headers : Dict String String) : Bool :=
  headers.items.all fun e => isLatin1 (lower e.1) && isLatin1 e.2

/-- A response with these headers: names in lower case, and a Content-Length only where
the headers give none. -/
def Response.build (content : Bytes) (statusCode : ℕ) (headers : Dict String String) :
    Response :=
  let lines := headers.items.map fun e => (lower e.1, e.2)
  if "content-length" ∈ lines.map Prod.fst ∨ bodiless statusCode then
    ⟨statusCode, lines, content⟩
  else ⟨statusCode, lines ++ [("content-length", Nat.repr content.length)], content⟩

/-- `Response(content, status_code, headers)` of the server library; `none` where it
raises, on a header that Latin-1 does not have. -/
def Response.make (content : Bytes) (statusCode : ℕ) (headers : Dict String String) :
    Option Response :=
  if latin1Headers headers then some (Response.build content statusCode headers) else none

theorem Response.make_eq_some {content : Bytes} {statusCode : ℕ} {headers : Dict String String}
    {response : Response} : Response.make content statusCode headers = some response ↔
      latin1Headers headers = true ∧ response = Response.build content statusCode headers := by
  rw [Response.make]
  split_ifs with h <;> simp [h, eq_comm]

theorem Response.make_isSome {content : Bytes} {statusCode : ℕ} {headers : Dict String String} :
    (Response.make content statusCode headers).isSome = latin1Headers headers := by
  rw [Response.make]
  split_ifs with h <;> simp [h]

/-- What an origin puts on the wire. -/
structure WireResponse where
  statusCode : ℕ
  lines : Lines
  payload : Bytes

/-- The content codings: whether data is in the form that a Content-Encoding
value names, and what the client library makes of a payload under its header
lines, if it does not fail. -/
structure Codec where
  encoded : String → Bytes → Prop
  content : Lines → Bytes → Option Bytes

end Http

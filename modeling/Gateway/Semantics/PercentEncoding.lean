import Gateway.Semantics.JsonString
import Gateway.Semantics.Rfc3986
import Gateway.Semantics.Utf8
import Mathlib.Algebra.GroupWithZero.Nat

/-! Percent-encoding: the octets that a text in a URL stands for, and how a text is
written into a URL without touching the escapes that it has already. -/
namespace Rfc3986

open Text

/-- The octets of a text that is meant literally. -/
def octets (s : List Char) : Bytes := s.flatMap String.utf8EncodeChar

/-- The octet of the escape that a text begins with. -/
def escape? : List Char → Option UInt8
  | '%' :: high :: low :: _ =>
      (Json.hexDigit? high).bind fun a =>
        (Json.hexDigit? low).map fun b => UInt8.ofNat (a * 16 + b)
  | _ => none

def hasEscape : List Char → Bool
  | [] => false
  | c :: s => (escape? (c :: s)).isSome || hasEscape s

/-- The octets that a text stands for, its escapes read. -/
def decode : List Char → Bytes
  | [] => []
  | c :: high :: low :: rest =>
      match escape? (c :: high :: low :: rest) with
      | some octet => octet :: decode rest
      | none => String.utf8EncodeChar c ++ decode (high :: low :: rest)
  | c :: s => String.utf8EncodeChar c ++ decode s

def hexUpper (n : ℕ) : Char := (Nat.digitChar n).toUpper

def escapeOctet (octet : UInt8) : List Char :=
  ['%', hexUpper (octet.toNat / 16), hexUpper (octet.toNat % 16)]

def quoteChar (safe : Char → Bool) (c : Char) : List Char :=
  if safe c then [c] else (String.utf8EncodeChar c).flatMap escapeOctet

/-- A text with its escapes as they are and all other characters that are not safe
percent-encoded. -/
def quote (safe : Char → Bool) : List Char → List Char
  | [] => []
  | c :: high :: low :: rest =>
      match escape? (c :: high :: low :: rest) with
      | some _ => c :: high :: low :: quote safe rest
      | none => quoteChar safe c ++ quote safe (high :: low :: rest)
  | c :: s => quoteChar safe c ++ quote safe s

/-- The octets of the segments of a path. -/
def segments (path : List Char) : List Bytes := (path.splitOn '/').map decode

section Escapes

variable {s t rest : List Char} {c high low : Char} {octet : UInt8} {safe : Char → Bool}

theorem of_escape? (h : escape? (c :: s) = some octet) :
    c = '%' ∧ ∃ high low rest, s = high :: low :: rest ∧ (Json.hexDigit? high).isSome = true ∧
      (Json.hexDigit? low).isSome = true := by
  unfold escape? at h
  split at h
  case h_1 high low rest hText =>
    obtain ⟨rfl, rfl⟩ := List.cons.inj hText
    obtain ⟨a, hHigh, hLow⟩ := Option.bind_eq_some_iff.mp h
    obtain ⟨b, hLow, -⟩ := Option.map_eq_some_iff.mp hLow
    exact ⟨rfl, high, low, rest, rfl, by simp [hHigh], by simp [hLow]⟩
  case h_2 => cases h

/-- Texts by their escapes and other characters. -/
theorem escape_induction {P : List Char → Prop} (nil : P [])
    (escape : ∀ high low rest octet, escape? ('%' :: high :: low :: rest) = some octet →
      P rest → P ('%' :: high :: low :: rest))
    (char : ∀ c rest, escape? (c :: rest) = none → P rest → P (c :: rest)) (s : List Char) :
    P s := by
  induction hLength : s.length using Nat.strong_induction_on generalizing s with
  | _ n ih =>
      subst hLength
      cases s with
      | nil => exact nil
      | cons c s =>
          cases hEscape : escape? (c :: s) with
          | none => exact char c s hEscape (ih _ (by simp) s rfl)
          | some octet =>
              obtain ⟨rfl, high, low, rest, rfl, -, -⟩ := of_escape? hEscape
              exact escape high low rest octet hEscape (ih _ (by simp; omega) rest rfl)

theorem decode_escape (h : escape? ('%' :: high :: low :: rest) = some octet) :
    decode ('%' :: high :: low :: rest) = octet :: decode rest := by
  simp only [decode, h]

theorem decode_char (h : escape? (c :: s) = none) :
    decode (c :: s) = String.utf8EncodeChar c ++ decode s := by
  rcases s with - | ⟨high, - | ⟨low, rest⟩⟩
  · rfl
  · rfl
  · simp only [decode, h]

theorem quote_escape (h : escape? ('%' :: high :: low :: rest) = some octet) :
    quote safe ('%' :: high :: low :: rest) = '%' :: high :: low :: quote safe rest := by
  simp only [quote, h]

theorem quote_char (h : escape? (c :: s) = none) :
    quote safe (c :: s) = quoteChar safe c ++ quote safe s := by
  rcases s with - | ⟨high, - | ⟨low, rest⟩⟩
  · rfl
  · rfl
  · simp only [quote, h]

/-- A text without an escape stands for itself. -/
theorem decode_of_plain (h : hasEscape s = false) : decode s = octets s := by
  induction s with
  | nil => rfl
  | cons c s ih =>
      obtain ⟨hHead, hRest⟩ := Bool.or_eq_false_iff.mp h
      rw [decode_char (by simpa using hHead), ih hRest]
      rfl

theorem octets_cons : octets (c :: s) = String.utf8EncodeChar c ++ octets s := rfl

theorem octets_append : octets (s ++ t) = octets s ++ octets t := List.flatMap_append

theorem octets_injective : Function.Injective octets := by
  intro s t h
  have hText : utf8 (String.ofList s) = utf8 (String.ofList t) := by
    simpa [utf8, octets] using h
  have hSame := congrArg decodeReplace hText
  rw [decodeReplace_utf8, decodeReplace_utf8] at hSame
  exact String.ofList_injective hSame

/-- An escape stands for less than it is long. -/
theorem length_decode (s : List Char) : (decode s).length ≤ (octets s).length ∧
    (hasEscape s = true → (decode s).length < (octets s).length) := by
  induction s using escape_induction with
  | nil => exact ⟨le_rfl, fun h => by cases h⟩
  | escape high low rest octet h ih =>
      have hShort : (decode ('%' :: high :: low :: rest)).length <
          (octets ('%' :: high :: low :: rest)).length := by
        have hHigh := high.utf8Size_pos
        have hPercent := '%'.utf8Size_pos
        rw [decode_escape h]
        simp only [octets_cons, List.length_append, String.length_utf8EncodeChar, List.length_cons]
        have hLow := low.utf8Size_pos
        omega
      exact ⟨hShort.le, fun _ => hShort⟩
  | char c rest h ih =>
      have hRest : hasEscape (c :: rest) = hasEscape rest := by simp [hasEscape, h]
      rw [decode_char h, octets_cons, List.length_append, List.length_append, hRest]
      exact ⟨Nat.add_le_add_left ih.1 _, fun hEscape => Nat.add_lt_add_left (ih.2 hEscape) _⟩

theorem length_octets_of_sublist (h : s.Sublist t) : (octets s).length ≤ (octets t).length ∧
    ((octets s).length = (octets t).length → s = t) := by
  induction h with
  | slnil => exact ⟨le_rfl, fun _ => rfl⟩
  | cons c hSub ih =>
      have hSize := c.utf8Size_pos
      rw [octets_cons, List.length_append, String.length_utf8EncodeChar]
      exact ⟨by omega, fun h => by omega⟩
  | cons_cons c hSub ih =>
      rw [octets_cons, octets_cons, List.length_append, List.length_append]
      exact ⟨Nat.add_le_add_left ih.1 _, fun h => by rw [ih.2 (Nat.add_left_cancel h)]⟩

end Escapes

section Quote

variable {s t rest : List Char} {c : Char} {safe : Char → Bool} {l : List (List Char)}

theorem hexDigit?_hexUpper {n : ℕ} (h : n < 16) : Json.hexDigit? (hexUpper n) = some n := by
  have hAll : ∀ m : Fin 16, Json.hexDigit? (hexUpper m) = some m.val := by decide
  exact hAll ⟨n, h⟩

theorem escape?_escapeOctet (octet : UInt8) :
    escape? (escapeOctet octet ++ rest) = some octet := by
  have hOctet : octet.toNat < 256 := octet.toNat_lt
  have hHigh : octet.toNat / 16 < 16 := by omega
  have hWhole : octet.toNat / 16 * 16 + octet.toNat % 16 = octet.toNat := by omega
  have hSame : UInt8.ofNat (octet.toNat / 16 * 16 + octet.toNat % 16) = octet := by
    rw [hWhole, UInt8.ofNat_toNat]
  simp only [escapeOctet, escape?, List.cons_append, List.nil_append, hexDigit?_hexUpper hHigh,
    hexDigit?_hexUpper (Nat.mod_lt octet.toNat (by decide)), Option.bind_some, Option.map_some, hSame]

theorem decode_escapeOctets (data : Bytes) :
    decode (data.flatMap escapeOctet ++ rest) = data ++ decode rest := by
  induction data with
  | nil => rfl
  | cons octet data ih =>
      rw [List.flatMap_cons, List.append_assoc]
      refine (decode_escape (escape?_escapeOctet octet)).trans ?_
      exact congrArg (octet :: ·) ih

/-- A hexadecimal digit at the head of a quoted text was there before. -/
theorem of_quote_hex (hHex : (Json.hexDigit? c).isSome = true) (h : quote safe s = c :: t) :
    ∃ rest, s = c :: rest ∧ t = quote safe rest := by
  have hNot : c ≠ '%' := by
    rintro rfl
    exact absurd hHex (by decide)
  cases s with
  | nil => cases h
  | cons d s =>
      cases hEscape : escape? (d :: s) with
      | some octet =>
          obtain ⟨rfl, high, low, rest, rfl, -, -⟩ := of_escape? hEscape
          rw [quote_escape hEscape] at h
          exact absurd (List.cons.inj h).1.symm hNot
      | none =>
          rw [quote_char hEscape, quoteChar] at h
          split_ifs at h with hSafe
          · obtain ⟨rfl, rfl⟩ := List.cons.inj h
            exact ⟨s, rfl, rfl⟩
          · obtain ⟨octet, data, hData⟩ : ∃ octet data, String.utf8EncodeChar d = octet :: data :=
              List.exists_cons_of_ne_nil (by
                have hSize := d.utf8Size_pos
                rw [← String.length_utf8EncodeChar d] at hSize
                exact List.ne_nil_of_length_pos hSize)
            rw [hData] at h
            exact absurd (List.cons.inj h).1.symm hNot

/-- What a text stands for survives quoting. -/
theorem decode_quote (s : List Char) : decode (quote safe s) = decode s := by
  induction s using escape_induction with
  | nil => rfl
  | escape high low rest octet h ih =>
      have hQuoted : escape? ('%' :: high :: low :: quote safe rest) = some octet := h
      rw [quote_escape h, decode_escape h, decode_escape hQuoted, ih]
  | char c rest h ih =>
      rw [quote_char h, decode_char h, quoteChar]
      split_ifs with hSafe
      · rw [← ih]
        refine decode_char ?_
        -- what follows a sign that begins no escape does not become one
        cases hEscape : escape? (c :: quote safe rest) with
        | none => exact hEscape
        | some octet =>
            obtain ⟨rfl, high, low, tail, hQuoted, hHigh, hLow⟩ := of_escape? hEscape
            obtain ⟨rest, rfl, hTail⟩ := of_quote_hex hHigh hQuoted
            obtain ⟨rest, rfl, -⟩ := of_quote_hex hLow hTail.symm
            rw [hQuoted] at hEscape
            exact absurd (h.symm.trans hEscape) (by simp)
      · rw [decode_escapeOctets, ih]

/-- An escape does not go beyond a slash. -/
theorem escape?_append_slash : escape? (c :: s ++ '/' :: t) = escape? (c :: s) := by
  have hSlash : Json.hexDigit? '/' = none := by decide
  by_cases hc : c = '%'
  · subst hc
    cases s with
    | nil => cases t <;> simp [escape?, hSlash]
    | cons high s => cases s <;> simp [escape?, hSlash]
  · have hNone (x : List Char) : escape? (c :: x) = none := by
      cases hEscape : escape? (c :: x) with
      | none => rfl
      | some octet => exact absurd (of_escape? hEscape).1 hc
    exact (hNone _).trans (hNone _).symm

theorem quote_slash (hSlash : safe '/' = true) :
    quote safe ('/' :: t) = '/' :: quote safe t := by
  rw [quote_char rfl, quoteChar, if_pos hSlash]
  rfl

theorem quote_append_slash (hSlash : safe '/' = true) (s t : List Char) :
    quote safe (s ++ '/' :: t) = quote safe s ++ '/' :: quote safe t := by
  induction s using escape_induction with
  | nil => exact quote_slash hSlash
  | escape high low rest octet h ih =>
      have hLong : escape? ('%' :: high :: low :: (rest ++ '/' :: t)) = some octet := h
      simp only [List.cons_append]
      rw [quote_escape h, quote_escape hLong, ih]
      rfl
  | char c rest h ih =>
      have hLong : escape? (c :: (rest ++ '/' :: t)) = none := escape?_append_slash.trans h
      simp only [List.cons_append]
      rw [quote_char h, quote_char hLong, ih, List.append_assoc]

/-- A path is quoted segment by segment. -/
theorem quote_render (hSlash : safe '/' = true) (l : List (List Char)) :
    quote safe (render l) = render (l.map (quote safe)) := by
  induction l with
  | nil => rfl
  | cons s l ih =>
      have hHead : quote safe (s ++ render l) = quote safe s ++ quote safe (render l) := by
        cases l with
        | nil => simp [render, quote]
        | cons s' l =>
            have hRender : render (s' :: l) = '/' :: (s' ++ render l) := rfl
            rw [hRender, quote_append_slash hSlash, quote_slash hSlash]
      have hRender : render (s :: l) = '/' :: (s ++ render l) := rfl
      rw [hRender, quote_slash hSlash, hHead, ih]
      rfl

theorem slash_notMem_quote (h : '/' ∉ s) : '/' ∉ quote safe s := by
  induction s using escape_induction with
  | nil => exact h
  | escape high low rest octet hEscape ih =>
      rw [quote_escape hEscape]
      simp only [List.mem_cons, not_or] at h ⊢
      exact ⟨h.1, h.2.1, h.2.2.1, ih h.2.2.2⟩
  | char c rest hNone ih =>
      simp only [List.mem_cons, not_or] at h
      rw [quote_char hNone, List.mem_append, not_or, quoteChar]
      refine ⟨?_, ih h.2⟩
      split_ifs
      · simpa using h.1
      · have hHex : ∀ n : Fin 16, '/' ≠ hexUpper n := by decide
        intro hMem
        obtain ⟨octet, -, hChar⟩ := List.mem_flatMap.mp hMem
        have hOctet : octet.toNat < 256 := octet.toNat_lt
        simp only [escapeOctet, List.mem_cons, List.not_mem_nil, or_false] at hChar
        rcases hChar with hPercent | hHigh | hLow
        · cases hPercent
        · exact hHex ⟨octet.toNat / 16, by omega⟩ hHigh
        · exact hHex ⟨octet.toNat % 16, by omega⟩ hLow

end Quote

section Width

variable {out l m : List (List Char)} {s path x p : List Char} {safe : Char → Bool}

/-- The length of a path as it is read. -/
def width (l : List (List Char)) : ℕ := (l.map fun s => (decode s).length + 1).sum

theorem width_append : width (l ++ m) = width l + width m := by
  simp [width]

theorem width_reverse : width l.reverse = width l := by
  simp [width]

theorem width_map_quote : width (l.map (quote safe)) = width l := by
  simp [width, decode_quote, Function.comp_def]

/-- A dot segment leaves less than it is long. -/
theorem width_push : width (push out s) + 2 * [s].countP isDot ≤ width out + width [s] := by
  cases hDot : isDot s with
  | false =>
      have hPush : push out s = [s] ++ out := push_of_not_isDot hDot
      rw [hPush, width_append]
      simp [hDot, Nat.add_comm]
  | true =>
      have hOne : width [['.']] = 2 := by decide
      have hTwo : width [['.', '.']] = 3 := by decide
      have hTail : width out.tail ≤ width out := by
        cases out with
        | nil => exact le_rfl
        | cons s out =>
            rw [List.tail_cons, ← List.singleton_append, width_append]
            exact Nat.le_add_left _ _
      have hCount : [s].countP isDot = 1 := by simp [hDot]
      have hEither : s = ['.'] ∨ s = ['.', '.'] := by simpa [isDot] using hDot
      rw [hCount]
      rcases hEither with rfl | rfl
      · simp [push, hOne]
      · have hPush : push out ['.', '.'] = out.tail := by simp [push]
        rw [hPush, hTwo]
        omega

theorem width_foldl_push :
    width (m.foldl push out) + 2 * m.countP isDot ≤ width out + width m := by
  induction m generalizing out with
  | nil => exact le_rfl
  | cons s m ih =>
      have hHead : width (push out s) + 2 * [s].countP isDot ≤ width out + width [s] := width_push
      have hRest : width (m.foldl push (push out s)) + 2 * m.countP isDot ≤
        width (push out s) + width m := ih
      rw [List.foldl_cons, ← List.singleton_append, List.countP_append, width_append]
      omega

/-- What is left of the segments m behind others, if a dot segment is among them, is
less than they are long. -/
theorem width_removeDots (hNe : m ≠ []) : width (removeDots (l ++ m)) + m.countP isDot ≤
    width (l.foldl push []) + width m := by
  have hFold : width (m.foldl push (l.foldl push [])) + 2 * m.countP isDot ≤
    width (l.foldl push []) + width m := width_foldl_push
  have hLast : (l ++ m).getLast? = some (m.getLast hNe) := by
    rw [List.getLast?_append, List.getLast?_eq_some_getLast hNe]
    rfl
  rw [removeDots, List.foldl_append, width_append, width_reverse, hLast, Option.any_some]
  cases hDot : isDot (m.getLast hNe) with
  | false =>
      have hNone : width [] = 0 := rfl
      simp only [Bool.false_eq_true, if_false, hNone]
      omega
  | true =>
      have hMem : 0 < m.countP isDot :=
        List.countP_pos_iff.mpr ⟨_, List.getLast_mem hNe, hDot⟩
      have hOne : width [[]] = 1 := rfl
      simp only [if_true, hOne]
      omega

/-- An escape makes the segments shorter than their text. -/
theorem width_le (m : List (List Char)) :
    width m + m.countP hasEscape ≤ (octets (render m)).length := by
  induction m with
  | nil => exact le_rfl
  | cons s m ih =>
      obtain ⟨hLe, hLt⟩ := length_decode s
      have hRender : render (s :: m) = '/' :: (s ++ render m) := rfl
      have hWidth : width (s :: m) = (decode s).length + 1 + width m := rfl
      have hSlash : String.utf8EncodeChar '/' = [47] := by decide
      rw [hRender, octets_cons, octets_append, hSlash, hWidth]
      simp only [List.length_append, List.length_singleton]
      cases hEscape : hasEscape s with
      | false =>
          rw [List.countP_cons_of_neg (by simp [hEscape])]
          omega
      | true =>
          have hShort := hLt hEscape
          rw [List.countP_cons_of_pos hEscape]
          omega

theorem sum_segments (path : List Char) :
    ((segments path).map fun s => s.length + 1).sum = width (path.splitOn '/') := by
  simp [segments, width, Function.comp_def]

theorem sum_octets (path : List Char) :
    (((path.splitOn '/').map octets).map fun s => s.length + 1).sum = (octets path).length + 1 := by
  have hSum (m : List (List Char)) :
      ((m.map octets).map fun s => s.length + 1).sum = (octets (render m)).length := by
    induction m with
    | nil => rfl
    | cons s m ih =>
        have hRender : render (s :: m) = '/' :: (s ++ render m) := rfl
        have hSlash : String.utf8EncodeChar '/' = [47] := by decide
        rw [hRender, octets_cons, octets_append, hSlash, List.map_cons, List.map_cons,
          List.sum_cons, ih]
        simp only [List.length_append, List.length_singleton]
        omega
  have hSlash : String.utf8EncodeChar '/' = [47] := by decide
  rw [hSum, render_splitOn, octets_cons, hSlash, List.length_append, Nat.add_comm]
  rfl

end Width

section Follow

variable {path x p : List Char} {safe : Char → Bool}

/-- A path is sent as the text `base` and behind it a path of these segments, none of
which leads elsewhere. -/
def Follows (base sent p : List Char) : Prop :=
  ∃ rest, sent = base ++ rest ∧ segments rest = (p.splitOn '/').map octets ∧
    ∀ segment ∈ segments rest, segment ∉ [octets ['.'], octets ['.', '.']]

/-- Segments that mean what they say: no dot segment and no escape. -/
def Literal (p : List Char) : Prop :=
  ∀ s ∈ p.splitOn '/', isDot s = false ∧ hasEscape s = false

instance (p : List Char) : Decidable (Literal p) :=
  inferInstanceAs (Decidable (∀ s ∈ p.splitOn '/', _))

theorem octets_notMem_dots {s : List Char} (h : isDot s = false) :
    octets s ∉ [octets ['.'], octets ['.', '.']] := by
  have hNot : s ≠ ['.'] ∧ s ≠ ['.', '.'] := by simpa [isDot] using h
  simp only [List.mem_cons, List.not_mem_nil, or_false, octets_injective.eq_iff]
  exact not_or.mpr hNot

theorem slash_notMem_map_quote {l : List (List Char)} (h : ∀ s ∈ l, '/' ∉ s) :
    ∀ s ∈ l.map (quote safe), '/' ∉ s := by
  intro s hs
  obtain ⟨segment, hMem, rfl⟩ := List.mem_map.mp hs
  exact slash_notMem_quote (h segment hMem)

theorem splitOn_quote (hSlash : safe '/' = true) (x : List Char) :
    (quote safe x).splitOn '/' = (x.splitOn '/').map (quote safe) := by
  refine render_inj (fun s hs => slash_notMem_splitOn hs)
    (slash_notMem_map_quote fun s hs => slash_notMem_splitOn hs) (by simp) (by simp) ?_
  rw [render_splitOn, ← quote_render hSlash, render_splitOn, quote_slash hSlash]

theorem segments_quote (hSlash : safe '/' = true) (hLiteral : Literal x) :
    segments (quote safe x) = (x.splitOn '/').map octets := by
  rw [segments, splitOn_quote hSlash, List.map_map]
  refine List.map_congr_left fun s hs => ?_
  exact (decode_quote s).trans (decode_of_plain (hLiteral s hs).2)

/-- If nothing of what a path is long is lost on the way, then it is there as it is, and
its segments are literal. -/
theorem literal_of_width {l : List (List Char)} (hSub : x.Sublist p)
    (hTotal : width (removeDots (l ++ x.splitOn '/')) =
      width (l.foldl push []) + ((octets p).length + 1)) : x = p ∧ Literal p := by
  have hDots := width_removeDots (l := l) (List.splitOn_ne_nil '/' x)
  have hEscapes := width_le (x.splitOn '/')
  have hSlashOctet : String.utf8EncodeChar '/' = [47] := by decide
  rw [render_splitOn, octets_cons, hSlashOctet, List.length_append, List.length_singleton]
    at hEscapes
  obtain ⟨hLe, hEq⟩ := length_octets_of_sublist hSub
  have hWhole : (octets x).length = (octets p).length := by omega
  obtain rfl := hEq hWhole
  have hNoDot : (x.splitOn '/').countP isDot = 0 := by omega
  have hNoEscape : (x.splitOn '/').countP hasEscape = 0 := by omega
  rw [List.countP_eq_zero] at hNoDot hNoEscape
  exact ⟨rfl, fun s hs => ⟨by simpa using hNoDot s hs, by simpa using hNoEscape s hs⟩⟩

/-- Behind a rooted path and a slash, what is left of a relative path is sent as that path
exactly if nothing of it is missing and its segments are literal. -/
theorem follows_iff (hSlash : safe '/' = true) (hRooted : Rooted path) (hSub : x.Sublist p) :
    Follows (quote safe (normalPath (path ++ ['/'])))
      (quote safe (normalPath (path ++ '/' :: x))) p ↔ x = p ∧ Literal p := by
  obtain ⟨l, hNoSlash, hl⟩ := exists_segments hRooted
  let kept := (l.foldl push []).reverse
  have hBase (rest : List Char) : quote safe (normalPath (path ++ ['/'])) ++ rest =
      render (kept.map (quote safe) ++ rest.splitOn '/') := by
    have hNormal : normalPath (path ++ ['/']) = render kept ++ ['/'] := by
      rw [hl [], List.splitOn_nil, removeDots_append (List.cons_ne_nil _ _) (by simp [isDot]),
        render_append]
      rfl
    rw [hNormal, quote_append_slash hSlash, quote_render hSlash, render_append, render_splitOn,
      List.append_assoc]
    rfl
  have hSent : quote safe (normalPath (path ++ '/' :: x)) =
      render ((removeDots (l ++ x.splitOn '/')).map (quote safe)) := by
    rw [hl x, quote_render hSlash]
  constructor
  · rintro ⟨rest, hRest, hSegments, -⟩
    have hFinal : ∀ s ∈ l ++ x.splitOn '/', '/' ∉ s := fun s hs =>
      (List.mem_append.mp hs).elim (hNoSlash s) slash_notMem_splitOn
    have hKept : ∀ s ∈ kept.map (quote safe) ++ rest.splitOn '/', '/' ∉ s := fun s hs =>
      (List.mem_append.mp hs).elim
        (slash_notMem_map_quote (slash_notMem_kept hNoSlash) s) slash_notMem_splitOn
    have hSame : (removeDots (l ++ x.splitOn '/')).map (quote safe) =
        kept.map (quote safe) ++ rest.splitOn '/' :=
      render_inj (slash_notMem_map_quote (slash_notMem_removeDots hFinal)) hKept
        (by simp [removeDots_ne_nil]) (by simp) (by rw [← hSent, hRest, hBase])
    have hMeasure := congrArg width hSame
    rw [width_map_quote, width_append, width_map_quote, width_reverse, ← sum_segments, hSegments,
      sum_octets] at hMeasure
    exact literal_of_width hSub hMeasure
  · rintro ⟨rfl, hLiteral⟩
    refine ⟨quote safe x, ?_, segments_quote hSlash hLiteral, ?_⟩
    · rw [hSent, hBase, splitOn_quote hSlash, removeDots_append (List.splitOn_ne_nil _ _)
        fun s hs => (hLiteral s hs).1, List.map_append]
    · rw [segments_quote hSlash hLiteral]
      intro segment hMem
      obtain ⟨s, hs, rfl⟩ := List.mem_map.mp hMem
      exact octets_notMem_dots (hLiteral s hs).1

end Follow

end Rfc3986

import Mathlib.Data.Char
import Mathlib.Data.List.Basic
import Mathlib.Data.List.Lex
import Mathlib.Data.List.Sort
import Mathlib.Tactic.Common

/-! Text as strings of Unicode scalar values: trimming, lower case of ASCII,
decimal numerals, UTF-8 and the ASCII form of JSON. -/
namespace Text

abbrev Bytes := List UInt8

/-- `s.lstrip(c)` -/
def lstrip (c : Char) (s : String) : String :=
  String.ofList (s.toList.dropWhile (· == c))

/-- `s.rstrip(c)` -/
def rstrip (c : Char) (s : String) : String :=
  String.ofList (s.toList.reverse.dropWhile (· == c)).reverse

/-- `s.strip(c)` -/
def strip (c : Char) (s : String) : String := rstrip c (lstrip c s)

/-- `s.lower()` on ASCII text. -/
def lower (s : String) : String := String.ofList (s.toList.map Char.toLower)

theorem toLower_toLower (c : Char) : c.toLower.toLower = c.toLower := by
  unfold Char.toLower
  split_ifs with h hAgain
  · have hHigh : c.val.toNat ≤ 90 := h.2
    have hLow : 65 ≤ c.val.toNat := h.1
    have hShift : ('a'.val - 'A'.val).toNat = 32 := by decide
    have hVal : (c.val + ('a'.val - 'A'.val)).toNat = c.val.toNat + 32 := by
      rw [UInt32.toNat_add, hShift]
      omega
    have hUp : (c.val + ('a'.val - 'A'.val)).toNat ≤ 90 := hAgain.2
    omega
  · rfl
  · rfl

theorem lower_lower (s : String) : lower (lower s) = lower s := by
  have hComp : Char.toLower ∘ Char.toLower = Char.toLower := by
    funext c
    exact toLower_toLower c
  rw [lower, lower, String.toList_ofList, List.map_map, hComp]

/-- `s.encode()` -/
def utf8 (s : String) : Bytes := s.toList.flatMap String.utf8EncodeChar

/-- A digit of Base64. -/
def base64Digit (n : Nat) : Char :=
  "ABCDEFGHIJKLMNOPQRSTUVWXYZabcdefghijklmnopqrstuvwxyz0123456789+/".toList.getD (n % 64) '='

def base64Chars : Bytes → List Char
  | [] => []
  | [a] =>
      let n := a.toNat * 16
      [base64Digit (n / 64), base64Digit n, '=', '=']
  | [a, b] =>
      let n := (a.toNat * 256 + b.toNat) * 4
      [base64Digit (n / 4096), base64Digit (n / 64), base64Digit n, '=']
  | a :: b :: c :: rest =>
      let n := (a.toNat * 256 + b.toNat) * 256 + c.toNat
      base64Digit (n / 262144) :: base64Digit (n / 4096) :: base64Digit (n / 64) ::
        base64Digit n :: base64Chars rest

/-- `base64.b64encode(data).decode()` -/
def base64 (data : Bytes) : String := String.ofList (base64Chars data)

example : base64 (utf8 "a:bc") = "YTpiYw==" := by decide

/-- A decimal numeral of at least two digits, as `%m` and `%d` print it. -/
def twoDigits (n : Nat) : String :=
  if n < 10 then "0" ++ Nat.repr n else Nat.repr n

theorem ofDigitChars_repr (n : Nat) : Nat.ofDigitChars 10 (Nat.repr n).toList 0 = n := by
  simp [Nat.repr]

theorem ofDigitChars_twoDigits (n : Nat) :
    Nat.ofDigitChars 10 (twoDigits n).toList 0 = n := by
  unfold twoDigits
  split_ifs
  · rw [String.toList_append, Nat.ofDigitChars_append]
    exact ofDigitChars_repr n
  · exact ofDigitChars_repr n

theorem repr_injective : Function.Injective Nat.repr := fun n m h => by
  rw [← ofDigitChars_repr n, h, ofDigitChars_repr]

theorem twoDigits_injective : Function.Injective twoDigits := fun n m h => by
  rw [← ofDigitChars_twoDigits n, h, ofDigitChars_twoDigits]

theorem sep_notMem_repr (n : Nat) : '-' ∉ (Nat.repr n).toList := by
  intro h
  have hDigit := Nat.isDigit_of_mem_toDigits (b := 10) (by decide) (by decide)
    (by simpa [Nat.repr] using h)
  exact absurd hDigit (by decide)

theorem sep_notMem_twoDigits (n : Nat) : '-' ∉ (twoDigits n).toList := by
  unfold twoDigits
  split_ifs
  · simpa using sep_notMem_repr n
  · exact sep_notMem_repr n

/-- Texts that meet at a separator absent from both heads agree in both parts. -/
theorem append_sep_inj {c : Char} {x x' : List Char} {y y' : List Char} (hx : c ∉ x)
    (hx' : c ∉ x') (h : x ++ c :: y = x' ++ c :: y') : x = x' ∧ y = y' := by
  induction x generalizing x' with
  | nil =>
      cases x' with
      | nil => exact ⟨rfl, (List.cons.inj h).2⟩
      | cons d x' =>
          obtain rfl : c = d := (List.cons.inj h).1
          exact absurd (List.mem_cons_self) hx'
  | cons d x ih =>
      cases x' with
      | nil =>
          obtain rfl : d = c := (List.cons.inj h).1
          exact absurd (List.mem_cons_self) hx
      | cons d' x' =>
          obtain ⟨rfl, hTail⟩ := List.cons.inj h
          obtain ⟨rfl, hy⟩ := ih (fun hm => hx (List.mem_cons_of_mem _ hm))
            (fun hm => hx' (List.mem_cons_of_mem _ hm)) hTail
          exact ⟨rfl, hy⟩

/-- Texts with tails of one length agree in both parts. -/
theorem append_inj_of_length {s s' t t' : String} (hLength : t.length = t'.length)
    (h : s ++ t = s' ++ t') : s = s' ∧ t = t' := by
  have hList : s.toList ++ t.toList = s'.toList ++ t'.toList := by
    simpa using congrArg String.toList h
  obtain ⟨hs, ht⟩ := List.append_inj' hList (by simpa [String.length_toList] using hLength)
  exact ⟨String.toList_inj.mp hs, String.toList_inj.mp ht⟩

theorem ne_of_head {s t : String} (h : s.toList.head? ≠ t.toList.head?) : s ≠ t := by
  rintro rfl
  exact h rfl

namespace Json

def quote : Char := Char.ofNat 34

def backslash : Char := Char.ofNat 92

/-- The digits of `{0:04x}`. -/
def hex4 (n : Nat) : List Char :=
  [Nat.digitChar (n / 4096 % 16), Nat.digitChar (n / 256 % 16), Nat.digitChar (n / 16 % 16),
    Nat.digitChar (n % 16)]

/-- One character of a JSON string with `ensure_ascii`: printable ASCII stays,
the named escapes come next, everything else is one or two UTF-16 units. -/
def escape (c : Char) : List Char :=
  if c = quote then [backslash, quote]
  else if c = backslash then [backslash, backslash]
  else if c.toNat = 8 then [backslash, 'b']
  else if c.toNat = 12 then [backslash, 'f']
  else if c.toNat = 10 then [backslash, 'n']
  else if c.toNat = 13 then [backslash, 'r']
  else if c.toNat = 9 then [backslash, 't']
  else if 32 ≤ c.toNat ∧ c.toNat ≤ 126 then [c]
  else if c.toNat < 65536 then backslash :: 'u' :: hex4 c.toNat
  else
    backslash :: 'u' :: hex4 (55296 + (c.toNat - 65536) / 1024 % 1024) ++
      backslash :: 'u' :: hex4 (56320 + (c.toNat - 65536) % 1024)

/-- `json.dumps` of a string. -/
def dumpsString (s : String) : List Char :=
  quote :: s.toList.flatMap escape ++ [quote]

/-- `json.dumps` of one pair of strings, a two-element list. -/
def dumpsPair (e : String × String) : List Char :=
  '[' :: dumpsString e.1 ++ ',' :: dumpsString e.2 ++ [']']

/-- `json.dumps` of a list of string pairs with `separators=(",", ":")`. -/
def dumpsPairs (pairs : List (String × String)) : String :=
  String.ofList ('[' :: List.intercalate [','] (pairs.map dumpsPair) ++ [']'])

example : dumpsPairs [("a", "1"), ("b", "\n")] = "[[\"a\",\"1\"],[\"b\",\"\\n\"]]" := by decide

end Json

/-- The order of tuples of strings, code point by code point. -/
def pairLe (e e' : String × String) : Prop :=
  e.1.toList < e'.1.toList ∨ e.1 = e'.1 ∧ e.2.toList ≤ e'.2.toList

instance : DecidableRel pairLe := fun e e' => by
  unfold pairLe
  infer_instance

/-- `sorted(d.items())` -/
def sortedItems (items : List (String × String)) : List (String × String) :=
  items.insertionSort pairLe

end Text

import Gateway.Semantics.JsonText
import Mathlib.Data.List.Chain

/-! JSON strings over code points. A text may hold surrogates, which no encoding
of Unicode has; JSON writes a character beyond the 16-bit ones as a high and a
low surrogate, and reads every such pair as that character. -/
namespace Text

abbrev CodePoint := Fin 1114112

/-- A text as the code points that it is indexed by. -/
abbrev CodePoints := List CodePoint

def codePoint (c : Char) : CodePoint :=
  ⟨c.toNat, by
    have := Json.toNat_cases c
    omega⟩

/-- A text without surrogates. -/
def codePoints (s : List Char) : CodePoints := s.map codePoint

theorem codePoint_injective : Function.Injective codePoint := by
  intro c d h
  have hVal := congrArg Fin.val h
  exact Char.toNat_inj.mp hVal

namespace Json

def isHigh (n : ℕ) : Bool := decide (55296 ≤ n ∧ n < 56320)

def isLow (n : ℕ) : Bool := decide (56320 ≤ n ∧ n < 57344)

/-- The character that two surrogates stand for. -/
def combine (high low : CodePoint) : CodePoint :=
  Fin.ofNat 1114112 (65536 + (high.val - 55296) * 1024 + (low.val - 56320))

/-- Pairs of surrogates read as characters, from left to right. -/
def join : CodePoints → CodePoints
  | [] => []
  | [c] => [c]
  | c :: d :: s => if isHigh c && isLow d then combine c d :: join s else c :: join (d :: s)

/-- No high surrogate stands directly before a low one. -/
def Unpaired (s : CodePoints) : Prop :=
  s.IsChain fun c d => ¬(isHigh c.val = true ∧ isLow d.val = true)

instance (s : CodePoints) : Decidable (Unpaired s) :=
  inferInstanceAs (Decidable (s.IsChain _))

/-- One code point of a JSON string with `ensure_ascii`. -/
def escapePoint (c : CodePoint) : List Char :=
  if isHigh c || isLow c then backslash :: 'u' :: hex4 c else escape (Char.ofNat c)

/-- `json.dumps` of a string. -/
def dumpsText (s : CodePoints) : List Char := quote :: s.flatMap escapePoint ++ [quote]

/-- The value of a hexadecimal digit in either case. -/
def hexDigit? (c : Char) : Option ℕ :=
  if '0' ≤ c ∧ c ≤ '9' then some (c.toNat - 48)
  else if 'a' ≤ c ∧ c ≤ 'f' then some (c.toNat - 87)
  else if 'A' ≤ c ∧ c ≤ 'F' then some (c.toNat - 55)
  else none

/-- The letters behind a backslash. -/
def unescapeLetter (c : Char) : Option CodePoint :=
  if c = quote ∨ c = backslash ∨ c = '/' then some (codePoint c)
  else if c = 'b' then some 8
  else if c = 'f' then some 12
  else if c = 'n' then some 10
  else if c = 'r' then some 13
  else if c = 't' then some 9
  else none

/-- `_decode_uXXXX` -/
def decodeUnit (a b c d : Char) : Option CodePoint := do
  let a ← hexDigit? a
  let b ← hexDigit? b
  let c ← hexDigit? c
  let d ← hexDigit? d
  some (Fin.ofNat 1114112 (((a * 16 + b) * 16 + c) * 16 + d))

/-- The code points up to the closing quote, surrogates still apart, and what
follows the quote. A control character is refused. -/
def scanUnits : List Char → Option (CodePoints × List Char)
  | [] => none
  | c :: s =>
      if c = quote then some ([], s)
      else if c = backslash then
        match s with
        | [] => none
        | e :: s =>
            if e = 'u' then
              match s with
              | x :: y :: z :: w :: s => do
                  let unit ← decodeUnit x y z w
                  let (units, rest) ← scanUnits s
                  some (unit :: units, rest)
              | _ => none
            else do
              let unit ← unescapeLetter e
              let (units, rest) ← scanUnits s
              some (unit :: units, rest)
      else if c.toNat < 32 then none
      else do
        let (units, rest) ← scanUnits s
        some (codePoint c :: units, rest)

/-- `scanstring` -/
def scanText (s : List Char) : Option (CodePoints × List Char) :=
  (scanUnits s).map fun (units, rest) => (join units, rest)

/-- The code points that an escape is read as before pairs are joined. -/
def units (c : CodePoint) : CodePoints :=
  if c.val < 65536 then [c]
  else [Fin.ofNat 1114112 (55296 + (c.val - 65536) / 1024 % 1024),
    Fin.ofNat 1114112 (56320 + (c.val - 65536) % 1024)]

section Strings

variable {c d : CodePoint} {s t : CodePoints} {rest : List Char}

theorem hexDigit?_digitChar {n : ℕ} (h : n < 16) : hexDigit? (Nat.digitChar n) = some n := by
  have hAll : ∀ m : Fin 16, hexDigit? (Nat.digitChar m) = some m.val := by decide
  exact hAll ⟨n, h⟩

theorem scanUnits_unit {n : ℕ} (h : n < 65536) :
    scanUnits (backslash :: 'u' :: hex4 n ++ rest) =
      (scanUnits rest).map fun p => (Fin.ofNat 1114112 n :: p.1, p.2) := by
  have hDigit (m : ℕ) : hexDigit? (Nat.digitChar (m % 16)) = some (m % 16) :=
    hexDigit?_digitChar (Nat.mod_lt m (by decide))
  have hUnit : decodeUnit (Nat.digitChar (n / 4096 % 16)) (Nat.digitChar (n / 256 % 16))
      (Nat.digitChar (n / 16 % 16)) (Nat.digitChar (n % 16)) = some (Fin.ofNat 1114112 n) := by
    simp only [decodeUnit, hDigit, Option.bind_eq_bind, Option.bind_some]
    rw [show ((n / 4096 % 16 * 16 + n / 256 % 16) * 16 + n / 16 % 16) * 16 + n % 16 = n by omega]
  have hNe : backslash ≠ quote := by decide
  rw [hex4, List.cons_append, scanUnits.eq_def]
  simp only [List.cons_append, List.nil_append, if_neg hNe, if_true, hUnit, Option.bind_eq_bind,
    Option.bind_some]
  cases scanUnits rest <;> rfl

theorem scanUnits_letter {n : ℕ} {e : Char} (h : (n, e) ∈ shortEscapes) :
    scanUnits (backslash :: e :: rest) =
      (scanUnits rest).map fun p => (Fin.ofNat 1114112 n :: p.1, p.2) := by
  have hNe : backslash ≠ quote := by decide
  have hLetter : e ≠ 'u' ∧ unescapeLetter e = some (Fin.ofNat 1114112 n) := by
    have hAll : ∀ p ∈ shortEscapes, p.2 ≠ 'u' ∧
        unescapeLetter p.2 = some (Fin.ofNat 1114112 p.1) := by decide
    exact hAll (n, e) h
  rw [scanUnits.eq_def]
  simp only [if_neg hNe, if_true, if_neg hLetter.1, hLetter.2, Option.bind_eq_bind,
    Option.bind_some]
  cases scanUnits rest <;> rfl

theorem scanUnits_plain {c : Char} (hQuote : c ≠ quote) (hBackslash : c ≠ backslash)
    (hPrint : 32 ≤ c.toNat) :
    scanUnits (c :: rest) = (scanUnits rest).map fun p => (codePoint c :: p.1, p.2) := by
  rw [scanUnits.eq_def]
  simp only [if_neg hQuote, if_neg hBackslash, if_neg (not_lt.mpr hPrint), Option.bind_eq_bind]
  cases scanUnits rest <;> rfl

theorem codePoint_ofNat (h : (isHigh c || isLow c) = false) :
    codePoint (Char.ofNat c) = c ∧ (Char.ofNat c).toNat = c.val := by
  have hNot : ¬(55296 ≤ c.val ∧ c.val < 56320) ∧ ¬(56320 ≤ c.val ∧ c.val < 57344) := by
    simpa [isHigh, isLow] using h
  have hValid : c.val.isValidChar := by
    have hBound := c.isLt
    unfold Nat.isValidChar
    omega
  have hVal : (Char.ofNat c).toNat = c.val := by
    rw [Char.ofNat, dif_pos hValid]
    rfl
  exact ⟨Fin.ext hVal, hVal⟩

/-- Every escape is read as its units. -/
theorem scanUnits_escapePoint :
    scanUnits (escapePoint c ++ rest) = (scanUnits rest).map fun p => (units c ++ p.1, p.2) := by
  cases hSurrogate : isHigh c || isLow c with
  | true =>
      have hSmall : c.val < 65536 := by
        simp only [isHigh, isLow, Bool.or_eq_true, decide_eq_true_iff] at hSurrogate
        omega
      have hSame : Fin.ofNat 1114112 c.val = c := Fin.ofNat_val_eq_self c
      rw [escapePoint, if_pos hSurrogate, scanUnits_unit hSmall, units, if_pos hSmall, hSame]
      rfl
  | false =>
      obtain ⟨hSame, hVal⟩ := codePoint_ofNat hSurrogate
      rw [escapePoint, if_neg (by simp [hSurrogate])]
      rcases escape_cases (Char.ofNat c) with ⟨e, hShort, hForm⟩ | ⟨hQuote, hBackslash, hPrint, hForm⟩ |
        ⟨hUnit, hForm⟩ | ⟨hLarge, hForm⟩
      · have hSmall : c.val < 65536 := by
          have hAll : ∀ p ∈ shortEscapes, p.1 < 65536 := by decide
          rw [hVal] at hShort
          exact hAll _ hShort
        rw [hForm, List.cons_append, List.singleton_append, scanUnits_letter hShort, hVal, units,
          if_pos hSmall, Fin.ofNat_val_eq_self]
        rfl
      · have hSmall : c.val < 65536 := by omega
        rw [hForm, List.singleton_append, scanUnits_plain hQuote hBackslash hPrint.1, hSame, units,
          if_pos hSmall]
        rfl
      · rw [hVal] at hUnit hForm
        rw [hForm, scanUnits_unit hUnit, units, if_pos hUnit, Fin.ofNat_val_eq_self]
        rfl
      · rw [hVal] at hLarge hForm
        have hBound := c.isLt
        have hHigh : 55296 + (c.val - 65536) / 1024 % 1024 < 65536 := by omega
        have hLow : 56320 + (c.val - 65536) % 1024 < 65536 := by omega
        rw [hForm, List.append_assoc, scanUnits_unit hHigh, scanUnits_unit hLow, units,
          if_neg (not_lt.mpr hLarge), Option.map_map]
        rfl

/-- A text is read as its units up to the closing quote. -/
theorem scanUnits_dumps : scanUnits (s.flatMap escapePoint ++ quote :: rest) =
    some (s.flatMap units, rest) := by
  induction s with
  | nil =>
      rw [List.flatMap_nil, List.nil_append, scanUnits.eq_def]
      rfl
  | cons c s ih =>
      rw [List.flatMap_cons, List.append_assoc, scanUnits_escapePoint, ih]
      rfl

/-- A code point that starts no pair stays. -/
theorem join_cons (h : isHigh c.val = true → ∀ d ∈ s.head?, isLow d.val = false) :
    join (c :: s) = c :: join s := by
  cases s with
  | nil => rfl
  | cons d s =>
      have hNot : ¬(isHigh c.val && isLow d.val) = true := by
        intro hBoth
        obtain ⟨hHigh, hLow⟩ := Bool.and_eq_true_iff.mp hBoth
        rw [h hHigh d rfl] at hLow
        cases hLow
      rw [join, if_neg hNot]

/-- The units of a character beyond the 16-bit ones are a high and a low
surrogate that make it up. -/
theorem units_of_large (h : 65536 ≤ c.val) :
    ∃ high low, units c = [high, low] ∧ isHigh high.val = true ∧ isLow high.val = false ∧
      isLow low.val = true ∧ combine high low = c := by
  have hBound := c.isLt
  have hHigh : (Fin.ofNat 1114112 (55296 + (c.val - 65536) / 1024 % 1024)).val =
      55296 + (c.val - 65536) / 1024 % 1024 := Nat.mod_eq_of_lt (by omega)
  have hLow : (Fin.ofNat 1114112 (56320 + (c.val - 65536) % 1024)).val =
      56320 + (c.val - 65536) % 1024 := Nat.mod_eq_of_lt (by omega)
  refine ⟨_, _, by rw [units, if_neg (not_lt.mpr h)], ?_, ?_, ?_, ?_⟩
  · rw [hHigh, isHigh, decide_eq_true_iff]
    omega
  · rw [hHigh, isLow, decide_eq_false_iff_not]
    omega
  · rw [hLow, isLow, decide_eq_true_iff]
    omega
  · apply Fin.ext
    rw [combine, hHigh, hLow, Fin.val_ofNat, Nat.mod_eq_of_lt (by omega)]
    omega

theorem join_units_cons (h : 65536 ≤ c.val) : join (units c ++ s) = c :: join s := by
  obtain ⟨high, low, hUnits, hHigh, -, hLow, hCombine⟩ := units_of_large h
  have hPair : (isHigh high.val && isLow low.val) = true := by rw [hHigh, hLow, Bool.and_self]
  rw [hUnits, List.cons_append, List.singleton_append, join, if_pos hPair, hCombine]

/-- The units of a text begin with a low surrogate only if the text does. -/
theorem isLow_head_units (h : ∀ d ∈ s.head?, isLow d.val = false) :
    ∀ d ∈ (s.flatMap units).head?, isLow d.val = false := by
  cases s with
  | nil => simp
  | cons c s =>
      intro d hd
      by_cases hSmall : c.val < 65536
      · rw [List.flatMap_cons, units, if_pos hSmall] at hd
        exact h d hd
      · obtain ⟨high, low, hUnits, -, hNot, -⟩ := units_of_large (not_lt.mp hSmall)
        rw [List.flatMap_cons, hUnits] at hd
        obtain rfl := Option.some.inj hd
        exact hNot

/-- An unpaired text is read back. -/
theorem join_units (h : Unpaired s) : join (s.flatMap units) = s := by
  induction s with
  | nil => rfl
  | cons c s ih =>
      have hRest : join (s.flatMap units) = s := ih h.tail
      by_cases hSmall : c.val < 65536
      · have hHead : isHigh c.val = true → ∀ d ∈ s.head?, isLow d.val = false := by
          intro hHigh d hd
          have hNot := (List.isChain_cons.mp h).1 d hd
          simpa [hHigh] using hNot
        rw [List.flatMap_cons, units, if_pos hSmall, List.singleton_append,
          join_cons fun hHigh => isLow_head_units (hHead hHigh), hRest]
      · rw [List.flatMap_cons, join_units_cons (not_lt.mp hSmall), hRest]

/-- What `json.dumps` writes for an unpaired text, `scanstring` reads. -/
theorem scanText_dumps (h : Unpaired s) :
    scanText (s.flatMap escapePoint ++ quote :: rest) = some (s, rest) := by
  have hUnits : scanUnits (s.flatMap escapePoint ++ quote :: rest) =
      some (s.flatMap units, rest) := scanUnits_dumps
  simp only [scanText, hUnits, Option.map_some, join_units h]

theorem isHigh_codePoint (c : Char) : isHigh (codePoint c).val = false := by
  have hScalar := toNat_cases c
  have hVal : (codePoint c).val = c.toNat := rfl
  simp only [isHigh, hVal, decide_eq_false_iff_not]
  omega

/-- A text without surrogates is unpaired. -/
theorem unpaired_codePoints (s : List Char) : Unpaired (codePoints s) := by
  induction s with
  | nil => exact List.IsChain.nil
  | cons c s ih =>
      refine List.isChain_cons.mpr ⟨?_, ih⟩
      intro d _ hBoth
      rw [isHigh_codePoint] at hBoth
      cases hBoth.1

end Strings

end Json

end Text

import Gateway.Semantics.PrefixCode
import Gateway.Semantics.Utf8

/-! The text that `json.dumps` writes for a list of string pairs says itself
where it ends, also as bytes: every escape is read back, and a quote, a comma or
a bracket never starts what stands before it. -/
namespace Text

open PrefixCode

/-- The value of a hexadecimal digit. -/
def hexVal (c : Char) : ℕ :=
  if c.toNat < 97 then c.toNat - 48 else c.toNat - 87

theorem hexVal_digitChar {n : ℕ} (h : n < 16) : hexVal (Nat.digitChar n) = n := by
  have hAll : ∀ m : Fin 16, hexVal (Nat.digitChar m) = m := by decide
  exact hAll ⟨n, h⟩

namespace Json

/-- The number that four hexadecimal digits denote. -/
def unhex4 : List Char → Option (ℕ × List Char)
  | a :: b :: c :: d :: rest =>
      some (((hexVal a * 16 + hexVal b) * 16 + hexVal c) * 16 + hexVal d, rest)
  | _ => none

theorem unhex4_hex4 {n : ℕ} (h : n < 65536) (rest : List Char) :
    unhex4 (hex4 n ++ rest) = some (n, rest) := by
  have hDigit (m : ℕ) : hexVal (Nat.digitChar (m % 16)) = m % 16 :=
    hexVal_digitChar (Nat.mod_lt m (by decide))
  simp only [hex4, List.cons_append, List.nil_append, unhex4, hDigit]
  rw [show ((n / 4096 % 16 * 16 + n / 256 % 16) * 16 + n / 16 % 16) * 16 + n % 16 = n by omega]

/-- The character behind `\u`: one unit, or a high surrogate and a low one. -/
def unescapeUnit (chars : List Char) : Option (Char × List Char) :=
  match unhex4 chars with
  | none => none
  | some (high, rest) =>
      if 55296 ≤ high ∧ high < 56320 then
        match unhex4 (rest.drop 2) with
        | none => none
        | some (low, rest) =>
            some (Char.ofNat (65536 + (high - 55296) * 1024 + (low - 56320)), rest)
      else some (Char.ofNat high, rest)

/-- The first character of a JSON string. -/
def unescape : List Char → Option (Char × List Char)
  | [] => none
  | c :: rest =>
      if c = backslash then
        match rest with
        | [] => none
        | d :: rest =>
            if d = 'u' then unescapeUnit rest
            else if d = 'b' then some (Char.ofNat 8, rest)
            else if d = 'f' then some (Char.ofNat 12, rest)
            else if d = 'n' then some (Char.ofNat 10, rest)
            else if d = 'r' then some (Char.ofNat 13, rest)
            else if d = 't' then some (Char.ofNat 9, rest)
            else some (d, rest)
      else some (c, rest)

/-- A scalar value is not a surrogate. -/
theorem toNat_cases (c : Char) :
    c.toNat < 55296 ∨ 57343 < c.toNat ∧ c.toNat < 1114112 := c.valid

/-- The characters that are escaped by a letter or by themselves. -/
def shortEscapes : List (ℕ × Char) :=
  [(34, quote), (92, backslash), (8, 'b'), (12, 'f'), (10, 'n'), (13, 'r'), (9, 't')]

/-- What an escape looks like. -/
theorem escape_cases (c : Char) :
    (∃ d, (c.toNat, d) ∈ shortEscapes ∧ escape c = [backslash, d]) ∨
      (c ≠ quote ∧ c ≠ backslash ∧ (32 ≤ c.toNat ∧ c.toNat ≤ 126) ∧ escape c = [c]) ∨
      (c.toNat < 65536 ∧ escape c = backslash :: 'u' :: hex4 c.toNat) ∨
      65536 ≤ c.toNat ∧ escape c =
        backslash :: 'u' :: hex4 (55296 + (c.toNat - 65536) / 1024 % 1024) ++
          backslash :: 'u' :: hex4 (56320 + (c.toNat - 65536) % 1024) := by
  unfold escape
  by_cases hQuote : c = quote
  · exact Or.inl ⟨quote, by rw [hQuote]; decide, by rw [if_pos hQuote]⟩
  rw [if_neg hQuote]
  by_cases hBackslash : c = backslash
  · exact Or.inl ⟨backslash, by rw [hBackslash]; decide, by rw [if_pos hBackslash]⟩
  rw [if_neg hBackslash]
  by_cases h8 : c.toNat = 8
  · exact Or.inl ⟨'b', by rw [h8]; decide, by rw [if_pos h8]⟩
  rw [if_neg h8]
  by_cases h12 : c.toNat = 12
  · exact Or.inl ⟨'f', by rw [h12]; decide, by rw [if_pos h12]⟩
  rw [if_neg h12]
  by_cases h10 : c.toNat = 10
  · exact Or.inl ⟨'n', by rw [h10]; decide, by rw [if_pos h10]⟩
  rw [if_neg h10]
  by_cases h13 : c.toNat = 13
  · exact Or.inl ⟨'r', by rw [h13]; decide, by rw [if_pos h13]⟩
  rw [if_neg h13]
  by_cases h9 : c.toNat = 9
  · exact Or.inl ⟨'t', by rw [h9]; decide, by rw [if_pos h9]⟩
  rw [if_neg h9]
  by_cases hPrint : 32 ≤ c.toNat ∧ c.toNat ≤ 126
  · exact Or.inr (Or.inl ⟨hQuote, hBackslash, hPrint, by rw [if_pos hPrint]⟩)
  rw [if_neg hPrint]
  by_cases hUnit : c.toNat < 65536
  · exact Or.inr (Or.inr (Or.inl ⟨hUnit, by rw [if_pos hUnit]⟩))
  · exact Or.inr (Or.inr (Or.inr ⟨not_lt.mp hUnit, by rw [if_neg hUnit]⟩))

theorem unescape_short {n : ℕ} {d : Char} (h : (n, d) ∈ shortEscapes) (rest : List Char) :
    unescape (backslash :: d :: rest) = some (Char.ofNat n, rest) := by
  simp only [shortEscapes, List.mem_cons, Prod.mk.injEq, List.not_mem_nil, or_false] at h
  rcases h with ⟨rfl, rfl⟩ | ⟨rfl, rfl⟩ | ⟨rfl, rfl⟩ | ⟨rfl, rfl⟩ | ⟨rfl, rfl⟩ | ⟨rfl, rfl⟩ |
    ⟨rfl, rfl⟩ <;> rfl

theorem unescape_escape (c : Char) (rest : List Char) :
    unescape (escape c ++ rest) = some (c, rest) := by
  have hScalar := toNat_cases c
  have hUnicode (rest : List Char) :
      unescape (backslash :: 'u' :: rest) = unescapeUnit rest := rfl
  rcases escape_cases c with ⟨d, hShort, hForm⟩ | ⟨_, hPlain, _, hForm⟩ | ⟨hUnit, hForm⟩ |
    ⟨hLarge, hForm⟩
  · rw [hForm, List.cons_append, List.singleton_append, unescape_short hShort, Char.ofNat_toNat]
  · rw [hForm, List.singleton_append]
    exact if_neg hPlain
  · -- one unit, which is no surrogate
    have hNot : ¬(55296 ≤ c.toNat ∧ c.toNat < 56320) := by omega
    rw [hForm, List.cons_append, List.cons_append, hUnicode]
    simp only [unescapeUnit, unhex4_hex4 hUnit, if_neg hNot, Char.ofNat_toNat]
  · -- two units
    have hHigh : 55296 + (c.toNat - 65536) / 1024 % 1024 < 65536 := by omega
    have hLow : 56320 + (c.toNat - 65536) % 1024 < 65536 := by omega
    have hRange : 55296 ≤ 55296 + (c.toNat - 65536) / 1024 % 1024 ∧
        55296 + (c.toNat - 65536) / 1024 % 1024 < 56320 := by omega
    have hNumber : 65536 + (55296 + (c.toNat - 65536) / 1024 % 1024 - 55296) * 1024 +
        (56320 + (c.toNat - 65536) % 1024 - 56320) = c.toNat := by omega
    rw [hForm, List.append_assoc, List.cons_append, List.cons_append, hUnicode]
    simp only [unescapeUnit, unhex4_hex4 hHigh, if_pos hRange, List.cons_append,
      List.drop_succ_cons, List.drop_zero, unhex4_hex4 hLow, hNumber, Char.ofNat_toNat]

theorem escape_selfDelimiting : SelfDelimiting escape :=
  .of_decoder unescape unescape_escape

/-- Inside a string the quote is escaped. -/
theorem escape_marked : Marked escape quote := by
  intro c
  have hNe : backslash ≠ quote := by decide
  rcases escape_cases c with ⟨d, _, hForm⟩ | ⟨hPlain, _, _, hForm⟩ | ⟨_, hForm⟩ | ⟨_, hForm⟩
  · exact ⟨backslash, _, hForm, hNe⟩
  · exact ⟨c, _, hForm, hPlain⟩
  · exact ⟨backslash, _, hForm, hNe⟩
  · exact ⟨backslash, _, hForm, hNe⟩

theorem dumpsString_selfDelimiting : SelfDelimiting dumpsString := by
  have hBody : SelfDelimiting fun s : String => s.toList.flatMap escape ++ [quote] :=
    (escape_selfDelimiting.terminated escape_marked).comp fun _ _ h => String.toList_inj.mp h
  exact hBody.prepend [quote]

theorem dumpsPair_selfDelimiting : SelfDelimiting dumpsPair := by
  have hValues := dumpsString_selfDelimiting.pair
    ((dumpsString_selfDelimiting.append [']']).prepend [','])
  intro e e' x y h
  exact hValues.prepend ['['] e e' x y (by simpa [dumpsPair] using h)

/-- The text of a list of pairs ends where its bracket closes. -/
theorem dumpsPairs_selfDelimiting : SelfDelimiting fun pairs => (dumpsPairs pairs).toList := by
  have hMarked : Marked dumpsPair ']' := fun e => ⟨'[', _, rfl, by decide⟩
  have hItems := dumpsPair_selfDelimiting.separated hMarked (show ',' ≠ ']' by decide)
  intro l l' x y h
  exact hItems.prepend ['['] l l' x y (by simpa [dumpsPairs] using h)

end Json

/-- UTF-8 is self-delimiting character by character. -/
theorem utf8EncodeChar_selfDelimiting : SelfDelimiting String.utf8EncodeChar := by
  intro c d x y h
  have hSame : c = d := by
    rw [← Option.some_inj, ← decodeChar?_encode_append c x, h, decodeChar?_encode_append]
  subst hSame
  exact ⟨rfl, List.append_cancel_left h⟩

theorem Json.utf8_dumpsPairs_selfDelimiting :
    SelfDelimiting fun pairs => utf8 (Json.dumpsPairs pairs) :=
  Json.dumpsPairs_selfDelimiting.letters utf8EncodeChar_selfDelimiting

theorem Json.utf8_dumpsPairs_head (pairs : List (String × String)) :
    ∃ rest, utf8 (Json.dumpsPairs pairs) = utf8 "[" ++ rest := by
  refine ⟨utf8 (String.ofList (List.intercalate [','] (pairs.map Json.dumpsPair) ++ [']'])), ?_⟩
  simp [Json.dumpsPairs, utf8]

/-- Texts are told apart by their UTF-8 form. -/
theorem utf8_injective : Function.Injective utf8 := fun s t h => by
  rw [← decodeReplace_utf8 s, h, decodeReplace_utf8]

end Text

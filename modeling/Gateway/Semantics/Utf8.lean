import Gateway.Semantics.Text

/-! Decoding of UTF-8 that replaces what is not UTF-8: every maximal ill-formed
piece becomes one U+FFFD. -/
namespace Text

/-- The character that the data starts with. -/
def decodeChar? (data : Bytes) : Option Char := data.toByteArray.utf8DecodeChar? 0

/-- Whether the second byte may follow a lead byte of three or four bytes. -/
def secondOk (lead second : UInt8) : Bool :=
  if lead = 0xE0 then 0xA0 ≤ second && second ≤ 0xBF
  else if lead = 0xED then 0x80 ≤ second && second ≤ 0x9F
  else if lead = 0xF0 then 0x90 ≤ second && second ≤ 0xBF
  else if lead = 0xF4 then 0x80 ≤ second && second ≤ 0x8F
  else 0xE1 ≤ lead && lead ≤ 0xF3 && 0x80 ≤ second && second ≤ 0xBF

/-- The length of the ill-formed piece at the head of data that does not start
with a character: the lead byte and what may still continue it. -/
def illFormed : Bytes → ℕ
  | lead :: second :: rest =>
      if secondOk lead second then
        match rest with
        | third :: _ => if 0xF0 ≤ lead ∧ 0x80 ≤ third ∧ third ≤ 0xBF then 3 else 2
        | [] => 2
      else 1
  | _ => 1

/-- Decode at most this many pieces. -/
def decodePieces : ℕ → Bytes → List Char
  | 0, _ => []
  | _ + 1, [] => []
  | n + 1, data@(_ :: _) =>
      match decodeChar? data with
      | some c => c :: decodePieces n (data.drop c.utf8Size)
      | none => Char.ofNat 0xFFFD :: decodePieces n (data.drop (illFormed data))

/-- `data.decode(errors="replace")` -/
def decodeReplace (data : Bytes) : String := String.ofList (decodePieces data.length data)

/-- The data is the UTF-8 form of some text. -/
def WellFormed (data : Bytes) : Prop := ∃ s, utf8 s = data

theorem decodeChar?_encode_append (c : Char) (rest : Bytes) :
    decodeChar? (String.utf8EncodeChar c ++ rest) = some c := by
  rw [decodeChar?, List.toByteArray_append]
  exact ByteArray.utf8DecodeChar?_utf8EncodeChar_append

theorem decodePieces_encode (chars : List Char) (n : ℕ)
    (hFuel : (chars.flatMap String.utf8EncodeChar).length ≤ n) :
    decodePieces n (chars.flatMap String.utf8EncodeChar) = chars := by
  induction chars generalizing n with
  | nil => cases n <;> rfl
  | cons c chars ih =>
      have hSize := c.utf8Size_pos
      rw [List.flatMap_cons, List.length_append, String.length_utf8EncodeChar] at hFuel
      cases n with
      | zero => omega
      | succ n =>
          have hHead : decodeChar? (String.utf8EncodeChar c ++
              chars.flatMap String.utf8EncodeChar) = some c := decodeChar?_encode_append c _
          have hDrop : (String.utf8EncodeChar c ++ chars.flatMap String.utf8EncodeChar).drop
              c.utf8Size = chars.flatMap String.utf8EncodeChar := by
            rw [← String.length_utf8EncodeChar c, List.drop_left]
          rw [List.flatMap_cons]
          cases hData : String.utf8EncodeChar c ++ chars.flatMap String.utf8EncodeChar with
          | nil =>
              have hLength := congrArg List.length hData
              rw [List.length_append, String.length_utf8EncodeChar, List.length_nil] at hLength
              omega
          | cons b data =>
              rw [hData] at hHead hDrop
              simp only [decodePieces, hHead, hDrop]
              rw [ih n (by omega)]

theorem decodeReplace_utf8 (s : String) : decodeReplace (utf8 s) = s := by
  rw [decodeReplace, utf8, decodePieces_encode s.toList _ le_rfl, String.ofList_toList]

/-- Decoding and encoding again gives the data back exactly if it is UTF-8. -/
theorem utf8_decodeReplace {data : Bytes} :
    utf8 (decodeReplace data) = data ↔ WellFormed data := by
  constructor
  · intro h
    exact ⟨decodeReplace data, h⟩
  · rintro ⟨s, rfl⟩
    rw [decodeReplace_utf8]

theorem utf8_append (s t : String) : utf8 (s ++ t) = utf8 s ++ utf8 t := by
  simp [utf8]

theorem toNat_toUInt8 {c : Char} (hAscii : c.toNat < 128) : c.toUInt8.toNat = c.toNat := by
  show c.val.toNat % 256 = c.val.toNat
  have hVal : c.val.toNat < 128 := hAscii
  omega

/-- An ASCII byte stands for its own character only. -/
theorem mem_utf8EncodeChar_iff {c d : Char} (hAscii : c.toNat < 128) :
    c.toUInt8 ∈ String.utf8EncodeChar d ↔ d = c := by
  have hVal := toNat_toUInt8 hAscii
  rw [← Char.toNat_inj, ← hVal, show d.toNat = d.val.toNat from rfl]
  simp only [String.utf8EncodeChar]
  split_ifs <;>
  · simp only [List.mem_cons, List.not_mem_nil, or_false, ← UInt8.toNat_inj, UInt8.toNat_ofNat']
    omega

theorem mem_utf8_iff {c : Char} (hAscii : c.toNat < 128) {s : String} :
    c.toUInt8 ∈ utf8 s ↔ c ∈ s.toList := by
  simp only [utf8, List.mem_flatMap, mem_utf8EncodeChar_iff hAscii, exists_eq_right]

example : decodeReplace [0x61, 0xE2, 0x82, 0x62] = "a\uFFFDb" := by decide +kernel

end Text

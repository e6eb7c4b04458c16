import Gateway.Semantics.JsonString
import Mathlib.Algebra.Order.Ring.Int

/-! JSON documents as `json.dumps` writes them with its default separators and
as `json.loads` reads them. A number with a fraction or an exponent is kept as
its text. -/
namespace Text.Json

inductive Document where
  | null
  | bool (b : Bool)
  | int (n : ℤ)
  | real (numeral : List Char)
  | str (s : CodePoints)
  | arr (items : List Document)
  | obj (members : List (CodePoints × Document))

/-- The default of `sys.get_int_max_str_digits()`: longer integers are neither
printed nor read. -/
def maxStrDigits : ℕ := 4300

def dumpsInt (n : ℤ) : Option (List Char) :=
  if n.natAbs < 10 ^ maxStrDigits then
    some (if n < 0 then '-' :: Nat.toDigits 10 n.natAbs else Nat.toDigits 10 n.natAbs)
  else none

mutual

/-- `json.dumps`; `none` where it raises. -/
def dumps : Document → Option (List Char)
  | .null => some "null".toList
  | .bool b => some (if b then "true".toList else "false".toList)
  | .int n => dumpsInt n
  | .real numeral => some numeral
  | .str s => some (dumpsText s)
  | .arr items => (dumpsItems items).map fun t => '[' :: t ++ [']']
  | .obj members => (dumpsMembers members).map fun t => '{' :: t ++ ['}']

def dumpsItems : List Document → Option (List Char)
  | [] => some []
  | [v] => dumps v
  | v :: w :: rest => do
      let first ← dumps v
      let more ← dumpsItems (w :: rest)
      some (first ++ ',' :: ' ' :: more)

def dumpsMembers : List (CodePoints × Document) → Option (List Char)
  | [] => some []
  | [(k, v)] => do
      let value ← dumps v
      some (dumpsText k ++ ':' :: ' ' :: value)
  | (k, v) :: m :: rest => do
      let value ← dumps v
      let more ← dumpsMembers (m :: rest)
      some (dumpsText k ++ ':' :: ' ' :: value ++ ',' :: ' ' :: more)

end

def isSpace (c : Char) : Bool := decide (c.toNat ∈ [32, 9, 10, 13])

def skip (s : List Char) : List Char := s.dropWhile isSpace

/-- The constants with their texts. -/
def constants : List (List Char × Document) :=
  [("null".toList, .null), ("true".toList, .bool true), ("false".toList, .bool false),
    ("NaN".toList, .real "NaN".toList), ("Infinity".toList, .real "Infinity".toList),
    ("-Infinity".toList, .real "-Infinity".toList)]

def scanConstant (s : List Char) : Option (Document × List Char) :=
  constants.findSome? fun (text, v) => (s.dropPrefix? text).map fun rest => (v, rest)

/-- The digits behind a decimal point. -/
def scanFraction : List Char → List Char × List Char
  | c :: s =>
      if c = '.' ∧ s.takeWhile Char.isDigit ≠ [] then
        (c :: s.takeWhile Char.isDigit, s.dropWhile Char.isDigit)
      else ([], c :: s)
  | [] => ([], [])

/-- The exponent with its sign. -/
def scanExponent : List Char → List Char × List Char
  | c :: s =>
      let (sign, t) := match s with
        | d :: t => if d = '+' ∨ d = '-' then ([d], t) else ([], d :: t)
        | [] => ([], [])
      if (c = 'e' ∨ c = 'E') ∧ t.takeWhile Char.isDigit ≠ [] then
        (c :: sign ++ t.takeWhile Char.isDigit, t.dropWhile Char.isDigit)
      else ([], c :: s)
  | [] => ([], [])

/-- The digits of an integer: a zero, or digits that do not begin with one. -/
def scanDigits (s : List Char) : Option (List Char × List Char) :=
  match s with
  | [] => none
  | c :: rest =>
      if c = '0' then some ([c], rest)
      else if c.isDigit then some (s.takeWhile Char.isDigit, s.dropWhile Char.isDigit)
      else none

/-- A minus sign. -/
def scanSign : List Char → List Char × List Char
  | c :: s => if c = '-' then ([c], s) else ([], c :: s)
  | [] => ([], [])

def scanNumber (s : List Char) : Option (Document × List Char) := do
  let (sign, t) := scanSign s
  let (digits, t) ← scanDigits t
  let (fraction, t) := scanFraction t
  let (exponent, t) := scanExponent t
  if fraction ++ exponent = [] then
    let n := Nat.ofDigitChars 10 digits 0
    if digits.length ≤ maxStrDigits then some (.int (if sign = [] then n else -n), t) else none
  else some (.real (sign ++ digits ++ fraction ++ exponent), t)

mutual

/-- `scan_once`, which starts behind any whitespace. The fuel bounds the steps. -/
def scanValue : ℕ → List Char → Option (Document × List Char)
  | 0, _ => none
  | _ + 1, [] => none
  | fuel + 1, c :: s =>
      if c = quote then (scanText s).map fun (t, rest) => (.str t, rest)
      else if c = '{' then
        match skip s with
        | '}' :: rest => some (.obj [], rest)
        | s => (scanMembers fuel s).map fun (members, rest) => (.obj members, rest)
      else if c = '[' then
        match skip s with
        | ']' :: rest => some (.arr [], rest)
        | s => (scanItems fuel s).map fun (items, rest) => (.arr items, rest)
      else (scanConstant (c :: s)).or (scanNumber (c :: s))

/-- The members up to the closing brace. -/
def scanMembers : ℕ → List Char → Option (List (CodePoints × Document) × List Char)
  | 0, _ => none
  | _ + 1, [] => none
  | fuel + 1, c :: s =>
      if c = quote then do
        let (k, s) ← scanText s
        match skip s with
        | ':' :: s => do
            let (v, s) ← scanValue fuel (skip s)
            match skip s with
            | ',' :: s => do
                let (members, rest) ← scanMembers fuel (skip s)
                some ((k, v) :: members, rest)
            | '}' :: rest => some ([(k, v)], rest)
            | _ => none
        | _ => none
      else none

/-- The items up to the closing bracket. -/
def scanItems : ℕ → List Char → Option (List Document × List Char)
  | 0, _ => none
  | fuel + 1, s => do
      let (v, s) ← scanValue fuel s
      match skip s with
      | ',' :: s => do
          let (items, rest) ← scanItems fuel (skip s)
          some (v :: items, rest)
      | ']' :: rest => some ([v], rest)
      | _ => none

end

/-- `json.loads`; `none` where it raises. -/
def loads (s : List Char) : Option Document :=
  match scanValue s.length (skip s) with
  | some (v, rest) => if skip rest = [] then some v else none
  | none => none

/-- What may follow a value inside a document. -/
def Closes (rest : List Char) : Prop := ∀ c ∈ rest.head?, c = ',' ∨ c = ']' ∨ c = '}'

section Numbers

variable {n : ℕ} {digits rest : List Char}

/-- Only zero is written with a zero in front. -/
theorem toDigits_head (h : 0 < n) : ∃ c s, Nat.toDigits 10 n = c :: s ∧ c ≠ '0' := by
  induction n using Nat.strongRecOn with
  | ind n ih =>
      by_cases hSmall : n < 10
      · have hAll : ∀ m : Fin 10, 0 < m.val → Nat.digitChar m ≠ '0' := by decide
        exact ⟨Nat.digitChar n, [], Nat.toDigits_of_lt_base hSmall, hAll ⟨n, hSmall⟩ h⟩
      · obtain ⟨c, s, hDigits, hNe⟩ := ih (n / 10) (by omega) (by omega)
        refine ⟨c, s ++ [Nat.digitChar (n % 10)], ?_, hNe⟩
        rw [Nat.toDigits_of_base_le (by decide) (not_lt.mp hSmall), hDigits]
        rfl

theorem isDigit_of_closes (h : Closes rest) : ∀ c ∈ rest.head?, c.isDigit = false := by
  intro c hc
  rcases h c hc with rfl | rfl | rfl <;> rfl

/-- The digits of a number end where it does. -/
theorem takeWhile_digits (hDigits : ∀ c ∈ digits, c.isDigit = true) (hRest : Closes rest) :
    (digits ++ rest).takeWhile Char.isDigit = digits ∧
      (digits ++ rest).dropWhile Char.isDigit = rest := by
  have hEnd : rest.takeWhile Char.isDigit = [] ∧ rest.dropWhile Char.isDigit = rest := by
    cases rest with
    | nil => exact ⟨rfl, rfl⟩
    | cons c rest =>
        have hNot : c.isDigit = false := isDigit_of_closes hRest c rfl
        simp [hNot]
  rw [List.takeWhile_append_of_pos hDigits, List.dropWhile_append_of_pos hDigits, hEnd.1, hEnd.2,
    List.append_nil]
  exact ⟨rfl, rfl⟩

theorem isDigit_toDigits : ∀ c ∈ Nat.toDigits 10 n, c.isDigit = true := fun _ hc =>
  Nat.isDigit_of_mem_toDigits (by decide) (by decide) hc

theorem scanDigits_toDigits (hRest : Closes rest) :
    scanDigits (Nat.toDigits 10 n ++ rest) = some (Nat.toDigits 10 n, rest) := by
  obtain ⟨hTake, hDrop⟩ := takeWhile_digits (isDigit_toDigits (n := n)) hRest
  rcases Nat.eq_zero_or_pos n with rfl | hPos
  · rfl
  · obtain ⟨c, s, hDigits, hNe⟩ := toDigits_head hPos
    have hDigit : c.isDigit = true := isDigit_toDigits c (by rw [hDigits]; exact List.mem_cons_self)
    rw [hDigits, List.cons_append] at hTake hDrop ⊢
    rw [scanDigits, if_neg hNe, if_pos hDigit, hTake, hDrop]

/-- No fraction and no exponent follows. -/
theorem scanFraction_of_closes (hRest : Closes rest) : scanFraction rest = ([], rest) := by
  cases rest with
  | nil => rfl
  | cons c rest =>
      have hNe : c ≠ '.' := by
        rcases hRest c rfl with rfl | rfl | rfl <;> decide
      rw [scanFraction, if_neg fun hBoth => hNe hBoth.1]

theorem scanExponent_of_closes (hRest : Closes rest) : scanExponent rest = ([], rest) := by
  cases rest with
  | nil => rfl
  | cons c rest =>
      have hNe : ¬(c = 'e' ∨ c = 'E') := by
        rcases hRest c rfl with rfl | rfl | rfl <;> decide
      rw [scanExponent.eq_def]
      exact if_neg fun hBoth => hNe hBoth.1

theorem scanNumber_dumpsInt {m : ℤ} {text : List Char} (h : dumpsInt m = some text)
    (hRest : Closes rest) : scanNumber (text ++ rest) = some (.int m, rest) := by
  have hScan := scanDigits_toDigits (n := m.natAbs) hRest
  have hValue : Nat.ofDigitChars 10 (Nat.toDigits 10 m.natAbs) 0 = m.natAbs :=
    Nat.ofDigitChars_ten_toDigits
  unfold dumpsInt at h
  split_ifs at h with hShort hNeg
  · obtain rfl := Option.some.inj h
    have hLength : (Nat.toDigits 10 m.natAbs).length ≤ maxStrDigits :=
      (Nat.length_toDigits_le_iff (by decide) (by decide)).mpr hShort
    have hSign : -(m.natAbs : ℤ) = m := by omega
    have hMinus : scanSign ('-' :: Nat.toDigits 10 m.natAbs ++ rest) =
        (['-'], Nat.toDigits 10 m.natAbs ++ rest) := rfl
    simp only [scanNumber, hMinus, hScan, scanFraction_of_closes hRest,
      scanExponent_of_closes hRest, Option.bind_eq_bind, Option.bind_some, List.append_nil, if_true,
      hLength, hValue, hSign, List.cons_ne_nil, if_false]
  · obtain rfl := Option.some.inj h
    have hLength : (Nat.toDigits 10 m.natAbs).length ≤ maxStrDigits :=
      (Nat.length_toDigits_le_iff (by decide) (by decide)).mpr hShort
    have hSign : (m.natAbs : ℤ) = m := by omega
    have hNone : scanSign (Nat.toDigits 10 m.natAbs ++ rest) =
        ([], Nat.toDigits 10 m.natAbs ++ rest) := by
      obtain ⟨c, s, hDigits⟩ := List.exists_cons_of_ne_nil (Nat.toDigits_ne_nil (n := m.natAbs))
      have hDigit : c.isDigit = true :=
        isDigit_toDigits c (by rw [hDigits]; exact List.mem_cons_self)
      have hNe : c ≠ '-' := by
        rintro rfl
        cases hDigit
      rw [hDigits, List.cons_append, scanSign, if_neg hNe]
    simp only [scanNumber, hNone, hScan, scanFraction_of_closes hRest,
      scanExponent_of_closes hRest, Option.bind_eq_bind, Option.bind_some, List.append_nil, if_true,
      hLength, hValue, hSign]

theorem scanConstant_of_isDigit {c : Char} {s : List Char} (h : c.isDigit = true) :
    scanConstant (c :: s) = none ∧ scanConstant ('-' :: c :: s) = none := by
  have hNe : ∀ d ∈ ['n', 't', 'f', 'N', 'I', '-'], c ≠ d := by
    rintro d hd rfl
    have hAll : ['n', 't', 'f', 'N', 'I', '-'].all (fun d => !d.isDigit) = true := by decide
    have hNot := List.all_eq_true.mp hAll c hd
    rw [h] at hNot
    cases hNot
  simp only [List.mem_cons, List.not_mem_nil, or_false, forall_eq_or_imp, forall_eq] at hNe
  simp [scanConstant, constants, List.dropPrefix?, hNe]

end Numbers

/-- Documents that are read back as they were: texts unpaired, integers short
enough, and no other numbers. -/
inductive Readable : Document → Prop where
  | null : Readable .null
  | bool (b : Bool) : Readable (.bool b)
  | int {n : ℤ} (hShort : n.natAbs < 10 ^ maxStrDigits) : Readable (.int n)
  | str {s : CodePoints} (hUnpaired : Unpaired s) : Readable (.str s)
  | arr {items : List Document} (hItems : ∀ v ∈ items, Readable v) : Readable (.arr items)
  | obj {members : List (CodePoints × Document)} (hKeys : ∀ m ∈ members, Unpaired m.1)
      (hValues : ∀ m ∈ members, Readable m.2) : Readable (.obj members)

/-- A text that begins neither with whitespace nor with a closing bracket. -/
def Opens (text : List Char) : Prop :=
  ∃ c s, text = c :: s ∧ isSpace c = false ∧ c ≠ ']'

/-- The scanner finds the value in the text, whatever closes after it. -/
def Reads (v : Document) (text : List Char) : Prop :=
  ∀ fuel rest, text.length ≤ fuel → Closes rest → scanValue fuel (text ++ rest) = some (v, rest)

section RoundTrip

variable {v : Document} {text rest : List Char} {items : List Document}
  {members : List (CodePoints × Document)}

theorem skip_cons {c : Char} (h : isSpace c = false) : skip (c :: rest) = c :: rest :=
  List.dropWhile_cons_of_neg (by simp [h])

theorem skip_space : skip (' ' :: rest) = skip rest := rfl

theorem skip_of_opens (h : Opens text) : skip (text ++ rest) = text ++ rest := by
  obtain ⟨c, s, rfl, hSpace, -⟩ := h
  exact skip_cons hSpace

theorem opens_dumpsText (s : CodePoints) : Opens (dumpsText s) :=
  ⟨quote, _, rfl, by decide, by decide⟩

theorem scanText_dumpsText {s : CodePoints} (h : Unpaired s) :
    ∃ tail, dumpsText s = quote :: tail ∧ ∀ rest, scanText (tail ++ rest) = some (s, rest) := by
  refine ⟨s.flatMap escapePoint ++ [quote], rfl, ?_⟩
  intro rest
  rw [List.append_assoc]
  exact scanText_dumps h

/-- One unit of the fuel is for the first character. -/
theorem reads_of_cons {c : Char} {s : List Char} (h : ∀ fuel rest, s.length ≤ fuel →
      Closes rest → scanValue (fuel + 1) (c :: (s ++ rest)) = some (v, rest)) :
    Reads v (c :: s) := by
  intro fuel rest hFuel hRest
  rw [List.length_cons] at hFuel
  cases fuel with
  | zero => omega
  | succ fuel => exact h fuel rest (by omega) hRest

theorem reads_str {s : CodePoints} (h : Unpaired s) : Reads (.str s) (dumpsText s) := by
  obtain ⟨tail, hText, hScan⟩ := scanText_dumpsText h
  rw [hText]
  apply reads_of_cons
  intro fuel rest _ _
  simp [scanValue, hScan]

/-- A sign or a digit in front tells a number from everything else. -/
theorem number_head {c : Char} (h : c.isDigit = true ∨ c = '-') :
    c ≠ quote ∧ c ≠ '{' ∧ c ≠ '[' ∧ isSpace c = false ∧ c ≠ ']' := by
  have hNot : ∀ d ∈ [quote, '{', '[', ' ', '\t', '\n', '\r', ']'], c ≠ d := by
    have hAll : [quote, '{', '[', ' ', '\t', '\n', '\r', ']'].all
        (fun d => !(d.isDigit || decide (d = '-'))) = true := by decide
    rintro d hd rfl
    have hHead : (c.isDigit || decide (c = '-')) = true := by simpa using h
    have hOther := List.all_eq_true.mp hAll c hd
    rw [hHead] at hOther
    cases hOther
  have hSpace : isSpace c = false := by
    have hChar : ∀ n ∈ [32, 9, 10, 13], Char.ofNat n ∈ [quote, '{', '[', ' ', '\t', '\n', '\r', ']'] := by
      decide
    apply decide_eq_false
    intro hMem
    exact hNot _ (hChar _ hMem) (Char.ofNat_toNat c).symm
  exact ⟨hNot _ (by simp), hNot _ (by simp), hNot _ (by simp), hSpace, hNot _ (by simp)⟩

theorem head_dumpsInt {n : ℤ} (h : dumpsInt n = some text) :
    ∃ c s, text = c :: s ∧ (c.isDigit = true ∨ c = '-') ∧
      ∀ rest, scanConstant (c :: s ++ rest) = none := by
  obtain ⟨c, s, hDigits⟩ := List.exists_cons_of_ne_nil (Nat.toDigits_ne_nil (n := n.natAbs))
  have hDigit : c.isDigit = true :=
    isDigit_toDigits c (by rw [hDigits]; exact List.mem_cons_self)
  unfold dumpsInt at h
  split_ifs at h
  · rw [hDigits] at h
    obtain rfl := Option.some.inj h
    exact ⟨'-', _, rfl, Or.inr rfl, fun rest => (scanConstant_of_isDigit hDigit).2⟩
  · rw [hDigits] at h
    obtain rfl := Option.some.inj h
    exact ⟨c, s, rfl, Or.inl hDigit, fun rest => (scanConstant_of_isDigit hDigit).1⟩

theorem reads_int {n : ℤ} (h : dumpsInt n = some text) : Opens text ∧ Reads (.int n) text := by
  obtain ⟨c, s, rfl, hHead, hNone⟩ := head_dumpsInt h
  obtain ⟨hQuote, hBrace, hBracket, hSpace, hClose⟩ := number_head hHead
  refine ⟨⟨c, s, rfl, hSpace, hClose⟩, ?_⟩
  apply reads_of_cons
  intro fuel rest _ hRest
  have hNumber := scanNumber_dumpsInt h hRest
  have hConstant := hNone rest
  rw [List.cons_append] at hNumber hConstant
  rw [scanValue, if_neg hQuote, if_neg hBrace, if_neg hBracket, hConstant, hNumber]
  rfl

/-- Several items, each of which is read back. -/
theorem reads_items (h : ∀ v ∈ items, ∃ text, dumps v = some text ∧ Opens text ∧ Reads v text)
    (hNe : items ≠ []) :
    ∃ text, dumpsItems items = some text ∧ Opens text ∧ ∀ fuel rest, text.length < fuel →
      scanItems fuel (text ++ ']' :: rest) = some (items, rest) := by
  induction items with
  | nil => exact absurd rfl hNe
  | cons v items ih =>
      obtain ⟨first, hFirst, hOpens, hReads⟩ := h v List.mem_cons_self
      cases items with
      | nil =>
          refine ⟨first, hFirst, hOpens, ?_⟩
          intro fuel rest hFuel
          cases fuel with
          | zero => simp at hFuel
          | succ fuel =>
              have hValue := hReads fuel (']' :: rest) (by omega) (by simp [Closes])
              simp [scanItems, hValue, skip_cons (show isSpace ']' = false by decide)]
      | cons w items =>
          obtain ⟨more, hMore, hMoreOpens, hScan⟩ :=
            ih (fun v' hv' => h v' (List.mem_cons_of_mem _ hv')) (List.cons_ne_nil _ _)
          refine ⟨first ++ ',' :: ' ' :: more, by simp [dumpsItems, hFirst, hMore], ?_, ?_⟩
          · obtain ⟨c, s, rfl, hSpace⟩ := hOpens
            exact ⟨c, _, rfl, hSpace⟩
          · intro fuel rest hFuel
            rw [List.length_append, List.length_cons, List.length_cons] at hFuel
            cases fuel with
            | zero => omega
            | succ fuel =>
                have hValue := hReads fuel (',' :: ' ' :: (more ++ ']' :: rest)) (by omega)
                  (by simp [Closes])
                have hTail := hScan fuel rest (by omega)
                simp [scanItems, hValue, skip_cons (show isSpace ',' = false by decide),
                  skip_space, skip_of_opens hMoreOpens, hTail]

/-- Several members with unpaired keys, the value of each of which is read back. -/
theorem reads_members (hKeys : ∀ m ∈ members, Unpaired m.1)
    (h : ∀ m ∈ members, ∃ text, dumps m.2 = some text ∧ Opens text ∧ Reads m.2 text)
    (hNe : members ≠ []) :
    ∃ text, dumpsMembers members = some text ∧ (∃ s, text = quote :: s) ∧
      ∀ fuel rest, text.length < fuel →
        scanMembers fuel (text ++ '}' :: rest) = some (members, rest) := by
  induction members with
  | nil => exact absurd rfl hNe
  | cons m members ih =>
      obtain ⟨k, v⟩ := m
      obtain ⟨value, hValue, hOpens, hReads⟩ := h (k, v) List.mem_cons_self
      obtain ⟨tail, hKey, hScanKey⟩ := scanText_dumpsText (hKeys (k, v) List.mem_cons_self)
      cases members with
      | nil =>
          refine ⟨dumpsText k ++ ':' :: ' ' :: value, by simp [dumpsMembers, hValue], ?_, ?_⟩
          · exact ⟨tail ++ ':' :: ' ' :: value, by rw [hKey]; rfl⟩
          · intro fuel rest hFuel
            rw [hKey, List.length_append, List.length_cons, List.length_cons,
              List.length_cons] at hFuel
            cases fuel with
            | zero => omega
            | succ fuel =>
                have hScan := hReads fuel ('}' :: rest) (by omega) (by simp [Closes])
                simp [scanMembers, hKey, hScanKey, hScan, skip_space, skip_of_opens hOpens,
                  skip_cons (show isSpace ':' = false by decide),
                  skip_cons (show isSpace '}' = false by decide)]
      | cons m members =>
          obtain ⟨more, hMore, ⟨moreTail, hMoreHead⟩, hScanMore⟩ :=
            ih (fun m' hm' => hKeys m' (List.mem_cons_of_mem _ hm'))
              (fun m' hm' => h m' (List.mem_cons_of_mem _ hm')) (List.cons_ne_nil _ _)
          have hMoreOpens : Opens more := ⟨quote, moreTail, hMoreHead, by decide, by decide⟩
          refine ⟨dumpsText k ++ ':' :: ' ' :: value ++ ',' :: ' ' :: more,
            by simp [dumpsMembers, hValue, hMore], ?_, ?_⟩
          · exact ⟨tail ++ ':' :: ' ' :: value ++ ',' :: ' ' :: more, by rw [hKey]; rfl⟩
          · intro fuel rest hFuel
            simp only [hKey, List.length_append, List.length_cons] at hFuel
            cases fuel with
            | zero => omega
            | succ fuel =>
                have hScan := hReads fuel (',' :: ' ' :: (more ++ '}' :: rest)) (by omega)
                  (by simp [Closes])
                have hTail := hScanMore fuel rest (by omega)
                simp [scanMembers, hKey, hScanKey, hScan, skip_space, skip_of_opens hOpens,
                  skip_of_opens hMoreOpens, hTail, skip_cons (show isSpace ':' = false by decide),
                  skip_cons (show isSpace ',' = false by decide)]

/-- Each of the constants is read back. -/
theorem reads_constant (h : (text, v) ∈ [("null".toList, Document.null),
    ("true".toList, .bool true), ("false".toList, .bool false)]) : Opens text ∧ Reads v text := by
  have hHead : ∃ c s, text = c :: s ∧ c ∈ ['n', 't', 'f'] := by
    simp only [List.mem_cons, Prod.mk.injEq, List.not_mem_nil, or_false] at h
    rcases h with ⟨rfl, -⟩ | ⟨rfl, -⟩ | ⟨rfl, -⟩ <;> exact ⟨_, _, rfl, by decide⟩
  have hConstant (rest : List Char) : scanConstant (text ++ rest) = some (v, rest) := by
    simp only [List.mem_cons, Prod.mk.injEq, List.not_mem_nil, or_false] at h
    rcases h with ⟨rfl, rfl⟩ | ⟨rfl, rfl⟩ | ⟨rfl, rfl⟩ <;>
      simp [scanConstant, constants, List.findSome?, List.dropPrefix?]
  obtain ⟨c, s, rfl, hc⟩ := hHead
  obtain ⟨hQuote, hBrace, hBracket, hSpace, hClose⟩ :
      c ≠ quote ∧ c ≠ '{' ∧ c ≠ '[' ∧ isSpace c = false ∧ c ≠ ']' := by
    simp only [List.mem_cons, List.not_mem_nil, or_false] at hc
    rcases hc with rfl | rfl | rfl <;> decide
  refine ⟨⟨c, s, rfl, hSpace, hClose⟩, ?_⟩
  apply reads_of_cons
  intro fuel rest _ _
  have hScan := hConstant rest
  rw [List.cons_append] at hScan
  rw [scanValue, if_neg hQuote, if_neg hBrace, if_neg hBracket, hScan]
  rfl

/-- A text in brackets is read if it is behind the first of them. -/
theorem reads_of_enclosed {c d : Char} (h : ∀ fuel rest, text.length < fuel →
      scanValue (fuel + 1) (c :: (text ++ d :: rest)) = some (v, rest)) :
    Reads v (c :: text ++ [d]) := by
  rw [List.cons_append]
  apply reads_of_cons
  intro fuel rest hFuel _
  rw [List.length_append, List.length_singleton] at hFuel
  rw [List.append_assoc, List.singleton_append]
  exact h fuel rest hFuel

/-- An array is read back if its items are. -/
theorem reads_arr (h : ∀ v ∈ items, ∃ text, dumps v = some text ∧ Opens text ∧ Reads v text) :
    ∃ text, dumps (.arr items) = some text ∧ Opens text ∧ Reads (.arr items) text := by
  by_cases hNe : items = []
  · subst hNe
    have hReads : Reads (.arr []) ('[' :: [] ++ [']']) := reads_of_enclosed fun _ _ _ => rfl
    exact ⟨"[]".toList, rfl, ⟨'[', [']'], rfl, by decide, by decide⟩, hReads⟩
  · obtain ⟨text, hText, hOpens, hScan⟩ := reads_items h hNe
    refine ⟨'[' :: text ++ [']'], by simp [dumps, hText], ⟨'[', _, rfl, by decide, by decide⟩, ?_⟩
    refine reads_of_enclosed fun fuel rest hFuel => ?_
    have hItems := hScan fuel rest hFuel
    have hSkip : skip (text ++ ']' :: rest) = text ++ ']' :: rest := skip_of_opens hOpens
    obtain ⟨c, s, rfl, -, hClose⟩ := hOpens
    rw [scanValue, if_neg (by decide), if_neg (by decide), if_pos rfl, hSkip]
    split
    case h_1 hSame => exact absurd (List.cons.inj hSame).1 hClose
    case h_2 => rw [hItems, Option.map_some]

/-- An object is read back if its values are. -/
theorem reads_obj (hKeys : ∀ m ∈ members, Unpaired m.1)
    (h : ∀ m ∈ members, ∃ text, dumps m.2 = some text ∧ Opens text ∧ Reads m.2 text) :
    ∃ text, dumps (.obj members) = some text ∧ Opens text ∧ Reads (.obj members) text := by
  by_cases hNe : members = []
  · subst hNe
    have hReads : Reads (.obj []) ('{' :: [] ++ ['}']) := reads_of_enclosed fun _ _ _ => rfl
    exact ⟨['{', '}'], rfl, ⟨'{', ['}'], rfl, by decide, by decide⟩, hReads⟩
  · obtain ⟨text, hText, ⟨s, rfl⟩, hScan⟩ := reads_members hKeys h hNe
    refine ⟨'{' :: (quote :: s) ++ ['}'], by simp [dumps, hText],
      ⟨'{', _, rfl, by decide, by decide⟩, ?_⟩
    refine reads_of_enclosed fun fuel rest hFuel => ?_
    have hMembers := hScan fuel rest hFuel
    have hSkip : skip (quote :: s ++ '}' :: rest) = quote :: s ++ '}' :: rest :=
      skip_cons (by decide)
    rw [scanValue, if_neg (by decide), if_pos rfl, hSkip]
    split
    case h_1 hSame => exact absurd (List.cons.inj hSame).1 (by decide)
    case h_2 => rw [hMembers, Option.map_some]

/-- A readable document is written, and the scanner reads what is written. -/
theorem reads_of_readable (h : Readable v) :
    ∃ text, dumps v = some text ∧ Opens text ∧ Reads v text := by
  induction h with
  | null => exact ⟨"null".toList, rfl, reads_constant (by simp)⟩
  | bool b =>
      cases b with
      | true => exact ⟨"true".toList, rfl, reads_constant (by simp)⟩
      | false => exact ⟨"false".toList, rfl, reads_constant (by simp)⟩
  | @int n hShort =>
      obtain ⟨text, hText⟩ : ∃ text, dumpsInt n = some text := by
        rw [dumpsInt, if_pos hShort]
        exact ⟨_, rfl⟩
      exact ⟨text, hText, reads_int hText⟩
  | @str s hUnpaired => exact ⟨dumpsText s, rfl, opens_dumpsText s, reads_str hUnpaired⟩
  | arr _ ih => exact reads_arr ih
  | obj hKeys _ ih => exact reads_obj hKeys ih

/-- `json.loads` gives back what `json.dumps` was given. -/
theorem loads_dumps (h : Readable v) : ∃ text, dumps v = some text ∧ loads text = some v := by
  obtain ⟨text, hText, hOpens, hReads⟩ := reads_of_readable h
  have hSkip : skip (text ++ []) = text ++ [] := skip_of_opens hOpens
  rw [List.append_nil] at hSkip
  have hScan : scanValue text.length text = some (v, []) := by
    simpa using hReads text.length [] le_rfl (by simp [Closes])
  refine ⟨text, hText, ?_⟩
  rw [loads, hSkip, hScan]
  rfl

end RoundTrip

end Text.Json

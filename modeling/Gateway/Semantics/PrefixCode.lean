import Mathlib.Data.List.Basic
import Mathlib.Tactic.Common

/-! Encoders that say themselves where they end. What is written after an
encoded value never changes how the value is read, so encoded values can be
joined without a length or an escaped separator. -/
namespace PrefixCode

variable {α β σ τ : Type*}

/-- Two encoded values with anything after them are told apart. -/
def SelfDelimiting (code : α → List σ) : Prop :=
  ∀ a b x y, code a ++ x = code b ++ y → a = b ∧ x = y

/-- An encoder is self-delimiting if some decoder finds the value and the rest. -/
theorem SelfDelimiting.of_decoder {code : α → List σ} (decode : List σ → Option (α × List σ))
    (hDecode : ∀ a x, decode (code a ++ x) = some (a, x)) : SelfDelimiting code := by
  intro a b x y hCode
  have hSame : (a, x) = (b, y) := by
    rw [← Option.some_inj, ← hDecode, ← hDecode, hCode]
  exact Prod.mk.inj hSame

theorem SelfDelimiting.comp {code : β → List σ} (h : SelfDelimiting code) {f : α → β}
    (hf : Function.Injective f) : SelfDelimiting fun a => code (f a) := by
  intro a b x y hCode
  obtain ⟨hSame, hRest⟩ := h (f a) (f b) x y hCode
  exact ⟨hf hSame, hRest⟩

/-- One value after the other. -/
theorem SelfDelimiting.pair {first : α → List σ} {second : β → List σ}
    (hFirst : SelfDelimiting first) (hSecond : SelfDelimiting second) :
    SelfDelimiting fun e : α × β => first e.1 ++ second e.2 := by
  intro e e' x y hCode
  simp only [List.append_assoc] at hCode
  obtain ⟨hOne, hRest⟩ := hFirst _ _ _ _ hCode
  obtain ⟨hTwo, hEnd⟩ := hSecond _ _ _ _ hRest
  exact ⟨Prod.ext hOne hTwo, hEnd⟩

/-- A fixed text in front. -/
theorem SelfDelimiting.prepend {code : α → List σ} (h : SelfDelimiting code) (mark : List σ) :
    SelfDelimiting fun a => mark ++ code a := by
  intro a b x y hCode
  simp only [List.append_assoc] at hCode
  exact h a b x y (List.append_cancel_left hCode)

/-- A fixed text behind. -/
theorem SelfDelimiting.append {code : α → List σ} (h : SelfDelimiting code) (mark : List σ) :
    SelfDelimiting fun a => code a ++ mark := by
  intro a b x y hCode
  simp only [List.append_assoc] at hCode
  obtain ⟨hSame, hRest⟩ := h _ _ _ _ hCode
  exact ⟨hSame, List.append_cancel_left hRest⟩

/-- A self-delimiting text whose letters are written by a self-delimiting code. -/
theorem SelfDelimiting.letters {code : α → List σ} {letter : σ → List τ}
    (hCode : SelfDelimiting code) (hLetter : SelfDelimiting letter) :
    SelfDelimiting fun a => (code a).flatMap letter := by
  -- as long as both texts have letters left, their first letters agree
  have hAlign (s t : List σ) (x y : List τ)
      (h : s.flatMap letter ++ x = t.flatMap letter ++ y) :
      (∃ rest, t = s ++ rest ∧ x = rest.flatMap letter ++ y) ∨
        ∃ rest, s = t ++ rest ∧ y = rest.flatMap letter ++ x := by
    induction s generalizing t with
    | nil => exact Or.inl ⟨t, rfl, h⟩
    | cons c s ih =>
        cases t with
        | nil => exact Or.inr ⟨c :: s, rfl, h.symm⟩
        | cons d t =>
            simp only [List.flatMap_cons, List.append_assoc] at h
            obtain ⟨rfl, hRest⟩ := hLetter c d _ _ h
            rcases ih t hRest with ⟨rest, rfl, hx⟩ | ⟨rest, rfl, hy⟩
            · exact Or.inl ⟨rest, rfl, hx⟩
            · exact Or.inr ⟨rest, rfl, hy⟩
  intro a b x y h
  rcases hAlign _ _ _ _ h with ⟨rest, hText, hRest⟩ | ⟨rest, hText, hRest⟩
  · obtain ⟨hSame, hNil⟩ := hCode a b rest [] (by rw [List.append_nil, hText])
    subst hNil
    exact ⟨hSame, hRest⟩
  · obtain ⟨hSame, hNil⟩ := hCode b a rest [] (by rw [List.append_nil, hText])
    subst hNil
    exact ⟨hSame.symm, hRest.symm⟩

section Sequences

variable {item : α → List σ} {sep stop : σ}

/-- No encoded item is empty or starts with the mark that ends the sequence. -/
def Marked (item : α → List σ) (stop : σ) : Prop :=
  ∀ a, ∃ c rest, item a = c :: rest ∧ c ≠ stop

/-- Items one after the other up to a mark. -/
theorem SelfDelimiting.terminated (hItem : SelfDelimiting item) (hMarked : Marked item stop) :
    SelfDelimiting fun l : List α => l.flatMap item ++ [stop] := by
  intro l
  induction l with
  | nil =>
      intro l' x y h
      cases l' with
      | nil => exact ⟨rfl, by simpa using h⟩
      | cons b l' =>
          obtain ⟨c, rest, hHead, hNe⟩ := hMarked b
          simp only [List.flatMap_nil, List.flatMap_cons, hHead, List.nil_append,
            List.cons_append, List.cons.injEq] at h
          exact absurd h.1.symm hNe
  | cons a l ih =>
      intro l' x y h
      cases l' with
      | nil =>
          obtain ⟨c, rest, hHead, hNe⟩ := hMarked a
          simp only [List.flatMap_nil, List.flatMap_cons, hHead, List.nil_append,
            List.cons_append, List.cons.injEq] at h
          exact absurd h.1 hNe
      | cons b l' =>
          simp only [List.flatMap_cons, List.append_assoc] at h
          obtain ⟨rfl, hRest⟩ := hItem a b _ _ h
          obtain ⟨rfl, hEnd⟩ := ih l' x y (by simpa using hRest)
          exact ⟨rfl, hEnd⟩

/-- The items after the first one come with their separators. -/
theorem intercalate_cons (a : α) (l : List α) :
    List.intercalate [sep] ((a :: l).map item) = item a ++ l.flatMap fun b => sep :: item b := by
  induction l generalizing a with
  | nil => simp
  | cons b l ih =>
      rw [List.map_cons, List.map_cons, List.intercalate_cons_cons, ← List.map_cons, ih b]
      simp

/-- Items between separators up to a mark. -/
theorem SelfDelimiting.separated (hItem : SelfDelimiting item) (hMarked : Marked item stop)
    (hSep : sep ≠ stop) :
    SelfDelimiting fun l : List α => List.intercalate [sep] (l.map item) ++ [stop] := by
  have hMore : SelfDelimiting fun l : List α =>
      (l.flatMap fun b => [sep] ++ item b) ++ [stop] :=
    (hItem.prepend [sep]).terminated fun b => ⟨sep, item b, rfl, hSep⟩
  intro l l' x y h
  cases l with
  | nil =>
      cases l' with
      | nil => exact ⟨rfl, by simpa using h⟩
      | cons b l' =>
          obtain ⟨c, rest, hHead, hNe⟩ := hMarked b
          simp only [intercalate_cons, hHead] at h
          exact absurd (List.cons.inj h).1.symm hNe
  | cons a l =>
      cases l' with
      | nil =>
          obtain ⟨c, rest, hHead, hNe⟩ := hMarked a
          simp only [intercalate_cons, hHead] at h
          exact absurd (List.cons.inj h).1 hNe
      | cons b l' =>
          simp only [intercalate_cons, List.append_assoc] at h
          obtain ⟨hSame, hEnd⟩ := hItem.pair hMore (a, l) (b, l') x y (by simpa using h)
          exact ⟨by rw [(Prod.mk.inj hSame).1, (Prod.mk.inj hSame).2], hEnd⟩

end Sequences

end PrefixCode

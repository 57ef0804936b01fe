import SharpClient.Text.RawText

/-!
# Texts among strings

The strings that are texts are those without a surrogate (`RawText.text?_eq_some_iff`), and what is
put together from texts is the string of the text that is put together from them.
-/

namespace SharpClient.RawText

@[simp] theorem ofText_nil : ofText [] = [] := rfl

@[simp] theorem ofText_cons (c : Char) (cs : Text) : ofText (c :: cs) = .char c :: ofText cs := rfl

@[simp] theorem ofText_append (s t : Text) : ofText (s ++ t) = ofText s ++ ofText t :=
  List.map_append

/-! ### The text of a string -/

@[simp] theorem text?_ofText (t : Text) : (ofText t).text? = some t := by
  induction t with
  | nil => rfl
  | cons c cs ih => rw [ofText_cons, text?, ih, CodePoint.char?]

theorem ofText_injective : Function.Injective ofText := by
  intro s t h
  have htext := congrArg text? h
  rw [text?_ofText, text?_ofText] at htext
  exact Option.some.inj htext

/-- A string has a text just when it is made of characters. -/
theorem text?_eq_some_iff {s : RawText} {t : Text} : s.text? = some t ↔ s = ofText t := by
  constructor
  · intro h
    induction s generalizing t with
    | nil =>
      cases h
      rfl
    | cons p ps ih =>
      rw [text?] at h
      cases p with
      | surrogate n => cases h
      | char c =>
        cases hps : text? ps with
        | none =>
          rw [hps] at h
          cases h
        | some cs =>
          rw [hps] at h
          cases h
          rw [ofText_cons, ih hps]
  · rintro rfl
    exact text?_ofText t

/-! ### Lines of texts -/

theorem ofText_join (separator : Text) (parts : List Text) :
    ofText (Text.join separator parts) =
      List.intercalate (ofText separator) (parts.map ofText) := by
  induction parts with
  | nil => rfl
  | cons p ps ih =>
    cases ps with
    | nil => simp [Text.join, List.intercalate_singleton]
    | cons q qs =>
      rw [Text.join, List.intercalate_cons_cons, ← Text.join, ofText_append, ofText_append, ih]
      simp only [List.map_cons, List.intercalate_cons_cons]

theorem unlines_map_ofText (ls : List Text) : unlines (ls.map ofText) = ofText (Text.unlines ls) :=
  (ofText_join _ ls).symm

theorem indentLine_ofText (l : Text) :
    indentLine (ofText l) = ofText (Text.indentLine Text.indentUnit l) := by
  cases l <;> rfl

end SharpClient.RawText

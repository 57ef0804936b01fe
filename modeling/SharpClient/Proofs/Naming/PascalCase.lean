import SharpClient.Naming.Convention
import SharpClient.Proofs.Naming.Identifier
import SharpClient.Proofs.Naming.Words

/-!
# What Pascal case keeps of a name

Pascal case moves the cuts between words into the case of the letters, and drops every separator. What
it keeps is the spelling: the letters and digits in order, when case is disregarded
(`spelling_pascalCase`). The only thing that it adds is an underscore in front of a word that begins
with a digit, unless the word is the first one (`IsJoined`).

The first character in Pascal case is the first letter or digit of the name, as a capital
(`head?_pascalCase`). It decides whether the result is an identifier, and it is what keeps the result
apart from the reserved words, all of which begin with a lower-case letter.
-/

namespace SharpClient.Naming

open Lexeme (isNameStart isNameChar)

/-! ### Case and kind of characters -/

/-- Lower case moves the capitals by 32 code points, and nothing else. -/
theorem toNat_toLower (c : Char) :
    c.toLower.toNat = if c.isUpper then c.toNat + 32 else c.toNat := by
  delta Char.toLower
  split
  case isTrue h =>
    have hcode : 65 ≤ c.toNat ∧ c.toNat ≤ 90 := h
    have hsum : (c.val + ('a'.val - 'A'.val)).toNat = (c.toNat + 32) % 2 ^ 32 :=
      UInt32.toNat_add ..
    rw [if_pos (isUpper_iff.mpr hcode)]
    refine hsum.trans ?_
    omega
  case isFalse h =>
    have hcode : ¬ (65 ≤ c.toNat ∧ c.toNat ≤ 90) := h
    rw [if_neg fun hupper => hcode (isUpper_iff.mp hupper)]

/-- Upper case moves the lower-case letters back. -/
theorem toNat_toUpper (c : Char) :
    c.toUpper.toNat = if c.isLower then c.toNat - 32 else c.toNat := by
  delta Char.toUpper
  split
  case isTrue h =>
    have hcode : 97 ≤ c.toNat ∧ c.toNat ≤ 122 := h
    have hsum : (c.val + ('A'.val - 'a'.val)).toNat = (c.toNat + (2 ^ 32 - 32)) % 2 ^ 32 :=
      UInt32.toNat_add ..
    rw [if_pos (isLower_iff.mpr hcode)]
    refine hsum.trans ?_
    omega
  case isFalse h =>
    have hcode : ¬ (97 ≤ c.toNat ∧ c.toNat ≤ 122) := h
    rw [if_neg fun hlower => hcode (isLower_iff.mp hlower)]

@[simp] theorem isAlphanum_toLower (c : Char) : c.toLower.isAlphanum = c.isAlphanum := by
  rw [Bool.eq_iff_iff]
  simp only [Char.isAlphanum, Bool.or_eq_true, isAlpha_iff, isUpper_iff, isLower_iff, isDigit_iff,
    toNat_toLower]
  split <;> omega

@[simp] theorem isAlpha_toUpper (c : Char) : c.toUpper.isAlpha = c.isAlpha := by
  rw [Bool.eq_iff_iff]
  simp only [isAlpha_iff, isUpper_iff, isLower_iff, toNat_toUpper]
  split <;> omega

@[simp] theorem isAlphanum_toUpper (c : Char) : c.toUpper.isAlphanum = c.isAlphanum := by
  have hdigit : c.toUpper.isDigit = c.isDigit := by
    rw [Bool.eq_iff_iff]
    simp only [isDigit_iff, toNat_toUpper, isLower_iff]
    split <;> omega
  rw [Char.isAlphanum, Char.isAlphanum, isAlpha_toUpper, hdigit]

@[simp] theorem isLower_toUpper (c : Char) : c.toUpper.isLower = false := by
  rw [Bool.eq_false_iff, Ne, isLower_iff, toNat_toUpper]
  simp only [isLower_iff]
  split <;> omega

@[simp] theorem isUpper_toUpper (c : Char) : c.toUpper.isUpper = c.isAlpha := by
  rw [← isAlpha_toUpper, Bool.eq_iff_iff, isAlpha_iff, isLower_toUpper]
  simp

theorem toLower_toLower (c : Char) : c.toLower.toLower = c.toLower := by
  rw [← Char.toNat_inj]
  simp only [toNat_toLower, isUpper_iff]
  split_ifs <;> omega

theorem toLower_toUpper (c : Char) : c.toUpper.toLower = c.toLower := by
  rw [← Char.toNat_inj]
  simp only [toNat_toLower, toNat_toUpper, isUpper_iff, isLower_iff]
  split_ifs <;> omega

/-! ### Spelling -/

/-- The letters and digits of a name, in lower case. -/
def spelling (name : Text) : Text :=
  (name.filter Char.isAlphanum).map Char.toLower

theorem spelling_append (s t : Text) : spelling (s ++ t) = spelling s ++ spelling t := by
  rw [spelling, List.filter_append, List.map_append, spelling, spelling]

theorem spelling_cons (c : Char) (cs : Text) : spelling (c :: cs) = spelling [c] ++ spelling cs :=
  spelling_append [c] cs

theorem spelling_toUpper (c : Char) : spelling [c.toUpper] = spelling [c] := by
  by_cases hc : c.isAlphanum
  · have hupper : c.toUpper.isAlphanum := (isAlphanum_toUpper c).trans hc
    simp only [spelling, List.filter_cons_of_pos hc, List.filter_cons_of_pos hupper,
      List.filter_nil, List.map_singleton, toLower_toUpper]
  · simp [spelling, hc]

theorem spelling_map_toLower (t : Text) : spelling (t.map Char.toLower) = spelling t := by
  have hkind : Char.isAlphanum ∘ Char.toLower = Char.isAlphanum := funext isAlphanum_toLower
  have hcase : Char.toLower ∘ Char.toLower = Char.toLower := funext toLower_toLower
  rw [spelling, List.filter_map, hkind, List.map_map, hcase, spelling]

theorem spelling_filter (t : Text) : spelling (t.filter Char.isAlphanum) = spelling t := by
  simp [spelling]

theorem spelling_capitalized (w : Text) : spelling (capitalized w) = spelling w := by
  cases w with
  | nil => rfl
  | cons c cs =>
    rw [capitalized, spelling_cons, spelling_toUpper, spelling_map_toLower, ← spelling_cons]

theorem spelling_capitalizedNext (w : Text) : spelling (capitalizedNext w) = spelling w := by
  cases w with
  | nil => rfl
  | cons c cs =>
    rw [capitalizedNext]
    split
    case isTrue =>
      have hunderscore : spelling ['_'] = [] := rfl
      rw [spelling_cons, hunderscore, List.nil_append, spelling_cons, spelling_map_toLower,
        ← spelling_cons]
    case isFalse => exact spelling_capitalized (c :: cs)

theorem spelling_flatMap_capitalizedNext (ws : List Text) :
    spelling (ws.flatMap capitalizedNext) = spelling ws.flatten := by
  induction ws with
  | nil => rfl
  | cons w ws ih =>
    rw [List.flatMap_cons, List.flatten_cons, spelling_append, spelling_append,
      spelling_capitalizedNext, ih]

/-- Pascal case keeps the letters and digits of a name, in order. -/
theorem spelling_pascalCase (name : Text) : spelling (pascalCase name) = spelling name := by
  have hwords : spelling (words name).flatten = spelling name := by
    rw [flatten_words, spelling_filter]
  rw [← hwords, pascalCase]
  cases words name with
  | nil => rfl
  | cons w ws =>
    rw [spelling_append, spelling_capitalized, spelling_flatMap_capitalizedNext, ← spelling_append,
      List.flatten_cons]

/-! ### Underscores -/

/-- The text holds letters and digits, and besides them underscores, each right before a digit. -/
def IsJoined : Text → Prop
  | [] => True
  | c :: cs => (c.isAlphanum ∨ c = '_' ∧ ∃ d ∈ cs.head?, d.isDigit) ∧ IsJoined cs

theorem isJoined_of_all {t : Text} (h : t.all Char.isAlphanum) : IsJoined t := by
  induction t with
  | nil => trivial
  | cons c cs ih =>
    rw [List.all_cons, Bool.and_eq_true] at h
    exact ⟨.inl h.1, ih h.2⟩

theorem IsJoined.append {s t : Text} (hs : IsJoined s) (ht : IsJoined t) : IsJoined (s ++ t) := by
  induction s with
  | nil => exact ht
  | cons c cs ih =>
    refine ⟨hs.1.imp_right ?_, ih hs.2⟩
    rintro ⟨hc, d, hd, hdigit⟩
    have hhead : (cs ++ t).head? = some d := by rw [List.head?_append, hd, Option.some_or]
    exact ⟨hc, d, hhead, hdigit⟩

theorem IsJoined.all_isNameChar {t : Text} (h : IsJoined t) : t.all isNameChar := by
  induction t with
  | nil => rfl
  | cons c cs ih =>
    have hc : isNameChar c := by
      rcases h.1 with hc | ⟨rfl, -⟩
      · rw [isNameChar, hc, Bool.true_or]
      · decide
    rw [List.all_cons, hc, ih h.2, Bool.and_self]

theorem isJoined_capitalized {w : Text} (h : w.all Char.isAlphanum) : IsJoined (capitalized w) := by
  cases w with
  | nil => trivial
  | cons c cs =>
    apply isJoined_of_all
    simpa [capitalized] using h

theorem isJoined_capitalizedNext {w : Text} (h : w.all Char.isAlphanum) :
    IsJoined (capitalizedNext w) := by
  cases w with
  | nil => trivial
  | cons c cs =>
    rw [capitalizedNext]
    split
    case isTrue hdigit =>
      refine ⟨.inr ⟨rfl, c, rfl, hdigit⟩, isJoined_of_all ?_⟩
      simpa using h
    case isFalse => exact isJoined_capitalized h

theorem all_isAlphanum_of_mem_words {name w : Text} (hw : w ∈ words name) :
    w.all Char.isAlphanum := by
  refine List.all_eq_true.mpr fun c hc => ?_
  have hmem : c ∈ (words name).flatten := List.mem_flatten.mpr ⟨w, hw, hc⟩
  rw [flatten_words] at hmem
  exact (List.mem_filter.mp hmem).2

theorem isJoined_flatMap_capitalizedNext {ws : List Text}
    (h : ∀ w ∈ ws, w.all Char.isAlphanum) : IsJoined (ws.flatMap capitalizedNext) := by
  induction ws with
  | nil => trivial
  | cons w ws ih =>
    rw [List.forall_mem_cons] at h
    rw [List.flatMap_cons]
    exact (isJoined_capitalizedNext h.1).append (ih h.2)

theorem isJoined_pascalCase (name : Text) : IsJoined (pascalCase name) := by
  have hwords : ∀ w ∈ words name, w.all Char.isAlphanum := fun w => all_isAlphanum_of_mem_words
  rw [pascalCase]
  cases h : words name with
  | nil => trivial
  | cons w ws =>
    rw [h, List.forall_mem_cons] at hwords
    exact (isJoined_capitalized hwords.1).append (isJoined_flatMap_capitalizedNext hwords.2)

/-! ### The first character -/

/-- The first character in Pascal case is the first letter or digit of the name, as a capital. -/
theorem head?_pascalCase (name : Text) :
    (pascalCase name).head? = (name.find? Char.isAlphanum).map Char.toUpper := by
  have hfirst : (words name).flatten.head? = name.find? Char.isAlphanum := by
    rw [flatten_words, List.head?_filter]
  rw [pascalCase, ← hfirst]
  cases h : words name with
  | nil => rfl
  | cons w ws =>
    obtain ⟨c, cs, rfl⟩ := List.exists_cons_of_ne_nil (ne_nil_of_mem_words (h ▸ List.mem_cons_self))
    rfl

theorem pascalCase_eq_nil_iff (name : Text) :
    pascalCase name = [] ↔ ∀ c ∈ name, ¬ c.isAlphanum := by
  rw [← List.head?_eq_none_iff, head?_pascalCase, Option.map_eq_none_iff, List.find?_eq_none]

/-- A character that is no letter or digit does not come first. -/
theorem head?_pascalCase_ne (name : Text) {d : Char} (hd : ¬ d.isAlphanum) :
    (pascalCase name).head? ≠ some d := by
  rw [head?_pascalCase]
  intro h
  obtain ⟨c, hc, rfl⟩ := Option.map_eq_some_iff.mp h
  rw [isAlphanum_toUpper] at hd
  exact hd (List.find?_some hc)

/-- Reserved words begin with a lower-case letter, so none is in Pascal case. -/
theorem pascalCase_not_mem_keywords (name : Text) : pascalCase name ∉ keywords := by
  have hlower : ∀ k ∈ keywords, k.head?.any Char.isLower := by decide
  intro hmem
  have hfirst := hlower _ hmem
  rw [head?_pascalCase] at hfirst
  cases hfind : name.find? Char.isAlphanum with
  | none => simp [hfind] at hfirst
  | some c => simp [hfind] at hfirst

theorem escaped_pascalCase (name : Text) : escaped (pascalCase name) = pascalCase name :=
  if_neg (pascalCase_not_mem_keywords name)

/-- Pascal case gives a name of a document just when a letter comes before any digit. -/
theorem isName_pascalCase_iff (name : Text) :
    IsName (pascalCase name) ↔ ∃ c ∈ name.find? Char.isAlphanum, c.isAlpha := by
  have hhead := head?_pascalCase name
  have hchars := (isJoined_pascalCase name).all_isNameChar
  cases hname : pascalCase name with
  | nil =>
    rw [hname, List.head?_nil, eq_comm, Option.map_eq_none_iff] at hhead
    simp [hhead, IsName]
  | cons d ds =>
    rw [hname, List.head?_cons, eq_comm, Option.map_eq_some_iff] at hhead
    obtain ⟨c, hc, rfl⟩ := hhead
    rw [hname, List.all_cons, Bool.and_eq_true] at hchars
    have hunderscore : c.toUpper ≠ '_' := by
      intro heq
      have hfirst : (pascalCase name).head? ≠ some '_' := head?_pascalCase_ne name (by decide)
      exact hfirst (by rw [hname, List.head?_cons, heq])
    simp [IsName, isNameStart, hc, hchars.2, hunderscore]

theorem isIdentifier_pascalCase_iff (name : Text) :
    IsIdentifier (pascalCase name) ↔ ∃ c ∈ name.find? Char.isAlphanum, c.isAlpha := by
  rw [← isName_pascalCase_iff]
  refine ⟨fun h => ?_, fun h => .plain h (pascalCase_not_mem_keywords name)⟩
  generalize hname : pascalCase name = t at h
  cases h with
  | plain h => exact h
  | verbatim => exact absurd (congrArg List.head? hname) (head?_pascalCase_ne name (by decide))

/-- **Pascal case keeps the spelling of a name and never makes a reserved word.** -/
theorem pascalCase_keeps_spelling (name : Text) :
    spelling (pascalCase name) = spelling name ∧
      IsJoined (pascalCase name) ∧ (pascalCase name).head? ≠ some '_' ∧
      (pascalCase name = [] ↔ ∀ c ∈ name, ¬ c.isAlphanum) ∧
      (IsIdentifier (pascalCase name) ↔ ∃ c ∈ name.find? Char.isAlphanum, c.isAlpha) ∧
      escaped (pascalCase name) = pascalCase name ∧
      ∀ other, member other = member name → spelling other = spelling name := by
  refine ⟨spelling_pascalCase name, isJoined_pascalCase name, head?_pascalCase_ne name (by decide),
    pascalCase_eq_nil_iff name, isIdentifier_pascalCase_iff name, escaped_pascalCase name, ?_⟩
  intro other h
  rw [member, member, escaped_pascalCase, escaped_pascalCase] at h
  rw [← spelling_pascalCase other, h, spelling_pascalCase]

example : pascalCase "area_51.HTTPServer" = "Area_51HttpServer" := by decide

end SharpClient.Naming

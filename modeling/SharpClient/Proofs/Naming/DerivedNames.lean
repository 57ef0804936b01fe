import SharpClient.Proofs.Naming.Endings
import SharpClient.Proofs.Naming.PascalCase

/-!
# Derived names as identifiers

A name in Pascal case holds letters, digits and underscores only, and begins with a capital when the
name begins with a letter. What is put around it keeps it an identifier: an ending, the `@` of a
reserved word, and the loss of a final `s`, since the capital in front stays.

The class of an answer is the exception. It loses a leading `Get`, and what stands behind may be a
digit: the operation `Get1` has the class `1Payload`. This is the only way in which a derived name
fails to be an identifier (`derivedNames_isIdentifier`).
-/

namespace SharpClient

open Lexeme (isNameStart isNameChar)

/-! ### Members and nested classes -/

namespace Naming

/-- A name that begins with a letter begins with the capital of it in Pascal case. -/
theorem exists_pascalCase_cons {c : Char} (hc : c.isAlpha) (cs : Text) :
    ∃ rest, pascalCase (c :: cs) = c.toUpper :: rest := by
  have hhead := head?_pascalCase (c :: cs)
  rw [List.find?_cons_of_pos (isAlphanum_of_isAlpha hc)] at hhead
  exact ⟨_, List.eq_cons_of_mem_head? hhead⟩

theorem isName_pascalCase {c : Char} (hc : c.isAlpha) (cs : Text) : IsName (pascalCase (c :: cs)) :=
  (isName_pascalCase_iff _).mpr ⟨c, List.find?_cons_of_pos (isAlphanum_of_isAlpha hc), hc⟩

/-- A name that begins with a capital is not emptied by the loss of its final `s`. -/
theorem isName_singular {c : Char} {cs : Text} (hc : c.isUpper) (h : IsName (c :: cs)) :
    IsName (singular (c :: cs)) := by
  rw [singular]
  split
  case isTrue hends =>
    cases cs with
    | nil =>
      have hs : 's' = c := by simpa [Text.endsWith, List.isSuffixOf] using hends
      subst hs
      exact absurd hc (by decide)
    | cons d ds =>
      refine ⟨h.1, List.all_eq_true.mpr fun e he => ?_⟩
      exact List.all_eq_true.mp h.2 e ((List.dropLast_sublist _).subset he)
  case isFalse => exact h

theorem isIdentifier_resultClass {c : Char} (hc : c.isAlpha) (cs : Text) (isList : Bool) :
    IsIdentifier (resultClass (c :: cs) isList) := by
  have hname := isName_pascalCase hc cs
  refine isIdentifier_escaped (IsName.append ?_ (by decide))
  cases isList with
  | true =>
    obtain ⟨rest, hrest⟩ := exists_pascalCase_cons hc cs
    rw [hrest] at hname ⊢
    exact isName_singular (by simpa using hc) hname
  | false => exact hname

/-- A name with an ending that no reserved word has is an identifier as it stands. -/
theorem isIdentifier_append {ending start : Text} (h : ∀ k ∈ keywords, ¬ ending <:+ '@' :: k)
    (hname : IsName (start ++ ending)) : IsIdentifier (start ++ ending) :=
  escaped_append h start ▸ isIdentifier_escaped hname

end Naming

/-! ### Declared names -/

namespace Convention

open Naming

theorem all_isNameChar_apply (c : Convention) {name : Text} (h : IsName name) :
    (c.apply name).all isNameChar := by
  cases c with
  | pascalCase => exact (isJoined_pascalCase name).all_isNameChar
  | keep => exact h.all_isNameChar

theorem isName_apply (c : Convention) {d : Char} {ds : Text} (hd : d.isAlpha)
    (h : IsName (d :: ds)) : IsName (c.apply (d :: ds)) := by
  cases c with
  | pascalCase => exact isName_pascalCase hd ds
  | keep => exact h

theorem isIdentifier_requestClass (c : Convention) {name : Text} (h : IsName (c.apply name)) :
    IsIdentifier (c.requestClass name) :=
  isIdentifier_escaped (h.append (by decide))

theorem isIdentifier_methodName (c : Convention) {name : Text} (h : IsName (c.apply name)) :
    IsIdentifier (c.methodName name) := by
  have hending : ∀ k ∈ keywords, ¬ "Async".toList <:+ '@' :: k := by decide +kernel
  exact isIdentifier_append hending (h.append (by decide))

theorem isIdentifier_streamName (c : Convention) {name : Text}
    (h : (c.apply name).all isNameChar) : IsIdentifier (c.streamName name) := by
  have hending : ∀ k ∈ keywords, ¬ "Stream".toList <:+ '@' :: k := by decide +kernel
  have hcreate : IsName "Create".toList := by decide
  exact isIdentifier_append hending ((hcreate.append h).append (by decide))

/-! ### The class of an answer -/

theorem isNameStart_iff_not_isDigit {d : Char} (h : isNameChar d) :
    isNameStart d ↔ ¬ d.isDigit := by
  have hdigit : d.isDigit → ¬ isNameStart d := by
    simp only [isNameStart, Bool.or_eq_true, decide_eq_true_eq]
    rintro hd (halpha | rfl)
    · exact not_isDigit_of_isAlpha halpha hd
    · exact absurd hd (by decide)
  refine ⟨fun hstart hd => hdigit hd hstart, fun hd => ?_⟩
  simp only [isNameChar, isNameStart, Char.isAlphanum, Bool.or_eq_true] at h ⊢
  exact h.imp_left fun h => h.resolve_right hd

/-- The rest of a name, with the ending of an answer, is an identifier unless a digit comes first. -/
theorem isIdentifier_append_payload_iff {rest : Text} (h : rest.all isNameChar) :
    IsIdentifier (rest ++ "Payload") ↔ ∀ d ∈ rest.head?, ¬ d.isDigit := by
  cases rest with
  | nil =>
    have hname : IsName ([] ++ "Payload".toList) := by decide
    exact iff_of_true (isIdentifier_append payload_not_suffix hname) (by simp)
  | cons d ds =>
    rw [List.all_cons, Bool.and_eq_true] at h
    simp only [List.head?_cons, Option.mem_some_iff, forall_eq']
    rw [← isNameStart_iff_not_isDigit h.1]
    constructor
    · intro hid
      generalize ht : d :: ds ++ "Payload".toList = t at hid
      cases hid with
      | plain hname =>
        rw [← ht] at hname
        exact hname.1
      | verbatim =>
        obtain ⟨rfl, -⟩ := List.cons.inj ht
        exact absurd h.1 (by decide)
    · intro hstart
      have hrest : IsName (d :: ds) := ⟨hstart, h.2⟩
      exact isIdentifier_append payload_not_suffix (hrest.append (by decide))

/-- The name under the convention begins with `Get` and a digit behind it. -/
def BeginsWithGetDigit (c : Convention) (name : Text) : Prop :=
  ∃ d : Char, d.isDigit ∧ "Get".toList ++ [d] <+: c.apply name

theorem isIdentifier_responseClass_iff (c : Convention) {name : Text} (h : IsName (c.apply name)) :
    IsIdentifier (c.responseClass name) ↔ ¬ c.BeginsWithGetDigit name := by
  rw [c.responseClass_eq, BeginsWithGetDigit, withoutGet]
  split
  case isTrue hget =>
    obtain ⟨rest, hrest⟩ := List.isPrefixOf_iff_prefix.mp hget
    have hchars := h.all_isNameChar
    rw [← hrest, List.all_append, Bool.and_eq_true] at hchars
    have hdrop : ("Get".toList ++ rest).drop 3 = rest := rfl
    rw [← hrest, hdrop, isIdentifier_append_payload_iff hchars.2]
    simp only [List.prefix_append_right_inj]
    cases rest with
    | nil => simp
    | cons d ds => simp [List.cons_prefix_cons]
  case isFalse hget =>
    refine iff_of_true (isIdentifier_append payload_not_suffix (h.append (by decide))) ?_
    rintro ⟨d, -, hprefix⟩
    exact hget (List.isPrefixOf_iff_prefix.mpr ((List.prefix_append _ _).trans hprefix))

/-- **Derived names are identifiers.** From a name that begins with a letter all names but one are
identifiers: the class of an answer is one unless the operation is called `Get` with a digit behind
it. -/
theorem derivedNames_isIdentifier (c : Convention) {name : Text} (hname : IsName name)
    (hletter : ∃ d ∈ name.head?, d.isAlpha) :
    (IsIdentifier (c.responseClass name) ↔ ¬ c.BeginsWithGetDigit name) ∧
      IsIdentifier (c.requestClass name) ∧ IsIdentifier (c.methodName name) ∧
      IsIdentifier (c.streamName name) ∧ IsIdentifier (c.fragmentClass name) ∧
      IsIdentifier (c.typeName name) ∧ IsIdentifier (member name) ∧
      IsIdentifier (parameter name) ∧ ∀ isList, IsIdentifier (resultClass name isList) := by
  obtain ⟨d, hd, halpha⟩ := hletter
  obtain ⟨ds, rfl⟩ : ∃ ds, name = d :: ds := ⟨name.tail, List.eq_cons_of_mem_head? hd⟩
  have happly := c.isName_apply halpha hname
  exact ⟨c.isIdentifier_responseClass_iff happly, c.isIdentifier_requestClass happly,
    c.isIdentifier_methodName happly, c.isIdentifier_streamName happly.all_isNameChar,
    isIdentifier_escaped happly, isIdentifier_escaped happly,
    isIdentifier_escaped (isName_pascalCase halpha ds), isIdentifier_escaped hname,
    isIdentifier_resultClass halpha ds⟩

end Convention

namespace DigitSample

open Naming

/-- An operation whose name goes on with an underscore behind `Get`. -/
def spaced : Text := "Get_1"

/-- An operation whose name goes on with a digit behind `Get`. -/
def joined : Text := "Get1"

theorem not_beginsWithGetDigit : ¬ Convention.keep.BeginsWithGetDigit spaced := by
  rintro ⟨d, hdigit, hprefix⟩
  have hspaced : Convention.keep.apply spaced = "Get".toList ++ ['_', '1'] := rfl
  rw [hspaced, List.prefix_append_right_inj, List.cons_prefix_cons] at hprefix
  obtain ⟨rfl, -⟩ := hprefix
  exact absurd hdigit (by decide)

theorem spaced_isIdentifier :
    IsName spaced ∧ (∃ d ∈ spaced.head?, d.isAlpha) ∧
      Convention.keep.responseClass spaced = "_1Payload" ∧
      IsIdentifier (Convention.keep.responseClass spaced) ∧
      IsIdentifier (Convention.keep.methodName spaced) ∧
      IsIdentifier (resultClass spaced true) := by
  have hname : IsName spaced := by decide
  have hletter : ∃ d ∈ spaced.head?, d.isAlpha := ⟨'G', rfl, by decide⟩
  obtain ⟨hanswer, -, hmethod, -, -, -, -, -, hresult⟩ :=
    Convention.keep.derivedNames_isIdentifier hname hletter
  exact ⟨hname, hletter, by decide, hanswer.mpr not_beginsWithGetDigit, hmethod, hresult true⟩

/-- The class of the answer of `Get1` begins with the digit. -/
theorem not_always_identifier :
    ¬ ∀ (c : Convention) (name : Text), IsName name → (∃ d ∈ name.head?, d.isAlpha) →
      IsIdentifier (c.responseClass name) := by
  intro h
  have hname : IsName (Convention.pascalCase.apply joined) := by decide
  have hdigit : Convention.pascalCase.BeginsWithGetDigit joined := ⟨'1', by decide, by decide⟩
  refine (Convention.isIdentifier_responseClass_iff _ hname).mp ?_ hdigit
  exact h .pascalCase joined (by decide) ⟨'G', rfl, by decide⟩

example : Convention.pascalCase.responseClass joined = "1Payload" := by decide

end DigitSample

end SharpClient

import SharpClient.Document.Lexer
import SharpClient.Naming.Convention

/-!
# Names and identifiers

A name of a document and an identifier of C# are spelt alike. They differ in the reserved words,
which are names of a document but stand for themselves in C#: behind `@` they are identifiers as
well. So the escaped form of a name is always an identifier (`isIdentifier_escaped`), and the name
can be read off it (`bare_escaped`).
-/

namespace SharpClient

open Lexeme (isNameStart isNameChar)

/-! ### Names -/

/-- A name as documents write it: a letter or an underscore, then letters, digits and underscores. -/
def IsName : Text → Prop
  | [] => False
  | c :: cs => isNameStart c ∧ cs.all isNameChar

instance : DecidablePred IsName
  | [] => inferInstanceAs (Decidable False)
  | c :: cs => inferInstanceAs (Decidable (isNameStart c ∧ cs.all isNameChar))

theorem isNameChar_of_isNameStart {c : Char} (h : isNameStart c) : isNameChar c := by
  simp only [isNameStart, isNameChar, Char.isAlphanum, Bool.or_eq_true] at h ⊢
  exact h.imp_left .inl

namespace IsName

variable {name : Text}

theorem ne_nil (h : IsName name) : name ≠ [] := by
  rintro rfl
  exact h

/-- Every character of a name may stand inside a name. -/
theorem all_isNameChar (h : IsName name) : name.all isNameChar := by
  cases name with
  | nil => exact h.elim
  | cons c cs => rw [List.all_cons, isNameChar_of_isNameStart h.1, h.2, Bool.and_self]

/-- A name may be continued by characters that stand inside names. -/
theorem append (h : IsName name) {ending : Text} (hending : ending.all isNameChar) :
    IsName (name ++ ending) := by
  cases name with
  | nil => exact h.elim
  | cons c cs =>
    have hrest : (cs ++ ending).all isNameChar := by
      rw [List.all_append, h.2, hending, Bool.and_self]
    exact ⟨h.1, hrest⟩

/-- A character that cannot stand inside a name is not in one. -/
theorem not_mem (h : IsName name) {c : Char} (hc : isNameChar c = false) : c ∉ name := by
  intro hmem
  exact Bool.false_ne_true (hc.symm.trans (List.all_eq_true.mp h.all_isNameChar c hmem))

end IsName

/-! ### Identifiers -/

namespace Naming

/-- An identifier of C#. -/
inductive IsIdentifier : Text → Prop
  /-- A name that is not reserved. -/
  | plain {name : Text} (hname : IsName name) (hfree : name ∉ keywords) : IsIdentifier name
  /-- Any name behind `@`. -/
  | verbatim {name : Text} (hname : IsName name) : IsIdentifier ('@' :: name)

theorem isIdentifier_escaped {name : Text} (h : IsName name) : IsIdentifier (escaped name) := by
  rw [escaped]
  split
  case isTrue => exact .verbatim h
  case isFalse hfree => exact .plain h hfree

theorem IsIdentifier.not_mem_keywords {name : Text} (h : IsIdentifier name) :
    name ∉ keywords := by
  cases h with
  | plain _ hfree => exact hfree
  | verbatim =>
    have hat : ∀ k ∈ keywords, k.head? ≠ some '@' := by decide
    exact fun hmem => hat _ hmem rfl

/-- The name that an identifier stands for, without its `@`. -/
def bare : Text → Text
  | '@' :: name => name
  | name => name

theorem bare_of_isName {name : Text} (h : IsName name) : bare name = name := by
  unfold bare
  split
  case h_1 rest =>
    exact absurd List.mem_cons_self (h.not_mem (by decide))
  case h_2 => rfl

/-- Escaping a name does not hide it. -/
theorem bare_escaped {name : Text} (h : IsName name) : bare (escaped name) = name := by
  rw [escaped]
  split
  case isTrue => rfl
  case isFalse => exact bare_of_isName h

end Naming

end SharpClient

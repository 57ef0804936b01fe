import SharpClient.Declaration.Printer
import SharpClient.Proofs.Text.Margin

/-!
# Reading verbatim literals

The lexical rule for verbatim string literals: the literal goes on to the first quote that is not
doubled. What was written between the quotes is read back, and the literal ends at the quote that
closed it (`readVerbatim_verbatimBody`). Doubling the quotes of a text has nothing to do with its
lines, so it may be shifted before or after (`verbatimBody_shift`).
-/

namespace SharpClient.Literal

/-- Reads a verbatim literal behind its opening quote: its value up to the closing quote, and the
text behind that quote. Two quotes in a row stand for one. -/
def readVerbatim : Text → Option (Text × Text)
  | '"' :: '"' :: t => (readVerbatim t).map fun (value, rest) => ('"' :: value, rest)
  | '"' :: t => some ([], t)
  | c :: t => (readVerbatim t).map fun (value, rest) => (c :: value, rest)
  | [] => none

theorem readVerbatim_close {rest : Text} (h : rest.head? ≠ some '"') :
    readVerbatim ('"' :: rest) = some ([], rest) := by
  cases rest with
  | nil => rfl
  | cons c cs =>
    rw [readVerbatim]
    intro t ht
    rw [ht] at h
    simp at h

theorem readVerbatim_char {c : Char} (hc : c ≠ '"') (t : Text) :
    readVerbatim (c :: t) = (readVerbatim t).map fun p => (c :: p.1, p.2) := by
  rw [readVerbatim]
  all_goals simp_all

theorem verbatimBody_quote (t : Text) : verbatimBody ('"' :: t) = '"' :: '"' :: verbatimBody t :=
  rfl

theorem verbatimBody_char {c : Char} (hc : c ≠ '"') (t : Text) :
    verbatimBody (c :: t) = c :: verbatimBody t := by
  rw [verbatimBody, Text.replaceChar, List.flatMap_cons, if_neg hc]
  rfl

/-- A literal reads back as what was written, and ends at its closing quote. -/
theorem readVerbatim_verbatimBody (value : Text) {rest : Text} (h : rest.head? ≠ some '"') :
    readVerbatim (verbatimBody value ++ '"' :: rest) = some (value, rest) := by
  induction value with
  | nil => exact readVerbatim_close h
  | cons c cs ih =>
    by_cases hc : c = '"'
    · subst hc
      rw [verbatimBody_quote, List.cons_append, List.cons_append, readVerbatim, ih]
      rfl
    · rw [verbatimBody_char hc, List.cons_append, readVerbatim_char hc, ih]
      rfl

theorem verbatimBody_append (a b : Text) :
    verbatimBody (a ++ b) = verbatimBody a ++ verbatimBody b :=
  List.flatMap_append

theorem verbatimBody_spaces (n : Nat) : verbatimBody (Text.spaces n) = Text.spaces n := by
  induction n with
  | zero => rfl
  | succ n ih =>
    have hs : Text.spaces (n + 1) = ' ' :: Text.spaces n := List.replicate_succ
    rw [hs, verbatimBody_char (by decide), ih]

/-- Doubling quotes leaves the first character of a text as it is. -/
theorem head?_verbatimBody (t : Text) : (verbatimBody t).head? = t.head? := by
  cases t with
  | nil => rfl
  | cons c cs =>
    by_cases hc : c = '"'
    · rw [hc, verbatimBody_quote]
      rfl
    · rw [verbatimBody_char hc]
      rfl

/-- Quotes may be doubled before or after the text is shifted. -/
theorem verbatimBody_shift (n : Nat) (t : Text) :
    verbatimBody (Text.shift (Text.spaces n) t) = Text.shift (Text.spaces n) (verbatimBody t) := by
  induction t with
  | nil => rfl
  | cons c cs ih =>
    by_cases hc : c = '\n'
    · subst hc
      rw [verbatimBody_char (by decide)]
      by_cases hcs : cs.head? = some '\n'
      · rw [Text.shift_newline_of_empty hcs, verbatimBody_char (by decide), ih,
          Text.shift_newline_of_empty (by rwa [head?_verbatimBody])]
      · rw [Text.shift_newline hcs, verbatimBody_char (by decide), verbatimBody_append,
          verbatimBody_spaces, ih, Text.shift_newline (by rwa [head?_verbatimBody])]
    · rw [Text.shift_cons_of_ne hc]
      by_cases hq : c = '"'
      · subst hq
        rw [verbatimBody_quote, verbatimBody_quote, Text.shift_cons_of_ne hc,
          Text.shift_cons_of_ne hc, ih]
      · rw [verbatimBody_char hq, verbatimBody_char hq, Text.shift_cons_of_ne hc, ih]

theorem closed_verbatimBody {t : Text} (h : Text.Closed t) : Text.Closed (verbatimBody t) := by
  obtain ⟨s, c, rfl, hc⟩ := h
  rw [verbatimBody_append]
  refine Text.Closed.append ?_ _
  by_cases hq : c = '"'
  · subst hq
    exact ⟨['"'], '"', rfl, hc⟩
  · rw [verbatimBody_char hq]
    exact ⟨[], c, rfl, hc⟩

end SharpClient.Literal

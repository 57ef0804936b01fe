import SharpClient.Declaration.Printer
import SharpClient.Text.Numeral

/-!
# Reading regular literals

The lexical rule for regular string literals: the literal goes on to the first quote that no
backslash escapes, and must not go past the end of its line. Escape sequences stand for characters,
some of them by hexadecimal digits. A literal denotes a sequence of UTF-16 code units.

What was written as a regular literal is read back, and the literal ends at the quote that closed it
(`readRegular_regular`). Backslashes are escaped before quotes are, so that the backslashes of the
second step are not escaped again.
-/

namespace SharpClient.Literal

/-! ### Code units -/

/-- The code units of a scalar value: one, or two that form a surrogate pair. -/
def scalarUnits (n : Nat) : List Nat :=
  if n < 0x10000 then [n] else [0xD800 + (n - 0x10000) / 0x400, 0xDC00 + (n - 0x10000) % 0x400]

/-- The code units of a text. -/
def units (t : Text) : List Nat :=
  t.flatMap fun c => scalarUnits c.toNat

/-! ### The lexical rule -/

/-- The characters that end a line of C#. -/
def isNewline (c : Char) : Bool :=
  c = '\n' || c = '\r' || c = '\u0085' || c = '\u2028' || c = '\u2029'

/-- Whether a text keeps to one line of C#. -/
def isOneLine (t : Text) : Bool :=
  t.all fun c => !isNewline c

/-- The simple escape sequences: the character behind the backslash, and the code unit that both
stand for. -/
def simpleEscapes : List (Char × Nat) :=
  [('\x27', 0x27), ('"', 0x22), ('\\', 0x5C), ('0', 0x00), ('a', 0x07), ('b', 0x08), ('f', 0x0C),
    ('n', 0x0A), ('r', 0x0D), ('t', 0x09), ('v', 0x0B)]

/-- Exactly `count` hexadecimal digits, which give a number up to `limit`. -/
def readDigits (count limit : Nat) (t : Text) : Option (List Nat × Text) := do
  let n ← Text.hexNumber? (t.take count)
  if count ≤ t.length ∧ n ≤ limit then some (scalarUnits n, t.drop count) else none

/-- Reads an escape sequence behind its backslash: the code units it stands for, and the text behind
it. -/
def readEscape : Text → Option (List Nat × Text)
  | [] => none
  | c :: t =>
    if c = 'u' then readDigits 4 0xFFFF t
    else if c = 'U' then readDigits 8 0x10FFFF t
    else if c = 'x' then
      -- One to four digits, as many as there are.
      let count := ((t.take 4).takeWhile fun d => (Text.hexValue? d).isSome).length
      if count = 0 then none else readDigits count 0xFFFF t
    else (simpleEscapes.lookup c).map fun unit => ([unit], t)

theorem length_le_of_readDigits {count limit : Nat} {t rest : Text} {us : List Nat}
    (h : readDigits count limit t = some (us, rest)) : rest.length ≤ t.length := by
  obtain ⟨n, -, h⟩ := Option.bind_eq_some_iff.mp h
  split at h
  · cases h
    simp
  · cases h

theorem length_le_of_readEscape {t rest : Text} {us : List Nat}
    (h : readEscape t = some (us, rest)) : rest.length ≤ t.length := by
  cases t with
  | nil => cases h
  | cons c t =>
    suffices rest.length ≤ t.length by
      rw [List.length_cons]
      omega
    rw [readEscape] at h
    split at h
    · exact length_le_of_readDigits h
    · split at h
      · exact length_le_of_readDigits h
      · split at h
        · dsimp only at h
          split at h
          · cases h
          · exact length_le_of_readDigits h
        · obtain ⟨unit, -, h⟩ := Option.map_eq_some_iff.mp h
          cases h
          exact Nat.le_refl _

/-- Reads a regular literal behind its opening quote: the code units it denotes, and the text behind
its closing quote. -/
def readBody (t : Text) : Option (List Nat × Text) :=
  match t with
  | [] => none
  | c :: t =>
    if c = '"' then some ([], t)
    else if c = '\\' then
      match _h : readEscape t with
      | none => none
      | some (us, t') => (readBody t').map fun (vs, rest) => (us ++ vs, rest)
    else if isNewline c then none
    else (readBody t).map fun (vs, rest) => (scalarUnits c.toNat ++ vs, rest)
termination_by t.length
decreasing_by
  · have := length_le_of_readEscape _h
    simp only [List.length_cons]
    omega
  · simp

/-- Reads a regular literal from its opening quote. -/
def readRegular : Text → Option (List Nat × Text)
  | [] => none
  | c :: t => if c = '"' then readBody t else none

theorem readBody_quote (t : Text) : readBody ('"' :: t) = some ([], t) := by
  rw [readBody, if_pos rfl]

theorem readBody_escape {t t' : Text} {us : List Nat} (h : readEscape t = some (us, t')) :
    readBody ('\\' :: t) = (readBody t').map fun p => (us ++ p.1, p.2) := by
  rw [readBody, if_neg (by decide), if_pos rfl]
  split
  · rename_i hnone
    rw [h] at hnone
    cases hnone
  · rename_i hsome
    rw [h] at hsome
    cases hsome
    rfl

theorem readBody_char {c : Char} (hquote : c ≠ '"') (hbackslash : c ≠ '\\')
    (hline : isNewline c = false) (t : Text) :
    readBody (c :: t) = (readBody t).map fun p => (scalarUnits c.toNat ++ p.1, p.2) := by
  rw [readBody, if_neg hquote, if_neg hbackslash, if_neg (by simp [hline])]

/-! ### What is written -/

/-- The text between the quotes of a regular literal. -/
def regularBody (value : Text) : Text :=
  Text.replaceChar '"' "\\\"" (Text.replaceChar '\\' "\\\\" value)

theorem regular_eq (value : Text) : regular value = '"' :: (regularBody value ++ "\"") := rfl

theorem regularBody_cons (c : Char) (cs : Text) :
    regularBody (c :: cs) = regularBody [c] ++ regularBody cs := by
  have happend (d : Char) (new a b : Text) :
      Text.replaceChar d new (a ++ b) = Text.replaceChar d new a ++ Text.replaceChar d new b :=
    List.flatMap_append
  rw [regularBody, ← List.singleton_append, happend, happend]
  rfl

theorem regularBody_char {c : Char} (hquote : c ≠ '"') (hbackslash : c ≠ '\\') :
    regularBody [c] = [c] := by
  simp [regularBody, Text.replaceChar, hquote, hbackslash]

theorem mem_of_mem_replaceChar {c d : Char} {new t : Text} (h : d ∈ Text.replaceChar c new t) :
    d ∈ new ∨ d ∈ t := by
  obtain ⟨x, hx, hd⟩ := List.mem_flatMap.mp h
  split at hd
  · exact .inl hd
  · rw [List.mem_singleton.mp hd]
    exact .inr hx

/-- Escaping adds no line feed. -/
theorem newline_not_mem_regular {value : Text} (h : isOneLine value) : '\n' ∉ regular value := by
  have hvalue : '\n' ∉ value := fun hmem => absurd (List.all_eq_true.mp h _ hmem) (by decide)
  have hbody : '\n' ∉ regularBody value := by
    intro hmem
    rcases mem_of_mem_replaceChar hmem with hnew | hmem
    · exact absurd hnew (by decide)
    · rcases mem_of_mem_replaceChar hmem with hnew | hmem
      · exact absurd hnew (by decide)
      · exact hvalue hmem
  rw [regular_eq]
  exact List.not_mem_cons_of_ne_of_not_mem (by decide) (List.not_mem_append hbody (by decide))

/-- The literal reads back character by character: a backslash is always followed by the character
that it escapes, and no quote stands without one. -/
theorem readBody_regularBody {value : Text} (h : isOneLine value) (rest : Text) :
    readBody (regularBody value ++ '"' :: rest) = some (units value, rest) := by
  induction value with
  | nil => exact readBody_quote rest
  | cons c cs ih =>
    rw [isOneLine, List.all_cons, Bool.and_eq_true] at h
    have hunits : units (c :: cs) = scalarUnits c.toNat ++ units cs := List.flatMap_cons
    rw [regularBody_cons, List.append_assoc, hunits]
    by_cases hbackslash : c = '\\'
    · subst hbackslash
      have hwritten : regularBody ['\\'] = ['\\', '\\'] := rfl
      have hescape (t : Text) : readEscape ('\\' :: t) = some (scalarUnits '\\'.toNat, t) := rfl
      rw [hwritten, List.cons_append, List.singleton_append, readBody_escape (hescape _), ih h.2]
      rfl
    · by_cases hquote : c = '"'
      · subst hquote
        have hwritten : regularBody ['"'] = ['\\', '"'] := rfl
        have hescape (t : Text) : readEscape ('"' :: t) = some (scalarUnits '"'.toNat, t) := rfl
        rw [hwritten, List.cons_append, List.singleton_append, readBody_escape (hescape _), ih h.2]
        rfl
      · have hline : isNewline c = false := by simpa using h.1
        rw [regularBody_char hquote hbackslash, List.singleton_append,
          readBody_char hquote hbackslash hline, ih h.2]
        rfl

/-- A regular literal denotes what was written, and ends at its closing quote. -/
theorem readRegular_regular {value : Text} (h : isOneLine value) (rest : Text) :
    readRegular (regular value ++ rest) = some (units value, rest) := by
  rw [regular_eq, List.cons_append, readRegular, if_pos rfl, List.append_assoc]
  exact readBody_regularBody h rest

end SharpClient.Literal

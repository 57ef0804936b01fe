import SharpClient.Document.Token
import SharpClient.Document.BlockString

/-!
# Lexical scan

A document is cut into lexemes from left to right. Each reader takes the text from the first
character of a lexeme on and gives the lexeme with the text behind it, or a fault with the text
that begins where the fault lies. No reader knows its position: a place in the document is told by
how much of the text is left.

A scan stops at its first fault. The lexemes before the fault are kept, because a document may be
refused for a grammatical reason before the fault is ever reached.
-/

namespace SharpClient

/-- A lexical fault: what is wrong, and the text from the offending place on. -/
structure LexicalFault where
  /-- What is wrong. -/
  message : Text
  /-- The text from the offending place on. -/
  rest : Text
  deriving DecidableEq, Repr

namespace Lexeme

/-! ### Names and numbers -/

/-- Whether a name may begin with the character. -/
def isNameStart (c : Char) : Bool :=
  c.isAlpha || c = '_'

/-- Whether a name may go on with the character. -/
def isNameChar (c : Char) : Bool :=
  c.isAlphanum || c = '_'

/-- One or more decimal digits. -/
def readDigits (t : Text) : Except LexicalFault (Text × Text) :=
  if (t.takeWhile Char.isDigit).isEmpty then
    .error ⟨"Invalid number, expected digit but got: " ++ describedChar t ++ ".", t⟩
  else .ok (t.takeWhile Char.isDigit, t.dropWhile Char.isDigit)

/-- An optional minus sign. -/
def readSign : Text → Text × Text
  | '-' :: rest => (['-'], rest)
  | t => ([], t)

/-- The digits before the point: a single zero, or digits that begin with another one. -/
def readWhole : Text → Except LexicalFault (Text × Text)
  | '0' :: rest =>
    if (rest.takeWhile Char.isDigit).isEmpty then .ok (['0'], rest)
    else .error ⟨"Invalid number, unexpected digit after 0: " ++ describedChar rest ++ ".", rest⟩
  | t => readDigits t

/-- An optional fraction: a point and digits. -/
def readFraction : Text → Except LexicalFault (Text × Text)
  | '.' :: rest => (readDigits rest).map fun (ds, rest) => ('.' :: ds, rest)
  | t => .ok ([], t)

/-- An optional sign of an exponent. -/
def readExponentSign : Text → Text × Text
  | '+' :: rest => (['+'], rest)
  | '-' :: rest => (['-'], rest)
  | t => ([], t)

/-- An optional exponent: the letter `e` in either case, an optional sign and digits. -/
def readExponent : Text → Except LexicalFault (Text × Text)
  | [] => .ok ([], [])
  | c :: rest =>
    if c = 'e' ∨ c = 'E' then
      (readDigits (readExponentSign rest).2).map fun (ds, tail) =>
        (c :: (readExponentSign rest).1 ++ ds, tail)
    else .ok ([], c :: rest)

/-- Whether a number must not be followed by this text: it would run into a name or another
fraction. -/
def extendsNumber : Text → Bool
  | [] => false
  | c :: _ => c = '.' || isNameStart c

/-- A number. It is an integer when it has neither a fraction nor an exponent. -/
def readNumber (t : Text) : Except LexicalFault (Lexeme × Text) := do
  let (sign, t₁) := readSign t
  let (whole, t₂) ← readWhole t₁
  let (fraction, t₃) ← readFraction t₂
  let (exponent, t₄) ← readExponent t₃
  if extendsNumber t₄ then
    .error ⟨"Invalid number, expected digit but got: " ++ describedChar t₄ ++ ".", t₄⟩
  else if fraction.isEmpty && exponent.isEmpty then .ok (.int (sign ++ whole), t₄)
  else .ok (.float (sign ++ whole ++ fraction ++ exponent), t₄)

/-! ### Strings -/

/-- The character that a one-letter escape stands for. -/
def simpleEscape? : Char → Option Char
  | '"' => some '"'
  | '\\' => some '\\'
  | '/' => some '/'
  | 'b' => some '\x08'
  | 'f' => some '\x0c'
  | 'n' => some '\n'
  | 'r' => some '\r'
  | 't' => some '\t'
  | _ => none

/-- The fault of an escape with a code point, which shows `shown` characters of it. -/
def codePointFault (t : Text) (shown : Nat) : LexicalFault :=
  ⟨"Invalid Unicode escape sequence: '" ++ t.take shown ++ "'.", t⟩

/-- The hexadecimal digits that a text begins with. -/
def hexRun (t : Text) : Text :=
  t.takeWhile fun c => (Text.hexValue? c).isSome

/-- The escape `\u{…}` with one to eight hexadecimal digits. -/
def readBracedEscape (t : Text) : Except LexicalFault (Char × Text) :=
  let digits := hexRun (t.drop 3)
  match Text.hexNumber? digits, t.drop (3 + digits.length) with
  | some point, '\x7d' :: rest =>
    if (0 < digits.length && digits.length ≤ 8) && Text.isScalarValue point then
      .ok (Char.ofNat point, rest)
    else .error (codePointFault t (min 12 (digits.length + 4)))
  | _, _ => .error (codePointFault t (min 12 (digits.length + 4)))

/-- The number written by the four hexadecimal digits at the beginning of a text. -/
def fourDigits? (t : Text) : Option Nat :=
  if t.length < 4 then none else Text.hexNumber? (t.take 4)

/-- The escape `\uXXXX`, or two of them that form a surrogate pair. -/
def readFixedEscape (t : Text) : Except LexicalFault (Char × Text) :=
  match fourDigits? (t.drop 2) with
  | none => .error (codePointFault t 6)
  | some leading =>
    if Text.isScalarValue leading then .ok (Char.ofNat leading, t.drop 6)
    else if Text.isLeadingSurrogate leading && (t.drop 6).take 2 == "\\u" then
      match fourDigits? (t.drop 8) with
      | some trailing =>
        if Text.isTrailingSurrogate trailing then
          .ok (Char.ofNat (Text.surrogatePair leading trailing), t.drop 12)
        else .error (codePointFault t 6)
      | none => .error (codePointFault t 6)
    else .error (codePointFault t 6)

/-- An escape in a string; the text begins with its backslash. -/
def readEscape (t : Text) : Except LexicalFault (Char × Text) :=
  match t with
  | _ :: 'u' :: '\x7b' :: _ => readBracedEscape t
  | _ :: 'u' :: _ => readFixedEscape t
  | _ :: c :: rest =>
    match simpleEscape? c with
    | some d => .ok (d, rest)
    | none => .error ⟨"Invalid character escape sequence: '" ++ t.take 2 ++ "'.", t⟩
  | _ => .error ⟨"Invalid character escape sequence: '" ++ t.take 2 ++ "'.", t⟩

private theorem length_of_readBracedEscape {t rest : Text} {d : Char}
    (h : readBracedEscape t = .ok (d, rest)) : rest.length < t.length := by
  simp only [readBracedEscape] at h
  split at h
  · rename_i hd
    have hlen := congrArg List.length hd
    simp only [List.length_drop, List.length_cons] at hlen
    split at h
    · cases h
      omega
    · cases h
  · cases h

private theorem length_of_readFixedEscape {t rest : Text} {d : Char} (ht : t ≠ [])
    (h : readFixedEscape t = .ok (d, rest)) : rest.length < t.length := by
  have hpos : 0 < t.length := List.length_pos_iff.2 ht
  simp only [readFixedEscape] at h
  split at h
  · simp at h
  · split at h
    · simp only [Except.ok.injEq, Prod.mk.injEq] at h
      rw [← h.2, List.length_drop]
      omega
    · split at h
      · split at h
        · split at h
          · simp only [Except.ok.injEq, Prod.mk.injEq] at h
            rw [← h.2, List.length_drop]
            omega
          · simp at h
        · simp at h
      · simp at h

theorem length_of_readEscape {t rest : Text} {d : Char}
    (h : readEscape t = .ok (d, rest)) : rest.length < t.length := by
  unfold readEscape at h
  split at h
  · exact length_of_readBracedEscape h
  · exact length_of_readFixedEscape (by simp) h
  · split at h
    · cases h
      simp only [List.length_cons]
      omega
    · cases h
  · cases h

/-- The value of a string up to its closing quote, which must stand on the same line. -/
def readString (t : Text) : Except LexicalFault (Text × Text) :=
  match t with
  | [] => .error ⟨"Unterminated string.", []⟩
  | c :: cs =>
    if c = '"' then .ok ([], cs)
    else if c = '\\' then
      match _h : readEscape (c :: cs) with
      | .error fault => .error fault
      | .ok (d, rest) =>
        (readString rest).map fun (value, rest) => (d :: value, rest)
    else if c = '\n' ∨ c = '\r' then .error ⟨"Unterminated string.", c :: cs⟩
    else (readString cs).map fun (value, rest) => (c :: value, rest)
termination_by t.length
decreasing_by
  · exact length_of_readEscape _h
  · simp

/-- The raw lines of a block string up to its closing quotes, or `none` when these are missing. -/
def readBlockLines : Text → Option (List Text × Text)
  | '"' :: '"' :: '"' :: rest => some ([[]], rest)
  | '\\' :: '"' :: '"' :: '"' :: rest =>
    (readBlockLines rest).map fun (ls, rest) => (("\"\"\"" ++ ls.headD []) :: ls.tail, rest)
  | '\r' :: '\n' :: cs => (readBlockLines cs).map fun (ls, rest) => ([] :: ls, rest)
  | c :: cs =>
    if c = '\n' ∨ c = '\r' then (readBlockLines cs).map fun (ls, rest) => ([] :: ls, rest)
    else (readBlockLines cs).map fun (ls, rest) => ((c :: ls.headD []) :: ls.tail, rest)
  | [] => none

/-- A string or block string behind its first quote. -/
def readQuoted : Text → Except LexicalFault (Lexeme × Text)
  | '"' :: '"' :: rest =>
    match readBlockLines rest with
    | some (ls, rest) => .ok (.blockString (BlockString.value ls), rest)
    | none => .error ⟨"Unterminated string.", []⟩
  | t => (readString t).map fun (value, rest) => (.string value, rest)

/-! ### The scan -/

/-- The fault of a character with which no lexeme begins. -/
def unexpectedChar (t : Text) : LexicalFault :=
  if t.head? = some '\'' then
    ⟨"Unexpected single quote character ('), did you mean to use a double quote (\")?", t⟩
  else ⟨"Unexpected character: " ++ describedChar t ++ ".", t⟩

/-- The lexeme that begins with `c` and goes on in `cs`, and the text behind it. -/
def read (c : Char) (cs : Text) : Except LexicalFault (Lexeme × Text) :=
  if c = '"' then readQuoted cs
  else
    match Punctuator.ofChar? c with
    | some p => .ok (.punctuator p, cs)
    | none =>
      if c.isDigit ∨ c = '-' then readNumber (c :: cs)
      else if isNameStart c then
        .ok (.name (c :: cs.takeWhile isNameChar), cs.dropWhile isNameChar)
      else if c = '.' ∧ cs.take 2 = ".." then .ok (.punctuator .spread, cs.drop 2)
      else .error (unexpectedChar (c :: cs))

/-- Whether the character may stand anywhere between lexemes. -/
def isIgnored (c : Char) : Bool :=
  c = ' ' || c = '\t' || c = ',' || c = '\n' || c = '\r' || c = '﻿'

/-- The text without the ignored characters and comments at its beginning; `inComment` says that it
begins inside a comment, which ends with its line. -/
def skipIgnored (inComment : Bool) : Text → Text
  | [] => []
  | c :: cs =>
    if inComment then skipIgnored (!(c = '\n' || c = '\r')) cs
    else if isIgnored c then skipIgnored false cs
    else if c = '#' then skipIgnored true cs
    else c :: cs

end Lexeme

/-! ### Each reader leaves less than it was given -/

namespace Lexeme

theorem length_skipIgnored_le (b : Bool) (t : Text) : (skipIgnored b t).length ≤ t.length := by
  induction t generalizing b with
  | nil => simp [skipIgnored]
  | cons c cs ih =>
    simp only [skipIgnored]
    split
    · exact Nat.le_succ_of_le (ih _)
    · split
      · exact Nat.le_succ_of_le (ih _)
      · split
        · exact Nat.le_succ_of_le (ih _)
        · exact Nat.le_refl _

private theorem length_dropWhile_le (p : Char → Bool) (t : Text) :
    (t.dropWhile p).length ≤ t.length := by
  induction t with
  | nil => simp
  | cons c cs ih =>
    simp only [List.dropWhile]
    split
    · exact Nat.le_succ_of_le ih
    · exact Nat.le_refl _

private theorem length_dropWhile_lt {p : Char → Bool} {t : Text}
    (h : (t.takeWhile p).isEmpty = false) : (t.dropWhile p).length < t.length := by
  cases t with
  | nil => simp at h
  | cons c cs =>
    simp only [List.takeWhile, List.dropWhile] at h ⊢
    split at h
    · have := length_dropWhile_le p cs
      simp only [List.length_cons]
      omega
    · simp at h

theorem length_of_readDigits {t ds rest : Text} (h : readDigits t = .ok (ds, rest)) :
    rest.length < t.length := by
  unfold readDigits at h
  split at h
  · simp at h
  · rename_i hne
    cases h
    exact length_dropWhile_lt (by simpa using hne)

theorem length_of_readWhole {t ds rest : Text} (h : readWhole t = .ok (ds, rest)) :
    rest.length < t.length := by
  unfold readWhole at h
  split at h
  · split at h
    · cases h
      simp
    · simp at h
  · exact length_of_readDigits h

theorem length_of_readFraction {t ds rest : Text} (h : readFraction t = .ok (ds, rest)) :
    rest.length ≤ t.length := by
  unfold readFraction at h
  split at h
  · rename_i r
    cases hd : readDigits r with
    | error e => simp [hd, Except.map] at h
    | ok v =>
      obtain ⟨ds', rest'⟩ := v
      simp only [hd, Except.map] at h
      cases h
      exact Nat.le_succ_of_le (Nat.le_of_lt (length_of_readDigits hd))
  · cases h
    exact Nat.le_refl _

private theorem length_readExponentSign_le (t : Text) :
    (readExponentSign t).2.length ≤ t.length := by
  unfold readExponentSign
  split <;> simp

theorem length_of_readExponent {t ds rest : Text} (h : readExponent t = .ok (ds, rest)) :
    rest.length ≤ t.length := by
  unfold readExponent at h
  split at h
  · cases h
    simp
  · rename_i c r
    split at h
    · cases hd : readDigits (readExponentSign r).2 with
      | error e => simp [hd, Except.map] at h
      | ok v =>
        obtain ⟨ds', rest'⟩ := v
        simp only [hd, Except.map] at h
        cases h
        have h₁ := length_of_readDigits hd
        have h₂ := length_readExponentSign_le r
        simp only [List.length_cons]
        omega
    · cases h
      exact Nat.le_refl _

private theorem length_readSign_le (t : Text) : (readSign t).2.length ≤ t.length := by
  unfold readSign
  split <;> simp

theorem length_of_readNumber {t rest : Text} {l : Lexeme} (h : readNumber t = .ok (l, rest)) :
    rest.length < t.length := by
  unfold readNumber at h
  simp only [bind, Except.bind] at h
  have h₀ := length_readSign_le t
  split at h
  · simp at h
  · rename_i whole hw
    obtain ⟨w, r₁⟩ := whole
    have h₁ := length_of_readWhole hw
    split at h
    · simp at h
    · rename_i fraction hf
      obtain ⟨f, r₂⟩ := fraction
      have h₂ := length_of_readFraction hf
      split at h
      · simp at h
      · rename_i exponent he
        obtain ⟨e, r₃⟩ := exponent
        have h₃ := length_of_readExponent he
        simp only at h h₂ h₃
        split at h
        · simp at h
        · split at h <;> (cases h; omega)

theorem length_of_readString {t value rest : Text} (h : readString t = .ok (value, rest)) :
    rest.length < t.length := by
  fun_induction readString t generalizing value rest with
  | case1 => simp at h
  | case2 => cases h; simp
  | case3 => simp at h
  | case4 cs d r _ hr ih =>
    cases hv : readString r with
    | error e => simp [hv, Except.map] at h
    | ok v =>
      obtain ⟨value', rest'⟩ := v
      simp only [hv, Except.map] at h
      cases h
      exact Nat.lt_trans (ih hv) (length_of_readEscape hr)
  | case5 => simp at h
  | case6 c cs _ _ _ ih =>
    cases hv : readString cs with
    | error e => simp [hv, Except.map] at h
    | ok v =>
      obtain ⟨value', rest'⟩ := v
      simp only [hv, Except.map] at h
      cases h
      exact Nat.lt_succ_of_lt (ih hv)

theorem length_of_readBlockLines {t rest : Text} {ls : List Text}
    (h : readBlockLines t = some (ls, rest)) : rest.length < t.length := by
  fun_induction readBlockLines t generalizing ls rest with
  | case1 r =>
    cases h
    simp only [List.length_cons]
    omega
  | case2 r ih | case3 r ih | case4 c r _ _ _ _ ih | case5 c r _ _ _ _ ih =>
    obtain ⟨v, hv, he⟩ := Option.map_eq_some_iff.1 h
    obtain ⟨ls', rest'⟩ := v
    cases he
    have := ih hv
    simp only [List.length_cons]
    omega
  | case6 => simp at h

theorem length_of_readQuoted {t rest : Text} {l : Lexeme} (h : readQuoted t = .ok (l, rest)) :
    rest.length ≤ t.length := by
  unfold readQuoted at h
  split at h
  · rename_i r
    split at h
    · rename_i ls r' hr
      cases h
      have := length_of_readBlockLines hr
      simp only [List.length_cons]
      omega
    · simp at h
  · cases hv : readString t with
    | error e => simp [hv, Except.map] at h
    | ok v =>
      obtain ⟨value, rest'⟩ := v
      simp only [hv, Except.map] at h
      cases h
      exact Nat.le_of_lt (length_of_readString hv)

theorem length_of_read {c : Char} {cs rest : Text} {l : Lexeme}
    (h : read c cs = .ok (l, rest)) : rest.length < (c :: cs).length := by
  unfold read at h
  split at h
  · exact Nat.lt_succ_of_le (length_of_readQuoted h)
  · split at h
    · cases h
      simp
    · split at h
      · exact length_of_readNumber h
      · split at h
        · cases h
          have := length_dropWhile_le isNameChar cs
          simp only [List.length_cons]
          omega
        · split at h
          · cases h
            simp only [List.length_drop, List.length_cons]
            omega
          · simp at h

end Lexeme

/-- The outcome of a scan. -/
structure Scan where
  /-- The lexemes, each with the number of characters left where it begins. A scan without a fault
  ends with `Lexeme.done`. -/
  lexemes : List (Lexeme × Nat)
  /-- The fault at which the scan stopped, if it met one. -/
  fault : Option LexicalFault
  deriving DecidableEq, Repr

/-- The scan of a text. -/
def Scan.ofText (t : Text) : Scan :=
  match _hs : Lexeme.skipIgnored false t with
  | [] => ⟨[(.done, 0)], none⟩
  | c :: cs =>
    match _h : Lexeme.read c cs with
    | .error fault => ⟨[], some fault⟩
    | .ok (l, rest) =>
      let tail := Scan.ofText rest
      ⟨(l, cs.length + 1) :: tail.lexemes, tail.fault⟩
termination_by t.length
decreasing_by
  have h₁ := Lexeme.length_of_read _h
  have h₂ := Lexeme.length_skipIgnored_le false t
  rw [_hs] at h₂
  omega

end SharpClient

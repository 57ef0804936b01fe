import SharpClient.Text.Lines

/-!
# Raw text

A string from outside the library need not be a text. It may hold surrogates, which are code points
that stand for no character, since a template can name one by its code. Raw text is the list of its
code points, surrogates included. Only a text can be encoded, and so be written to a file.
-/

namespace SharpClient

/-- A code point: a character, or a surrogate by its number, counted from U+D800 on. -/
inductive CodePoint
  | char (c : Char)
  | surrogate (n : Fin 0x800)
  deriving DecidableEq, Repr

namespace CodePoint

/-- The character, if the code point is one. -/
def char? : CodePoint → Option Char
  | char c => some c
  | surrogate _ => none

/-- The code point of a number. -/
def ofNat (n : Nat) : CodePoint :=
  if h : 0xD800 ≤ n ∧ n < 0xE000 then surrogate ⟨n - 0xD800, by omega⟩ else char (Char.ofNat n)

/-- Whether the code point ends a line in the file layout. -/
def isLineBreak : CodePoint → Bool
  | char c => Text.isLineBreak c
  | surrogate _ => false

end CodePoint

/-- A string as the list of its code points. -/
abbrev RawText := List CodePoint

namespace RawText

/-- A text as a string. -/
def ofText (t : Text) : RawText :=
  t.map .char

/-- The text, if the string is one. -/
def text? : RawText → Option Text
  | [] => some []
  | p :: ps =>
    match p.char?, text? ps with
    | some c, some t => some (c :: t)
    | _, _ => none

/-! ### Lines -/

/-- The lines of a string, each ended by a line-breaking character or by the end of the string; a
carriage return and the line feed after it end one line together. -/
def breakLines : RawText → List RawText
  | [] => []
  | .char '\r' :: .char '\n' :: ps => [] :: breakLines ps
  | p :: ps =>
    if p.isLineBreak then [] :: breakLines ps
    else
      match breakLines ps with
      | [] => [[p]]
      | l :: ls => (p :: l) :: ls

/-- Lines joined by line feeds. -/
def unlines (ls : List RawText) : RawText :=
  List.intercalate (ofText "\n") ls

/-- A line moved right by one level; an empty line stays empty. -/
def indentLine (line : RawText) : RawText :=
  if line.isEmpty then line else ofText Text.indentUnit ++ line

end RawText

end SharpClient

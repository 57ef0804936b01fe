import SharpClient.Text.Basic

/-!
# Lines and indentation

Generated declarations are indented by lines that only the line feed separates (`indent`).
The finished file is laid out by a coarser rule, which also ends a line at the other
line-breaking characters (`isLineBreak`); the two agree on text whose only line break is the
line feed.
-/

namespace SharpClient.Text

/-- The lines of a text, separated by line feeds: one more than there are line feeds. -/
def lines : Text → List Text
  | [] => [[]]
  | c :: cs =>
    if c = '\n' then [] :: lines cs
    else
      match lines cs with
      | [] => [[c]]
      | l :: ls => (c :: l) :: ls

/-- Lines joined by line feeds. -/
def unlines (ls : List Text) : Text :=
  join "\n" ls

/-- A line moved right by `margin`; an empty line stays empty. -/
def indentLine (margin line : Text) : Text :=
  if line.isEmpty then line else margin ++ line

/-- One level of indentation. -/
def indentUnit : Text := "  "

/-- Every non-empty line moved right by `levels` levels of two spaces. -/
def indent (levels : Nat) (t : Text) : Text :=
  unlines ((lines t).map (indentLine (repeated levels indentUnit)))

/-- The characters that end a line in the file layout. -/
def isLineBreak (c : Char) : Bool :=
  c = '\n' || c = '\r' || c = '\x0b' || c = '\x0c' || c = '\x1c' || c = '\x1d' || c = '\x1e' ||
    c = '\u0085' || c = '\u2028' || c = '\u2029'

/-- The characters that separate words: line breaks, tabs, and spaces of any width. -/
def isBlank (c : Char) : Bool :=
  isLineBreak c || c = ' ' || c = '\t' || c = '\x1f' || c = '\u00a0' || c = '\u1680' ||
    ('\u2000' ≤ c && c ≤ '\u200a') || c = '\u202f' || c = '\u205f' || c = '\u3000'

/-- Every line feed followed by `margin`, so that all lines but the first move right. -/
def hangingIndent (margin : Text) (t : Text) : Text :=
  replaceChar '\n' ('\n' :: margin) t

/-- Line breaks of every platform written as line feeds. -/
def normalizeLineBreaks : Text → Text
  | [] => []
  | '\r' :: '\n' :: cs => '\n' :: normalizeLineBreaks cs
  | c :: cs => (if c = '\r' then '\n' else c) :: normalizeLineBreaks cs

/-- A text without the carriage returns that stand right before a line feed. -/
def dropReturns : Text → Text
  | [] => []
  | '\r' :: '\n' :: cs => '\n' :: dropReturns cs
  | c :: cs => c :: dropReturns cs

end SharpClient.Text

import SharpClient.Text.Numeral

/-!
# Lexemes

The lexical elements of a GraphQL document, and how an error message names them.
-/

namespace SharpClient

/-- The punctuators. -/
inductive Punctuator
  | bang | dollar | amp | parenL | parenR | spread | colon | equals | atSign | bracketL
  | bracketR | braceL | pipe | braceR
  deriving DecidableEq, Repr

namespace Punctuator

/-- The punctuator as written. -/
def text : Punctuator → Text
  | bang => "!"
  | dollar => "$"
  | amp => "&"
  | parenL => "("
  | parenR => ")"
  | spread => "..."
  | colon => ":"
  | equals => "="
  | atSign => "@"
  | bracketL => "["
  | bracketR => "]"
  | braceL => "\x7b"
  | pipe => "|"
  | braceR => "\x7d"

/-- The punctuator written by one character. -/
def ofChar? (c : Char) : Option Punctuator :=
  [bang, dollar, amp, parenL, parenR, colon, equals, atSign, bracketL, bracketR, braceL, pipe,
    braceR].find? (·.text = [c])

/-- The punctuator in an error message. -/
def quoted (p : Punctuator) : Text :=
  "'" ++ p.text ++ "'"

end Punctuator

/-- A lexical element. The text of a string is its value; the text of a number is as written. -/
inductive Lexeme
  | punctuator (p : Punctuator)
  | name (text : Text)
  | int (text : Text)
  | float (text : Text)
  | string (value : Text)
  | blockString (value : Text)
  /-- The end of the document. -/
  | done
  deriving DecidableEq, Repr

namespace Lexeme

/-- The text that the lexeme carries, if it carries one. -/
def value? : Lexeme → Option Text
  | name t | int t | float t | string t | blockString t => some t
  | punctuator _ | done => none

/-- The kind of the lexeme in an error message. -/
def kindText : Lexeme → Text
  | punctuator p => p.quoted
  | name _ => "Name"
  | int _ => "Int"
  | float _ => "Float"
  | string _ => "String"
  | blockString _ => "BlockString"
  | done => "<EOF>"

/-- The lexeme in an error message: its kind, and what it carries. -/
def described (l : Lexeme) : Text :=
  l.kindText ++ (match l.value? with
    | none => []
    | some t => " '" ++ t ++ "'")

end Lexeme

/-- The next character in an error message: quoted when it is printable ASCII, by its code point
otherwise, and `<EOF>` when there is none. -/
def describedChar : Text → Text
  | [] => "<EOF>"
  | c :: _ =>
    if ' ' ≤ c ∧ c ≤ '~' then "'" ++ [c] ++ "'" else Text.codePoint c.toNat

end SharpClient

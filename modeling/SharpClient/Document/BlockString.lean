import SharpClient.Text.Lines

/-!
# Block strings

The value of a block string is what remains of its raw lines once the common indentation and the
blank first and last lines are removed. Printing puts the value between triple quotes again; a
value of several lines, a long one, or one whose end would run into the closing quotes stands on
lines of its own.
-/

namespace SharpClient.BlockString

/-- The white space that counts as indentation. -/
def isBlank (c : Char) : Bool :=
  c = ' ' || c = '\t'

/-- The number of blanks that a line begins with. -/
def indentation (line : Text) : Nat :=
  (line.takeWhile isBlank).length

/-- Whether the line holds blanks only. -/
def isBlankLine (line : Text) : Bool :=
  line.all isBlank

/-- The least indentation of the lines that are not blank. -/
def commonIndentation (lines : List Text) : Option Nat :=
  ((lines.filter (!isBlankLine ·)).map indentation).min?

/-- The lines without the blank ones at the beginning and at the end. -/
def trimBlankLines (lines : List Text) : List Text :=
  ((lines.dropWhile isBlankLine).reverse.dropWhile isBlankLine).reverse

/-- All lines but the first lose the indentation they have in common, then blank lines at both
ends are dropped. -/
def dedent : List Text → List Text
  | [] => []
  | first :: rest =>
    let common := (commonIndentation rest).getD 0
    trimBlankLines (first :: rest.map (·.drop common))

/-- The value of a block string with the given raw lines. -/
def value (rawLines : List Text) : Text :=
  Text.unlines (dedent rawLines)

/-- Triple quotes inside the value get a backslash in front. -/
def escapeQuotes : Text → Text
  | '"' :: '"' :: '"' :: rest => "\\\"\"\"" ++ escapeQuotes rest
  | c :: rest => c :: escapeQuotes rest
  | [] => []

/-- Whether the value is printed on lines of its own. -/
def onOwnLines (value : Text) : Bool :=
  1 < (Text.lines value).length || 70 < value.length || Text.endsWith value "\"" ||
    Text.endsWith value "\\"

/-- Whether the value is a single line that begins with a blank, which no line break may precede. -/
def keepsStart (value : Text) : Bool :=
  (Text.lines value).length = 1 && (value.head?.map isBlank).getD false

/-- The block string as printed. -/
def text (value : Text) : Text :=
  let body := escapeQuotes value
  if onOwnLines value then
    "\"\"\"" ++ (if keepsStart value then "" else "\n") ++ body ++ "\n\"\"\""
  else "\"\"\"" ++ body ++ "\"\"\""

end SharpClient.BlockString

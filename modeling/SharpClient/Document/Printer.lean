import SharpClient.Text.Numeral
import SharpClient.Document.Basic
import SharpClient.Document.BlockString

/-!
# Printing documents

The text of operations and fragments: one selection on a line, selection sets indented by two
spaces. The arguments of a field stand on one line unless that line would be longer than eighty
characters. Printing moves the lines of a block string with the block around it, which its value
does not notice.
-/

namespace SharpClient

/-! ### Values -/

/-- A character of a string literal; control characters are written as escapes. -/
def stringCharText (c : Char) : Text :=
  if c = '"' then "\\\""
  else if c = '\\' then "\\\\"
  else if c = '\x08' then "\\b"
  else if c = '\x0c' then "\\f"
  else if c = '\n' then "\\n"
  else if c = '\r' then "\\r"
  else if c = '\t' then "\\t"
  else if c < ' ' ∨ ('\x7f' ≤ c ∧ c ≤ '\u009f') then "\\u" ++ Text.hexPadded 4 c.toNat
  else [c]

/-- A string literal. -/
def stringText (value : Text) : Text :=
  "\"" ++ value.flatMap stringCharText ++ "\""

mutual

/-- A value. -/
def Value.text : Value → Text
  | .variable name => "$" ++ name
  | .int t => t
  | .float t => t
  | .string value => stringText value
  | .blockString value => BlockString.text value
  | .boolean b => if b then "true" else "false"
  | .null => "null"
  | .enum name => name
  | .list items => "[" ++ Text.join ", " (valueTexts items) ++ "]"
  | .object fields => "\x7b" ++ Text.join ", " (objectFieldTexts fields) ++ "\x7d"

/-- Values one by one. -/
def valueTexts : List Value → List Text
  | [] => []
  | v :: vs => v.text :: valueTexts vs

/-- The fields of an object one by one. -/
def objectFieldTexts : List (Text × Value) → List Text
  | [] => []
  | (key, v) :: rest => (key ++ ": " ++ v.text) :: objectFieldTexts rest

end

/-- A type reference. -/
def TypeRef.text : TypeRef → Text
  | named name => name
  | list item => "[" ++ item.text ++ "]"
  | nonNull t => t.text ++ "!"

/-- An argument. -/
def Argument.text (a : Argument) : Text :=
  a.name ++ ": " ++ a.value.text

/-- A directive, its arguments on the same line. -/
def Directive.text (d : Directive) : Text :=
  "@" ++ d.name ++ Text.wrapped "(" (Text.join ", " (d.arguments.map Argument.text)) ")"

/-- Directives in a row. -/
def directivesText (ds : List Directive) : Text :=
  Text.join " " (ds.map Directive.text)

/-- The parts that are not empty, with a space between each two neighbours. -/
def spaced (parts : List Text) : Text :=
  Text.join " " (parts.filter (!·.isEmpty))

/-- A text moved right by two spaces, empty lines included. -/
def shifted (t : Text) : Text :=
  Text.wrapped "  " (Text.hangingIndent "  " t) ""

/-! ### Selections -/

/-- The longest line on which a field keeps its arguments. -/
def lineLimit : Nat := 80

/-- A field's alias, name and arguments. -/
def fieldHead (as : Option Text) (name : Text) (arguments : List Argument) : Text :=
  let start : Text := (match as with
    | none => []
    | some a => a ++ ": ") ++ name
  let line := start ++ Text.wrapped "(" (Text.join ", " (arguments.map Argument.text)) ")"
  if lineLimit < line.length then
    start ++ Text.wrapped "(\n" (shifted (Text.unlines (arguments.map Argument.text))) "\n)"
  else line

/-- Selections in braces, one on a line. -/
def braced (selections : List Text) : Text :=
  Text.wrapped "\x7b\n" (shifted (Text.unlines selections)) "\n\x7d"

mutual

/-- A selection. -/
def Selection.text : Selection → Text
  | .field as name arguments directives selections =>
    spaced [fieldHead as name arguments, directivesText directives,
      braced (selectionTexts selections)]
  | .spread name directives => "..." ++ name ++ Text.wrapped " " (directivesText directives) ""
  | .inline on directives selections =>
    spaced ["...", (match on with
      | none => []
      | some name => "on " ++ name), directivesText directives, braced (selectionTexts selections)]

/-- Selections one by one. -/
def selectionTexts : List Selection → List Text
  | [] => []
  | s :: ss => s.text :: selectionTexts ss

end

/-! ### Definitions -/

/-- A description on lines of its own in front of what it describes. -/
def descriptionText : Option Description → Text
  | none => []
  | some d => (if d.block then BlockString.text d.text else stringText d.text) ++ "\n"

/-- A variable definition. -/
def Variable.text (v : Variable) : Text :=
  descriptionText v.description ++ "$" ++ v.name ++ ": " ++ v.type.text ++
    (match v.default with
      | none => []
      | some value => " = " ++ value.text) ++
    Text.wrapped " " (directivesText v.directives) ""

/-- Variable definitions in parentheses: on one line, or on a line each when one of them holds a
line break. -/
def variablesText (vs : List Variable) : Text :=
  let texts := vs.map Variable.text
  if texts.any (·.contains '\n') then Text.wrapped "(\n" (Text.unlines texts) "\n)"
  else Text.wrapped "(" (Text.join ", " texts) ")"

/-- An operation. A query of which there is nothing to say but its selections is written as these
alone. -/
def Operation.text (o : Operation) : Text :=
  let head := descriptionText o.description ++
    spaced [o.kind.keyword, o.name.getD [] ++ variablesText o.variableDefinitions,
      directivesText o.directives]
  let start : Text := if head = "query" then [] else head ++ " "
  start ++ braced (selectionTexts o.selections)

/-- A fragment definition. -/
def FragmentDefinition.text (f : FragmentDefinition) : Text :=
  descriptionText f.description ++ "fragment " ++ f.name ++ " on " ++ f.on ++ " " ++
    Text.wrapped "" (directivesText f.directives) " " ++ braced (selectionTexts f.selections)

end SharpClient

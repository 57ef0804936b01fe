import SharpClient.Text.Lines
import SharpClient.Declaration.Basic

/-!
# Text of declarations

Each declaration is written at column zero; whatever encloses it indents the finished text, once
for each level. A text inside a declaration is written as a string literal in one of two ways: a
regular literal escapes backslashes and quotes; a verbatim literal, opened by `@"`, doubles its
quotes and keeps everything else.
-/

namespace SharpClient

/-! ### String literals -/

namespace Literal

/-- The text of a regular string literal, quotes included. -/
def regular (value : Text) : Text :=
  "\"" ++ Text.replaceChar '"' "\\\"" (Text.replaceChar '\\' "\\\\" value) ++ "\""

/-- The text between the quotes of a verbatim string literal. -/
def verbatimBody (value : Text) : Text :=
  Text.replaceChar '"' "\"\"" value

end Literal

/-! ### Declarations -/

/-- `access kind name : implements {`, the body and the closing brace on lines of their own. Empty
parts of the header are left out. -/
def blockText (access kind name : Text) (implements : List Text) (body : Text) : Text :=
  let header := Text.join " " ([access, kind, name].filter (!·.isEmpty))
  let heritage : Text := if implements.isEmpty then [] else " : " ++ Text.join ", " implements
  if body.isEmpty then header ++ heritage ++ " \x7b\n\x7d"
  else header ++ heritage ++ " \x7b\n" ++ body ++ "\n\x7d"

/-- A property with its payload key. -/
def Property.text (p : Property) : Text :=
  "[JsonProperty(\"" ++ p.wire ++ "\")]\npublic " ++ p.type ++ " " ++ p.member ++
    " \x7b get; set; \x7d"

/-- A parameter with its default, if any. -/
def Parameter.text (p : Parameter) : Text :=
  p.type ++ " " ++ p.name ++ (match p.default with
    | none => []
    | some value => " = " ++ value)

/-- A parameter list as written between the parentheses. -/
def parametersText (ps : List Parameter) : Text :=
  Text.join ", " (ps.map Parameter.text)

/-- The line that assigns a parameter to a member. -/
def assignmentText (member parameter : Text) : Text :=
  Text.indentUnit ++ "this." ++ member ++ " = " ++ parameter ++ ";\n"

/-- A constructor, one assignment on a line. -/
def Constructor.text (c : Constructor) : Text :=
  "public " ++ c.className ++ "(" ++ parametersText c.parameters ++ ") \x7b\n" ++
    c.assignments.flatMap (fun a => assignmentText a.1 a.2) ++ "\x7d"

/-- A class around the texts of its members and of its constructor, which stand one empty line
apart. -/
def classText (name : Text) (parts : List Text) : Text :=
  blockText "public" "class" name []
    (if parts.isEmpty then [] else Text.indent 1 (Text.join "\n\n" parts))

mutual

/-- A member of a class. -/
def Member.text : Member → Text
  | .property p => p.text
  | .nested name members constructor =>
    classText name (memberTexts members ++ (constructor.map Constructor.text).toList)

/-- The members of a class, one by one. -/
def memberTexts : List Member → List Text
  | [] => []
  | m :: ms => m.text :: memberTexts ms

end

/-- A class with its nested classes, properties and constructor. -/
def ClassDecl.text (c : ClassDecl) : Text :=
  c.toMember.text

/-- An enum, one value on a line. -/
def EnumDecl.text (e : EnumDecl) : Text :=
  blockText "public" "enum" e.name [] (Text.indent 1 (Text.join ",\n" e.values))

namespace Method

/-- Return type, name and parameters. -/
def signature (m : Method) : Text :=
  m.returnType ++ " " ++ m.name ++ "(" ++ parametersText m.parameters ++ ")"

/-- The method as an interface declares it. -/
def interfaceText (m : Method) : Text :=
  m.signature ++ ";"

/-- The method as a class implements it; a missing body is written as an empty one. -/
def text (m : Method) : Text :=
  "public " ++ m.signature ++ " \x7b\n" ++ Text.indent 1 (m.body.getD []) ++ "\n\x7d"

end Method

end SharpClient

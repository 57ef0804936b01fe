import SharpClient.Naming.Words

/-!
# Names of declarations

Which identifier a declaration gets, from the name that the schema or the document gives. The
convention of a run decides whether the names of operations, fragments, inputs and enums are
put into Pascal case; members and nested classes are always in Pascal case. An identifier that spells
a reserved word of C# is written with a leading `@`.
-/

namespace SharpClient

/-! ### Reserved words -/

namespace Naming

/-- The reserved words of C#. -/
def keywords : List Text :=
  List.map String.toList
   ["abstract", "as", "base", "bool", "break", "byte", "case", "catch", "char", "checked",
    "class", "const", "continue", "decimal", "default", "delegate", "do", "double", "else",
    "enum", "event", "explicit", "extern", "false", "finally", "fixed", "float", "for",
    "foreach", "goto", "if", "implicit", "in", "int", "interface", "internal", "is", "lock",
    "long", "namespace", "new", "null", "object", "operator", "out", "override", "params",
    "private", "protected", "public", "readonly", "ref", "return", "sbyte", "sealed", "short",
    "sizeof", "stackalloc", "static", "string", "struct", "switch", "this", "throw", "true",
    "try", "typeof", "uint", "ulong", "unchecked", "unsafe", "ushort", "using", "virtual",
    "void", "volatile", "while"]

/-- The name as an identifier: a reserved word gets a leading `@`, any other name stays. -/
def escaped (name : Text) : Text :=
  if name ∈ keywords then '@' :: name else name

end Naming

/-! ### Conventions -/

/-- What happens to the declared names of operations, fragments, inputs and enums. -/
inductive Convention
  /-- They are put into Pascal case. -/
  | pascalCase
  /-- They are kept as written. -/
  | keep
  deriving DecidableEq, Repr

namespace Convention

/-- The convention's name in a configuration. -/
def word : Convention → Text
  | pascalCase => "pascalCase"
  | keep => "keep"

/-- Every convention. -/
def all : List Convention :=
  [pascalCase, keep]

/-- The convention that a configuration names. -/
def ofWord? (name : Text) : Option Convention :=
  all.find? (·.word = name)

/-- A declared name under the convention. -/
def apply : Convention → Text → Text
  | pascalCase, name => Naming.pascalCase name
  | keep, name => name

/-- The class that holds the answer of an operation: a leading `Get` is left out. -/
def responseClass (c : Convention) (operation : Text) : Text :=
  let name := c.apply operation ++ "Payload"
  Naming.escaped (if Text.startsWith name "Get" then name.drop 3 else name)

/-- The class that holds the variables of an operation. -/
def requestClass (c : Convention) (operation : Text) : Text :=
  Naming.escaped (c.apply operation ++ "Request")

/-- The class of a fragment. -/
def fragmentClass (c : Convention) (fragment : Text) : Text :=
  Naming.escaped (c.apply fragment)

/-- The class of an input type, or the enum of an enum type. -/
def typeName (c : Convention) (name : Text) : Text :=
  Naming.escaped (c.apply name)

/-- The client method of a query or mutation. -/
def methodName (c : Convention) (operation : Text) : Text :=
  c.apply operation ++ "Async"

/-- The client method of a subscription. -/
def streamName (c : Convention) (operation : Text) : Text :=
  "Create" ++ c.apply operation ++ "Stream"

end Convention

namespace Naming

/-- The text without its last character when that is an `s`. -/
def singular (name : Text) : Text :=
  if Text.endsWith name "s" then name.dropLast else name

/-- The property of a nested class, and the end of the class's name. -/
def resultSuffix : Text := "Result"

/-- The class nested for a field with a sub-selection: the field `users` of list type gives
`UserResult`. -/
def resultClass (key : Text) (isList : Bool) : Text :=
  let base := pascalCase key
  escaped ((if isList then singular base else base) ++ resultSuffix)

/-- The member that holds the value of a response key, variable or input field. -/
def member (wire : Text) : Text :=
  escaped (pascalCase wire)

/-- The constructor parameter of a variable. -/
def parameter (wire : Text) : Text :=
  escaped wire

end Naming

end SharpClient

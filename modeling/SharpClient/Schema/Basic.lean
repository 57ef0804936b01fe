import SharpClient.Document.Basic

/-!
# Schemas

A schema is the list of its types, in the order in which generated code lists them, with the root
type of each kind of operation and the directives. Extensions are already merged into the types,
and an input field's default is kept only if the field can take it.
-/

namespace SharpClient

/-- A schema. -/
structure Schema where
  /-- The types, in order, with the built-in ones that are in use. -/
  types : List TypeDefinition
  /-- The root types. -/
  roots : List (OperationKind × Text)
  /-- The directives, in order. -/
  directives : List DirectiveDefinition
  deriving Repr

namespace TypeDefinition

/-- Whether the type is part of the introspection system or named as if it were. -/
def isReserved (t : TypeDefinition) : Bool :=
  Text.startsWith t.name "__"

/-- The fields that may be selected on a value of the type, if it has any. -/
def fields? (t : TypeDefinition) : Option (List FieldDefinition) :=
  match t.body with
  | .object _ fields | .interface _ fields => some fields
  | _ => none

/-- The fields of an input type. -/
def inputFields? (t : TypeDefinition) : Option (List InputValue) :=
  match t.body with
  | .input fields => some fields
  | _ => none

/-- The values of an enum type. -/
def enumValues? (t : TypeDefinition) : Option (List Text) :=
  match t.body with
  | .enum values => some (values.map (·.name))
  | _ => none

/-- Whether a value of the type may be given as an argument. -/
def isInput (t : TypeDefinition) : Bool :=
  match t.body with
  | .scalar | .enum _ | .input _ => true
  | .object .. | .interface .. | .union _ => false

/-- Whether a field may have the type. -/
def isOutput (t : TypeDefinition) : Bool :=
  match t.body with
  | .input _ => false
  | .scalar | .enum _ | .object .. | .interface .. | .union _ => true

end TypeDefinition

/-- The type of a name in a list of types. -/
def findType? (types : List TypeDefinition) (name : Text) : Option TypeDefinition :=
  types.find? (·.name = name)

namespace Schema

/-- The type of a name. -/
def type? (s : Schema) (name : Text) : Option TypeDefinition :=
  findType? s.types name

/-- The root type of a kind of operation. -/
def root? (s : Schema) (kind : OperationKind) : Option TypeDefinition :=
  (s.roots.lookup kind).bind s.type?

/-- The types that are not part of the introspection system. -/
def listed (s : Schema) : List TypeDefinition :=
  s.types.filter (!·.isReserved)

/-- The input types with their fields, in order. -/
def inputTypes (s : Schema) : List (Text × List InputValue) :=
  s.listed.filterMap fun t => t.inputFields?.map (t.name, ·)

/-- The enum types with their values, in order. -/
def enumTypes (s : Schema) : List (Text × List Text) :=
  s.listed.filterMap fun t => t.enumValues?.map (t.name, ·)

/-- The directive of a name. -/
def directive? (s : Schema) (name : Text) : Option DirectiveDefinition :=
  s.directives.find? (·.name = name)

end Schema

end SharpClient

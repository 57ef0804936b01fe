import SharpClient.Text.Basic

/-!
# Documents

The parts of a GraphQL document: values, types, selections, and the definitions that operations,
fragments and schemas are made of. Operations and fragments hold no positions; in a type system the
applied directives know their places, because building a schema may refuse them. Descriptions are
kept where a definition can be printed again, that is, for operations, their variables, and
fragments.

A field without a sub-selection has an empty list of selections: the grammar knows no empty braces.
-/

namespace SharpClient

/-! ### Values and types -/

/-- A value as written. -/
inductive Value
  | variable (name : Text)
  | int (text : Text)
  | float (text : Text)
  | string (value : Text)
  | blockString (value : Text)
  | boolean (b : Bool)
  | null
  | enum (name : Text)
  | list (items : List Value)
  | object (fields : List (Text × Value))
  deriving Repr

/-- A reference to a type. -/
inductive TypeRef
  /-- The type of this name. -/
  | named (name : Text)
  /-- Lists of a type. -/
  | list (item : TypeRef)
  /-- A type without `null`. -/
  | nonNull (of : TypeRef)
  deriving DecidableEq, Repr

/-- The name at the core of a type reference. -/
def TypeRef.core : TypeRef → Text
  | named name => name
  | list item => item.core
  | nonNull t => t.core

/-- A description: a string, written as a block string or not. -/
structure Description where
  /-- The text. -/
  text : Text
  /-- Whether it is written as a block string. -/
  block : Bool
  deriving DecidableEq, Repr

/-- An argument. -/
structure Argument where
  /-- The argument's name. -/
  name : Text
  /-- Its value. -/
  value : Value
  deriving Repr

/-- A directive as applied. -/
structure Directive where
  /-- The directive's name. -/
  name : Text
  /-- The arguments, in order. -/
  arguments : List Argument
  deriving Repr

/-! ### Selections -/

/-- One selection of a selection set. -/
inductive Selection
  /-- A field, with its sub-selection. -/
  | field (as : Option Text) (name : Text) (arguments : List Argument)
      (directives : List Directive) (selections : List Selection)
  /-- The spread of a named fragment. -/
  | spread (name : Text) (directives : List Directive)
  /-- An inline fragment. -/
  | inline (on : Option Text) (directives : List Directive) (selections : List Selection)
  deriving Repr

/-- A selected field. -/
structure Field where
  /-- The alias, if there is one. -/
  as : Option Text
  /-- The name of the field in the schema. -/
  name : Text
  /-- The arguments, in order. -/
  arguments : List Argument
  /-- The directives, in order. -/
  directives : List Directive
  /-- The sub-selection, empty when there is none. -/
  selections : List Selection
  deriving Repr

namespace Field

/-- The field as a selection. -/
def toSelection (f : Field) : Selection :=
  .field f.as f.name f.arguments f.directives f.selections

/-- The key under which the answer holds the field: its alias, or its name. -/
def key (f : Field) : Text :=
  f.as.getD f.name

end Field

mutual

/-- The number of fields in a selection, at any depth. -/
def Selection.fieldCount : Selection → Nat
  | .field _ _ _ _ selections => fieldCountAll selections + 1
  | .spread .. => 0
  | .inline _ _ selections => fieldCountAll selections

/-- The number of fields in a list of selections, at any depth. -/
def fieldCountAll : List Selection → Nat
  | [] => 0
  | s :: ss => s.fieldCount + fieldCountAll ss

end

/-! ### Operations and fragments -/

/-- The kind of an operation. -/
inductive OperationKind
  | query
  | mutation
  | subscription
  /-- A keyword that is no kind of operation. No document is read with it. -/
  | other (keyword : Text)
  deriving DecidableEq, Repr

namespace OperationKind

/-- The keyword of the kind. -/
def keyword : OperationKind → Text
  | query => "query"
  | mutation => "mutation"
  | subscription => "subscription"
  | other keyword => keyword

/-- The kind with this keyword. -/
def ofKeyword? (word : Text) : Option OperationKind :=
  [query, mutation, subscription].find? (·.keyword = word)

end OperationKind

/-- The definition of a variable. -/
structure Variable where
  /-- The description, if there is one. -/
  description : Option Description
  /-- The variable's name, without the dollar sign. -/
  name : Text
  /-- Its type. -/
  type : TypeRef
  /-- The default value, if there is one. -/
  default : Option Value
  /-- The directives, in order. -/
  directives : List Directive
  deriving Repr

/-- An operation. -/
structure Operation where
  /-- The description, if there is one. -/
  description : Option Description
  /-- The kind. -/
  kind : OperationKind
  /-- The name, unless the operation is anonymous. -/
  name : Option Text
  /-- The variables, in order. -/
  variableDefinitions : List Variable
  /-- The directives, in order. -/
  directives : List Directive
  /-- The selections, in order. -/
  selections : List Selection
  deriving Repr

/-- A fragment definition. -/
structure FragmentDefinition where
  /-- The description, if there is one. -/
  description : Option Description
  /-- The fragment's name. -/
  name : Text
  /-- The type condition. -/
  on : Text
  /-- The directives, in order. -/
  directives : List Directive
  /-- The selections, in order. -/
  selections : List Selection
  deriving Repr

/-! ### Type system -/

/-- A place in a source: the beginning of the lexeme from which on `left` lexemes are left. -/
structure Place where
  /-- The source. -/
  source : Text
  /-- The number of lexemes from the place on. -/
  left : Nat
  deriving DecidableEq, Repr

/-- A directive as applied in a type system. -/
structure PlacedDirective where
  /-- The directive. -/
  directive : Directive
  /-- Where it stands. -/
  place : Place
  /-- Where the values of its arguments stand, in order. -/
  valuePlaces : List Place
  deriving Repr

/-- A place where a directive may be applied. -/
inductive DirectiveLocation
  | query | mutation | subscription | field | fragmentDefinition | fragmentSpread
  | inlineFragment | variableDefinition | schema | scalar | object | fieldDefinition
  | argumentDefinition | interface | union | enum | enumValue | inputObject
  | inputFieldDefinition | directiveDefinition
  deriving DecidableEq, Repr

namespace DirectiveLocation

/-- Every location, with its name in lower-case words. -/
def named : List (DirectiveLocation × Text) :=
  [(query, "query"), (mutation, "mutation"), (subscription, "subscription"), (field, "field"),
    (fragmentDefinition, "fragment definition"), (fragmentSpread, "fragment spread"),
    (inlineFragment, "inline fragment"), (variableDefinition, "variable definition"),
    (schema, "schema"), (scalar, "scalar"), (object, "object"),
    (fieldDefinition, "field definition"), (argumentDefinition, "argument definition"),
    (interface, "interface"), (union, "union"), (enum, "enum"), (enumValue, "enum value"),
    (inputObject, "input object"), (inputFieldDefinition, "input field definition"),
    (directiveDefinition, "directive definition")]

/-- The location's name in lower-case words. -/
def words (l : DirectiveLocation) : Text :=
  (named.lookup l).getD []

/-- The location's keyword in a directive definition. -/
def keyword (l : DirectiveLocation) : Text :=
  l.words.map fun c => if c = ' ' then '_' else c.toUpper

/-- The location with this keyword. -/
def ofKeyword? (word : Text) : Option DirectiveLocation :=
  (named.map (·.1)).find? (·.keyword = word)

end DirectiveLocation

/-- The definition of an argument or of a field of an input type. -/
structure InputValue where
  /-- The name. -/
  name : Text
  /-- The type. -/
  type : TypeRef
  /-- The default value as written, if there is one. -/
  default : Option Value := none
  /-- The directives, in order. -/
  directives : List PlacedDirective := []
  deriving Repr

/-- The definition of a field of an object or interface type. -/
structure FieldDefinition where
  /-- The name. -/
  name : Text
  /-- The arguments, in order. -/
  arguments : List InputValue := []
  /-- The type. -/
  type : TypeRef
  /-- The directives, in order. -/
  directives : List PlacedDirective := []
  deriving Repr

/-- The definition of a value of an enum type. -/
structure EnumValue where
  /-- The value. -/
  name : Text
  /-- The directives, in order. -/
  directives : List PlacedDirective := []
  deriving Repr

/-- What a type consists of. -/
inductive TypeBody
  | scalar
  | object (interfaces : List Text) (fields : List FieldDefinition)
  | interface (interfaces : List Text) (fields : List FieldDefinition)
  | union (members : List Text)
  | enum (values : List EnumValue)
  | input (fields : List InputValue)
  deriving Repr

/-- The definition, or the extension, of a type. -/
structure TypeDefinition where
  /-- The type's name. -/
  name : Text
  /-- What it consists of. -/
  body : TypeBody
  /-- The directives, in order. -/
  directives : List PlacedDirective := []
  deriving Repr

/-- The definition of a directive. -/
structure DirectiveDefinition where
  /-- The directive's name. -/
  name : Text
  /-- The arguments, in order. -/
  arguments : List InputValue := []
  /-- Whether it may be applied more than once at a place. -/
  repeatable : Bool := false
  /-- The places where it may be applied. -/
  locations : List DirectiveLocation
  deriving Repr

/-- The definition, or the extension, of a schema. -/
structure SchemaDefinition where
  /-- The directives, in order. -/
  directives : List PlacedDirective
  /-- The root type of each kind of operation, in order. -/
  roots : List (OperationKind × Text)
  deriving Repr

/-- One definition of a document. -/
inductive Definition
  | operation (o : Operation)
  | fragment (f : FragmentDefinition)
  | schema (s : SchemaDefinition)
  | schemaExtension (s : SchemaDefinition)
  | type (t : TypeDefinition)
  | typeExtension (t : TypeDefinition)
  | directive (d : DirectiveDefinition)
  deriving Repr

/-- A document. -/
structure Document where
  /-- The definitions, in order. -/
  definitions : List Definition
  deriving Repr

namespace Document

/-- The operations of a document, in order. -/
def operations (d : Document) : List Operation :=
  d.definitions.filterMap fun
    | .operation o => some o
    | _ => none

/-- The fragments of a document, in order. -/
def fragments (d : Document) : List FragmentDefinition :=
  d.definitions.filterMap fun
    | .fragment f => some f
    | _ => none

/-- The definitions of all documents, as one document. -/
def concat (ds : List Document) : Document :=
  ⟨ds.flatMap (·.definitions)⟩

end Document

end SharpClient

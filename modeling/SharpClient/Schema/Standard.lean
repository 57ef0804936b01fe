import SharpClient.Document.Basic

/-!
# Built-in types and directives

What every schema has without defining it: the five built-in scalars, the types of the
introspection system, and the built-in directives. A schema may define a type of one of these
names, but the built-in one is used in its place.
-/

namespace SharpClient.Standard

/-- The built-in scalars. -/
def scalars : List TypeDefinition :=
  [⟨"Int", .scalar, []⟩, ⟨"Float", .scalar, []⟩, ⟨"String", .scalar, []⟩,
    ⟨"Boolean", .scalar, []⟩, ⟨"ID", .scalar, []⟩]

/-- A required type. -/
def required (name : Text) : TypeRef :=
  .nonNull (.named name)

/-- A list of required items, itself optional. -/
def listOf (name : Text) : TypeRef :=
  .list (required name)

/-- A field without arguments. -/
def plain (name : Text) (type : TypeRef) : FieldDefinition :=
  ⟨name, [], type, []⟩

/-- A field that leaves out deprecated items unless asked for them. -/
def filtered (name : Text) (type : TypeRef) : FieldDefinition :=
  ⟨name, [⟨"includeDeprecated", .named "Boolean", some (.boolean false), []⟩], type, []⟩

/-- An enum type with values of these names. -/
def enumOf (name : Text) (values : List String) : TypeDefinition :=
  ⟨name, .enum (values.map fun v => ⟨v.toList, []⟩), []⟩

/-- The types of the introspection system. -/
def introspection : List TypeDefinition :=
  [⟨"__Schema", .object []
      [plain "description" (.named "String"),
        plain "types" (.nonNull (listOf "__Type")),
        plain "queryType" (required "__Type"),
        plain "mutationType" (.named "__Type"),
        plain "subscriptionType" (.named "__Type"),
        filtered "directives" (.nonNull (listOf "__Directive"))], []⟩,
    ⟨"__Directive", .object []
      [plain "name" (required "String"),
        plain "description" (.named "String"),
        plain "isRepeatable" (required "Boolean"),
        plain "locations" (.nonNull (listOf "__DirectiveLocation")),
        filtered "args" (.nonNull (listOf "__InputValue")),
        plain "isDeprecated" (required "Boolean"),
        plain "deprecationReason" (.named "String")], []⟩,
    enumOf "__DirectiveLocation"
      ["QUERY", "MUTATION", "SUBSCRIPTION", "FIELD", "FRAGMENT_DEFINITION", "FRAGMENT_SPREAD",
        "INLINE_FRAGMENT", "VARIABLE_DEFINITION", "SCHEMA", "SCALAR", "OBJECT",
        "FIELD_DEFINITION", "ARGUMENT_DEFINITION", "INTERFACE", "UNION", "ENUM", "ENUM_VALUE",
        "INPUT_OBJECT", "INPUT_FIELD_DEFINITION", "DIRECTIVE_DEFINITION"],
    ⟨"__Type", .object []
      [plain "kind" (required "__TypeKind"),
        plain "name" (.named "String"),
        plain "description" (.named "String"),
        plain "specifiedByURL" (.named "String"),
        filtered "fields" (listOf "__Field"),
        plain "interfaces" (listOf "__Type"),
        plain "possibleTypes" (listOf "__Type"),
        filtered "enumValues" (listOf "__EnumValue"),
        filtered "inputFields" (listOf "__InputValue"),
        plain "ofType" (.named "__Type"),
        plain "isOneOf" (.named "Boolean")], []⟩,
    ⟨"__Field", .object []
      [plain "name" (required "String"),
        plain "description" (.named "String"),
        filtered "args" (.nonNull (listOf "__InputValue")),
        plain "type" (required "__Type"),
        plain "isDeprecated" (required "Boolean"),
        plain "deprecationReason" (.named "String")], []⟩,
    ⟨"__InputValue", .object []
      [plain "name" (required "String"),
        plain "description" (.named "String"),
        plain "type" (required "__Type"),
        plain "defaultValue" (.named "String"),
        plain "isDeprecated" (required "Boolean"),
        plain "deprecationReason" (.named "String")], []⟩,
    ⟨"__EnumValue", .object []
      [plain "name" (required "String"),
        plain "description" (.named "String"),
        plain "isDeprecated" (required "Boolean"),
        plain "deprecationReason" (.named "String")], []⟩,
    enumOf "__TypeKind"
      ["SCALAR", "OBJECT", "INTERFACE", "UNION", "ENUM", "INPUT_OBJECT", "LIST", "NON_NULL"]]

/-- The built-in types. -/
def types : List TypeDefinition :=
  scalars ++ introspection

/-- The directive that says why something should no longer be used. -/
def deprecated : DirectiveDefinition :=
  ⟨"deprecated", [⟨"reason", .named "String", some (.string "No longer supported"), []⟩], false,
    [.fieldDefinition, .argumentDefinition, .inputFieldDefinition, .enumValue]⟩

/-- The directive that says where a scalar is specified. -/
def specifiedBy : DirectiveDefinition :=
  ⟨"specifiedBy", [⟨"url", required "String", none, []⟩], false, [.scalar]⟩

/-- The directive of an input type of which exactly one field is given. -/
def oneOf : DirectiveDefinition :=
  ⟨"oneOf", [], false, [.inputObject]⟩

/-- The built-in directives. -/
def directives : List DirectiveDefinition :=
  [⟨"include", [⟨"if", required "Boolean", none, []⟩], false,
      [.field, .fragmentSpread, .inlineFragment]⟩,
    ⟨"skip", [⟨"if", required "Boolean", none, []⟩], false,
      [.field, .fragmentSpread, .inlineFragment]⟩,
    deprecated, specifiedBy, oneOf]

/-- The directive with which operations bind to a named client. It is added to a schema that does
not define it. -/
def namedClient : DirectiveDefinition :=
  ⟨"namedClient", [⟨"name", required "String", none, []⟩], false, [.object, .field]⟩

end SharpClient.Standard

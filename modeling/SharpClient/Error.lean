import SharpClient.Text.Basic

/-!
# Errors of a generation run

Why no code is generated for a document. Every error ends the run; there is no partial output.
-/

namespace SharpClient

/-- A construct of a document that generation may refuse. -/
inductive Construct
  | field
  | fragmentSpread
  | inlineFragment
  | operationDefinition
  deriving DecidableEq, Repr

/-- The construct's name in an error message. -/
def Construct.word : Construct → Text
  | field => "field"
  | fragmentSpread => "fragment_spread"
  | inlineFragment => "inline_fragment"
  | operationDefinition => "operation_definition"

/-- Why no code is generated. -/
inductive GenerationError
  /-- A selected field does not exist on its parent type. -/
  | fieldNotFound (field type : Text)
  /-- A fragment, or the type it applies to, does not exist. -/
  | fragmentNotFound (name : Text)
  /-- A type does not exist in the schema. -/
  | typeNotFound (type : Text)
  /-- The schema has no root type for a kind of operation. -/
  | operationNotFound (kind : Text)
  /-- A construct cannot be used in this place. -/
  | unsupported (owner : Text) (construct : Construct)
  /-- An operation is neither a query, a mutation nor a subscription. -/
  | unknownOperation (keyword : Text)
  /-- The output file is not a C# file. -/
  | outputExtension (path : Text)
  /-- Classes nest deeper than the limit of the run, as they do when fragments expand one another
  without end. -/
  | nestingLimit
  deriving DecidableEq, Repr

namespace GenerationError

/-- The message of the error. -/
def message : GenerationError → Text
  | fieldNotFound field type => "Field schema not found; " ++ field ++ " on " ++ type
  | fragmentNotFound name => "Fragment schema not found; " ++ name
  | typeNotFound type => "Type schema not found; " ++ type
  | operationNotFound kind => "Operation schema not found; " ++ kind
  | unsupported owner construct => "Unsupported kind; " ++ owner ++ " " ++ construct.word
  | unknownOperation keyword => "Unexpected operation type: " ++ keyword
  | outputExtension path =>
    "Plugin \"c-sharp-operations\" requires extension to be \".cs\"! Got: " ++ path
  | nestingLimit => "Classes nest too deep"

end GenerationError

end SharpClient

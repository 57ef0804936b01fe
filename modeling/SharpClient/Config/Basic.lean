import SharpClient.Naming.Convention
import SharpClient.Scalar

/-!
# Configuration

The options of a run with their values in force.
-/

namespace SharpClient

/-- Where the text of an operation comes from at run time. -/
inductive DocumentMode
  /-- It is embedded in the client. -/
  | documentNode
  /-- It is a member of a class supplied elsewhere. -/
  | external
  deriving DecidableEq, Repr

namespace DocumentMode

/-- The mode's name in a configuration. -/
def word : DocumentMode → Text
  | documentNode => "documentNode"
  | external => "external"

/-- Every mode. -/
def all : List DocumentMode :=
  [documentNode, external]

/-- The mode that a configuration names. -/
def ofWord? (name : Text) : Option DocumentMode :=
  all.find? (·.word = name)

end DocumentMode

/-- The endpoints of the transport client that generated code owns. -/
structure HttpClient where
  /-- The primary endpoint. -/
  prodEndpoint : Text
  /-- The secondary endpoint. -/
  devEndpoint : Option Text := none
  /-- The C# condition under which the secondary endpoint is used. -/
  useDevIf : Option Text := none
  deriving DecidableEq, Repr

namespace HttpClient

/-- The secondary endpoint and its condition, when both are given and not empty. -/
def secondary? (h : HttpClient) : Option (Text × Text) :=
  match h.devEndpoint, h.useDevIf with
  | some dev, some condition =>
    if dev.isEmpty || condition.isEmpty then none else some (dev, condition)
  | _, _ => none

/-- Whether a secondary endpoint may be used. -/
def hasSecondary (h : HttpClient) : Bool :=
  h.secondary?.isSome

end HttpClient

/-- How a configuration maps a scalar. -/
inductive ScalarEntry
  /-- To a C# type, of which it is known whether it is a value type. -/
  | type (type : Text)
  /-- To a C# type, with a choice whether it is a value type, if one is made. -/
  | explicit (type : Text) (valueType : Option Bool)
  deriving DecidableEq, Repr

/-- The mapping that an entry stands for. -/
def ScalarEntry.mapping : ScalarEntry → ScalarMapping
  | type t => .ofType t
  | explicit t valueType => .ofType t valueType

/-- The suffix of generated documents in clients that use suffixes. -/
def documentSuffix : Text := "GQL"

/-- The options of a run. -/
structure Config where
  /-- The namespace of the generated code. -/
  namespaceName : Text := "GraphQLCodeGen"
  /-- The client class. -/
  operationsClassName : Text := "GraphQLClient"
  /-- The named client; generation does not use it. -/
  namedClient : Option Text := none
  /-- A suffix of queries; generation does not use it. -/
  querySuffix : Text := documentSuffix
  /-- A suffix of mutations; generation does not use it. -/
  mutationSuffix : Text := documentSuffix
  /-- A suffix of subscriptions; generation does not use it. -/
  subscriptionSuffix : Text := documentSuffix
  /-- Whether classes are generated for requests, answers, fragments, inputs and enums. -/
  typesafeOperation : Bool := false
  /-- The transport client that generated code owns, if it owns one. -/
  httpClient : Option HttpClient := none
  /-- The configured scalars. -/
  scalars : List (Text × ScalarEntry) := []
  /-- What happens to declared names. -/
  namingConvention : Convention := .pascalCase
  /-- Where the text of an operation comes from. -/
  documentMode : DocumentMode := .documentNode
  deriving DecidableEq, Repr

namespace Config

/-- The interface of the client class. -/
def interfaceName (c : Config) : Text :=
  "I" ++ c.operationsClassName

/-- The standard scalar mappings overlaid with the configured ones. -/
def registry (c : Config) : ScalarRegistry :=
  .ofMappings (c.scalars.map fun (name, entry) => (name, entry.mapping))

end Config

end SharpClient

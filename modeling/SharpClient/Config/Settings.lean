import SharpClient.Config.Basic
import SharpClient.Config.Json

/-!
# Settings

The options that a user gave. An option that was not given is kept apart from one that was given its
default, so that settings can be written out again without saying more than the user did. A
configuration has the given values and the defaults for the rest.

An option has two names: one in camel case, which configuration files use, and one with underscores.
-/

namespace SharpClient

/-- The names of an option. -/
structure OptionKey where
  /-- The name in camel case. -/
  camel : Text
  /-- The name with underscores. -/
  snake : Text
  deriving DecidableEq, Repr

namespace OptionKey

def namespaceName : OptionKey := ⟨"namespaceName", "namespace_name"⟩
def operationsClassName : OptionKey := ⟨"operationsClassName", "operations_class_name"⟩
def namedClient : OptionKey := ⟨"namedClient", "named_client"⟩
def querySuffix : OptionKey := ⟨"querySuffix", "query_suffix"⟩
def mutationSuffix : OptionKey := ⟨"mutationSuffix", "mutation_suffix"⟩
def subscriptionSuffix : OptionKey := ⟨"subscriptionSuffix", "subscription_suffix"⟩
def typesafeOperation : OptionKey := ⟨"typesafeOperation", "typesafe_operation"⟩
def httpClient : OptionKey := ⟨"httpClientConfig", "http_client_config"⟩
def scalars : OptionKey := ⟨"scalars", "scalars"⟩
def namingConvention : OptionKey := ⟨"namingConvention", "naming_convention"⟩
def documentMode : OptionKey := ⟨"documentMode", "document_mode"⟩

def prodEndpoint : OptionKey := ⟨"prodEndpoint", "prod_endpoint"⟩
def devEndpoint : OptionKey := ⟨"devEndpoint", "dev_endpoint"⟩
def useDevIf : OptionKey := ⟨"useDevIf", "use_dev_if"⟩

def type : OptionKey := ⟨"type", "type"⟩
def valueType : OptionKey := ⟨"valueType", "value_type"⟩

end OptionKey

/-- The given options of the transport client. -/
structure HttpClientSettings where
  /-- The primary endpoint. -/
  prodEndpoint : Text
  /-- The secondary endpoint, if given. -/
  devEndpoint : Option (Option Text) := none
  /-- The condition for the secondary endpoint, if given. -/
  useDevIf : Option (Option Text) := none
  deriving DecidableEq, Repr

/-- The given options of a scalar. -/
inductive ScalarSettings
  /-- Only a C# type. -/
  | type (type : Text)
  /-- A C# type and the choice whether it is a value type, if given. -/
  | explicit (type : Text) (valueType : Option (Option Bool))
  deriving DecidableEq, Repr

/-- The given options. -/
structure Settings where
  /-- The namespace, if given. -/
  namespaceName : Option Text := none
  /-- The client class, if given. -/
  operationsClassName : Option Text := none
  /-- The named client, if given. -/
  namedClient : Option (Option Text) := none
  /-- The suffix of queries, if given. -/
  querySuffix : Option Text := none
  /-- The suffix of mutations, if given. -/
  mutationSuffix : Option Text := none
  /-- The suffix of subscriptions, if given. -/
  subscriptionSuffix : Option Text := none
  /-- Whether operations are typesafe, if given. -/
  typesafeOperation : Option Bool := none
  /-- The transport client, if given. -/
  httpClient : Option (Option HttpClientSettings) := none
  /-- The scalars, if given. -/
  scalars : Option (List (Text × ScalarSettings)) := none
  /-- The naming convention, if given. -/
  namingConvention : Option Convention := none
  /-- The document mode, if given. -/
  documentMode : Option DocumentMode := none
  deriving DecidableEq, Repr

/-! ### Values in force -/

/-- The options of the transport client. -/
def HttpClientSettings.httpClient (h : HttpClientSettings) : HttpClient :=
  ⟨h.prodEndpoint, h.devEndpoint.join, h.useDevIf.join⟩

/-- The configuration of a scalar. -/
def ScalarSettings.entry : ScalarSettings → ScalarEntry
  | type t => .type t
  | explicit t valueType => .explicit t valueType.join

/-- The configuration: given values, and defaults for the rest. -/
def Settings.config (s : Settings) : Config :=
  let defaults : Config := {}
  { namespaceName := s.namespaceName.getD defaults.namespaceName
    operationsClassName := s.operationsClassName.getD defaults.operationsClassName
    namedClient := s.namedClient.getD defaults.namedClient
    querySuffix := s.querySuffix.getD defaults.querySuffix
    mutationSuffix := s.mutationSuffix.getD defaults.mutationSuffix
    subscriptionSuffix := s.subscriptionSuffix.getD defaults.subscriptionSuffix
    typesafeOperation := s.typesafeOperation.getD defaults.typesafeOperation
    httpClient := (s.httpClient.join).map HttpClientSettings.httpClient
    scalars := (s.scalars.getD []).map fun (name, e) => (name, e.entry)
    namingConvention := s.namingConvention.getD defaults.namingConvention
    documentMode := s.documentMode.getD defaults.documentMode }

/-! ### Writing -/

/-- A text, or `null` in its place. -/
def Json.ofText? (t : Option Text) : Json :=
  t.elim .null .string

/-- A truth value, or `null` in its place. -/
def Json.ofBool? (b : Option Bool) : Json :=
  b.elim .null .bool

/-- The entry of an option with underscores, if it was given. -/
def OptionKey.given {α : Type} (key : OptionKey) (write : α → Json) (value : Option α) :
    List (Text × Json) :=
  (value.map fun v => (key.snake, write v)).toList

/-- The given options of the transport client. -/
def HttpClientSettings.dump (h : HttpClientSettings) : Json :=
  .object <|
    (OptionKey.prodEndpoint.snake, .string h.prodEndpoint)
      :: OptionKey.devEndpoint.given .ofText? h.devEndpoint
      ++ OptionKey.useDevIf.given .ofText? h.useDevIf

/-- The given options of a scalar. -/
def ScalarSettings.dump : ScalarSettings → Json
  | type t => .string t
  | explicit t valueType =>
    .object <|
      (OptionKey.type.snake, .string t) :: OptionKey.valueType.given .ofBool? valueType

/-- The transport client as given. -/
def HttpClientSettings.dump? (h : Option HttpClientSettings) : Json :=
  h.elim .null HttpClientSettings.dump

/-- The scalars as given. -/
def ScalarSettings.dumpAll (scalars : List (Text × ScalarSettings)) : Json :=
  .object (scalars.map fun (name, e) => (name, e.dump))

/-- The given options, named with underscores. -/
def Settings.dump (s : Settings) : List (Text × Json) :=
  OptionKey.namespaceName.given .string s.namespaceName
    ++ OptionKey.operationsClassName.given .string s.operationsClassName
    ++ OptionKey.namedClient.given .ofText? s.namedClient
    ++ OptionKey.querySuffix.given .string s.querySuffix
    ++ OptionKey.mutationSuffix.given .string s.mutationSuffix
    ++ OptionKey.subscriptionSuffix.given .string s.subscriptionSuffix
    ++ OptionKey.typesafeOperation.given .bool s.typesafeOperation
    ++ OptionKey.httpClient.given HttpClientSettings.dump? s.httpClient
    ++ OptionKey.scalars.given ScalarSettings.dumpAll s.scalars
    ++ OptionKey.namingConvention.given (fun c => .string c.word) s.namingConvention
    ++ OptionKey.documentMode.given (fun m => .string m.word) s.documentMode

/-- The options of the transport client. -/
def HttpClient.toJson (h : HttpClient) : Json :=
  .object
    [(OptionKey.prodEndpoint.camel, .string h.prodEndpoint),
      (OptionKey.devEndpoint.camel, .ofText? h.devEndpoint),
      (OptionKey.useDevIf.camel, .ofText? h.useDevIf)]

/-- The configuration of a scalar. -/
def ScalarEntry.toJson : ScalarEntry → Json
  | type t => .string t
  | explicit t valueType =>
    .object [(OptionKey.type.camel, .string t), (OptionKey.valueType.camel, .ofBool? valueType)]

/-- All options with their values in force, named in camel case. -/
def Config.toJson (c : Config) : Json :=
  .object
    [(OptionKey.namespaceName.camel, .string c.namespaceName),
      (OptionKey.operationsClassName.camel, .string c.operationsClassName),
      (OptionKey.namedClient.camel, .ofText? c.namedClient),
      (OptionKey.querySuffix.camel, .string c.querySuffix),
      (OptionKey.mutationSuffix.camel, .string c.mutationSuffix),
      (OptionKey.subscriptionSuffix.camel, .string c.subscriptionSuffix),
      (OptionKey.typesafeOperation.camel, .bool c.typesafeOperation),
      (OptionKey.httpClient.camel, c.httpClient.elim .null HttpClient.toJson),
      (OptionKey.scalars.camel, .object (c.scalars.map fun (name, e) => (name, e.toJson))),
      (OptionKey.namingConvention.camel, .string c.namingConvention.word),
      (OptionKey.documentMode.camel, .string c.documentMode.word)]

end SharpClient

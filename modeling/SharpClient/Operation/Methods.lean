import SharpClient.Declaration.Printer
import SharpClient.Document.Printer
import SharpClient.Operation.Classes
import SharpClient.Text.Lines

/-!
# Client methods

A query or mutation has one client method, which sends it and returns a task. A subscription has
two, which return a stream; the second one takes a handler for exceptions. With a transport client
of its own the client needs none from its caller, and takes authentication and headers instead.

A method sends its operation together with the fragments that it needs. The text stands in the
generated code as a verbatim string literal, or the code refers to a member supplied elsewhere.
-/

namespace SharpClient

/-! ### Embedded documents -/

namespace OperationContext

/-- The names of the fragments that an operation needs, in the order of the table. -/
def dependencies (c : OperationContext) (o : Operation) : Except GenerationError (List Text) :=
  c.fragments.dependencies o.selections

/-- The texts that an operation sends: its own, then those of the fragments it needs. -/
def definitionTexts (c : OperationContext) (o : Operation) :
    Except GenerationError (List Text) := do
  let names ← c.dependencies o
  let fragments ← names.mapM c.fragments.get
  return o.text :: fragments.map (·.definition.text)

/-- What an operation sends, as it stands between the quotes of a verbatim literal. -/
def documentText (c : OperationContext) (o : Operation) : Except GenerationError Text :=
  (c.definitionTexts o).map fun texts => Literal.verbatimBody (Text.unlines texts)

/-- The C# expression for what an operation sends. -/
def documentExpression (c : OperationContext) (o : Operation) (name : Text) :
    Except GenerationError Text :=
  match c.config.documentMode with
  | .external => .ok ("Operations." ++ name)
  | .documentNode =>
    (c.documentText o).map fun text => "@\"\n" ++ Text.indent 2 text ++ "\""

end OperationContext

/-! ### Parameters -/

namespace Parameter

/-- The transport client that the caller supplies. -/
def transportClient : Parameter :=
  ⟨"GraphQL.Client.Abstractions.IGraphQLClient", "client", none⟩

/-- The token of an authenticated request. -/
def authToken : Parameter :=
  ⟨"string", "authToken", some "\"\""⟩

/-- Further headers of a request. -/
def headers : Parameter :=
  ⟨"Dictionary<string, string>", "headers", some "null"⟩

/-- The token by which a caller gives up on an answer. -/
def cancellationToken : Parameter :=
  ⟨"System.Threading.CancellationToken", "cancellationToken", some "default"⟩

/-- The handler for the exceptions of a stream. -/
def exceptionHandler : Parameter :=
  ⟨"Action<Exception>", "exceptionHandler", none⟩

/-- The variables of an operation. -/
def request (type : Text) : Parameter :=
  ⟨type, "request", none⟩

end Parameter

namespace OperationContext

/-- Whether generated code owns its transport client. -/
def ownsClient (c : OperationContext) : Bool :=
  c.config.httpClient.isSome

/-- The class of answers of the operation of a name, or the type of all objects when operations are
not typesafe. -/
def payloadType (c : OperationContext) (name : Text) : Text :=
  if c.config.typesafeOperation then c.convention.responseClass name else TypeContext.untyped

/-- The class of variables of the operation of a name, or the type of all objects when operations
are not typesafe. -/
def requestType (c : OperationContext) (name : Text) : Text :=
  if c.config.typesafeOperation then c.convention.requestClass name else TypeContext.untyped

/-- The parameters that come first: the transport client and the variables, where needed. -/
def leadingParameters (c : OperationContext) (o : Operation) (name : Text) : List Parameter :=
  (if c.ownsClient then [] else [.transportClient])
    ++ (if o.variableDefinitions.isEmpty then [] else [.request (c.requestType name)])

/-- The parameters of a request by the client's own transport. -/
def transportParameters (c : OperationContext) : List Parameter :=
  if c.ownsClient then [.authToken, .headers] else []

/-! ### Signatures -/

/-- The signatures of an operation's methods. -/
def signatures (c : OperationContext) (o : Operation) : Except GenerationError (List Method) := do
  let name ← o.supportedName
  let response : Text := "GraphQLResponse<" ++ c.payloadType name ++ ">"
  let leading := c.leadingParameters o name
  match o.kind with
  | .subscription =>
    let returnType : Text := "IObservable<" ++ response ++ ">"
    let method := c.convention.streamName name
    return [⟨returnType, method, leading ++ c.transportParameters, none⟩,
      ⟨returnType, method, leading ++ [.exceptionHandler] ++ c.transportParameters, none⟩]
  | _ =>
    return [⟨"Task<" ++ response ++ ">", c.convention.methodName name,
      leading ++ c.transportParameters ++ [.cancellationToken], none⟩]

/-! ### Bodies -/

/-- The class of requests that the transport client takes. -/
def transportRequest (c : OperationContext) : Text :=
  if c.ownsClient then "GraphQLHttpRequestWithHeaders" else "GraphQLRequest"

/-- What a request is given besides the document. -/
def assignments (c : OperationContext) (o : Operation) (name : Text) : List Text :=
  let transport : List Text :=
    if c.ownsClient then ["AuthToken = authToken", "Headers = headers"] else []
  let operationName : Text := "OperationName = \"" ++ name ++ "\""
  let variablesPart : List Text :=
    if o.variableDefinitions.isEmpty then [] else ["Variables = request"]
  transport ++ [operationName] ++ variablesPart

/-- The statement that builds the request; `document` is the expression for what it sends. -/
def requestStatement (c : OperationContext) (o : Operation) (name document : Text) : Text :=
  "var gqlRequest = new " ++ c.transportRequest ++ " \x7b\n"
    ++ Text.indent 1 (Text.join ",\n" (("Query = " ++ document) :: c.assignments o name))
    ++ "\n\x7d;"

/-- The statements that send the request, one for each method of an operation. -/
def sendStatements (kind : OperationKind) (payload : Text) : List Text :=
  match kind with
  | .subscription =>
    ["return client.CreateSubscriptionStream<" ++ payload ++ ">(gqlRequest);",
      "return client.CreateSubscriptionStream<" ++ payload ++ ">(gqlRequest, exceptionHandler);"]
  | .mutation =>
    ["return client.SendMutationAsync<" ++ payload ++ ">(gqlRequest, cancellationToken);"]
  | _ =>
    ["return client.SendQueryAsync<" ++ payload ++ ">(gqlRequest, cancellationToken);"]

/-- A method whose body builds the request around `document` and sends it. -/
def implemented (c : OperationContext) (o : Operation) (name document : Text) (m : Method)
    (send : Text) : Method :=
  { m with body := some (c.requestStatement o name document ++ "\n" ++ send) }

/-- The methods of an operation with their bodies. -/
def methods (c : OperationContext) (o : Operation) : Except GenerationError (List Method) := do
  let signatures ← c.signatures o
  let name ← o.supportedName
  let document ← c.documentExpression o name
  return signatures.zipWith (c.implemented o name document)
    (sendStatements o.kind (c.payloadType name))

end OperationContext

end SharpClient

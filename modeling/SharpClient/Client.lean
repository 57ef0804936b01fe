import SharpClient.Config.Basic
import SharpClient.Declaration.Printer

/-!
# The client

The client interface lists the signatures of all operations, and the client class implements it.
With endpoints configured, the class also owns a transport client, which is created once, on first
use.
-/

namespace SharpClient.Config

/-- The interface of the client. -/
def interfaceText (c : Config) (signatures : List Method) : Text :=
  let body := Text.unlines (signatures.map Method.interfaceText)
  blockText "public" "interface" c.interfaceName []
    (if body.isEmpty then [] else Text.indent 1 body)

/-- A new transport client for an endpoint, which is a C# expression. -/
def newTransport (endpoint : Text) : Text :=
  "_client = new GraphQLHttpClient(" ++ endpoint ++ ", new NewtonsoftJsonSerializer());"

/-- The statements that create the transport client. -/
def transportInitializer (h : HttpClient) : List Text :=
  let prod := Literal.regular h.prodEndpoint
  match h.secondary? with
  | none => [newTransport prod]
  | some (dev, condition) =>
    ["var endpoint = " ++ condition ++ " ? " ++ Literal.regular dev ++ " : " ++ prod ++ ";",
      newTransport "endpoint"]

/-- The lines before the statements that create the transport client. -/
def transportOpening : List Text :=
  List.map String.toList
    ["private static readonly object _clientLock = new object();",
      "private static volatile bool _clientInitialized;",
      "private static GraphQLHttpClient _client;",
      "",
      "private static GraphQLHttpClient client \x7b",
      "  get \x7b",
      "    if (!_clientInitialized) \x7b",
      "      lock (_clientLock) \x7b",
      "        if (!_clientInitialized) \x7b"]

/-- The lines after the statements that create the transport client. -/
def transportClosing : List Text :=
  List.map String.toList
    ["          _clientInitialized = true;",
      "        \x7d",
      "      \x7d",
      "    \x7d",
      "",
      "    return _client;",
      "  \x7d",
      "\x7d"]

/-- The declaration of the transport client, if the client owns one. -/
def transportDeclaration? (c : Config) : Option Text :=
  c.httpClient.map fun h =>
    Text.unlines <|
      transportOpening ++ (transportInitializer h).map (Text.spaces 10 ++ ·) ++ transportClosing

/-- The class of the client. -/
def classText (c : Config) (methods : List Method) : Text :=
  let parts := c.transportDeclaration?.toList ++ methods.map Method.text
  blockText "public" "class" c.operationsClassName [c.interfaceName]
    (if parts.isEmpty then [] else Text.indent 1 (Text.join "\n\n" parts))

end SharpClient.Config

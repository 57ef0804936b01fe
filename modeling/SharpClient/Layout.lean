import SharpClient.Text.RawText

/-!
# File layout

How the generated declarations become a file. The layout is given by templates: one for the file,
one for the class of requests that carry headers, and one for helpers on answers. The library has
templates of its own, and a user may replace each of them by a file of a template directory.

Templates of a user are rendered by an engine that is not part of the library. What the engine makes
of a template is up to the engine: a string, which need not be a text, or a fault. All that is known
of it is what it is given, and that it changes no file.
-/

namespace SharpClient

/-- What ends the work of a template engine early. -/
structure TemplateFault where
  /-- The name of the fault. -/
  kind : Text
  deriving DecidableEq, Repr

/-- What becomes of a template: a string, or a fault. -/
abbrev Rendering := Except TemplateFault RawText

/-- What fills the slots of the file's template. -/
structure Slots where
  /-- The namespaces in use. -/
  usings : List Text
  /-- The name of the namespace. -/
  namespaceName : RawText
  /-- The declarations. -/
  content : RawText

/-- A template. The one of the file is rendered with what fills its slots, the others without. -/
structure Template where
  /-- What becomes of the template. -/
  render : Option Slots → Rendering

/-- An engine for the templates of a user. -/
structure TemplateEngine where
  /-- What becomes of the template of a name. The templates of the directory are given by their
  names, since one may include another. -/
  render : (load : Text → Option Text) → (name : Text) → Option Slots → Rendering

/-! ### The texts of the library -/

/-- The class of requests that carry headers. -/
def httpRequestClass : Text :=
  Text.unlines <| List.map String.toList
    ["internal class GraphQLHttpRequestWithHeaders : GraphQLHttpRequest \x7b",
      "  public string AuthToken \x7b get; set; \x7d",
      "  public Dictionary<string, string> Headers \x7b get; set; \x7d",
      "",
      "  public override HttpRequestMessage ToHttpRequestMessage(",
      "      GraphQLHttpClientOptions options,",
      "      IGraphQLJsonSerializer serializer) \x7b",
      "    var r = base.ToHttpRequestMessage(options, serializer);",
      "",
      "    if (!string.IsNullOrEmpty(AuthToken)) \x7b",
      "      r.Headers.Authorization = new AuthenticationHeaderValue(\"Bearer\", AuthToken);",
      "    \x7d",
      "",
      "    if (Headers != null) \x7b",
      "      foreach (var h in Headers) \x7b",
      "        r.Headers.Add(h.Key, h.Value);",
      "      \x7d",
      "    \x7d",
      "",
      "    return r;",
      "  \x7d",
      "\x7d"]

/-- The helpers on answers. -/
def responseExtensions : Text :=
  Text.unlines <| List.map String.toList
    ["public static class GraphQLResponseExtensions \x7b",
      "  public static bool HasError<T>(this GraphQLResponse<T> response) \x7b",
      "    return response.Errors != null;",
      "  \x7d",
      "\x7d"]

namespace Template

/-- A template without slots. -/
def fixed (t : Text) : Template :=
  ⟨fun _ => .ok (.ofText t)⟩

/-- Lines that all move right by two spaces, but for empty ones after the first. -/
def indentLines : List RawText → RawText
  | [] => RawText.ofText Text.indentUnit
  | first :: rest =>
    RawText.unlines ((RawText.ofText Text.indentUnit ++ first) :: rest.map RawText.indentLine)

/-- A string moved right by two spaces, whatever characters break its lines. -/
def indented (t : RawText) : RawText :=
  indentLines (RawText.breakLines (t ++ RawText.ofText "\n"))

/-- The line that makes a namespace available. -/
def usingLine (name : Text) : Text :=
  "using " ++ name ++ ";\n"

/-- The file: the namespaces in use, and a namespace with the declarations. -/
def fileText (slots : Slots) : RawText :=
  RawText.ofText (slots.usings.flatMap usingLine ++ "\nnamespace ") ++ slots.namespaceName ++
    RawText.ofText " \x7b\n" ++ indented slots.content ++ RawText.ofText "\n\x7d"

/-- The template of the file. -/
def file : Template :=
  ⟨fun slots => .ok (fileText (slots.getD ⟨[], [], []⟩))⟩

end Template

/-! ### The templates of a run -/

/-- The templates of a run. -/
structure Templates where
  /-- The file. -/
  file : Template := .file
  /-- The class of requests that carry headers. -/
  httpRequest : Template := .fixed httpRequestClass
  /-- The helpers on answers. -/
  responseExtensions : Template := .fixed SharpClient.responseExtensions

namespace Templates

/-- The name of the file that replaces the file's template. -/
def fileName : Text := "operations.cs.j2"

/-- The name of the file that replaces the template of the request class. -/
def httpRequestName : Text := "http_request_class.cs.j2"

/-- The name of the file that replaces the template of the helpers. -/
def responseExtensionsName : Text := "response_extensions.cs.j2"

/-- The template of a name in a directory, or else one of the library. -/
def choose (engine : TemplateEngine) (load : Text → Option Text) (name : Text) (own : Template) :
    Template :=
  if (load name).isSome then ⟨engine.render load name⟩ else own

/-- The templates of a directory, and those of the library for the names that it does not have. -/
def ofDirectory (engine : TemplateEngine) (load : Text → Option Text) : Templates :=
  let own : Templates := {}
  { file := choose engine load fileName own.file
    httpRequest := choose engine load httpRequestName own.httpRequest
    responseExtensions := choose engine load responseExtensionsName own.responseExtensions }

end Templates

end SharpClient

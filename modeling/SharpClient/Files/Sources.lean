import SharpClient.Document.Parser
import SharpClient.Files.Tree
import SharpClient.Schema.Build
import SharpClient.Text.Lines

/-!
# Source files

The GraphQL files behind a path: the file itself, or all files below a directory, in the order of
their paths. The order does not depend on the order in which a directory lists its entries.
-/

namespace SharpClient

/-- Why sources cannot be used. -/
inductive SourceError
  /-- There are no schema files behind a path. -/
  | noSchemaFiles (path : Text)
  /-- A file is not a GraphQL document. -/
  | invalidSyntax (file : Text) (error : LocatedError)
  /-- The files define no schema. -/
  | invalidSchema (error : SchemaError)

namespace SourceError

/-- The error for a human reader. What rules a schema violates is not told. -/
def report : SourceError → Text
  | noSchemaFiles path => "No GraphQL schema files found in " ++ path
  | invalidSyntax _ error => error.report
  | invalidSchema error => error.report

end SourceError

namespace Workspace

/-- The endings of GraphQL files. -/
def graphqlEndings : List Text :=
  List.map String.toList [".graphql", ".graphqls", ".gql"]

/-- Whether a path names a GraphQL file. -/
def isGraphqlPath (path : Text) : Bool :=
  graphqlEndings.any (Text.endsWith path)

/-- The GraphQL files among those found, in the order of their paths. -/
def collect (found : List (Text × Text)) : List (Text × Text) :=
  (found.filter (isGraphqlPath ·.1)).mergeSort fun a b => Text.before a.1 b.1

/-- The GraphQL files behind a path, with their contents. -/
def sources (w : Workspace) (path : Text) : List (Text × Text) :=
  match w.find? path with
  | none => []
  | some t => collect (t.filesBelow path)

/-- Reads a source file. -/
def parseSource (path content : Text) : Except SourceError Document :=
  match Document.parse (Text.normalizeLineBreaks content) with
  | .ok d => .ok d
  | .error e => .error (.invalidSyntax (Path.baseName path) e)

/-- The documents behind a path. -/
def documents (w : Workspace) (path : Text) : Except SourceError (List Document) :=
  (w.sources path).mapM fun (path, content) => parseSource path content

/-- The schema that the files behind a path define together. -/
def schema (w : Workspace) (path : Text) : Except SourceError Schema := do
  if (w.sources path).isEmpty then
    .error (.noSchemaFiles path)
  let documents ← w.documents path
  match Schema.ofDocument (Document.concat documents) with
  | .ok s => return s
  | .error error => .error (.invalidSchema error)

end Workspace

end SharpClient

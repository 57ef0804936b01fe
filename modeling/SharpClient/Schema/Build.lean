import SharpClient.Schema.Settle

/-!
# From a document to a schema

Extensions are merged into their types, built-in types take the place of types defined under
their names, and the types are put in order: the types of the document in the order of their
definitions, and every built-in type where it is first needed. A type needs the types that it
refers to; the roots, the directives and the introspection system come after the document's types.
-/

namespace SharpClient

namespace TypeBody

/-- The members of an extension behind those of the type. -/
def extend : TypeBody → TypeBody → TypeBody
  | .object is fields, .object is' fields' => .object (is ++ is') (fields ++ fields')
  | .interface is fields, .interface is' fields' => .interface (is ++ is') (fields ++ fields')
  | .union members, .union members' => .union (members ++ members')
  | .enum values, .enum values' => .enum (values ++ values')
  | .input fields, .input fields' => .input (fields ++ fields')
  | body, _ => body

end TypeBody

namespace TypeDefinition

/-- The type with the members of an extension. The directives of an extension say nothing about the
type itself. -/
def extend (t extension : TypeDefinition) : TypeDefinition :=
  { t with body := t.body.extend extension.body }

end TypeDefinition

namespace Schema

/-- The document with the directive for named clients, unless it defines one of that name. -/
def withNamedClient (d : Document) : Document :=
  if (Rules.directiveDefinitions d).any (·.name = Standard.namedClient.name) then d
  else ⟨d.definitions ++ [.directive Standard.namedClient]⟩

/-- The types of a document with their extensions, built-in types in the place of their
namesakes. -/
def documentTypes (d : Document) : List TypeDefinition :=
  (Rules.typeDefinitions d).map fun t =>
    (findType? Standard.types t.name).getD
      (((Rules.typeExtensions d).filter (·.name = t.name)).foldl TypeDefinition.extend t)

/-- Adds the types of `todo` that are not there yet to `found`, each followed by what it needs.
Types that are `awaited` are left to their own turn. -/
def visit (types : List TypeDefinition) (awaited : List Text) :
    (depth : Nat) → (found todo : List Text) → List Text
  | 0, found, _ => found
  | depth + 1, found, todo =>
    todo.foldl (fun found name =>
      if name ∈ found ∨ name ∈ awaited then found
      else visit types awaited depth (found ++ [name])
        (((findType? types name).map Rules.typeReferences).getD [])) found

/-- The types of `names` in order, each followed by the built-in types that it is the first to
need. -/
def visitOwn (types : List TypeDefinition) : (found names : List Text) → List Text
  | found, [] => found
  | found, name :: later =>
    visitOwn types (visit types later (types.length + 1) found [name]) later

/-- The root types that a document names. -/
def namedRoots (d : Document) : List (OperationKind × Text) :=
  (Rules.schemaParts d).flatMap (·.roots)

/-- The root types of a document: as its schema definition says, or by their usual names when it
has none. -/
def documentRoots (d : Document) : List (OperationKind × Text) :=
  if (Rules.schemaDefinitions d).isEmpty then
    let names := (Rules.typeDefinitions d).map (·.name)
    let usual : List (OperationKind × Text) :=
      [(.query, "Query"), (.mutation, "Mutation"), (.subscription, "Subscription")]
    usual.filter (fun r => r.2 ∈ names) ++ namedRoots d
  else namedRoots d

/-- The directives of a document, then the built-in ones that it does not define. -/
def documentDirectives (d : Document) : List DirectiveDefinition :=
  let own := Rules.directiveDefinitions d
  own ++ Standard.directives.filter fun x => x.name ∉ own.map (·.name)

/-- The types in their order. -/
def ordered (types : List TypeDefinition) (own : List Text)
    (roots : List (OperationKind × Text)) (directives : List DirectiveDefinition) :
    List TypeDefinition :=
  let kinds : List OperationKind := [.query, .mutation, .subscription]
  let others := kinds.filterMap (fun k => roots.lookup k) ++
    directives.flatMap (fun x => Rules.inputReferences x.arguments) ++ ["__Schema".toList]
  (visit types [] (types.length + 1) (visitOwn types [] own) others).filterMap (findType? types)

/-- The schema that a document defines, or why it defines none. -/
def ofDocument (document : Document) : Except SchemaError Schema := do
  let d := withNamedClient document
  let faults := Rules.faults d
  if !faults.isEmpty then
    throw (.invalid faults)
  let own := documentTypes d
  let types := own ++ Standard.types.filter fun t => t.name ∉ own.map (·.name)
  let directives := documentDirectives d
  let roots := documentRoots d
  let (_, settled) ← (Settling.settleAll types own (Rules.directiveDefinitions d)).run []
  return ⟨(ordered types (own.map (·.name)) roots directives).map settled.apply, roots, directives⟩

end Schema

end SharpClient

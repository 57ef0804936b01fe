import SharpClient.Client
import SharpClient.Files.Path
import SharpClient.Layout
import SharpClient.Operation.Methods

/-!
# Generating a file

Everything that goes into a generated file: the client, and in typesafe runs the classes of
requests, answers, fragments and inputs, and the enums. All operations are checked against the
schema, whether classes are written for them or not. The first error ends the run. What is not
refused is laid out by the templates, which may have faults of their own.
-/

namespace SharpClient

/-- What code is generated from. -/
structure Generator where
  /-- The schema. -/
  schema : Schema
  /-- The documents with the operations and fragments. -/
  documents : List Document
  /-- The options. -/
  config : Config := {}
  /-- The fragments supplied from outside the documents. -/
  externalFragments : List Fragment := []
  /-- The templates. -/
  templates : Templates := {}

namespace Generator

/-- The operations, in the order of the documents. -/
def operations (g : Generator) : List Operation :=
  g.documents.flatMap Document.operations

/-- The fragments: those of the documents, then those from outside. -/
def fragments (g : Generator) : List Fragment :=
  (g.documents.flatMap Document.fragments).map Fragment.ofDefinition ++ g.externalFragments

/-- How deep classes may nest. The limit stands for the room that a run has for nested work: fragments
that expand one another without end use it up, and the run breaks off. It grows with the fields and
types at hand, but it is no bound on the chains of classes that come to an end. -/
def nestingLimit (g : Generator) : Nat :=
  let fields := (g.operations.map fun o => fieldCountAll o.selections).foldl (· + ·) 0
    + FragmentTable.fieldCount ⟨g.fragments⟩
  (fields + 1) * (g.schema.types.length + 1)

/-- What the operations are compiled against. -/
def context (g : Generator) : OperationContext where
  schema := g.schema
  scalars := g.config.registry
  convention := g.config.namingConvention
  fragments := ⟨g.fragments⟩
  limit := g.nestingLimit
  config := g.config

/-! ### Declarations of the schema -/

/-- The properties of input fields, with member names claimed in a scope. -/
def inputProperties (c : TypeContext) : Scope → List InputValue → List Property
  | _, [] => []
  | scope, f :: fs =>
    let (member, scope) := scope.claim (Naming.member f.name)
    ⟨f.name, member, (c.resolve f.type f.default.isSome).text⟩ :: inputProperties c scope fs

/-- The class of an input type. -/
def inputClass (c : TypeContext) (name : Text) (fields : List InputValue) : ClassDecl :=
  let className := c.convention.typeName name
  { name := className
    members := (inputProperties c (Scope.ofClass className) fields).map Member.property }

/-- The enum of an enum type. -/
def enumDecl (c : TypeContext) (name : Text) (values : List Text) : EnumDecl :=
  ⟨c.convention.typeName name, values.map Naming.escaped⟩

/-! ### Declarations of operations -/

/-- What one operation becomes. -/
structure CompiledOperation where
  /-- The signatures of its methods. -/
  signatures : List Method
  /-- Its methods. -/
  methods : List Method
  /-- The class of its variables, if it has any. -/
  request : Option ClassDecl
  /-- The class of its answer. -/
  response : ClassDecl

/-- Compiles an operation. -/
def compileOperation (c : OperationContext) (o : Operation) :
    Except GenerationError CompiledOperation := do
  let signatures ← c.signatures o
  let methods ← c.methods o
  let request ← c.requestClass o
  let response ← c.responseClass o
  return ⟨signatures, methods, request, response⟩

/-- What goes into a generated file. -/
structure Declarations where
  /-- The signatures of the client methods. -/
  signatures : List Method
  /-- The client methods. -/
  methods : List Method
  /-- The classes, in the order of the file: requests, answers, fragments, inputs. -/
  classes : List ClassDecl
  /-- The enums. -/
  enums : List EnumDecl

/-- The declarations of a run. Classes and enums are written in typesafe runs only. -/
def declarations (g : Generator) : Except GenerationError Declarations := do
  let c := g.context
  let typesafe := g.config.typesafeOperation
  let fragments ← if typesafe then c.fragments.effective.mapM c.fragmentClass else pure []
  let compiled ← g.operations.mapM (compileOperation c)
  let inputs := g.schema.inputTypes.map fun (name, fields) => inputClass c.toTypeContext name fields
  let enums := g.schema.enumTypes.map fun (name, values) => enumDecl c.toTypeContext name values
  return {
    signatures := compiled.flatMap (·.signatures)
    methods := compiled.flatMap (·.methods)
    classes :=
      if typesafe then
        compiled.filterMap (·.request) ++ compiled.map (·.response) ++ fragments ++ inputs
      else []
    enums := if typesafe then enums else [] }

/-! ### The file -/

/-- The namespaces that every file uses. -/
def baseUsings : List Text :=
  List.map String.toList
    ["System", "System.Collections.Generic", "System.Threading.Tasks", "System.Net.Http",
      "System.Net.Http.Headers", "Newtonsoft.Json", "GraphQL", "GraphQL.Client.Abstractions"]

/-- The namespaces that a client with a transport of its own uses besides. -/
def transportUsings : List Text :=
  List.map String.toList ["GraphQL.Client.Serializer.Newtonsoft", "GraphQL.Client.Http"]

/-- The namespaces that the file uses. -/
def usings (g : Generator) : List Text :=
  if g.config.httpClient.isSome then baseUsings ++ transportUsings else baseUsings

/-- The texts of the declarations. -/
def declaredBlocks (g : Generator) (d : Declarations) : List Text :=
  [g.config.interfaceText d.signatures, g.config.classText d.methods]
    ++ d.classes.map ClassDecl.text
    ++ d.enums.map EnumDecl.text

/-- The templates that follow the declarations. -/
def helperTemplates (g : Generator) : List Template :=
  if g.config.httpClient.isSome then [g.templates.httpRequest, g.templates.responseExtensions]
  else [g.templates.responseExtensions]

/-- What becomes of the file with these declarations. The first fault of a template ends it. -/
def render (g : Generator) (d : Declarations) : Rendering := do
  let helpers ← g.helperTemplates.mapM fun t => t.render none
  let blocks := (g.declaredBlocks d).map RawText.ofText ++ helpers
  let content := List.intercalate (RawText.ofText "\n\n") blocks
  let file ← g.templates.file.render
    (some ⟨g.usings, RawText.ofText g.config.namespaceName, content⟩)
  return file ++ RawText.ofText "\n"

/-- The file, unless the declarations are refused. -/
def code (g : Generator) : Except GenerationError Rendering :=
  g.declarations.map g.render

/-- The extension of generated files. -/
def outputExtension : Text := ".cs"

/-- Rejects an output path that does not have the extension of generated files. -/
def checkOutput (path : Text) : Except GenerationError Unit :=
  if Path.extension path = outputExtension then .ok () else .error (.outputExtension path)

end Generator

end SharpClient

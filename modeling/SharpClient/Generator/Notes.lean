import SharpClient.Generator.Basic

/-!
# Notes on a run

What a run tells about its progress when asked to. Notes are worked out apart from the code itself:
they follow the run and end where it ends, but nothing depends on them.
-/

namespace SharpClient

/-- A note on a run. -/
inductive Note
  /-- Schema files have been read. -/
  | schemaFiles (count : Nat)
  /-- Document files have been read. -/
  | documentFiles (count : Nat)
  /-- A file cannot be read. -/
  | unreadable (file report : Text)
  /-- Generation starts. -/
  | generating (className : Text) (operations fragments : Nat) (typesafe : Bool)
  /-- A fragment is compiled. -/
  | fragment (name on : Text)
  /-- An operation is compiled. -/
  | operation (name : Option Text)
  /-- The answer of an operation is compiled. -/
  | response (kind : OperationKind) (name : Text)
  /-- Several selections of one key become one. -/
  | merging (count : Nat) (key : Text)
  /-- The file has been written. -/
  | wrote (path : Text)
  deriving DecidableEq, Repr

namespace Note

/-- The part of the program that a note comes from. -/
def origin : Note → Text
  | schemaFiles _ | documentFiles _ | unreadable .. => "gql_csgen.core.parser"
  | generating .. | operation _ | wrote _ => "gql_csgen.core.generator"
  | fragment .. | merging .. => "gql_csgen.core.selection"
  | response .. => "gql_csgen.core.operations"

/-- What a note says. -/
def message : Note → Text
  | schemaFiles n => "Parsed " ++ Text.decimal n ++ " schema files"
  | documentFiles n => "Parsed " ++ Text.decimal n ++ " document files"
  | unreadable file report => "Error parsing " ++ file ++ ": " ++ report
  | generating name operations fragments typesafe =>
    "Generating " ++ name ++ ": " ++ Text.decimal operations ++ " operations, "
      ++ Text.decimal fragments ++ " fragments (typesafe="
      ++ (if typesafe then "True" else "False") ++ ")"
  | fragment name on => "Compiling fragment " ++ name ++ " on " ++ on
  | operation name => "Compiling operation " ++ name.getD "None"
  | response kind name => "Compiling response of " ++ kind.keyword ++ " " ++ name
  | merging n key => "Merging " ++ Text.decimal n ++ " selections of " ++ key
  | wrote path => "Wrote " ++ path

/-- A note with its origin. -/
def line (n : Note) : Text :=
  n.origin ++ ": " ++ n.message

end Note

/-- The notes on a part of a run, and whether the run goes on after it. -/
structure Trace where
  /-- The notes. -/
  notes : List Note
  /-- Whether the run goes on. -/
  goesOn : Bool

namespace Trace

/-- A part that can fail, without notes. -/
def ofResult {α : Type} : Except GenerationError α → Trace
  | .ok _ => ⟨[], true⟩
  | .error _ => ⟨[], false⟩

/-- A note, and then the rest. -/
def note (n : Note) (rest : Trace) : Trace :=
  { rest with notes := n :: rest.notes }

/-- A part, and the next one if the run goes on. -/
def andThen (a : Trace) (b : Trace) : Trace :=
  if a.goesOn then ⟨a.notes ++ b.notes, b.goesOn⟩ else a

/-- Parts in order, up to the first that ends the run. -/
def all (traces : List Trace) : Trace :=
  traces.foldr andThen ⟨[], true⟩

end Trace

namespace SelectionContext

/-- Notes on a group of fields, where `nest` gives the notes on a nested class. -/
def groupTrace (c : SelectionContext) (nest : List Selection → TypeDefinition → Trace)
    (parent : TypeDefinition) (g : FieldGroup) : Trace :=
  let f := g.merged
  let compiled : Trace :=
    match fieldType parent f.name with
    | .error _ => ⟨[], false⟩
    | .ok type =>
      if f.selections.isEmpty then ⟨[], true⟩
      else
        match soleSpread? f.selections with
        | some name => Trace.ofResult (c.fragments.get name)
        | none =>
          match c.coreType type with
          | .error _ => ⟨[], false⟩
          | .ok inner => nest f.selections inner
  if g.more.isEmpty then compiled else compiled.note (.merging g.fields.length g.key)

/-- Notes on a class, with classes nested at most as deep as the first argument says. -/
def classTraceWithin (c : SelectionContext) : Nat → List Selection → TypeDefinition → Trace
  | 0, _, _ => ⟨[], false⟩
  | limit + 1, selections, parent =>
    match collectFields c.fragments parent.name selections with
    | .error _ => ⟨[], false⟩
    | .ok groups => Trace.all (groups.map (c.groupTrace (c.classTraceWithin limit) parent))

/-- Notes on the class of an operation or a fragment. -/
def rootTrace (c : SelectionContext) (selections : List Selection) (parent : TypeDefinition) :
    Trace :=
  if selections.all Selection.isField then c.classTraceWithin c.limit selections parent
  else ⟨[], false⟩

/-- Notes on the class of a fragment. -/
def fragmentTrace (c : SelectionContext) (f : Fragment) : Trace :=
  match c.schema.type? f.on with
  | none => ⟨[], false⟩
  | some parent => (c.rootTrace f.definition.selections parent).note (.fragment f.name f.on)

end SelectionContext

namespace OperationContext

/-- Notes on the class of an operation's answer. -/
def responseTrace (c : OperationContext) (o : Operation) : Trace :=
  match c.rootType o with
  | .error _ => ⟨[], false⟩
  | .ok root => (c.rootTrace o.selections root).note (.response o.kind (o.name.getD []))

/-- Notes on an operation. -/
def operationTrace (c : OperationContext) (o : Operation) : Trace :=
  Trace.note (.operation o.name) <|
    Trace.all [Trace.ofResult (c.methods o), Trace.ofResult (c.requestClass o), c.responseTrace o]

end OperationContext

namespace Generator

/-- Notes on generating the code. -/
def notes (g : Generator) : List Note :=
  let c := g.context
  let fragments :=
    if g.config.typesafeOperation then c.fragments.effective.map c.fragmentTrace else []
  let start : Note :=
    .generating g.config.operationsClassName g.operations.length g.fragments.length
      g.config.typesafeOperation
  (Trace.note start (Trace.all (fragments ++ g.operations.map c.operationTrace))).notes

end Generator

end SharpClient

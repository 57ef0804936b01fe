import SharpClient.Config.Basic
import SharpClient.Selection.Compile

/-!
# Classes of operations

An operation that declares variables has a request class, with a property and a constructor
parameter for each of them. Every operation has a response class for its selections on the root
type of its kind. Only named queries, mutations and subscriptions are supported.
-/

namespace SharpClient

/-- What operations are compiled against. -/
structure OperationContext extends SelectionContext where
  /-- The options of the run. -/
  config : Config

namespace Operation

/-- The name of a supported operation. -/
def supportedName (o : Operation) : Except GenerationError Text :=
  match o.kind, o.name with
  | .other keyword, _ => .error (.unknownOperation keyword)
  | _, some (c :: cs) => .ok (c :: cs)
  | _, _ => .error (.unsupported "<anonymous>" .operationDefinition)

end Operation

namespace OperationContext

/-- The root type that an operation selects on. -/
def rootType (c : OperationContext) (o : Operation) : Except GenerationError TypeDefinition := do
  let _ ← o.supportedName
  match c.schema.root? o.kind with
  | some root => return root
  | none => .error (.operationNotFound o.kind.keyword)

/-- The properties of variables, with member names claimed in a scope, and the constructor parameter
for each. -/
def requestMembers (c : OperationContext) :
    Scope → List Variable → Except GenerationError (List (Property × Parameter))
  | _, [] => .ok []
  | scope, v :: vs => do
    let type ← c.resolveWritten v.type v.default.isSome
    let (member, scope) := scope.claim (Naming.member v.name)
    let rest ← c.requestMembers scope vs
    return (⟨v.name, member, type.text⟩, ⟨type.text, Naming.parameter v.name, none⟩) :: rest

/-- The class that holds the variables of an operation, if it declares any. -/
def requestClass (c : OperationContext) (o : Operation) :
    Except GenerationError (Option ClassDecl) := do
  let name ← o.supportedName
  if o.variableDefinitions.isEmpty then return none
  let className := c.convention.requestClass name
  let members ← c.requestMembers (Scope.ofClass className) o.variableDefinitions
  return some
    { name := className
      members := members.map fun (property, _) => .property property
      constructor := some
        { className := className
          parameters := members.map Prod.snd
          assignments := members.map fun (property, parameter) =>
            (property.member, parameter.name) } }

/-- The class that holds the answer of an operation. -/
def responseClass (c : OperationContext) (o : Operation) : Except GenerationError ClassDecl := do
  let root ← c.rootType o
  let name ← o.supportedName
  c.compileRoot (c.convention.responseClass name) o.selections root

end OperationContext

end SharpClient

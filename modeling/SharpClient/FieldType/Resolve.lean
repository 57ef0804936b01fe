import SharpClient.FieldType.Basic
import SharpClient.Document.Printer
import SharpClient.Naming.Convention
import SharpClient.Scalar
import SharpClient.Schema.Basic
import SharpClient.Error

/-!
# Resolving type references

A type reference of the schema becomes the described type of a member. The list wrappers become
layers; a layer, or the element, is required when a non-null wrapper stands directly around it.
Scalars take their mapping, input types and enums their generated name, and the rest keep their
own name.
-/

namespace SharpClient

/-- What the types of members are resolved against. -/
structure TypeContext where
  /-- The schema. -/
  schema : Schema
  /-- The scalar mappings. -/
  scalars : ScalarRegistry
  /-- The naming convention. -/
  convention : Convention

namespace TypeRef

/-- The requiredness of each list wrapper, the outermost first. -/
def layers : TypeRef → List Bool
  | .named _ => []
  | .list t => false :: t.layers
  | .nonNull (.list t) => true :: t.layers
  | .nonNull t => t.layers

/-- Whether a non-null wrapper stands around the name, inside all list wrappers. -/
def coreRequired : TypeRef → Bool
  | .named _ => false
  | .list t => t.coreRequired
  | .nonNull (.list t) => t.coreRequired
  | .nonNull _ => true

end TypeRef

namespace TypeContext

/-- The C# type of values that no mapping describes. -/
def untyped : Text := "object"

/-- The element type for the name of a type. -/
def element (c : TypeContext) (name : Text) (required : Bool) : BaseType :=
  match (c.schema.type? name).map TypeDefinition.body with
  | some .scalar =>
    match c.scalars.get? name with
    | some m => ⟨m.type, required, m.valueType⟩
    | none => ⟨untyped, required, false⟩
  | some (.input _) => ⟨c.convention.typeName name, required, false⟩
  | some (.enum _) => ⟨c.convention.typeName name, required, true⟩
  | _ => ⟨name, required, false⟩

/-- The described type of a type reference. A default makes the outermost layer optional, since the
value may then be left out. -/
def resolve (c : TypeContext) (t : TypeRef) (hasDefault : Bool := false) : FieldType :=
  let described : FieldType := ⟨c.element t.core t.coreRequired, t.layers⟩
  if hasDefault then described.optional else described

/-- The described type of a type that a document writes, which the schema must know. -/
def resolveWritten (c : TypeContext) (t : TypeRef) (hasDefault : Bool := false) :
    Except GenerationError FieldType :=
  match c.schema.type? t.core with
  | some _ => .ok (c.resolve t hasDefault)
  | none => .error (.typeNotFound t.text)

end TypeContext

end SharpClient

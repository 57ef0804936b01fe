import SharpClient.Text.Basic

/-!
# Scalar mappings

Which C# type stands for a scalar of the schema, and whether that type is a value type, so that
an optional value is written with `?`. A registry starts with the standard scalars; a mapping
registered later for the same scalar takes precedence.
-/

namespace SharpClient

/-- The built-in C# types with value semantics. -/
def valueTypes : List Text :=
  List.map String.toList
    ["bool", "byte", "sbyte", "char", "decimal", "double", "float", "int", "uint", "long",
      "ulong", "short", "ushort", "DateTime"]

/-- How one scalar is represented. -/
structure ScalarMapping where
  /-- The C# type. -/
  type : Text
  /-- Whether the C# type has value semantics. -/
  valueType : Bool
  deriving DecidableEq, Repr

namespace ScalarMapping

/-- The mapping to a C# type; without an explicit choice the type is a value type exactly when it
is a built-in one. -/
def ofType (type : Text) (valueType : Option Bool := none) : ScalarMapping :=
  ⟨type, valueType.getD (decide (type ∈ valueTypes))⟩

end ScalarMapping

/-- The scalar mappings of a run, the one in force first. -/
structure ScalarRegistry where
  /-- Scalar names with their mappings; the first entry for a name is in force. -/
  entries : List (Text × ScalarMapping)
  deriving DecidableEq, Repr

namespace ScalarRegistry

/-- The mapping in force for a scalar. -/
def get? (r : ScalarRegistry) (scalar : Text) : Option ScalarMapping :=
  r.entries.lookup scalar

/-- Whether the scalar has a mapping. -/
def contains (r : ScalarRegistry) (scalar : Text) : Bool :=
  (r.get? scalar).isSome

/-- The registry with `m` in force for the scalar. -/
def register (r : ScalarRegistry) (scalar : Text) (m : ScalarMapping) : ScalarRegistry :=
  ⟨(scalar, m) :: r.entries⟩

/-- The mappings of the standard scalars, and of `Date`. -/
def standard : ScalarRegistry :=
  ⟨[("ID", .ofType "string"), ("String", .ofType "string"), ("Boolean", .ofType "bool"),
    ("Int", .ofType "int"), ("Float", .ofType "double"), ("Date", .ofType "DateTime")]⟩

/-- The standard mappings overlaid with further ones, in order. -/
def ofMappings (mappings : List (Text × ScalarMapping)) : ScalarRegistry :=
  mappings.foldl (fun r m => r.register m.1 m.2) standard

end ScalarRegistry

end SharpClient

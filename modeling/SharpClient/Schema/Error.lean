import SharpClient.Document.Parser
import SharpClient.Document.Printer
import SharpClient.Schema.Coercion
import SharpClient.Schema.Rules

/-!
# Why no schema can be built

Either the document violates rules, or a built-in directive is applied with arguments that it does
not take. The latter is found at a place of the source. When it is found while the fields of a type
are settled, the error tells whose fields these are, and the place is part of its message only.
-/

namespace SharpClient

/-! ### Arguments of built-in directives -/

/-- What is wrong with an argument of an applied directive. -/
inductive ArgumentFault
  /-- A required argument is not given to the directive that stands here. -/
  | missing (argument : Text) (type : TypeRef) (place : Place)
  /-- `null`, which stands here, is given where a value is required. -/
  | null (argument : Text) (type : TypeRef) (place : Place)
  /-- The type of the argument does not admit the value, which stands here. -/
  | unsuitable (argument : Text) (value : Value) (place : Place)
  deriving Repr

namespace ArgumentFault

/-- The message of the fault. -/
def message : ArgumentFault → Text
  | missing argument type _ =>
    "Argument '" ++ argument ++ "' of required type '" ++ type.text ++ "' was not provided."
  | null argument type _ =>
    "Argument '" ++ argument ++ "' of non-null type '" ++ type.text ++ "' must not be null."
  | unsuitable argument value _ =>
    "Argument '" ++ argument ++ "' has invalid value " ++ value.text ++ "."

/-- Where the fault is. -/
def place : ArgumentFault → Place
  | missing _ _ place | null _ _ place | unsuitable _ _ place => place

/-- The fault at its place. -/
def located (f : ArgumentFault) : LocatedError :=
  f.place.error f.message

end ArgumentFault

namespace PlacedDirective

/-- What is wrong with an argument of the directive, whose type is a scalar. -/
def faultOf? (d : PlacedDirective) (argument : InputValue) : Option ArgumentFault :=
  match (d.directive.arguments.zip d.valuePlaces).find? (·.1.name = argument.name) with
  | none =>
    if argument.default.isNone && argument.type.isRequired then
      some (.missing argument.name argument.type d.place)
    else none
  | some (⟨_, .null⟩, place) =>
    if argument.type.isRequired then some (.null argument.name argument.type place) else none
  | some (⟨_, value⟩, place) =>
    if value.suitsScalar argument.type.core then none
    else some (.unsuitable argument.name value place)

/-- What is wrong with the first application of a directive among others. Later applications are
not looked at. -/
def fault? (definition : DirectiveDefinition) (ds : List PlacedDirective) : Option ArgumentFault :=
  (ds.find? (·.directive.name = definition.name)).bind fun d =>
    definition.arguments.findSome? d.faultOf?

end PlacedDirective

/-! ### Errors -/

/-- Why no schema can be built. -/
inductive SchemaError
  /-- The document violates rules. -/
  | invalid (faults : List SchemaFault)
  /-- An argument of a built-in directive is wrong. It was met while the fields of these types were
  settled, the outermost first. -/
  | argument (owners : List Text) (fault : ArgumentFault)
  deriving Repr

namespace SchemaError

/-- The error when it is met while the fields of a type are settled. -/
def within (owner : Text) : SchemaError → SchemaError
  | invalid faults => invalid faults
  | argument owners fault => argument (owner :: owners) fault

/-- What precedes the message of an error in the fields of a type. -/
def unresolvedOwner (owner : Text) : Text :=
  owner ++ " fields cannot be resolved. "

/-- The message of an error in the fields of these types. -/
def unresolved (owners : List Text) (message : Text) : Text :=
  owners.flatMap unresolvedOwner ++ message

/-- The message of the error. What rules a document violates is not told. -/
def message : SchemaError → Text
  | invalid _ => []
  | argument [] fault => fault.message
  | argument owners fault => unresolved owners fault.located.report

/-- The line and column of the error, when it was met outside the fields of a type. -/
def location? : SchemaError → Option Location
  | argument [] fault => some fault.located.location
  | _ => none

/-- The error for a human reader. -/
def report : SchemaError → Text
  | invalid _ => []
  | argument owners fault => unresolved owners fault.located.report

end SchemaError

end SharpClient

import SharpClient.Schema.Basic
import SharpClient.Schema.Error

/-!
# Settling types

The parts of a schema are settled one by one, and the first error ends it. Settling the fields of an
input type decides which defaults count: those that the field can take. Whether it can is decided by
the type: for a list either a list of items or a single one, and for an input type an object that
gives every required field. The default of a nested input type's field stands in for a field that is
not given, so a default may need the fields of another input type, which are settled first and then
kept. Input types whose defaults need one another without end are refused.

The order can be observed, because it decides which error is met first: enums and scalars, then
directives, then the fields of all types; in a field its arguments, then its directives, then its
type; in an argument or an input field the default, then the directives, then the type.
-/

namespace SharpClient

/-- What becomes of a literal where a type is wanted. -/
inductive Admission
  /-- The type does not admit it. -/
  | refused
  /-- It stands for the absence of a value. -/
  | absent
  /-- It stands for a value. -/
  | present
  deriving DecidableEq, Repr

/-- A settled argument or input field. -/
structure SettledInput where
  /-- The definition, with its default only if that counts. -/
  definition : InputValue
  /-- What becomes of the default, if there is one that counts. -/
  default : Option Admission
  deriving Repr

/-- The input types whose fields are settled. -/
abbrev SettledTypes := List (Text × List SettledInput)

/-- A step of settling. -/
abbrev Settling := StateT SettledTypes (Except SchemaError)

namespace Settling

variable {α : Type}

/-- A step among the fields of a type: its errors tell so. -/
def within (owner : Text) (step : Settling α) : Settling α := fun settled =>
  (step settled).mapError (·.within owner)

/-- Refuses a rule's violation. -/
def refuse (fault : SchemaFault) : Settling α :=
  throw (.invalid [fault])

/-- Requires something. -/
def require (condition : Bool) (fault : SchemaFault) : Settling Unit :=
  if condition then pure () else refuse fault

/-- Requires that the arguments of a built-in directive are right where it is applied. -/
def checkDirective (definition : DirectiveDefinition) (ds : List PlacedDirective) :
    Settling Unit :=
  match PlacedDirective.fault? definition ds with
  | none => pure ()
  | some fault => throw (.argument [] fault)

/-! ### Literals -/

/-- How a literal is judged: what becomes of it where a type is wanted. -/
abbrev Judge := TypeRef → Settling Admission

/-- How the fields of an input type are come by. -/
abbrev FieldsOf := Text → Settling (List SettledInput)

/-- What becomes of `null`. -/
def judgeNull : TypeRef → Admission
  | .nonNull _ => .refused
  | _ => .absent

/-- `present` if the literal is admitted. -/
def admitted (b : Bool) : Admission :=
  if b then .present else .refused

/-- Whether exactly one field of a value of the type must be given. -/
def isOneOf (t : TypeDefinition) : Bool :=
  t.directives.any (·.directive.name = Standard.oneOf.name)

/-- `present` if no item is refused. The items after a refused one are not judged. -/
def judgeItems (t : TypeRef) : List Judge → Settling Admission
  | [] => return .present
  | judge :: rest => do
    if (← judge t) = .refused then return .refused else judgeItems t rest

/-- What becomes of the fields that an object gives, or that have a default, in the order of their
definitions; nothing if one is refused or missing. The fields after such a one are not judged. -/
def judgeFields (given : List (Text × Judge)) :
    List SettledInput → Settling (Option (List Admission))
  | [] => return some []
  | f :: rest => do
    match given.lookup f.definition.name, f.default with
    | some judge, _ =>
      let a ← judge f.definition.type
      if a = .refused then return none else return (← judgeFields given rest).map (a :: ·)
    | none, some a => return (← judgeFields given rest).map (a :: ·)
    | none, none =>
      if f.definition.type.isRequired then return none else judgeFields given rest

/-- What becomes of an object with these fields where an input type is wanted. -/
def judgeObject (fieldsOf : FieldsOf) (t : TypeDefinition) (given : List (Text × Judge)) :
    Settling Admission := do
  match ← judgeFields given (← fieldsOf t.name) with
  | none => return .refused
  | some admissions => return admitted (!isOneOf t || admissions = [.present])

/-- What becomes of a literal other than `null` where the type of a name is wanted; `given` are the
fields if it is an object. -/
def judgeNamed (types : List TypeDefinition) (fieldsOf : FieldsOf) (literal : Value)
    (given : Option (List (Text × Judge))) (name : Text) : Settling Admission :=
  match findType? types name with
  | none => return .refused
  | some t =>
    match t.body with
    | .scalar => return admitted (literal.suitsScalar name)
    | .enum values => return admitted (literal.suitsEnum (values.map (·.name)))
    | .input _ =>
      match given with
      | none => return .refused
      | some given => judgeObject fieldsOf t given
    | _ => refuse (.notAnInput name name)

/-- What becomes of a literal other than `null`; `items` are its items if it is a list, and `given`
its fields if it is an object. -/
def judgeWritten (types : List TypeDefinition) (fieldsOf : FieldsOf) (literal : Value)
    (items : Option (List Judge)) (given : Option (List (Text × Judge))) : Judge
  | .nonNull t => judgeWritten types fieldsOf literal items given t
  | .list t => do
    match items with
    | some items => judgeItems t items
    | none =>
      return admitted ((← judgeWritten types fieldsOf literal items given t) ≠ .refused)
  | .named name => judgeNamed types fieldsOf literal given name

mutual

/-- How a literal is judged. -/
def judge (types : List TypeDefinition) (fieldsOf : FieldsOf) : Value → Judge
  | .null => fun t => return judgeNull t
  | .list items =>
    judgeWritten types fieldsOf (.list items) (some (judges types fieldsOf items)) none
  | .object fields =>
    judgeWritten types fieldsOf (.object fields) none (some (fieldJudges types fieldsOf fields))
  | literal => judgeWritten types fieldsOf literal none none

/-- How literals are judged. -/
def judges (types : List TypeDefinition) (fieldsOf : FieldsOf) : List Value → List Judge
  | [] => []
  | v :: vs => judge types fieldsOf v :: judges types fieldsOf vs

/-- How the fields of an object literal are judged. -/
def fieldJudges (types : List TypeDefinition) (fieldsOf : FieldsOf) :
    List (Text × Value) → List (Text × Judge)
  | [] => []
  | (name, v) :: rest => (name, judge types fieldsOf v) :: fieldJudges types fieldsOf rest

end

/-! ### Inputs -/

/-- Whether the type of this name is of a kind. -/
def isOfKind (types : List TypeDefinition) (kind : TypeDefinition → Bool) (name : Text) : Bool :=
  ((findType? types name).map kind).getD false

/-- What becomes of a default, unless it is refused. -/
def settleDefault (types : List TypeDefinition) (fieldsOf : FieldsOf) (type : TypeRef) :
    Option Value → Settling (Option Admission)
  | none => return none
  | some literal => do
    let a ← judge types fieldsOf literal type
    return if a = .refused then none else some a

/-- Settles an argument or an input field. -/
def settleInput (types : List TypeDefinition) (fieldsOf : FieldsOf) (owner : Text)
    (v : InputValue) : Settling SettledInput := do
  let default ← settleDefault types fieldsOf v.type v.default
  checkDirective Standard.deprecated v.directives
  require (isOfKind types (·.isInput) v.type.core) (.notAnInput owner v.name)
  return ⟨{ v with default := if default.isSome then v.default else none }, default⟩

/-- The settled fields of an input type. Their defaults may need the fields of further input types,
at most `room` of them on the way down; needing more means that there is no end. -/
def inputFieldsWithin (types : List TypeDefinition) : (room : Nat) → FieldsOf
  | 0, name => refuse (.endlessDefault name)
  | room + 1, name => do
    match (← get).lookup name with
    | some fields => return fields
    | none =>
      let written := ((findType? types name).bind (·.inputFields?)).getD []
      let fields ← within name
        (written.mapM (settleInput types (inputFieldsWithin types room) name))
      modify ((name, fields) :: ·)
      return fields

/-- The settled fields of an input type. -/
def inputFields (types : List TypeDefinition) : FieldsOf :=
  inputFieldsWithin types (types.length + 1)

/-! ### Types and directives -/

/-- Settles what an enum or a scalar says about itself. -/
def settleLeaf (t : TypeDefinition) : Settling Unit :=
  match t.body with
  | .enum values => values.forM fun v => checkDirective Standard.deprecated v.directives
  | .scalar => checkDirective Standard.specifiedBy t.directives
  | _ => pure ()

/-- Settles arguments. -/
def settleArguments (types : List TypeDefinition) (owner : Text) (vs : List InputValue) :
    Settling Unit :=
  vs.forM fun v => do
    let _ ← settleInput types (inputFields types) owner v

/-- Settles a field of an object or interface type. -/
def settleField (types : List TypeDefinition) (owner : Text) (f : FieldDefinition) :
    Settling Unit := do
  settleArguments types f.name f.arguments
  checkDirective Standard.deprecated f.directives
  require (isOfKind types (·.isOutput) f.type.core) (.notAnOutput owner f.name)

/-- Settles what a type refers to. -/
def settleType (types : List TypeDefinition) (t : TypeDefinition) : Settling Unit :=
  match t.body with
  | .scalar | .enum _ => pure ()
  | .union members =>
    members.forM fun m =>
      require (isOfKind types (fun u => Rules.typeLocation u.body = .object) m)
        (.notAnObject t.name m)
  | .object interfaces fields | .interface interfaces fields => do
    interfaces.forM fun i =>
      require (isOfKind types (fun u => Rules.typeLocation u.body = .interface) i)
        (.notAnInterface t.name i)
    within t.name (fields.forM (settleField types t.name))
  | .input _ => do
    let _ ← inputFields types t.name

/-- Settles the types `own` and the directives, where `types` are all types. -/
def settleAll (types own : List TypeDefinition) (directives : List DirectiveDefinition) :
    Settling Unit := do
  own.forM settleLeaf
  directives.forM fun d => settleArguments types d.name d.arguments
  own.forM (settleType types)

end Settling

namespace SettledTypes

/-- A type with its fields as they are settled. -/
def apply (settled : SettledTypes) (t : TypeDefinition) : TypeDefinition :=
  match t.body, settled.lookup t.name with
  | .input _, some fields => { t with body := .input (fields.map (·.definition)) }
  | _, _ => t

end SettledTypes

end SharpClient

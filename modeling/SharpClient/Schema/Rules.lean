import SharpClient.Schema.Basic
import SharpClient.Schema.Standard

/-!
# Rules of a valid type system

What a document must obey before a schema is built from it:

* names are defined once: types, directives, and inside them fields, values and arguments, with
  extensions counted in; there is one schema definition and one root type for each kind;
* every type that is referred to is defined or built in; in the operations and fragments of the
  document only the types that the document defines count;
* every directive that is applied is known, stands where it may, has known arguments once each and
  all required ones, and is not repeated unless it may be;
* an extension extends a type of its own kind that the document defines;
* an object literal gives no field twice.

Each rule lists its violations; the order of the rules does not matter to anyone. What a schema may
still violate after these rules is found while its types are settled.
-/

namespace SharpClient

/-- A violation of the rules of a type system. -/
inductive SchemaFault
  | severalSchemas
  | repeatedRoot (kind : OperationKind)
  | repeatedType (name : Text)
  | repeatedValue (type value : Text)
  | repeatedField (type field : Text)
  | repeatedArgument (owner argument : Text)
  | repeatedDefinition (directive : Text)
  | unknownType (name : Text)
  | unknownDirective (name : Text)
  | misplacedDirective (name : Text)
  | repeatedDirective (name : Text)
  | unknownArgument (directive argument : Text)
  | missingArgument (directive argument : Text)
  | unknownExtension (type : Text)
  | mismatchedExtension (type : Text)
  | repeatedKey (key : Text)
  | notAnObject (union member : Text)
  | notAnInterface (type interface : Text)
  | notAnOutput (type field : Text)
  | notAnInput (owner name : Text)
  | endlessDefault (type : Text)
  deriving DecidableEq, Repr

namespace Rules

/-- The items that occur again later. -/
def repeats {α : Type} [DecidableEq α] : List α → List α
  | [] => []
  | x :: xs => if x ∈ xs then x :: repeats xs else repeats xs

/-! ### The parts of a document -/

/-- The type definitions of a document. -/
def typeDefinitions (d : Document) : List TypeDefinition :=
  d.definitions.filterMap fun
    | .type t => some t
    | _ => none

/-- The type extensions of a document. -/
def typeExtensions (d : Document) : List TypeDefinition :=
  d.definitions.filterMap fun
    | .typeExtension t => some t
    | _ => none

/-- The type definitions and extensions of a document. -/
def typeParts (d : Document) : List TypeDefinition :=
  typeDefinitions d ++ typeExtensions d

/-- The schema definitions of a document. -/
def schemaDefinitions (d : Document) : List SchemaDefinition :=
  d.definitions.filterMap fun
    | .schema s => some s
    | _ => none

/-- The schema extensions of a document. -/
def schemaExtensions (d : Document) : List SchemaDefinition :=
  d.definitions.filterMap fun
    | .schemaExtension s => some s
    | _ => none

/-- The schema definitions and extensions of a document. -/
def schemaParts (d : Document) : List SchemaDefinition :=
  schemaDefinitions d ++ schemaExtensions d

/-- The directive definitions of a document. -/
def directiveDefinitions (d : Document) : List DirectiveDefinition :=
  d.definitions.filterMap fun
    | .directive x => some x
    | _ => none

/-! ### Names are defined once -/

/-- The names of the fields of a type, of whatever kind. -/
def fieldNames (t : TypeDefinition) : List Text :=
  match t.body with
  | .object _ fields | .interface _ fields => fields.map (·.name)
  | .input fields => fields.map (·.name)
  | _ => []

/-- The argument lists that a type defines, each with its owner. -/
def argumentLists (t : TypeDefinition) : List (Text × List InputValue) :=
  (t.fields?.getD []).map fun f => (t.name ++ "." ++ f.name, f.arguments)

/-- Violations of the rule that names are defined once. -/
def nameFaults (d : Document) : List SchemaFault :=
  (if 1 < (schemaDefinitions d).length then [.severalSchemas] else []) ++
    (repeats ((schemaParts d).flatMap fun s => s.roots.map (·.1))).map .repeatedRoot ++
    (repeats ((typeDefinitions d).map (·.name))).map .repeatedType ++
    (repeats ((typeParts d).flatMap fun t => (t.enumValues?.getD []).map (t.name, ·))).map
      (fun p => .repeatedValue p.1 p.2) ++
    (repeats ((typeParts d).flatMap fun t => (fieldNames t).map (t.name, ·))).map
      (fun p => .repeatedField p.1 p.2) ++
    ((typeParts d).flatMap argumentLists ++
        (directiveDefinitions d).map fun x => (x.name, x.arguments)).flatMap
      (fun p => (repeats (p.2.map (·.name))).map (.repeatedArgument p.1)) ++
    (repeats ((directiveDefinitions d).map (·.name))).map .repeatedDefinition

/-! ### Types that are referred to -/

/-- The types that input values refer to. -/
def inputReferences (vs : List InputValue) : List Text :=
  vs.map (·.type.core)

/-- The types that a type refers to, in the order in which they are met. -/
def typeReferences (t : TypeDefinition) : List Text :=
  match t.body with
  | .scalar | .enum _ => []
  | .object interfaces fields | .interface interfaces fields =>
    interfaces ++ fields.flatMap fun f => f.type.core :: inputReferences f.arguments
  | .union members => members
  | .input fields => inputReferences fields

mutual

/-- The type conditions inside a selection. -/
def conditionsIn : Selection → List Text
  | .field _ _ _ _ selections => conditionsInAll selections
  | .spread .. => []
  | .inline on _ selections => on.toList ++ conditionsInAll selections

/-- The type conditions inside selections. -/
def conditionsInAll : List Selection → List Text
  | [] => []
  | s :: ss => conditionsIn s ++ conditionsInAll ss

end

/-- The types that the type system part of a document refers to. -/
def systemReferences (d : Document) : List Text :=
  (schemaParts d).flatMap (fun s => s.roots.map (·.2)) ++
    (typeParts d).flatMap typeReferences ++
    (directiveDefinitions d).flatMap fun x => inputReferences x.arguments

/-- The types that the operations and fragments of a document refer to. -/
def executableReferences (d : Document) : List Text :=
  d.operations.flatMap (fun o =>
      o.variableDefinitions.map (·.type.core) ++ conditionsInAll o.selections) ++
    d.fragments.flatMap fun f => f.on :: conditionsInAll f.selections

/-- Violations of the rule that types are known. -/
def referenceFaults (d : Document) : List SchemaFault :=
  let defined := (typeDefinitions d).map (·.name)
  let builtIn := Standard.types.map (·.name)
  ((systemReferences d).filter (· ∉ defined ++ builtIn)).map .unknownType ++
    ((executableReferences d).filter (· ∉ defined)).map .unknownType

/-! ### Directives -/

/-- A place with the directives applied there. -/
abbrev Site := DirectiveLocation × List Directive

mutual

/-- The places inside a selection. -/
def sitesIn : Selection → List Site
  | .field _ _ _ directives selections => (.field, directives) :: sitesInAll selections
  | .spread _ directives => [(.fragmentSpread, directives)]
  | .inline _ directives selections => (.inlineFragment, directives) :: sitesInAll selections

/-- The places inside selections. -/
def sitesInAll : List Selection → List Site
  | [] => []
  | s :: ss => sitesIn s ++ sitesInAll ss

end

/-- A place in a type system. -/
def systemSite (location : DirectiveLocation) (directives : List PlacedDirective) : Site :=
  (location, directives.map (·.directive))

/-- The places of input values. -/
def inputSites (location : DirectiveLocation) (vs : List InputValue) : List Site :=
  vs.map fun v => systemSite location v.directives

/-- The place of a type itself. -/
def typeLocation : TypeBody → DirectiveLocation
  | .scalar => .scalar
  | .object .. => .object
  | .interface .. => .interface
  | .union _ => .union
  | .enum _ => .enum
  | .input _ => .inputObject

/-- The places of a type and of its parts. The fields of an extended input type count as
arguments. -/
def memberSites (extension : Bool) (t : TypeDefinition) : List Site :=
  match t.body with
  | .scalar | .union _ => []
  | .object _ fields | .interface _ fields =>
    fields.flatMap fun f =>
      systemSite .fieldDefinition f.directives :: inputSites .argumentDefinition f.arguments
  | .enum values => values.map fun v => systemSite .enumValue v.directives
  | .input fields =>
    inputSites (if extension then .argumentDefinition else .inputFieldDefinition) fields

/-- The place of an operation of a kind. -/
def operationLocation : OperationKind → DirectiveLocation
  | .mutation => .mutation
  | .subscription => .subscription
  | _ => .query

/-- The places of a document other than its schema and its types themselves. -/
def innerSites (d : Document) : List Site :=
  d.operations.flatMap (fun o =>
      (operationLocation o.kind, o.directives) ::
        o.variableDefinitions.map (fun v => (.variableDefinition, v.directives)) ++
          sitesInAll o.selections) ++
    d.fragments.flatMap (fun f => (.fragmentDefinition, f.directives) :: sitesInAll f.selections) ++
    (typeDefinitions d).flatMap (memberSites false) ++
    (typeExtensions d).flatMap (memberSites true) ++
    (directiveDefinitions d).flatMap fun x => inputSites .argumentDefinition x.arguments

/-- The places of a document's types, definitions and extensions of one type together. -/
def typeSites (d : Document) : List (List Site) :=
  (typeParts d).map fun t =>
    ((typeParts d).filter (·.name = t.name)).map fun u =>
      systemSite (typeLocation u.body) u.directives

/-- The places of a document, those that share one count of repeated directives together. -/
def siteGroups (d : Document) : List (List Site) :=
  (schemaParts d).map (fun s => systemSite .schema s.directives) :: typeSites d ++
    (innerSites d).map ([·])

/-- The directives in force: those that the document defines, then the built-in ones. -/
def knownDirectives (d : Document) : List DirectiveDefinition :=
  directiveDefinitions d ++ Standard.directives

/-- Violations of an applied directive against its definition. -/
def applicationFaults (known : List DirectiveDefinition) (location : DirectiveLocation)
    (x : Directive) : List SchemaFault :=
  match known.find? (·.name = x.name) with
  | none => [.unknownDirective x.name]
  | some definition =>
    (if location ∈ definition.locations then [] else [.misplacedDirective x.name]) ++
      ((x.arguments.map (·.name)).filter (· ∉ definition.arguments.map (·.name))).map
        (.unknownArgument x.name) ++
      ((definition.arguments.filter fun a => a.default.isNone &&
          (match a.type with
            | .nonNull _ => true
            | _ => false)).filter
        (fun a => a.name ∉ x.arguments.map (·.name))).map fun a => .missingArgument x.name a.name

/-- Whether a directive may be applied only once at a place. -/
def isUnique (known : List DirectiveDefinition) (name : Text) : Bool :=
  ((known.find? (·.name = name)).map (!·.repeatable)).getD false

/-- Violations of the rules about directives. -/
def directiveFaults (d : Document) : List SchemaFault :=
  let known := knownDirectives d
  (siteGroups d).flatMap fun sites =>
    sites.flatMap (fun (location, xs) => xs.flatMap (applicationFaults known location)) ++
      (repeats ((sites.flatMap fun s => s.2.map (·.name)).filter (isUnique known))).map
        .repeatedDirective

/-! ### Extensions -/

/-- Violations of the rule that an extension extends a type of its kind. -/
def extensionFaults (d : Document) : List SchemaFault :=
  (typeExtensions d).flatMap fun t =>
    match findType? (typeDefinitions d) t.name with
    | none => [.unknownExtension t.name]
    | some u =>
      if typeLocation u.body = typeLocation t.body then [] else [.mismatchedExtension t.name]

/-! ### Literals -/

mutual

/-- The keys that object literals inside a value give twice. -/
def repeatedKeys : Value → List Text
  | .list items => repeatedKeysAll items
  | .object fields => repeats (fields.map (·.1)) ++ repeatedKeysFields fields
  | _ => []

/-- The keys that object literals inside values give twice. -/
def repeatedKeysAll : List Value → List Text
  | [] => []
  | v :: vs => repeatedKeys v ++ repeatedKeysAll vs

/-- The keys that object literals inside the fields of an object give twice. -/
def repeatedKeysFields : List (Text × Value) → List Text
  | [] => []
  | (_, v) :: rest => repeatedKeys v ++ repeatedKeysFields rest

end

mutual

/-- The argument lists of the fields inside a selection. -/
def argumentListsIn : Selection → List (Text × List Argument)
  | .field _ name arguments _ selections => (name, arguments) :: argumentListsInAll selections
  | .spread .. => []
  | .inline _ _ selections => argumentListsInAll selections

/-- The argument lists of the fields inside selections. -/
def argumentListsInAll : List Selection → List (Text × List Argument)
  | [] => []
  | s :: ss => argumentListsIn s ++ argumentListsInAll ss

end

/-- The argument lists of a document: of its selected fields and of its applied directives. -/
def appliedArguments (d : Document) : List (Text × List Argument) :=
  d.operations.flatMap (fun o => argumentListsInAll o.selections) ++
    d.fragments.flatMap (fun f => argumentListsInAll f.selections) ++
    (((schemaParts d).flatMap (·.directives) ++
        (typeParts d).flatMap (·.directives)).map (·.directive) ++
      (innerSites d).flatMap (·.2)).map fun x => (x.name, x.arguments)

/-- The input values that a document defines. -/
def inputValues (d : Document) : List InputValue :=
  (typeParts d).flatMap (fun t => (argumentLists t).flatMap (·.2) ++ t.inputFields?.getD []) ++
    (directiveDefinitions d).flatMap (·.arguments)

/-- Violations of the rules about the arguments and literals of a document. -/
def literalFaults (d : Document) : List SchemaFault :=
  let literals := (appliedArguments d).flatMap (fun p => p.2.map (·.value)) ++
    (inputValues d).filterMap (·.default) ++
    d.operations.flatMap fun o => o.variableDefinitions.filterMap (·.default)
  (appliedArguments d).flatMap
      (fun p => (repeats (p.2.map (·.name))).map (.repeatedArgument p.1)) ++
    (repeatedKeysAll literals).map .repeatedKey

/-- Every violation of the rules. -/
def faults (d : Document) : List SchemaFault :=
  nameFaults d ++ referenceFaults d ++ directiveFaults d ++ extensionFaults d ++ literalFaults d

end Rules

end SharpClient

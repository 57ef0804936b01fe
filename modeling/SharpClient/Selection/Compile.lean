import SharpClient.Declaration.Basic
import SharpClient.FieldType.Resolve
import SharpClient.Naming.Scope
import SharpClient.Selection.Collect

/-!
# Classes of selections

A selection set on a type of the schema becomes a class.

* A field without a sub-selection becomes a property.
* A field whose only selection is a spread becomes a property of the fragment's class.
* Any other field becomes a nested class and a property of that class.

Member names are claimed one by one in the scope of the class, a nested class before the property
that has its type.
-/

namespace SharpClient

/-- What selections are compiled against. -/
structure SelectionContext extends TypeContext where
  /-- The fragments that may be spread. -/
  fragments : FragmentTable
  /-- How deep classes may nest. -/
  limit : Nat

/-- The members that one field becomes. -/
structure CompiledField where
  /-- The property. -/
  property : Property
  /-- The class that the property's type names, if the field has one of its own. -/
  nested : Option ClassDecl

namespace CompiledField

/-- The members in order: the class, then the property. -/
def members (f : CompiledField) : List Member :=
  (f.nested.map ClassDecl.toMember).toList ++ [.property f.property]

end CompiledField

/-- The name spread, when the selections are one spread and nothing else. -/
def soleSpread? : List Selection → Option Text
  | [.spread name _] => some name
  | _ => none

/-- The construct of a selection. -/
def Selection.construct : Selection → Construct
  | .field .. => .field
  | .spread .. => .fragmentSpread
  | .inline .. => .inlineFragment

/-- Whether a selection is a field. -/
def Selection.isField : Selection → Bool
  | .field .. => true
  | _ => false

namespace SelectionContext

/-- The field that names the type of a value and exists on every type. -/
def typenameField : Text := "__typename"

/-- The type of a selected field on its parent type. -/
def fieldType (parent : TypeDefinition) (name : Text) : Except GenerationError TypeRef :=
  if name = typenameField then .ok (.nonNull (.named "String"))
  else
    match parent.fields? with
    | none => .error (.unsupported parent.name .field)
    | some fields =>
      match fields.find? (·.name = name) with
      | none => .error (.fieldNotFound name parent.name)
      | some d => .ok d.type

/-- The type of the schema at the core of a type reference. -/
def coreType (c : SelectionContext) (t : TypeRef) : Except GenerationError TypeDefinition :=
  match c.schema.type? t.core with
  | some d => .ok d
  | none => .error (.typeNotFound t.core)

/-- Compiles a field selected on `parent`, where `nest` compiles a class by its name, its
selections and the type they are selected on. -/
def compileFieldWith (c : SelectionContext)
    (nest : Text → List Selection → TypeDefinition → Except GenerationError ClassDecl)
    (parent : TypeDefinition) (scope : Scope) (f : Field) :
    Except GenerationError (CompiledField × Scope) := do
  let type ← fieldType parent f.name
  let described := c.resolve type
  if f.selections.isEmpty then
    let (member, scope) := scope.claim (Naming.member f.key)
    return (⟨⟨f.key, member, described.text⟩, none⟩, scope)
  match soleSpread? f.selections with
  | some name =>
    let fragment ← c.fragments.get name
    let className := c.convention.fragmentClass fragment.name
    let (member, scope) := scope.claim (if described.isList then className ++ "s" else className)
    return (⟨⟨f.key, member, (described.withElement className).text⟩, none⟩, scope)
  | none =>
    let (className, scope) := scope.claim (Naming.resultClass f.key described.isList)
    let nested ← nest className f.selections (← c.coreType type)
    let (member, scope) := scope.claim Naming.resultSuffix
    return (⟨⟨f.key, member, (described.withElement className).text⟩, some nested⟩, scope)

/-- Compiles groups of fields selected on `parent`, in order. -/
def compileGroups (c : SelectionContext)
    (nest : Text → List Selection → TypeDefinition → Except GenerationError ClassDecl)
    (parent : TypeDefinition) : Scope → List FieldGroup → Except GenerationError (List Member)
  | _, [] => .ok []
  | scope, g :: gs => do
    let (compiled, scope) ← c.compileFieldWith nest parent scope g.merged
    let rest ← c.compileGroups nest parent scope gs
    return compiled.members ++ rest

/-- The members for selections on `parent`, with names claimed in a scope, where `nest` compiles a
class. -/
def compileSelectionsWith (c : SelectionContext)
    (nest : Text → List Selection → TypeDefinition → Except GenerationError ClassDecl)
    (selections : List Selection) (parent : TypeDefinition) (scope : Scope) :
    Except GenerationError (List Member) := do
  let groups ← collectFields c.fragments parent.name selections
  c.compileGroups nest parent scope groups

/-- The class of a name for selections on `parent`, with classes nested at most as deep as the first
argument says. -/
def compileClassWithin (c : SelectionContext) :
    Nat → Text → List Selection → TypeDefinition → Except GenerationError ClassDecl
  | 0, _, _, _ => .error .nestingLimit
  | limit + 1, name, selections, parent => do
    let members ←
      c.compileSelectionsWith (c.compileClassWithin limit) selections parent (Scope.ofClass name)
    return ⟨name, members, none⟩

/-- The class of a name for selections on `parent`. -/
def compileClass (c : SelectionContext) :
    Text → List Selection → TypeDefinition → Except GenerationError ClassDecl :=
  c.compileClassWithin c.limit

/-- The members for selections on `parent`, with names claimed in a scope. -/
def compileSelections (c : SelectionContext) (selections : List Selection)
    (parent : TypeDefinition) (scope : Scope) : Except GenerationError (List Member) :=
  c.compileSelectionsWith c.compileClass selections parent scope

/-- The members for one field on `parent`, in a scope. -/
def compileField (c : SelectionContext) (f : Field) (parent : TypeDefinition) (scope : Scope) :
    Except GenerationError CompiledField :=
  (c.compileFieldWith c.compileClass parent scope f).map Prod.fst

/-- The class of an operation or a fragment, whose own selections must be fields. -/
def compileRoot (c : SelectionContext) (name : Text) (selections : List Selection)
    (parent : TypeDefinition) : Except GenerationError ClassDecl :=
  match selections.find? (!·.isField) with
  | some s => .error (.unsupported name s.construct)
  | none => c.compileClass name selections parent

/-- The class of a fragment. -/
def fragmentClass (c : SelectionContext) (f : Fragment) : Except GenerationError ClassDecl :=
  match c.schema.type? f.on with
  | none => .error (.fragmentNotFound f.name)
  | some parent =>
    c.compileRoot (c.convention.fragmentClass f.name) f.definition.selections parent

end SelectionContext

end SharpClient

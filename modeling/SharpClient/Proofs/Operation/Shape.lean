import Mathlib.Data.List.Forall2
import Mathlib.Data.Option.Defs
import SharpClient.Operation.Classes
import SharpClient.Proofs.FieldType.Wrappers
import SharpClient.Proofs.Outcome

/-!
# Shapes of classes

The naming convention and the scalar mappings of a run decide what classes, members, parameters and
element types are called. They decide nothing else: not which members a class has, in which order,
under which keys they stand in the payload, or how many lists are around an element.

This is shown by compiling once more without any names. `ShapeContext` holds what is compiled and
neither convention nor mappings, and gives the shape of each class: for every field its key, what
its elements are, and the number of lists around them. That a class has a shape in a run
(`TypeContext.Realizes`) fixes the text of every type: so many lists around the name that the run
gives to the element. The depth could not be read off the text alone, since a scalar may itself be
mapped to a list.

* Runs are compared by `Alike`: both succeed, with related results, or both are refused, with errors
  that differ at most in the class they name.
* Each step of the class compiler is alike to the step that gives the shape, whatever the scope of
  the class and the name of a nested class are (`compileFieldWith_alike`, `compileGroups_alike`,
  `compileClassWithin_alike`).

`options_keep_shape` compares two runs through the shape that both have.
-/

namespace SharpClient

open Outcome

/-! ### Shapes -/

/-- A value without its names: the type of the schema at its core, whether it is always present, and
the number of lists around it. -/
structure ValueShape where
  /-- The type of the schema. -/
  type : Text
  /-- Whether a value is always present inside the lists. -/
  required : Bool
  /-- The number of lists. -/
  depth : Nat

/-- What a field of a class is without its names. -/
inductive FieldShape
  /-- A value under a key of the payload. -/
  | value (wire : Text) (v : ValueShape)
  /-- Objects of the class of a fragment, inside lists. -/
  | fragment (wire name : Text) (depth : Nat)
  /-- Objects of a class of its own, inside lists. -/
  | object (wire : Text) (depth : Nat) (fields : List FieldShape)

/-- What is left of a class without its names. -/
structure ClassShape where
  /-- The fields, in order. -/
  fields : List FieldShape
  /-- The parameters of the constructor, if there is one. -/
  parameters : Option (List ValueShape) := none

namespace TypeContext

variable (c : TypeContext)

/-- The type of a value, as the run writes it. -/
def valueText (v : ValueShape) : Text :=
  inLists v.depth (FieldType.elementText ⟨c.element v.type v.required, []⟩)

/-- The members are those of the shapes, under the names of the run. An object has its own class in
front of it, and names it. -/
inductive Realizes : List Member → List FieldShape → Prop
  | nil : Realizes [] []
  | value {p : Property} {v : ValueShape} {members : List Member} {fields : List FieldShape}
      (htype : p.type = c.valueText v) (hrest : Realizes members fields) :
      Realizes (.property p :: members) (.value p.wire v :: fields)
  | fragment {p : Property} {name : Text} {depth : Nat} {members : List Member}
      {fields : List FieldShape} (htype : p.type = inLists depth (c.convention.fragmentClass name))
      (hrest : Realizes members fields) :
      Realizes (.property p :: members) (.fragment p.wire name depth :: fields)
  | object {p : Property} {name : Text} {depth : Nat} {inner members : List Member}
      {shapes fields : List FieldShape} (htype : p.type = inLists depth name)
      (hinner : Realizes inner shapes) (hrest : Realizes members fields) :
      Realizes (.nested name inner none :: .property p :: members)
        (.object p.wire depth shapes :: fields)

/-- The constructor has the parameters, and assigns each of them. -/
structure RealizesConstructor (k : Constructor) (values : List ValueShape) : Prop where
  parameters : List.Forall₂ (fun p v => p.type = c.valueText v) k.parameters values
  assignments : k.assignments.length = values.length

/-- The class has the shape, under the names of the run. -/
structure RealizesClass (d : ClassDecl) (s : ClassShape) : Prop where
  members : c.Realizes d.members s.fields
  constructor : Option.Rel c.RealizesConstructor d.constructor s.parameters

variable {c}

theorem Realizes.append {members members' : List Member} {fields fields' : List FieldShape}
    (h : c.Realizes members fields) (h' : c.Realizes members' fields') :
    c.Realizes (members ++ members') (fields ++ fields') := by
  induction h with
  | nil => exact h'
  | value htype hrest ih => exact .value htype ih
  | fragment htype hrest ih => exact .fragment htype ih
  | object htype hinner hrest _ ih => exact .object htype hinner ih

end TypeContext

/-! ### Types -/

namespace TypeRef

/-- The value of a type reference. With a default it may be left out. -/
def valueShape (t : TypeRef) (hasDefault : Bool) : ValueShape :=
  ⟨t.core, t.coreRequired && !(hasDefault && t.layers.isEmpty), t.depth⟩

end TypeRef

namespace TypeContext

variable (c : TypeContext)

theorem text_resolve (t : TypeRef) (hasDefault : Bool) :
    (c.resolve t hasDefault).text = c.valueText (t.valueShape hasDefault) := by
  have helement : (c.resolve t hasDefault).elementText = FieldType.elementText
      ⟨c.element t.core (t.coreRequired && !(hasDefault && t.layers.isEmpty)), []⟩ := by
    cases hasDefault with
    | false =>
      rw [Bool.false_and, Bool.not_false, Bool.and_true]
      rfl
    | true =>
      -- A default makes the element optional only where there is no list around it.
      rw [resolve, if_pos rfl, FieldType.optional]
      cases t.layers with
      | nil =>
        rw [List.isEmpty_nil, Bool.and_self, Bool.not_true, Bool.and_false, ← element_optional]
      | cons layer layers =>
        rw [List.isEmpty_cons, Bool.and_false, Bool.not_false, Bool.and_true]
        rfl
  rw [FieldType.text_eq_inLists, listDepth_resolve, helement]
  rfl

end TypeContext

/-! ### Compiling without names -/

/-- What the shape of classes depends on. -/
structure ShapeContext where
  /-- The schema. -/
  schema : Schema
  /-- The fragments that may be spread. -/
  fragments : FragmentTable
  /-- How deep classes may nest. -/
  limit : Nat

namespace ShapeContext

variable (k : ShapeContext)

/-- The type of the schema at the core of a type reference. -/
def coreType (t : TypeRef) : Except GenerationError TypeDefinition :=
  match k.schema.type? t.core with
  | some d => .ok d
  | none => .error (.typeNotFound t.core)

/-- The shape of a field, where `nest` gives those of the fields of a nested class. -/
def field (nest : List Selection → TypeDefinition → Except GenerationError (List FieldShape))
    (parent : TypeDefinition) (f : Field) : Except GenerationError FieldShape := do
  let type ← SelectionContext.fieldType parent f.name
  if f.selections.isEmpty then
    return .value f.key (type.valueShape false)
  match soleSpread? f.selections with
  | some name =>
    let fragment ← k.fragments.get name
    return .fragment f.key fragment.name type.depth
  | none =>
    let fields ← nest f.selections (← k.coreType type)
    return .object f.key type.depth fields

/-- The shapes of the fields for groups of fields. -/
def groups (nest : List Selection → TypeDefinition → Except GenerationError (List FieldShape))
    (parent : TypeDefinition) : List FieldGroup → Except GenerationError (List FieldShape)
  | [] => .ok []
  | g :: gs => do
    let shape ← k.field nest parent g.merged
    let rest ← groups nest parent gs
    return shape :: rest

/-- The shapes of the fields for selections on `parent`, with classes nested at most as deep as the
first argument says. -/
def fieldsWithin : Nat → List Selection → TypeDefinition → Except GenerationError (List FieldShape)
  | 0, _, _ => .error .nestingLimit
  | limit + 1, selections, parent => do
    let collected ← collectFields k.fragments parent.name selections
    k.groups (fieldsWithin limit) parent collected

/-- The shape of the class of an operation or a fragment. -/
def root (selections : List Selection) (parent : TypeDefinition) :
    Except GenerationError ClassShape :=
  match selections.find? (!·.isField) with
  | some s => .error (.unsupported [] s.construct)
  | none => (k.fieldsWithin k.limit selections parent).map fun fields => { fields }

/-- The shape of the class of a fragment. -/
def fragment (f : Fragment) : Except GenerationError ClassShape :=
  match k.schema.type? f.on with
  | none => .error (.fragmentNotFound f.name)
  | some parent => k.root f.definition.selections parent

/-- The shape of the class that holds the answer of an operation. -/
def response (o : Operation) : Except GenerationError ClassShape := do
  let _ ← o.supportedName
  match k.schema.root? o.kind with
  | some parent => k.root o.selections parent
  | none => .error (.operationNotFound o.kind.keyword)

/-- The key and the value of a variable, whose type the schema must know. -/
def variableShape (v : Variable) : Except GenerationError (Text × ValueShape) :=
  match k.schema.type? v.type.core with
  | some _ => .ok (v.name, v.type.valueShape v.default.isSome)
  | none => .error (.typeNotFound v.type.text)

/-- The shape of the class that holds the variables of an operation, if it declares any. -/
def request (o : Operation) : Except GenerationError (Option ClassShape) := do
  let _ ← o.supportedName
  if o.variableDefinitions.isEmpty then return none
  let shapes ← o.variableDefinitions.mapM k.variableShape
  return some
    { fields := shapes.map fun (wire, value) => .value wire value
      parameters := some (shapes.map Prod.snd) }

end ShapeContext

/-! ### Runs that end alike -/

/-- The error without the owner of an unsupported construct, which may be a generated class. -/
def GenerationError.withoutOwner : GenerationError → GenerationError
  | .unsupported _ construct => .unsupported [] construct
  | e => e

/-- Both runs succeed, with related results, or both are refused, with the same error but for the
class that it may name. -/
inductive Alike {α β : Type} (R : α → β → Prop) :
    Except GenerationError α → Except GenerationError β → Prop
  | ok {a : α} {b : β} (h : R a b) : Alike R (.ok a) (.ok b)
  | error {e e' : GenerationError} (h : e.withoutOwner = e'.withoutOwner) :
      Alike R (.error e) (.error e')

namespace Alike

variable {α β α' β' : Type} {R : α → β → Prop} {S : α' → β' → Prop}

/-- A step that is taken in both runs. -/
theorem refl (x : Except GenerationError α) : Alike Eq x x := by
  cases x with
  | ok a => exact .ok rfl
  | error e => exact .error rfl

theorem bind {x : Except GenerationError α} {y : Except GenerationError β}
    {f : α → Except GenerationError α'} {g : β → Except GenerationError β'} (h : Alike R x y)
    (hrest : ∀ a b, R a b → Alike S (f a) (g b)) : Alike S (x >>= f) (y >>= g) := by
  cases h with
  | ok h => exact hrest _ _ h
  | error h => exact .error h

/-- A step that both runs take alike, before two different rests. -/
theorem bind_same {x : Except GenerationError α} {f : α → Except GenerationError α'}
    {g : α → Except GenerationError β'} (hrest : ∀ a, Alike S (f a) (g a)) :
    Alike S (x >>= f) (x >>= g) :=
  (refl x).bind fun a _ hab => hab ▸ hrest a

/-- A last step that only the first run takes. -/
theorem bind_left {x : Except GenerationError α} {y : Except GenerationError β}
    {f : α → Except GenerationError α'} {S : α' → β → Prop} (h : Alike R x y)
    (hrest : ∀ a b, R a b → Alike S (f a) (.ok b)) : Alike S (x >>= f) y := by
  cases h with
  | ok h => exact hrest _ _ h
  | error h => exact .error h

/-- A last step that only the second run takes. -/
theorem map_right {x : Except GenerationError α} {y : Except GenerationError β} {g : β → β'}
    {S : α → β' → Prop} (h : Alike R x y) (hrest : ∀ a b, R a b → S a (g b)) :
    Alike S x (y.map g) := by
  cases h with
  | ok h => exact .ok (hrest _ _ h)
  | error h => exact .error h

end Alike

/-! ### Classes of selections -/

namespace SelectionContext

variable (c : SelectionContext)

/-- What is compiled, without the names. -/
def shapes : ShapeContext :=
  ⟨c.schema, c.fragments, c.limit⟩

/-- The class has the given name and members of the given shapes, and no constructor. -/
def RealizesNested (name : Text) (d : ClassDecl) (fields : List FieldShape) : Prop :=
  ∃ members, d = { name, members } ∧ c.Realizes members fields

section Nesting

variable {c}
  {nest : Text → List Selection → TypeDefinition → Except GenerationError ClassDecl}
  {nest' : List Selection → TypeDefinition → Except GenerationError (List FieldShape)}
  (hnest : ∀ name selections parent, Alike (c.RealizesNested name)
    (nest name selections parent) (nest' selections parent))

include hnest

/-- The names that a field claims in the scope leave no trace in its shape. -/
theorem compileFieldWith_alike (parent : TypeDefinition) (scope : Scope) (f : Field) :
    Alike (fun x shape => c.Realizes x.1.members [shape])
      (c.compileFieldWith nest parent scope f) (c.shapes.field nest' parent f) := by
  refine .bind_same fun type => ?_
  by_cases hnone : f.selections.isEmpty
  · simp only [hnone, if_true]
    exact .ok (.value (c.text_resolve type false) .nil)
  simp only [hnone]
  cases soleSpread? f.selections with
  | some name =>
    refine .bind_same fun fragment => .ok (.fragment ?_ .nil)
    exact c.text_withElement type false _
  | none =>
    refine .bind_same fun core => .bind (hnest _ _ _) fun d fields hd => ?_
    obtain ⟨members, rfl, hmembers⟩ := hd
    exact .ok (.object (c.text_withElement type false _) hmembers .nil)

theorem compileGroups_alike (parent : TypeDefinition) (scope : Scope) (groups : List FieldGroup) :
    Alike c.Realizes (c.compileGroups nest parent scope groups)
      (c.shapes.groups nest' parent groups) := by
  -- The scope differs from group to group, and between any two runs.
  induction groups generalizing scope with
  | nil => exact .ok .nil
  | cons g gs ih =>
    refine .bind (compileFieldWith_alike hnest parent scope g.merged) fun x shape hx => ?_
    refine .bind (ih x.2) fun members rest hrest => ?_
    exact .ok (hx.append hrest)

end Nesting

/-- The name of a class has no influence on its members beyond their names. -/
theorem compileClassWithin_alike (limit : Nat) (name : Text) (selections : List Selection)
    (parent : TypeDefinition) :
    Alike (c.RealizesNested name) (c.compileClassWithin limit name selections parent)
      (c.shapes.fieldsWithin limit selections parent) := by
  induction limit generalizing name selections parent with
  | zero => exact .error rfl
  | succ limit ih =>
    have hmembers : Alike c.Realizes
        (c.compileSelectionsWith (c.compileClassWithin limit) selections parent
          (Scope.ofClass name))
        (c.shapes.fieldsWithin (limit + 1) selections parent) :=
      .bind_same fun groups => compileGroups_alike ih parent (Scope.ofClass name) groups
    exact hmembers.bind_left fun members fields h => .ok ⟨members, rfl, h⟩

theorem compileRoot_alike (name : Text) (selections : List Selection) (parent : TypeDefinition) :
    Alike c.RealizesClass (c.compileRoot name selections parent)
      (c.shapes.root selections parent) := by
  rw [compileRoot, ShapeContext.root]
  cases selections.find? (!·.isField) with
  | some s => exact .error rfl
  | none =>
    have hclass := c.compileClassWithin_alike c.limit name selections parent
    refine hclass.map_right fun d fields hd => ?_
    obtain ⟨members, rfl, hmembers⟩ := hd
    exact ⟨hmembers, .none⟩

theorem fragmentClass_alike (f : Fragment) :
    Alike c.RealizesClass (c.fragmentClass f) (c.shapes.fragment f) := by
  rw [fragmentClass, ShapeContext.fragment]
  have hschema : c.shapes.schema = c.schema := rfl
  rw [hschema]
  cases c.schema.type? f.on with
  | none => exact .error rfl
  | some parent => exact c.compileRoot_alike _ _ parent

end SelectionContext

/-! ### Classes of operations -/

namespace OperationContext

variable (c : OperationContext)

theorem responseClass_alike (o : Operation) :
    Alike c.RealizesClass (c.responseClass o) (c.shapes.response o) := by
  rw [responseClass, rootType, ShapeContext.response]
  cases hname : o.supportedName with
  | error e => exact .error rfl
  | ok name =>
    have hschema : c.shapes.schema = c.schema := rfl
    rw [hschema]
    simp only [ok_bind]
    cases c.schema.root? o.kind with
    | none => exact .error rfl
    | some root => exact c.compileRoot_alike _ _ root

/-- The type of a variable is found, or not, by the schema alone. -/
theorem resolveWritten_alike (v : Variable) :
    Alike (fun type s => s.1 = v.name ∧ type.text = c.valueText s.2)
      (c.resolveWritten v.type v.default.isSome) (c.shapes.variableShape v) := by
  rw [TypeContext.resolveWritten, ShapeContext.variableShape]
  have hschema : c.shapes.schema = c.schema := rfl
  rw [hschema]
  cases c.schema.type? v.type.core with
  | none => exact .error rfl
  | some d => exact .ok ⟨rfl, c.text_resolve v.type v.default.isSome⟩

/-- A variable's property and parameter have its key and its type. -/
structure RealizesVariable (x : Property × Parameter) (s : Text × ValueShape) : Prop where
  wire : x.1.wire = s.1
  property : x.1.type = c.valueText s.2
  parameter : x.2.type = c.valueText s.2

theorem requestMembers_alike (scope : Scope) (vs : List Variable) :
    Alike (List.Forall₂ c.RealizesVariable) (c.requestMembers scope vs)
      (vs.mapM c.shapes.variableShape) := by
  induction vs generalizing scope with
  | nil => exact .ok .nil
  | cons v vs ih =>
    rw [requestMembers, List.mapM_cons]
    refine .bind (c.resolveWritten_alike v) fun type s hs => ?_
    refine .bind (ih _) fun members shapes hshapes => ?_
    exact .ok (.cons ⟨hs.1.symm, hs.2, hs.2⟩ hshapes)

/-- The properties of variables, in order. -/
theorem realizes_variables {xs : List (Property × Parameter)} {shapes : List (Text × ValueShape)}
    (h : List.Forall₂ c.RealizesVariable xs shapes) :
    c.Realizes (xs.map fun (property, _) => .property property)
      (shapes.map fun (wire, value) => .value wire value) := by
  induction h with
  | nil => exact .nil
  | @cons x s xs shapes hx _ ih =>
    obtain ⟨wire, value⟩ := s
    cases hx.wire
    exact .value hx.property ih

theorem requestClass_alike (o : Operation) :
    Alike (Option.Rel c.RealizesClass) (c.requestClass o) (c.shapes.request o) := by
  refine .bind_same fun name => ?_
  by_cases hnone : o.variableDefinitions.isEmpty
  · simp only [hnone, if_true]
    exact .ok .none
  simp only [hnone]
  refine .bind (c.requestMembers_alike _ _) fun members shapes hshapes => .ok (.some ?_)
  refine ⟨c.realizes_variables hshapes, .some ⟨?_, ?_⟩⟩
  · refine List.forall₂_map_left_iff.mpr (List.forall₂_map_right_iff.mpr ?_)
    exact hshapes.imp fun x s hx => hx.parameter
  · rw [List.length_map, List.length_map, hshapes.length_eq]

end OperationContext

/-! ### Two runs -/

/-- Two runs have one shape: both are refused, with the same error but for the class that it may
name, or both succeed, and each gives what has the shape under its own names. -/
inductive SameShape {α β : Type} (R R' : α → β → Prop) (shape : Except GenerationError β) :
    Except GenerationError α → Except GenerationError α → Prop
  | refused {e e' : GenerationError} (hshape : ∃ e₀, shape = .error e₀)
      (h : e.withoutOwner = e'.withoutOwner) : SameShape R R' shape (.error e) (.error e')
  | compiled {a a' : α} {s : β} (hshape : shape = .ok s) (h : R a s) (h' : R' a' s) :
      SameShape R R' shape (.ok a) (.ok a')

theorem Alike.sameShape {α β : Type} {R R' : α → β → Prop} {x x' : Except GenerationError α}
    {shape : Except GenerationError β} (h : Alike R x shape) (h' : Alike R' x' shape) :
    SameShape R R' shape x x' := by
  cases h with
  | ok h =>
    cases h' with
    | ok h' => exact .compiled rfl h h'
  | error h =>
    cases h' with
    | error h' => exact .refused ⟨_, rfl⟩ (h.trans h'.symm)

/-- The same schema and fragments under other options. -/
def OperationContext.withOptions (c : OperationContext) (options : Config) : OperationContext :=
  { c with
    scalars := options.registry
    convention := options.namingConvention
    config := options }

/-- **Names and shapes.** Two runs of the same schema and fragments, whatever their options are,
agree on the classes of every operation and fragment up to names: they refuse it with the same error,
or give it classes of one and the same shape, which is found without any names or scalar
mappings. -/
theorem options_keep_shape (c : OperationContext) (options : Config) (o : Operation)
    (f : Fragment) :
    SameShape c.RealizesClass (c.withOptions options).RealizesClass (c.shapes.response o)
      (c.responseClass o) ((c.withOptions options).responseClass o) ∧
    SameShape (Option.Rel c.RealizesClass) (Option.Rel (c.withOptions options).RealizesClass)
      (c.shapes.request o) (c.requestClass o) ((c.withOptions options).requestClass o) ∧
    SameShape c.RealizesClass (c.withOptions options).RealizesClass (c.shapes.fragment f)
      (c.fragmentClass f) ((c.withOptions options).fragmentClass f) := by
  refine ⟨?_, ?_, ?_⟩
  · exact (c.responseClass_alike o).sameShape ((c.withOptions options).responseClass_alike o)
  · exact (c.requestClass_alike o).sameShape ((c.withOptions options).requestClass_alike o)
  · exact (c.fragmentClass_alike f).sameShape ((c.withOptions options).fragmentClass_alike f)

end SharpClient

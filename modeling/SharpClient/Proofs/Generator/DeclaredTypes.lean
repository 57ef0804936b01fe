import SharpClient.Proofs.Generator.Declarations
import SharpClient.Proofs.Schema.Closed

/-!
# Types that a file declares

The types of properties and of constructor parameters are written with the name of a scalar's
mapping, of a class or of an enum. The names come from the schema by one rule for each kind of type,
and from selections by two more; the declarations are written by separate loops over the listed
types, the fragments and the operations. Both sides meet on every closed schema: each name is one that
the file declares, or that needs no declaration (`Generator.isDeclared_of_mem_writtenTypes`). The
schema of a document is closed (`writtenTypes_declared`).

Three things are asked of a run. A field of an object, interface or union type must have a
sub-selection, since such types are not declared; variables and fields of input types must have
input types; and nothing may refer to a type whose name begins with two underscores, since those are
not listed (`Declarable`).
-/

namespace SharpClient

open Outcome

/-- Whether the fields of the type's values are selected. -/
def TypeDefinition.isComposite (t : TypeDefinition) : Bool :=
  match t.body with
  | .object .. | .interface .. | .union _ => true
  | .scalar | .enum _ | .input _ => false

/-- The types that the properties and constructor parameters of a class are written with. -/
def ClassDecl.writtenTypes (d : ClassDecl) : List Text :=
  d.properties.map Property.type ++
    (d.constructor.toList.flatMap Constructor.parameters).map Parameter.type

theorem CompiledClass.writtenTypes_decl {c : SelectionContext} (d : CompiledClass c) :
    d.decl.writtenTypes = d.fields.map (·.2.property.type) := by
  rw [ClassDecl.writtenTypes, decl, ClassDecl.properties_members, List.map_map, Option.toList_none,
    List.flatMap_nil, List.map_nil, List.append_nil]
  rfl

theorem ClassDecl.exists_inside_of_encloses {root d e : ClassDecl} {outer : List ClassDecl}
    (hd : root.Inside d outer) (he : d.Encloses e) : ∃ outer', root.Inside e outer' := by
  induction he generalizing outer with
  | refl => exact ⟨outer, hd⟩
  | nested hmem hf ih => exact ih (.nested hd hmem)

theorem ClassDecl.writtenTypes_of_properties (name : Text) (ps : List Property)
    (constructor : Option Constructor) :
    writtenTypes ⟨name, ps.map Member.property, constructor⟩ = ps.map Property.type ++
      (constructor.toList.flatMap Constructor.parameters).map Parameter.type := by
  have hproperties : properties ⟨name, ps.map Member.property, constructor⟩ = ps := by
    simp [properties]
  rw [writtenTypes, hproperties]

/-- The type of a field on a type of a closed schema is in the schema. -/
theorem Schema.Closed.exists_type?_of_fieldType {s : Schema} (h : s.Closed)
    {parent : TypeDefinition} (hparent : parent ∈ s.types) {name : Text} {type : TypeRef}
    (htype : SelectionContext.fieldType parent name = .ok type) :
    ∃ t, s.type? type.core = some t := by
  rw [SelectionContext.fieldType] at htype
  split at htype
  · cases htype
    exact h.string.imp fun _ => And.left
  · split at htype
    case h_1 => cases htype
    case h_2 fields hfields =>
      split at htype
      case h_1 => cases htype
      case h_2 f hf =>
        cases htype
        exact h.field parent hparent fields hfields f (List.mem_of_find?_eq_some hf)

namespace Generator

variable {g : Generator} {d : Declarations} {owner : ClassDecl}

/-! ### What a run refers to -/

/-- The fields that a run selects, with the type they are selected on and the fields of one key
taken together: those of the operations and fragments, and those below a field that has a class of
its own. -/
inductive Selects (g : Generator) : TypeDefinition → Field → Prop
  | root {e : ClassDecl} {selections : List Selection} {parent : TypeDefinition}
      {groups : List FieldGroup} {group : FieldGroup} (h : g.DataClass e selections parent)
      (hgroups : collectFields g.context.fragments parent.name selections = .ok groups)
      (hgroup : group ∈ groups) : Selects g parent group.merged
  | inner {parent core : TypeDefinition} {f : Field} {type : TypeRef} {groups : List FieldGroup}
      {group : FieldGroup} (h : Selects g parent f)
      (htype : SelectionContext.fieldType parent f.name = .ok type)
      (hcore : g.context.coreType type = .ok core) (hsole : soleSpread? f.selections = none)
      (hgroups : collectFields g.context.fragments core.name f.selections = .ok groups)
      (hgroup : group ∈ groups) : Selects g core group.merged

/-- The references to types from which the types in a file are written. -/
inductive RefersTo (g : Generator) : TypeRef → Prop
  | field {parent : TypeDefinition} {f : Field} {type : TypeRef} (h : g.Selects parent f)
      (htype : SelectionContext.fieldType parent f.name = .ok type) : RefersTo g type
  | request {o : Operation} {v : Variable} (ho : o ∈ g.operations)
      (hv : v ∈ o.variableDefinitions) : RefersTo g v.type
  | input {name : Text} {fields : List InputValue} {v : InputValue}
      (h : (name, fields) ∈ g.schema.inputTypes) (hv : v ∈ fields) : RefersTo g v.type

/-- The reference is to an input type. -/
def IsInput (g : Generator) (type : TypeRef) : Prop :=
  ∃ t, g.schema.type? type.core = some t ∧ t.isInput

/-- What is asked of a run so that all its types can be declared. -/
structure Declarable (g : Generator) : Prop where
  /-- The fields of values are selected. -/
  composite : ∀ parent f type t, g.Selects parent f →
    SelectionContext.fieldType parent f.name = .ok type → g.schema.type? type.core = some t →
      t.isComposite → f.selections ≠ []
  /-- Variables have input types. -/
  ofVariable : ∀ o ∈ g.operations, ∀ v ∈ o.variableDefinitions, g.IsInput v.type
  /-- The fields of input types have input types. -/
  ofInput : ∀ name fields, (name, fields) ∈ g.schema.inputTypes → ∀ v ∈ fields, g.IsInput v.type
  /-- All types are listed that are referred to. -/
  listed : ∀ type, g.RefersTo type → Text.startsWith type.core "__" = false

/-- The names with which types may be written in a class of a file: those of the scalar mappings,
the type of all objects, and those of the classes nested in the class and of the fragment classes,
input classes and enums of the file. -/
inductive TypeName (g : Generator) (d : Declarations) (owner : ClassDecl) : Text → Prop
  | scalar {name : Text} {m : ScalarMapping} (h : g.config.registry.get? name = some m) :
      TypeName g d owner m.type
  | untyped : TypeName g d owner "object"
  | nested {e : ClassDecl} (he : e ∈ owner.nestedClasses) : TypeName g d owner e.name
  | fragment {f : Fragment} {e : ClassDecl} (hf : f ∈ g.fragments)
      (hclass : g.context.fragmentClass f = .ok e) (he : e ∈ d.classes) : TypeName g d owner e.name
  | input {e : ClassDecl} (he : e ∈ g.inputClasses) (hmem : e ∈ d.classes) :
      TypeName g d owner e.name
  | enum {e : EnumDecl} (he : e ∈ d.enums) : TypeName g d owner e.name

/-- The type is written with a name that the file declares or that needs no declaration, possibly in
lists and with the mark of an optional value. -/
def IsDeclared (g : Generator) (d : Declarations) (owner : ClassDecl) (type : Text) : Prop :=
  ∃ t : FieldType, type = t.text ∧ g.TypeName d owner t.base.name

/-! ### Names from the schema -/

theorem base_name_resolve (c : TypeContext) (t : TypeRef) (hasDefault : Bool) :
    (c.resolve t hasDefault).base.name = (c.element t.core t.coreRequired).name := by
  rw [TypeContext.resolve]
  cases hasDefault with
  | false => rfl
  | true =>
    rw [if_pos rfl, FieldType.optional]
    split <;> rfl

section Run

variable (htypesafe : g.config.typesafeOperation = true) (hd : g.declarations = .ok d)

include htypesafe hd

/-- A listed type whose values have no fields to select is declared, or is a scalar. -/
theorem typeName_resolve {type : TypeRef} {t : TypeDefinition}
    (ht : g.schema.type? type.core = some t) (hleaf : t.isComposite = false)
    (hlisted : Text.startsWith type.core "__" = false) (hasDefault : Bool) :
    g.TypeName d owner (g.context.resolve type hasDefault).base.name := by
  have hname : t.name = type.core := name_of_findType? ht
  have hmem : t ∈ g.schema.listed := by
    rw [Schema.listed, List.mem_filter, TypeDefinition.isReserved, hname, hlisted]
    exact ⟨List.mem_of_find?_eq_some ht, rfl⟩
  have hcontext : g.context.schema.type? type.core = some t := ht
  rw [base_name_resolve, TypeContext.element, hcontext, ← hname]
  obtain ⟨name, body, directives⟩ := t
  cases body with
  | object | interface | union => cases hleaf
  | scalar =>
    simp only [Option.map_some]
    cases hmapping : g.context.scalars.get? name with
    | some m => exact .scalar hmapping
    | none => exact .untyped
  | input fields =>
    have hinput : (name, fields) ∈ g.schema.inputTypes :=
      List.mem_filterMap.mpr ⟨_, hmem, rfl⟩
    exact .input (List.mem_map_of_mem hinput) ((mem_classes_iff htypesafe hd).mpr (.input hinput))
  | enum values =>
    have henum : (name, values.map EnumValue.name) ∈ g.schema.enumTypes :=
      List.mem_filterMap.mpr ⟨_, hmem, rfl⟩
    exact .enum ((mem_enums_iff htypesafe hd).mpr ⟨_, _, henum, rfl⟩)

theorem isDeclared_resolve_input {type : TypeRef} (htype : g.RefersTo type)
    (hinput : g.IsInput type) (h : g.Declarable) (hasDefault : Bool) :
    g.IsDeclared d owner (g.context.resolve type hasDefault).text := by
  obtain ⟨t, ht, hkind⟩ := hinput
  have hleaf : t.isComposite = false := by
    obtain ⟨name, body, directives⟩ := t
    cases body with
    | object | interface | union => cases hkind
    | scalar | enum | input => rfl
  exact ⟨_, rfl, typeName_resolve htypesafe hd ht hleaf (h.listed type htype) hasDefault⟩

end Run

/-! ### Classes of variables and inputs -/

theorem exists_of_mem_requestMembers {c : OperationContext} {scope : Scope} {vs : List Variable}
    {members : List (Property × Parameter)} (h : c.requestMembers scope vs = .ok members)
    {p : Property} {q : Parameter} (hmem : (p, q) ∈ members) :
    ∃ v ∈ vs, p.type = (c.resolve v.type v.default.isSome).text ∧ q.type = p.type := by
  induction vs generalizing scope members with
  | nil =>
    cases h
    exact absurd hmem List.not_mem_nil
  | cons v vs ih =>
    obtain ⟨type, htype, h⟩ := bind_eq_ok.mp h
    obtain ⟨rest, hrest, h⟩ := bind_eq_ok.mp h
    cases h
    rcases List.mem_cons.mp hmem with heq | hmem
    · cases heq
      refine ⟨v, List.mem_cons_self, ?_, rfl⟩
      rw [TypeContext.resolveWritten] at htype
      split at htype
      · cases htype
        rfl
      · cases htype
    · obtain ⟨w, hw, hp, hq⟩ := ih hrest hmem
      exact ⟨w, List.mem_cons_of_mem v hw, hp, hq⟩

theorem exists_of_mem_inputProperties {c : TypeContext} {scope : Scope} {fields : List InputValue}
    {p : Property} (hp : p ∈ inputProperties c scope fields) :
    ∃ v ∈ fields, p.type = (c.resolve v.type v.default.isSome).text := by
  induction fields generalizing scope with
  | nil => exact absurd hp List.not_mem_nil
  | cons v vs ih =>
    rcases List.mem_cons.mp hp with rfl | hp
    · exact ⟨v, List.mem_cons_self, rfl⟩
    · obtain ⟨w, hw, htype⟩ := ih hp
      exact ⟨w, List.mem_cons_of_mem v hw, htype⟩

/-- The class of variables is written with the types of the variables. -/
theorem exists_variable_of_requestClass {c : OperationContext} {o : Operation} {e owner : ClassDecl}
    (he : c.requestClass o = .ok (some e)) (howner : e.Encloses owner) {type : Text}
    (htype : type ∈ owner.writtenTypes) :
    ∃ v ∈ o.variableDefinitions, type = (c.resolve v.type v.default.isSome).text := by
  obtain ⟨name, -, he⟩ := bind_eq_ok.mp he
  split at he
  · cases he
  obtain ⟨members, hmembers, he⟩ := bind_eq_ok.mp he
  cases he
  have hmap : members.map (fun m => Member.property m.1) =
      (members.map Prod.fst).map Member.property := by simp
  have hflat := ClassDecl.nestedClasses_of_properties
    (c.convention.requestClass name) (members.map Prod.fst)
  rw [← hmap] at hflat
  rw [ClassDecl.eq_of_encloses (hflat _) howner, hmap,
    ClassDecl.writtenTypes_of_properties] at htype
  -- A parameter has the type of the property that it is assigned to.
  simp only [List.map_map, Option.toList_some, List.flatMap_singleton, List.mem_append,
    List.mem_map, Function.comp_apply] at htype
  rcases htype with ⟨⟨p, q⟩, hm, rfl⟩ | ⟨⟨p, q⟩, hm, rfl⟩
  · obtain ⟨v, hv, hp, -⟩ := exists_of_mem_requestMembers hmembers hm
    exact ⟨v, hv, hp⟩
  · obtain ⟨v, hv, hp, hq⟩ := exists_of_mem_requestMembers hmembers hm
    exact ⟨v, hv, hq.trans hp⟩

/-- The class of an input type is written with the types of its fields. -/
theorem exists_field_of_inputClass {c : TypeContext} {name : Text} {fields : List InputValue}
    {owner : ClassDecl} (howner : (inputClass c name fields).Encloses owner) {type : Text}
    (htype : type ∈ owner.writtenTypes) :
    ∃ v ∈ fields, type = (c.resolve v.type v.default.isSome).text := by
  rw [ClassDecl.eq_of_encloses (ClassDecl.nestedClasses_of_properties _ _ _) howner,
    ClassDecl.writtenTypes_of_properties] at htype
  obtain ⟨p, hp, rfl⟩ : ∃ p ∈ inputProperties c (Scope.ofClass (c.convention.typeName name)) fields,
      p.type = type := by simpa using htype
  exact exists_of_mem_inputProperties hp

/-! ### Classes of selections -/

theorem Selects.parent_mem {parent : TypeDefinition} {f : Field} (h : g.Selects parent f) :
    parent ∈ g.schema.types := by
  cases h with
  | root h =>
    cases h with
    | response ho hroot hd =>
      obtain ⟨name, -, hroot⟩ := bind_eq_ok.mp hroot
      split at hroot
      case h_1 root hfind =>
        cases hroot
        obtain ⟨name, -, hfind⟩ := Option.bind_eq_some_iff.mp hfind
        exact List.mem_of_find?_eq_some hfind
      case h_2 => cases hroot
    | fragment hf hon hd => exact List.mem_of_find?_eq_some hon
  | inner h htype hcore =>
    rw [SelectionContext.coreType] at hcore
    split at hcore
    case h_1 t hfind =>
      cases hcore
      exact List.mem_of_find?_eq_some hfind
    case h_2 => cases hcore

/-- The fields of a compiled class are selected. -/
theorem selects_of_inside {r e : CompiledClass g.context.toSelectionContext}
    {rs : List (CompiledClass g.context.toSelectionContext)}
    (hr : g.DataClass r.decl r.selections r.parent) (h : r.Inside e rs) {f : Field}
    {x : CompiledField} (hx : (f, x) ∈ e.fields) : g.Selects e.parent f := by
  -- From the outermost class inwards: the class of a field holds what is selected below the field.
  induction h generalizing f x with
  | root =>
    obtain ⟨group, hgroup, rfl⟩ := r.exists_group hx
    exact .root hr r.collected hgroup
  | @nested d e outer f' x' type h hx' hnested hselections htype hcore ih =>
    obtain ⟨group, hgroup, rfl⟩ := e.exists_group hx
    have hsole : soleSpread? f'.selections = none := by
      obtain ⟨scope, scope', hrule⟩ := d.run.exists_fieldRule hx'
      cases hrule with
      | leaf | spread => cases hnested
      | nested _ _ hsole => exact hsole
    have hcollected := e.collected
    rw [hselections] at hcollected
    exact .inner (ih hx') htype hcore hsole hcollected hgroup

/-- A property of a class for selections is written with a declared name. -/
theorem isDeclared_of_inside (htypesafe : g.config.typesafeOperation = true)
    (hd : g.declarations = .ok d) (hschema : g.schema.Closed) (h : g.Declarable)
    {r e : CompiledClass g.context.toSelectionContext}
    {rs : List (CompiledClass g.context.toSelectionContext)}
    (hr : g.DataClass r.decl r.selections r.parent) (he : r.Inside e rs) {f : Field}
    {x : CompiledField} (hx : (f, x) ∈ e.fields) : g.IsDeclared d e.decl x.property.type := by
  have hselects : g.Selects e.parent f := selects_of_inside hr he hx
  obtain ⟨scope, scope', hrule⟩ := e.run.exists_fieldRule hx
  cases hrule with
  | leaf htype hnone =>
    obtain ⟨t, ht⟩ := hschema.exists_type?_of_fieldType hselects.parent_mem htype
    have hleaf : t.isComposite = false := by
      rw [← Bool.not_eq_true]
      exact fun hcomposite => h.composite _ _ _ t hselects htype ht hcomposite hnone
    have hlisted := h.listed _ (.field hselects htype)
    exact ⟨_, rfl, typeName_resolve htypesafe hd ht hleaf hlisted false⟩
  | @spread _ _ fragment htype hsole hget =>
    obtain ⟨fragments, -, hfragments, -⟩ := declarations_eq_ok htypesafe hd
    have hfragment : fragment ∈ g.context.fragments.effective := FragmentTable.mem_effective hget
    obtain ⟨decl, -, hclass⟩ := exists_mem_of_mapM hfragments hfragment
    obtain ⟨on, hdata⟩ := DataClass.of_fragment hfragment hclass
    obtain ⟨_, -, -, hcompile⟩ := SelectionContext.fragmentClass_eq_ok.mp hclass
    have hname : decl.name = _ := SelectionContext.name_of_compileClassWithin hcompile
    refine ⟨_, rfl, ?_⟩
    rw [FieldType.withElement, ← hname]
    exact .fragment (List.mem_of_find?_eq_some hget) hclass
      ((mem_classes_iff htypesafe hd).mpr (.data hdata))
  | @nested _ _ decl _ _ htype hsome hsole hcore hclaim hnest =>
    have hname : decl.name = _ := SelectionContext.name_of_compileClassWithin hnest
    refine ⟨_, rfl, ?_⟩
    rw [FieldType.withElement, ← hname]
    exact .nested (e.mem_nestedClasses.mpr ⟨f, _, hx, rfl⟩)

/-- On a closed schema, every type that a class of a typesafe file, or a class nested in one, writes
for a property or a constructor parameter is declared. -/
theorem isDeclared_of_mem_writtenTypes (hschema : g.schema.Closed)
    (htypesafe : g.config.typesafeOperation = true) (hd : g.declarations = .ok d)
    (h : g.Declarable) {root owner : ClassDecl} (hroot : root ∈ d.classes)
    (howner : root.Encloses owner) {type : Text} (htype : type ∈ owner.writtenTypes) :
    g.IsDeclared d owner type := by
  cases (mem_classes_iff htypesafe hd).mp hroot with
  | request ho he =>
    obtain ⟨v, hv, rfl⟩ := exists_variable_of_requestClass he howner htype
    exact isDeclared_resolve_input htypesafe hd (.request ho hv) (h.ofVariable _ ho v hv) h _
  | input hinput =>
    obtain ⟨v, hv, rfl⟩ := exists_field_of_inputClass howner htype
    exact isDeclared_resolve_input htypesafe hd (.input hinput hv) (h.ofInput _ _ hinput v hv) h _
  | data hdata =>
    obtain ⟨r, rfl, rfl, rfl⟩ := hdata.exists_compiledClass
    obtain ⟨outer, hinside⟩ := ClassDecl.exists_inside_of_encloses .root howner
    obtain ⟨e, rs, he, rfl, -⟩ := CompiledClass.exists_inside hinside
    rw [e.writtenTypes_decl] at htype
    obtain ⟨⟨f, x⟩, hx, rfl⟩ := List.mem_map.mp htype
    exact isDeclared_of_inside htypesafe hd hschema h hdata he hx

end Generator

/-- **No dangling types.** In a typesafe run on the schema of a document, every type that a class of
the file, or a class nested in one, writes for a property or a constructor parameter is declared. -/
theorem writtenTypes_declared {g : Generator} {document : Document} {d : Generator.Declarations}
    (hschema : Schema.ofDocument document = .ok g.schema)
    (htypesafe : g.config.typesafeOperation = true) (hd : g.declarations = .ok d)
    (h : g.Declarable) {root owner : ClassDecl} (hroot : root ∈ d.classes)
    (howner : root.Encloses owner) {type : Text} (htype : type ∈ owner.writtenTypes) :
    g.IsDeclared d owner type :=
  Generator.isDeclared_of_mem_writtenTypes (Schema.closed_of_ofDocument hschema) htypesafe hd h
    hroot howner htype

namespace FilterSample

/-- Notes can be asked for. -/
def query : TypeDefinition :=
  ⟨"Query", .object [] [⟨"find", [⟨"by", .named "Filter", none, []⟩], .named "Note", []⟩], []⟩

/-- Notes have a color. -/
def note : TypeDefinition :=
  ⟨"Note", .object [] [⟨"color", [], .named "Color", []⟩], []⟩

/-- The document of the schema. -/
def document : Document :=
  ⟨[.type query, .type note, .type ⟨"Color", .enum [⟨"RED", []⟩], []⟩,
    .type ⟨"Filter", .input [⟨"color", .named "Color", none, []⟩], []⟩]⟩

/-- The types that the schema has besides. -/
def builtIn : List Text :=
  List.map String.toList
    ["String", "Boolean", "__Schema", "__Type", "__TypeKind", "__Field", "__InputValue",
      "__EnumValue", "__Directive", "__DirectiveLocation"]

/-- Looks for a note, and asks for its color. -/
def find : Field :=
  ⟨none, "find", [⟨"by", .variable "by"⟩], [], [.field none "color" [] [] []]⟩

/-- The search as an operation. -/
def operation : Operation :=
  ⟨none, .query, some "Find", [⟨none, "by", .named "Filter", none, []⟩], [], [find.toSelection]⟩

/-- The operation on the schema of the document. -/
def generator : Generator where
  schema :=
    ⟨Rules.typeDefinitions document ++ builtIn.filterMap (findType? Standard.types),
      [(.query, "Query")], Standard.namedClient :: Standard.directives⟩
  documents := [⟨[.operation operation]⟩]
  config := { typesafeOperation := true, documentMode := .external }

set_option maxRecDepth 4000 in
theorem ofDocument_eq : Schema.ofDocument document = .ok generator.schema := rfl

theorem selects_cases {parent : TypeDefinition} {f : Field} (h : generator.Selects parent f) :
    (parent = query ∧ f = find) ∨ (parent = note ∧ f = ⟨none, "color", [], [], []⟩) := by
  induction h with
  | root h hgroups hgroup =>
    cases h with
    | response ho hroot hd =>
      rw [List.mem_singleton.mp ho] at hroot hgroups
      cases hroot
      cases hgroups
      rw [List.mem_singleton.mp hgroup]
      exact .inl ⟨rfl, rfl⟩
    | fragment hf => exact absurd hf List.not_mem_nil
  | inner h htype hcore hsole hgroups hgroup ih =>
    rcases ih with ⟨rfl, rfl⟩ | ⟨rfl, rfl⟩
    · cases htype
      cases hcore
      cases hgroups
      rw [List.mem_singleton.mp hgroup]
      exact .inr ⟨rfl, rfl⟩
    · cases hgroups
      exact absurd hgroup List.not_mem_nil

theorem inputTypes_eq : generator.schema.inputTypes =
    [("Filter".toList, [⟨"color", .named "Color", none, []⟩])] := rfl

theorem declarable : generator.Declarable where
  composite parent f type t hselects htype ht hcomposite := by
    rcases selects_cases hselects with ⟨rfl, rfl⟩ | ⟨rfl, rfl⟩
    · exact List.cons_ne_nil _ _
    · cases htype
      cases ht
      cases hcomposite
  ofVariable o ho v hv := by
    rw [List.mem_singleton.mp ho] at hv
    rw [List.mem_singleton.mp hv]
    exact ⟨_, rfl, rfl⟩
  ofInput name fields h v hv := by
    rw [inputTypes_eq, List.mem_singleton] at h
    cases h
    rw [List.mem_singleton.mp hv]
    exact ⟨_, rfl, rfl⟩
  listed type h := by
    cases h with
    | field hselects htype =>
      rcases selects_cases hselects with ⟨rfl, rfl⟩ | ⟨rfl, rfl⟩
      · cases htype
        decide
      · cases htype
        decide
    | request ho hv =>
      rw [List.mem_singleton.mp ho] at hv
      rw [List.mem_singleton.mp hv]
      decide
    | input h hv =>
      rw [inputTypes_eq, List.mem_singleton] at h
      cases h
      rw [List.mem_singleton.mp hv]
      decide

theorem noteTypes_declared :
    ∃ d root owner, generator.declarations = .ok d ∧ root ∈ d.classes ∧ root.Encloses owner ∧
      owner.writtenTypes = ["Color?".toList] ∧ generator.IsDeclared d owner "Color?" := by
  obtain ⟨d, hd, root, hroot, owner, howner, htypes⟩ : ∃ d, generator.declarations = .ok d ∧
      ∃ root ∈ d.classes, ∃ owner, root.Encloses owner ∧ owner.writtenTypes = ["Color?".toList] :=
    ⟨_, rfl, _, List.mem_cons_of_mem _ List.mem_cons_self, _,
      .nested List.mem_cons_self (.refl _), rfl⟩
  refine ⟨d, root, owner, hd, hroot, howner, htypes,
    writtenTypes_declared ofDocument_eq rfl hd declarable hroot howner ?_⟩
  rw [htypes]
  exact List.mem_singleton_self _

end FilterSample

end SharpClient

import SharpClient.Proofs.Declaration.MemberNames
import SharpClient.Proofs.Selection.ResponsePaths

/-!
# References to types

The type of a property names a class or an enum. Which one is meant is found by looking through the
classes nested in the class that declares the property, then through those nested in each class
around it, and at last through the declarations of the file (`lookupType`). The property was compiled
for one declaration (`Target`), and the name has to lead there.

* The class nested for a field is always found, since the classes nested in one class differ in name.
* The class of a fragment and an enum stand at the top of the file. They are found just when no class
  on the way out has a nested class of the same name (`typeName_found_iff`).

Nothing rules such a class out: a nested class avoids the names in its own class and knows of no
other declaration. But its name is always that of a key with `Result` behind, and possibly a number,
so fragments and enums of other names are found from everywhere.
-/

namespace SharpClient

open Outcome

/-! ### Lookup -/

/-- A declaration that the name of a type may stand for. -/
inductive Declared
  /-- A class, with the classes around it, the innermost first. -/
  | cls (d : ClassDecl) (outer : List ClassDecl)
  /-- An enum. -/
  | enum (e : EnumDecl)
  /-- Another declaration at the top of the file. -/
  | other (name : Text)

namespace Declared

/-- The name of the declaration. -/
def name : Declared → Text
  | cls d _ => d.name
  | enum e => e.name
  | other name => name

/-- The declaration stands in no class. -/
def IsTopLevel : Declared → Prop
  | cls _ outer => outer = []
  | enum _ => True
  | other _ => True

end Declared

/-- The names of the classes nested directly in a class. -/
def ClassDecl.nestedNames (d : ClassDecl) : List Text :=
  d.nestedClasses.map ClassDecl.name

/-- The declaration that a name stands for inside a row of classes, the innermost first, in a file
with the given declarations at its top. -/
def lookupType (file : List Declared) (n : Text) : List ClassDecl → Option Declared
  | [] => file.find? (·.name = n)
  | d :: outer =>
    match d.nestedClasses.find? (·.name = n) with
    | some e => some (.cls e (d :: outer))
    | none => lookupType file n outer

/-- In a list without repeated names, a name finds the one element that has it. -/
theorem find?_name_eq_some {α : Type} {name : α → Text} {as : List α} {a : α}
    (hnodup : (as.map name).Nodup) (ha : a ∈ as) :
    as.find? (fun b => name b = name a) = some a := by
  induction as with
  | nil => simp at ha
  | cons b bs ih =>
    rw [List.map_cons, List.nodup_cons] at hnodup
    rcases List.mem_cons.mp ha with rfl | ha
    · rw [List.find?_cons_of_pos (by simp)]
    · have hne : name b ≠ name a := fun h => hnodup.1 (h ▸ List.mem_map_of_mem ha)
      rw [List.find?_cons_of_neg (by simpa using hne), ih hnodup.2 ha]

section Lookup

variable {file : List Declared} {n : Text} {chain : List ClassDecl}

/-- A name that no class on the way has for a nested class is looked up at the top of the file. -/
theorem lookupType_of_not_mem (h : ∀ d ∈ chain, n ∉ d.nestedNames) :
    lookupType file n chain = file.find? (·.name = n) := by
  induction chain with
  | nil => rfl
  | cons d outer ih =>
    rw [List.forall_mem_cons] at h
    have hnone : d.nestedClasses.find? (·.name = n) = none := by
      rw [List.find?_eq_none]
      intro e he hname
      exact h.1 (List.mem_map.mpr ⟨e, he, by simpa using hname⟩)
    rw [lookupType, hnone, ih h.2]

/-- A name that some class on the way has for a nested class leads to a nested class. -/
theorem exists_lookupType_of_mem {d : ClassDecl} (hd : d ∈ chain) (h : n ∈ d.nestedNames) :
    ∃ e outer, outer ≠ [] ∧ lookupType file n chain = some (.cls e outer) := by
  induction chain with
  | nil => simp at hd
  | cons d' outer ih =>
    cases hfind : d'.nestedClasses.find? (·.name = n) with
    | some e => exact ⟨e, d' :: outer, List.cons_ne_nil _ _, by rw [lookupType, hfind]⟩
    | none =>
      rw [lookupType, hfind]
      rcases List.mem_cons.mp hd with rfl | hd
      · obtain ⟨e, he, hname⟩ := List.mem_map.mp h
        exact absurd (List.find?_eq_none.mp hfind e he) (by simpa using hname)
      · exact ih hd

/-- A declaration at the top of the file is found when no class on the way hides it. -/
theorem lookupType_topLevel_iff {target : Declared} (hnodup : (file.map Declared.name).Nodup)
    (hmem : target ∈ file) (htop : target.IsTopLevel) :
    lookupType file target.name chain = some target ↔
      (target.IsTopLevel → ∀ d ∈ chain, target.name ∉ d.nestedNames) := by
  constructor
  · intro hfound _ d hd hname
    obtain ⟨e, outer, hne, hlookup⟩ : ∃ e outer, outer ≠ [] ∧
        lookupType file target.name chain = some (.cls e outer) :=
      exists_lookupType_of_mem hd hname
    rw [hlookup] at hfound
    cases hfound
    exact hne htop
  · intro h
    rw [lookupType_of_not_mem (h htop), find?_name_eq_some hnodup hmem]

/-- A class nested in the innermost class is found at once. -/
theorem lookupType_nested {d e : ClassDecl} {outer : List ClassDecl} (hnodup : d.nestedNames.Nodup)
    (he : e ∈ d.nestedClasses) :
    lookupType file e.name (d :: outer) = some (.cls e (d :: outer)) := by
  rw [lookupType, find?_name_eq_some hnodup he]

end Lookup

/-! ### Classes in classes -/

namespace ClassDecl

/-- The second class stands in the first one, with the given classes around it, the innermost
first. -/
inductive Inside (root : ClassDecl) : ClassDecl → List ClassDecl → Prop
  | root : Inside root root []
  | nested {d e : ClassDecl} {outer : List ClassDecl} (h : Inside root d outer)
      (he : e ∈ d.nestedClasses) : Inside root e (d :: outer)

theorem nestedNames_sublist (d : ClassDecl) : d.nestedNames.Sublist d.memberNames := by
  obtain ⟨name, members, constructor⟩ := d
  rw [nestedNames, nestedClasses, memberNames]
  induction members with
  | nil => exact .slnil
  | cons m ms ih =>
    cases m with
    | property p => exact ih.cons _
    | nested n ns nc => exact ih.cons_cons _

end ClassDecl

/-- A type with an enum at its core is written with the name of the enum. -/
theorem TypeContext.base_resolve_enum {c : TypeContext} {type : TypeRef}
    {definition : TypeDefinition} {values : List Text}
    (hdefinition : c.schema.type? type.core = some definition)
    (hvalues : definition.enumValues? = some values) :
    (c.resolve type).base.name = c.convention.typeName definition.name := by
  have hname : definition.name = type.core := by simpa using List.find?_some hdefinition
  obtain ⟨name, body, directives⟩ := definition
  cases body <;> cases hvalues
  simp only at hname
  simp [resolve, element, hdefinition, hname]

/-- A file without repeated names that declares the classes of fragments and the enums. -/
structure SelectionContext.Declares (c : SelectionContext) (file : List Declared) : Prop where
  nodup : (file.map Declared.name).Nodup
  fragment : ∀ name fragment, c.fragments.get? name = some fragment →
    ∃ d, c.fragmentClass fragment = .ok d ∧ .cls d [] ∈ file
  enum : ∀ name definition values, c.schema.type? name = some definition →
    definition.isReserved = false → definition.enumValues? = some values →
      .enum (Generator.enumDecl c.toTypeContext definition.name values) ∈ file

/-- The type of the property is written with the given name as its element. -/
def Property.HasElement (p : Property) (n : Text) : Prop :=
  ∃ t : FieldType, p.type = t.text ∧ t.base.name = n

namespace CompiledClass

variable {c : SelectionContext}

/-- The second class stands in the first one, as the class of a field of the class around it. -/
inductive Inside (root : CompiledClass c) : CompiledClass c → List (CompiledClass c) → Prop
  | root : Inside root root []
  | nested {d e : CompiledClass c} {outer : List (CompiledClass c)} {f : Field} {x : CompiledField}
      {type : TypeRef} (h : Inside root d outer) (hx : (f, x) ∈ d.fields)
      (hnested : x.nested = some e.decl) (hselections : e.selections = f.selections)
      (htype : SelectionContext.fieldType d.parent f.name = .ok type)
      (hcore : c.coreType type = .ok e.parent) : Inside root e (d :: outer)

/-- The declaration that a property of the class is compiled for, where `outer` are the classes
around it: the class nested for its field, the class of the fragment that is the field's only
selection, or the enum that the field has for its type. -/
inductive Target (d : CompiledClass c) (outer : List ClassDecl) : Property → Declared → Prop
  | own {f : Field} {x : CompiledField} {e : ClassDecl} (hx : (f, x) ∈ d.fields)
      (hnested : x.nested = some e) : Target d outer x.property (.cls e (d.decl :: outer))
  | fragment {f : Field} {x : CompiledField} {name : Text} {fragment : Fragment} {e : ClassDecl}
      (hx : (f, x) ∈ d.fields) (hsole : soleSpread? f.selections = some name)
      (hget : c.fragments.get? name = some fragment) (hclass : c.fragmentClass fragment = .ok e) :
      Target d outer x.property (.cls e [])
  | enum {f : Field} {x : CompiledField} {type : TypeRef} {definition : TypeDefinition}
      {values : List Text} (hx : (f, x) ∈ d.fields) (hnone : f.selections = [])
      (htype : SelectionContext.fieldType d.parent f.name = .ok type)
      (hdefinition : c.schema.type? type.core = some definition)
      (hlisted : definition.isReserved = false) (hvalues : definition.enumValues? = some values) :
      Target d outer x.property (.enum (Generator.enumDecl c.toTypeContext definition.name values))

/-! ### The classes nested in a compiled class -/

theorem compileClassWithin_eq (d : CompiledClass c) :
    c.compileClassWithin (d.depth + 1) d.name d.selections d.parent = .ok d.decl :=
  SelectionContext.compileClassWithin_eq_ok.mpr ⟨d.groups, d.fields, d.collected, d.run, rfl⟩

theorem nodup_nestedNames (d : CompiledClass c) : d.decl.nestedNames.Nodup :=
  (SelectionContext.distinct_of_compileClassWithin d.compileClassWithin_eq (.refl _)).nodup.sublist
    d.decl.nestedNames_sublist

theorem mem_nestedClasses (d : CompiledClass c) {e : ClassDecl} :
    e ∈ d.decl.nestedClasses ↔ ∃ f x, (f, x) ∈ d.fields ∧ x.nested = some e := by
  rw [decl, ClassDecl.nestedClasses_members, List.mem_filterMap, Prod.exists]

/-- The class of a field is compiled from the field's selections on the core of its type, under the
first free name for its key, and the property has that class for its element. -/
theorem exists_of_nested (d : CompiledClass c) {f : Field} {x : CompiledField} {e : ClassDecl}
    (hx : (f, x) ∈ d.fields) (hnested : x.nested = some e) :
    ∃ type core scope, SelectionContext.fieldType d.parent f.name = .ok type ∧
      c.coreType type = .ok core ∧
      c.compileClassWithin d.depth (Scope.free scope
        (Naming.resultClass f.key (c.resolve type).isList)) f.selections core = .ok e ∧
      x.property.type = ((c.resolve type).withElement e.name).text := by
  obtain ⟨scope, scope', hrule⟩ := d.run.exists_fieldRule hx
  cases hrule with
  | leaf => cases hnested
  | spread => cases hnested
  | nested htype hsome hsole hcore hclaim hnest =>
    cases hnested
    cases hclaim
    refine ⟨_, _, scope, htype, hcore, hnest, ?_⟩
    rw [SelectionContext.name_of_compileClassWithin hnest]

/-- Every class in a compiled class is the class of a field of the class around it. -/
theorem exists_inside {root : CompiledClass c} {d : ClassDecl} {outer : List ClassDecl}
    (h : root.decl.Inside d outer) :
    ∃ e rs, root.Inside e rs ∧ e.decl = d ∧ rs.map decl = outer := by
  -- From the outermost class inwards, so that the record of the class around it is there already.
  induction h with
  | root => exact ⟨root, [], .root, rfl, rfl⟩
  | nested h he ih =>
    obtain ⟨d, rs, hinside, rfl, rfl⟩ := ih
    obtain ⟨f, x, hx, hnested⟩ := d.mem_nestedClasses.mp he
    obtain ⟨type, core, scope, htype, hcore, hnest, -⟩ := d.exists_of_nested hx hnested
    obtain ⟨e, rfl, hselections, rfl⟩ := exists_on_of_compileClassWithin hnest
    exact ⟨e, d :: rs, .nested hinside hx hnested hselections htype hcore, rfl, rfl⟩

/-- A nested class has the name of its key, with `Result` and possibly a number behind. -/
theorem exists_candidate (d : CompiledClass c) {n : Text} (hn : n ∈ d.decl.nestedNames) :
    ∃ key isList k, n = Scope.candidate (Naming.resultClass key isList) k := by
  obtain ⟨e, he, rfl⟩ := List.mem_map.mp hn
  obtain ⟨f, x, hx, hnested⟩ := d.mem_nestedClasses.mp he
  obtain ⟨type, core, scope, -, -, hnest, -⟩ := d.exists_of_nested hx hnested
  obtain ⟨k, hk, -, -⟩ :=
    scope.free_eq_candidate (Naming.resultClass f.key (c.resolve type).isList)
  exact ⟨f.key, (c.resolve type).isList, k,
    (SelectionContext.name_of_compileClassWithin hnest).trans hk⟩

/-! ### The names in types -/

/-- The type of a property is written with the name of the declaration that it is compiled for. -/
theorem Target.hasElement {d : CompiledClass c} {outer : List ClassDecl} {p : Property}
    {target : Declared} (h : d.Target outer p target) : p.HasElement target.name := by
  -- What is selected on a field decides which rule it went by, and the rule writes the type.
  cases h with
  | own hx hnested =>
    obtain ⟨type, core, scope, -, -, -, htext⟩ := d.exists_of_nested hx hnested
    exact ⟨_, htext, rfl⟩
  | @fragment f x name fragment e hx hsole hget hclass =>
    obtain ⟨parent, -, -, hclass⟩ := SelectionContext.fragmentClass_eq_ok.mp hclass
    have hname : e.name = c.convention.fragmentClass fragment.name :=
      SelectionContext.name_of_compileClassWithin hclass
    obtain ⟨scope, scope', hrule⟩ := d.run.exists_fieldRule hx
    cases hrule with
    | leaf htype hnone => simp [hnone, soleSpread?] at hsole
    | spread htype hsole' hget' =>
      cases hsole.symm.trans hsole'
      cases hget.symm.trans hget'
      exact ⟨_, rfl, hname.symm⟩
    | nested htype hsome hsole' => cases hsole.symm.trans hsole'
  | enum hx hnone htype hdefinition hlisted hvalues =>
    obtain ⟨scope, scope', hrule⟩ := d.run.exists_fieldRule hx
    cases hrule with
    | leaf htype' =>
      cases htype.symm.trans htype'
      exact ⟨_, rfl, TypeContext.base_resolve_enum hdefinition hvalues⟩
    | spread htype' hsole => simp [hnone, soleSpread?] at hsole
    | nested htype' hsome => exact absurd hnone hsome

/-! ### References in a class -/

/-- What the types of properties refer to in a class with the classes `outer` around it. -/
structure References (d : CompiledClass c) (file : List Declared) (outer : List ClassDecl) :
    Prop where
  /-- A property whose field has sub-selections is compiled for a class. -/
  exists_target : ∀ p ∈ d.decl.properties, ∃ f x, (f, x) ∈ d.fields ∧ x.property = p ∧
    (f.selections ≠ [] → ∃ target, d.Target outer p target)
  /-- The type is written with the name of what the property is compiled for. -/
  hasElement : ∀ p target, d.Target outer p target → p.HasElement target.name
  /-- The name leads to what the property is compiled for, unless a nested class hides it. -/
  found_iff : ∀ p target, d.Target outer p target →
    (lookupType file target.name (d.decl :: outer) = some target ↔
      (target.IsTopLevel → ∀ e ∈ d.decl :: outer, target.name ∉ e.nestedNames))
  /-- Nested classes are named for keys. -/
  nested_name : ∀ n ∈ d.decl.nestedNames,
    ∃ key isList k, n = Scope.candidate (Naming.resultClass key isList) k

theorem exists_target {file : List Declared} (hfile : c.Declares file) (d : CompiledClass c)
    (outer : List ClassDecl) {f : Field} {x : CompiledField} (hx : (f, x) ∈ d.fields)
    (hsome : f.selections ≠ []) : ∃ target, d.Target outer x.property target := by
  obtain ⟨scope, scope', hrule⟩ := d.run.exists_fieldRule hx
  cases hrule with
  | leaf htype hnone => exact absurd hnone hsome
  | spread htype hsole hget =>
    obtain ⟨e, hclass, -⟩ := hfile.fragment _ _ hget
    exact ⟨_, .fragment hx hsole hget hclass⟩
  | nested => exact ⟨_, .own hx rfl⟩

theorem Target.found_iff {file : List Declared} (hfile : c.Declares file) {d : CompiledClass c}
    {outer : List ClassDecl} {p : Property} {target : Declared} (h : d.Target outer p target) :
    lookupType file target.name (d.decl :: outer) = some target ↔
      (target.IsTopLevel → ∀ e ∈ d.decl :: outer, target.name ∉ e.nestedNames) := by
  cases h with
  | own hx hnested =>
    have hmem := d.mem_nestedClasses.mpr ⟨_, _, hx, hnested⟩
    exact iff_of_true (lookupType_nested d.nodup_nestedNames hmem)
      fun htop => absurd htop (List.cons_ne_nil _ _)
  | fragment hx hsole hget hclass =>
    obtain ⟨e, hclass', hmem⟩ := hfile.fragment _ _ hget
    cases hclass.symm.trans hclass'
    exact lookupType_topLevel_iff hfile.nodup hmem rfl
  | enum hx hnone htype hdefinition hlisted hvalues =>
    have hmem := hfile.enum _ _ _ hdefinition hlisted hvalues
    exact lookupType_topLevel_iff hfile.nodup hmem trivial

theorem references {file : List Declared} (hfile : c.Declares file) (d : CompiledClass c)
    (outer : List ClassDecl) : d.References file outer where
  exists_target p hp := by
    rw [decl, ClassDecl.properties_members] at hp
    obtain ⟨⟨f, x⟩, hx, rfl⟩ := List.mem_map.mp hp
    exact ⟨f, x, hx, rfl, d.exists_target hfile outer hx⟩
  hasElement _ _ h := h.hasElement
  found_iff _ _ h := h.found_iff hfile
  nested_name _ hn := d.exists_candidate hn

end CompiledClass

/-! ### Generated files -/

namespace Generator

/-- The declarations at the top of a file: the client and its interface, the classes and enums of a
run, and whatever else the templates declare. -/
def topLevel (g : Generator) (d : Declarations) (others : List Text) : List Declared :=
  [.other g.config.interfaceName, .other g.config.operationsClassName] ++
    d.classes.map (.cls · []) ++ d.enums.map .enum ++ others.map .other

/-- The class of an answer or a fragment, with the selections and the type it is compiled from. -/
inductive DataClass (g : Generator) : ClassDecl → List Selection → TypeDefinition → Prop
  | response {o : Operation} {d : ClassDecl} {root : TypeDefinition} (ho : o ∈ g.operations)
      (hroot : g.context.rootType o = .ok root) (hd : g.context.responseClass o = .ok d) :
      DataClass g d o.selections root
  | fragment {f : Fragment} {d : ClassDecl} {on : TypeDefinition}
      (hf : f ∈ g.context.fragments.effective) (hon : g.schema.type? f.on = some on)
      (hd : g.context.fragmentClass f = .ok d) : DataClass g d f.definition.selections on

variable {g : Generator}

theorem DataClass.exists_compiledClass {d : ClassDecl} {selections : List Selection}
    {parent : TypeDefinition} (h : g.DataClass d selections parent) :
    ∃ r : CompiledClass g.context.toSelectionContext,
      r.decl = d ∧ r.selections = selections ∧ r.parent = parent := by
  cases h with
  | response ho hroot hd =>
    obtain ⟨root, hroot', hd⟩ := bind_eq_ok.mp hd
    cases hroot.symm.trans hroot'
    obtain ⟨name, -, hd⟩ := bind_eq_ok.mp hd
    obtain ⟨-, hd⟩ := SelectionContext.compileRoot_eq_ok.mp hd
    exact CompiledClass.exists_on_of_compileClassWithin hd
  | fragment hf hon hd =>
    obtain ⟨on, hon', -, hd⟩ := SelectionContext.fragmentClass_eq_ok.mp hd
    cases hon.symm.trans hon'
    exact CompiledClass.exists_on_of_compileClassWithin hd

/-- A typesafe run declares the classes of fragments and the enums. -/
theorem declares_topLevel {d : Declarations} {others : List Text}
    (htypesafe : g.config.typesafeOperation = true) (hd : g.declarations = .ok d)
    (hnodup : ((g.topLevel d others).map Declared.name).Nodup) :
    g.context.toSelectionContext.Declares (g.topLevel d others) := by
  simp only [declarations, htypesafe, if_true] at hd
  obtain ⟨fragments, hfragments, hd⟩ := bind_eq_ok.mp hd
  obtain ⟨compiled, -, hd⟩ := bind_eq_ok.mp hd
  cases hd
  refine ⟨hnodup, ?_, ?_⟩
  · intro name fragment hget
    obtain ⟨e, he, hclass⟩ := exists_mem_of_mapM hfragments (FragmentTable.mem_effective hget)
    exact ⟨e, hclass, by simp [topLevel, he]⟩
  · intro name definition values htype hlisted hvalues
    have henum : (definition.name, values) ∈ g.schema.enumTypes := by
      have hmem : definition ∈ g.schema.types := List.mem_of_find?_eq_some htype
      rw [Schema.enumTypes, List.mem_filterMap]
      refine ⟨definition, ?_, by rw [hvalues]; rfl⟩
      simp [Schema.listed, hmem, hlisted]
    simp only [topLevel, List.mem_append, List.mem_map]
    exact .inl (.inr ⟨_, ⟨_, henum, rfl⟩, rfl⟩)

end Generator

/-- **References.** In a file of a typesafe run whose declarations differ in name, take a class in the
class of an answer or a fragment, at any depth. The type of each property is written with the name
of the declaration that the property is compiled for. A class nested for a field is found under its
name; the class of a fragment and an enum are found unless the class itself, or a class around it,
has a nested class of that name. -/
theorem typeName_found_iff {g : Generator} {d : Generator.Declarations} {others : List Text}
    (htypesafe : g.config.typesafeOperation = true) (hd : g.declarations = .ok d)
    (hnodup : ((g.topLevel d others).map Declared.name).Nodup) {root : ClassDecl}
    {selections : List Selection} {parent : TypeDefinition}
    (hroot : g.DataClass root selections parent) :
    ∃ r : CompiledClass g.context.toSelectionContext,
      r.decl = root ∧ r.selections = selections ∧ r.parent = parent ∧
      ∀ e outer, root.Inside e outer → ∃ s rs, r.Inside s rs ∧ s.decl = e ∧
        rs.map CompiledClass.decl = outer ∧ s.References (g.topLevel d others) outer := by
  obtain ⟨r, rfl, hselections, hparent⟩ := hroot.exists_compiledClass
  refine ⟨r, rfl, hselections, hparent, fun e outer hinside => ?_⟩
  obtain ⟨s, rs, hs, hdecl, houter⟩ := CompiledClass.exists_inside hinside
  have hfile := Generator.declares_topLevel htypesafe hd hnodup
  exact ⟨s, rs, hs, hdecl, houter, s.references hfile outer⟩

namespace LookupSample

/-- The root of queries, with two users. -/
def query : TypeDefinition :=
  ⟨"Query", .object [] [⟨"user", [], .named "User", []⟩, ⟨"other", [], .named "User", []⟩], []⟩

/-- Users with a name, a role and a friend. -/
def user : TypeDefinition :=
  ⟨"User", .object [] [⟨"name", [], .named "String", []⟩, ⟨"role", [], .named "Role", []⟩,
    ⟨"friend", [], .named "User", []⟩], []⟩

/-- The roles of users. -/
def role : TypeDefinition :=
  ⟨"Role", .enum [⟨"ADMIN", []⟩, ⟨"GUEST", []⟩], []⟩

/-- The other user, through a fragment alone. -/
def other (fragment : Text) : Field :=
  ⟨none, "other", [], [], [.spread fragment []]⟩

/-- Asks for a user's role and friend and for another user, both of these through a fragment. -/
def operation (fragment : Text) : Operation :=
  ⟨none, .query, some "Find", [], [],
    [.field none "user" [] [] [.field none "role" [] [] [],
        .field none "friend" [] [] [.spread fragment []]],
      (other fragment).toSelection]⟩

/-- A run on the operation, with a fragment of the given name. -/
def generator (fragment : Text) : Generator where
  schema := ⟨[query, user, role], [(.query, "Query")], []⟩
  documents := [⟨[.operation (operation fragment),
    .fragment ⟨none, fragment, "User", [], [.field none "name" [] [] []]⟩]⟩]
  config := { typesafeOperation := true, documentMode := .external }

/-- The class nested for the user, with a property of the fragment's class. -/
def userClass (fragment member : Text) : ClassDecl :=
  ⟨"UserResult", [.property ⟨"role", "Role", "Role?"⟩, .property ⟨"friend", member, fragment⟩],
    none⟩

/-- The class of the answer, with another such property. -/
def payload (fragment member : Text) : ClassDecl :=
  ⟨"FindPayload", [(userClass fragment member).toMember, .property ⟨"user", "Result", "UserResult"⟩,
    .property ⟨"other", member, fragment⟩], none⟩

/-- The class of the fragment. -/
def fragmentClass (fragment : Text) : ClassDecl :=
  ⟨fragment, [.property ⟨"name", "Name", "String"⟩], none⟩

theorem info_found :
    ∃ d, (generator "Info").declarations = .ok d ∧
      (((generator "Info").topLevel d []).map Declared.name).Nodup ∧
      (generator "Info").DataClass (payload "Info" "Info") (operation "Info").selections query ∧
      (payload "Info" "Info").Inside (userClass "Info" "Info") [payload "Info" "Info"] ∧
      ∃ s : CompiledClass (generator "Info").context.toSelectionContext,
        s.decl = userClass "Info" "Info" ∧
          s.References ((generator "Info").topLevel d []) [payload "Info" "Info"] := by
  have hroot : (generator "Info").DataClass (payload "Info" "Info") (operation "Info").selections
      query := .response List.mem_cons_self rfl rfl
  have hinside : (payload "Info" "Info").Inside (userClass "Info" "Info") [payload "Info" "Info"] :=
    .nested .root List.mem_cons_self
  obtain ⟨d, hd, hnodup⟩ : ∃ d, (generator "Info").declarations = .ok d ∧
      (((generator "Info").topLevel d []).map Declared.name).Nodup := ⟨_, rfl, by decide⟩
  refine ⟨d, hd, hnodup, hroot, hinside, ?_⟩
  obtain ⟨r, -, -, -, hreferences⟩ := typeName_found_iff rfl hd hnodup hroot
  obtain ⟨s, rs, -, hs, -, hreferences⟩ := hreferences _ _ hinside
  exact ⟨s, hs, hreferences⟩

/-- Names do not always lead to the declaration that a property is compiled for: a fragment
`UserResult` is hidden by the class nested for the user, and the other user is read into that. -/
theorem not_always_found :
    ¬∀ (g : Generator) (d : Generator.Declarations) (others : List Text) (root : ClassDecl)
      (selections : List Selection) (parent : TypeDefinition),
      g.config.typesafeOperation = true → g.declarations = .ok d →
      ((g.topLevel d others).map Declared.name).Nodup → g.DataClass root selections parent →
      ∃ r : CompiledClass g.context.toSelectionContext,
        r.decl = root ∧ r.selections = selections ∧ r.parent = parent ∧
        ∀ e outer, root.Inside e outer → ∃ s rs, r.Inside s rs ∧ s.decl = e ∧
          rs.map CompiledClass.decl = outer ∧ ∀ p target, s.Target outer p target →
            lookupType (g.topLevel d others) target.name (e :: outer) = some target := by
  intro h
  have hroot : (generator "UserResult").DataClass (payload "UserResult" "UserResult2")
      (operation "UserResult").selections query := .response List.mem_cons_self rfl rfl
  obtain ⟨d, hd, hnodup⟩ : ∃ d, (generator "UserResult").declarations = .ok d ∧
      (((generator "UserResult").topLevel d []).map Declared.name).Nodup := ⟨_, rfl, by decide⟩
  obtain ⟨r, -, hselections, hparent, hfound⟩ := h _ d [] _ _ _ rfl hd hnodup hroot
  obtain ⟨s, rs, hinside, -, hrs, hfound⟩ := hfound _ _ .root
  rw [List.map_eq_nil_iff] at hrs
  subst hrs
  cases hinside
  have hmem : other "UserResult" ∈ r.fields.map Prod.fst := by
    have hgroups := r.collected
    rw [hselections, hparent] at hgroups
    rw [r.run.map_fst, ← Except.ok.inj hgroups]
    exact List.mem_cons_of_mem _ List.mem_cons_self
  obtain ⟨⟨f, x⟩, hx, rfl⟩ := List.mem_map.mp hmem
  have htarget : r.Target [] x.property (.cls (fragmentClass "UserResult") []) :=
    .fragment hx rfl rfl rfl
  have hhidden : (fragmentClass "UserResult").name ∈
      (payload "UserResult" "UserResult2").nestedNames := List.mem_cons_self
  obtain ⟨e, outer, hne, hlookup⟩ : ∃ e outer, outer ≠ [] ∧
      lookupType ((generator "UserResult").topLevel d []) (fragmentClass "UserResult").name
        [payload "UserResult" "UserResult2"] = some (.cls e outer) :=
    exists_lookupType_of_mem List.mem_cons_self hhidden
  have hsame := Option.some.inj (hlookup.symm.trans (hfound _ _ htarget))
  exact hne (Declared.cls.inj hsame).2

end LookupSample

end SharpClient

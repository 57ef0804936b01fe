import SharpClient.Proofs.Declaration.Appending
import SharpClient.Proofs.Naming.Identifier

/-!
# Classes of variables

The class of an operation's variables has a property for each variable and a constructor that assigns
them all. A variable goes into it by two names: its member is put into Pascal case and made distinct
from the others by a number, its parameter is the name of the variable itself, escaped where it is
reserved. So two variables may share the stem of their members, but never a parameter.

`ClassDecl.Binds` says what the class looks like. An operation has such a class just when the schema
knows the type of each of its variables (`requestClass_binds`).
-/

namespace SharpClient

open Outcome

/-- The type that a variable has in its class. -/
def OperationContext.variableType (c : OperationContext) (v : Variable) : Text :=
  (c.resolve v.type v.default.isSome).text

/-- The class has a property for each variable, in order, and nothing else; its constructor takes a
parameter for each of them and assigns each parameter to its property. -/
structure ClassDecl.Binds (d : ClassDecl) (k : Constructor) (c : OperationContext)
    (vs : List Variable) : Prop where
  /-- The constructor is that of the class. -/
  constructor : d.constructor = some k
  className : k.className = d.name
  /-- There are no nested classes. -/
  members : d.members = d.properties.map Member.property
  wires : d.properties.map (·.wire) = vs.map (·.name)
  types : d.properties.map (·.type) = vs.map c.variableType
  parameterTypes : k.parameters.map (·.type) = d.properties.map (·.type)
  /-- Each parameter has the name of its variable, escaped where needed. -/
  parameterNames : k.parameters.map (fun p => Naming.bare p.name) = vs.map (·.name)
  parametersDistinct : (k.parameters.map fun p => Naming.bare p.name).Nodup
  identifiers : ∀ p ∈ k.parameters, Naming.IsIdentifier p.name ∧ p.name ∉ Naming.keywords
  assignments : k.assignments = (d.properties.map (·.member)).zip (k.parameters.map (·.name))
  assignedOnce : ∀ p ∈ d.properties, (k.assignments.map Prod.fst).count p.member = 1

namespace OperationContext

variable {c : OperationContext} {scope : Scope} {vs : List Variable}
  {members : List (Property × Parameter)}

/-! ### Members of variables -/

theorem exists_requestMembers (h : ∀ v ∈ vs, (c.schema.type? v.type.core).isSome) (scope : Scope) :
    ∃ members, c.requestMembers scope vs = .ok members := by
  induction vs generalizing scope with
  | nil => exact ⟨[], rfl⟩
  | cons v vs ih =>
    rw [List.forall_mem_cons] at h
    obtain ⟨type, htype⟩ := Option.isSome_iff_exists.mp h.1
    obtain ⟨rest, hrest⟩ := ih h.2 (scope.claim (Naming.member v.name)).2
    have hresolve : c.resolveWritten v.type v.default.isSome =
        .ok (c.resolve v.type v.default.isSome) := by
      rw [TypeContext.resolveWritten, htype]
    exact ⟨_, bind_eq_ok.mpr ⟨_, hresolve, bind_eq_ok.mpr ⟨rest, hrest, rfl⟩⟩⟩

/-- The first variable of an unknown type ends the search. -/
theorem requestMembers_eq_error (h : ∃ v ∈ vs, c.schema.type? v.type.core = none) (scope : Scope) :
    ∃ v ∈ vs, c.schema.type? v.type.core = none ∧
      c.requestMembers scope vs = .error (.typeNotFound v.type.text) := by
  induction vs generalizing scope with
  | nil => simp at h
  | cons v vs ih =>
    cases htype : c.schema.type? v.type.core with
    | none =>
      refine ⟨v, List.mem_cons_self, htype, ?_⟩
      rw [requestMembers, TypeContext.resolveWritten, htype]
      rfl
    | some type =>
      have hrest : ∃ w ∈ vs, c.schema.type? w.type.core = none := by
        obtain ⟨w, hw, hnone⟩ := h
        rcases List.mem_cons.mp hw with rfl | hw
        · cases htype.symm.trans hnone
        · exact ⟨w, hw, hnone⟩
      obtain ⟨w, hw, hnone, herror⟩ := ih hrest (scope.claim (Naming.member v.name)).2
      refine ⟨w, List.mem_cons_of_mem v hw, hnone, ?_⟩
      rw [requestMembers, TypeContext.resolveWritten, htype, ok_bind]
      exact congrArg (· >>= _) herror

/-- Property and parameter of a variable have one type, and the parameter has the variable's name. -/
theorem requestMembers_types (h : c.requestMembers scope vs = .ok members) :
    members.map (·.1.type) = vs.map c.variableType ∧
      members.map Prod.snd =
        vs.map fun v => ⟨c.variableType v, Naming.parameter v.name, none⟩ := by
  induction vs generalizing scope members with
  | nil =>
    cases h
    exact ⟨rfl, rfl⟩
  | cons v vs ih =>
    obtain ⟨type, htype, h⟩ := bind_eq_ok.mp h
    obtain ⟨rest, hrest, h⟩ := bind_eq_ok.mp h
    cases h
    have hresolve : type.text = c.variableType v := by
      rw [TypeContext.resolveWritten] at htype
      split at htype
      · exact congrArg _ (Except.ok.inj htype).symm
      · cases htype
    obtain ⟨htypes, hparameters⟩ := ih hrest
    simp only [List.map_cons, htypes, hparameters, hresolve, and_self]

/-! ### The class -/

/-- The constructor that assigns members of variables. -/
def boundConstructor (name : Text) (members : List (Property × Parameter)) : Constructor :=
  { className := name
    parameters := members.map Prod.snd
    assignments := members.map fun m => (m.1.member, m.2.name) }

/-- The class that has members of variables. -/
def boundClass (name : Text) (members : List (Property × Parameter)) : ClassDecl :=
  { name
    members := (members.map Prod.fst).map .property
    constructor := some (boundConstructor name members) }

theorem requestClass_eq {o : Operation} {name : Text} (hname : o.supportedName = .ok name)
    (hvariables : o.variableDefinitions ≠ []) :
    c.requestClass o =
      (c.requestMembers (Scope.ofClass (c.convention.requestClass name)) o.variableDefinitions).map
        fun members => some (boundClass (c.convention.requestClass name) members) := by
  have hempty : ¬ o.variableDefinitions.isEmpty := by simpa using hvariables
  rw [requestClass, hname, ok_bind, if_neg hempty]
  simp only [boundClass, List.map_map]
  change (c.requestMembers (Scope.ofClass (c.convention.requestClass name)) _ >>= _) = _
  cases c.requestMembers (Scope.ofClass (c.convention.requestClass name)) o.variableDefinitions with
  | error e => rfl
  | ok members => rfl

theorem binds_boundClass {name : Text} (hnodup : (vs.map (·.name)).Nodup)
    (hnames : ∀ v ∈ vs, IsName v.name) (h : c.requestMembers scope vs = .ok members) :
    (boundClass name members).Binds (boundConstructor name members) c vs := by
  have hproperties : (boundClass name members).properties = members.map Prod.fst :=
    ClassDecl.properties_of_properties name (members.map Prod.fst) _
  obtain ⟨htypes, hparameters⟩ := requestMembers_types h
  have hbare : (members.map Prod.snd).map (fun p => Naming.bare p.name) = vs.map (·.name) := by
    rw [hparameters, List.map_map]
    exact List.map_congr_left fun v hv => Naming.bare_escaped (hnames v hv)
  -- The members are claimed one after another in one scope, so no two of them are the same.
  have hmembers : (members.map (·.1.member)).Nodup := by
    rw [requestMembers_names h]
    exact Scope.claimAll_nodup scope _
  have hassigned : (boundConstructor name members).assignments.map Prod.fst =
      members.map (·.1.member) := List.map_map
  exact {
    constructor := rfl
    className := rfl
    members := by rw [hproperties, boundClass]
    wires := by
      rw [hproperties, List.map_map]
      exact requestMembers_wires h
    types := by
      rw [hproperties, List.map_map]
      exact htypes
    parameterTypes := by
      rw [hproperties, boundConstructor, hparameters, List.map_map, List.map_map]
      exact htypes.symm
    parameterNames := hbare
    parametersDistinct := by
      rw [boundConstructor, hbare]
      exact hnodup
    identifiers := by
      intro p hp
      rw [boundConstructor, hparameters] at hp
      obtain ⟨v, hv, rfl⟩ := List.mem_map.mp hp
      have hidentifier := Naming.isIdentifier_escaped (hnames v hv)
      exact ⟨hidentifier, hidentifier.not_mem_keywords⟩
    assignments := by
      rw [hproperties, boundConstructor, List.map_map, List.map_map, List.zip_map']
      rfl
    assignedOnce := by
      intro p hp
      rw [hproperties] at hp
      obtain ⟨m, hm, rfl⟩ := List.mem_map.mp hp
      rw [hassigned]
      exact List.count_eq_one_of_mem hmembers (List.mem_map_of_mem hm) }

/-- **Every variable is bound once.** A supported operation with distinct variables has a class that
binds each of them, if the schema knows their types. Otherwise it has none, and the error names the
type of a variable that is not known. -/
theorem requestClass_binds (c : OperationContext) {o : Operation} {name : Text}
    (hname : o.supportedName = .ok name) (hvariables : o.variableDefinitions ≠ [])
    (hnodup : (o.variableDefinitions.map (·.name)).Nodup)
    (hnames : ∀ v ∈ o.variableDefinitions, IsName v.name) :
    ((∀ v ∈ o.variableDefinitions, (c.schema.type? v.type.core).isSome) →
      ∃ d k, c.requestClass o = .ok (some d) ∧ d.name = c.convention.requestClass name ∧
        d.Binds k c o.variableDefinitions) ∧
    ((∃ v ∈ o.variableDefinitions, c.schema.type? v.type.core = none) →
      ∃ v ∈ o.variableDefinitions, c.schema.type? v.type.core = none ∧
        c.requestClass o = .error (.typeNotFound v.type.text)) := by
  have hclass := c.requestClass_eq hname hvariables
  refine ⟨fun hknown => ?_, fun hunknown => ?_⟩
  · obtain ⟨members, hmembers⟩ :=
      exists_requestMembers hknown (Scope.ofClass (c.convention.requestClass name))
    rw [hmembers] at hclass
    exact ⟨_, _, hclass, rfl, binds_boundClass hnodup hnames hmembers⟩
  · obtain ⟨v, hv, hnone, herror⟩ :=
      requestMembers_eq_error hunknown (Scope.ofClass (c.convention.requestClass name))
    rw [herror] at hclass
    exact ⟨v, hv, hnone, hclass⟩

end OperationContext

namespace CourseSample

/-- A schema that knows users and no other type. -/
def context : OperationContext where
  schema := ⟨[⟨"User", .object [] [], []⟩], [], []⟩
  scalars := ⟨[]⟩
  convention := .keep
  fragments := ⟨[]⟩
  limit := 1
  config := {}

/-- Asks with a reserved word and with a name that has the same member. -/
def enrol : Operation :=
  ⟨none, .mutation, some "enrol", [⟨none, "class", .nonNull (.named "User"), none, []⟩,
    ⟨none, "Class", .list (.named "User"), none, []⟩], [], []⟩

/-- A course, which the schema does not know. -/
def course : Variable :=
  ⟨none, "course", .nonNull (.named "Course"), none, []⟩

/-- Asks for a course as well. -/
def enrolIn : Operation :=
  { enrol with variableDefinitions := enrol.variableDefinitions ++ [course] }

theorem enrol_binds :
    (∃ d k, context.requestClass enrol = .ok (some d) ∧
      d.properties.map (·.member) = ["Class", "Class2"].map String.toList ∧
      k.parameters.map (·.name) = ["@class", "Class"].map String.toList ∧
      d.Binds k context enrol.variableDefinitions) ∧
    context.requestClass enrolIn = .error (.typeNotFound "Course!") := by
  obtain ⟨d, k, hclass, -, hbinds⟩ :=
    (context.requestClass_binds (o := enrol) rfl (by decide) (by decide) (by decide)).1 (by decide)
  obtain ⟨v, hv, hnone, herror⟩ :=
    (context.requestClass_binds (o := enrolIn) rfl (by decide) (by decide) (by decide)).2
      ⟨course, List.mem_append_right _ List.mem_cons_self, rfl⟩
  refine ⟨⟨d, k, hclass, ?_, ?_, hbinds⟩, ?_⟩
  · cases hclass
    rfl
  · cases hclass
    cases hbinds.constructor
    rfl
  · -- The two variables of the shorter operation are of a known type.
    have hunknown : ∀ w ∈ enrolIn.variableDefinitions, context.schema.type? w.type.core = none →
        w.type.text = "Course!" := by decide
    rwa [hunknown v hv hnone] at herror

end CourseSample

end SharpClient

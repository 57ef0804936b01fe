import SharpClient.Proofs.Selection.Fragments
import SharpClient.Selection.Compile

/-!
# Runs of the class compiler

What a successful compilation did, step by step. A field goes by one of three rules (`FieldRule`),
the groups of a class go one by one through the scope of the class (`GroupsRun`), and a class is
compiled from the groups of its selections (`compileClassWithin_eq_ok`). Statements about generated
classes are proved from these three and never open the compiler itself.
-/

namespace SharpClient

open Outcome

namespace CompiledField

@[simp] theorem members_leaf (p : Property) : members ⟨p, none⟩ = [.property p] := rfl

@[simp] theorem members_nested (p : Property) (d : ClassDecl) :
    members ⟨p, some d⟩ = [d.toMember, .property p] := rfl

end CompiledField

namespace ClassDecl

theorem properties_members (name : Text) (xs : List (Field × CompiledField)) :
    properties ⟨name, xs.flatMap (·.2.members), none⟩ = xs.map (·.2.property) := by
  rw [properties]
  induction xs with
  | nil => rfl
  | cons x xs ih =>
    obtain ⟨f, p, nested⟩ := x
    rw [List.flatMap_cons, List.filterMap_append, ih]
    cases nested <;> rfl

theorem nestedClasses_members (name : Text) (xs : List (Field × CompiledField)) :
    nestedClasses ⟨name, xs.flatMap (·.2.members), none⟩ = xs.filterMap (·.2.nested) := by
  rw [nestedClasses]
  induction xs with
  | nil => rfl
  | cons x xs ih =>
    obtain ⟨f, p, nested⟩ := x
    rw [List.flatMap_cons, List.filterMap_append, ih]
    cases nested <;> rfl

end ClassDecl

@[simp] theorem FieldGroup.key_merged (g : FieldGroup) : g.merged.key = g.key := rfl

theorem soleSpread?_eq_some {selections : List Selection} {name : Text}
    (h : soleSpread? selections = some name) :
    ∃ directives, selections = [.spread name directives] := by
  unfold soleSpread? at h
  split at h
  · cases h
    exact ⟨_, rfl⟩
  · cases h

namespace SelectionContext

variable {c : SelectionContext}
  {nest : Text → List Selection → TypeDefinition → Except GenerationError ClassDecl}
  {parent : TypeDefinition}

/-- The member for a field that takes the class of a fragment. -/
def spreadMember (c : SelectionContext) (type : TypeRef) (fragment : Fragment) : Text :=
  if (c.resolve type).isList then c.convention.fragmentClass fragment.name ++ "s"
  else c.convention.fragmentClass fragment.name

/-- The rules by which a field becomes members, with the scope before and after it. -/
inductive FieldRule (c : SelectionContext)
    (nest : Text → List Selection → TypeDefinition → Except GenerationError ClassDecl)
    (parent : TypeDefinition) (scope : Scope) (f : Field) : CompiledField → Scope → Prop
  /-- A field without a sub-selection is a property. -/
  | leaf {type : TypeRef} (htype : fieldType parent f.name = .ok type)
      (hnone : f.selections = []) :
      FieldRule c nest parent scope f
        ⟨⟨f.key, scope.free (Naming.member f.key), (c.resolve type).text⟩, none⟩
        (scope.claim (Naming.member f.key)).2
  /-- A field whose only selection is a spread is a property of the fragment's class. -/
  | spread {type : TypeRef} {name : Text} {fragment : Fragment}
      (htype : fieldType parent f.name = .ok type)
      (hsole : soleSpread? f.selections = some name)
      (hget : c.fragments.get? name = some fragment) :
      FieldRule c nest parent scope f
        ⟨⟨f.key, scope.free (c.spreadMember type fragment),
          ((c.resolve type).withElement (c.convention.fragmentClass fragment.name)).text⟩, none⟩
        (scope.claim (c.spreadMember type fragment)).2
  /-- Any other field is a class and a property of that class. -/
  | nested {type : TypeRef} {core : TypeDefinition} {d : ClassDecl} {scope' : Scope}
      {className : Text}
      (htype : fieldType parent f.name = .ok type) (hsome : f.selections ≠ [])
      (hsole : soleSpread? f.selections = none) (hcore : c.coreType type = .ok core)
      (hclaim : scope.claim (Naming.resultClass f.key (c.resolve type).isList)
        = (className, scope'))
      (hnest : nest className f.selections core = .ok d) :
      FieldRule c nest parent scope f
        ⟨⟨f.key, scope'.free Naming.resultSuffix, ((c.resolve type).withElement className).text⟩,
          some d⟩
        (scope'.claim Naming.resultSuffix).2

/-- A field is compiled by one of the rules. -/
theorem fieldRule_of_compileFieldWith {scope scope' : Scope} {f : Field} {x : CompiledField}
    (h : c.compileFieldWith nest parent scope f = .ok (x, scope')) :
    FieldRule c nest parent scope f x scope' := by
  obtain ⟨type, htype, h⟩ := bind_eq_ok.mp h
  by_cases hnone : f.selections = []
  · simp only [hnone, List.isEmpty_nil, if_true, pure_eq_ok, Except.ok.injEq, Prod.mk.injEq] at h
    obtain ⟨rfl, rfl⟩ := h
    exact .leaf htype hnone
  · have hempty : f.selections.isEmpty = false := by simpa using hnone
    simp only [hempty, Bool.false_eq_true, if_false] at h
    cases hsole : soleSpread? f.selections with
    | some name =>
      simp only [hsole] at h
      obtain ⟨fragment, hget, h⟩ := bind_eq_ok.mp h
      simp only [pure_eq_ok, Except.ok.injEq, Prod.mk.injEq] at h
      obtain ⟨rfl, rfl⟩ := h
      exact .spread htype hsole (FragmentTable.get_eq_ok.mp hget)
    | none =>
      simp only [hsole] at h
      obtain ⟨core, hcore, h⟩ := bind_eq_ok.mp h
      obtain ⟨d, hnest, h⟩ := bind_eq_ok.mp h
      simp only [pure_eq_ok, Except.ok.injEq, Prod.mk.injEq] at h
      obtain ⟨rfl, rfl⟩ := h
      exact .nested htype hnone hsole hcore rfl hnest

theorem compileFieldWith_of_fieldRule {scope scope' : Scope} {f : Field} {x : CompiledField}
    (h : FieldRule c nest parent scope f x scope') :
    c.compileFieldWith nest parent scope f = .ok (x, scope') := by
  rw [compileFieldWith]
  cases h with
  | leaf htype hnone =>
    rw [htype, ok_bind, hnone]
    rfl
  | spread htype hsole hget =>
    obtain ⟨directives, hselections⟩ := soleSpread?_eq_some hsole
    rw [htype, ok_bind, hselections]
    simp only [soleSpread?, FragmentTable.get_eq_ok.mpr hget, ok_bind]
    rfl
  | nested htype hsome hsole hcore hclaim hnest =>
    have hempty : f.selections.isEmpty = false := by simpa using hsome
    rw [htype, ok_bind, hempty, hsole]
    simp only [Bool.false_eq_true, if_false, hclaim, hcore, ok_bind, hnest]
    rfl

/-! ### The groups of a class -/

/-- The fields that the groups of a class stand for, each with what it became, in a run that started
with a scope. -/
inductive GroupsRun (c : SelectionContext)
    (nest : Text → List Selection → TypeDefinition → Except GenerationError ClassDecl)
    (parent : TypeDefinition) : Scope → List FieldGroup → List (Field × CompiledField) → Prop
  | nil (scope : Scope) : GroupsRun c nest parent scope [] []
  | cons {scope scope' : Scope} {g : FieldGroup} {gs : List FieldGroup} {x : CompiledField}
      {xs : List (Field × CompiledField)}
      (hfield : c.compileFieldWith nest parent scope g.merged = .ok (x, scope'))
      (hrest : GroupsRun c nest parent scope' gs xs) :
      GroupsRun c nest parent scope (g :: gs) ((g.merged, x) :: xs)

theorem compileGroups_eq_ok {scope : Scope} {groups : List FieldGroup} {members : List Member} :
    c.compileGroups nest parent scope groups = .ok members ↔
      ∃ xs, GroupsRun c nest parent scope groups xs ∧
        members = xs.flatMap (·.2.members) := by
  induction groups generalizing scope members with
  | nil =>
    constructor
    · intro h
      exact ⟨[], .nil scope, (Except.ok.inj h).symm⟩
    · rintro ⟨xs, hrun, rfl⟩
      cases hrun
      rfl
  | cons g gs ih =>
    constructor
    · intro h
      obtain ⟨⟨x, scope'⟩, hfield, h⟩ := bind_eq_ok.mp h
      obtain ⟨rest, hrest, h⟩ := bind_eq_ok.mp h
      obtain ⟨xs, hrun, rfl⟩ := ih.mp hrest
      exact ⟨(g.merged, x) :: xs, .cons hfield hrun, (Except.ok.inj h).symm⟩
    · rintro ⟨xs, hrun, rfl⟩
      cases hrun with
      | @cons _ scope' _ _ x xs hfield hrun =>
        have hrest := ih.mpr ⟨xs, hrun, rfl⟩
        simp only [compileGroups, hfield, ok_bind, hrest]
        rfl

namespace GroupsRun

variable {scope : Scope} {groups : List FieldGroup} {xs : List (Field × CompiledField)}

/-- Every field of a run was compiled by one of the rules, in some scope. -/
theorem exists_fieldRule (h : GroupsRun c nest parent scope groups xs) {f : Field}
    {x : CompiledField} (hmem : (f, x) ∈ xs) :
    ∃ scope scope', FieldRule c nest parent scope f x scope' := by
  induction h with
  | nil => simp at hmem
  | cons hfield hrest ih =>
    rcases List.mem_cons.mp hmem with heq | hmem
    · cases heq
      exact ⟨_, _, fieldRule_of_compileFieldWith hfield⟩
    · exact ih hmem

theorem map_fst (h : GroupsRun c nest parent scope groups xs) :
    xs.map Prod.fst = groups.map FieldGroup.merged := by
  induction h with
  | nil => rfl
  | cons hfield hrest ih => rw [List.map_cons, List.map_cons, ih]

end GroupsRun

/-- A class is compiled from the groups of its selections, in a scope of its own. -/
theorem compileClassWithin_eq_ok {limit : Nat} {name : Text} {selections : List Selection}
    {d : ClassDecl} :
    c.compileClassWithin (limit + 1) name selections parent = .ok d ↔
      ∃ groups xs, collectFields c.fragments parent.name selections = .ok groups ∧
        GroupsRun c (c.compileClassWithin limit) parent (Scope.ofClass name) groups xs ∧
        d = ⟨name, xs.flatMap (·.2.members), none⟩ := by
  constructor
  · intro h
    obtain ⟨members, hmembers, h⟩ := bind_eq_ok.mp h
    obtain ⟨groups, hgroups, hcompile⟩ := bind_eq_ok.mp hmembers
    obtain ⟨xs, hrun, rfl⟩ := compileGroups_eq_ok.mp hcompile
    exact ⟨groups, xs, hgroups, hrun, (Except.ok.inj h).symm⟩
  · rintro ⟨groups, xs, hgroups, hrun, rfl⟩
    rw [compileClassWithin, compileSelectionsWith, hgroups, ok_bind,
      compileGroups_eq_ok.mpr ⟨xs, hrun, rfl⟩]
    rfl

theorem name_of_compileClassWithin {limit : Nat} {name : Text} {selections : List Selection}
    {d : ClassDecl} (h : c.compileClassWithin limit name selections parent = .ok d) :
    d.name = name := by
  cases limit with
  | zero => cases h
  | succ limit =>
    obtain ⟨groups, xs, -, -, rfl⟩ := compileClassWithin_eq_ok.mp h
    rfl

/-! ### Roots -/

/-- The class of an operation or a fragment is compiled like any other. -/
theorem compileRoot_eq_ok {name : Text} {selections : List Selection} {d : ClassDecl} :
    c.compileRoot name selections parent = .ok d ↔
      (∀ s ∈ selections, s.isField) ∧ c.compileClass name selections parent = .ok d := by
  rw [compileRoot]
  cases hfind : selections.find? (!·.isField) with
  | none =>
    have hall : ∀ s ∈ selections, s.isField := by simpa using List.find?_eq_none.mp hfind
    exact (and_iff_right hall).symm
  | some s =>
    have hs : s.isField = false := by simpa using List.find?_some hfind
    simp only [reduceCtorEq, false_iff, not_and]
    intro hall
    simp [hall s (List.mem_of_find?_eq_some hfind)] at hs

theorem fragmentClass_eq_ok {f : Fragment} {d : ClassDecl} :
    c.fragmentClass f = .ok d ↔ ∃ parent, c.schema.type? f.on = some parent ∧
      (∀ s ∈ f.definition.selections, s.isField) ∧
      c.compileClass (c.convention.fragmentClass f.name) f.definition.selections parent
        = .ok d := by
  rw [fragmentClass]
  cases c.schema.type? f.on with
  | none => simp
  | some parent => simp [compileRoot_eq_ok]

end SelectionContext

end SharpClient

import SharpClient.Generator.Basic
import SharpClient.Proofs.Naming.Scope
import SharpClient.Proofs.Selection.Compilation

/-!
# Member names of generated classes

The members of a class, its properties and nested classes taken together, must differ in name, and
none of them may bear the name of the class. The generator makes classes for answers, fragments,
variables and input types, the first two with classes nested in them to any depth.

In each of them, and in each nested class, the names of the members are what a row of requests gets
in one scope, which starts with the name of the class. So the members differ for one reason, which is
how scopes grant names.
-/

namespace SharpClient

open Outcome

/-- The name of a member. -/
def Member.name : Member → Text
  | .property p => p.member
  | .nested name _ _ => name

namespace ClassDecl

/-- The names of the members, in order. -/
def memberNames (d : ClassDecl) : List Text :=
  d.members.map Member.name

/-- No two members share a name, and none bears the name of the class, if that has one. -/
structure Distinct (d : ClassDecl) : Prop where
  nodup : d.memberNames.Nodup
  name_not_mem : d.name ≠ [] → d.name ∉ d.memberNames

/-- The second class is the first one, or is nested in it at some depth. -/
inductive Encloses : ClassDecl → ClassDecl → Prop
  | refl (d : ClassDecl) : Encloses d d
  | nested {d e f : ClassDecl} (he : e ∈ d.nestedClasses) (hf : Encloses e f) : Encloses d f

/-- Members whose names were claimed in the scope of their class are distinct. -/
theorem distinct_of_claimAll {d : ClassDecl} {requests : List Text}
    (h : d.memberNames = (Scope.ofClass d.name).claimAll requests) : d.Distinct := by
  refine ⟨h ▸ Scope.claimAll_nodup _ requests, fun hname hmem => ?_⟩
  rw [h] at hmem
  refine Scope.claimAll_not_mem_taken hmem ?_
  simp [Scope.ofClass, hname]

end ClassDecl

/-! ### Classes of selections -/

namespace SelectionContext

variable {c : SelectionContext}

/-- One field claims the names of its members, and leaves the scope with these claims. -/
theorem FieldRule.exists_requests
    {nest : Text → List Selection → TypeDefinition → Except GenerationError ClassDecl}
    {parent : TypeDefinition} {scope scope' : Scope} {f : Field} {x : CompiledField}
    (hnest : ∀ name selections core d, nest name selections core = .ok d → d.name = name)
    (h : FieldRule c nest parent scope f x scope') :
    ∃ requests, ∀ rest, scope.claimAll (requests ++ rest) =
      x.members.map Member.name ++ scope'.claimAll rest := by
  cases h with
  | leaf htype hnone => exact ⟨[_], fun rest => rfl⟩
  | spread htype hsole hget => exact ⟨[_], fun rest => rfl⟩
  | @nested type core d s className htype hsome hsole hcore hclaim hd =>
    refine ⟨[Naming.resultClass f.key (c.resolve type).isList, Naming.resultSuffix], ?_⟩
    intro rest
    have hname : d.toMember.name = className := hnest _ _ _ _ hd
    simp only [List.cons_append, List.nil_append, Scope.claimAll, hclaim,
      CompiledField.members_nested, List.map_cons, List.map_nil, hname]
    rfl

theorem GroupsRun.exists_requests
    {nest : Text → List Selection → TypeDefinition → Except GenerationError ClassDecl}
    {parent : TypeDefinition} {scope : Scope} {groups : List FieldGroup}
    {xs : List (Field × CompiledField)}
    (hnest : ∀ name selections core d, nest name selections core = .ok d → d.name = name)
    (h : GroupsRun c nest parent scope groups xs) :
    ∃ requests, (xs.flatMap (·.2.members)).map Member.name = scope.claimAll requests := by
  induction h with
  | nil scope => exact ⟨[], rfl⟩
  | cons hfield hrest ih =>
    obtain ⟨rest, hrest⟩ := ih
    obtain ⟨requests, hrequests⟩ :=
      (fieldRule_of_compileFieldWith hfield).exists_requests hnest
    exact ⟨requests ++ rest, by rw [hrequests, ← hrest, List.flatMap_cons, List.map_append]⟩

theorem distinct_of_compileClassWithin {limit : Nat} {name : Text}
    {selections : List Selection} {parent : TypeDefinition} {d e : ClassDecl}
    (hd : c.compileClassWithin limit name selections parent = .ok d) (he : d.Encloses e) :
    e.Distinct := by
  -- Classes nest no deeper than the limit, so the induction is on the limit.
  induction limit generalizing name selections parent d with
  | zero => cases hd
  | succ limit ih =>
    obtain ⟨groups, xs, -, hrun, rfl⟩ := compileClassWithin_eq_ok.mp hd
    cases he with
    | refl =>
      obtain ⟨requests, hrequests⟩ :=
        hrun.exists_requests fun _ _ _ _ => name_of_compileClassWithin
      exact ClassDecl.distinct_of_claimAll hrequests
    | nested hmem he =>
      rw [ClassDecl.nestedClasses_members, List.mem_filterMap] at hmem
      obtain ⟨⟨f, x⟩, hx, hnested⟩ := hmem
      obtain ⟨scope, scope', hrule⟩ := hrun.exists_fieldRule hx
      cases hrule with
      | leaf => cases hnested
      | spread => cases hnested
      | nested htype hsome hsole hcore hclaim hnest =>
        cases hnested
        exact ih hnest he

end SelectionContext

/-! ### Classes without nested ones -/

theorem ClassDecl.eq_of_encloses {d e : ClassDecl} (h : d.nestedClasses = [])
    (he : d.Encloses e) : e = d := by
  cases he with
  | refl => rfl
  | nested hmem _ => simp [h] at hmem

theorem ClassDecl.nestedClasses_of_properties (name : Text) (ps : List Property)
    (constructor : Option Constructor) :
    nestedClasses ⟨name, ps.map Member.property, constructor⟩ = [] := by
  simp [nestedClasses]

theorem OperationContext.requestMembers_names {c : OperationContext} {scope : Scope}
    {vs : List Variable} {members : List (Property × Parameter)}
    (h : c.requestMembers scope vs = .ok members) :
    members.map (·.1.member) = scope.claimAll (vs.map fun v => Naming.member v.name) := by
  induction vs generalizing scope members with
  | nil => cases h; rfl
  | cons v vs ih =>
    obtain ⟨type, -, h⟩ := bind_eq_ok.mp h
    obtain ⟨rest, hrest, h⟩ := bind_eq_ok.mp h
    cases h
    rw [List.map_cons, List.map_cons, Scope.claimAll, ih hrest]
    rfl

theorem Generator.inputProperties_names (c : TypeContext) (scope : Scope)
    (fields : List InputValue) :
    (inputProperties c scope fields).map (·.member) =
      scope.claimAll (fields.map fun f => Naming.member f.name) := by
  induction fields generalizing scope with
  | nil => rfl
  | cons f fs ih =>
    rw [List.map_cons, Scope.claimAll, ← ih]
    rfl

theorem OperationContext.requestClass_distinct {c : OperationContext} {o : Operation}
    {d e : ClassDecl} (hd : c.requestClass o = .ok (some d)) (he : d.Encloses e) :
    e.Distinct := by
  obtain ⟨name, -, hd⟩ := bind_eq_ok.mp hd
  split at hd
  · cases hd
  obtain ⟨members, hmembers, hd⟩ := bind_eq_ok.mp hd
  cases hd
  have hmap : members.map (fun m => Member.property m.1) =
      (members.map Prod.fst).map Member.property := by simp
  have hflat := ClassDecl.nestedClasses_of_properties
    (c.convention.requestClass name) (members.map Prod.fst)
  rw [← hmap] at hflat
  rw [ClassDecl.eq_of_encloses (hflat _) he]
  refine ClassDecl.distinct_of_claimAll (Eq.trans ?_ (requestMembers_names hmembers))
  simp [ClassDecl.memberNames, Member.name]

theorem Generator.inputClass_distinct (c : TypeContext) (name : Text) (fields : List InputValue)
    {e : ClassDecl} (he : (inputClass c name fields).Encloses e) : e.Distinct := by
  rw [ClassDecl.eq_of_encloses (ClassDecl.nestedClasses_of_properties _ _ _) he]
  refine ClassDecl.distinct_of_claimAll (Eq.trans ?_ (inputProperties_names c _ fields))
  simp [ClassDecl.memberNames, Member.name]

/-! ### All generated classes -/

/-- The classes that a generator makes. -/
inductive GeneratedClass : ClassDecl → Prop
  /-- The class of an operation's answer. -/
  | response {c : OperationContext} {o : Operation} {d : ClassDecl}
      (h : c.responseClass o = .ok d) : GeneratedClass d
  /-- The class of a fragment. -/
  | fragment {c : SelectionContext} {f : Fragment} {d : ClassDecl}
      (h : c.fragmentClass f = .ok d) : GeneratedClass d
  /-- The class of an operation's variables. -/
  | request {c : OperationContext} {o : Operation} {d : ClassDecl}
      (h : c.requestClass o = .ok (some d)) : GeneratedClass d
  /-- The class of an input type. -/
  | input (c : TypeContext) (name : Text) (fields : List InputValue) :
      GeneratedClass (Generator.inputClass c name fields)

/-- **No member clash.** In every generated class, and in every class nested in one, the members
differ in name from one another and from the class. -/
theorem generatedClass_distinct {d e : ClassDecl} (hd : GeneratedClass d) (he : d.Encloses e) :
    e.Distinct := by
  cases hd with
  | response h =>
    obtain ⟨root, -, h⟩ := bind_eq_ok.mp h
    obtain ⟨name, -, h⟩ := bind_eq_ok.mp h
    obtain ⟨-, h⟩ := SelectionContext.compileRoot_eq_ok.mp h
    exact SelectionContext.distinct_of_compileClassWithin h he
  | fragment h =>
    obtain ⟨parent, -, -, h⟩ := SelectionContext.fragmentClass_eq_ok.mp h
    exact SelectionContext.distinct_of_compileClassWithin h he
  | request h => exact OperationContext.requestClass_distinct h he
  | input c name fields => exact Generator.inputClass_distinct c name fields he

namespace FriendSample

/-- Users with a friend and a result. -/
def context : SelectionContext where
  schema :=
    ⟨[⟨"User", .object [] [⟨"friend", [], .named "User", []⟩, ⟨"result", [], .named "User", []⟩],
      []⟩], [], []⟩
  scalars := ⟨[]⟩
  convention := .keep
  fragments := ⟨[]⟩
  limit := 2

/-- The result of a user's friend and that of the user. -/
def fragment : Fragment :=
  .ofDefinition ⟨none, "Details", "User", [],
    [.field none "friend" [] [] [.field none "result" [] [] []], .field none "result" [] [] []]⟩

/-- The class nested for the friend. -/
def friendClass : ClassDecl :=
  ⟨"FriendResult", [.property ⟨"result", "Result", "User"⟩], none⟩

/-- The class of the fragment: the property of the nested class takes the name `Result` first. -/
def detailsClass : ClassDecl :=
  ⟨"Details", [friendClass.toMember, .property ⟨"friend", "Result", "FriendResult"⟩,
    .property ⟨"result", "Result2", "User"⟩], none⟩

theorem friendClass_distinct :
    context.fragmentClass fragment = .ok detailsClass ∧ detailsClass.Encloses friendClass ∧
      detailsClass.Distinct ∧ friendClass.Distinct := by
  have hclass : context.fragmentClass fragment = .ok detailsClass := rfl
  have hnested : detailsClass.Encloses friendClass := .nested List.mem_cons_self (.refl _)
  exact ⟨hclass, hnested, generatedClass_distinct (.fragment hclass) (.refl _),
    generatedClass_distinct (.fragment hclass) hnested⟩

end FriendSample

end SharpClient

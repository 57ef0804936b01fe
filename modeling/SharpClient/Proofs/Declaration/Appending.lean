import SharpClient.Generator.Basic
import SharpClient.Proofs.Declaration.MemberNames
import SharpClient.Proofs.Selection.Expansion

/-!
# Appending to what a class is made of

Names inside a class depend on all names claimed before, and on none claimed later. So a class that
grows at the end keeps what it had: selections under new keys, further variables of an operation and
further fields of an input type add members behind the earlier ones and rename none of them,
whatever names the new members ask for (`members_of_appended`).

Keys are where the order comes from. Fields under new keys form groups behind the earlier groups
(`collectFields_append`), while a field under an earlier key would change that group.
-/

namespace SharpClient

open Outcome

/-! ### Groups under new keys -/

theorem insertField_append {gs hs : List FieldGroup} {f : Field}
    (h : f.key ∉ gs.map FieldGroup.key) : insertField (gs ++ hs) f = gs ++ insertField hs f := by
  induction gs with
  | nil => rfl
  | cons g gs ih =>
    rw [List.map_cons, List.mem_cons, not_or] at h
    rw [List.cons_append, insertField, if_neg (Ne.symm h.1), ih h.2, List.cons_append]

theorem foldl_insertField_append {gs : List FieldGroup} {fs : List Field}
    (h : ∀ f ∈ fs, f.key ∉ gs.map FieldGroup.key) (hs : List FieldGroup) :
    fs.foldl insertField (gs ++ hs) = gs ++ fs.foldl insertField hs := by
  induction fs generalizing hs with
  | nil => rfl
  | cons f fs ih =>
    rw [List.forall_mem_cons] at h
    rw [List.foldl_cons, insertField_append h.1, ih h.2, List.foldl_cons]

/-- Fields under new keys form groups of their own, behind the earlier ones. -/
theorem groupFields_append {fs fs' : List Field}
    (h : ∀ f ∈ fs', f.key ∉ (groupFields fs).map FieldGroup.key) :
    groupFields (fs ++ fs') = groupFields fs ++ groupFields fs' := by
  have hgroups := foldl_insertField_append h []
  rw [List.append_nil] at hgroups
  rw [groupFields, List.foldl_append]
  exact hgroups

theorem collectFields_append {t : FragmentTable} {owner : Text} {S T : List Selection}
    {groups : List FieldGroup} (h : collectFields t owner (S ++ T) = .ok groups)
    (hkeys : ∀ gs hs, collectFields t owner S = .ok gs → collectFields t owner T = .ok hs →
      ∀ k ∈ hs.map FieldGroup.key, k ∉ gs.map FieldGroup.key) :
    ∃ gs hs, collectFields t owner S = .ok gs ∧ collectFields t owner T = .ok hs ∧
      groups = gs ++ hs := by
  -- Expansion goes over the selections one after the other, and grouping over the fields.
  simp only [collectFields_eq] at h hkeys ⊢
  obtain ⟨fs, hfs, rfl⟩ := map_eq_ok.mp h
  rw [expand_append] at hfs
  obtain ⟨fs₁, h₁, hfs⟩ := bind_eq_ok.mp hfs
  obtain ⟨fs₂, h₂, hfs⟩ := bind_eq_ok.mp hfs
  cases hfs
  refine ⟨groupFields fs₁, groupFields fs₂, by rw [h₁, map_ok], by rw [h₂, map_ok], ?_⟩
  refine groupFields_append fun f hf => ?_
  refine hkeys _ _ (by rw [h₁, map_ok]) (by rw [h₂, map_ok]) f.key ?_
  exact mem_keys_foldl.mpr (.inr (List.mem_map_of_mem hf))

/-! ### Members in the order of their claims -/

/-- The first groups of a run go through the scope as they do alone. -/
theorem SelectionContext.GroupsRun.of_append {c : SelectionContext}
    {nest : Text → List Selection → TypeDefinition → Except GenerationError ClassDecl}
    {parent : TypeDefinition} {scope : Scope} {gs hs : List FieldGroup}
    {zs : List (Field × CompiledField)} (h : GroupsRun c nest parent scope (gs ++ hs) zs) :
    ∃ xs, GroupsRun c nest parent scope gs xs ∧ xs <+: zs := by
  induction gs generalizing scope zs with
  | nil => exact ⟨[], .nil scope, List.nil_prefix⟩
  | cons g gs ih =>
    cases h with
    | cons hfield hrest =>
      -- The group is compiled in the scope before it, which later groups do not touch.
      obtain ⟨xs, hrun, hprefix⟩ := ih hrest
      exact ⟨_ :: xs, .cons hfield hrun, (List.prefix_cons_inj _).mpr hprefix⟩

theorem SelectionContext.compileSelectionsWith_append {c : SelectionContext}
    {nest : Text → List Selection → TypeDefinition → Except GenerationError ClassDecl}
    {parent : TypeDefinition} {scope : Scope} {S T : List Selection} {members : List Member}
    (hkeys : ∀ gs hs, collectFields c.fragments parent.name S = .ok gs →
      collectFields c.fragments parent.name T = .ok hs →
      ∀ k ∈ hs.map FieldGroup.key, k ∉ gs.map FieldGroup.key)
    (h : c.compileSelectionsWith nest (S ++ T) parent scope = .ok members) :
    ∃ earlier, c.compileSelectionsWith nest S parent scope = .ok earlier ∧ earlier <+: members := by
  obtain ⟨groups, hgroups, h⟩ := bind_eq_ok.mp h
  obtain ⟨gs, hs, hS, -, rfl⟩ := collectFields_append hgroups hkeys
  obtain ⟨zs, hrun, rfl⟩ := compileGroups_eq_ok.mp h
  obtain ⟨xs, hfirst, ys, rfl⟩ := hrun.of_append
  refine ⟨xs.flatMap (·.2.members), ?_, ?_⟩
  · exact bind_eq_ok.mpr ⟨gs, hS, compileGroups_eq_ok.mpr ⟨xs, hfirst, rfl⟩⟩
  · rw [List.flatMap_append]
    exact List.prefix_append _ _

/-! ### Variables and input fields -/

theorem ClassDecl.properties_of_properties (name : Text) (ps : List Property)
    (constructor : Option Constructor) :
    properties ⟨name, ps.map Member.property, constructor⟩ = ps := by
  rw [properties, List.filterMap_map]
  exact List.filterMap_some

namespace OperationContext

variable {c : OperationContext}

theorem requestMembers_append {scope : Scope} {vs ws : List Variable}
    {members : List (Property × Parameter)}
    (h : c.requestMembers scope (vs ++ ws) = .ok members) :
    ∃ earlier, c.requestMembers scope vs = .ok earlier ∧ earlier <+: members := by
  induction vs generalizing scope members with
  | nil => exact ⟨[], rfl, List.nil_prefix⟩
  | cons v vs ih =>
    obtain ⟨type, htype, h⟩ := bind_eq_ok.mp h
    obtain ⟨rest, hrest, h⟩ := bind_eq_ok.mp h
    cases h
    obtain ⟨earlier, hearlier, hprefix⟩ := ih hrest
    refine ⟨_, ?_, (List.prefix_cons_inj _).mpr hprefix⟩
    exact bind_eq_ok.mpr ⟨type, htype, bind_eq_ok.mpr ⟨earlier, hearlier, rfl⟩⟩

/-- Each variable has its property under its own name. -/
theorem requestMembers_wires {scope : Scope} {vs : List Variable}
    {members : List (Property × Parameter)} (h : c.requestMembers scope vs = .ok members) :
    members.map (·.1.wire) = vs.map (·.name) := by
  induction vs generalizing scope members with
  | nil =>
    cases h
    rfl
  | cons v vs ih =>
    obtain ⟨type, -, h⟩ := bind_eq_ok.mp h
    obtain ⟨rest, hrest, h⟩ := bind_eq_ok.mp h
    cases h
    rw [List.map_cons, List.map_cons, ih hrest]

/-- The properties for the variables of an operation. Without variables there is no class, and no
property either. -/
theorem map_properties_requestClass (o : Operation) :
    (c.requestClass o).map (·.elim [] ClassDecl.properties) = (do
      let name ← o.supportedName
      let members ← c.requestMembers (Scope.ofClass (c.convention.requestClass name))
        o.variableDefinitions
      return members.map Prod.fst) := by
  rw [requestClass]
  cases o.supportedName with
  | error e => rfl
  | ok name =>
    simp only [ok_bind]
    cases o.variableDefinitions with
    | nil => rfl
    | cons v vs =>
      rw [List.isEmpty_cons, if_neg Bool.false_ne_true]
      cases c.requestMembers (Scope.ofClass (c.convention.requestClass name)) (v :: vs) with
      | error e => rfl
      | ok members =>
        have hproperties := ClassDecl.properties_of_properties (c.convention.requestClass name)
          (members.map Prod.fst)
        rw [List.map_map] at hproperties
        exact congrArg Except.ok (hproperties _)

/-- Further variables leave the properties of the earlier ones as they were. -/
theorem requestClass_append {o : Operation} {more : List Variable} {d : Option ClassDecl}
    (h : c.requestClass { o with variableDefinitions := o.variableDefinitions ++ more } = .ok d) :
    ∃ e, c.requestClass o = .ok e ∧
      (e.elim [] ClassDecl.properties).map (·.wire) = o.variableDefinitions.map (·.name) ∧
      e.elim [] ClassDecl.properties <+: d.elim [] ClassDecl.properties := by
  have hall := (map_properties_requestClass _).symm.trans
    (congrArg (Except.map (·.elim [] ClassDecl.properties)) h)
  obtain ⟨name, hname, hall⟩ := bind_eq_ok.mp hall
  obtain ⟨members, hmembers, hall⟩ := bind_eq_ok.mp hall
  obtain ⟨earlier, hearlier, hprefix⟩ := requestMembers_append hmembers
  have hfirst : (c.requestClass o).map (·.elim [] ClassDecl.properties)
      = .ok (earlier.map Prod.fst) := by
    rw [map_properties_requestClass]
    exact bind_eq_ok.mpr ⟨name, hname, bind_eq_ok.mpr ⟨earlier, hearlier, rfl⟩⟩
  obtain ⟨e, he, heq⟩ := map_eq_ok.mp hfirst
  refine ⟨e, he, ?_, ?_⟩
  · rw [heq, List.map_map]
    exact requestMembers_wires hearlier
  · have hd : members.map Prod.fst = d.elim [] ClassDecl.properties := Except.ok.inj hall
    rw [heq, ← hd]
    exact hprefix.map Prod.fst

end OperationContext

namespace Generator

theorem inputProperties_append (c : TypeContext) (scope : Scope) (fields more : List InputValue) :
    inputProperties c scope fields <+: inputProperties c scope (fields ++ more) := by
  induction fields generalizing scope with
  | nil => exact List.nil_prefix
  | cons f fs ih => exact (List.prefix_cons_inj _).mpr (ih _)

theorem inputProperties_wires (c : TypeContext) (scope : Scope) (fields : List InputValue) :
    (inputProperties c scope fields).map (·.wire) = fields.map (·.name) := by
  induction fields generalizing scope with
  | nil => rfl
  | cons f fs ih =>
    rw [List.map_cons, ← ih]
    rfl

/-- Further fields leave the properties of the earlier ones as they were. -/
theorem inputClass_append (c : TypeContext) (name : Text) (fields more : List InputValue) :
    (inputClass c name fields).properties.map (·.wire) = fields.map (·.name) ∧
      (inputClass c name fields).properties <+:
        (inputClass c name (fields ++ more)).properties := by
  simp only [inputClass, ClassDecl.properties_of_properties]
  exact ⟨inputProperties_wires c _ fields, inputProperties_append c _ fields more⟩

end Generator

/-- **Appending never renames.** Selections under new keys add members behind those that the class
has without them: the same nested classes, member names and types come first. In the same way
further variables of an operation, or fields of an input type, add properties behind those of the
earlier ones. -/
theorem members_of_appended (c : OperationContext) :
    (∀ parent scope S T members,
      (∀ gs hs, collectFields c.fragments parent.name S = .ok gs →
        collectFields c.fragments parent.name T = .ok hs →
        ∀ k ∈ hs.map FieldGroup.key, k ∉ gs.map FieldGroup.key) →
      c.compileSelections (S ++ T) parent scope = .ok members →
      ∃ earlier, c.compileSelections S parent scope = .ok earlier ∧ earlier <+: members) ∧
    (∀ (o : Operation) more d,
      c.requestClass { o with variableDefinitions := o.variableDefinitions ++ more } = .ok d →
      ∃ e, c.requestClass o = .ok e ∧
        (e.elim [] ClassDecl.properties).map (·.wire) = o.variableDefinitions.map (·.name) ∧
        e.elim [] ClassDecl.properties <+: d.elim [] ClassDecl.properties) ∧
    ∀ name fields more,
      (Generator.inputClass c.toTypeContext name fields).properties.map (·.wire) =
        fields.map (·.name) ∧
      (Generator.inputClass c.toTypeContext name fields).properties <+:
        (Generator.inputClass c.toTypeContext name (fields ++ more)).properties := by
  refine ⟨fun parent scope S T members hkeys h => ?_, fun o more d h => ?_, ?_⟩
  · exact SelectionContext.compileSelectionsWith_append hkeys h
  · exact OperationContext.requestClass_append h
  · exact Generator.inputClass_append c.toTypeContext

namespace GrowthSample

/-- Users with a friend and a result. -/
def user : TypeDefinition :=
  ⟨"User", .object [] [⟨"friend", [], .named "User", []⟩, ⟨"result", [], .named "User", []⟩], []⟩

/-- A fragment whose key asks for the name of a nested class. -/
def extra : Fragment :=
  .ofDefinition ⟨none, "Extra", "User", [], [.field (some "friendResult") "result" [] [] []]⟩

/-- Users and the fragment. -/
def context : OperationContext where
  schema := ⟨[user], [], []⟩
  scalars := ⟨[]⟩
  convention := .keep
  fragments := ⟨[extra]⟩
  limit := 2
  config := {}

/-- The result of the friend. -/
def friend : List Selection :=
  [.field none "friend" [] [] [.field none "result" [] [] []]]

/-- The user's own result, and the fragment. -/
def further : List Selection :=
  [.field none "result" [] [] [], .spread "Extra" []]

/-- The members for the friend. -/
def friendMembers : List Member :=
  [.nested "FriendResult" [.property ⟨"result", "Result", "User"⟩] none,
    .property ⟨"friend", "Result", "FriendResult"⟩]

/-- All members: the further ones ask for names that are taken. -/
def allMembers : List Member :=
  friendMembers ++ [.property ⟨"result", "Result2", "User"⟩,
    .property ⟨"friendResult", "FriendResult2", "User"⟩]

/-- An operation with one variable. -/
def find : Operation :=
  ⟨none, .query, some "find", [⟨none, "user_id", .named "User", none, []⟩], [], friend⟩

/-- A variable that asks for the same member. -/
def again : Variable :=
  ⟨none, "userId", .named "User", none, []⟩

theorem earlier_kept :
    context.compileSelections (friend ++ further) user {} = .ok allMembers ∧
    context.compileSelections friend user {} = .ok friendMembers ∧
    friendMembers <+: allMembers ∧
    ∃ d e, context.requestClass { find with
        variableDefinitions := find.variableDefinitions ++ [again] } = .ok d ∧
      d.elim [] ClassDecl.properties =
        [⟨"user_id", "UserId", "User"⟩, ⟨"userId", "UserId2", "User"⟩] ∧
      context.requestClass find = .ok e ∧
      e.elim [] ClassDecl.properties <+: d.elim [] ClassDecl.properties := by
  have hall : context.compileSelections (friend ++ further) user {} = .ok allMembers := rfl
  have hfriend : context.compileSelections friend user {} = .ok friendMembers := rfl
  have hkeys : ∀ gs hs, collectFields context.fragments user.name friend = .ok gs →
      collectFields context.fragments user.name further = .ok hs →
      ∀ k ∈ hs.map FieldGroup.key, k ∉ gs.map FieldGroup.key := by
    intro gs hs hgs hhs
    cases hgs
    cases hhs
    decide
  obtain ⟨hselections, hvariables, -⟩ := members_of_appended context
  obtain ⟨earlier, hearlier, hmembers⟩ := hselections user {} friend further allMembers hkeys hall
  cases hfriend.symm.trans hearlier
  obtain ⟨e, he, -, hproperties⟩ := hvariables find [again] _ rfl
  exact ⟨hall, hfriend, hmembers, _, e, rfl, rfl, he, hproperties⟩

end GrowthSample

end SharpClient

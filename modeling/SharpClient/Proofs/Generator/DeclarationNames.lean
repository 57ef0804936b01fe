import Mathlib.Data.List.Nodup
import SharpClient.Proofs.Generator.Declarations
import SharpClient.Proofs.Naming.Endings
import SharpClient.Proofs.Operation.Embedding

/-!
# Names of the declarations in a file

The classes of requests and answers are named for operations, the other classes and the enums for
fragments and types. No scope is shared between them, so that names may clash. Which ones can is
settled by the ways in which they end and begin (`declaredNames_nodup_iff`):

* The class of a request ends in `Request` and that of an answer in `Payload`, so these never clash
  with each other. The classes of two requests differ where those of their answers do.
* The classes of two answers clash when the operations have one name under the convention, or names
  that differ by a leading `Get`.
* A fragment or a type clashes with another one when the convention takes both names to one, and
  with an operation when its name is that of the operation with `Request` or `Payload` behind.

Operations, fragments and types that differ in name may thus be declared twice.
-/

namespace SharpClient

open Outcome

namespace Generator

variable {g : Generator} {d : Declarations}

/-- The names of the operations. -/
def operationNames (g : Generator) : List Text :=
  g.operations.map fun o => o.name.getD []

/-- The names of the operations that declare variables. -/
def requestNames (g : Generator) : List Text :=
  (g.operations.filter fun o => !o.variableDefinitions.isEmpty).map fun o => o.name.getD []

theorem requestNames_sublist (g : Generator) : g.requestNames.Sublist g.operationNames :=
  List.filter_sublist.map _

/-- The names of the fragments in effect, and of the listed input and enum types. -/
def dataNames (g : Generator) : List Text :=
  g.context.fragments.effective.map Fragment.name ++ g.schema.inputTypes.map Prod.fst ++
    g.schema.enumTypes.map Prod.fst

/-- The names of the classes and enums in a file. -/
def Declarations.names (d : Declarations) : List Text :=
  d.classes.map ClassDecl.name ++ d.enums.map EnumDecl.name

theorem name_of_supportedName {o : Operation} {name : Text} (h : o.supportedName = .ok name) :
    o.name.getD [] = name := by
  rw [(Operation.supportedName_eq_ok h).1, Option.getD_some]

theorem name_of_responseClass {c : OperationContext} {o : Operation} {e : ClassDecl}
    (he : c.responseClass o = .ok e) : e.name = c.convention.responseClass (o.name.getD []) := by
  obtain ⟨root, -, he⟩ := bind_eq_ok.mp he
  obtain ⟨name, hname, he⟩ := bind_eq_ok.mp he
  obtain ⟨-, he⟩ := SelectionContext.compileRoot_eq_ok.mp he
  rw [name_of_supportedName hname]
  exact SelectionContext.name_of_compileClassWithin he

theorem name_of_fragmentClass {c : SelectionContext} {f : Fragment} {e : ClassDecl}
    (he : c.fragmentClass f = .ok e) : e.name = c.convention.fragmentClass f.name := by
  obtain ⟨parent, -, -, he⟩ := SelectionContext.fragmentClass_eq_ok.mp he
  exact SelectionContext.name_of_compileClassWithin he

/-- An operation with variables has a request class of its name, and another one has none. -/
theorem name_of_requestClass {c : OperationContext} {o : Operation} {request : Option ClassDecl}
    (h : c.requestClass o = .ok request) :
    request.map ClassDecl.name = if o.variableDefinitions.isEmpty then none
      else some (c.convention.requestClass (o.name.getD [])) := by
  obtain ⟨name, hname, h⟩ := bind_eq_ok.mp h
  split at h
  case isTrue hnone =>
    cases h
    rw [if_pos hnone]
    rfl
  case isFalse hsome =>
    obtain ⟨members, -, h⟩ := bind_eq_ok.mp h
    cases h
    rw [if_neg hsome, name_of_supportedName hname]
    rfl

/-- A file declares the classes of requests and answers, and those of fragments and types. -/
theorem names_eq (htypesafe : g.config.typesafeOperation = true) (hd : g.declarations = .ok d) :
    d.names = g.requestNames.map g.config.namingConvention.requestClass ++
      g.operationNames.map g.config.namingConvention.responseClass ++
      g.dataNames.map g.config.namingConvention.typeName := by
  obtain ⟨fragments, compiled, hfragments, hcompiled, hclasses, henums⟩ :=
    declarations_eq_ok htypesafe hd
  have hrequests : (compiled.filterMap (·.request)).map ClassDecl.name =
      g.requestNames.map g.config.namingConvention.requestClass := by
    have hoperations : compiled.map (·.request.map ClassDecl.name) =
        g.operations.map fun o => if o.variableDefinitions.isEmpty then none
          else some (g.config.namingConvention.requestClass (o.name.getD [])) :=
      map_eq_of_mapM hcompiled fun o _ x hx => name_of_requestClass (compileOperation_eq_ok hx).1
    calc (compiled.filterMap (·.request)).map ClassDecl.name
        = (compiled.map (·.request.map ClassDecl.name)).filterMap id := by
          rw [List.map_filterMap, List.filterMap_map]
          rfl
      _ = g.requestNames.map g.config.namingConvention.requestClass := by
          rw [hoperations, List.filterMap_map, requestNames, List.map_map, ← List.filterMap_eq_map,
            List.filterMap_filter]
          refine List.filterMap_congr fun o _ => ?_
          by_cases hempty : o.variableDefinitions = [] <;> simp [hempty]
  have hresponses : (compiled.map (·.response)).map ClassDecl.name =
      g.operationNames.map g.config.namingConvention.responseClass := by
    have hoperations : compiled.map (·.response.name) =
        g.operations.map fun o => g.config.namingConvention.responseClass (o.name.getD []) :=
      map_eq_of_mapM hcompiled fun o _ x hx => name_of_responseClass (compileOperation_eq_ok hx).2
    rw [List.map_map, operationNames, List.map_map]
    exact hoperations
  have hfragmentNames : fragments.map ClassDecl.name =
      (g.context.fragments.effective.map Fragment.name).map
        g.config.namingConvention.typeName := by
    have heffective : fragments.map ClassDecl.name = g.context.fragments.effective.map
        fun f => g.config.namingConvention.typeName f.name :=
      map_eq_of_mapM hfragments fun f _ e he => name_of_fragmentClass he
    rw [List.map_map]
    exact heffective
  have hinputs : g.inputClasses.map ClassDecl.name =
      (g.schema.inputTypes.map Prod.fst).map g.config.namingConvention.typeName := by
    rw [inputClasses, List.map_map, List.map_map]
    rfl
  have henumNames : g.enumDecls.map EnumDecl.name =
      (g.schema.enumTypes.map Prod.fst).map g.config.namingConvention.typeName := by
    rw [enumDecls, List.map_map, List.map_map]
    rfl
  simp only [Declarations.names, hclasses, henums, List.map_append, hrequests, hresponses,
    hfragmentNames, hinputs, henumNames, dataNames, List.append_assoc]

/-! ### Clashes -/

/-- Names that differ after a step differ before it. -/
theorem nodup_map_of_nodup_map {α β : Type} {names : List Text} {f : Text → α} {k : Text → β}
    (hfk : ∀ a b, f a = f b → k a = k b) (h : (names.map k).Nodup) : (names.map f).Nodup := by
  rw [List.Nodup, List.pairwise_map] at h ⊢
  exact h.imp fun hne heq => hne (hfk _ _ heq)

theorem responses_nodup_iff (c : Convention) (names : List Text) :
    (names.map c.responseClass).Nodup ↔
      (names.map fun n => Convention.withoutGet (c.apply n)).Nodup := by
  have heq : ∀ a b, c.responseClass a = c.responseClass b ↔
      Convention.withoutGet (c.apply a) = Convention.withoutGet (c.apply b) := by
    intro a b
    rw [c.responseClass_eq, c.responseClass_eq, List.append_left_inj]
  constructor
  · exact nodup_map_of_nodup_map fun a b => (heq a b).mpr
  · exact nodup_map_of_nodup_map fun a b => (heq a b).mp

theorem requests_nodup (c : Convention) {names requests : List Text} (hsub : requests.Sublist names)
    (h : (names.map fun n => Convention.withoutGet (c.apply n)).Nodup) :
    (requests.map c.requestClass).Nodup := by
  refine nodup_map_of_nodup_map (fun a b heq => ?_) (h.sublist (hsub.map _))
  rw [c.requestClass_eq, c.requestClass_eq, List.append_left_inj] at heq
  rw [heq]

end Generator

/-- **Clashes of declarations.** The declarations of a typesafe run differ in name exactly when the
names of the operations differ by more than a leading `Get` under the convention, the convention
keeps the fragments, inputs and enums apart, and none of these is named like the answer or the
request of an operation. -/
theorem declaredNames_nodup_iff {g : Generator} {d : Generator.Declarations}
    (htypesafe : g.config.typesafeOperation = true) (hd : g.declarations = .ok d) :
    d.names.Nodup ↔
      (g.operationNames.map fun o =>
        Convention.withoutGet (g.config.namingConvention.apply o)).Nodup ∧
      (g.dataNames.map g.config.namingConvention.typeName).Nodup ∧
      ∀ n ∈ g.dataNames,
        (∀ o ∈ g.operationNames, g.config.namingConvention.apply n ≠
          Convention.withoutGet (g.config.namingConvention.apply o) ++ "Payload") ∧
        ∀ o ∈ g.requestNames, g.config.namingConvention.apply n ≠
          g.config.namingConvention.apply o ++ "Request" := by
  rw [Generator.names_eq htypesafe hd, List.nodup_append, List.nodup_append,
    Generator.responses_nodup_iff]
  generalize g.config.namingConvention = c
  constructor
  · rintro ⟨⟨-, hresponses, -⟩, hdata, hapart⟩
    refine ⟨hresponses, hdata, fun n hn => ⟨fun o ho heq => ?_, fun o ho heq => ?_⟩⟩
    · exact hapart _ (List.mem_append_right _ (List.mem_map_of_mem ho)) _ (List.mem_map_of_mem hn)
        (c.responseClass_eq_typeName_iff.mpr heq)
    · exact hapart _ (List.mem_append_left _ (List.mem_map_of_mem ho)) _ (List.mem_map_of_mem hn)
        (c.requestClass_eq_typeName_iff.mpr heq)
  · rintro ⟨hresponses, hdata, hapart⟩
    have hrequests := Generator.requests_nodup c g.requestNames_sublist hresponses
    refine ⟨⟨hrequests, hresponses, ?_⟩, hdata, ?_⟩
    · intro a ha b hb
      obtain ⟨m, -, rfl⟩ := List.mem_map.mp ha
      obtain ⟨o, -, rfl⟩ := List.mem_map.mp hb
      exact c.requestClass_ne_responseClass m o
    · intro a ha b hb heq
      obtain ⟨n, hn, rfl⟩ := List.mem_map.mp hb
      rcases List.mem_append.mp ha with ha | ha
      · obtain ⟨o, ho, rfl⟩ := List.mem_map.mp ha
        exact (hapart n hn).2 o ho (c.requestClass_eq_typeName_iff.mp heq)
      · obtain ⟨o, ho, rfl⟩ := List.mem_map.mp ha
        exact (hapart n hn).1 o ho (c.responseClass_eq_typeName_iff.mp heq)

namespace UserSample

/-- Users with a role, and an input type. -/
def schema : Schema :=
  ⟨[⟨"Query", .object [] [⟨"user", [], .named "User", []⟩], []⟩,
    ⟨"User", .object [] [⟨"role", [], .named "Role", []⟩], []⟩,
    ⟨"Role", .enum [⟨"ADMIN", []⟩], []⟩, ⟨"Name", .input [⟨"first", .named "Role", none, []⟩], []⟩],
    [(.query, "Query")], []⟩

/-- Asks for the role of the user, under a name. -/
def operation (name : Text) : Operation :=
  ⟨none, .query, some name, [⟨none, "name", .named "Name", none, []⟩], [],
    [.field none "user" [] [] [.spread "Details" []]]⟩

/-- The operation under two names, and a fragment. -/
def generator (first second : Text) : Generator where
  schema := schema
  documents := [⟨[.operation (operation first), .operation (operation second),
    .fragment ⟨none, "Details", "User", [], [.field none "role" [] [] []]⟩]⟩]
  config := { typesafeOperation := true, documentMode := .external }

theorem users_names_nodup :
    ∃ d, (generator "GetUser" "GetUsers").declarations = .ok d ∧ d.names.Nodup := by
  obtain ⟨d, hd⟩ : ∃ d, (generator "GetUser" "GetUsers").declarations = .ok d := ⟨_, rfl⟩
  exact ⟨d, hd, (declaredNames_nodup_iff rfl hd).mpr (by decide +kernel)⟩

/-- Operations that differ in name, on a schema whose types do, may have one class for their
answers. -/
theorem not_always_distinct :
    ¬∀ (g : Generator) (d : Generator.Declarations), g.config.typesafeOperation = true →
      g.declarations = .ok d → g.operationNames.Nodup →
      (g.schema.types.map TypeDefinition.name).Nodup → d.names.Nodup := by
  intro h
  obtain ⟨d, hd, hclash⟩ : ∃ d, (generator "GetUser" "User").declarations = .ok d ∧
      ¬ d.names.Nodup := ⟨_, rfl, by decide +kernel⟩
  exact hclash (h _ d rfl hd (by decide +kernel) (by decide +kernel))

end UserSample

end SharpClient

import Mathlib.Algebra.Order.BigOperators.Group.List
import Mathlib.Algebra.Order.Group.Nat
import SharpClient.Generator.Basic
import SharpClient.Proofs.Selection.Compilation
import SharpClient.Proofs.Selection.Nesting

/-!
# Compilation ends

Fields are collected and classes are compiled by recursion, and both definitions carry a number that
bounds it. Here the recursions are taken without a bound, as relations between what is asked for and
the outcome: a run that ends is a finite tree of calls, and its outcome is made of theirs.

* Collecting (`Collects`) always ends, because the path cuts every circle of spreads (`collects_iff`).
* Compiling (`Compiles`) ends wherever fields nest to a finite depth, and then no limit above that
  depth changes the outcome (`compiles_compileClassWithin`). What a field needs of the classes nested
  in its own is said once, in `compileFieldWith_cases`.

The limit of a run exceeds the number of its fields. So a run never breaks off where the recursion
would come to an end (`compilation_ends`).
-/

namespace SharpClient

open Outcome

/-! ### Collecting without a budget -/

/-- Collecting the fields of selections inside the expansion of the fragments `path` ends, with the
given outcome: every expansion that it calls for ends, and the outcome is what their groups add up
to. -/
inductive Collects (t : FragmentTable) (owner : Text) :
    List Text → List Selection → Except GenerationError (List FieldGroup) → Prop
  | intro {path : List Text} {selections : List Selection}
      {expand : Fragment → Except GenerationError (List FieldGroup)}
      (hcut : ∀ f, f.name ∈ path → expand f = .ok [])
      (hcall : ∀ name directives f, .spread name directives ∈ selections → t.get? name = some f →
        f.name ∉ path → Collects t owner (f.name :: path) f.definition.selections (expand f)) :
      Collects t owner path selections (addSelections t owner expand [] selections)

section Collecting

variable {t : FragmentTable} {owner : Text}

/-- What adding selections to groups gives depends on the groups of their spreads only. -/
theorem addSelections_congr {expand expand' : Fragment → Except GenerationError (List FieldGroup)}
    {selections : List Selection}
    (h : ∀ name directives f, .spread name directives ∈ selections → t.get? name = some f →
      expand f = expand' f) (groups : List FieldGroup) :
    addSelections t owner expand groups selections =
      addSelections t owner expand' groups selections := by
  induction selections generalizing groups with
  | nil => rfl
  | cons s rest ih =>
    have hrest := ih fun name directives f hs => h name directives f (List.mem_cons_of_mem s hs)
    cases s with
    | field as name arguments directives sub => rw [addSelections, addSelections, hrest]
    | inline on directives sub => rw [addSelections, addSelections]
    | spread name directives =>
      rw [addSelections, addSelections, FragmentTable.get]
      cases hget : t.get? name with
      | none => rfl
      | some f =>
        simp only [ok_bind, h name directives f List.mem_cons_self hget, hrest]

theorem Collects.unique {path : List Text} {selections : List Selection}
    {r r' : Except GenerationError (List FieldGroup)} (h : Collects t owner path selections r)
    (h' : Collects t owner path selections r') : r = r' := by
  induction h generalizing r' with
  | @intro path selections expand hcut hcall ih =>
    cases h' with
    | intro hcut' hcall' =>
      -- Both call for the same expansions, whose outcomes agree already.
      refine addSelections_congr (fun name directives f hs hget => ?_) []
      by_cases hf : f.name ∈ path
      · rw [hcut f hf, hcut' f hf]
      · exact ih name directives f hs hget hf (hcall' name directives f hs hget hf)

/-- A budget as large as the number of fragments that are not on the path is never used up. -/
theorem collects_collectWithin {budget : Nat} {path : List Text}
    (hbudget : (t.unseen path).length ≤ budget) (selections : List Selection) :
    Collects t owner path selections (collectWithin t owner budget path selections) := by
  induction budget generalizing path selections with
  | zero =>
    -- All fragments are on the path, so no expansion is called for.
    refine .intro (fun _ _ => rfl) fun name directives f hs hget hf => ?_
    have hname : f.name = name := by simpa using List.find?_some hget
    have hlt := FragmentTable.length_unseen_lt hget (hname ▸ hf)
    omega
  | succ budget ih =>
    refine .intro (fun f hf => if_pos hf) fun name directives f hs hget hf => ?_
    have hname : f.name = name := by simpa using List.find?_some hget
    have hlt := FragmentTable.length_unseen_lt hget (hname ▸ hf)
    rw [if_neg hf]
    exact ih (by rw [hname]; omega) _

/-- Collecting ends, and it ends with what `collectFields` gives. -/
theorem collects_iff {selections : List Selection} {r : Except GenerationError (List FieldGroup)} :
    Collects t owner [] selections r ↔ collectFields t owner selections = r := by
  have hends : Collects t owner [] selections (collectFields t owner selections) :=
    collects_collectWithin (by simp [FragmentTable.unseen]) selections
  exact ⟨hends.unique, fun h => h ▸ hends⟩

end Collecting

/-! ### Compiling without a limit -/

/-- The run did not break off because of a limit. -/
def InLimit {α : Type} (x : Except GenerationError α) : Prop :=
  x ≠ .error .nestingLimit

section InLimit

variable {α β : Type}

@[simp] theorem inLimit_ok (a : α) : InLimit (.ok a : Except GenerationError α) := by
  intro h
  cases h

@[simp] theorem inLimit_error {e : GenerationError} :
    InLimit (.error e : Except GenerationError α) ↔ e ≠ .nestingLimit := by
  rw [InLimit, ne_eq, Except.error.injEq]

theorem InLimit.bind {x : Except GenerationError α} {f : α → Except GenerationError β}
    (hx : InLimit x) (hf : ∀ a, x = .ok a → InLimit (f a)) : InLimit (x >>= f) := by
  cases x with
  | error e => simpa using hx
  | ok a => exact hf a rfl

theorem InLimit.map {x : Except GenerationError α} (hx : InLimit x) (k : α → β) :
    InLimit (x.map k) := by
  cases x with
  | error e => simpa using hx
  | ok a => exact inLimit_ok _

theorem inLimit_get (t : FragmentTable) (name : Text) : InLimit (t.get name) := by
  rw [FragmentTable.get]
  split <;> simp

theorem inLimit_expand {t : FragmentTable} {owner : Text} {path : List Text}
    {selections : List Selection} : InLimit (expand t owner path selections) := by
  fun_induction expand t owner path selections with
  | case1 => exact inLimit_ok _
  | case2 path as name arguments directives sub rest ih => exact ih.map _
  | case3 => simp
  | case4 path name directives rest f hf hn ih => exact ih
  | case5 path name directives rest f hf hn ihspread ihrest =>
    exact ihspread.bind fun _ _ => ihrest.bind fun _ _ => inLimit_ok _
  | case6 => simp

end InLimit

namespace SelectionContext

variable {c : SelectionContext} {parent : TypeDefinition}

/-- The field has a class of its own, for its selections on the type `core`. -/
structure NestsOn (c : SelectionContext) (parent : TypeDefinition) (f : Field)
    (core : TypeDefinition) : Prop where
  ne_nil : f.selections ≠ []
  not_sole : soleSpread? f.selections = none
  exists_type : ∃ type, fieldType parent f.name = .ok type ∧ c.coreType type = .ok core

/-- Compiling a class ends, with the given outcome: every nested class that it calls for ends,
whatever its name is, and the outcome is what the class compiler makes of them. -/
inductive Compiles (c : SelectionContext) :
    Text → List Selection → TypeDefinition → Except GenerationError ClassDecl → Prop
  | intro {name : Text} {selections : List Selection} {parent : TypeDefinition}
      {nest : Text → List Selection → TypeDefinition → Except GenerationError ClassDecl}
      (hcall : ∀ groups, collectFields c.fragments parent.name selections = .ok groups →
        ∀ g ∈ groups, ∀ core, c.NestsOn parent g.merged core → ∀ className,
          Compiles c className g.merged.selections core
            (nest className g.merged.selections core)) :
      Compiles c name selections parent (do
        let members ← c.compileSelectionsWith nest selections parent (Scope.ofClass name)
        return ⟨name, members, none⟩)

theorem inLimit_fieldType (parent : TypeDefinition) (name : Text) :
    InLimit (fieldType parent name) := by
  rw [fieldType]
  split
  · simp
  · split
    · simp
    · split <;> simp

theorem inLimit_coreType (c : SelectionContext) (type : TypeRef) : InLimit (c.coreType type) := by
  rw [coreType]
  split <;> simp

/-- A field is compiled without a nested class, or by asking for one and wrapping the outcome. -/
theorem compileFieldWith_cases (c : SelectionContext) (parent : TypeDefinition) (scope : Scope)
    (f : Field) :
    (∃ r, InLimit r ∧ ∀ nest, c.compileFieldWith nest parent scope f = r) ∨
    ∃ className core, ∃ k : ClassDecl → CompiledField × Scope, c.NestsOn parent f core ∧
      ∀ nest, c.compileFieldWith nest parent scope f = (do
        let d ← nest className f.selections core
        return k d) := by
  -- In the order of the steps: an error, a value, the class of a fragment, and last a nested class.
  have htypeLimit := inLimit_fieldType parent f.name
  simp only [compileFieldWith]
  cases htype : fieldType parent f.name with
  | error e =>
    rw [htype] at htypeLimit
    exact .inl ⟨.error e, by simpa using htypeLimit, fun _ => rfl⟩
  | ok type =>
    simp only [ok_bind]
    by_cases hnone : f.selections = []
    · simp only [hnone, List.isEmpty_nil, if_true]
      exact .inl ⟨_, inLimit_ok _, fun _ => rfl⟩
    have hempty : f.selections.isEmpty = false := by simpa using hnone
    simp only [hempty, Bool.false_eq_true, if_false]
    cases hsole : soleSpread? f.selections with
    | some name =>
      refine .inl ⟨_, ?_, fun _ => rfl⟩
      exact (inLimit_get c.fragments name).bind fun _ _ => inLimit_ok _
    | none =>
      have hcoreLimit := inLimit_coreType c type
      cases hcore : c.coreType type with
      | error e =>
        rw [hcore] at hcoreLimit
        exact .inl ⟨.error e, by simpa using hcoreLimit, fun _ => rfl⟩
      | ok core =>
        exact .inr ⟨_, core, _, ⟨hnone, hsole, type, htype, hcore⟩, fun nest => rfl⟩

section Nesting

variable {nest nest' : Text → List Selection → TypeDefinition → Except GenerationError ClassDecl}
  {groups : List FieldGroup}

theorem compileGroups_congr (h : ∀ g ∈ groups, ∀ core, c.NestsOn parent g.merged core →
      ∀ className, nest className g.merged.selections core = nest' className g.merged.selections core)
    (scope : Scope) :
    c.compileGroups nest parent scope groups = c.compileGroups nest' parent scope groups := by
  induction groups generalizing scope with
  | nil => rfl
  | cons g gs ih =>
    rw [List.forall_mem_cons] at h
    have hfield : c.compileFieldWith nest parent scope g.merged =
        c.compileFieldWith nest' parent scope g.merged := by
      rcases c.compileFieldWith_cases parent scope g.merged with
        ⟨r, -, hr⟩ | ⟨className, core, k, hnests, hk⟩
      · rw [hr, hr]
      · rw [hk, hk, h.1 core hnests className]
    simp only [compileGroups, hfield, ih h.2]

theorem inLimit_compileGroups (h : ∀ g ∈ groups, ∀ core, c.NestsOn parent g.merged core →
      ∀ className, InLimit (nest className g.merged.selections core)) (scope : Scope) :
    InLimit (c.compileGroups nest parent scope groups) := by
  induction groups generalizing scope with
  | nil => exact inLimit_ok _
  | cons g gs ih =>
    rw [List.forall_mem_cons] at h
    have hfield : InLimit (c.compileFieldWith nest parent scope g.merged) := by
      rcases c.compileFieldWith_cases parent scope g.merged with
        ⟨r, hlimit, hr⟩ | ⟨className, core, k, hnests, hk⟩
      · exact hr nest ▸ hlimit
      · rw [hk]
        exact (h.1 core hnests className).bind fun _ _ => inLimit_ok _
    exact hfield.bind fun _ _ => (ih h.2 _).bind fun _ _ => inLimit_ok _

end Nesting

namespace Compiles

variable {name : Text} {selections : List Selection} {r r' : Except GenerationError ClassDecl}

theorem unique (h : c.Compiles name selections parent r)
    (h' : c.Compiles name selections parent r') : r = r' := by
  induction h generalizing r' with
  | @intro name selections parent nest hcall ih =>
    cases h' with
    | @intro _ _ _ nest' hcall' =>
      have hmembers : c.compileSelectionsWith nest selections parent (Scope.ofClass name) =
          c.compileSelectionsWith nest' selections parent (Scope.ofClass name) := by
        rw [compileSelectionsWith, compileSelectionsWith]
        cases hgroups : collectFields c.fragments parent.name selections with
        | error e => rfl
        | ok groups =>
          refine compileGroups_congr (fun g hg core hnests className => ?_) (Scope.ofClass name)
          exact ih groups hgroups g hg core hnests className
            (hcall' groups hgroups g hg core hnests className)
      rw [hmembers]

/-- A run that ends does not break off. -/
theorem inLimit (h : c.Compiles name selections parent r) : InLimit r := by
  induction h with
  | @intro name selections parent nest hcall ih =>
    have hcollect : InLimit (collectFields c.fragments parent.name selections) := by
      rw [collectFields_eq]
      exact inLimit_expand.map groupFields
    refine InLimit.bind (hcollect.bind fun groups hgroups => ?_) fun _ _ => inLimit_ok _
    exact inLimit_compileGroups (ih groups hgroups) (Scope.ofClass name)

end Compiles

/-- Classes that nest no deeper than the limit are compiled as without one. -/
theorem compiles_compileClassWithin {n limit : Nat} {name : Text} {selections : List Selection}
    (h : NestsWithin c.fragments n {s | s ∈ selections}) (hlimit : n ≤ limit) :
    c.Compiles name selections parent (c.compileClassWithin limit name selections parent) := by
  induction n generalizing limit name selections parent with
  | zero => exact h.elim
  | succ n ih =>
    obtain ⟨limit, rfl⟩ : ∃ k, limit = k + 1 := ⟨limit - 1, by omega⟩
    refine .intro fun groups hgroups g hg core hnests className => ?_
    exact ih (nestsWithin_of_collectFields h hgroups hg) (by omega)

theorem inLimit_compileRoot {n : Nat} {name : Text} {selections : List Selection}
    (h : NestsWithin c.fragments n {s | s ∈ selections}) (hlimit : n ≤ c.limit) :
    InLimit (c.compileRoot name selections parent) := by
  rw [compileRoot]
  split
  · simp
  · exact (compiles_compileClassWithin h hlimit).inLimit

end SelectionContext

/-! ### Runs -/

namespace Generator

variable {g : Generator}

/-- The limit of a run leaves room for all fields of an operation and of the fragments. -/
theorem fieldCount_lt_nestingLimit {o : Operation} (ho : o ∈ g.operations) :
    fieldCountAll o.selections + g.context.fragments.fieldCount < g.nestingLimit := by
  have hfields : fieldCountAll o.selections ≤
      (g.operations.map fun o => fieldCountAll o.selections).foldl (· + ·) 0 := by
    rw [← List.sum_eq_foldl]
    exact List.le_sum_of_mem (List.mem_map_of_mem ho)
  refine Nat.lt_of_lt_of_le (Nat.lt_succ_of_le ?_) (Nat.le_mul_of_pos_right _ (Nat.succ_pos _))
  exact Nat.add_le_add_right hfields _

theorem fragments_fieldCount_lt_nestingLimit (g : Generator) :
    g.context.fragments.fieldCount < g.nestingLimit := by
  refine Nat.lt_of_lt_of_le (Nat.lt_succ_of_le ?_) (Nat.le_mul_of_pos_right _ (Nat.succ_pos _))
  exact Nat.le_add_left _ _

theorem inLimit_responseClass (hcircle : g.context.fragments.NoCircleBelowField) {o : Operation}
    (ho : o ∈ g.operations) : InLimit (g.context.responseClass o) := by
  have hname : InLimit o.supportedName := by
    rw [Operation.supportedName]
    split <;> simp
  have hroot : InLimit (g.context.rootType o) := by
    refine hname.bind fun _ _ => ?_
    split <;> simp
  refine hroot.bind fun root _ => hname.bind fun name _ => ?_
  exact SelectionContext.inLimit_compileRoot (nestsWithin_fieldCount hcircle o.selections)
    (fieldCount_lt_nestingLimit ho)

theorem inLimit_fragmentClass (hcircle : g.context.fragments.NoCircleBelowField) {f : Fragment}
    (hf : f ∈ g.fragments) : InLimit (g.context.fragmentClass f) := by
  rw [SelectionContext.fragmentClass]
  split
  · simp
  · exact SelectionContext.inLimit_compileRoot (nestsWithin_fragment hcircle hf)
      g.fragments_fieldCount_lt_nestingLimit

end Generator

/-- **Compilation ends.** Collecting fields ends for every table of fragments and all selections, and
gives what `collectFields` does. When no circle of spreads passes below a field, compiling a class
ends for all selections too, with one outcome, a class or an error, which every limit above the
number of fields gives. The limit of a run is such a one, so neither the answer of an operation nor a
fragment breaks off at it. -/
theorem compilation_ends (c : OperationContext) :
    (∀ owner selections r, Collects c.fragments owner [] selections r ↔
      collectFields c.fragments owner selections = r) ∧
    (c.fragments.NoCircleBelowField →
      (∀ name selections parent, ∃ r, (∀ r', c.Compiles name selections parent r' ↔ r' = r) ∧
        r ≠ .error .nestingLimit ∧
        ∀ limit, fieldCountAll selections + c.fragments.fieldCount < limit →
          c.compileClassWithin limit name selections parent = r) ∧
      ∀ g : Generator, g.context = c →
        (∀ o ∈ g.operations, c.responseClass o ≠ .error .nestingLimit) ∧
        ∀ f ∈ g.fragments, c.fragmentClass f ≠ .error .nestingLimit) := by
  refine ⟨fun owner selections r => collects_iff, fun hcircle => ⟨?_, ?_⟩⟩
  · intro name selections parent
    have hends : ∀ limit, fieldCountAll selections + c.fragments.fieldCount < limit →
        c.Compiles name selections parent (c.compileClassWithin limit name selections parent) :=
      fun limit hlimit =>
        SelectionContext.compiles_compileClassWithin (nestsWithin_fieldCount hcircle selections)
          hlimit
    have hfirst := hends _ (Nat.lt_succ_self _)
    refine ⟨_, fun r' => ⟨fun h => h.unique hfirst, fun h => h ▸ hfirst⟩, hfirst.inLimit, ?_⟩
    exact fun limit hlimit => (hends limit hlimit).unique hfirst
  · rintro g rfl
    exact ⟨fun o ho => Generator.inLimit_responseClass hcircle ho,
      fun f hf => Generator.inLimit_fragmentClass hcircle hf⟩

namespace FellowSample

/-- Where operations start. -/
def query : TypeDefinition :=
  ⟨"Query", .object [] [⟨"user", [], .named "User", []⟩], []⟩

/-- Users with a name and a friend. -/
def user : TypeDefinition :=
  ⟨"User", .object [] [⟨"name", [], .named "String", []⟩, ⟨"friend", [], .named "User", []⟩], []⟩

/-- A fragment that leads back to itself through the next one. -/
def named : FragmentDefinition :=
  ⟨none, "Named", "User", [], [.field none "name" [] [] [], .spread "Fellow" []]⟩

/-- A fragment in a circle with the one before. -/
def fellow : FragmentDefinition :=
  ⟨none, "Fellow", "User", [],
    [.spread "Named" [], .field none "friend" [] [] [.field none "name" [] [] []]]⟩

/-- A fragment outside the circle that leads to it from below a field. -/
def circle : FragmentDefinition :=
  ⟨none, "Circle", "User", [],
    [.field none "friend" [] [] [.field none "name" [] [] [], .spread "Named" []]]⟩

/-- Asks for a user with the friends. -/
def find : Operation :=
  ⟨none, .query, some "Find", [], [],
    [.field none "user" [] [] [.spread "Circle" [], .field none "name" [] [] []]]⟩

/-- A run over these. -/
def generator : Generator where
  schema := ⟨[query, user, ⟨"String", .scalar, []⟩], [(.query, "Query")], []⟩
  documents := [⟨[.operation find, .fragment named, .fragment fellow, .fragment circle]⟩]

/-- The class of the answer. The circle is passed through once, below the friend. -/
def answer : ClassDecl :=
  ⟨"FindPayload",
    [.nested "UserResult"
      [.nested "FriendResult"
        [.property ⟨"name", "Name", "string"⟩,
          .nested "FriendResult2" [.property ⟨"name", "Name", "string"⟩] none,
          .property ⟨"friend", "Result", "FriendResult2"⟩] none,
        .property ⟨"friend", "Result", "FriendResult"⟩,
        .property ⟨"name", "Name", "string"⟩] none,
      .property ⟨"user", "Result", "UserResult"⟩], none⟩

/-- Nothing leads out of the circle. -/
theorem eq_of_reached {name : Text}
    (h : Relation.ReflTransGen generator.context.fragments.Spreads "Named" name) :
    name = "Named" ∨ name = "Fellow" := by
  induction h with
  | refl => exact .inl rfl
  | tail _ hspread ih =>
    obtain ⟨f, hget, hmem⟩ := hspread
    rcases ih with rfl | rfl
    · cases hget
      exact .inr (List.mem_singleton.mp hmem)
    · cases hget
      exact .inl (List.mem_singleton.mp hmem)

theorem noCircleBelowField : generator.context.fragments.NoCircleBelowField := by
  rintro a b ⟨g, ⟨f, hget, hg⟩, hb⟩ hto
  have hname : f.name = a := by simpa using List.find?_some hget
  have hmem : f ∈ [Fragment.ofDefinition named, .ofDefinition fellow, .ofDefinition circle] :=
    List.mem_of_find?_eq_some hget
  simp only [List.mem_cons, List.not_mem_nil, or_false] at hmem
  rcases hmem with rfl | rfl | rfl
  · rcases List.mem_singleton.mp hg with rfl
    cases hb
  · rcases List.mem_pair.mp hg with rfl | rfl <;> cases hb
  · rcases List.mem_pair.mp hg with rfl | rfl
    · have hb : b = "Named" := by simpa [spreadsInAll, spreadsIn] using hb
      subst hname hb
      rcases eq_of_reached hto with h | h <;> cases h
    · cases hb

theorem find_ends :
    generator.context.fragments.NoCircleBelowField ∧
    Relation.TransGen generator.context.fragments.Spreads "Named" "Named" ∧
    generator.context.Compiles "FindPayload" find.selections query (.ok answer) ∧
    generator.context.responseClass find ≠ .error .nestingLimit := by
  have hends := (compilation_ends generator.context).2 noCircleBelowField
  have hclass : generator.context.compileClassWithin 8 "FindPayload" find.selections query
      = .ok answer := rfl
  refine ⟨noCircleBelowField, ?_, ?_, ?_⟩
  · have hfellow : generator.context.fragments.Spreads "Named" "Fellow" :=
      ⟨_, rfl, List.mem_singleton.mpr rfl⟩
    have hnamed : generator.context.fragments.Spreads "Fellow" "Named" :=
      ⟨_, rfl, List.mem_singleton.mpr rfl⟩
    exact .tail (.single hfellow) hnamed
  · obtain ⟨r, hunique, -, hlimit⟩ := hends.1 "FindPayload" find.selections query
    rw [hunique, ← hclass]
    exact hlimit 8 (by decide)
  · exact (hends.2 generator rfl).1 find List.mem_cons_self

end FellowSample

end SharpClient

import Mathlib.Data.List.Nodup
import Mathlib.Logic.Relation
import SharpClient.Operation.Classes
import SharpClient.Proofs.Selection.Compilation
import SharpClient.Proofs.Selection.Held

/-!
# Response paths

An answer is read by following response keys, and the same data is described twice. In the selection
set, a key leads to the union of the sub-selections of all fields under that key. In the generated
code, a property leads to the class nested for it or, when the field's only selection is a spread, to
the class of the fragment, which fields all over the document share.

The two descriptions have the same paths (`responseClass_hasPath_iff`). Fragment classes may refer to
one another in circles, so paths are compared by induction on the path and never by walking through
the classes.
-/

namespace SharpClient

open Outcome

/-! ### Paths of selections -/

/-- The sub-selections, taken together, of all fields that selections hold under a key. -/
def subselections (t : FragmentTable) (S : Set Selection) (k : Text) : Set Selection :=
  {s | ∃ f, Holds t S f ∧ f.key = k ∧ s ∈ f.selections}

/-- Each key is held by the selections that the keys before it lead to. -/
def IsResponsePath (t : FragmentTable) : Set Selection → List Text → Prop
  | _, [] => True
  | S, k :: ks => (∃ f, Holds t S f ∧ f.key = k) ∧ IsResponsePath t (subselections t S k) ks

section Selections

variable {t : FragmentTable}

/-- Only the fields that selections hold matter to their paths. -/
theorem isResponsePath_congr {S S' : Set Selection} (h : ∀ f, Holds t S f ↔ Holds t S' f)
    (ks : List Text) : IsResponsePath t S ks ↔ IsResponsePath t S' ks := by
  cases ks with
  | nil => exact Iff.rfl
  | cons k ks =>
    have hsub : subselections t S k = subselections t S' k := by
      ext s
      simp only [subselections, h]
    simp only [IsResponsePath, h, hsub]

theorem IsResponsePath.mono {S S' : Set Selection} {ks : List Text} (h : IsResponsePath t S ks)
    (hS : S ⊆ S') : IsResponsePath t S' ks := by
  induction ks generalizing S S' with
  | nil => trivial
  | cons k ks ih =>
    obtain ⟨⟨f, hf, hkey⟩, hks⟩ := h
    refine ⟨⟨f, hf.mono hS, hkey⟩, ih hks ?_⟩
    rintro s ⟨f', hf', hkey', hs⟩
    exact ⟨f', hf'.mono hS, hkey', hs⟩

/-- The way through one held field. -/
theorem Holds.isResponsePath_cons {S : Set Selection} {f : Field} {ks : List Text}
    (h : Holds t S f) (hks : IsResponsePath t {s | s ∈ f.selections} ks) :
    IsResponsePath t S (f.key :: ks) :=
  ⟨⟨f, h, rfl⟩, hks.mono fun _ hs => ⟨f, h, rfl, hs⟩⟩

theorem holds_sole_spread {name : Text} {directives : List Directive} {fragment : Fragment}
    (hget : t.get? name = some fragment) (f : Field) :
    Holds t {s | s ∈ [Selection.spread name directives]} f ↔
      Holds t {s | s ∈ fragment.definition.selections} f := by
  constructor
  · intro h
    cases h with
    | field h => simp [Field.toSelection] at h
    | spread h hget' hf =>
      rw [Set.mem_ofPred_eq, List.mem_singleton, Selection.spread.injEq] at h
      rw [h.1, hget] at hget'
      cases hget'
      exact hf
  · exact .spread List.mem_cons_self hget

theorem not_isResponsePath_of_empty {S : Set Selection} {k : Text} {ks : List Text}
    (hS : ∀ s, s ∉ S) : ¬IsResponsePath t S (k :: ks) := by
  rintro ⟨⟨f, hf, -⟩, -⟩
  cases hf with
  | field h => exact hS _ h
  | spread h => exact hS _ h

end Selections

/-! ### Paths of classes -/

/-- A class with the record of its compilation: what it was compiled from, and what each field
became. -/
structure CompiledClass (c : SelectionContext) where
  /-- How deep classes may nest in it. -/
  depth : Nat
  /-- Its name. -/
  name : Text
  /-- The selections it was compiled from. -/
  selections : List Selection
  /-- The type they are selected on. -/
  parent : TypeDefinition
  /-- The groups of the selections. -/
  groups : List FieldGroup
  /-- The field of each group, with what it became. -/
  fields : List (Field × CompiledField)
  collected : collectFields c.fragments parent.name selections = .ok groups
  run : c.GroupsRun (c.compileClassWithin depth) parent (Scope.ofClass name) groups fields

namespace CompiledClass

variable {c : SelectionContext}

/-- The class itself. -/
def decl (d : CompiledClass c) : ClassDecl :=
  ⟨d.name, d.fields.flatMap (·.2.members), none⟩

/-- The keys that the properties of the class are read from. -/
def wires (d : CompiledClass c) : List Text :=
  d.decl.properties.map Property.wire

/-- Every class that selections on a type compile to has a record. -/
theorem exists_on_of_compileClassWithin {limit : Nat} {name : Text} {selections : List Selection}
    {parent : TypeDefinition} {decl : ClassDecl}
    (h : c.compileClassWithin limit name selections parent = .ok decl) :
    ∃ d : CompiledClass c, d.decl = decl ∧ d.selections = selections ∧ d.parent = parent := by
  cases limit with
  | zero => cases h
  | succ depth =>
    obtain ⟨groups, xs, hgroups, hrun, rfl⟩ := SelectionContext.compileClassWithin_eq_ok.mp h
    exact ⟨⟨depth, name, selections, parent, groups, xs, hgroups, hrun⟩, rfl, rfl, rfl⟩

theorem exists_of_compileClassWithin {limit : Nat} {name : Text} {selections : List Selection}
    {parent : TypeDefinition} {decl : ClassDecl}
    (h : c.compileClassWithin limit name selections parent = .ok decl) :
    ∃ d : CompiledClass c, d.decl = decl ∧ d.selections = selections := by
  obtain ⟨d, hdecl, hselections, -⟩ := exists_on_of_compileClassWithin h
  exact ⟨d, hdecl, hselections⟩

theorem exists_of_fragmentClass {fragment : Fragment} {decl : ClassDecl}
    (h : c.fragmentClass fragment = .ok decl) :
    ∃ d : CompiledClass c, d.decl = decl ∧ d.selections = fragment.definition.selections := by
  obtain ⟨parent, -, -, h⟩ := SelectionContext.fragmentClass_eq_ok.mp h
  exact exists_of_compileClassWithin h

/-- The class that describes the values of a property: the one nested for it, or the one of the
fragment that is the field's only selection. -/
inductive Leads (d : CompiledClass c) (k : Text) : CompiledClass c → Prop
  | nested {f : Field} {x : CompiledField} {e : CompiledClass c} (hx : (f, x) ∈ d.fields)
      (hwire : x.property.wire = k) (hnested : x.nested = some e.decl)
      (hselections : e.selections = f.selections) : Leads d k e
  | fragment {f : Field} {x : CompiledField} {name : Text} {fragment : Fragment}
      {e : CompiledClass c} (hx : (f, x) ∈ d.fields) (hwire : x.property.wire = k)
      (hsole : soleSpread? f.selections = some name)
      (hget : c.fragments.get? name = some fragment)
      (hclass : c.fragmentClass fragment = .ok e.decl)
      (hselections : e.selections = fragment.definition.selections) : Leads d k e

/-- Each key is read by a property of the class that the keys before it lead to. -/
def HasPath : CompiledClass c → List Text → Prop
  | _, [] => True
  | d, k :: ks => k ∈ d.wires ∧ (ks ≠ [] → ∃ e, d.Leads k e ∧ e.HasPath ks)

/-- The classes that describe some part of the data that a class describes. -/
def Reaches : CompiledClass c → CompiledClass c → Prop :=
  Relation.ReflTransGen fun d e => ∃ k, d.Leads k e

/-! ### What the properties of a class are -/

theorem wire_eq_key (d : CompiledClass c) {f : Field} {x : CompiledField}
    (hx : (f, x) ∈ d.fields) : x.property.wire = f.key := by
  obtain ⟨scope, scope', hrule⟩ := d.run.exists_fieldRule hx
  cases hrule <;> rfl

theorem wires_eq (d : CompiledClass c) : d.wires = d.groups.map FieldGroup.key := by
  have hkeys : d.fields.map (fun x => x.2.property.wire) = d.fields.map (fun x => x.1.key) :=
    List.map_congr_left fun x hx => d.wire_eq_key hx
  have hmerged := congrArg (List.map Field.key) d.run.map_fst
  rw [List.map_map, List.map_map] at hmerged
  rw [wires, decl, ClassDecl.properties_members, List.map_map]
  exact hkeys.trans hmerged

theorem wires_nodup (d : CompiledClass c) : d.wires.Nodup := by
  rw [wires_eq]
  exact (wellGrouped_of_collectFields d.collected).nodup

/-- A field stands for the group of its key. -/
theorem exists_group (d : CompiledClass c) {f : Field} {x : CompiledField}
    (hx : (f, x) ∈ d.fields) : ∃ g ∈ d.groups, f = g.merged := by
  have hmem : f ∈ d.groups.map FieldGroup.merged := by
    rw [← d.run.map_fst]
    exact List.mem_map_of_mem hx
  obtain ⟨g, hg, rfl⟩ := List.mem_map.mp hmem
  exact ⟨g, hg, rfl⟩

theorem mem_wires_iff (d : CompiledClass c) {k : Text} :
    k ∈ d.wires ↔ ∃ f, Holds c.fragments {s | s ∈ d.selections} f ∧ f.key = k := by
  have hgrouped := wellGrouped_of_collectFields d.collected
  simp only [← mem_ungroup_collectFields d.collected]
  rw [wires_eq, List.mem_map]
  constructor
  · rintro ⟨g, hg, rfl⟩
    exact ⟨g.first, List.mem_flatMap.mpr ⟨g, hg, List.mem_cons_self⟩, rfl⟩
  · rintro ⟨f, hf, rfl⟩
    obtain ⟨g, hg, hfg⟩ := List.mem_flatMap.mp hf
    exact ⟨g, hg, (hgrouped.key_eq g hg f hfg).symm⟩

/-- The field of a key has the sub-selections of all fields of that key. -/
theorem selections_eq_subselections (d : CompiledClass c) {f : Field} {x : CompiledField}
    (hx : (f, x) ∈ d.fields) :
    {s | s ∈ f.selections} = subselections c.fragments {s | s ∈ d.selections} f.key := by
  obtain ⟨g, hg, rfl⟩ := d.exists_group hx
  have hgrouped := wellGrouped_of_collectFields d.collected
  ext s
  simp only [subselections, Set.mem_ofPred_eq, ← mem_ungroup_collectFields d.collected]
  constructor
  · intro hs
    obtain ⟨f, hf, hs⟩ := List.mem_flatMap.mp hs
    exact ⟨f, List.mem_flatMap.mpr ⟨g, hg, hf⟩, hgrouped.key_eq g hg f hf, hs⟩
  · rintro ⟨f, hf, hkey, hs⟩
    obtain ⟨g', hg', hfg'⟩ := List.mem_flatMap.mp hf
    have hgg' : g' = g := by
      refine List.inj_on_of_nodup_map hgrouped.nodup hg' hg ?_
      rw [← hgrouped.key_eq g' hg' f hfg', hkey, FieldGroup.key_merged]
    exact List.mem_flatMap.mpr ⟨f, hgg' ▸ hfg', hs⟩

/-! ### The two descriptions agree -/

/-- Every fragment that counts has a class. -/
def FragmentsCompile (c : SelectionContext) : Prop :=
  ∀ name fragment, c.fragments.get? name = some fragment → ∃ d, c.fragmentClass fragment = .ok d

/-- The class that a property leads to was compiled from selections that hold what the selections
under the property's key hold. -/
theorem Leads.holds_iff {d e : CompiledClass c} {k : Text} (h : d.Leads k e) (f : Field) :
    Holds c.fragments {s | s ∈ e.selections} f ↔
      Holds c.fragments (subselections c.fragments {s | s ∈ d.selections} k) f := by
  cases h with
  | nested hx hwire hnested hselections =>
    rw [← hwire, d.wire_eq_key hx, ← d.selections_eq_subselections hx, hselections]
  | fragment hx hwire hsole hget hclass hselections =>
    obtain ⟨directives, hsole⟩ := soleSpread?_eq_some hsole
    rw [← hwire, d.wire_eq_key hx, ← d.selections_eq_subselections hx, hselections, hsole,
      holds_sole_spread hget]

/-- A property leads to a class when its field has a sub-selection. -/
theorem exists_leads (hfragments : FragmentsCompile c) (d : CompiledClass c) {f : Field}
    {x : CompiledField} (hx : (f, x) ∈ d.fields) (hsome : f.selections ≠ []) :
    ∃ e, d.Leads f.key e := by
  obtain ⟨scope, scope', hrule⟩ := d.run.exists_fieldRule hx
  cases hrule with
  | leaf htype hnone => exact absurd hnone hsome
  | spread htype hsole hget =>
    obtain ⟨decl, hdecl⟩ := hfragments _ _ hget
    obtain ⟨e, rfl, hselections⟩ := exists_of_fragmentClass hdecl
    exact ⟨e, .fragment hx rfl hsole hget hdecl hselections⟩
  | nested htype hsome hsole hcore hclaim hnest =>
    obtain ⟨e, rfl, hselections⟩ := exists_of_compileClassWithin hnest
    exact ⟨e, .nested hx rfl rfl hselections⟩

theorem hasPath_iff (hfragments : FragmentsCompile c) (d : CompiledClass c) (ks : List Text) :
    d.HasPath ks ↔ IsResponsePath c.fragments {s | s ∈ d.selections} ks := by
  induction ks generalizing d with
  | nil => exact Iff.rfl
  | cons k ks ih =>
    rw [HasPath, IsResponsePath, d.mem_wires_iff]
    refine and_congr_right fun hkey => ?_
    constructor
    · intro h
      cases ks with
      | nil => trivial
      | cons k' ks =>
        obtain ⟨e, hleads, hpath⟩ := h (List.cons_ne_nil k' ks)
        exact (isResponsePath_congr hleads.holds_iff _).mp ((ih e).mp hpath)
    · intro hpath hne
      obtain ⟨f, x, hx, rfl⟩ : ∃ f x, (f, x) ∈ d.fields ∧ f.key = k := by
        have hwire : k ∈ d.wires := d.mem_wires_iff.mpr hkey
        rw [wires, decl, ClassDecl.properties_members, List.map_map] at hwire
        obtain ⟨⟨f, x⟩, hx, rfl⟩ := List.mem_map.mp hwire
        exact ⟨f, x, hx, (d.wire_eq_key hx).symm⟩
      obtain ⟨k', ks, rfl⟩ := List.exists_cons_of_ne_nil hne
      -- A key with a continuation has a sub-selection: otherwise nothing is held below it.
      have hsome : f.selections ≠ [] := by
        intro hnone
        refine not_isResponsePath_of_empty (fun s hs => ?_) hpath
        rw [← d.selections_eq_subselections hx, hnone] at hs
        exact List.not_mem_nil hs
      obtain ⟨e, hleads⟩ := exists_leads hfragments d hx hsome
      exact ⟨e, hleads, (ih e).mpr ((isResponsePath_congr hleads.holds_iff _).mpr hpath)⟩

end CompiledClass

/-- **Response-shape adequacy.** When an operation's answer class and the classes of all fragments
are compiled, the response keys of the operation's selections, followed through sub-selections, are
the keys read by properties, followed through nested and fragment classes; and no class on the way
reads a key twice. -/
theorem responseClass_hasPath_iff {c : OperationContext} {o : Operation} {d : ClassDecl}
    (hd : c.responseClass o = .ok d)
    (hfragments : ∀ name fragment, c.fragments.get? name = some fragment →
      ∃ e, c.fragmentClass fragment = .ok e) :
    ∃ r : CompiledClass c.toSelectionContext, r.decl = d ∧ r.selections = o.selections ∧
      (∀ ks, r.HasPath ks ↔ IsResponsePath c.fragments {s | s ∈ o.selections} ks) ∧
      ∀ e, r.Reaches e → (e.decl.properties.map Property.wire).Nodup := by
  obtain ⟨root, -, hd⟩ := bind_eq_ok.mp hd
  obtain ⟨name, -, hd⟩ := bind_eq_ok.mp hd
  obtain ⟨-, hd⟩ := SelectionContext.compileRoot_eq_ok.mp hd
  obtain ⟨r, hdecl, hselections⟩ := CompiledClass.exists_of_compileClassWithin hd
  refine ⟨r, hdecl, hselections, fun ks => ?_, fun e _ => e.wires_nodup⟩
  rw [CompiledClass.hasPath_iff hfragments r ks, hselections]

namespace CircleSample

/-- The circle of a friend. -/
def friend : Field :=
  ⟨none, "friend", [], [], [.spread "Circle" []]⟩

/-- A name. -/
def name : Field :=
  ⟨none, "name", [], [], []⟩

/-- A user's name and, in the same way, that of the friend, the friend's friend and so on. -/
def circle : Fragment :=
  .ofDefinition ⟨none, "Circle", "User", [], [friend.toSelection, name.toSelection]⟩

/-- Users with a friend and a name, of which one can be asked for. -/
def context : OperationContext where
  schema :=
    ⟨[⟨"User", .object [] [⟨"friend", [], .named "User", []⟩, ⟨"name", [], .named "String", []⟩],
      []⟩], [(.query, "User")], []⟩
  scalars := ⟨[]⟩
  convention := .keep
  fragments := ⟨[circle]⟩
  limit := 1
  config := {}

/-- Asks for the circle of a friend. -/
def operation : Operation :=
  ⟨none, .query, some "Friends", [], [], [friend.toSelection]⟩

/-- The class of the answer: its property has the class of the fragment. -/
def answerClass : ClassDecl :=
  ⟨"FriendsPayload", [.property ⟨"friend", "Circle", "Circle"⟩], none⟩

/-- The class of the fragment, which refers to itself. -/
def circleClass : ClassDecl :=
  ⟨"Circle", [.property ⟨"friend", "Circle2", "Circle"⟩, .property ⟨"name", "Name", "String"⟩],
    none⟩

theorem fragmentsCompile (name : Text) (fragment : Fragment)
    (h : context.fragments.get? name = some fragment) :
    ∃ d, context.fragmentClass fragment = .ok d := by
  have hmem : fragment ∈ [circle] := List.mem_of_find?_eq_some h
  rw [List.mem_singleton] at hmem
  exact ⟨circleClass, hmem ▸ rfl⟩

theorem answerClass_hasPath :
    context.responseClass operation = .ok answerClass ∧
      ∃ r : CompiledClass context.toSelectionContext, r.decl = answerClass ∧
        r.HasPath ["friend", "friend", "name"] := by
  have hclass : context.responseClass operation = .ok answerClass := rfl
  obtain ⟨r, hdecl, -, hpath, -⟩ := responseClass_hasPath_iff hclass fragmentsCompile
  refine ⟨hclass, r, hdecl, (hpath _).mpr ?_⟩
  -- Both `friend` and `name` are held through the spread from the second step on.
  have hfriend : Holds context.fragments {s | s ∈ friend.selections} friend :=
    .spread List.mem_cons_self rfl (.field List.mem_cons_self)
  have hname : Holds context.fragments {s | s ∈ friend.selections} name :=
    .spread List.mem_cons_self rfl (.field (List.mem_cons_of_mem _ List.mem_cons_self))
  have hroot : Holds context.fragments {s | s ∈ operation.selections} friend :=
    .field List.mem_cons_self
  exact hroot.isResponsePath_cons (hfriend.isResponsePath_cons (hname.isResponsePath_cons trivial))

end CircleSample

end SharpClient

import SharpClient.Proofs.Selection.Merging

/-!
# Repeated selections

Fields that share a key become one member with the sub-selections of all of them. A selection that
is there already brings no new key, so repeating it should change nothing. There is one exception: a
field whose sub-selections, taken together, are a single spread has the class of the fragment. When
the spread is repeated, it is no longer the only sub-selection, and the field gets a class of its own.

The exception may stand at any depth below the repeated selection. It is found by following response
keys (`selectionsAt`), and there is no other: the members stay the same exactly when the repeated
selection adds nothing to a field that has a single spread (`compileSelections_repeat_iff`).
-/

namespace SharpClient

open Outcome

/-! ### Sub-selections along response keys -/

/-- The sub-selections, in order, of all fields that selections stand for under a key. -/
def selectionsUnder (t : FragmentTable) (S : List Selection) (k : Text) : List Selection :=
  match expand t [] [] S with
  | .ok fs => selectionsOf fs k
  | .error _ => []

/-- The sub-selections that a row of keys leads to. -/
def selectionsAt (t : FragmentTable) : List Selection → List Text → List Selection
  | S, [] => S
  | S, k :: ks => selectionsAt t (selectionsUnder t S k) ks

/-- Wherever `S` has come down to a single spread, `X` has nothing. -/
def Spares (t : FragmentTable) (S X : List Selection) : Prop :=
  ∀ ks name, soleSpread? (selectionsAt t S ks) = some name → selectionsAt t X ks = []

section Spares

variable {t : FragmentTable} {S X : List Selection}

theorem selectionsUnder_eq {owner : Text} {fs : List Field} (h : expand t owner [] S = .ok fs)
    (k : Text) : selectionsUnder t S k = selectionsOf fs k := by
  rw [selectionsUnder, expand_owner h []]

@[simp] theorem selectionsUnder_nil (k : Text) : selectionsUnder t [] k = [] :=
  selectionsUnder_eq (expand_nil : expand t [] [] [] = .ok []) k

@[simp] theorem selectionsAt_nil (ks : List Text) : selectionsAt t [] ks = [] := by
  induction ks with
  | nil => rfl
  | cons k ks ih => rw [selectionsAt, selectionsUnder_nil, ih]

theorem spares_nil (S : List Selection) : Spares t S [] :=
  fun ks _ _ => selectionsAt_nil ks

/-- The first step of every row of keys taken apart. -/
theorem spares_iff : Spares t S X ↔ (∀ name, soleSpread? S = some name → X = []) ∧
    ∀ k, Spares t (selectionsUnder t S k) (selectionsUnder t X k) := by
  constructor
  · exact fun h => ⟨h [], fun k ks => h (k :: ks)⟩
  · rintro ⟨hnil, hcons⟩ ks
    cases ks with
    | nil => exact hnil
    | cons k ks => exact hcons k ks

theorem soleSpread?_append_eq_none (hsome : S ≠ []) (hsole : soleSpread? S = none) :
    soleSpread? (S ++ X) = none := by
  cases hboth : soleSpread? (S ++ X) with
  | none => rfl
  | some name =>
    obtain ⟨directives, heq⟩ := soleSpread?_eq_some hboth
    rcases List.append_eq_singleton_iff.mp heq with ⟨hS, -⟩ | ⟨hS, -⟩
    · exact absurd hS hsome
    · rw [hS] at hsole
      cases hsole

end Spares

/-! ### One field -/

/-- The members of a field tell what the field became. -/
theorem CompiledField.members_append_inj {x y : CompiledField} {rest rest' : List Member}
    (h : x.members ++ rest = y.members ++ rest') : x = y ∧ rest = rest' := by
  obtain ⟨p, nested⟩ := x
  obtain ⟨q, nested'⟩ := y
  cases nested with
  | none =>
    cases nested' with
    | none => simpa using h
    | some e => simp [ClassDecl.toMember] at h
  | some d =>
    cases nested' with
    | none => simp [ClassDecl.toMember] at h
    | some e =>
      obtain ⟨name, members, constructor⟩ := d
      obtain ⟨name', members', constructor'⟩ := e
      simp only [members_nested, ClassDecl.toMember, List.cons_append, List.nil_append,
        List.cons.injEq, Member.nested.injEq, Member.property.injEq] at h
      obtain ⟨⟨rfl, rfl, rfl⟩, rfl, rfl⟩ := h
      exact ⟨rfl, rfl⟩

namespace SelectionContext

variable {c : SelectionContext}
  {nest : Text → List Selection → TypeDefinition → Except GenerationError ClassDecl}
  {parent : TypeDefinition} {scope scope' : Scope} {f : Field} {x : CompiledField}
  {X : List Selection}

/-- Repeated selections change a nested class only where they meet a single spread. -/
def NestRepeats (c : SelectionContext)
    (nest : Text → List Selection → TypeDefinition → Except GenerationError ClassDecl) : Prop :=
  ∀ name S X core d, X ⊆ S → nest name S core = .ok d →
    (nest name (S ++ X) core = .ok d ↔
      ∀ k, Spares c.fragments (selectionsUnder c.fragments S k) (selectionsUnder c.fragments X k))

theorem FieldRule.repeat (hnest : c.NestRepeats nest)
    (h : FieldRule c nest parent scope f x scope') (hX : X ⊆ f.selections)
    (hspares : Spares c.fragments f.selections X) :
    FieldRule c nest parent scope { f with selections := f.selections ++ X } x scope' := by
  have hsame (hnil : X = []) : { f with selections := f.selections ++ X } = f := by
    rw [hnil, List.append_nil]
  cases h with
  | leaf htype hnone =>
    rw [hsame (List.subset_nil.mp (hnone ▸ hX))]
    exact .leaf htype hnone
  | spread htype hsole hget =>
    rw [hsame ((spares_iff.mp hspares).1 _ hsole)]
    exact .spread htype hsole hget
  | nested htype hsome hsole hcore hclaim hd =>
    refine .nested htype ?_ (soleSpread?_append_eq_none hsome hsole) hcore hclaim ?_
    · exact fun hnil => hsome (List.append_eq_nil_iff.mp hnil).1
    · exact (hnest _ _ _ _ _ hX hd).mpr (spares_iff.mp hspares).2

theorem FieldRule.spares_of_repeat (hnest : c.NestRepeats nest)
    (h : FieldRule c nest parent scope f x scope') (hX : X ⊆ f.selections) {scope'' : Scope}
    (h' : FieldRule c nest parent scope { f with selections := f.selections ++ X } x scope'') :
    Spares c.fragments f.selections X := by
  cases hrep : X with
  | nil => exact spares_nil f.selections
  | cons s rest =>
    rw [← hrep]
    have hsome' : f.selections ++ X ≠ [] := by simp [hrep]
    cases h with
    | leaf htype hnone => exact absurd (List.subset_nil.mp (hnone ▸ hX)) (by simp [hrep])
    | spread htype hsole hget =>
      -- The spread is no longer alone, so the field would have a class of its own.
      obtain ⟨directives, hselections⟩ := soleSpread?_eq_some hsole
      have hsole' : soleSpread? (f.selections ++ X) = none := by
        rw [hselections, hrep]
        rfl
      exfalso
      generalize hx : CompiledField.mk _ none = y at h'
      cases h' with
      | leaf _ hnone => exact hsome' hnone
      | spread _ hsole'' => exact absurd (hsole'.symm.trans hsole'') (by simp)
      | nested => exact absurd (congrArg CompiledField.nested hx) (by simp)
    | nested htype hsome hsole hcore hclaim hd =>
      generalize hx : CompiledField.mk _ (some _) = y at h'
      cases h' with
      | leaf _ hnone => exact absurd hnone hsome'
      | spread => exact absurd (congrArg CompiledField.nested hx) (by simp)
      | nested htype' hsome' hsole' hcore' hclaim' hd' =>
        cases htype.symm.trans htype'
        cases hcore.symm.trans hcore'
        cases hclaim.symm.trans hclaim'
        cases hx
        refine spares_iff.mpr ⟨fun name hname => ?_, (hnest _ _ _ _ _ hX hd).mp hd'⟩
        rw [hsole] at hname
        cases hname

/-! ### All fields of a class -/

theorem compileFields_extend_iff (hnest : c.NestRepeats nest) {ms fs : List Field}
    {members : List Member} (h : c.compileFields nest parent scope ms = .ok members)
    (hsub : ∀ m ∈ ms, selectionsOf fs m.key ⊆ m.selections) :
    c.compileFields nest parent scope (ms.map (Field.extend fs)) = .ok members ↔
      ∀ m ∈ ms, Spares c.fragments m.selections (selectionsOf fs m.key) := by
  induction ms generalizing scope members with
  | nil => exact iff_of_true h (by simp)
  | cons m ms ih =>
    rw [List.forall_mem_cons] at hsub ⊢
    obtain ⟨⟨x, scope'⟩, hfield, h⟩ := bind_eq_ok.mp h
    obtain ⟨rest, hrest, h⟩ := bind_eq_ok.mp h
    have hrule := fieldRule_of_compileFieldWith hfield
    have hkept (hspares : Spares c.fragments m.selections (selectionsOf fs m.key)) :
        c.compileFieldWith nest parent scope (m.extend fs) = .ok (x, scope') :=
      compileFieldWith_of_fieldRule (hrule.repeat hnest hsub.1 hspares)
    cases h
    constructor
    · intro h'
      obtain ⟨⟨y, scope''⟩, hfield', h'⟩ := bind_eq_ok.mp h'
      obtain ⟨rest', hrest', h'⟩ := bind_eq_ok.mp h'
      obtain ⟨rfl, rfl⟩ := CompiledField.members_append_inj (Except.ok.inj h')
      have hspares :=
        hrule.spares_of_repeat hnest hsub.1 (fieldRule_of_compileFieldWith hfield')
      -- The scope after the field is the same as before, so the other fields can be compared.
      cases (hkept hspares).symm.trans hfield'
      exact ⟨hspares, (ih hrest hsub.2).mp hrest'⟩
    · rintro ⟨hspares, hall⟩
      rw [List.map_cons, compileFields, hkept hspares, ok_bind]
      simp only [(ih hrest hsub.2).mpr hall, ok_bind]
      rfl

theorem compileSelectionsWith_repeat_iff (hnest : c.NestRepeats nest) {S : List Selection}
    {members : List Member} (h : c.compileSelectionsWith nest S parent scope = .ok members)
    (hX : X ⊆ S) :
    c.compileSelectionsWith nest (S ++ X) parent scope = .ok members ↔
      ∀ k, Spares c.fragments (selectionsUnder c.fragments S k)
        (selectionsUnder c.fragments X k) := by
  rw [compileSelectionsWith_eq] at h ⊢
  obtain ⟨fs, hfs, h⟩ := bind_eq_ok.mp h
  obtain ⟨gs, hgs, hsub⟩ := exists_expand_of_subset hfs hX
  have hkeys : ∀ g ∈ gs, g.key ∈ fs.map Field.key := fun g hg => List.mem_map_of_mem (hsub hg)
  have hmerged : ∀ m ∈ mergeFields fs, selectionsOf gs m.key ⊆ m.selections := fun m hm => by
    rw [selections_of_mem_mergeFields hm]
    exact selectionsOf_subset hsub m.key
  rw [expand_append, hfs, ok_bind, hgs, ok_bind, pure_eq_ok, ok_bind, mergeFields_append hkeys,
    compileFields_extend_iff hnest h hmerged]
  simp only [selectionsUnder_eq hfs, selectionsUnder_eq hgs]
  constructor
  · intro hall k
    by_cases hk : k ∈ fs.map Field.key
    · obtain ⟨m, hm, rfl⟩ := List.mem_map.mp (mem_keys_mergeFields.mpr hk)
      rw [← selections_of_mem_mergeFields hm]
      exact hall m hm
    · have hnone : k ∉ gs.map Field.key := fun hmem => by
        obtain ⟨g, hg, rfl⟩ := List.mem_map.mp hmem
        exact hk (hkeys g hg)
      rw [selectionsOf_eq_nil hnone]
      exact spares_nil _
  · intro hall m hm
    rw [selections_of_mem_mergeFields hm]
    exact hall m.key

theorem nestRepeats_compileClassWithin (limit : Nat) :
    c.NestRepeats (c.compileClassWithin limit) := by
  induction limit with
  | zero =>
    intro name S X core d _ h
    cases h
  | succ limit ih =>
    intro name S X core d hX h
    obtain ⟨members, hmembers, h⟩ := bind_eq_ok.mp h
    cases h
    rw [← compileSelectionsWith_repeat_iff ih hmembers hX, compileClassWithin]
    constructor
    · intro h'
      obtain ⟨members', hmembers', h'⟩ := bind_eq_ok.mp h'
      cases h'
      exact hmembers'
    · intro h'
      rw [h']
      rfl

end SelectionContext

/-- **Repeated selections.** A selection that is repeated behind the others leaves the members as
they are exactly when, wherever a row of response keys leads the selections to a single spread, the
repeated one has nothing. -/
theorem compileSelections_repeat_iff {c : SelectionContext} {parent : TypeDefinition}
    {scope : Scope} {S : List Selection} {members : List Member}
    (h : c.compileSelections S parent scope = .ok members) {s : Selection} (hs : s ∈ S) :
    c.compileSelections (S ++ [s]) parent scope = .ok members ↔
      ∀ k ks name, soleSpread? (selectionsAt c.fragments S (k :: ks)) = some name →
        selectionsAt c.fragments [s] (k :: ks) = [] := by
  have hsub : [s] ⊆ S := List.cons_subset.mpr ⟨hs, List.nil_subset S⟩
  exact SelectionContext.compileSelectionsWith_repeat_iff
    (SelectionContext.nestRepeats_compileClassWithin c.limit) h hsub

namespace InfoSample

/-- A user's name. -/
def name : Field :=
  ⟨none, "name", [], [], []⟩

/-- Users with a name and a friend. -/
def user : TypeDefinition :=
  ⟨"User", .object [] [⟨"name", [], .named "String", []⟩, ⟨"friend", [], .named "User", []⟩], []⟩

/-- A fragment with a user's name. -/
def info : Fragment :=
  .ofDefinition ⟨none, "Info", "User", [], [name.toSelection]⟩

/-- Users and the fragment. -/
def context : SelectionContext where
  schema := ⟨[user], [], []⟩
  scalars := ⟨[]⟩
  convention := .keep
  fragments := ⟨[info]⟩
  limit := 1

/-- The friend's name. -/
def friend : Field :=
  ⟨none, "friend", [], [], [name.toSelection]⟩

/-- The friend's name and the user's own. -/
def selections : List Selection :=
  [friend.toSelection, .spread "Info" []]

/-- The class of the friend, and a property for each field. -/
def members : List Member :=
  [.nested "FriendResult" [.property ⟨"name", "Name", "String"⟩] none,
    .property ⟨"friend", "Result", "FriendResult"⟩, .property ⟨"name", "Name", "String"⟩]

theorem expand_name (path : List Text) :
    expand context.fragments [] path [name.toSelection] = .ok [name] := by
  rw [expand_toSelection, expand_nil, map_ok]

theorem expand_selections : expand context.fragments [] [] selections = .ok [friend, name] := by
  have hget : context.fragments.get? "Info" = some info := rfl
  have hbody : expand context.fragments [] ["Info"] info.definition.selections = .ok [name] :=
    expand_name _
  rw [selections, expand_toSelection, expand_spread hget List.not_mem_nil, hbody, expand_nil]
  rfl

/-- No key has a single spread below it. -/
theorem soleSpread?_selectionsAt (k : Text) (ks : List Text) :
    soleSpread? (selectionsAt context.fragments selections (k :: ks)) = none := by
  have hunder : selectionsUnder context.fragments selections k =
      if friend.key = k then [name.toSelection] else [] := by
    have hname : selectionsOf [name] k = [] := by
      rw [selectionsOf_singleton]
      exact ite_self _
    rw [selectionsUnder_eq expand_selections, ← List.singleton_append, selectionsOf_append, hname,
      List.append_nil, selectionsOf_singleton]
    rfl
  rw [selectionsAt, hunder]
  split
  · cases ks with
    | nil => rfl
    | cons k' ks =>
      have hnone : selectionsUnder context.fragments [name.toSelection] k' = [] := by
        rw [selectionsUnder_eq (expand_name []), selectionsOf_singleton]
        exact ite_self _
      rw [selectionsAt, hnone, selectionsAt_nil]
      rfl
  · rw [selectionsAt_nil]
    rfl

theorem info_repeated :
    context.compileSelections selections user {} = .ok members ∧
      context.compileSelections (selections ++ [.spread "Info" []]) user {} = .ok members := by
  have hmembers : context.compileSelections selections user {} = .ok members := rfl
  have hmem : .spread "Info" [] ∈ selections := by simp [selections]
  refine ⟨hmembers, (compileSelections_repeat_iff hmembers hmem).mpr fun k ks n hsole => ?_⟩
  rw [soleSpread?_selectionsAt k ks] at hsole
  cases hsole

/-- The friend by a spread alone. -/
def friendInfo : Selection :=
  .field none "friend" [] [] [.spread "Info" []]

/-- A repeated selection is not always without effect: asked for once, the friend has the class of
the fragment, and asked for twice, a class of its own. -/
theorem not_repeat_unchanged :
    ¬∀ (c : SelectionContext) (parent : TypeDefinition) (scope : Scope) (S : List Selection)
      (s : Selection) (members : List Member), c.compileSelections S parent scope = .ok members →
        s ∈ S → c.compileSelections (S ++ [s]) parent scope = .ok members := by
  intro h
  have honce : context.compileSelections [friendInfo] user {} =
      .ok [.property ⟨"friend", "Info", "Info"⟩] := rfl
  have htwice : context.compileSelections ([friendInfo] ++ [friendInfo]) user {} =
      .ok [.nested "FriendResult" [.property ⟨"name", "Name", "String"⟩] none,
        .property ⟨"friend", "Result", "FriendResult"⟩] := rfl
  have hsame := h context user {} [friendInfo] friendInfo _ honce List.mem_cons_self
  rw [htwice] at hsame
  cases hsame

end InfoSample

end SharpClient

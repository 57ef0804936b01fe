import Mathlib.Data.Finset.Card
import Mathlib.Data.Finset.Dedup
import SharpClient.Proofs.Outcome
import SharpClient.Schema.Build

/-!
# Types that a schema knows

A schema is put together by a visit of its types in depth, which leaves a type to its own turn when
one is coming. The depth of the visit is bounded by the number of types, and that is enough: each
level adds a type that was not found before. So every type that is met has what it refers to in the
schema as well (`Visited`), and since a document may not refer to types that nobody defines, the
fields of a schema's types have types of the schema (`closed_of_ofDocument`). The introspection
system is always visited, and it brings in the strings that `__typename` is read as.
-/

namespace SharpClient

open Outcome

/-! ### Types by name -/

section FindType

variable {types : List TypeDefinition} {name : Text} {t : TypeDefinition}

theorem name_of_findType? (h : findType? types name = some t) : t.name = name := by
  simpa using List.find?_some h

theorem exists_findType? (h : name ∈ types.map TypeDefinition.name) :
    ∃ t, findType? types name = some t := by
  obtain ⟨t, ht, rfl⟩ := List.mem_map.mp h
  rw [← Option.isSome_iff_exists, findType?, List.find?_isSome]
  exact ⟨t, ht, by simp⟩

end FindType

namespace Schema

/-- Every field of the schema's types has a type of the schema, and so has `__typename`. -/
structure Closed (s : Schema) : Prop where
  string : ∃ t, s.type? "String" = some t ∧ t.body = .scalar
  field : ∀ t ∈ s.types, ∀ fields, t.fields? = some fields →
    ∀ f ∈ fields, ∃ u, s.type? f.type.core = some u

/-! ### The visit in depth -/

section Visit

variable {types : List TypeDefinition} {awaited found todo result : List Text} {name : Text}

/-- The types that the type of a name refers to. -/
def references (types : List TypeDefinition) (name : Text) : List Text :=
  ((findType? types name).map Rules.typeReferences).getD []

/-- The number of types that are not found yet. -/
def unseen (types : List TypeDefinition) (found : List Text) : Nat :=
  ((types.map TypeDefinition.name).toFinset \ found.toFinset).card

theorem unseen_le (types : List TypeDefinition) (found : List Text) :
    unseen types found ≤ types.length :=
  calc unseen types found
      ≤ (types.map TypeDefinition.name).toFinset.card := Finset.card_le_card Finset.sdiff_subset
    _ ≤ (types.map TypeDefinition.name).length := List.toFinset_card_le _
    _ = types.length := List.length_map _

theorem unseen_anti (h : found ⊆ result) : unseen types result ≤ unseen types found := by
  refine Finset.card_le_card (Finset.sdiff_subset_sdiff (Finset.Subset.refl _) ?_)
  intro n hn
  rw [List.mem_toFinset] at hn ⊢
  exact h hn

theorem unseen_concat_lt {t : TypeDefinition} (ht : findType? types name = some t)
    (hname : name ∉ found) : unseen types (found ++ [name]) < unseen types found := by
  have hmem : name ∈ types.map TypeDefinition.name :=
    List.mem_map.mpr ⟨t, List.mem_of_find?_eq_some ht, name_of_findType? ht⟩
  refine Finset.card_lt_card (Finset.ssubset_iff_of_subset ?_ |>.mpr ⟨name, ?_, ?_⟩)
  · intro n hn
    simp only [Finset.mem_sdiff, List.mem_toFinset, List.mem_append, not_or] at hn ⊢
    exact ⟨hn.1, hn.2.1⟩
  · simpa using ⟨by simpa using hmem, hname⟩
  · simp

/-- What a visit has done: nothing found is lost, what was to do is found or left to its own turn,
and so is what the types found on the way refer to. -/
structure Visited (types : List TypeDefinition) (awaited found todo result : List Text) : Prop where
  subset : found ⊆ result
  todo_mem : ∀ n ∈ todo, n ∈ result ∨ n ∈ awaited
  references_mem : ∀ n ∈ result, n ∉ found → ∀ m ∈ references types n, m ∈ result ∨ m ∈ awaited

namespace Visited

theorem nil (types : List TypeDefinition) (awaited found : List Text) :
    Visited types awaited found [] found :=
  ⟨List.Subset.refl _, fun _ hn => absurd hn List.not_mem_nil, fun _ hn hnot => absurd hn hnot⟩

/-- A visit after another one, which sees to what the first one left. -/
theorem append {awaited' todo' result' : List Text} (h : Visited types awaited found todo result)
    (h' : Visited types awaited' result todo' result')
    (hawaited : ∀ n ∈ awaited, n ∈ todo' ∨ n ∈ awaited') :
    Visited types awaited' found (todo ++ todo') result' := by
  have hlater : ∀ n, n ∈ result ∨ n ∈ awaited → n ∈ result' ∨ n ∈ awaited' := by
    rintro n (hn | hn)
    · exact .inl (h'.subset hn)
    · exact (hawaited n hn).elim (h'.todo_mem n) .inr
  refine ⟨List.Subset.trans h.subset h'.subset, ?_, ?_⟩
  · intro n hn
    rcases List.mem_append.mp hn with hn | hn
    · exact hlater n (h.todo_mem n hn)
    · exact h'.todo_mem n hn
  · intro n hn hnot m hm
    by_cases hfirst : n ∈ result
    · exact hlater m (h.references_mem n hfirst hnot m hm)
    · exact h'.references_mem n hn hfirst m hm

/-- A type is seen to once what it refers to is. -/
theorem of_references
    (h : Visited types awaited (found ++ [name]) (references types name) result) :
    Visited types awaited found [name] result := by
  refine ⟨List.Subset.trans (List.subset_append_left found [name]) h.subset, ?_, ?_⟩
  · intro n hn
    exact .inl (h.subset (List.mem_append_right found hn))
  · intro n hn hnot m hm
    by_cases heq : n = name
    · exact h.todo_mem m (heq ▸ hm)
    · refine h.references_mem n hn ?_ m hm
      rw [List.mem_append, List.mem_singleton, not_or]
      exact ⟨hnot, heq⟩

end Visited

@[simp] theorem visit_nil (types : List TypeDefinition) (awaited : List Text) (depth : Nat)
    (found : List Text) : visit types awaited depth found [] = found := by
  cases depth <;> rfl

theorem visit_cons (depth : Nat) (rest : List Text) :
    visit types awaited (depth + 1) found (name :: rest) =
      visit types awaited (depth + 1)
        (if name ∈ found ∨ name ∈ awaited then found
          else visit types awaited depth (found ++ [name]) (references types name)) rest := rfl

/-- A visit that may go deeper than there are types left sees to everything. -/
theorem visited_visit {depth : Nat} (hdepth : unseen types found < depth) :
    Visited types awaited found todo (visit types awaited depth found todo) := by
  induction depth generalizing found todo with
  | zero => omega
  | succ depth ih =>
    induction todo generalizing found with
    | nil =>
      rw [visit_nil]
      exact .nil types awaited found
    | cons name rest ihrest =>
      -- The first of the types to do is seen to one level further down.
      obtain ⟨next, hnext, hvisited⟩ : ∃ next,
          (if name ∈ found ∨ name ∈ awaited then found
            else visit types awaited depth (found ++ [name]) (references types name)) = next ∧
          Visited types awaited found [name] next := by
        refine ⟨_, rfl, ?_⟩
        split
        case isTrue hseen =>
          refine ⟨List.Subset.refl _, ?_, fun _ hn hnot => absurd hn hnot⟩
          intro n hn
          rwa [List.mem_singleton.mp hn]
        case isFalse hfresh =>
          rw [not_or] at hfresh
          apply Visited.of_references
          cases ht : findType? types name with
          | none =>
            have hnone : references types name = [] := by rw [references, ht]; rfl
            rw [hnone, visit_nil]
            exact .nil types awaited _
          | some t =>
            have hfewer := unseen_concat_lt ht hfresh.1
            exact ih (by omega)
      have hunseen : unseen types next ≤ unseen types found := unseen_anti hvisited.subset
      rw [visit_cons, hnext]
      exact hvisited.append (ihrest (by omega)) fun n hn => .inr hn

theorem visited_visitOwn (found names : List Text) :
    Visited types [] found names (visitOwn types found names) := by
  induction names generalizing found with
  | nil => exact .nil types [] found
  | cons name later ih =>
    have hdepth : unseen types found < types.length + 1 := Nat.lt_succ_of_le (unseen_le types found)
    have hfirst : Visited types later found [name]
        (visit types later (types.length + 1) found [name]) := visited_visit hdepth
    exact hfirst.append (ih _) fun n hn => .inl hn

/-- The visit that puts the types of a schema in order. -/
theorem visited_ordered (types : List TypeDefinition) (own others : List Text) :
    Visited types [] [] (own ++ others)
      (visit types [] (types.length + 1) (visitOwn types [] own) others) := by
  have hdepth : unseen types (visitOwn types [] own) < types.length + 1 :=
    Nat.lt_succ_of_le (unseen_le types _)
  exact (visited_visitOwn [] own).append (visited_visit hdepth) fun n hn => .inr hn

/-- A type that is met is listed under its name. -/
theorem findType?_filterMap {names : List Text} {t : TypeDefinition} (hname : name ∈ names)
    (ht : findType? types name = some t) :
    findType? (names.filterMap (findType? types)) name = some t := by
  have hmem : t ∈ names.filterMap (findType? types) := List.mem_filterMap.mpr ⟨name, hname, ht⟩
  obtain ⟨u, hu⟩ := exists_findType? (List.mem_map.mpr ⟨t, hmem, name_of_findType? ht⟩)
  -- Whatever is listed under the name was found by it.
  obtain ⟨n, -, hn⟩ := List.mem_filterMap.mp (List.mem_of_find?_eq_some hu)
  have hnname : n = name := (name_of_findType? hn).symm.trans (name_of_findType? hu)
  rw [hu, ← hn, hnname, ht]

end Visit

/-! ### The types of a document -/

theorem typeReferences_extend {t e : TypeDefinition} {n : Text}
    (h : n ∈ Rules.typeReferences (t.extend e)) :
    n ∈ Rules.typeReferences t ∨ n ∈ Rules.typeReferences e := by
  obtain ⟨name, body, directives⟩ := t
  obtain ⟨name', body', directives'⟩ := e
  -- Only an extension of the same kind adds anything.
  cases body <;> cases body' <;>
    simp only [TypeDefinition.extend, TypeBody.extend, Rules.typeReferences, Rules.inputReferences,
      List.flatMap_append, List.map_append, List.mem_append] at h ⊢ <;>
    tauto

theorem typeReferences_foldl_extend {es : List TypeDefinition} {t : TypeDefinition} {n : Text}
    (h : n ∈ Rules.typeReferences (es.foldl TypeDefinition.extend t)) :
    n ∈ Rules.typeReferences t ∨ ∃ e ∈ es, n ∈ Rules.typeReferences e := by
  induction es generalizing t with
  | nil => exact .inl h
  | cons e es ih =>
    rcases ih h with h | ⟨e', he', h⟩
    · rcases typeReferences_extend h with h | h
      · exact .inl h
      · exact .inr ⟨e, List.mem_cons_self, h⟩
    · exact .inr ⟨e', List.mem_cons_of_mem e he', h⟩

theorem name_foldl_extend (es : List TypeDefinition) (t : TypeDefinition) :
    (es.foldl TypeDefinition.extend t).name = t.name := by
  induction es generalizing t with
  | nil => rfl
  | cons e es ih => exact ih (t.extend e)

theorem names_documentTypes (d : Document) :
    (documentTypes d).map TypeDefinition.name =
      (Rules.typeDefinitions d).map TypeDefinition.name := by
  rw [documentTypes, List.map_map]
  refine List.map_congr_left fun t _ => ?_
  rw [Function.comp_apply]
  cases hstandard : findType? Standard.types t.name with
  | none => exact name_foldl_extend _ t
  | some u => exact name_of_findType? hstandard

/-- A type of a document that has a built-in namesake is the built-in type. -/
theorem eq_standard_of_mem_documentTypes {d : Document} {t u : TypeDefinition}
    (ht : t ∈ documentTypes d) (hu : findType? Standard.types t.name = some u) : t = u := by
  obtain ⟨definition, -, rfl⟩ := List.mem_map.mp ht
  cases hstandard : findType? Standard.types definition.name with
  | none =>
    rw [hstandard, Option.getD_none, name_foldl_extend, hstandard] at hu
    cases hu
  | some v =>
    rw [hstandard, Option.getD_some, name_of_findType? hstandard, hstandard] at hu
    exact Option.some.inj hu

theorem references_standard : ∀ t ∈ Standard.types, ∀ n ∈ Rules.typeReferences t,
    n ∈ Standard.types.map TypeDefinition.name := by
  decide

theorem references_documentTypes {d : Document} {t : TypeDefinition} {n : Text}
    (ht : t ∈ documentTypes d) (hn : n ∈ Rules.typeReferences t) :
    n ∈ Rules.systemReferences d ∨ n ∈ Standard.types.map TypeDefinition.name := by
  obtain ⟨definition, hdefinition, rfl⟩ := List.mem_map.mp ht
  have hparts : ∀ u ∈ Rules.typeParts d, n ∈ Rules.typeReferences u →
      n ∈ Rules.systemReferences d := by
    intro u hu hnu
    rw [Rules.systemReferences, List.mem_append, List.mem_append]
    exact .inl (.inr (List.mem_flatMap.mpr ⟨u, hu, hnu⟩))
  cases hstandard : findType? Standard.types definition.name with
  | some u =>
    rw [hstandard, Option.getD_some] at hn
    exact .inr (references_standard u (List.mem_of_find?_eq_some hstandard) n hn)
  | none =>
    rw [hstandard, Option.getD_none] at hn
    rcases typeReferences_foldl_extend hn with hn | ⟨e, he, hn⟩
    · exact .inl (hparts definition (List.mem_append_left _ hdefinition) hn)
    · exact .inl (hparts e (List.mem_append_right _ (List.mem_filter.mp he).1) hn)

/-- Types with the built-in ones that they lack. -/
def withStandard (own : List TypeDefinition) : List TypeDefinition :=
  own ++ Standard.types.filter fun t => t.name ∉ own.map TypeDefinition.name

theorem mem_names_withStandard {own : List TypeDefinition} {n : Text}
    (h : n ∈ own.map TypeDefinition.name ∨ n ∈ Standard.types.map TypeDefinition.name) :
    n ∈ (withStandard own).map TypeDefinition.name := by
  rw [withStandard, List.map_append, List.mem_append]
  by_cases hown : n ∈ own.map TypeDefinition.name
  · exact .inl hown
  · obtain ⟨t, ht, rfl⟩ := List.mem_map.mp (h.resolve_left hown)
    exact .inr (List.mem_map_of_mem (List.mem_filter.mpr ⟨ht, by simpa using hown⟩))

/-- A built-in name stands for the built-in type. -/
theorem findType?_withStandard {d : Document} {n : Text} {u : TypeDefinition}
    (hu : findType? Standard.types n = some u) :
    findType? (withStandard (documentTypes d)) n = some u := by
  rw [findType?, withStandard, List.find?_append]
  cases hfind : (documentTypes d).find? (·.name = n) with
  | some t =>
    have hname : t.name = n := name_of_findType? hfind
    rw [eq_standard_of_mem_documentTypes (List.mem_of_find?_eq_some hfind) (hname ▸ hu)]
    rfl
  | none =>
    -- No type of the document has the name, so the built-in one is not left out.
    have hkept : (fun t : TypeDefinition =>
        decide (decide (t.name ∉ (documentTypes d).map TypeDefinition.name) = true ∧
          decide (t.name = n) = true)) = fun t => decide (t.name = n) := by
      funext t
      rw [List.find?_eq_none] at hfind
      by_cases hname : t.name = n
      · simpa [hname] using hfind
      · simp [hname]
    rw [Option.none_or, List.find?_filter, hkept]
    exact hu

/-- In a document without faults, types refer to types. -/
theorem exists_findType?_of_references {d : Document} (hfaults : Rules.faults d = [])
    {t : TypeDefinition} (ht : t ∈ withStandard (documentTypes d)) {n : Text}
    (hn : n ∈ Rules.typeReferences t) :
    ∃ u, findType? (withStandard (documentTypes d)) n = some u := by
  apply exists_findType?
  apply mem_names_withStandard
  rcases List.mem_append.mp ht with ht | ht
  · rcases references_documentTypes ht hn with hn | hn
    · have hreferences : Rules.referenceFaults d = [] := by
        simp only [Rules.faults, List.append_eq_nil_iff] at hfaults
        exact hfaults.1.1.1.2
      simp only [Rules.referenceFaults, List.append_eq_nil_iff, List.map_eq_nil_iff,
        List.filter_eq_nil_iff] at hreferences
      have hknown := hreferences.1 n hn
      rw [decide_eq_true_eq, not_not, List.mem_append] at hknown
      rwa [names_documentTypes]
    · exact .inr hn
  · exact .inr (references_standard t (List.mem_filter.mp ht).1 n hn)

/-! ### The schema of a document -/

theorem core_mem_typeReferences {t : TypeDefinition} {fields : List FieldDefinition}
    (hfields : t.fields? = some fields) {f : FieldDefinition} (hf : f ∈ fields) :
    f.type.core ∈ Rules.typeReferences t := by
  obtain ⟨name, body, directives⟩ := t
  have hmem : f.type.core ∈
      fields.flatMap fun f => f.type.core :: Rules.inputReferences f.arguments :=
    List.mem_flatMap.mpr ⟨f, hf, List.mem_cons_self⟩
  cases body with
  | object | interface =>
    cases hfields
    exact List.mem_append_right _ hmem
  | scalar | union | enum | input => cases hfields

theorem name_apply (settled : SettledTypes) (t : TypeDefinition) :
    (settled.apply t).name = t.name := by
  rw [SettledTypes.apply]
  split <;> rfl

theorem fields?_apply (settled : SettledTypes) (t : TypeDefinition) :
    (settled.apply t).fields? = t.fields? := by
  rw [SettledTypes.apply]
  split
  case h_1 hbody _ => rw [TypeDefinition.fields?, TypeDefinition.fields?, hbody]
  case h_2 => rfl

theorem apply_of_scalar (settled : SettledTypes) {t : TypeDefinition} (h : t.body = .scalar) :
    settled.apply t = t := by
  rw [SettledTypes.apply, h]

theorem findType?_map_apply (settled : SettledTypes) (types : List TypeDefinition) (n : Text) :
    findType? (types.map settled.apply) n = (findType? types n).map settled.apply := by
  rw [findType?, List.find?_map]
  simp only [Function.comp_def, name_apply]
  rfl

/-- The schema of a document without faults lists types that are closed under references, the
introspection system among them. -/
theorem ofDocument_eq_ok {document : Document} {s : Schema} (h : ofDocument document = .ok s) :
    ∃ (d : Document) (names : List Text) (settled : SettledTypes),
      Rules.faults d = [] ∧ "__Schema".toList ∈ names ∧
      (∀ n ∈ names, ∀ m ∈ references (withStandard (documentTypes d)) n, m ∈ names) ∧
      s.types = (names.filterMap (findType? (withStandard (documentTypes d)))).map
        (SettledTypes.apply settled) := by
  simp only [ofDocument] at h
  split at h
  case isTrue => cases h
  case isFalse hfaults =>
    obtain ⟨⟨_, settled⟩, -, h⟩ := bind_eq_ok.mp h
    cases h
    have hvisited := visited_ordered (withStandard (documentTypes (withNamedClient document)))
    refine ⟨withNamedClient document, _, settled, by simpa using hfaults, ?_, ?_, rfl⟩
    · refine ((hvisited _ _).todo_mem _ ?_).resolve_right List.not_mem_nil
      exact List.mem_append_right _ (List.mem_append_right _ List.mem_cons_self)
    · intro n hn m hm
      exact ((hvisited _ _).references_mem n hn List.not_mem_nil m hm).resolve_right
        List.not_mem_nil

/-- **Closed schemas.** In the schema of a document, fields have types of the schema. -/
theorem closed_of_ofDocument {document : Document} {s : Schema} (h : ofDocument document = .ok s) :
    s.Closed := by
  obtain ⟨d, names, settled, hfaults, hintrospection, hclosed, htypes⟩ := ofDocument_eq_ok h
  have htype : ∀ n t, n ∈ names → findType? (withStandard (documentTypes d)) n = some t →
      s.type? n = some (settled.apply t) := by
    intro n t hn ht
    rw [type?, htypes, findType?_map_apply, findType?_filterMap hn ht]
    rfl
  refine ⟨?_, ?_⟩
  · -- The introspection system refers to strings.
    obtain ⟨root, hroot, hreferences⟩ : ∃ root, findType? Standard.types "__Schema" = some root ∧
        "String".toList ∈ Rules.typeReferences root := ⟨_, rfl, by decide⟩
    have hmem : "String".toList ∈ names := by
      refine hclosed _ hintrospection _ ?_
      rw [references, findType?_withStandard hroot]
      exact hreferences
    have hstring : findType? Standard.types "String" = some ⟨"String", .scalar, []⟩ := rfl
    refine ⟨_, htype "String" _ hmem (findType?_withStandard hstring), ?_⟩
    rw [apply_of_scalar settled rfl]
  · intro t ht fields hfields f hf
    rw [htypes] at ht
    obtain ⟨u, hu, rfl⟩ := List.mem_map.mp ht
    obtain ⟨n, hn, hfind⟩ := List.mem_filterMap.mp hu
    rw [fields?_apply] at hfields
    have hreference := core_mem_typeReferences hfields hf
    have hmem : f.type.core ∈ names := by
      refine hclosed n hn _ ?_
      rw [references, hfind]
      exact hreference
    obtain ⟨v, hv⟩ := exists_findType?_of_references hfaults (List.mem_of_find?_eq_some hfind)
      hreference
    exact ⟨_, htype _ v hmem hv⟩

end Schema

end SharpClient

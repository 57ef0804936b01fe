import Mathlib.Data.List.Induction
import SharpClient.Proofs.Selection.Compilation
import SharpClient.Proofs.Selection.Expansion

/-!
# Fields merged by key

The compiler groups the fields of a selection set and then reads each group through one merged field,
of which arguments and directives do not matter. Here the fields are merged at once while the sequence
is walked (`mergeFields`), and members are compiled from the merged fields (`compileFields`). The
compiler does the same (`compileSelectionsWith_eq`), so what a change of the selections does to the
members is seen from what it does to one sequence of fields.
-/

namespace SharpClient

open Outcome

/-! ### Merging -/

/-- The field without its arguments and directives, which compilation does not read. -/
def Field.bare (f : Field) : Field :=
  { f with arguments := [], directives := [] }

/-- Adds the sub-selections of a field to the field of its key, or the field as a new last one. -/
def mergeField : List Field → Field → List Field
  | [], f => [f.bare]
  | m :: ms, f =>
    if m.key = f.key then { m with selections := m.selections ++ f.selections } :: ms
    else m :: mergeField ms f

/-- The fields of a sequence, merged by key. -/
def mergeFields (fs : List Field) : List Field :=
  fs.foldl mergeField []

theorem FieldGroup.bare_merged_add (g : FieldGroup) (f : Field) :
    (FieldGroup.merged { g with more := g.more ++ [f] }).bare =
      { g.merged.bare with selections := g.merged.bare.selections ++ f.selections } := by
  simp [merged, fields, Field.bare]

theorem map_bare_insertField (groups : List FieldGroup) (f : Field) :
    (insertField groups f).map (·.merged.bare) =
      mergeField (groups.map (·.merged.bare)) f := by
  induction groups with
  | nil => simp [insertField, mergeField, FieldGroup.merged, FieldGroup.fields, Field.bare]
  | cons g gs ih =>
    have hkey : g.merged.bare.key = g.key := rfl
    rw [insertField, List.map_cons, mergeField, hkey]
    by_cases h : g.key = f.key
    · rw [if_pos h, if_pos h, List.map_cons, g.bare_merged_add f]
    · rw [if_neg h, if_neg h, List.map_cons, ih]

/-- The fields that the groups of a sequence stand for are the sequence merged by key. -/
theorem map_bare_groupFields (fs : List Field) :
    (groupFields fs).map (·.merged.bare) = mergeFields fs := by
  suffices h : ∀ groups : List FieldGroup, (fs.foldl insertField groups).map (·.merged.bare) =
      fs.foldl mergeField (groups.map (·.merged.bare)) from h []
  induction fs with
  | nil => exact fun _ => rfl
  | cons f fs ih =>
    intro groups
    rw [List.foldl_cons, List.foldl_cons, ih, map_bare_insertField]

/-! ### What merged fields hold -/

/-- The sub-selections, in order, of all fields of a key. -/
def selectionsOf (fs : List Field) (k : Text) : List Selection :=
  (fs.filter (·.key = k)).flatMap (·.selections)

/-- The field with the sub-selections of further fields of its key. -/
def Field.extend (fs : List Field) (m : Field) : Field :=
  { m with selections := m.selections ++ selectionsOf fs m.key }

theorem selectionsOf_append (fs gs : List Field) (k : Text) :
    selectionsOf (fs ++ gs) k = selectionsOf fs k ++ selectionsOf gs k := by
  simp [selectionsOf]

theorem selectionsOf_singleton (f : Field) (k : Text) :
    selectionsOf [f] k = if f.key = k then f.selections else [] := by
  by_cases h : f.key = k <;> simp [selectionsOf, h]

theorem selectionsOf_eq_nil {fs : List Field} {k : Text} (h : k ∉ fs.map Field.key) :
    selectionsOf fs k = [] := by
  have hnone : fs.filter (·.key = k) = [] := by
    rw [List.filter_eq_nil_iff]
    intro f hf hkey
    exact h (List.mem_map.mpr ⟨f, hf, by simpa using hkey⟩)
  rw [selectionsOf, hnone, List.flatMap_nil]

theorem selectionsOf_subset {fs gs : List Field} (h : gs ⊆ fs) (k : Text) :
    selectionsOf gs k ⊆ selectionsOf fs k := by
  intro s hs
  simp only [selectionsOf, List.mem_flatMap, List.mem_filter] at hs ⊢
  obtain ⟨f, ⟨hf, hkey⟩, hs⟩ := hs
  exact ⟨f, ⟨h hf, hkey⟩, hs⟩

theorem Field.extend_nil (m : Field) : m.extend [] = m := by
  simp [extend, selectionsOf]

theorem Field.extend_extend (fs gs : List Field) (m : Field) :
    (m.extend fs).extend gs = m.extend (fs ++ gs) := by
  have hkey : (m.extend fs).key = m.key := rfl
  rw [extend, hkey, extend, extend, selectionsOf_append, List.append_assoc]

theorem mergeField_of_not_mem {ms : List Field} {f : Field} (h : f.key ∉ ms.map Field.key) :
    mergeField ms f = ms ++ [f.bare] := by
  induction ms with
  | nil => rfl
  | cons m ms ih =>
    rw [List.map_cons, List.mem_cons, not_or] at h
    rw [mergeField, if_neg (Ne.symm h.1), ih h.2, List.cons_append]

theorem mergeField_of_mem {ms : List Field} {f : Field} (hnodup : (ms.map Field.key).Nodup)
    (h : f.key ∈ ms.map Field.key) : mergeField ms f = ms.map (Field.extend [f]) := by
  have hother {m : Field} (hne : f.key ≠ m.key) : m.extend [f] = m := by
    rw [Field.extend, selectionsOf_singleton, if_neg hne, List.append_nil]
  induction ms with
  | nil => simp at h
  | cons m ms ih =>
    rw [List.map_cons, List.nodup_cons] at hnodup
    by_cases hkey : m.key = f.key
    · -- The other keys differ from the one of `m`, so their fields stay as they are.
      have hrest : ms.map (Field.extend [f]) = ms := by
        refine (List.map_congr_left fun m' hm' => hother fun hm => hnodup.1 ?_).trans (List.map_id ms)
        exact hkey ▸ hm ▸ List.mem_map_of_mem hm'
      rw [mergeField, if_pos hkey, List.map_cons, hrest, Field.extend, selectionsOf_singleton,
        if_pos hkey.symm]
    · have hmem : f.key ∈ ms.map Field.key := by simpa [Ne.symm hkey] using h
      rw [mergeField, if_neg hkey, List.map_cons, ih hnodup.2 hmem, hother (Ne.symm hkey)]

theorem map_key_extend (fs ms : List Field) :
    (ms.map (Field.extend fs)).map Field.key = ms.map Field.key := by
  rw [List.map_map]
  rfl

/-- Fields whose keys are all there extend the merged ones. -/
theorem foldl_mergeField {ms fs : List Field} (hnodup : (ms.map Field.key).Nodup)
    (h : ∀ f ∈ fs, f.key ∈ ms.map Field.key) :
    fs.foldl mergeField ms = ms.map (Field.extend fs) := by
  induction fs generalizing ms with
  | nil => exact ((List.map_congr_left fun m _ => m.extend_nil).trans (List.map_id ms)).symm
  | cons f fs ih =>
    rw [List.forall_mem_cons] at h
    rw [List.foldl_cons, mergeField_of_mem hnodup h.1, ih, List.map_map]
    · exact List.map_congr_left fun m _ => m.extend_extend [f] fs
    · rw [map_key_extend]
      exact hnodup
    · rw [map_key_extend]
      exact h.2

theorem mergeFields_concat (fs : List Field) (f : Field) :
    mergeFields (fs ++ [f]) = mergeField (mergeFields fs) f := by
  simp [mergeFields]

theorem nodup_keys_mergeFields (fs : List Field) : ((mergeFields fs).map Field.key).Nodup := by
  rw [← map_bare_groupFields, List.map_map]
  exact (wellGrouped_groupFields fs).nodup

theorem mem_keys_mergeFields {fs : List Field} {k : Text} :
    k ∈ (mergeFields fs).map Field.key ↔ k ∈ fs.map Field.key := by
  rw [← map_bare_groupFields, List.map_map]
  exact mem_keys_foldl.trans (by simp)

/-- A merged field has the sub-selections of all fields of its key. -/
theorem selections_of_mem_mergeFields {fs : List Field} {m : Field} (h : m ∈ mergeFields fs) :
    m.selections = selectionsOf fs m.key := by
  induction fs using List.reverseRecOn generalizing m with
  | nil => simp [mergeFields] at h
  | append_singleton fs f ih =>
    rw [mergeFields_concat] at h
    rw [selectionsOf_append]
    by_cases hkey : f.key ∈ (mergeFields fs).map Field.key
    · rw [mergeField_of_mem (nodup_keys_mergeFields fs) hkey] at h
      obtain ⟨m', hm', rfl⟩ := List.mem_map.mp h
      exact congrArg (· ++ selectionsOf [f] m'.key) (ih hm')
    · rw [mergeField_of_not_mem hkey, List.mem_append, List.mem_singleton] at h
      rcases h with h | rfl
      · have hne : f.key ≠ m.key := fun hm => hkey (hm ▸ List.mem_map_of_mem h)
        rw [ih h, selectionsOf_singleton, if_neg hne, List.append_nil]
      · have hbare : f.bare.key = f.key := rfl
        rw [mem_keys_mergeFields] at hkey
        rw [hbare, selectionsOf_eq_nil hkey, selectionsOf_singleton, if_pos rfl, List.nil_append]
        rfl

/-- Fields behind others of the same keys extend the merged fields. -/
theorem mergeFields_append {fs gs : List Field} (h : ∀ g ∈ gs, g.key ∈ fs.map Field.key) :
    mergeFields (fs ++ gs) = (mergeFields fs).map (Field.extend gs) := by
  rw [mergeFields, List.foldl_append]
  exact foldl_mergeField (nodup_keys_mergeFields fs) fun g hg => mem_keys_mergeFields.mpr (h g hg)

/-! ### Compiling merged fields -/

namespace SelectionContext

variable (c : SelectionContext)
  (nest : Text → List Selection → TypeDefinition → Except GenerationError ClassDecl)
  (parent : TypeDefinition)

/-- Compiles fields selected on `parent`, in order. -/
def compileFields : Scope → List Field → Except GenerationError (List Member)
  | _, [] => .ok []
  | scope, f :: fs => do
    let (compiled, scope) ← c.compileFieldWith nest parent scope f
    let rest ← compileFields scope fs
    return compiled.members ++ rest

theorem compileGroups_eq (scope : Scope) (groups : List FieldGroup) :
    c.compileGroups nest parent scope groups =
      c.compileFields nest parent scope (groups.map (·.merged.bare)) := by
  induction groups generalizing scope with
  | nil => rfl
  | cons g gs ih =>
    have hbare : c.compileFieldWith nest parent scope g.merged.bare =
        c.compileFieldWith nest parent scope g.merged := rfl
    rw [List.map_cons, compileGroups, compileFields, hbare]
    simp only [ih]

/-- Members are compiled from the fields that selections stand for, merged by key. -/
theorem compileSelectionsWith_eq (selections : List Selection) (scope : Scope) :
    c.compileSelectionsWith nest selections parent scope = (do
      let fs ← expand c.fragments parent.name [] selections
      c.compileFields nest parent scope (mergeFields fs)) := by
  rw [compileSelectionsWith, collectFields_eq]
  cases expand c.fragments parent.name [] selections with
  | error e => rfl
  | ok fs => rw [map_ok, ok_bind, ok_bind, compileGroups_eq, map_bare_groupFields]

end SelectionContext

end SharpClient

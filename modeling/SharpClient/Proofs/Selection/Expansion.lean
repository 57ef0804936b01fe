import Mathlib.Data.List.Basic
import SharpClient.Proofs.Outcome
import SharpClient.Selection.Collect

/-!
# Expansion of selections

`collectFields` groups fields while it expands spreads. Here the two are taken apart: `expand` is
the plain sequence of the fields that selections stand for, in the order in which they are met, and
`groupFields` forms the groups of a sequence. Collecting is expanding and then grouping
(`collectFields_eq`).

The sequence is easier to reason about than the groups, since it is the concatenation of what the
single selections give. It also needs no budget: a spread is expanded only when its fragment is not
on the path, so each expansion leaves fewer fragments to expand.
-/

namespace SharpClient

open Outcome

/-! ### Groups of a sequence -/

/-- The groups of a sequence of fields. -/
def groupFields (fs : List Field) : List FieldGroup :=
  fs.foldl insertField []

/-- All fields of groups, group by group. -/
def ungroup (groups : List FieldGroup) : List Field :=
  groups.flatMap (·.fields)

/-- Groups as collecting makes them: one for each key, and every field under its own key. -/
structure WellGrouped (groups : List FieldGroup) : Prop where
  nodup : (groups.map FieldGroup.key).Nodup
  key_eq : ∀ g ∈ groups, ∀ f ∈ g.fields, f.key = g.key

namespace WellGrouped

theorem nil : WellGrouped [] :=
  ⟨List.nodup_nil, by simp⟩

theorem tail {g : FieldGroup} {gs : List FieldGroup} (h : WellGrouped (g :: gs)) :
    WellGrouped gs :=
  ⟨(List.nodup_cons.mp h.nodup).2, fun g' hg' => h.key_eq g' (List.mem_cons_of_mem g hg')⟩

/-- No field behind the first group has that group's key. -/
theorem key_ne {g : FieldGroup} {gs : List FieldGroup} (h : WellGrouped (g :: gs)) {f : Field}
    (hf : f ∈ ungroup gs) : f.key ≠ g.key := by
  obtain ⟨g', hg', hfg'⟩ := List.mem_flatMap.mp hf
  rw [h.key_eq g' (List.mem_cons_of_mem g hg') f hfg']
  intro hkey
  exact (List.nodup_cons.mp h.nodup).1 (hkey ▸ List.mem_map_of_mem hg')

end WellGrouped

theorem keys_insertField (groups : List FieldGroup) (f : Field) :
    (insertField groups f).map FieldGroup.key =
      if f.key ∈ groups.map FieldGroup.key then groups.map FieldGroup.key
      else groups.map FieldGroup.key ++ [f.key] := by
  induction groups with
  | nil => rfl
  | cons g gs ih =>
    by_cases h : g.key = f.key
    · have hkey : FieldGroup.key { g with more := g.more ++ [f] } = g.key := rfl
      simp [insertField, h, hkey]
    · simp only [insertField, if_neg h, List.map_cons, ih, List.mem_cons, Ne.symm h, false_or]
      split <;> rfl

theorem mem_keys_foldl {groups : List FieldGroup} {fs : List Field} {k : Text} :
    k ∈ (fs.foldl insertField groups).map FieldGroup.key ↔
      k ∈ groups.map FieldGroup.key ∨ k ∈ fs.map Field.key := by
  induction fs generalizing groups with
  | nil => simp
  | cons f fs ih =>
    rw [List.foldl_cons, ih, keys_insertField, List.map_cons, List.mem_cons]
    split
    · grind
    · simp only [List.mem_append, List.mem_singleton, or_assoc]

/-- Where a field goes when it is inserted: behind all fields of its key, or to the end when there
are none. -/
theorem ungroup_insertField {groups : List FieldGroup} (hg : WellGrouped groups) (f : Field) :
    ∃ before after, ungroup groups = before ++ after ∧
      ungroup (insertField groups f) = before ++ f :: after ∧
      (after = [] ∨ f.key ∈ before.map Field.key) ∧ ∀ h ∈ after, h.key ≠ f.key := by
  induction groups with
  | nil => exact ⟨[], [], rfl, rfl, .inl rfl, by simp⟩
  | cons g gs ih =>
    by_cases hkey : g.key = f.key
    · refine ⟨g.fields, ungroup gs, rfl, ?_, .inr ?_, fun h hh => hkey ▸ hg.key_ne hh⟩
      · simp [insertField, hkey, ungroup, FieldGroup.fields]
      · exact List.mem_map.mpr ⟨g.first, List.mem_cons_self, hkey⟩
    · obtain ⟨before, after, hold, hnew, hplace, hafter⟩ := ih hg.tail
      refine ⟨g.fields ++ before, after, ?_, ?_, hplace.imp_right ?_, hafter⟩
      · simpa [ungroup] using hold
      · simpa [insertField, hkey, ungroup] using hnew
      · intro hmem
        rw [List.map_append]
        exact List.mem_append_right _ hmem

theorem mem_ungroup_insertField {groups : List FieldGroup} (hg : WellGrouped groups)
    {f h : Field} : h ∈ ungroup (insertField groups f) ↔ h ∈ ungroup groups ∨ h = f := by
  obtain ⟨before, after, hold, hnew, -, -⟩ := ungroup_insertField hg f
  rw [hold, hnew]
  simp only [List.mem_append, List.mem_cons]
  grind

theorem WellGrouped.insertField {groups : List FieldGroup} (hg : WellGrouped groups) (f : Field) :
    WellGrouped (insertField groups f) := by
  refine ⟨?_, ?_⟩
  · rw [keys_insertField]
    split
    · exact hg.nodup
    · rename_i hnew
      exact List.nodup_append.mpr ⟨hg.nodup, by simp, by grind⟩
  · induction groups with
    | nil => simp [SharpClient.insertField, FieldGroup.fields, FieldGroup.key]
    | cons g gs ih =>
      have hhead := hg.key_eq g List.mem_cons_self
      by_cases hkey : g.key = f.key
      · simp only [SharpClient.insertField, if_pos hkey]
        intro g' hg' f' hf'
        rcases List.mem_cons.mp hg' with rfl | hg'
        · have : f' ∈ g.fields ∨ f' = f := by
            simpa [FieldGroup.fields, or_assoc] using hf'
          rcases this with hf' | rfl
          · exact hhead f' hf'
          · exact hkey.symm
        · exact hg.tail.key_eq g' hg' f' hf'
      · simp only [SharpClient.insertField, if_neg hkey]
        intro g' hg'
        rcases List.mem_cons.mp hg' with rfl | hg'
        · exact hhead
        · exact ih hg.tail g' hg'

theorem WellGrouped.foldl {groups : List FieldGroup} (hg : WellGrouped groups)
    (fs : List Field) : WellGrouped (fs.foldl SharpClient.insertField groups) := by
  induction fs generalizing groups with
  | nil => exact hg
  | cons f fs ih => exact ih (hg.insertField f)

theorem wellGrouped_groupFields (fs : List Field) : WellGrouped (groupFields fs) :=
  WellGrouped.nil.foldl fs

/-- Inserting a field whose group exists does not disturb the insertion of another key. -/
theorem insertField_comm {groups : List FieldGroup} {f h : Field}
    (hf : f.key ∈ groups.map FieldGroup.key) (hne : h.key ≠ f.key) :
    insertField (insertField groups f) h = insertField (insertField groups h) f := by
  induction groups with
  | nil => simp at hf
  | cons g gs ih =>
    have hmore (e : Field) : FieldGroup.key { g with more := g.more ++ [e] } = g.key := rfl
    by_cases hgf : g.key = f.key
    · simp [insertField, hgf, hmore, hne.symm]
    · have hf' : f.key ∈ gs.map FieldGroup.key := by
        simpa [Ne.symm hgf] using hf
      by_cases hgh : g.key = h.key
      · simp [insertField, hgh, hmore, hne]
      · simp [insertField, hgf, hgh, ih hf']

theorem foldl_insertField_comm {groups : List FieldGroup} {f : Field} {fs : List Field}
    (hf : f.key ∈ groups.map FieldGroup.key) (hne : ∀ h ∈ fs, h.key ≠ f.key) :
    fs.foldl insertField (insertField groups f) = insertField (fs.foldl insertField groups) f := by
  induction fs generalizing groups with
  | nil => rfl
  | cons h fs ih =>
    rw [List.forall_mem_cons] at hne
    rw [List.foldl_cons, List.foldl_cons, insertField_comm hf hne.1]
    refine ih ?_ hne.2
    rw [keys_insertField]
    split
    · exact hf
    · exact List.mem_append_left _ hf

theorem mergeGroups_insertField (groups : List FieldGroup) {further : List FieldGroup}
    (hg : WellGrouped further) (f : Field) :
    mergeGroups groups (insertField further f) = insertField (mergeGroups groups further) f := by
  obtain ⟨before, after, hold, hnew, hplace, hafter⟩ := ungroup_insertField hg f
  have hmerge (gs : List FieldGroup) :
      mergeGroups groups gs = (ungroup gs).foldl insertField groups := rfl
  rw [hmerge, hmerge, hold, hnew, List.foldl_append, List.foldl_append, List.foldl_cons]
  rcases hplace with rfl | hmem
  · rfl
  · exact foldl_insertField_comm (mem_keys_foldl.mpr (.inr hmem)) hafter

/-- Grouping first does not matter to what a further sequence adds to groups. -/
theorem mergeGroups_groupFields (groups : List FieldGroup) (fs : List Field) :
    mergeGroups groups (groupFields fs) = fs.foldl insertField groups := by
  -- The further groups grow along the induction, from none.
  suffices h : ∀ further, WellGrouped further →
      mergeGroups groups (fs.foldl insertField further) =
        fs.foldl insertField (mergeGroups groups further) from h [] .nil
  induction fs with
  | nil => exact fun _ _ => rfl
  | cons f fs ih =>
    intro further hg
    rw [List.foldl_cons, ih _ (hg.insertField f), mergeGroups_insertField groups hg f]
    rfl

/-! ### The sequence of fields -/

/-- The fields that selections stand for inside the expansion of the fragments `path`, in order. -/
def expand (t : FragmentTable) (owner : Text) (path : List Text) (selections : List Selection) :
    Except GenerationError (List Field) :=
  match selections with
  | [] => .ok []
  | .field as name arguments directives sub :: rest =>
    (expand t owner path rest).map (⟨as, name, arguments, directives, sub⟩ :: ·)
  | .spread name _ :: rest =>
    match _hf : t.get? name with
    | none => .error (.fragmentNotFound name)
    | some f =>
      if _hn : name ∈ path then expand t owner path rest
      else do
        let spread ← expand t owner (name :: path) f.definition.selections
        let fields ← expand t owner path rest
        return spread ++ fields
  | .inline .. :: _ => .error (.unsupported owner .inlineFragment)
termination_by ((t.unseen path).length, selections.length)
decreasing_by
  · exact Prod.Lex.right _ (Nat.lt_succ_self _)
  · exact Prod.Lex.right _ (Nat.lt_succ_self _)
  · exact Prod.Lex.left _ _ (FragmentTable.length_unseen_lt _hf _hn)
  · exact Prod.Lex.right _ (Nat.lt_succ_self _)

section Expand

variable {t : FragmentTable} {owner : Text} {path : List Text}

@[simp] theorem expand_nil : expand t owner path [] = .ok [] := by
  rw [expand]

theorem expand_field (as : Option Text) (name : Text) (arguments : List Argument)
    (directives : List Directive) (sub rest : List Selection) :
    expand t owner path (.field as name arguments directives sub :: rest) =
      (expand t owner path rest).map (⟨as, name, arguments, directives, sub⟩ :: ·) := by
  rw [expand]

theorem expand_toSelection (f : Field) (rest : List Selection) :
    expand t owner path (f.toSelection :: rest) = (expand t owner path rest).map (f :: ·) :=
  expand_field _ _ _ _ _ _

theorem expand_spread_unknown {name : Text} (hf : t.get? name = none) (directives : List Directive)
    (rest : List Selection) :
    expand t owner path (.spread name directives :: rest) = .error (.fragmentNotFound name) := by
  rw [expand]
  split <;> simp_all

theorem expand_spread_cut {name : Text} {f : Fragment} (hf : t.get? name = some f)
    (hn : name ∈ path) (directives : List Directive) (rest : List Selection) :
    expand t owner path (.spread name directives :: rest) = expand t owner path rest := by
  rw [expand]
  split <;> simp_all

theorem expand_spread {name : Text} {f : Fragment} (hf : t.get? name = some f)
    (hn : name ∉ path) (directives : List Directive) (rest : List Selection) :
    expand t owner path (.spread name directives :: rest) = (do
      let spread ← expand t owner (name :: path) f.definition.selections
      let fields ← expand t owner path rest
      return spread ++ fields) := by
  rw [expand]
  split <;> simp_all

@[simp] theorem expand_inline (on : Option Text) (directives : List Directive)
    (sub rest : List Selection) :
    expand t owner path (.inline on directives sub :: rest) =
      .error (.unsupported owner .inlineFragment) := by
  rw [expand]

/-- Selections in a row stand for their fields in a row, up to the first error. -/
theorem expand_append (first second : List Selection) :
    expand t owner path (first ++ second) = (do
      let fs ← expand t owner path first
      let gs ← expand t owner path second
      return fs ++ gs) := by
  induction first with
  | nil => cases hsecond : expand t owner path second <;> simp [hsecond]
  | cons s rest ih =>
    cases s with
    | field as name arguments directives sub =>
      rw [List.cons_append, expand_field, expand_field, ih]
      cases expand t owner path rest with
      | error e => rfl
      | ok fs => cases expand t owner path second <;> rfl
    | spread name directives =>
      rw [List.cons_append]
      cases hf : t.get? name with
      | none => rw [expand_spread_unknown hf, expand_spread_unknown hf, error_bind]
      | some f =>
        by_cases hn : name ∈ path
        · rw [expand_spread_cut hf hn, expand_spread_cut hf hn, ih]
        · rw [expand_spread hf hn, expand_spread hf hn, ih]
          cases expand t owner (name :: path) f.definition.selections with
          | error e => rfl
          | ok spread =>
            cases expand t owner path rest with
            | error e => rfl
            | ok fs => cases expand t owner path second <;> simp
    | inline on directives sub => rw [List.cons_append, expand_inline, expand_inline, error_bind]

/-- The owner is read in an error only. -/
theorem expand_owner {selections : List Selection} {fs : List Field}
    (h : expand t owner path selections = .ok fs) (owner' : Text) :
    expand t owner' path selections = .ok fs := by
  fun_induction expand t owner path selections generalizing fs with
  | case1 path => rw [expand_nil, h]
  | case2 path as name arguments directives sub rest ih =>
    obtain ⟨gs, hrest, rfl⟩ := map_eq_ok.mp h
    rw [expand_field, ih hrest, map_ok]
  | case3 => cases h
  | case4 path name directives rest f hf hn ih => rw [expand_spread_cut hf hn, ih h]
  | case5 path name directives rest f hf hn ihspread ihrest =>
    obtain ⟨spread, hspread, h⟩ := bind_eq_ok.mp h
    obtain ⟨gs, hrest, h⟩ := bind_eq_ok.mp h
    rw [expand_spread hf hn, ihspread hspread, ok_bind, ihrest hrest, ok_bind, h]
  | case6 => cases h

/-- When selections have an expansion, each of them has one, and it is a part of theirs. -/
theorem exists_expand_of_mem {selections : List Selection} {fs : List Field}
    (h : expand t owner path selections = .ok fs) {s : Selection} (hs : s ∈ selections) :
    ∃ gs, expand t owner path [s] = .ok gs ∧ gs ⊆ fs := by
  obtain ⟨first, second, rfl⟩ := List.append_of_mem hs
  rw [← List.singleton_append, expand_append, expand_append] at h
  obtain ⟨as, -, h⟩ := bind_eq_ok.mp h
  obtain ⟨bs, hbs, h⟩ := bind_eq_ok.mp h
  obtain ⟨gs, hgs, hbs⟩ := bind_eq_ok.mp hbs
  obtain ⟨cs, -, hbs⟩ := bind_eq_ok.mp hbs
  cases hbs
  cases h
  refine ⟨gs, hgs, fun f hf => ?_⟩
  exact List.mem_append_right _ (List.mem_append_left _ hf)

theorem exists_expand_of_subset {selections repeated : List Selection} {fs : List Field}
    (h : expand t owner path selections = .ok fs) (hsub : repeated ⊆ selections) :
    ∃ gs, expand t owner path repeated = .ok gs ∧ gs ⊆ fs := by
  induction repeated with
  | nil => exact ⟨[], expand_nil, List.nil_subset fs⟩
  | cons s rest ih =>
    obtain ⟨gs, hgs, hgsub⟩ := exists_expand_of_mem h (hsub List.mem_cons_self)
    obtain ⟨rs, hrs, hrsub⟩ := ih fun s' hs' => hsub (List.mem_cons_of_mem s hs')
    refine ⟨gs ++ rs, ?_, List.append_subset.mpr ⟨hgsub, hrsub⟩⟩
    rw [← List.singleton_append, expand_append, hgs, hrs]
    rfl

/-- Adding selections to groups adds the fields of their expansion, when the groups of each spread
are those of its expansion. -/
theorem addSelections_eq {spreadGroups : Fragment → Except GenerationError (List FieldGroup)}
    (hspread : ∀ name f, t.get? name = some f → spreadGroups f =
      if name ∈ path then .ok []
      else (expand t owner (name :: path) f.definition.selections).map groupFields)
    (groups : List FieldGroup) (selections : List Selection) :
    addSelections t owner spreadGroups groups selections =
      (expand t owner path selections).map (·.foldl insertField groups) := by
  induction selections generalizing groups with
  | nil => simp [addSelections]
  | cons s rest ih =>
    cases s with
    | field as name arguments directives sub =>
      rw [addSelections, ih, expand_field]
      cases expand t owner path rest <;> rfl
    | spread name directives =>
      cases hf : t.get? name with
      | none => simp [addSelections, FragmentTable.get, hf, expand_spread_unknown]
      | some f =>
        have hget : t.get name = .ok f := by simp [FragmentTable.get, hf]
        rw [addSelections, hget, ok_bind, hspread name f hf]
        by_cases hn : name ∈ path
        · rw [if_pos hn, ok_bind, ih, expand_spread_cut hf hn]
          rfl
        · rw [if_neg hn, expand_spread hf hn]
          cases expand t owner (name :: path) f.definition.selections with
          | error e => rfl
          | ok spread =>
            rw [map_ok, ok_bind, ok_bind, ih, mergeGroups_groupFields]
            cases expand t owner path rest with
            | error e => rfl
            | ok fields => simp
    | inline on directives sub => simp [addSelections]

/-- A budget as large as the number of fragments that are not on the path does not cut anything. -/
theorem collectWithin_eq {budget : Nat} (hbudget : (t.unseen path).length ≤ budget)
    (selections : List Selection) :
    collectWithin t owner budget path selections =
      (expand t owner path selections).map groupFields := by
  induction budget generalizing path selections with
  | zero =>
    -- Every fragment is on the path, so the budget ends where the path cuts anyway.
    refine addSelections_eq (fun name f hf => ?_) [] selections
    have hn : name ∈ path := by
      by_contra hn
      exact absurd (FragmentTable.length_unseen_lt hf hn) (by omega)
    rw [if_pos hn]
  | succ budget ih =>
    refine addSelections_eq (fun name f hf => ?_) [] selections
    have hname : f.name = name := by simpa using List.find?_some hf
    rw [hname]
    by_cases hn : name ∈ path
    · rw [if_pos hn, if_pos hn]
    · rw [if_neg hn, if_neg hn]
      have hlt := FragmentTable.length_unseen_lt hf hn
      exact ih (by omega) _

/-- Collecting fields is expanding selections and then grouping. -/
theorem collectFields_eq (t : FragmentTable) (owner : Text) (selections : List Selection) :
    collectFields t owner selections = (expand t owner [] selections).map groupFields :=
  collectWithin_eq (by simp [FragmentTable.unseen]) selections

end Expand

end SharpClient

import Mathlib.Data.Set.Basic
import SharpClient.Proofs.Selection.Visited

/-!
# Fields that selections hold

Which fields selections stand for, said without an algorithm: a field stands among them, or in a
fragment that is spread among them, and so on (`Holds`). When `collectFields` succeeds, it collects
these fields and no others, in whatever circles the spreads run (`mem_ungroup_collectFields`).
-/

namespace SharpClient

open Outcome

/-- The field stands among selections, or among those of a fragment they spread, and so on. -/
inductive Holds (t : FragmentTable) : Set Selection → Field → Prop
  | field {S : Set Selection} {f : Field} (h : f.toSelection ∈ S) : Holds t S f
  | spread {S : Set Selection} {name : Text} {directives : List Directive} {fragment : Fragment}
      {f : Field} (h : .spread name directives ∈ S) (hget : t.get? name = some fragment)
      (hf : Holds t {s | s ∈ fragment.definition.selections} f) : Holds t S f

section Collected

variable {t : FragmentTable} {owner : Text} {selections : List Selection} {f : Field}

theorem Holds.mono {S S' : Set Selection} (h : Holds t S f) (hS : S ⊆ S') : Holds t S' f := by
  cases h with
  | field h => exact .field (hS h)
  | spread h hget hf => exact .spread (hS h) hget hf

/-- Every field of an expansion is held. -/
theorem holds_of_mem_expand {path : List Text} {fs : List Field}
    (h : expand t owner path selections = .ok fs) (hf : f ∈ fs) :
    Holds t {s | s ∈ selections} f := by
  have htail {s : Selection} {rest : List Selection} (h : Holds t {s | s ∈ rest} f) :
      Holds t {s' | s' ∈ s :: rest} f :=
    h.mono fun _ => List.mem_cons_of_mem s
  fun_induction expand t owner path selections generalizing fs with
  | case1 path => cases h; simp at hf
  | case2 path as name arguments directives sub rest ih =>
    obtain ⟨fs', hrest, rfl⟩ := map_eq_ok.mp h
    rcases List.mem_cons.mp hf with rfl | hf
    · exact .field List.mem_cons_self
    · exact htail (ih hrest hf)
  | case3 => cases h
  | case4 path name directives rest fragment hget hn ih => exact htail (ih h hf)
  | case5 path name directives rest fragment hget hn ih₁ ih₂ =>
    obtain ⟨spread, hspread, h⟩ := bind_eq_ok.mp h
    obtain ⟨fs', hrest, h⟩ := bind_eq_ok.mp h
    cases h
    rcases List.mem_append.mp hf with hf | hf
    · exact .spread List.mem_cons_self hget (ih₁ hspread hf)
    · exact htail (ih₂ hrest hf)
  | case6 => cases h

/-- When nothing is left to do for selections, every field they hold is collected. -/
theorem Holds.mem_of_isMet {S : Set Selection} {visited : List Text} {fields : List Field}
    (h : Holds t S f) (hfin : Finished t visited [] fields)
    (hmet : ∀ s ∈ S, s.IsMet t visited fields) : f ∈ fields := by
  induction h with
  | field h => exact hmet _ h
  | @spread S name directives fragment f h hget hf ih =>
    have hvisited : name ∈ visited := (hmet _ h).1
    exact ih (hfin name hvisited List.not_mem_nil fragment hget)

theorem Padded.subset {seen fs gs : List Field} (h : Padded seen fs gs) : gs ⊆ fs := by
  induction h with
  | nil => exact List.Subset.refl _
  | keep h ih => exact List.cons_subset_cons _ ih
  | skip hf h ih => exact List.subset_cons_of_subset _ ih

/-- An expansion holds every field that its selections hold, although it is cut in places. -/
theorem mem_expand_of_holds {fs : List Field} (h : expand t owner [] selections = .ok fs)
    (hf : Holds t {s | s ∈ selections} f) : f ∈ fs := by
  -- Where the expansion is cut shows only in a run that keeps the visited fragments.
  have hfollows : Follows t owner [] [] [] selections
      ((collectVisiting t owner [] [] selections).map (·.1)) :=
    follows_collectVisiting (List.Subset.refl []) (by simp [Finished])
  cases hrun : (collectVisiting t owner [] [] selections).map (·.1) with
  | error e =>
    rw [hrun, Follows, h] at hfollows
    cases hfollows
  | ok r =>
    rw [hrun] at hfollows
    obtain ⟨fs', gs, hexpand, -, hpad, hmet, hfin⟩ := hfollows
    rw [h] at hexpand
    cases hexpand
    exact hpad.subset (hf.mem_of_isMet hfin hmet)

theorem mem_ungroup_foldl {groups : List FieldGroup} (hg : WellGrouped groups) {fs : List Field} :
    f ∈ ungroup (fs.foldl insertField groups) ↔ f ∈ ungroup groups ∨ f ∈ fs := by
  induction fs generalizing groups with
  | nil => simp
  | cons f' fs ih =>
    rw [List.foldl_cons, ih (hg.insertField f'), mem_ungroup_insertField hg, List.mem_cons, or_assoc]

/-- Collecting selections gives exactly the fields that they hold. -/
theorem mem_ungroup_collectFields {groups : List FieldGroup}
    (h : collectFields t owner selections = .ok groups) :
    f ∈ ungroup groups ↔ Holds t {s | s ∈ selections} f := by
  rw [collectFields_eq] at h
  obtain ⟨fs, hexpand, rfl⟩ := map_eq_ok.mp h
  rw [groupFields, mem_ungroup_foldl .nil]
  simp only [ungroup, List.flatMap_nil, List.not_mem_nil, false_or]
  exact ⟨holds_of_mem_expand hexpand, mem_expand_of_holds hexpand⟩

theorem wellGrouped_of_collectFields {groups : List FieldGroup}
    (h : collectFields t owner selections = .ok groups) : WellGrouped groups := by
  rw [collectFields_eq] at h
  obtain ⟨fs, -, rfl⟩ := map_eq_ok.mp h
  exact wellGrouped_groupFields fs

end Collected

end SharpClient

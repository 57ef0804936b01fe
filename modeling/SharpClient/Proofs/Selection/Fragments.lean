import Mathlib.Data.List.Basic
import Mathlib.Data.List.Induction
import SharpClient.Proofs.Outcome
import SharpClient.Selection.Fragments

/-!
# The table of fragments

What the names of the table and of the fragments that selections need have to do with its entries.
-/

namespace SharpClient

theorem mem_spreadsInAll {selections : List Selection} {name : Text} :
    name ∈ spreadsInAll selections ↔ ∃ s ∈ selections, name ∈ spreadsIn s := by
  induction selections with
  | nil => simp [spreadsInAll]
  | cons s ss ih => simp [spreadsInAll, ih]

theorem mem_firstOccurrences {names : List Text} {name : Text} :
    name ∈ firstOccurrences names ↔ name ∈ names := by
  have hfold : ∀ (names found : List Text), name ∈ names.foldl
      (fun found name => if name ∈ found then found else found ++ [name]) found ↔
        name ∈ found ∨ name ∈ names := by
    intro names
    induction names with
    | nil => simp
    | cons n ns ih =>
      intro found
      rw [List.foldl_cons, ih, List.mem_cons, ← or_assoc]
      refine or_congr_left ?_
      split
      · rename_i hn
        exact ⟨.inl, fun h => h.elim id fun h => h ▸ hn⟩
      · rw [List.mem_append, List.mem_singleton]
  exact (hfold names []).trans (by simp)

theorem firstOccurrences_concat (names : List Text) (name : Text) :
    firstOccurrences (names ++ [name]) =
      if name ∈ names then firstOccurrences names else firstOccurrences names ++ [name] := by
  rw [firstOccurrences, List.foldl_concat]
  change (if name ∈ firstOccurrences names then _ else _) = _
  simp only [mem_firstOccurrences]
  rfl

/-- The names stand in the order of their first places. -/
theorem pairwise_firstOccurrences (names : List Text) :
    (firstOccurrences names).Pairwise fun a b => names.idxOf a < names.idxOf b := by
  induction names using List.reverseRecOn with
  | nil => exact .nil
  | append_singleton names name ih =>
    -- The places of the names so far do not change when one more name is put behind them.
    have hplace {a : Text} (ha : a ∈ firstOccurrences names) :
        (names ++ [name]).idxOf a = names.idxOf a :=
      List.idxOf_append_of_mem (mem_firstOccurrences.mp ha)
    have hold : (firstOccurrences names).Pairwise fun a b =>
        (names ++ [name]).idxOf a < (names ++ [name]).idxOf b := by
      refine ih.imp_of_mem fun ha hb hlt => ?_
      rwa [hplace ha, hplace hb]
    rw [firstOccurrences_concat]
    split
    · exact hold
    · rename_i hnew
      refine List.pairwise_append.mpr ⟨hold, List.pairwise_singleton _ _, ?_⟩
      intro a ha b hb
      rw [List.mem_singleton.mp hb, hplace ha, List.idxOf_append_of_notMem hnew]
      exact Nat.lt_add_right _ (List.idxOf_lt_length_of_mem (mem_firstOccurrences.mp ha))

theorem nodup_firstOccurrences (names : List Text) : (firstOccurrences names).Nodup :=
  (pairwise_firstOccurrences names).imp fun hlt heq => absurd (heq ▸ hlt) (Nat.lt_irrefl _)

namespace FragmentTable

variable {t : FragmentTable} {name : Text}

theorem get_eq_ok {f : Fragment} : t.get name = .ok f ↔ t.get? name = some f := by
  rw [get]
  cases t.get? name <;> simp

/-- A name of the table has a fragment. -/
theorem exists_get_of_mem_names (h : name ∈ t.names) :
    ∃ f, t.get name = .ok f := by
  obtain ⟨f, hf, hname⟩ := List.mem_map.1 (mem_firstOccurrences.1 h)
  cases hget : t.get? name with
  | some g => exact ⟨g, get_eq_ok.2 hget⟩
  | none =>
    have hnone := List.find?_eq_none.1 hget f hf
    exact absurd hname (by simpa using hnone)

theorem mem_names : name ∈ t.names ↔ (t.get? name).isSome := by
  rw [names, mem_firstOccurrences, get?, List.find?_isSome, List.mem_map]
  simp

/-- The fragment that a name finds is one of those that count. -/
theorem mem_effective {f : Fragment} (h : t.get? name = some f) : f ∈ t.effective := by
  have hmem : f ∈ t.fragments := List.mem_of_find?_eq_some h
  have hname : f.name = name := by simpa using List.find?_some h
  rw [effective, List.mem_filterMap]
  exact ⟨name, mem_firstOccurrences.2 (hname ▸ List.mem_map_of_mem hmem), h⟩

/-- The fragments that selections need are in the table. -/
theorem mem_names_of_mem_dependencies {selections : List Selection}
    {names : List Text} (h : t.dependencies selections = .ok names) :
    ∀ name ∈ names, name ∈ t.names := by
  obtain ⟨seen, -, rfl⟩ := Outcome.map_eq_ok.1 h
  intro name hname
  exact (List.mem_filter.1 hname).1

end FragmentTable

end SharpClient

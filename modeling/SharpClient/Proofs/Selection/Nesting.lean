import Mathlib.Data.List.Nodup
import Mathlib.Logic.Relation
import SharpClient.Proofs.Selection.Fragments
import SharpClient.Proofs.Selection.Held

/-!
# How deep fields nest

Fields stand below fields, in the text of a selection or through spreads that lead to other
fragments. Spreads may run in circles. A circle at the top of fragments does no harm, since expansion
cuts it, but a circle that passes below a field brings the same field again one level further down,
and again without end.

`NoCircleBelowField` excludes just these. Circles at the top stay in the table, and the selections
below a key are put together from many places, so going down never works on a part of what was there
before. What does get used up are the fields: a field below a field below a field, and so on, never
comes back to one that it has passed (`not_transGen_below`), and there are only as many as the
documents have. So their number bounds how deep fields nest (`nestsWithin_fieldCount`).
-/

namespace SharpClient

/-! ### Fields at any depth -/

mutual

/-- The fields of a selection, at any depth. -/
def fieldsIn : Selection → List Field
  | .field as name arguments directives selections =>
    ⟨as, name, arguments, directives, selections⟩ :: fieldsInAll selections
  | .spread .. => []
  | .inline _ _ selections => fieldsInAll selections

/-- The fields of selections, at any depth. -/
def fieldsInAll : List Selection → List Field
  | [] => []
  | s :: ss => fieldsIn s ++ fieldsInAll ss

end

theorem mem_fieldsInAll {selections : List Selection} {f : Field} :
    f ∈ fieldsInAll selections ↔ ∃ s ∈ selections, f ∈ fieldsIn s := by
  induction selections with
  | nil => simp [fieldsInAll]
  | cons s ss ih => simp [fieldsInAll, ih]

mutual

theorem length_fieldsIn : ∀ s : Selection, (fieldsIn s).length = s.fieldCount
  | .field _ _ _ _ selections => by
    rw [fieldsIn, List.length_cons, length_fieldsInAll selections, Selection.fieldCount]
  | .spread .. => rfl
  | .inline _ _ selections => by
    rw [fieldsIn, length_fieldsInAll selections, Selection.fieldCount]

theorem length_fieldsInAll : ∀ ss : List Selection, (fieldsInAll ss).length = fieldCountAll ss
  | [] => rfl
  | s :: ss => by
    rw [fieldsInAll, List.length_append, length_fieldsIn s, length_fieldsInAll ss, fieldCountAll]

end

mutual

/-- A field stands together with everything below it. -/
theorem sublist_fieldsIn {f : Field} :
    ∀ {s : Selection}, f ∈ fieldsIn s → (f :: fieldsInAll f.selections).Sublist (fieldsIn s)
  | .field as name arguments directives selections, h => by
    rw [fieldsIn] at h ⊢
    rcases List.mem_cons.mp h with rfl | h
    · exact List.Sublist.refl _
    · exact (sublist_fieldsInAll h).cons _
  | .inline _ _ selections, h => by
    rw [fieldsIn] at h ⊢
    exact sublist_fieldsInAll h

theorem sublist_fieldsInAll {f : Field} : ∀ {ss : List Selection}, f ∈ fieldsInAll ss →
    (f :: fieldsInAll f.selections).Sublist (fieldsInAll ss)
  | s :: ss, h => by
    rw [fieldsInAll] at h ⊢
    rcases List.mem_append.mp h with h | h
    · exact (sublist_fieldsIn h).trans (List.sublist_append_left _ _)
    · exact (sublist_fieldsInAll h).trans (List.sublist_append_right _ _)

end

/-- No field stands below itself. -/
theorem not_mem_fieldsInAll_selections (f : Field) : f ∉ fieldsInAll f.selections := by
  intro h
  have hlength := (sublist_fieldsInAll h).length_le
  rw [List.length_cons] at hlength
  omega

mutual

theorem spreadsIn_of_mem_fieldsIn {f : Field} {name : Text}
    (hname : name ∈ spreadsInAll f.selections) :
    ∀ {s : Selection}, f ∈ fieldsIn s → name ∈ spreadsIn s
  | .field as _ arguments directives selections, h => by
    rw [fieldsIn] at h
    rw [spreadsIn]
    rcases List.mem_cons.mp h with rfl | h
    · exact hname
    · exact spreadsInAll_of_mem_fieldsInAll hname h
  | .inline _ _ selections, h => by
    rw [fieldsIn] at h
    rw [spreadsIn]
    exact spreadsInAll_of_mem_fieldsInAll hname h

/-- What is spread below a field is spread in the selections that the field stands in. -/
theorem spreadsInAll_of_mem_fieldsInAll {f : Field} {name : Text}
    (hname : name ∈ spreadsInAll f.selections) :
    ∀ {ss : List Selection}, f ∈ fieldsInAll ss → name ∈ spreadsInAll ss
  | s :: ss, h => by
    rw [fieldsInAll] at h
    rw [spreadsInAll]
    rcases List.mem_append.mp h with h | h
    · exact List.mem_append_left _ (spreadsIn_of_mem_fieldsIn hname h)
    · exact List.mem_append_right _ (spreadsInAll_of_mem_fieldsInAll hname h)

end

/-! ### Circles of spreads -/

namespace FragmentTable

variable {t : FragmentTable}

/-- The body of the first fragment spreads the second one, at some depth. -/
def Spreads (t : FragmentTable) (a b : Text) : Prop :=
  ∃ f, t.get? a = some f ∧ b ∈ spreadsInAll f.definition.selections

/-- The field stands in the body of the fragment, at some depth. -/
def HasField (t : FragmentTable) (a : Text) (g : Field) : Prop :=
  ∃ f, t.get? a = some f ∧ g ∈ fieldsInAll f.definition.selections

/-- The body of the first fragment spreads the second one below a field. -/
def SpreadsBelowField (t : FragmentTable) (a b : Text) : Prop :=
  ∃ g, t.HasField a g ∧ b ∈ spreadsInAll g.selections

/-- No circle of spreads passes through a spread that stands below a field. Spreads at the top of
fragments may lead back to where they stand. -/
def NoCircleBelowField (t : FragmentTable) : Prop :=
  ∀ a b, t.SpreadsBelowField a b → ¬Relation.ReflTransGen t.Spreads b a

theorem HasField.spreads {a b : Text} {g : Field} (h : t.HasField a g)
    (hb : b ∈ spreadsInAll g.selections) : t.Spreads a b := by
  obtain ⟨f, hget, hg⟩ := h
  exact ⟨f, hget, spreadsInAll_of_mem_fieldsInAll hb hg⟩

theorem HasField.below {a : Text} {g h : Field} (hg : t.HasField a g)
    (hh : h ∈ fieldsInAll g.selections) : t.HasField a h := by
  obtain ⟨f, hget, hg⟩ := hg
  exact ⟨f, hget, (sublist_fieldsInAll hg).subset (List.mem_cons_of_mem _ hh)⟩

/-- The sub-selections of the first field stand for the second one. -/
def Below (t : FragmentTable) (f g : Field) : Prop :=
  Holds t {s | s ∈ f.selections} g

/-- A spread in the selections, at some depth, leads to a fragment that has the field. -/
def LeadsTo (t : FragmentTable) (selections : List Selection) (g : Field) : Prop :=
  ∃ name a, name ∈ spreadsInAll selections ∧ Relation.ReflTransGen t.Spreads name a ∧ t.HasField a g

/-- A field that selections hold is written there, or in a fragment that a spread there leads to. -/
theorem written_or_leadsTo {S : Set Selection} {selections : List Selection} {g : Field}
    (h : Holds t S g) (hS : ∀ s ∈ S, s ∈ selections) :
    g ∈ fieldsInAll selections ∨ t.LeadsTo selections g := by
  induction h generalizing selections with
  | field h => exact .inl (mem_fieldsInAll.mpr ⟨_, hS _ h, List.mem_cons_self⟩)
  | @spread S name directives fragment g h hget hg ih =>
    have hspread : name ∈ spreadsInAll selections :=
      mem_spreadsInAll.mpr ⟨_, hS _ h, List.mem_cons_self⟩
    rcases @ih fragment.definition.selections fun _ hs => hs with
      hwritten | ⟨next, a, hnext, hto, ha⟩
    · exact .inr ⟨name, name, hspread, .refl, fragment, hget, hwritten⟩
    · have hstep : t.Spreads name next := ⟨fragment, hget, hnext⟩
      exact .inr ⟨name, a, hspread, .head hstep hto, ha⟩

/-- The same for a field any number of levels below another. -/
theorem written_or_leadsTo_of_transGen {f g : Field} (h : Relation.TransGen t.Below f g) :
    g ∈ fieldsInAll f.selections ∨ t.LeadsTo f.selections g := by
  induction h with
  | single h => exact written_or_leadsTo h fun _ hs => hs
  | @tail g h _ hbelow ih =>
    rcases written_or_leadsTo hbelow fun _ hs => hs with hh | ⟨next, b, hnext, hto', hb⟩
    · refine ih.imp (fun hg => ?_) fun ⟨name, a, hname, hto, ha⟩ => ?_
      · exact (sublist_fieldsInAll hg).subset (List.mem_cons_of_mem _ hh)
      · exact ⟨name, a, hname, hto, ha.below hh⟩
    · rcases ih with hg | ⟨name, a, hname, hto, ha⟩
      · exact .inr ⟨next, b, spreadsInAll_of_mem_fieldsInAll hnext hg, hto', hb⟩
      · -- The fragment that has `g` spreads whatever is spread below `g`.
        have hway := (hto.tail (ha.spreads hnext)).trans hto'
        exact .inr ⟨name, b, hname, hway, hb⟩

/-- Going down from field to field never comes back. -/
theorem not_transGen_below (hcircle : t.NoCircleBelowField) (f : Field) :
    ¬Relation.TransGen t.Below f f := by
  intro h
  rcases written_or_leadsTo_of_transGen h with hwritten | ⟨name, a, hname, hto, ha⟩
  · exact not_mem_fieldsInAll_selections f hwritten
  · exact hcircle a name ⟨f, ha, hname⟩ hto

end FragmentTable

/-! ### Depth -/

/-- Going down from field to field ends after at most `n` fields, counting one more for the
selections themselves. -/
def NestsWithin (t : FragmentTable) : Nat → Set Selection → Prop
  | 0, _ => False
  | n + 1, S => ∀ f, Holds t S f → NestsWithin t n {s | s ∈ f.selections}

section Depth

variable {t : FragmentTable}

/-- What selections hold is among the fields of the selections and of the table, with all that
stands below it. -/
theorem Holds.subset_fields {U : List Field} {S : Set Selection} {f : Field} (h : Holds t S f)
    (hS : ∀ s ∈ S, fieldsIn s ⊆ U)
    (ht : ∀ name fragment, t.get? name = some fragment →
      fieldsInAll fragment.definition.selections ⊆ U) :
    f :: fieldsInAll f.selections ⊆ U := by
  induction h with
  | field h => exact hS _ h
  | @spread S name directives fragment f h hget hf ih =>
    refine ih fun s hs g hg => ht name fragment hget ?_
    exact mem_fieldsInAll.mpr ⟨s, hs, hg⟩

section Bound

variable (hcircle : t.NoCircleBelowField) {U : List Field}
  (ht : ∀ name fragment, t.get? name = some fragment →
    fieldsInAll fragment.definition.selections ⊆ U)

include hcircle ht

/-- The way down to selections passes different fields, so there are at most as many levels below
them as there are other fields. -/
theorem nestsWithin_of_path {n : Nat} {S : Set Selection} (path : List Field)
    (hS : ∀ s ∈ S, fieldsIn s ⊆ U) (hnodup : path.Nodup) (hpath : path ⊆ U)
    (habove : ∀ f ∈ path, ∀ g, Holds t S g → Relation.TransGen t.Below f g)
    (hn : n + path.length = U.length + 1) : NestsWithin t n S := by
  -- On the levels left: going down takes one of them and puts a field on the path.
  induction n generalizing path S with
  | zero =>
    have hlength := hnodup.length_le_of_subset hpath
    omega
  | succ n ih =>
    intro f hf
    have hfields : f :: fieldsInAll f.selections ⊆ U := hf.subset_fields hS ht
    have hnew : f ∉ path := fun hmem =>
      FragmentTable.not_transGen_below hcircle f (habove f hmem f hf)
    refine ih (f :: path) ?_ (List.nodup_cons.mpr ⟨hnew, hnodup⟩) ?_ ?_ ?_
    · intro s hs g hg
      exact hfields (List.mem_cons_of_mem _ (mem_fieldsInAll.mpr ⟨s, hs, hg⟩))
    · exact List.cons_subset.mpr ⟨hfields List.mem_cons_self, hpath⟩
    · intro f' hf' g hg
      rcases List.mem_cons.mp hf' with rfl | hf'
      · exact .single hg
      · exact (habove f' hf' f hf).tail hg
    · rw [List.length_cons]
      omega

theorem nestsWithin_length {selections : List Selection} (hU : fieldsInAll selections ⊆ U) :
    NestsWithin t (U.length + 1) {s | s ∈ selections} := by
  refine nestsWithin_of_path hcircle ht [] (fun s hs g hg => hU ?_) List.nodup_nil
    (List.nil_subset U) (fun f hf => absurd hf List.not_mem_nil) rfl
  exact mem_fieldsInAll.mpr ⟨s, hs, hg⟩

end Bound

/-- The fields of all fragments, at any depth. -/
def FragmentTable.fields (t : FragmentTable) : List Field :=
  t.fragments.flatMap fun f => fieldsInAll f.definition.selections

theorem FragmentTable.length_fields (t : FragmentTable) : t.fields.length = t.fieldCount := by
  rw [fields, fieldCount, ← List.sum_eq_foldl, List.length_flatMap]
  simp only [length_fieldsInAll]

theorem FragmentTable.subset_fields {f : Fragment} (h : f ∈ t.fragments) :
    fieldsInAll f.definition.selections ⊆ t.fields :=
  fun _ hg => List.mem_flatMap.mpr ⟨f, h, hg⟩

/-- The number of fields bounds the number of levels. -/
theorem nestsWithin_fieldCount (hcircle : t.NoCircleBelowField) (selections : List Selection) :
    NestsWithin t (fieldCountAll selections + t.fieldCount + 1) {s | s ∈ selections} := by
  rw [← length_fieldsInAll, ← t.length_fields, ← List.length_append]
  refine nestsWithin_length hcircle (fun name f hget => ?_) (List.subset_append_left _ _)
  exact List.Subset.trans (t.subset_fields (List.mem_of_find?_eq_some hget))
    (List.subset_append_right _ _)

theorem nestsWithin_fragment (hcircle : t.NoCircleBelowField) {f : Fragment}
    (hf : f ∈ t.fragments) :
    NestsWithin t (t.fieldCount + 1) {s | s ∈ f.definition.selections} := by
  rw [← t.length_fields]
  refine nestsWithin_length hcircle (fun name f hget => ?_) (t.subset_fields hf)
  exact t.subset_fields (List.mem_of_find?_eq_some hget)

/-- Selections put together from those of several fields nest no deeper than each of them. -/
theorem nestsWithin_merged {n : Nat} {g : FieldGroup}
    (h : ∀ f ∈ g.fields, NestsWithin t n {s | s ∈ f.selections}) :
    NestsWithin t n {s | s ∈ g.merged.selections} := by
  have hmem {s : Selection} (hs : s ∈ g.merged.selections) : ∃ f ∈ g.fields, s ∈ f.selections :=
    List.mem_flatMap.mp hs
  cases n with
  | zero => exact h g.first List.mem_cons_self
  | succ n =>
    intro f' hf'
    cases hf' with
    | field hs =>
      obtain ⟨f, hf, hs⟩ := hmem hs
      exact h f hf f' (.field hs)
    | spread hs hget hf' =>
      obtain ⟨f, hf, hs⟩ := hmem hs
      exact h f hf f' (.spread hs hget hf')

theorem nestsWithin_of_collectFields {n : Nat} {owner : Text} {selections : List Selection}
    {groups : List FieldGroup} {g : FieldGroup} (h : NestsWithin t (n + 1) {s | s ∈ selections})
    (hgroups : collectFields t owner selections = .ok groups) (hg : g ∈ groups) :
    NestsWithin t n {s | s ∈ g.merged.selections} := by
  refine nestsWithin_merged fun f hf => h f ?_
  exact (mem_ungroup_collectFields hgroups).mp (List.mem_flatMap.mpr ⟨g, hg, hf⟩)

end Depth

end SharpClient

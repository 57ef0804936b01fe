import Mathlib.Data.List.Nodup
import SharpClient.Config.Validation
import SharpClient.Proofs.Text.Entries

/-!
# Written options

Given options are written out as entries under their names with underscores. `Written` says of entries
that they hold the values of some options and nothing else.

* What is written out holds the given options (`written_entries`), and setting one of them changes
  its own value only (`Written.insert`).
* Entries that hold options are read without an extra key, each option from its own entry
  (`find?_of_written`, `extraIssues_of_written`).

Both rest on one condition: no option is taken for another one by its name (`Apart`).
-/

namespace SharpClient

/-! ### Values of keys -/

namespace Json

theorem lookup_append (es fs : List (Text × Json)) (key : Text) :
    lookup (es ++ fs) key = (lookup fs key).or (lookup es key) := by
  rw [lookup, List.reverse_append, List.lookup_append]
  rfl

theorem lookup_singleton (key k : Text) (value : Json) :
    lookup [(key, value)] k = if k = key then some value else none := by
  by_cases hk : k = key
  · simp [lookup, hk]
  · have hne : (k == key) = false := beq_eq_false_iff_ne.mpr hk
    simp [lookup, List.lookup_cons, hne, hk]

theorem isSome_lookup_iff {entries : List (Text × Json)} {key : Text} :
    (lookup entries key).isSome ↔ key ∈ entries.map Prod.fst := by
  rw [lookup, List.lookup_isSome_iff]
  simp only [List.mem_reverse, List.mem_map, beq_iff_eq]
  exact exists_congr fun e => and_congr_right fun _ => eq_comm

theorem lookup_eq_none {entries : List (Text × Json)} {key : Text}
    (h : key ∉ entries.map Prod.fst) : lookup entries key = none := by
  rwa [← Option.not_isSome_iff_eq_none, isSome_lookup_iff]

/-- Setting a value changes what is found under its own key only. -/
theorem lookup_insert (entries : List (Text × Json)) (key : Text) (value : Json) (k : Text) :
    lookup (insert entries key value) k = if k = key then some value else lookup entries k := by
  rw [insert, Entries.any_eq_isSome_lookup]
  split
  case isTrue hsome =>
    have hlast : (lookup entries key).isSome := by
      rw [isSome_lookup_iff, List.mem_map]
      obtain ⟨e, he, hkey⟩ := List.lookup_isSome_iff.mp hsome
      exact ⟨e, he, (beq_iff_eq.mp hkey).symm⟩
    rw [lookup, ← List.map_reverse, Entries.lookup_map_replace, ← lookup]
    by_cases hk : k = key
    · obtain ⟨old, hold⟩ := Option.isSome_iff_exists.mp hlast
      rw [if_pos hk, if_pos hk, hk, hold, Option.map_some]
    · rw [if_neg hk, if_neg hk]
  case isFalse =>
    rw [lookup_append, lookup_singleton]
    split <;> rfl

theorem mem_names_insert {entries : List (Text × Json)} {key name : Text} {value : Json}
    (h : name ∈ (insert entries key value).map Prod.fst) :
    name = key ∨ name ∈ entries.map Prod.fst := by
  rw [← isSome_lookup_iff, lookup_insert] at h
  by_cases hname : name = key
  · exact .inl hname
  · rw [if_neg hname, isSome_lookup_iff] at h
    exact .inr h

end Json

/-! ### Written options -/

/-- Options with their values as written; an option without a value is not given. -/
abbrev OptionRows := List (OptionKey × Option Json)

namespace OptionRows

/-- The entries for the given options, under their names with underscores. -/
def entries (rows : OptionRows) : List (Text × Json) :=
  rows.flatMap fun row => (row.2.map (row.1.snake, ·)).toList

/-- The rows with another value for an option. -/
def set (rows : OptionRows) (key : OptionKey) (value : Json) : OptionRows :=
  rows.map fun row => if row.1 = key then (key, some value) else row

theorem keys_set (rows : OptionRows) (key : OptionKey) (value : Json) :
    (rows.set key value).map Prod.fst = rows.map Prod.fst := by
  rw [set, List.map_map]
  refine List.map_congr_left fun row _ => ?_
  by_cases hkey : row.1 = key <;> simp [hkey]

end OptionRows

namespace OptionKey

/-- No option is repeated, and none is taken for another one by its name with underscores. -/
def Apart (keys : List OptionKey) : Prop :=
  keys.Pairwise fun k k' => k.snake ≠ k'.snake ∧ k.camel ≠ k'.snake ∧ k'.camel ≠ k.snake

instance (keys : List OptionKey) : Decidable (Apart keys) :=
  inferInstanceAs (Decidable (keys.Pairwise _))

theorem Apart.eq_of_snake {keys : List OptionKey} (h : Apart keys) {k k' : OptionKey}
    (hk : k ∈ keys) (hk' : k' ∈ keys) (hname : k.camel = k'.snake ∨ k.snake = k'.snake) :
    k = k' := by
  by_contra hne
  have hapart : k.snake ≠ k'.snake ∧ k.camel ≠ k'.snake := by
    induction h with
    | nil => cases hk
    | cons hfirst _ ih =>
      rcases List.mem_cons.mp hk with rfl | htail <;>
        rcases List.mem_cons.mp hk' with rfl | htail'
      · exact absurd rfl hne
      · exact ⟨(hfirst k' htail').1, (hfirst k' htail').2.1⟩
      · exact ⟨(hfirst k htail).1.symm, (hfirst k htail).2.2⟩
      · exact ih htail htail'
  exact hname.elim hapart.2 hapart.1

/-- The entries hold the values of the options in the rows, and nothing else. -/
structure Written (rows : OptionRows) (entries : List (Text × Json)) : Prop where
  apart : Apart (rows.map Prod.fst)
  value : ∀ row ∈ rows, Json.lookup entries row.1.snake = row.2
  names : ∀ name ∈ entries.map Prod.fst, ∃ row ∈ rows, row.1.snake = name

theorem lookup_row (row : OptionKey × Option Json) (key : Text) :
    Json.lookup (row.2.map (row.1.snake, ·)).toList key =
      if key = row.1.snake then row.2 else none := by
  obtain ⟨k, value⟩ := row
  cases value with
  | none => simp [Json.lookup]
  | some value => exact Json.lookup_singleton k.snake key value

theorem written_entries {rows : OptionRows} (hapart : Apart (rows.map Prod.fst)) :
    Written rows rows.entries := by
  induction rows with
  | nil => exact ⟨hapart, by simp, by simp [OptionRows.entries]⟩
  | cons row rows ih =>
    obtain ⟨hrow, hrows⟩ := List.pairwise_cons.mp hapart
    obtain ⟨-, hvalue, hnames⟩ := ih hrows
    have hentries : OptionRows.entries (row :: rows) =
        (row.2.map (row.1.snake, ·)).toList ++ OptionRows.entries rows := List.flatMap_cons
    have hdistinct : ∀ r ∈ rows, row.1.snake ≠ r.1.snake := fun r hr =>
      (hrow r.1 (List.mem_map_of_mem hr)).1
    refine ⟨hapart, ?_, ?_⟩
    · intro r hr
      rw [hentries, Json.lookup_append, lookup_row]
      rcases List.mem_cons.mp hr with rfl | hr
      · -- Behind its own entry no other one has the name.
        have hnone : Json.lookup (OptionRows.entries rows) r.1.snake = none := by
          refine Json.lookup_eq_none fun hmem => ?_
          obtain ⟨r', hr', hsnake⟩ := hnames _ hmem
          exact hdistinct r' hr' hsnake.symm
        rw [hnone, if_pos rfl, Option.none_or]
      · rw [hvalue r hr, if_neg (hdistinct r hr).symm, Option.or_none]
    · intro name hname
      rw [hentries, List.map_append, List.mem_append] at hname
      rcases hname with hname | hname
      · obtain ⟨e, he, rfl⟩ := List.mem_map.mp hname
        obtain ⟨value, -, rfl⟩ := Option.map_eq_some_iff.mp (Option.mem_toList.mp he)
        exact ⟨row, List.mem_cons_self, rfl⟩
      · obtain ⟨r, hr, hsnake⟩ := hnames name hname
        exact ⟨r, List.mem_cons_of_mem row hr, hsnake⟩

/-- Setting an option among the entries sets it in the rows, and leaves the others. -/
theorem Written.insert {rows : OptionRows} {entries : List (Text × Json)}
    (h : Written rows entries) {key : OptionKey} (hkey : key ∈ rows.map Prod.fst) (value : Json) :
    Written (rows.set key value) (Json.insert entries key.snake value) := by
  refine ⟨(rows.keys_set key value).symm ▸ h.apart, ?_, ?_⟩
  · intro row hrow
    obtain ⟨old, hold, rfl⟩ := List.mem_map.mp hrow
    rw [Json.lookup_insert]
    by_cases hsame : old.1 = key
    · rw [if_pos hsame, if_pos rfl]
    · have hsnake : old.1.snake ≠ key.snake := fun heq =>
        hsame (h.apart.eq_of_snake (List.mem_map_of_mem hold) hkey (.inr heq))
      rw [if_neg hsame, if_neg hsnake, h.value old hold]
  · intro name hname
    have hset : ∀ row ∈ rows, row.1.snake = name →
        ∃ row ∈ rows.set key value, row.1.snake = name := by
      intro row hrow hsnake
      refine ⟨_, List.mem_map_of_mem hrow, ?_⟩
      split
      case isTrue hsame => rwa [← hsame]
      case isFalse => exact hsnake
    rcases Json.mem_names_insert hname with rfl | hname
    · obtain ⟨row, hrow, hrowkey⟩ := List.mem_map.mp hkey
      exact hset row hrow (by rw [hrowkey])
    · obtain ⟨row, hrow, hsnake⟩ := h.names name hname
      exact hset row hrow hsnake

/-! ### Reading written options -/

variable {rows : OptionRows} {entries : List (Text × Json)} {key : OptionKey}

/-- Among written options each one is found under its name with underscores. -/
theorem find?_of_written (h : Written rows entries) {value : Option Json}
    (hrow : (key, value) ∈ rows) : key.find? entries = value.map (key.snake, ·) := by
  have hvalue : Json.lookup entries key.snake = value := h.value _ hrow
  rw [find?]
  split
  case h_1 found hfound =>
    -- An entry under the other name is an option's own entry, so the names are one.
    obtain ⟨row, hmem, hsnake⟩ := h.names key.camel (Json.isSome_lookup_iff.mp (by simp [hfound]))
    have hkey : key = row.1 := h.apart.eq_of_snake (List.mem_map_of_mem hrow)
      (List.mem_map_of_mem hmem) (.inl hsnake.symm)
    have hnames : key.camel = key.snake := by rw [← hsnake, ← hkey]
    rw [← hvalue, ← hnames, hfound, Option.map_some]
  case h_2 => rw [hvalue]

theorem extraIssues_of_written (h : Written rows entries) (path : List Text) :
    extraIssues (rows.map Prod.fst) path entries = [] := by
  have hused : ∀ name ∈ entries.map Prod.fst,
      name ∈ (rows.map Prod.fst).filterMap fun key => (key.find? entries).map Prod.fst := by
    intro name hname
    obtain ⟨⟨key, value⟩, hrow, rfl⟩ := h.names name hname
    obtain ⟨v, hv⟩ := Option.isSome_iff_exists.mp (Json.isSome_lookup_iff.mpr hname)
    have hvalue : value = some v := (h.value _ hrow).symm.trans hv
    refine List.mem_filterMap.mpr ⟨key, List.mem_map_of_mem hrow, ?_⟩
    rw [find?_of_written h hrow, hvalue]
    rfl
  have hnone : (entries.map Prod.fst).filter (· ∉ (rows.map Prod.fst).filterMap fun key =>
      (key.find? entries).map Prod.fst) = [] := by
    rw [List.filter_eq_nil_iff]
    intro name hname
    simpa using hused name hname
  rw [extraIssues, hnone]
  rfl

/-- An option is read from what was written for it. -/
theorem read_of_written {α : Type} {check : Check α} {write : α → Json} {value : Option α}
    (h : Written rows entries) (hrow : (key, value.map write) ∈ rows) (path : List Text)
    (hcheck : ∀ a ∈ value, ∀ path, check path (write a) = .ok a) :
    key.read path entries check = .ok value := by
  rw [OptionKey.read, find?_of_written h hrow]
  cases value with
  | none => rfl
  | some a =>
    simp only [Option.map_some, hcheck a rfl]
    rfl

theorem require_of_written {α : Type} {check : Check α} {write : α → Json} {a : α}
    (h : Written rows entries) (hrow : (key, some (write a)) ∈ rows) (path : List Text)
    (hcheck : ∀ path, check path (write a) = .ok a) :
    key.require path entries check = .ok a := by
  rw [OptionKey.require, find?_of_written h hrow]
  exact hcheck _

end OptionKey

end SharpClient

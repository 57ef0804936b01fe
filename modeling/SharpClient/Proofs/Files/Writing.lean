import SharpClient.Files.Tree
import SharpClient.Proofs.Text.Entries

/-!
# Writing files

What writing does to a tree is told by the contents of its files, place by place (`Tree.fileAt?`).
Directories come into it only as the way to a file: an empty one holds no file, so making one
changes nothing that can be seen this way. A write that is done puts its content in its place and
leaves every other file alone; one that a fault ends early leaves all of them alone, though it may
have made directories (`writeEffect_write`). Which of the two it is depends on the place and not on
the content (`write_snd_eq_none_iff`).
-/

namespace SharpClient.Tree

/-! ### Files by their places -/

/-- The content of the file in a place, if a file stands there. -/
def fileAt? (t : Tree) (place : List Text) : Option Text :=
  match t.at? place with
  | some (file content) => some content
  | _ => none

@[simp] theorem fileAt?_file_nil (content : Text) : (file content).fileAt? [] = some content := rfl

@[simp] theorem fileAt?_file_cons (content name : Text) (rest : List Text) :
    (file content).fileAt? (name :: rest) = none := rfl

@[simp] theorem fileAt?_directory_nil (entries : List (Text × Tree)) :
    (directory entries).fileAt? [] = none := rfl

theorem fileAt?_directory_cons (entries : List (Text × Tree)) (name : Text) (rest : List Text) :
    (directory entries).fileAt? (name :: rest) = (entries.lookup name).bind (·.fileAt? rest) := by
  rw [fileAt?, at?, entry?]
  cases entries.lookup name <;> rfl

/-- There is no file in an empty directory. -/
theorem fileAt?_empty (place : List Text) : (directory []).fileAt? place = none := by
  cases place <;> rfl

/-- The entries other than the one that is set stay. -/
theorem lookup_setEntry (entries : List (Text × Tree)) (name : Text) (t : Tree) (n : Text) :
    (setEntry entries name t).lookup n = if n = name then some t else entries.lookup n := by
  rw [setEntry, Entries.any_eq_isSome_lookup]
  split
  · rename_i hsome
    rw [Entries.lookup_map_replace]
    obtain ⟨old, hold⟩ := Option.isSome_iff_exists.mp hsome
    by_cases hn : n = name
    · rw [if_pos hn, if_pos hn, hn, hold, Option.map_some]
    · rw [if_neg hn, if_neg hn]
  · rename_i hnone
    have hnone : entries.lookup name = none := Option.not_isSome_iff_eq_none.mp hnone
    rw [List.lookup_append]
    by_cases hn : n = name
    · simp [hn, hnone]
    · have hne : (n == name) = false := beq_eq_false_iff_ne.mpr hn
      simp [hn, List.lookup_cons, hne]

theorem fileAt?_setEntry (entries : List (Text × Tree)) (name : Text) (t : Tree) (n : Text)
    (rest : List Text) :
    (directory (setEntry entries name t)).fileAt? (n :: rest) =
      if n = name then t.fileAt? rest else (directory entries).fileAt? (n :: rest) := by
  rw [fileAt?_directory_cons, lookup_setEntry, fileAt?_directory_cons]
  split <;> rfl

/-! ### What a write does -/

/-- The trees have the same files. -/
def SameFiles (before after : Tree) : Prop :=
  ∀ place, after.fileAt? place = before.fileAt? place

theorem SameFiles.of_eq {before after : Tree} (h : after = before) : SameFiles before after := by
  intro place
  rw [h]

/-- The trees have the same files but for one, which has the given content afterwards. -/
def Wrote (content : Text) (place : List Text) (before after : Tree) : Prop :=
  ∀ q, after.fileAt? q = if q = place then some content else before.fileAt? q

/-- How a write may end: it is done, or a fault has ended it before the file was touched. -/
inductive WriteEffect (content : Text) (place : List Text) (before : Tree) :
    Tree × Option WriteFault → Prop
  | done {after : Tree} (h : Wrote content place before after) :
      WriteEffect content place before (after, none)
  | fault {after : Tree} {f : WriteFault} (h : SameFiles before after) :
      WriteEffect content place before (after, some f)

variable {content : Text} {entries : List (Text × Tree)} {name : Text}

/-- What stands under a name, or the directory that is made in its place. -/
theorem fileAt?_getD_lookup (entries : List (Text × Tree)) (name : Text) (rest : List Text) :
    ((entries.lookup name).getD (directory [])).fileAt? rest =
      (directory entries).fileAt? (name :: rest) := by
  rw [fileAt?_directory_cons]
  cases entries.lookup name with
  | none => exact fileAt?_empty rest
  | some t => rfl

/-- What a write does below an entry, it does to the directory. -/
theorem WriteEffect.setEntry {rest : List Text} {t : Tree} {fault : Option WriteFault}
    (h : WriteEffect content rest ((entries.lookup name).getD (directory [])) (t, fault)) :
    WriteEffect content (name :: rest) (directory entries)
      (directory (setEntry entries name t), fault) := by
  cases h with
  | done h =>
    refine .done fun q => ?_
    cases q with
    | nil => rfl
    | cons n q =>
      rw [fileAt?_setEntry, h q, fileAt?_getD_lookup]
      by_cases hn : n = name
      · subst hn
        simp
      · simp [hn]
  | fault h =>
    refine .fault fun q => ?_
    cases q with
    | nil => rfl
    | cons n q =>
      rw [fileAt?_setEntry, h q, fileAt?_getD_lookup]
      split
      · rename_i hn
        rw [hn]
      · rfl

/-- A new file stands in the place of one file or of none. -/
theorem writeEffect_leaf (hfree : ((entries.lookup name).map isDirectory).getD false = false) :
    WriteEffect content [name] (directory entries)
      (directory (setEntry entries name (file content)), none) := by
  have hbelow : ∀ n rest, (directory entries).fileAt? (name :: n :: rest) = none := by
    intro n rest
    rw [fileAt?_directory_cons]
    cases hlookup : entries.lookup name with
    | none => rfl
    | some t =>
      cases t with
      | file text => rfl
      | directory inner =>
        rw [hlookup] at hfree
        cases hfree
  refine .done fun q => ?_
  cases q with
  | nil => rfl
  | cons n q =>
    rw [fileAt?_setEntry]
    by_cases hn : n = name
    · subst hn
      cases q with
      | nil => simp
      | cons m q => simp [hbelow m q]
    · simp [hn]

/-- The way to the file is gone step by step: each directory on it hands on what was done below. -/
theorem writeEffect_write (content : Text) (t : Tree) (place : List Text) :
    WriteEffect content place t (t.write content place) := by
  fun_induction write content t place with
  | case1 text =>
    refine .done fun q => ?_
    cases q <;> simp
  | case2 text name => exact .fault fun _ => rfl
  | case3 text name next rest => exact .fault fun _ => rfl
  | case4 entries => exact .fault fun _ => rfl
  | case5 entries name found hlong => exact .fault fun _ => rfl
  | case6 entries name found hlong hdirectory => exact .fault fun _ => rfl
  | case7 entries name found hlong hfree => exact writeEffect_leaf (by simpa using hfree)
  | case8 entries name next rest found hlong => exact .fault fun _ => rfl
  | case9 entries name next rest found hlong t fault hwrite ih =>
    rw [hwrite] at ih
    exact ih.setEntry

/-! ### When a write is done -/

/-- A file can be written in the place: no file stands on the way to it and no directory in it, and
the names that are not there yet are not too long. -/
structure Accepts (t : Tree) (place : List Text) : Prop where
  way : ∀ start, start <+: place → start ≠ place → t.fileAt? start = none
  free : ∀ entries, t.at? place ≠ some (directory entries)
  names : ∀ start name, start ++ [name] <+: place → t.at? (start ++ [name]) = none →
    Path.isLongName name = false

theorem accepts_file_nil (text : Text) : (file text).Accepts [] where
  way start h hne := absurd (List.prefix_nil.mp h) hne
  free entries h := by cases h
  names start name h := by simp at h

theorem not_accepts_file_cons (text name : Text) (rest : List Text) :
    ¬ (file text).Accepts (name :: rest) := by
  intro h
  cases h.way [] List.nil_prefix (by simp)

theorem at?_directory_singleton (entries : List (Text × Tree)) (name : Text) :
    (directory entries).at? [name] = entries.lookup name :=
  Option.bind_fun_some _

theorem accepts_directory_singleton : (directory entries).Accepts [name] ↔
    (entries.lookup name = none → Path.isLongName name = false) ∧
      ∀ inner, entries.lookup name ≠ some (directory inner) := by
  have hat := at?_directory_singleton entries name
  constructor
  · intro h
    refine ⟨fun hnone => h.names [] name (List.prefix_refl _) (hat.trans hnone), fun inner => ?_⟩
    rw [← hat]
    exact h.free inner
  · rintro ⟨hnew, hfree⟩
    refine ⟨?_, fun inner => hat ▸ hfree inner, ?_⟩
    · intro start hstart hne
      cases start with
      | nil => rfl
      | cons m start =>
        rw [List.cons_prefix_cons, List.prefix_nil] at hstart
        exact absurd (by rw [hstart.1, hstart.2]) hne
    · intro start n hstart hnone
      cases start with
      | nil =>
        obtain ⟨rfl, -⟩ := List.cons_prefix_cons.mp hstart
        exact hnew (hat.symm.trans hnone)
      | cons m start => simp [List.cons_prefix_cons] at hstart

/-- A directory that is not there yet accepts what an empty one would. -/
theorem accepts_directory_cons {next : Text} {rest : List Text} :
    (directory entries).Accepts (name :: next :: rest) ↔
      (entries.lookup name = none → Path.isLongName name = false) ∧
        ((entries.lookup name).getD (directory [])).Accepts (next :: rest) := by
  have hat : ∀ n q, (directory entries).at? (name :: n :: q) =
      ((entries.lookup name).getD (directory [])).at? (n :: q) := by
    intro n q
    rw [at?, entry?]
    cases entries.lookup name <;> rfl
  constructor
  · intro h
    refine ⟨fun hnone => h.names [] name (by simp) ?_, ?_, ?_, ?_⟩
    · rw [List.nil_append, at?, entry?, hnone, Option.bind_none]
    · intro start hstart hne
      rw [fileAt?_getD_lookup]
      exact h.way _ (List.cons_prefix_cons.mpr ⟨rfl, hstart⟩) (by simpa using hne)
    · intro inner
      rw [← hat]
      exact h.free inner
    · intro start n hstart hnone
      refine h.names (name :: start) n (List.cons_prefix_cons.mpr ⟨rfl, hstart⟩) ?_
      cases start with
      | nil => exact (hat n []).trans hnone
      | cons m start => exact (hat m _).trans hnone
  · rintro ⟨hnew, hway, hfree, hnames⟩
    refine ⟨?_, fun inner => hat next rest ▸ hfree inner, ?_⟩
    · intro start hstart hne
      cases start with
      | nil => rfl
      | cons m start =>
        obtain ⟨rfl, hrest⟩ := List.cons_prefix_cons.mp hstart
        rw [← fileAt?_getD_lookup]
        exact hway start hrest (by simpa using hne)
    · intro start n hstart hnone
      cases start with
      | nil =>
        obtain ⟨rfl, -⟩ := List.cons_prefix_cons.mp hstart
        exact hnew ((at?_directory_singleton entries n).symm.trans hnone)
      | cons m start =>
        obtain ⟨rfl, hrest⟩ := List.cons_prefix_cons.mp hstart
        refine hnames start n hrest ?_
        cases start with
        | nil => exact (hat n []).symm.trans hnone
        | cons m start => exact (hat m _).symm.trans hnone

theorem isNone_and_isLongName_eq_true {found : Option Tree} :
    (found.isNone && Path.isLongName name) = true ↔
      ¬ (found = none → Path.isLongName name = false) := by
  cases found <;> simp

theorem getD_map_isDirectory_eq_true {found : Option Tree} :
    (found.map isDirectory).getD false = true ↔ ∃ inner, found = some (directory inner) := by
  cases found with
  | none => simp
  | some t => cases t <;> simp [isDirectory]

/-- A write is done when its place accepts a file, whatever the content is. -/
theorem write_snd_eq_none_iff (content : Text) (t : Tree) (place : List Text) :
    (t.write content place).2 = none ↔ t.Accepts place := by
  fun_induction write content t place with
  | case1 text => exact iff_of_true rfl (accepts_file_nil text)
  | case2 text name => exact iff_of_false nofun (not_accepts_file_cons text name [])
  | case3 text name next rest =>
    exact iff_of_false nofun (not_accepts_file_cons text name (next :: rest))
  | case4 entries => exact iff_of_false nofun fun h => h.free entries rfl
  | case5 entries name found hlong =>
    rw [isNone_and_isLongName_eq_true] at hlong
    exact iff_of_false nofun fun h => hlong (accepts_directory_singleton.mp h).1
  | case6 entries name found hlong hdirectory =>
    obtain ⟨inner, hinner⟩ := getD_map_isDirectory_eq_true.mp hdirectory
    exact iff_of_false nofun fun h => (accepts_directory_singleton.mp h).2 inner hinner
  | case7 entries name found hlong hfree =>
    rw [isNone_and_isLongName_eq_true, Classical.not_not] at hlong
    rw [getD_map_isDirectory_eq_true, not_exists] at hfree
    exact iff_of_true rfl (accepts_directory_singleton.mpr ⟨hlong, hfree⟩)
  | case8 entries name next rest found hlong =>
    rw [isNone_and_isLongName_eq_true] at hlong
    exact iff_of_false nofun fun h => hlong (accepts_directory_cons.mp h).1
  | case9 entries name next rest found hlong t fault hwrite ih =>
    rw [isNone_and_isLongName_eq_true, Classical.not_not] at hlong
    rw [hwrite] at ih
    rw [accepts_directory_cons, ← ih]
    exact (and_iff_right hlong).symm

end SharpClient.Tree

import Mathlib.Data.List.Forall2
import Mathlib.Data.List.TakeWhile
import SharpClient.Document.BlockString

/-!
# Block strings in a margin

The value of a block string does not notice that its lines are moved. Its first line stands behind
the opening quotes and stays; each further line takes the same margin, except that an empty line
may stay empty (`LineMoved`). The indentation that the lines have in common then grows by the
margin, and what dedenting leaves is the same (`value_moved`).
-/

namespace SharpClient.BlockString

/-- A line with `n` spaces in front, or an empty line left as it is. -/
inductive LineMoved (n : Nat) : Text → Text → Prop
  | moved (line : Text) : LineMoved n line (Text.spaces n ++ line)
  | empty : LineMoved n [] []

variable {n : Nat}

/-! ### One line -/

theorem isBlankLine_spaces (n : Nat) (line : Text) :
    isBlankLine (Text.spaces n ++ line) = isBlankLine line := by
  simp [isBlankLine, Text.spaces, isBlank]

theorem indentation_spaces (n : Nat) (line : Text) :
    indentation (Text.spaces n ++ line) = n + indentation line := by
  have hall : ∀ c ∈ Text.spaces n, isBlank c = true := by
    intro c hc
    rw [List.eq_of_mem_replicate hc]
    rfl
  rw [indentation, List.takeWhile_append_of_pos hall, List.length_append, indentation]
  simp [Text.spaces]

theorem LineMoved.isBlankLine_eq {l l' : Text} (h : LineMoved n l l') :
    isBlankLine l' = isBlankLine l := by
  cases h with
  | moved => exact isBlankLine_spaces n l
  | empty => rfl

theorem LineMoved.drop {l l' : Text} (h : LineMoved n l l') (k : Nat) :
    l'.drop (n + k) = l.drop k := by
  cases h with
  | moved =>
    have hn : (Text.spaces n).length = n := List.length_replicate
    rw [← List.drop_drop, List.drop_left' hn]
  | empty => simp

/-! ### All lines -/

theorem min?_map_add (n : Nat) (ks : List Nat) :
    (ks.map (n + ·)).min? = ks.min?.map (n + ·) := by
  cases ks with
  | nil => rfl
  | cons k ks =>
    have hfold : ∀ (ks : List Nat) (k : Nat),
        (ks.map (n + ·)).foldl min (n + k) = n + ks.foldl min k := by
      intro ks
      induction ks with
      | nil => exact fun _ => rfl
      | cons j js ih =>
        intro k
        rw [List.map_cons, List.foldl_cons, List.foldl_cons, ← ih, Nat.add_min_add_left]
    simpa [List.min?] using hfold ks k

/-- Only lines that are not blank count for the common indentation, and these move. -/
theorem commonIndentation_moved {ls ls' : List Text} (h : List.Forall₂ (LineMoved n) ls ls') :
    commonIndentation ls' = (commonIndentation ls).map (n + ·) := by
  rw [commonIndentation, commonIndentation, ← min?_map_add]
  congr 1
  induction h with
  | nil => rfl
  | cons hl _ ih =>
    rw [List.filter_cons, List.filter_cons, hl.isBlankLine_eq]
    split
    · rename_i hblank
      cases hl with
      | moved => rw [List.map_cons, List.map_cons, List.map_cons, indentation_spaces, ih]
      | empty => exact absurd hblank (by decide)
    · exact ih

/-- Blank lines at the end do not matter. -/
theorem trimBlankLines_append {bs : List Text} (hbs : ∀ b ∈ bs, isBlankLine b = true)
    (ls : List Text) : trimBlankLines (ls ++ bs) = trimBlankLines ls := by
  rw [trimBlankLines, trimBlankLines, List.dropWhile_append]
  split
  · rename_i hempty
    have hls : ls.dropWhile isBlankLine = [] := by simpa using hempty
    rw [hls, List.dropWhile_eq_nil_iff.2 hbs]
  · rw [List.reverse_append, List.dropWhile_append_of_pos (by simpa using hbs)]

theorem isBlankLine_of_commonIndentation {ls : List Text} (h : commonIndentation ls = none) :
    ∀ l ∈ ls, isBlankLine l = true := by
  rw [commonIndentation, List.min?_eq_none_iff, List.map_eq_nil_iff, List.filter_eq_nil_iff] at h
  simpa using h

theorem map_drop_moved {ls ls' : List Text} (h : List.Forall₂ (LineMoved n) ls ls') (k : Nat) :
    ls'.map (·.drop (n + k)) = ls.map (·.drop k) := by
  induction h with
  | nil => rfl
  | cons hl _ ih => rw [List.map_cons, List.map_cons, hl.drop, ih]

/-- Dedenting takes the margin away again. -/
theorem dedent_moved (first : Text) {rest rest' : List Text}
    (h : List.Forall₂ (LineMoved n) rest rest') :
    dedent (first :: rest') = dedent (first :: rest) := by
  have hcommon := commonIndentation_moved h
  cases hrest : commonIndentation rest with
  | none =>
    -- nothing but blank lines follows, and those are trimmed whatever their length
    rw [hrest, Option.map_none] at hcommon
    have hb := isBlankLine_of_commonIndentation hrest
    have hb' := isBlankLine_of_commonIndentation hcommon
    have htrim : ∀ {bs : List Text}, (∀ b ∈ bs, isBlankLine b = true) →
        trimBlankLines (first :: bs) = trimBlankLines [first] :=
      fun hbs => trimBlankLines_append hbs [first]
    simp only [dedent, hrest, hcommon, Option.getD_none, List.drop_zero, List.map_id']
    rw [htrim hb, htrim hb']
  | some k =>
    rw [hrest, Option.map_some] at hcommon
    simp only [dedent, hrest, hcommon, Option.getD_some]
    rw [map_drop_moved h k]

/-- The value of a block string whose lines were moved. -/
theorem value_moved (first : Text) {rest rest' : List Text}
    (h : List.Forall₂ (LineMoved n) rest rest') :
    value (first :: rest') = value (first :: rest) := by
  rw [value, value, dedent_moved first h]

end SharpClient.BlockString

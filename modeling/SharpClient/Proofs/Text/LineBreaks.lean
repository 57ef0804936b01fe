import SharpClient.Layout
import SharpClient.Proofs.Text.Margin
import SharpClient.Proofs.Text.RawText

/-!
# Lines of declarations and lines of the file

Declarations are indented by lines that the line feed separates. The file is laid out by lines that
many more characters end, and it is put together again with line feeds between them. So the layout
first writes every other line break as a line feed (`lineFeeds`) and then indents like a declaration
(`Template.indented_eq_indent`). A text comes through unchanged just when it has no other line break
(`lineFeeds_eq_self_iff`). Indentation does not hide a change, since different texts stay different
when they are indented (`indent_injective`).
-/

namespace SharpClient

namespace Text

/-! ### Lines separated by line feeds -/

theorem lines_eq_splitOn (t : Text) : lines t = t.splitOn '\n' := by
  induction t with
  | nil => rfl
  | cons c cs ih =>
    obtain ⟨l, ls, hcs⟩ := List.exists_cons_of_ne_nil (lines_ne_nil cs)
    rw [List.splitOn_cons_eq_if_modifyHead, ← ih]
    by_cases hc : c = '\n'
    · rw [hc, lines_newline]
      rfl
    · rw [lines_cons_of_ne hc hcs, hcs, if_neg (by simpa using hc)]
      rfl

theorem unlines_lines (t : Text) : unlines (lines t) = t := by
  rw [lines_eq_splitOn]
  exact List.intercalate_splitOn '\n'

theorem lines_unlines {ls : List Text} (h : ∀ l ∈ ls, '\n' ∉ l) (hne : ls ≠ []) :
    lines (unlines ls) = ls := by
  rw [lines_eq_splitOn]
  exact List.splitOn_intercalate '\n' h hne

theorem newline_not_mem_line (t : Text) : ∀ l ∈ lines t, '\n' ∉ l := by
  induction t with
  | nil =>
    intro l hl
    rw [List.mem_singleton.mp hl]
    exact List.not_mem_nil
  | cons c cs ih =>
    obtain ⟨first, rest, hcs⟩ := List.exists_cons_of_ne_nil (lines_ne_nil cs)
    by_cases hc : c = '\n'
    · rw [hc, lines_newline, List.forall_mem_cons]
      exact ⟨List.not_mem_nil, ih⟩
    · rw [hcs, List.forall_mem_cons] at ih
      rw [lines_cons_of_ne hc hcs, List.forall_mem_cons]
      exact ⟨List.not_mem_cons_of_ne_of_not_mem (Ne.symm hc) ih.1, ih.2⟩

theorem lines_of_not_mem {t : Text} (h : '\n' ∉ t) : lines t = [t] := by
  rw [lines_eq_splitOn]
  exact List.splitOn_eq_singleton h

theorem lines_append_newline (s t : Text) : lines (s ++ '\n' :: t) = lines s ++ lines t := by
  simp only [lines_eq_splitOn, List.splitOn_eq_splitOnP]
  exact List.splitOnP_append_cons s t (by decide)

/-- Behind the first part, the separator stands before each other. -/
theorem join_cons_eq_flatMap (separator p : Text) (ps : List Text) :
    join separator (p :: ps) = p ++ ps.flatMap (separator ++ ·) := by
  induction ps generalizing p with
  | nil => rw [join, List.intercalate_singleton, List.flatMap_nil, List.append_nil]
  | cons q qs ih =>
    rw [join, List.intercalate_cons_cons, ← join, ih, List.flatMap_cons]
    simp only [List.append_assoc]

theorem unlines_append_of_ne_nil {a b : List Text} (ha : a ≠ []) (hb : b ≠ []) :
    unlines (a ++ b) = unlines a ++ "\n" ++ unlines b := by
  obtain ⟨p, ps, rfl⟩ := List.exists_cons_of_ne_nil ha
  obtain ⟨q, qs, rfl⟩ := List.exists_cons_of_ne_nil hb
  rw [unlines, unlines, unlines, List.cons_append, join_cons_eq_flatMap, join_cons_eq_flatMap,
    join_cons_eq_flatMap, List.flatMap_append, List.flatMap_cons]
  simp only [List.append_assoc]

/-! ### Indentation keeps texts apart -/

theorem indentLine_injective (margin : Text) : Function.Injective (indentLine margin) := by
  intro l k h
  by_cases hl : l = [] <;> by_cases hk : k = []
  · rw [hl, hk]
  · simp_all [indentLine]
  · simp_all [indentLine]
  · simpa [indentLine, hl, hk] using h

theorem newline_not_mem_indentLine {margin l : Text} (hmargin : '\n' ∉ margin) (hl : '\n' ∉ l) :
    '\n' ∉ indentLine margin l := by
  rw [indentLine]
  split
  · exact hl
  · rw [List.mem_append, not_or]
    exact ⟨hmargin, hl⟩

/-- The lines of an indented text are the lines of the text, indented one by one. -/
theorem lines_indent (levels : Nat) (t : Text) :
    lines (indent levels t) = (lines t).map (indentLine (repeated levels indentUnit)) := by
  have hmargin : '\n' ∉ repeated levels indentUnit := by
    rw [repeated_indentUnit, spaces, List.mem_replicate]
    exact fun h => absurd h.2 (by decide)
  refine lines_unlines ?_ (by simpa using lines_ne_nil t)
  intro l hl
  obtain ⟨k, hk, rfl⟩ := List.mem_map.mp hl
  exact newline_not_mem_indentLine hmargin (newline_not_mem_line t k hk)

theorem indent_injective (levels : Nat) : Function.Injective (indent levels) := by
  intro s t h
  have hlines : lines s = lines t := by
    apply (indentLine_injective (repeated levels indentUnit)).list_map
    rw [← lines_indent, ← lines_indent, h]
  rw [← unlines_lines s, ← unlines_lines t, hlines]

/-! ### Line breaks written as line feeds -/

/-- The text with every line break written as a line feed. A carriage return and the line feed
after it are one line break. -/
def lineFeeds : Text → Text
  | [] => []
  | '\r' :: '\n' :: cs => '\n' :: lineFeeds cs
  | c :: cs => (if isLineBreak c then '\n' else c) :: lineFeeds cs

/-- No line break but the line feed is left. -/
theorem eq_newline_of_mem_lineFeeds {t : Text} {c : Char} (h : c ∈ lineFeeds t)
    (hc : isLineBreak c) : c = '\n' := by
  fun_induction lineFeeds t with
  | case1 => exact absurd h List.not_mem_nil
  | case2 cs ih =>
    rcases List.mem_cons.mp h with rfl | h
    · rfl
    · exact ih h
  | case3 d cs hcr ih =>
    rcases List.mem_cons.mp h with rfl | h
    · split at hc
      · exact if_pos ‹_›
      · exact absurd hc ‹_›
    · exact ih h

/-- A text is unchanged just when the line feed is its only line break. -/
theorem lineFeeds_eq_self_iff {t : Text} :
    lineFeeds t = t ↔ ∀ c ∈ t, isLineBreak c → c = '\n' := by
  constructor
  · intro h c hc hbreak
    rw [← h] at hc
    exact eq_newline_of_mem_lineFeeds hc hbreak
  · intro h
    fun_induction lineFeeds t with
    | case1 => rfl
    | case2 cs ih => exact absurd (h '\r' List.mem_cons_self (by decide)) (by decide)
    | case3 c cs hcr ih =>
      rw [ih fun d hd => h d (List.mem_cons_of_mem c hd)]
      split
      · rw [h c List.mem_cons_self ‹_›]
      · rfl

theorem lineFeeds_cons_of_not_break {c : Char} (hc : ¬ isLineBreak c) (cs : Text) :
    lineFeeds (c :: cs) = c :: lineFeeds cs := by
  have hcr : c ≠ '\r' := fun h => hc (h ▸ by decide)
  rw [lineFeeds, if_neg hc]
  intro ds h
  exact absurd h hcr

end Text

/-! ### Lines ended by every line break -/

namespace RawText

theorem breakLines_cons_of_break {p : CodePoint} {ps : RawText} (hp : p.isLineBreak)
    (hpair : p = .char '\r' → ps.head? ≠ some (.char '\n')) :
    breakLines (p :: ps) = [] :: breakLines ps := by
  rw [breakLines.eq_def]
  split
  case h_1 h => exact absurd h (List.cons_ne_nil p ps)
  case h_2 qs h =>
    obtain ⟨rfl, rfl⟩ := List.cons.inj h
    exact absurd rfl (hpair rfl)
  case h_3 h =>
    obtain ⟨rfl, rfl⟩ := List.cons.inj h
    exact if_pos hp

theorem breakLines_cons_of_not_break {p : CodePoint} {ps l : RawText} {ls : List RawText}
    (hp : ¬ p.isLineBreak) (h : breakLines ps = l :: ls) :
    breakLines (p :: ps) = (p :: l) :: ls := by
  rw [breakLines.eq_def]
  split
  case h_1 hnil => exact absurd hnil (List.cons_ne_nil p ps)
  case h_2 qs hpair =>
    obtain ⟨rfl, -⟩ := List.cons.inj hpair
    exact absurd (by decide) hp
  case h_3 hcons =>
    obtain ⟨rfl, rfl⟩ := List.cons.inj hcons
    rw [if_neg hp, h]

/-- With a line feed behind it, a text has the lines of its form with line feeds. A carriage return
at the end would take that line feed for its own. -/
theorem breakLines_ofText_append_newline {t : Text} (hlast : t.getLast? ≠ some '\r') :
    breakLines (ofText (t ++ ['\n'])) = (Text.lines (Text.lineFeeds t)).map ofText := by
  fun_induction Text.lineFeeds t with
  | case1 => rfl
  | case2 cs ih =>
    have hcs : cs.getLast? ≠ some '\r' := by
      intro h
      exact hlast (by simp [List.getLast?_cons, h])
    rw [Text.lines_newline, List.map_cons, ← ih hcs]
    rfl
  | case3 c cs hcr ih =>
    have hcs : cs.getLast? ≠ some '\r' := by
      intro h
      exact hlast (by simp [List.getLast?_cons, h])
    rw [List.cons_append, ofText_cons]
    by_cases hc : Text.isLineBreak c
    · have hpair : CodePoint.char c = .char '\r' →
          (ofText (cs ++ ['\n'])).head? ≠ some (.char '\n') := by
        intro hreturn h
        cases hreturn
        cases cs with
        | nil => exact hlast rfl
        | cons d ds => exact hcr ds rfl (by simpa [ofText] using h)
      rw [breakLines_cons_of_break (p := .char c) hc hpair, ih hcs, if_pos hc, Text.lines_newline]
      rfl
    · obtain ⟨l, ls, hl⟩ := List.exists_cons_of_ne_nil (Text.lines_ne_nil (Text.lineFeeds cs))
      have hne : c ≠ '\n' := fun h => hc (h ▸ by decide)
      have hrest : breakLines (ofText (cs ++ ['\n'])) = ofText l :: ls.map ofText := by
        rw [ih hcs, hl, List.map_cons]
      rw [breakLines_cons_of_not_break (p := .char c) hc hrest, if_neg hc,
        Text.lines_cons_of_ne hne hl]
      rfl

end RawText

namespace Template

/-- The layout moves the declarations right as an enclosing declaration would, once their line
breaks are line feeds. -/
theorem indented_eq_indent {c : Char} {cs : Text} (hc : ¬ Text.isLineBreak c)
    (hlast : (c :: cs).getLast? ≠ some '\r') :
    indented (.ofText (c :: cs)) = .ofText (Text.indent 1 (Text.lineFeeds (c :: cs))) := by
  obtain ⟨l, ls, hl⟩ := List.exists_cons_of_ne_nil (Text.lines_ne_nil (Text.lineFeeds (c :: cs)))
  have hfirst : l ≠ [] := by
    have hne : c ≠ '\n' := fun h => hc (h ▸ by decide)
    rw [Text.lineFeeds_cons_of_not_break hc] at hl
    intro hnil
    have hhead := (Text.head_lines_eq_nil hl (List.cons_ne_nil _ _)).mp hnil
    exact hne (by simpa using hhead)
  have hmargin : Text.repeated 1 Text.indentUnit = Text.indentUnit := rfl
  have hline : Text.indentLine Text.indentUnit l = Text.indentUnit ++ l :=
    if_neg (by simpa using hfirst)
  calc indented (.ofText (c :: cs))
      = indentLines ((Text.lines (Text.lineFeeds (c :: cs))).map .ofText) := by
        rw [indented, ← RawText.ofText_append]
        exact congrArg indentLines (RawText.breakLines_ofText_append_newline hlast)
    _ = .ofText
          (Text.unlines ((Text.indentUnit ++ l) :: ls.map (Text.indentLine Text.indentUnit))) := by
        rw [hl, List.map_cons, indentLines, ← RawText.ofText_append, List.map_map,
          ← RawText.unlines_map_ofText, List.map_cons, List.map_map]
        simp only [Function.comp_def, RawText.indentLine_ofText]
    _ = .ofText (Text.indent 1 (Text.lineFeeds (c :: cs))) := by
        rw [Text.indent, hl, hmargin, List.map_cons, hline]

end Template

end SharpClient

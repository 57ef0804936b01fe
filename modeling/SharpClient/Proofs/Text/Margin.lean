import Mathlib.Data.List.Basic
import SharpClient.Text.Lines

/-!
# Indentation, character by character

Indenting works on lines. Seen from the characters it puts a margin behind each line feed, except
between two line feeds in a row (`shift`), and in front of the first line (`indent_eq_shift`). In
this form indentation passes through concatenation at every place that is not a line feed
(`shift_append`), and indenting twice is indenting once by both margins (`shift_shift`).

All of this is about texts that end in some character other than a line feed (`Closed`); the last
line of another text is empty and takes no margin.
-/

namespace SharpClient.Text

/-! ### Closed texts -/

/-- The text ends in a character that is not a line feed. -/
def Closed (t : Text) : Prop :=
  ∃ s c, t = s ++ [c] ∧ c ≠ '\n'

theorem Closed.ne_nil {t : Text} (h : Closed t) : t ≠ [] := by
  obtain ⟨s, c, rfl, -⟩ := h
  simp

theorem Closed.append {t : Text} (h : Closed t) (a : Text) : Closed (a ++ t) := by
  obtain ⟨s, c, rfl, hc⟩ := h
  exact ⟨a ++ s, c, by simp, hc⟩

theorem Closed.of_cons {c : Char} {t : Text} (h : Closed (c :: t)) (ht : t ≠ []) : Closed t := by
  obtain ⟨s, d, hs, hd⟩ := h
  cases s with
  | nil => simp_all
  | cons x xs => exact ⟨xs, d, (List.cons.inj hs).2, hd⟩

theorem not_closed_newline : ¬ Closed ['\n'] := by
  rintro ⟨s, c, hs, hc⟩
  cases s with
  | nil => exact hc (List.cons.inj hs).1.symm
  | cons x xs => simp at hs

theorem closed_of_not_mem {t : Text} (ht : t ≠ []) (h : '\n' ∉ t) : Closed t := by
  refine ⟨t.dropLast, t.getLast ht, (List.dropLast_append_getLast ht).symm, fun hc => h ?_⟩
  rw [← hc]
  exact List.getLast_mem ht

/-- Closed parts joined by any separator. -/
theorem closed_join {separator : Text} {parts : List Text} (hne : parts ≠ [])
    (h : ∀ p ∈ parts, Closed p) : Closed (join separator parts) := by
  induction parts with
  | nil => exact absurd rfl hne
  | cons p ps ih =>
    cases ps with
    | nil => simpa [join] using h p (by simp)
    | cons q qs =>
      rw [join, List.intercalate_cons_cons]
      exact (ih (by simp) fun r hr => h r (by simp [hr])).append _

theorem mem_of_mem_join {separator : Text} {parts : List Text} {c : Char}
    (h : c ∈ join separator parts) : c ∈ separator ∨ ∃ p ∈ parts, c ∈ p := by
  induction parts with
  | nil => simp [join] at h
  | cons p ps ih =>
    by_cases hne : ps = []
    · subst hne
      rw [join, List.intercalate_singleton] at h
      exact .inr ⟨p, by simp, h⟩
    · rw [join, List.intercalate_cons_of_ne_nil hne, List.mem_append, List.mem_append] at h
      rcases h with (hp | hs) | hps
      · exact .inr ⟨p, by simp, hp⟩
      · exact .inl hs
      · obtain hs | ⟨q, hq, hmem⟩ := ih hps
        · exact .inl hs
        · exact .inr ⟨q, List.mem_cons_of_mem _ hq, hmem⟩

/-! ### Shifting -/

/-- The text with `margin` behind each line feed, except between two line feeds in a row. -/
def shift (margin : Text) : Text → Text
  | [] => []
  | c :: cs =>
    c :: ((if c = '\n' ∧ cs.head? ≠ some '\n' then margin else []) ++ shift margin cs)

variable {margin : Text}

@[simp] theorem shift_nil : shift margin [] = [] := rfl

theorem shift_cons_of_ne {c : Char} (hc : c ≠ '\n') (cs : Text) :
    shift margin (c :: cs) = c :: shift margin cs := by
  simp [shift, hc]

theorem shift_newline {cs : Text} (h : cs.head? ≠ some '\n') :
    shift margin ('\n' :: cs) = '\n' :: (margin ++ shift margin cs) := by
  simp [shift, h]

theorem shift_newline_of_empty {cs : Text} (h : cs.head? = some '\n') :
    shift margin ('\n' :: cs) = '\n' :: shift margin cs := by
  simp [shift, h]

theorem shift_of_not_mem {t : Text} (h : '\n' ∉ t) : shift margin t = t := by
  induction t with
  | nil => rfl
  | cons c cs ih =>
    rw [List.mem_cons, not_or] at h
    rw [shift_cons_of_ne (Ne.symm h.1), ih h.2]

/-- What stands behind a character that is not a line feed is shifted on its own. -/
theorem shift_append {a : Text} (ha : Closed a) (b : Text) :
    shift margin (a ++ b) = shift margin a ++ shift margin b := by
  induction a with
  | nil => exact absurd rfl ha.ne_nil
  | cons c cs ih =>
    by_cases hcs : cs = []
    · subst hcs
      have hc : c ≠ '\n' := fun hc => not_closed_newline (hc ▸ ha)
      simp [shift_cons_of_ne hc]
    · have hhead : (cs ++ b).head? = cs.head? := List.head?_append_of_ne_nil cs hcs
      rw [List.cons_append, shift, shift, hhead, ih (ha.of_cons hcs)]
      simp [List.append_assoc]

theorem Closed.shift {t : Text} (h : Closed t) : Closed (shift margin t) := by
  induction t with
  | nil => exact absurd rfl h.ne_nil
  | cons c cs ih =>
    by_cases hcs : cs = []
    · subst hcs
      have hc : c ≠ '\n' := fun hc => not_closed_newline (hc ▸ h)
      rwa [shift_cons_of_ne hc]
    · rw [Text.shift, ← List.cons_append]
      exact (ih (h.of_cons hcs)).append _

theorem shift_spaces (n : Nat) (t : Text) :
    shift margin (spaces n ++ t) = spaces n ++ shift margin t := by
  induction n with
  | zero => rfl
  | succ n ih =>
    have hs : spaces (n + 1) = ' ' :: spaces n := List.replicate_succ
    rw [hs, List.cons_append, shift_cons_of_ne (by decide), ih, List.cons_append]

theorem shift_no_spaces (t : Text) : shift (spaces 0) t = t := by
  induction t with
  | nil => rfl
  | cons c cs ih => simpa [shift, spaces] using ih

/-- The line feed at the beginning of a text stays there. -/
theorem head?_shift (t : Text) : (shift margin t).head? = t.head? := by
  cases t <;> rfl

/-- Two shifts are one shift by both margins. -/
theorem shift_shift (m n : Nat) (t : Text) :
    shift (spaces m) (shift (spaces n) t) = shift (spaces (m + n)) t := by
  cases n with
  | zero => rw [shift_no_spaces, Nat.add_zero]
  | succ n =>
    have hsum : spaces m ++ spaces (n + 1) = spaces (m + (n + 1)) :=
      List.replicate_append_replicate
    induction t with
    | nil => rfl
    | cons c cs ih =>
      by_cases hc : c = '\n'
      · subst hc
        by_cases hcs : cs.head? = some '\n'
        · have hhead : (shift (spaces (n + 1)) cs).head? = some '\n' := by rwa [head?_shift]
          rw [shift_newline_of_empty hcs, shift_newline_of_empty hcs,
            shift_newline_of_empty hhead, ih]
        · -- The inner margin has a space, so the outer one goes in front of it.
          have hhead : (spaces (n + 1) ++ shift (spaces (n + 1)) cs).head? ≠ some '\n' := by
            simp [spaces, List.replicate_succ]
          rw [shift_newline hcs, shift_newline hcs, shift_newline hhead, shift_spaces, ih,
            ← List.append_assoc, hsum]
      · rw [shift_cons_of_ne hc, shift_cons_of_ne hc, shift_cons_of_ne hc, ih]

/-! ### Indentation as a shift -/

theorem lines_ne_nil (t : Text) : lines t ≠ [] := by
  unfold lines
  split
  · simp
  · split
    · simp
    · split <;> simp

theorem lines_newline (cs : Text) : lines ('\n' :: cs) = [] :: lines cs := by
  simp [lines]

theorem lines_cons_of_ne {c : Char} (hc : c ≠ '\n') {cs l : Text} {ls : List Text}
    (h : lines cs = l :: ls) : lines (c :: cs) = (c :: l) :: ls := by
  simp [lines, hc, h]

/-- The first line is empty where the text begins with a line feed, or is itself empty. -/
theorem head_lines_eq_nil {t l : Text} {ls : List Text} (h : lines t = l :: ls) (ht : t ≠ []) :
    l = [] ↔ t.head? = some '\n' := by
  cases t with
  | nil => exact absurd rfl ht
  | cons c cs =>
    by_cases hc : c = '\n'
    · subst hc
      rw [lines_newline] at h
      simp [← (List.cons.inj h).1]
    · obtain ⟨l', ls', hl⟩ := List.exists_cons_of_ne_nil (lines_ne_nil cs)
      rw [lines_cons_of_ne hc hl] at h
      simp [← (List.cons.inj h).1, hc]

theorem unlines_append (a l : Text) (ls : List Text) :
    unlines ((a ++ l) :: ls) = a ++ unlines (l :: ls) := by
  cases ls with
  | nil => simp [unlines, join]
  | cons k ks => simp [unlines, join, List.intercalate_cons_cons]

theorem unlines_nil_cons {ls : List Text} (h : ls ≠ []) : unlines ([] :: ls) = '\n' :: unlines ls := by
  rw [unlines, unlines, join, join, List.intercalate_cons_of_ne_nil h]
  rfl

/-- An indented first line takes the margin unless the text begins with a line feed. -/
theorem unlines_indentLine {t l : Text} {ls : List Text} (h : lines t = l :: ls) (ht : t ≠ [])
    (ks : List Text) :
    unlines (indentLine margin l :: ks) =
      (if t.head? = some '\n' then [] else margin) ++ unlines (l :: ks) := by
  have hl := head_lines_eq_nil h ht
  by_cases hhead : t.head? = some '\n'
  · rw [if_pos hhead, hl.2 hhead]
    rfl
  · have hne : l ≠ [] := fun hl' => hhead (hl.1 hl')
    rw [if_neg hhead, ← unlines_append, indentLine, if_neg (by simpa using hne)]

/-- Indenting every line but the first shifts the text. -/
theorem unlines_indented_tail {t l : Text} {ls : List Text} (ht : Closed t)
    (h : lines t = l :: ls) : unlines (l :: ls.map (indentLine margin)) = shift margin t := by
  induction t generalizing l ls with
  | nil => exact absurd rfl ht.ne_nil
  | cons c cs ih =>
    obtain ⟨l', ls', hcs⟩ := List.exists_cons_of_ne_nil (lines_ne_nil cs)
    by_cases hc : c = '\n'
    · subst hc
      have hne : cs ≠ [] := fun hnil => not_closed_newline (hnil ▸ ht)
      obtain ⟨rfl, rfl⟩ := List.cons.inj ((lines_newline cs).symm.trans h)
      rw [hcs, List.map_cons, unlines_nil_cons (by simp), unlines_indentLine hcs hne,
        ih (ht.of_cons hne) hcs]
      by_cases hhead : cs.head? = some '\n'
      · rw [shift_newline_of_empty hhead, if_pos hhead, List.nil_append]
      · rw [shift_newline hhead, if_neg hhead]
    · obtain ⟨rfl, rfl⟩ := List.cons.inj ((lines_cons_of_ne hc hcs).symm.trans h)
      have hcons : unlines ((c :: l') :: ls'.map (indentLine margin)) =
          c :: unlines (l' :: ls'.map (indentLine margin)) := unlines_append [c] l' _
      rw [shift_cons_of_ne hc, hcons]
      by_cases hne : cs = []
      · subst hne
        obtain ⟨rfl, rfl⟩ := List.cons.inj hcs
        rfl
      · rw [ih (ht.of_cons hne) hcs]

theorem repeated_indentUnit (levels : Nat) : repeated levels indentUnit = spaces (2 * levels) := by
  induction levels with
  | zero => rfl
  | succ n ih =>
    have hr : repeated (n + 1) indentUnit = indentUnit ++ repeated n indentUnit := by
      simp [repeated, List.replicate_succ]
    have hu : indentUnit = spaces 2 := rfl
    rw [hr, ih, hu, show 2 * (n + 1) = 2 + 2 * n by omega]
    exact List.replicate_append_replicate

/-- Indentation puts the margin in front of the first line and shifts the rest. -/
theorem indent_eq_shift (levels : Nat) {t : Text} (ht : Closed t) :
    indent levels t = (if t.head? = some '\n' then [] else spaces (2 * levels)) ++
      shift (spaces (2 * levels)) t := by
  obtain ⟨l, ls, h⟩ := List.exists_cons_of_ne_nil (lines_ne_nil t)
  rw [indent, repeated_indentUnit, h, List.map_cons, unlines_indentLine h ht.ne_nil,
    unlines_indented_tail ht h]

/-- Behind a line feed, indentation is a shift. -/
theorem newline_indent (levels : Nat) {t : Text} (ht : Closed t) :
    '\n' :: indent levels t = shift (spaces (2 * levels)) ('\n' :: t) := by
  rw [indent_eq_shift levels ht]
  by_cases hhead : t.head? = some '\n'
  · rw [shift_newline_of_empty hhead, if_pos hhead, List.nil_append]
  · rw [shift_newline hhead, if_neg hhead]

end SharpClient.Text

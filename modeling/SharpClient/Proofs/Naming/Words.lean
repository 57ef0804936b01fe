import Mathlib.Data.List.Basic
import SharpClient.Naming.Words

/-!
# The words of a name, found in one scan

The words of a name are found in three steps: two passes that mark where a word ends by a space, and a
split of the marked text. Each pass goes on behind the characters that it has matched, and the second
one reads what the first one has marked, so a mark might be missed. It never is, because what one match
has read cannot begin another one:

* Behind a lower-case letter or a digit, the first pass has read a capital, which is neither.
* Behind two capitals, the second pass has read a lower-case letter, and it needs a capital to begin.
* The first pass marks nothing behind a capital, so it does not come between the three characters that
  the second pass looks for.

So the two passes mark what a single pass over the name itself would mark
(`cutAcronym_cutBeforeCapital`), and the words are those of a single scan (`words_eq_scan`). No letter
or digit is lost on the way (`flatten_words`).
-/

namespace SharpClient.Naming

/-! ### The scan -/

/-- Whether a word ends between the neighbours `a` and `b` when `rest` follows: `b` is a capital, and
either `a` is a lower-case letter or a digit, or `a` is a capital too and a lower-case letter comes
behind `b`. -/
def cutsBetween (a b : Char) (rest : Text) : Bool :=
  (a.isLower || a.isDigit) && b.isUpper || a.isUpper && b.isUpper && rest.head?.any Char.isLower

/-- The word that ends here, unless there is none. -/
def finished (word : Text) : List Text :=
  if word.isEmpty then [] else [word]

/-- The words met from left to right, when `word` is what has been read of the current one. -/
def scan (word : Text) : Text → List Text
  | [] => finished word
  | c :: cs =>
    if !c.isAlphanum then finished word ++ scan [] cs
    else if word.getLast?.any (cutsBetween · c cs) then finished word ++ scan [c] cs
    else scan (word ++ [c]) cs

/-! ### Kinds of characters -/

theorem isUpper_iff {c : Char} : c.isUpper ↔ 65 ≤ c.toNat ∧ c.toNat ≤ 90 :=
  decide_eq_true_iff

theorem isLower_iff {c : Char} : c.isLower ↔ 97 ≤ c.toNat ∧ c.toNat ≤ 122 :=
  Bool.and_eq_true_iff.trans (and_congr decide_eq_true_iff decide_eq_true_iff)

theorem isDigit_iff {c : Char} : c.isDigit ↔ 48 ≤ c.toNat ∧ c.toNat ≤ 57 :=
  Bool.and_eq_true_iff.trans (and_congr decide_eq_true_iff decide_eq_true_iff)

theorem isAlpha_iff {c : Char} : c.isAlpha ↔ c.isUpper ∨ c.isLower :=
  Bool.or_eq_true_iff

theorem isAlpha_of_isUpper {c : Char} (h : c.isUpper) : c.isAlpha :=
  isAlpha_iff.mpr (.inl h)

theorem isAlphanum_of_isAlpha {c : Char} (h : c.isAlpha) : c.isAlphanum := by
  rw [Char.isAlphanum, h, Bool.true_or]

theorem not_isDigit_of_isAlpha {c : Char} (h : c.isAlpha) : ¬ c.isDigit := by
  rw [isAlpha_iff, isUpper_iff, isLower_iff] at h
  rw [isDigit_iff]
  omega

theorem not_isLower_of_isUpper {c : Char} (h : c.isUpper) : ¬ c.isLower := by
  rw [isUpper_iff] at h
  rw [isLower_iff]
  omega

/-- A capital is neither a lower-case letter nor a digit. -/
theorem not_isLower_or_isDigit_of_isUpper {c : Char} (h : c.isUpper) :
    ¬ (c.isLower || c.isDigit) := by
  rw [Bool.or_eq_true]
  rintro (hlower | hdigit)
  · exact not_isLower_of_isUpper h hlower
  · exact not_isDigit_of_isAlpha (isAlpha_of_isUpper h) hdigit

/-- Only capitals begin a word that follows another one without a break. -/
theorem isUpper_of_cutsBetween {a b : Char} {rest : Text} (h : cutsBetween a b rest) :
    b.isUpper := by
  simp only [cutsBetween, Bool.or_eq_true, Bool.and_eq_true] at h
  rcases h with ⟨-, hb⟩ | ⟨⟨-, hb⟩, -⟩
  · exact hb
  · exact hb

theorem isAlphanum_of_cutsBetween {a b : Char} {rest : Text} (h : cutsBetween a b rest) :
    a.isAlphanum := by
  simp only [cutsBetween, Bool.or_eq_true, Bool.and_eq_true] at h
  rcases h with ⟨ha, -⟩ | ⟨⟨ha, -⟩, -⟩
  · rw [Char.isAlphanum, Bool.or_eq_true, isAlpha_iff]
    exact ha.imp_left .inr
  · exact isAlphanum_of_isAlpha (isAlpha_of_isUpper ha)

/-! ### The two passes as one -/

/-- The text with a space wherever a word ends between two neighbours. -/
def marked : Text → Text
  | a :: b :: rest => a :: ((if cutsBetween a b rest then [' '] else []) ++ marked (b :: rest))
  | t => t

/-- The first pass marks nothing behind a capital. -/
theorem cutBeforeCapital_of_isUpper {a : Char} (ha : a.isUpper) (t : Text) :
    cutBeforeCapital (a :: t) = a :: cutBeforeCapital t := by
  cases t with
  | nil => rfl
  | cons b rest =>
    have hnone : ¬ ((a.isLower || a.isDigit) && b.isUpper) := by
      rw [Bool.and_eq_true]
      exact fun h => not_isLower_or_isDigit_of_isUpper ha h.1
    rw [cutBeforeCapital, if_neg hnone]

/-- The first pass misses no mark: the capital that it has read begins no other match. -/
theorem cutBeforeCapital_cons_cons (a b : Char) (rest : Text) :
    cutBeforeCapital (a :: b :: rest) =
      a :: ((if (a.isLower || a.isDigit) && b.isUpper then [' '] else []) ++
        cutBeforeCapital (b :: rest)) := by
  rw [cutBeforeCapital]
  split
  case isTrue h =>
    rw [Bool.and_eq_true] at h
    rw [cutBeforeCapital_of_isUpper h.2]
    rfl
  case isFalse => rfl

theorem head?_cutBeforeCapital (t : Text) : (cutBeforeCapital t).head? = t.head? := by
  match t with
  | [] | [_] => rfl
  | a :: b :: rest => rw [cutBeforeCapital_cons_cons, List.head?_cons, List.head?_cons]

/-- The second pass marks nothing between two characters that are not both capitals. -/
theorem cutAcronym_of_not_isUpper {a b : Char} (h : ¬ (a.isUpper && b.isUpper)) (rest : Text) :
    cutAcronym (a :: b :: rest) = a :: cutAcronym (b :: rest) := by
  cases rest with
  | nil => rfl
  | cons c cs =>
    have hnone : ¬ (a.isUpper && b.isUpper && c.isLower) := by
      rw [Bool.and_eq_true]
      exact fun hall => h hall.1
    rw [cutAcronym, if_neg hnone]

theorem cutAcronym_cons_of_not_isUpper {a : Char} (ha : ¬ a.isUpper) (t : Text) :
    cutAcronym (a :: t) = a :: cutAcronym t := by
  cases t with
  | nil => rfl
  | cons b rest => exact cutAcronym_of_not_isUpper (by simp [ha]) rest

/-- The second pass misses no mark: the lower-case letter that it has read begins no other match. -/
theorem cutAcronym_cons_cons (a b : Char) (rest : Text) :
    cutAcronym (a :: b :: rest) =
      a :: ((if a.isUpper && b.isUpper && rest.head?.any Char.isLower then [' '] else []) ++
        cutAcronym (b :: rest)) := by
  cases rest with
  | nil => simp [cutAcronym]
  | cons c cs =>
    rw [cutAcronym, List.head?_cons, Option.any_some]
    split
    case isTrue h =>
      rw [Bool.and_eq_true] at h
      have hc : ¬ c.isUpper := fun hc => not_isLower_of_isUpper hc h.2
      rw [cutAcronym_of_not_isUpper (by simp [hc]), cutAcronym_cons_of_not_isUpper hc]
      rfl
    case isFalse => rfl

/-- The two passes mark what one pass over the text itself would mark. -/
theorem cutAcronym_cutBeforeCapital (t : Text) : cutAcronym (cutBeforeCapital t) = marked t := by
  induction t with
  | nil => rfl
  | cons a t ih =>
    cases t with
    | nil => rfl
    | cons b rest =>
      rw [cutBeforeCapital_cons_cons, marked, ← ih]
      by_cases hcapital : (a.isLower || a.isDigit) && b.isUpper
      · -- A space comes behind `a`, and the second pass leaves both alone.
        have ha : ¬ a.isUpper := fun ha =>
          not_isLower_or_isDigit_of_isUpper ha (Bool.and_eq_true_iff.mp hcapital).1
        have hcut : cutsBetween a b rest := by rw [cutsBetween, hcapital, Bool.true_or]
        rw [if_pos hcapital, if_pos hcut, List.singleton_append, List.singleton_append,
          cutAcronym_cons_of_not_isUpper ha, cutAcronym_cons_of_not_isUpper (by decide)]
      · -- `b` follows `a` in the marked text. If both are capitals, so does what follows `b`.
        rw [if_neg hcapital, List.nil_append]
        by_cases hb : b.isUpper
        · have hcut : cutsBetween a b rest =
              (a.isUpper && b.isUpper && rest.head?.any Char.isLower) := by
            rw [cutsBetween, Bool.eq_false_iff.mpr hcapital, Bool.false_or]
          rw [cutBeforeCapital_of_isUpper hb, cutAcronym_cons_cons, head?_cutBeforeCapital, hcut]
        · have hcut : ¬ cutsBetween a b rest := fun h => hb (isUpper_of_cutsBetween h)
          obtain ⟨u, hu⟩ : ∃ u, cutBeforeCapital (b :: rest) = b :: u :=
            ⟨_, List.eq_cons_of_mem_head? (head?_cutBeforeCapital (b :: rest))⟩
          rw [if_neg hcut, List.nil_append, hu, cutAcronym_of_not_isUpper (by simp [hb])]

/-! ### Runs of letters and digits -/

theorem pieces_eq_splitOnP (t : Text) : pieces t = t.splitOnP (!·.isAlphanum) := by
  induction t with
  | nil => rfl
  | cons c cs ih =>
    obtain ⟨p, ps, hcs⟩ := List.exists_cons_of_ne_nil (List.splitOnP_ne_nil (!·.isAlphanum) cs)
    rw [List.splitOnP_cons_eq_if_modifyHead, pieces, ih, hcs]
    by_cases hc : c.isAlphanum <;> simp [hc]

/-- The maximal runs of letters and digits in a text. -/
def runs (t : Text) : List Text :=
  (pieces t).filter (!·.isEmpty)

theorem words_eq_runs (name : Text) : words name = runs (marked name) := by
  rw [words, cutAcronym_cutBeforeCapital, runs]

/-- A run ends at every other character. -/
theorem runs_append_cons (s : Text) {c : Char} (hc : ¬ c.isAlphanum) (t : Text) :
    runs (s ++ c :: t) = runs s ++ runs t := by
  have hbreak : (!c.isAlphanum) = true := by simpa using hc
  simp only [runs, pieces_eq_splitOnP]
  rw [List.splitOnP_append_cons s t hbreak, List.filter_append]

theorem runs_of_all {word : Text} (h : word.all Char.isAlphanum) : runs word = finished word := by
  have hone : pieces word = [word] := by
    rw [pieces_eq_splitOnP]
    exact List.splitOnP_eq_singleton fun c hc => by simpa using List.all_eq_true.mp h c hc
  rw [runs, hone, finished]
  by_cases hword : word.isEmpty <;> simp [hword]

/-- Every letter and digit of a text is in one of its runs, and nothing else is. -/
theorem flatten_runs (t : Text) : (runs t).flatten = t.filter Char.isAlphanum := by
  rw [runs, List.flatten_filter_not_isEmpty]
  induction t with
  | nil => rfl
  | cons c cs ih =>
    rw [pieces]
    by_cases hc : c.isAlphanum
    · rw [if_pos hc, List.filter_cons_of_pos hc, ← ih]
      cases pieces cs <;> rfl
    · rw [if_neg hc, List.filter_cons_of_neg hc, ← ih]
      rfl

/-! ### Words -/

/-- Behind any other character than a letter or a digit nothing is marked. -/
theorem marked_of_not_isAlphanum {c : Char} (hc : ¬ c.isAlphanum) (t : Text) :
    marked (c :: t) = c :: marked t := by
  cases t with
  | nil => rfl
  | cons b rest =>
    rw [marked, if_neg fun h => hc (isAlphanum_of_cutsBetween h), List.nil_append]

theorem filter_marked (t : Text) : (marked t).filter Char.isAlphanum = t.filter Char.isAlphanum := by
  fun_induction marked t with
  | case1 a b rest ih =>
    have hspace : ((if cutsBetween a b rest then [' '] else []).filter Char.isAlphanum) = [] := by
      split <;> rfl
    rw [List.filter_cons, List.filter_append, hspace, List.nil_append, ih, ← List.filter_cons]
  | case2 => rfl

/-- The words of a name hold all its letters and digits, in order, and nothing else. -/
theorem flatten_words (name : Text) : (words name).flatten = name.filter Char.isAlphanum := by
  rw [words_eq_runs, flatten_runs, filter_marked]

theorem ne_nil_of_mem_words {name w : Text} (h : w ∈ words name) : w ≠ [] := by
  have hne := (List.mem_filter.mp h).2
  simpa using hne

/-- The scan finds the runs of the marked text. What it has read of a word stands in front of the text,
and the last character of it decides about the first mark. -/
theorem scan_eq_runs (t : Text) :
    scan [] t = runs (marked t) ∧
      ∀ (w : Text) (a : Char), (w ++ [a]).all Char.isAlphanum →
        scan (w ++ [a]) t = runs (w ++ marked (a :: t)) := by
  induction t with
  | nil => exact ⟨rfl, fun w a h => (runs_of_all h).symm⟩
  | cons c cs ih =>
    obtain ⟨ihnone, ihword⟩ := ih
    by_cases hc : c.isAlphanum
    · have hfirst : scan [c] cs = runs (marked (c :: cs)) := ihword [] c (by simpa using hc)
      refine ⟨by simpa [scan, hc] using hfirst, fun w a h => ?_⟩
      rw [scan, if_neg (by simpa using hc), List.getLast?_concat, Option.any_some, marked]
      by_cases hcut : cutsBetween a c cs
      · have hspace : runs (w ++ [a] ++ ' ' :: marked (c :: cs)) =
            runs (w ++ [a]) ++ runs (marked (c :: cs)) := runs_append_cons _ (by decide) _
        rw [if_pos hcut, if_pos hcut, hfirst, ← runs_of_all h, ← hspace, List.append_assoc]
        rfl
      · have hlonger : (w ++ [a] ++ [c]).all Char.isAlphanum := by
          rw [List.all_append, h, List.all_cons, hc]
          rfl
        rw [if_neg hcut, if_neg hcut, ihword (w ++ [a]) c hlonger, List.nil_append, ← List.append_cons]
    · have hmarked : marked (c :: cs) = c :: marked cs := marked_of_not_isAlphanum hc cs
      have hbreak (word : Text) : scan word (c :: cs) = finished word ++ runs (marked cs) := by
        rw [scan, if_pos (by simpa using hc), ihnone]
      refine ⟨?_, fun w a h => ?_⟩
      · rw [hbreak, hmarked]
        exact (runs_append_cons [] hc (marked cs)).symm
      · have hcut : ¬ cutsBetween a c cs := fun hcut =>
          hc (isAlphanum_of_isAlpha (isAlpha_of_isUpper (isUpper_of_cutsBetween hcut)))
        rw [hbreak, ← runs_of_all h, ← runs_append_cons _ hc, marked, if_neg hcut, hmarked,
          List.append_assoc]
        rfl

/-- **The words of a name are those of one scan.** -/
theorem words_eq_scan (name : Text) : words name = scan [] name := by
  rw [words_eq_runs, (scan_eq_runs name).1]

example : words "getHTTPResponse2XXCode_v2" =
    ["get", "HTTP", "Response2", "XX", "Code", "v2"].map String.toList := by
  decide

end SharpClient.Naming

import SharpClient.Files.Path

/-!
# Paths of places

Going down from a path, name by name, gives the path of a place below it. Since names hold no slash,
the names can be read off again: different places have different paths (`below_injective`). For the
same reason a path ends as its last name does (`suffix_baseName_iff`).
-/

namespace SharpClient.Path

/-! ### Components -/

theorem split_ne_nil (t : Text) : split t ≠ [] := by
  fun_cases split t <;> simp

theorem split_of_not_mem {t : Text} (h : '/' ∉ t) : split t = [t] := by
  induction t with
  | nil => rfl
  | cons c cs ih =>
    rw [List.mem_cons, not_or] at h
    rw [split, if_neg (Ne.symm h.1), ih h.2]

/-- A slash keeps apart what stands on its two sides. -/
theorem split_append_slash (a b : Text) : split (a ++ '/' :: b) = split a ++ split b := by
  induction a with
  | nil => rfl
  | cons c cs ih =>
    by_cases hc : c = '/'
    · rw [List.cons_append, split, if_pos hc, ih, split, if_pos hc, List.cons_append]
    · obtain ⟨part, parts, hcs⟩ := List.exists_cons_of_ne_nil (split_ne_nil cs)
      rw [List.cons_append, split, if_neg hc, ih, split, if_neg hc, hcs]
      rfl

/-- Names without slashes are the components of what they are joined to. -/
theorem split_join {names : List Text} (hne : names ≠ []) (h : ∀ n ∈ names, '/' ∉ n) :
    split (Text.join "/" names) = names := by
  induction names with
  | nil => exact absurd rfl hne
  | cons n ns ih =>
    obtain ⟨hn, hns⟩ := List.forall_mem_cons.mp h
    cases ns with
    | nil => rw [Text.join, List.intercalate_singleton, split_of_not_mem hn]
    | cons m ms =>
      have hjoin : Text.join "/" (n :: m :: ms) = n ++ '/' :: Text.join "/" (m :: ms) := by
        rw [Text.join, List.intercalate_cons_cons, List.append_assoc]
        rfl
      rw [hjoin, split_append_slash, split_of_not_mem hn, ih (by simp) hns]
      rfl

/-! ### The last component -/

theorem baseName_of_not_mem {t : Text} (h : '/' ∉ t) : baseName t = t := by
  rw [baseName, split_of_not_mem h]
  rfl

theorem baseName_append_slash (a b : Text) : baseName (a ++ '/' :: b) = baseName b := by
  obtain ⟨part, parts, hb⟩ := List.exists_cons_of_ne_nil (split_ne_nil b)
  rw [baseName, split_append_slash, baseName, hb, List.getLastD_eq_getLast?,
    List.getLastD_eq_getLast?, List.getLast?_append, List.getLast?_cons, Option.some_or]

/-- A text without slashes that ends a path lies within its last component. -/
theorem suffix_of_suffix_append_slash {ending a b : Text} (h : '/' ∉ ending)
    (hsuffix : ending <:+ a ++ '/' :: b) : ending <:+ b := by
  have hb : b <:+ a ++ '/' :: b := ⟨a ++ ['/'], by simp⟩
  have hslash : '/' :: b <:+ a ++ '/' :: b := List.suffix_append a _
  by_cases hlength : ending.length ≤ b.length
  · exact List.suffix_of_suffix_length_le hsuffix hb hlength
  · have hcover : '/' :: b <:+ ending :=
      List.suffix_of_suffix_length_le hslash hsuffix (Nat.lt_of_not_le hlength)
    exact absurd (hcover.subset (by simp)) h

theorem suffix_baseName_iff {ending : Text} (h : '/' ∉ ending) (path : Text) :
    ending <:+ baseName path ↔ ending <:+ path := by
  by_cases hmem : '/' ∈ path
  · -- The last slash of the path is the first one from behind.
    obtain ⟨b, a, hpath, hb⟩ := List.eq_append_cons_of_mem (List.mem_reverse.mpr hmem)
    have hpath : path = a.reverse ++ '/' :: b.reverse := by
      rw [← List.reverse_reverse path, hpath]
      simp
    have hb : '/' ∉ b.reverse := fun hmem => hb (List.mem_reverse.mp hmem)
    rw [hpath, baseName_append_slash, baseName_of_not_mem hb]
    refine ⟨fun hsuffix => hsuffix.trans ?_, suffix_of_suffix_append_slash h⟩
    exact ⟨a.reverse ++ ['/'], by simp⟩
  · rw [baseName_of_not_mem hmem]

/-! ### Going down -/

/-- A name that a directory may list. -/
def IsEntryName (name : Text) : Prop :=
  name ≠ [] ∧ '/' ∉ name

instance (name : Text) : Decidable (IsEntryName name) :=
  inferInstanceAs (Decidable (name ≠ [] ∧ '/' ∉ name))

/-- The path of a place below a path. -/
def below (path : Text) (place : List Text) : Text :=
  place.foldl child path

/-- What the paths of a directory's entries begin with. -/
def folder (directory : Text) : Text :=
  if directory.isEmpty || Text.endsWith directory "/" then directory else directory ++ "/"

theorem child_eq (directory name : Text) : child directory name = folder directory ++ name := by
  rw [child, folder]
  split <;> rfl

theorem length_le_child (directory name : Text) :
    directory.length + name.length ≤ (child directory name).length := by
  rw [child]
  split
  · exact Nat.le_of_eq List.length_append.symm
  · rw [List.length_append, List.length_append]
    omega

theorem length_le_below (path : Text) (place : List Text) :
    path.length ≤ (below path place).length := by
  induction place generalizing path with
  | nil => exact Nat.le_refl _
  | cons name rest ih =>
    have hchild := length_le_child path name
    have hrest : (child path name).length ≤ (below path (name :: rest)).length := ih _
    omega

/-- A slash is put behind a name before the next one. -/
theorem folder_child {name : Text} (h : IsEntryName name) (directory : Text) :
    folder (child directory name) = child directory name ++ "/" := by
  obtain ⟨hne, hslash⟩ := h
  have hend : ¬ ("/".toList <:+ folder directory ++ name) := by
    intro hsuffix
    have hlength : "/".toList.length ≤ name.length := List.length_pos_iff.mpr hne
    have hname := List.suffix_of_suffix_length_le hsuffix (List.suffix_append _ _) hlength
    exact hslash (hname.subset (by simp))
  have htest : ¬ ((child directory name).isEmpty ||
      Text.endsWith (child directory name) "/") = true := by
    rw [child_eq, Text.endsWith, Bool.or_eq_true, List.isSuffixOf_iff_suffix, not_or]
    exact ⟨by simp [hne], hend⟩
  rw [folder, if_neg htest]

theorem below_cons {name : Text} {rest : List Text} (h : ∀ n ∈ name :: rest, IsEntryName n)
    (path : Text) : below path (name :: rest) = folder path ++ Text.join "/" (name :: rest) := by
  induction rest generalizing path name with
  | nil =>
    rw [Text.join, List.intercalate_singleton, ← child_eq]
    rfl
  | cons next rest ih =>
    obtain ⟨hname, hrest⟩ := List.forall_mem_cons.mp h
    calc below path (name :: next :: rest)
        = below (child path name) (next :: rest) := rfl
      _ = folder (child path name) ++ Text.join "/" (next :: rest) := ih hrest _
      _ = folder path ++ Text.join "/" (name :: next :: rest) := by
        rw [folder_child hname, child_eq, Text.join, Text.join, List.intercalate_cons_cons]
        simp only [List.append_assoc]

/-- A place other than that of the path itself has a longer path. -/
theorem below_cons_ne {name : Text} (h : IsEntryName name) (path : Text) (rest : List Text) :
    below path (name :: rest) ≠ path := by
  intro heq
  have hname : 0 < name.length := List.length_pos_iff.mpr h.1
  have hchild := length_le_child path name
  have hrest : (child path name).length ≤ (below path (name :: rest)).length :=
    length_le_below _ rest
  rw [heq] at hrest
  omega

/-- Different places have different paths. -/
theorem below_injective {path : Text} {place place' : List Text}
    (h : ∀ n ∈ place, IsEntryName n) (h' : ∀ n ∈ place', IsEntryName n)
    (heq : below path place = below path place') : place = place' := by
  cases place with
  | nil =>
    cases place' with
    | nil => rfl
    | cons name' rest' => exact absurd heq.symm (below_cons_ne (h' name' (by simp)) path rest')
  | cons name rest =>
    cases place' with
    | nil => exact absurd heq (below_cons_ne (h name (by simp)) path rest)
    | cons name' rest' =>
      rw [below_cons h, below_cons h'] at heq
      have hjoin := congrArg split (List.append_cancel_left heq)
      rwa [split_join (by simp) fun n hn => (h n hn).2,
        split_join (by simp) fun n hn => (h' n hn).2] at hjoin

end SharpClient.Path

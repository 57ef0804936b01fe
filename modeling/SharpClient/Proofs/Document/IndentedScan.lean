import SharpClient.Document.Lexer
import SharpClient.Proofs.Document.BlockString
import SharpClient.Proofs.Text.Margin

/-!
# The scan of an indented document

A document may be moved right without a change to its lexemes. A line feed inside a lexeme occurs
in block strings only, whose values do not notice the margin; everywhere else the margin is ignored
together with the line feed in front of it. `Indented n t t'` says that `t'` is `t` with a margin
of `n` spaces, and each reader of the scan is shown to give the same on both (`SameReading`).

Carriage returns are excluded: they end the lines of a block string but take no margin.
-/

namespace SharpClient

/-- The second text is the first one with `n` spaces behind each line feed; an empty line may stay
empty. There is no carriage return in the first text. -/
inductive Indented (n : Nat) : Text → Text → Prop
  | nil : Indented n [] []
  | char {c : Char} {t t' : Text} (hc : c ≠ '\n') (hr : c ≠ '\r') (h : Indented n t t') :
    Indented n (c :: t) (c :: t')
  | line {t t' : Text} (h : Indented n t t') :
    Indented n ('\n' :: t) ('\n' :: (Text.spaces n ++ t'))
  | emptyLine {t t' : Text} (h : Indented n ('\n' :: t) ('\n' :: t')) :
    Indented n ('\n' :: '\n' :: t) ('\n' :: '\n' :: t')

theorem indented_shift (n : Nat) {t : Text} (hr : '\r' ∉ t) :
    Indented n t (Text.shift (Text.spaces n) t) := by
  induction t with
  | nil => exact .nil
  | cons c cs ih =>
    rw [List.mem_cons, not_or] at hr
    specialize ih hr.2
    by_cases hc : c = '\n'
    · subst hc
      by_cases hcs : cs.head? = some '\n'
      · rw [Text.shift_newline_of_empty hcs]
        obtain ⟨ds, rfl⟩ := List.head?_eq_some_iff.1 hcs
        rw [Text.shift] at ih ⊢
        exact .emptyLine ih
      · rw [Text.shift_newline hcs]
        exact .line ih
    · rw [Text.shift_cons_of_ne hc]
      exact .char hc (Ne.symm hr.1) ih

namespace Indented

variable {n : Nat} {t t' : Text}

theorem cons_left {c : Char} {u : Text} (h : Indented n (c :: u) t') (hc : c ≠ '\n') :
    ∃ u', t' = c :: u' ∧ Indented n u u' := by
  cases h with
  | char _ _ h => exact ⟨_, rfl, h⟩
  | line => exact absurd rfl hc
  | emptyLine => exact absurd rfl hc

theorem cons_right {c : Char} {u' : Text} (h : Indented n t (c :: u')) (hc : c ≠ '\n') :
    ∃ u, t = c :: u ∧ Indented n u u' := by
  cases h with
  | char _ _ h => exact ⟨_, rfl, h⟩
  | line => exact absurd rfl hc
  | emptyLine => exact absurd rfl hc

theorem head?_eq (h : Indented n t t') : t'.head? = t.head? := by
  cases h <;> rfl

/-- Either both texts begin with the character `c`, or neither does. -/
theorem begins_or (h : Indented n t t') {c : Char} (hc : c ≠ '\n') :
    (∃ u u', t = c :: u ∧ t' = c :: u' ∧ Indented n u u') ∨
      t.head? ≠ some c ∧ t'.head? ≠ some c := by
  by_cases hhead : t.head? = some c
  · obtain ⟨u, rfl⟩ := List.head?_eq_some_iff.1 hhead
    obtain ⟨u', rfl, hu⟩ := h.cons_left hc
    exact .inl ⟨u, u', rfl, rfl, hu⟩
  · exact .inr ⟨hhead, by rwa [h.head?_eq]⟩

/-- A run of characters without a line feed is the same in both texts, and so is what follows. -/
theorem takeWhile_dropWhile (h : Indented n t t') {p : Char → Bool} (hp : p '\n' = false) :
    t'.takeWhile p = t.takeWhile p ∧ Indented n (t.dropWhile p) (t'.dropWhile p) := by
  induction h with
  | nil => exact ⟨rfl, .nil⟩
  | @char c t t' hc hr h ih =>
    by_cases hpc : p c = true
    · rw [List.takeWhile_cons_of_pos hpc, List.takeWhile_cons_of_pos hpc,
        List.dropWhile_cons_of_pos hpc, List.dropWhile_cons_of_pos hpc]
      exact ⟨congrArg (c :: ·) ih.1, ih.2⟩
    · rw [List.takeWhile_cons_of_neg hpc, List.takeWhile_cons_of_neg hpc,
        List.dropWhile_cons_of_neg hpc, List.dropWhile_cons_of_neg hpc]
      exact ⟨rfl, .char hc hr h⟩
  | line h _ =>
    simp only [List.takeWhile, List.dropWhile, hp, true_and]
    exact .line h
  | emptyLine h _ =>
    simp only [List.takeWhile, List.dropWhile, hp, true_and]
    exact .emptyLine h

/-- Among the first `k` characters either both texts have a line feed, or they have the same
characters. -/
theorem take_drop (h : Indented n t t') (k : Nat) :
    t'.take k = t.take k ∧ Indented n (t.drop k) (t'.drop k) ∨
      '\n' ∈ t.take k ∧ '\n' ∈ t'.take k := by
  induction k generalizing t t' with
  | zero => exact .inl ⟨rfl, h⟩
  | succ k ih =>
    cases h with
    | nil => exact .inl ⟨rfl, .nil⟩
    | @char c _ _ _ _ h =>
      obtain ⟨htake, hdrop⟩ | ⟨hmem, hmem'⟩ := ih h
      · exact .inl ⟨congrArg (c :: ·) htake, hdrop⟩
      · exact .inr ⟨List.mem_cons_of_mem _ hmem, List.mem_cons_of_mem _ hmem'⟩
    | line => exact .inr ⟨List.mem_cons_self, List.mem_cons_self⟩
    | emptyLine => exact .inr ⟨List.mem_cons_self, List.mem_cons_self⟩

/-- A word without a line feed begins both texts or neither, and is followed by the same. -/
theorem take_eq_iff (h : Indented n t t') {w : Text} (hw : '\n' ∉ w) (k : Nat) :
    (t'.take k = w ↔ t.take k = w) ∧ (t.take k = w → Indented n (t.drop k) (t'.drop k)) := by
  obtain ⟨htake, hdrop⟩ | ⟨hmem, hmem'⟩ := h.take_drop k
  · rw [htake]
    exact ⟨Iff.rfl, fun _ => hdrop⟩
  · have hne : t.take k ≠ w := fun heq => hw (heq ▸ hmem)
    have hne' : t'.take k ≠ w := fun heq => hw (heq ▸ hmem')
    exact ⟨⟨fun heq => absurd heq hne', fun heq => absurd heq hne⟩, fun heq => absurd heq hne⟩

end Indented

/-! ### Readers -/

/-- Two readings give the same and leave a text and its indented form, or both fail. -/
inductive SameReading (n : Nat) {α : Type} :
    Except LexicalFault (α × Text) → Except LexicalFault (α × Text) → Prop
  | ok {x : α} {r r' : Text} (h : Indented n r r') : SameReading n (.ok (x, r)) (.ok (x, r'))
  | error {e e' : LexicalFault} : SameReading n (.error e) (.error e')

namespace SameReading

variable {n : Nat} {α β : Type}

theorem bind {x x' : Except LexicalFault (α × Text)}
    {f f' : α × Text → Except LexicalFault (β × Text)} (h : SameReading n x x')
    (hf : ∀ a r r', Indented n r r' → SameReading n (f (a, r)) (f' (a, r'))) :
    SameReading n (x >>= f) (x' >>= f') := by
  cases h with
  | ok h => exact hf _ _ _ h
  | error => exact .error

theorem map {x x' : Except LexicalFault (α × Text)} (h : SameReading n x x') (f : α → β) :
    SameReading n (x.map fun p => (f p.1, p.2)) (x'.map fun p => (f p.1, p.2)) := by
  cases h with
  | ok h => exact .ok h
  | error => exact .error

end SameReading

namespace Lexeme

variable {n : Nat} {t t' : Text}

/-! ### Names and numbers -/

theorem sameReading_readDigits (h : Indented n t t') :
    SameReading n (readDigits t) (readDigits t') := by
  obtain ⟨htake, hdrop⟩ := h.takeWhile_dropWhile (p := Char.isDigit) (by decide)
  rw [readDigits, readDigits, htake]
  split
  · exact .error
  · exact .ok hdrop

theorem readSign_of_head? (h : t.head? ≠ some '-') : readSign t = ([], t) := by
  unfold readSign
  split
  · simp at h
  · rfl

theorem readSign_indented (h : Indented n t t') :
    ∃ sign r r', readSign t = (sign, r) ∧ readSign t' = (sign, r') ∧ Indented n r r' := by
  obtain ⟨u, u', rfl, rfl, hu⟩ | ⟨hne, hne'⟩ := h.begins_or (c := '-') (by decide)
  · exact ⟨_, u, u', rfl, rfl, hu⟩
  · exact ⟨[], t, t', readSign_of_head? hne, readSign_of_head? hne', h⟩

theorem readWhole_of_head? (h : t.head? ≠ some '0') : readWhole t = readDigits t := by
  unfold readWhole
  split
  · simp at h
  · rfl

theorem sameReading_readWhole (h : Indented n t t') :
    SameReading n (readWhole t) (readWhole t') := by
  obtain ⟨u, u', rfl, rfl, hu⟩ | ⟨hne, hne'⟩ := h.begins_or (c := '0') (by decide)
  · obtain ⟨htake, -⟩ := hu.takeWhile_dropWhile (p := Char.isDigit) (by decide)
    rw [readWhole, readWhole, htake]
    split
    · exact .ok hu
    · exact .error
  · rw [readWhole_of_head? hne, readWhole_of_head? hne']
    exact sameReading_readDigits h

theorem readFraction_of_head? (h : t.head? ≠ some '.') : readFraction t = .ok ([], t) := by
  unfold readFraction
  split
  · simp at h
  · rfl

theorem sameReading_readFraction (h : Indented n t t') :
    SameReading n (readFraction t) (readFraction t') := by
  obtain ⟨u, u', rfl, rfl, hu⟩ | ⟨hne, hne'⟩ := h.begins_or (c := '.') (by decide)
  · exact (sameReading_readDigits hu).map ('.' :: ·)
  · rw [readFraction_of_head? hne, readFraction_of_head? hne']
    exact .ok h

theorem readExponentSign_of_head? (hp : t.head? ≠ some '+') (hm : t.head? ≠ some '-') :
    readExponentSign t = ([], t) := by
  unfold readExponentSign
  split
  · simp at hp
  · simp at hm
  · rfl

theorem readExponentSign_indented (h : Indented n t t') :
    ∃ sign r r', readExponentSign t = (sign, r) ∧ readExponentSign t' = (sign, r') ∧
      Indented n r r' := by
  obtain ⟨u, u', rfl, rfl, hu⟩ | ⟨hp, hp'⟩ := h.begins_or (c := '+') (by decide)
  · exact ⟨_, u, u', rfl, rfl, hu⟩
  · obtain ⟨u, u', rfl, rfl, hu⟩ | ⟨hm, hm'⟩ := h.begins_or (c := '-') (by decide)
    · exact ⟨_, u, u', rfl, rfl, hu⟩
    · exact ⟨[], t, t', readExponentSign_of_head? hp hm, readExponentSign_of_head? hp' hm', h⟩

theorem sameReading_readExponent (h : Indented n t t') :
    SameReading n (readExponent t) (readExponent t') := by
  cases h with
  | nil => exact .ok .nil
  | @char c u u' hc hr hu =>
    obtain ⟨sign, r, r', hs, hs', hrr⟩ := readExponentSign_indented hu
    rw [readExponent, readExponent, hs, hs']
    split
    · exact (sameReading_readDigits hrr).map (c :: sign ++ ·)
    · exact .ok (.char hc hr hu)
  | line h => exact .ok (.line h)
  | emptyLine h => exact .ok (.emptyLine h)

theorem extendsNumber_indented (h : Indented n t t') : extendsNumber t' = extendsNumber t := by
  cases h <;> rfl

theorem sameReading_readNumber (h : Indented n t t') :
    SameReading n (readNumber t) (readNumber t') := by
  obtain ⟨sign, t₁, t₁', hs, hs', h₁⟩ := readSign_indented h
  rw [readNumber, readNumber, hs, hs']
  refine (sameReading_readWhole h₁).bind fun whole t₂ t₂' h₂ => ?_
  refine (sameReading_readFraction h₂).bind fun fraction t₃ t₃' h₃ => ?_
  refine (sameReading_readExponent h₃).bind fun exponent t₄ t₄' h₄ => ?_
  simp only [extendsNumber_indented h₄]
  split
  · exact .error
  · split
    · exact .ok h₄
    · exact .ok h₄

/-! ### Escapes -/

theorem hexNumber?_of_newline {ds : Text} (h : '\n' ∈ ds) : Text.hexNumber? ds = none := by
  have hfold : ∀ (ds : Text) (k : Nat), '\n' ∈ ds →
      ds.foldlM (fun k c => (Text.hexValue? c).map (k * 16 + ·)) k = none := by
    intro ds
    induction ds with
    | nil => simp
    | cons d ds ih =>
      intro k hmem
      rw [List.foldlM_cons]
      obtain rfl | hmem := List.mem_cons.1 hmem
      · rfl
      · cases (Text.hexValue? d).map (k * 16 + ·) with
        | none => rfl
        | some k' => exact ih k' hmem
  exact hfold ds 0 h

theorem fourDigits?_of_newline (h : '\n' ∈ t.take 4) : fourDigits? t = none := by
  rw [fourDigits?, hexNumber?_of_newline h, ite_self]

/-- Four hexadecimal digits stand on one line. -/
theorem fourDigits?_indented (h : Indented n t t') :
    fourDigits? t' = fourDigits? t ∧
      ∀ k, fourDigits? t = some k → Indented n (t.drop 4) (t'.drop 4) := by
  obtain ⟨htake, hdrop⟩ | ⟨hmem, hmem'⟩ := h.take_drop 4
  · have hlen : t'.length < 4 ↔ t.length < 4 := by
      have := congrArg List.length htake
      simp only [List.length_take] at this
      omega
    refine ⟨?_, fun _ _ => hdrop⟩
    rw [fourDigits?, fourDigits?, htake]
    simp only [hlen]
  · rw [fourDigits?_of_newline hmem, fourDigits?_of_newline hmem']
    exact ⟨rfl, fun k hk => by cases hk⟩

theorem sameReading_readFixedEscape (h : Indented n t t') :
    SameReading n (readFixedEscape ('\\' :: 'u' :: t)) (readFixedEscape ('\\' :: 'u' :: t')) := by
  obtain ⟨hfour, hdrop⟩ := fourDigits?_indented h
  simp only [readFixedEscape, List.drop_succ_cons, List.drop_zero, hfour]
  cases hlead : fourDigits? t with
  | none => exact .error
  | some leading =>
    have h₄ := hdrop leading hlead
    obtain ⟨htwo, hdrop₂⟩ := h₄.take_eq_iff (w := "\\u") (by decide) 2
    simp only [beq_iff_eq, Bool.and_eq_true, htwo]
    split
    · exact .ok h₄
    · split
      · rename_i hpair
        have h₆ := hdrop₂ hpair.2
        rw [List.drop_drop, List.drop_drop] at h₆
        obtain ⟨hfour', hdrop₄⟩ := fourDigits?_indented h₆
        simp only [Nat.reduceAdd] at hfour' hdrop₄
        rw [hfour']
        cases htrail : fourDigits? (t.drop 6) with
        | none => exact .error
        | some trailing =>
          have h₁₀ := hdrop₄ trailing htrail
          rw [List.drop_drop, List.drop_drop] at h₁₀
          simp only
          split
          · exact .ok h₁₀
          · exact .error
      · exact .error

/-- What follows the hexadecimal digits of a braced escape. -/
theorem drop_hexRun (t : Text) :
    ('\\' :: 'u' :: '\x7b' :: t).drop (3 + (hexRun t).length) =
      t.dropWhile fun c => (Text.hexValue? c).isSome := by
  rw [← List.drop_drop]
  calc t.drop (hexRun t).length
      = (hexRun t ++ t.dropWhile fun c => (Text.hexValue? c).isSome).drop (hexRun t).length := by
        rw [hexRun, List.takeWhile_append_dropWhile]
    _ = t.dropWhile fun c => (Text.hexValue? c).isSome := List.drop_left

theorem sameReading_readBracedEscape (h : Indented n t t') :
    SameReading n (readBracedEscape ('\\' :: 'u' :: '\x7b' :: t))
      (readBracedEscape ('\\' :: 'u' :: '\x7b' :: t')) := by
  obtain ⟨htake, hdrop⟩ := h.takeWhile_dropWhile
    (p := fun c => (Text.hexValue? c).isSome) (by decide)
  have hrun : hexRun t' = hexRun t := htake
  have hrest := drop_hexRun t'
  rw [hrun] at hrest
  simp only [readBracedEscape, List.drop_succ_cons, List.drop_zero, hrun, hrest, drop_hexRun]
  cases Text.hexNumber? (hexRun t) with
  | none => exact .error
  | some point =>
    obtain ⟨u, u', hu, hu', huu⟩ | ⟨hne, hne'⟩ := hdrop.begins_or (c := '\x7d') (by decide)
    · simp only [hu, hu']
      split
      · exact .ok huu
      · exact .error
    · split
      · simp_all
      · split
        · simp_all
        · exact .error

theorem readEscape_fixed (h : t.head? ≠ some '\x7b') :
    readEscape ('\\' :: 'u' :: t) = readFixedEscape ('\\' :: 'u' :: t) := by
  cases t with
  | nil => rfl
  | cons c cs => simp_all [readEscape]

theorem readEscape_simple {c : Char} (hc : c ≠ 'u') (t : Text) :
    readEscape ('\\' :: c :: t) = match simpleEscape? c with
      | some d => .ok (d, t)
      | none => .error ⟨"Invalid character escape sequence: '" ++ ['\\', c] ++ "'.",
          '\\' :: c :: t⟩ := by
  unfold readEscape
  split
  · simp_all
  · simp_all
  · rename_i heq
    cases heq
    rfl
  · simp_all

theorem sameReading_readEscape (h : Indented n t t') :
    SameReading n (readEscape ('\\' :: t)) (readEscape ('\\' :: t')) := by
  cases h with
  | nil => exact .error
  | @char c u u' hc hr hu =>
    by_cases hcu : c = 'u'
    · subst hcu
      obtain ⟨v, v', rfl, rfl, hv⟩ | ⟨hne, hne'⟩ := hu.begins_or (c := '\x7b') (by decide)
      · exact sameReading_readBracedEscape hv
      · rw [readEscape_fixed hne, readEscape_fixed hne']
        exact sameReading_readFixedEscape hu
    · rw [readEscape_simple hcu, readEscape_simple hcu]
      cases simpleEscape? c with
      | none => exact .error
      | some d => exact .ok hu
  | line => exact .error
  | emptyLine => exact .error

/-! ### Strings -/

theorem readString_quote (t : Text) : readString ('"' :: t) = .ok ([], t) := by
  rw [readString, if_pos rfl]

theorem readString_escape (t : Text) :
    readString ('\\' :: t) = readEscape ('\\' :: t) >>= fun p =>
      (readString p.2).map fun q => (p.1 :: q.1, q.2) := by
  rw [readString, if_neg (by decide), if_pos rfl]
  split <;> rename_i heq <;> rw [heq] <;> rfl

theorem readString_newline (t : Text) :
    readString ('\n' :: t) = .error ⟨"Unterminated string.", '\n' :: t⟩ := by
  rw [readString, if_neg (by decide), if_neg (by decide), if_pos (by decide)]

theorem readString_char {c : Char} (hq : c ≠ '"') (hs : c ≠ '\\') (hb : ¬ (c = '\n' ∨ c = '\r'))
    (t : Text) :
    readString (c :: t) = (readString t).map fun q => (c :: q.1, q.2) := by
  rw [readString, if_neg hq, if_neg hs, if_neg hb]

theorem sameReading_readString (h : Indented n t t') :
    SameReading n (readString t) (readString t') := by
  fun_induction readString t generalizing t' with
  | case1 =>
    cases h
    rw [readString]
    exact .error
  | case2 cs =>
    obtain ⟨cs', rfl, hcs⟩ := h.cons_left (by decide)
    rw [readString_quote]
    exact .ok hcs
  | case3 cs fault _ hf =>
    obtain ⟨cs', rfl, hcs⟩ := h.cons_left (by decide)
    have hescape := sameReading_readEscape hcs
    rw [hf] at hescape
    rw [readString_escape]
    generalize readEscape ('\\' :: cs') = e at hescape ⊢
    cases hescape
    exact .error
  | case4 cs d r _ hr ih =>
    obtain ⟨cs', rfl, hcs⟩ := h.cons_left (by decide)
    have hescape := sameReading_readEscape hcs
    rw [hr] at hescape
    rw [readString_escape]
    generalize readEscape ('\\' :: cs') = e at hescape ⊢
    cases hescape with
    | ok hrr => exact (ih hrr).map (d :: ·)
  | case5 c cs hq hs hb =>
    cases h with
    | char hc hr => exact absurd hb (not_or.2 ⟨hc, hr⟩)
    | line =>
      rw [readString_newline]
      exact .error
    | emptyLine =>
      rw [readString_newline]
      exact .error
  | case6 c cs hq hs hb ih =>
    obtain ⟨cs', rfl, hcs⟩ := h.cons_left fun hc => hb (.inl hc)
    rw [readString_char hq hs hb]
    exact (ih hcs).map (c :: ·)

/-! ### Block strings -/

/-- Two readings of a block string give lines of which the further ones are moved, and leave a text
and its indented form, or both fail. -/
inductive SameLines (n : Nat) : Option (List Text × Text) → Option (List Text × Text) → Prop
  | some {first : Text} {rest rest' : List Text} {r r' : Text}
    (hlines : List.Forall₂ (BlockString.LineMoved n) rest rest') (h : Indented n r r') :
    SameLines n (some (first :: rest, r)) (some (first :: rest', r'))
  | none : SameLines n none none

/-- The first line with something in front of it. -/
def extendFirst (start : Text) (p : List Text × Text) : List Text × Text :=
  ((start ++ p.1.headD []) :: p.1.tail, p.2)

theorem SameLines.extendFirst {x x' : Option (List Text × Text)} (h : SameLines n x x')
    (start : Text) : SameLines n (x.map (extendFirst start)) (x'.map (extendFirst start)) := by
  cases h with
  | some hlines h => exact .some hlines h
  | none => exact .none

/-- A character that neither ends a line nor begins a triple quote. -/
def IsPlain (c : Char) (t : Text) : Prop :=
  c ≠ '\n' ∧ c ≠ '\r' ∧ (c = '"' → ∀ u, t ≠ '"' :: '"' :: u) ∧
    (c = '\\' → ∀ u, t ≠ '"' :: '"' :: '"' :: u)

theorem readBlockLines_plain {c : Char} (h : IsPlain c t) :
    readBlockLines (c :: t) = (readBlockLines t).map (extendFirst [c]) := by
  obtain ⟨hn, hr, hq, hs⟩ := h
  rw [readBlockLines]
  · rw [if_neg (not_or.2 ⟨hn, hr⟩)]
    rfl
  all_goals simp_all

theorem readBlockLines_newline (t : Text) :
    readBlockLines ('\n' :: t) = (readBlockLines t).map fun p => ([] :: p.1, p.2) := by
  rw [readBlockLines]
  · rfl
  all_goals simp

theorem isPlain_space (t : Text) : IsPlain ' ' t :=
  ⟨by decide, by decide, fun h => absurd h (by decide), fun h => absurd h (by decide)⟩

/-- Spaces in front of a block string's text stand in front of its first line. -/
theorem readBlockLines_spaces (n : Nat) {first r : Text} {rest : List Text}
    (h : readBlockLines t = some (first :: rest, r)) :
    readBlockLines (Text.spaces n ++ t) = some ((Text.spaces n ++ first) :: rest, r) := by
  induction n with
  | zero => exact h
  | succ n ih =>
    have hs : Text.spaces (n + 1) ++ t = ' ' :: (Text.spaces n ++ t) := rfl
    rw [hs, readBlockLines_plain (isPlain_space _), ih]
    rfl

theorem readBlockLines_spaces_eq_none (n : Nat) (h : readBlockLines t = none) :
    readBlockLines (Text.spaces n ++ t) = none := by
  induction n with
  | zero => exact h
  | succ n ih =>
    have hs : Text.spaces (n + 1) ++ t = ' ' :: (Text.spaces n ++ t) := rfl
    rw [hs, readBlockLines_plain (isPlain_space _), ih]
    rfl

theorem IsPlain.indented {c : Char} (hc : IsPlain c t) (h : Indented n t t') : IsPlain c t' := by
  obtain ⟨hn, hr, hq, hs⟩ := hc
  refine ⟨hn, hr, fun heq u' hu' => ?_, fun heq u' hu' => ?_⟩
  · subst hu'
    obtain ⟨v, rfl, hv⟩ := h.cons_right (by decide)
    obtain ⟨w, rfl, -⟩ := hv.cons_right (by decide)
    exact hq heq w rfl
  · subst hu'
    obtain ⟨v, rfl, hv⟩ := h.cons_right (by decide)
    obtain ⟨w, rfl, hw⟩ := hv.cons_right (by decide)
    obtain ⟨x, rfl, -⟩ := hw.cons_right (by decide)
    exact hs heq x rfl

/-- A line behind a line feed takes the margin, unless it is empty and stays so. -/
theorem sameLines_newline (h : Indented n ('\n' :: t) t')
    (ih : ∀ {t'}, Indented n t t' → SameLines n (readBlockLines t) (readBlockLines t')) :
    SameLines n (readBlockLines ('\n' :: t)) (readBlockLines t') := by
  cases h with
  | char hc => exact absurd rfl hc
  | @line t u h =>
    -- The margin is read as the beginning of the line behind the line feed.
    have hlines := ih h
    rw [readBlockLines_newline, readBlockLines_newline]
    generalize hx : readBlockLines t = x at hlines ⊢
    generalize hy : readBlockLines u = y at hlines
    cases hlines with
    | some hrest hr =>
      rw [readBlockLines_spaces n hy]
      exact .some (.cons (.moved _) hrest) hr
    | none =>
      rw [readBlockLines_spaces_eq_none n hy]
      exact .none
  | @emptyLine t u h =>
    have hlines := ih h
    simp only [readBlockLines_newline] at hlines ⊢
    generalize readBlockLines t = x at hlines ⊢
    generalize readBlockLines u = y at hlines ⊢
    match x, y, hlines with
    | some _, some _, .some hrest hr => exact .some (.cons .empty hrest) hr
    | none, none, _ => exact .none

theorem sameLines_readBlockLines (h : Indented n t t') :
    SameLines n (readBlockLines t) (readBlockLines t') := by
  fun_induction readBlockLines t generalizing t' with
  | case1 r =>
    obtain ⟨u, rfl, hu⟩ := h.cons_left (by decide)
    obtain ⟨v, rfl, hv⟩ := hu.cons_left (by decide)
    obtain ⟨r', rfl, hr⟩ := hv.cons_left (by decide)
    exact .some .nil hr
  | case2 r ih =>
    obtain ⟨s, rfl, hs⟩ := h.cons_left (by decide)
    obtain ⟨u, rfl, hu⟩ := hs.cons_left (by decide)
    obtain ⟨v, rfl, hv⟩ := hu.cons_left (by decide)
    obtain ⟨r', rfl, hr⟩ := hv.cons_left (by decide)
    exact (ih hr).extendFirst "\"\"\""
  | case3 r ih =>
    cases h with
    | char _ hr => exact absurd rfl hr
  | case4 c r hq hs hr hb ih =>
    obtain rfl | rfl := hb
    · exact readBlockLines_newline r ▸ sameLines_newline h ih
    · cases h with
      | char _ hr => exact absurd rfl hr
  | case5 c r hq hs hr hb ih =>
    have hplain : IsPlain c r := ⟨fun hc => hb (.inl hc), fun hc => hb (.inr hc),
      fun hc u hu => hq u hc hu, fun hc u hu => hs u hc hu⟩
    obtain ⟨r', rfl, hrr⟩ := h.cons_left hplain.1
    rw [readBlockLines_plain (hplain.indented hrr)]
    exact (ih hrr).extendFirst [c]
  | case6 =>
    cases h
    exact .none

theorem readQuoted_string (h : ∀ u, t ≠ '"' :: '"' :: u) :
    readQuoted t = (readString t).map fun q => (.string q.1, q.2) := by
  unfold readQuoted
  split
  · exact absurd rfl (h _)
  · rfl

theorem sameReading_readQuoted (h : Indented n t t') :
    SameReading n (readQuoted t) (readQuoted t') := by
  by_cases hblock : ∃ u, t = '"' :: '"' :: u
  · obtain ⟨u, rfl⟩ := hblock
    obtain ⟨v, rfl, hv⟩ := h.cons_left (by decide)
    obtain ⟨u', rfl, hu⟩ := hv.cons_left (by decide)
    have hlines := sameLines_readBlockLines hu
    simp only [readQuoted]
    generalize readBlockLines u = x at hlines ⊢
    generalize readBlockLines u' = y at hlines ⊢
    cases hlines with
    | some hrest hr =>
      simp only [BlockString.value_moved _ hrest]
      exact .ok hr
    | none => exact .error
  · have hne : ∀ u, t ≠ '"' :: '"' :: u := fun u hu => hblock ⟨u, hu⟩
    have hne' : ∀ u', t' ≠ '"' :: '"' :: u' := by
      rintro u' rfl
      obtain ⟨v, rfl, hv⟩ := h.cons_right (by decide)
      obtain ⟨u, rfl, -⟩ := hv.cons_right (by decide)
      exact hne u rfl
    rw [readQuoted_string hne, readQuoted_string hne']
    exact (sameReading_readString h).map Lexeme.string

/-! ### The scan -/

theorem sameReading_read {c : Char} (hc : c ≠ '\n') (hr : c ≠ '\r') (h : Indented n t t') :
    SameReading n (read c t) (read c t') := by
  unfold read
  split
  · exact sameReading_readQuoted h
  · split
    · exact .ok h
    · split
      · exact sameReading_readNumber (.char hc hr h)
      · split
        · obtain ⟨htake, hdrop⟩ := h.takeWhile_dropWhile (p := isNameChar) (by decide)
          rw [htake]
          exact .ok hdrop
        · obtain ⟨hdots, hdrop⟩ := h.take_eq_iff (w := "..") (by decide) 2
          simp only [hdots]
          split
          · rename_i hspread
            exact .ok (hdrop hspread.2)
          · exact .error

theorem skipIgnored_spaces (n : Nat) (t : Text) :
    skipIgnored false (Text.spaces n ++ t) = skipIgnored false t := by
  induction n with
  | zero => rfl
  | succ n ih => exact ih

theorem skipIgnored_newline (b : Bool) (t : Text) :
    skipIgnored b ('\n' :: t) = skipIgnored false t := by
  cases b <;> rfl

theorem skipIgnored_indented (b : Bool) (h : Indented n t t') :
    Indented n (skipIgnored b t) (skipIgnored b t') := by
  induction h generalizing b with
  | nil => exact .nil
  | char hc hr h ih =>
    rw [skipIgnored, skipIgnored]
    split
    · exact ih _
    · split
      · exact ih _
      · split
        · exact ih _
        · exact .char hc hr h
  | line h ih =>
    rw [skipIgnored_newline, skipIgnored_newline, skipIgnored_spaces]
    exact ih false
  | @emptyLine t t' h ih =>
    rw [skipIgnored_newline b ('\n' :: t), skipIgnored_newline b ('\n' :: t')]
    exact ih false

/-- What is left after skipping does not begin with a line break. -/
theorem head_skipIgnored {b : Bool} {c : Char} {cs : Text} (h : skipIgnored b t = c :: cs) :
    c ≠ '\n' ∧ c ≠ '\r' := by
  induction t generalizing b with
  | nil => cases h
  | cons d ds ih =>
    rw [skipIgnored] at h
    split at h
    · exact ih h
    · split at h
      · exact ih h
      · split at h
        · exact ih h
        · rename_i hignored _
          obtain ⟨rfl, rfl⟩ := List.cons.inj h
          refine ⟨?_, ?_⟩ <;> rintro rfl <;> exact hignored (by decide)

/-- In both texts the next lexeme begins with the same character and is read alike. -/
theorem exists_sameReading_read {c : Char} {cs : Text} (h : Indented n t t')
    (hs : skipIgnored false t = c :: cs) :
    ∃ cs', skipIgnored false t' = c :: cs' ∧ SameReading n (read c cs) (read c cs') := by
  have hskip := skipIgnored_indented false h
  rw [hs] at hskip
  obtain ⟨hn, hr⟩ := head_skipIgnored hs
  obtain ⟨cs', hs', hcs⟩ := hskip.cons_left hn
  exact ⟨cs', hs', sameReading_read hn hr hcs⟩

end Lexeme

namespace Scan

variable {t : Text} {c : Char} {cs : Text}

theorem ofText_done (hs : Lexeme.skipIgnored false t = []) :
    ofText t = ⟨[(.done, 0)], none⟩ := by
  rw [ofText]
  split
  · rfl
  · simp_all

theorem ofText_fault {fault : LexicalFault} (hs : Lexeme.skipIgnored false t = c :: cs)
    (h : Lexeme.read c cs = .error fault) : ofText t = ⟨[], some fault⟩ := by
  rw [ofText]
  split
  · simp_all
  · split <;> simp_all

theorem ofText_lexeme {l : Lexeme} {rest : Text} (hs : Lexeme.skipIgnored false t = c :: cs)
    (h : Lexeme.read c cs = .ok (l, rest)) :
    ofText t = ⟨(l, cs.length + 1) :: (ofText rest).lexemes, (ofText rest).fault⟩ := by
  rw [ofText]
  split
  · simp_all
  · split <;> simp_all

end Scan

/-- The lexemes of a document do not notice its margin. -/
theorem lexemes_indented {n : Nat} {t t' : Text} (h : Indented n t t') :
    (Scan.ofText t').lexemes.map (·.1) = (Scan.ofText t).lexemes.map (·.1) := by
  -- The texts differ in length, so the induction is on the scan of the first one alone.
  fun_induction Scan.ofText t generalizing t' with
  | case1 t hs =>
    have hskip := Lexeme.skipIgnored_indented false h
    rw [hs] at hskip
    generalize hs' : Lexeme.skipIgnored false t' = u' at hskip
    cases hskip
    rw [Scan.ofText_done hs']
  | case2 t c cs hs fault hf =>
    obtain ⟨cs', hs', hread⟩ := Lexeme.exists_sameReading_read h hs
    rw [hf] at hread
    generalize hf' : Lexeme.read c cs' = x at hread
    cases hread
    rw [Scan.ofText_fault hs' hf']
  | case3 t c cs hs l rest hl =>
    rename_i ih
    obtain ⟨cs', hs', hread⟩ := Lexeme.exists_sameReading_read h hs
    rw [hl] at hread
    generalize hl' : Lexeme.read c cs' = x at hread
    cases hread with
    | ok hrest => rw [Scan.ofText_lexeme hs' hl', List.map_cons, List.map_cons, ih hrest]

end SharpClient

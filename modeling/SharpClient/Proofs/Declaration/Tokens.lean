import SharpClient.Proofs.Declaration.Literal
import SharpClient.Proofs.Naming.Identifier

/-!
# Tokens of generated code

Generated statements as C# reads them: words, members of something else, string literals, and the
marks between them. Comments and literals of single characters are not told apart, since no
statement has any.

The tokens are found by a scan that goes over the text once and is in one of a few modes at each
place. So the scan of a text goes on from that of its beginning (`scan_append`). Indentation is
seen by no token (`scan_shift`): it is put behind line feeds, where the scan is either between
tokens or inside a literal.
-/

namespace SharpClient.Code

open Lexeme (isNameChar)

/-- A token of C#. -/
inductive Token
  /-- A name, a keyword or a number. -/
  | word (text : Text)
  /-- A name behind a dot, which is looked up in what stands before the dot. -/
  | member (text : Text)
  /-- A string literal. -/
  | literal
  /-- Any other character that is not blank. -/
  | mark (c : Char)
  deriving DecidableEq, Repr

/-- Where a scan stands. -/
inductive Mode
  /-- Between two tokens. -/
  | between
  /-- Behind a dot. -/
  | dot
  /-- In a word that begins so. -/
  | word (start : Text)
  /-- In a member that begins so. -/
  | member (start : Text)
  /-- Behind `@`. -/
  | sign
  /-- In a regular literal. -/
  | regular
  /-- In a regular literal, behind a backslash. -/
  | escape
  /-- In a verbatim literal. -/
  | verbatim
  /-- In a verbatim literal, behind a quote that may be the last one. -/
  | quote
  deriving DecidableEq, Repr

/-! ### The scan -/

/-- A character that belongs to no token before it. -/
def fresh (c : Char) : List Token × Mode :=
  if isNameChar c then ([], .word [c])
  else if c = '"' then ([], .regular)
  else if c = '@' then ([], .sign)
  else if c = '.' then ([.mark c], .dot)
  else if Text.isBlank c then ([], .between)
  else ([.mark c], .between)

/-- A character that ends a token. -/
def ending (t : Token) (c : Char) : List Token × Mode :=
  (t :: (fresh c).1, (fresh c).2)

/-- The tokens that a character completes, and the mode behind it. -/
def step : Mode → Char → List Token × Mode
  | .between, c => fresh c
  | .dot, c => if isNameChar c then ([], .member [c]) else fresh c
  | .word w, c => if isNameChar c then ([], .word (w ++ [c])) else ending (.word w) c
  | .member w, c => if isNameChar c then ([], .member (w ++ [c])) else ending (.member w) c
  | .sign, c => if c = '"' then ([], .verbatim) else fresh c
  | .regular, c =>
    if c = '"' then ([.literal], .between) else if c = '\\' then ([], .escape) else ([], .regular)
  | .escape, _ => ([], .regular)
  | .verbatim, c => if c = '"' then ([], .quote) else ([], .verbatim)
  | .quote, c => if c = '"' then ([], .verbatim) else ending .literal c

/-- The tokens that are complete at the end of a text, and the mode there. -/
def scan (m : Mode) : Text → List Token × Mode
  | [] => ([], m)
  | c :: cs => ((step m c).1 ++ (scan (step m c).2 cs).1, (scan (step m c).2 cs).2)

/-- The token that is completed by the end of the text. -/
def Mode.last : Mode → List Token
  | .word w => [.word w]
  | .member w => [.member w]
  | .quote => [.literal]
  | _ => []

/-- The tokens of a text. -/
def tokens (t : Text) : List Token :=
  (scan .between t).1 ++ (scan .between t).2.last

theorem tokens_of_scan {t : Text} {ts : List Token} (h : scan .between t = (ts, .between)) :
    tokens t = ts := by
  rw [tokens, h]
  exact List.append_nil ts

/-- A scan goes on where the scan of the beginning stopped. -/
theorem scan_append (m : Mode) (a b : Text) :
    scan m (a ++ b) =
      ((scan m a).1 ++ (scan (scan m a).2 b).1, (scan (scan m a).2 b).2) := by
  induction a generalizing m with
  | nil => rfl
  | cons c cs ih => rw [List.cons_append, scan, ih, scan, List.append_assoc]

theorem scan_append_of {m m' m'' : Mode} {a b : Text} {ts us : List Token}
    (ha : scan m a = (ts, m')) (hb : scan m' b = (us, m'')) : scan m (a ++ b) = (ts ++ us, m'') := by
  rw [scan_append, ha, hb]

/-- What is complete at the end of a beginning stays so. -/
theorem prefix_tokens (a b : Text) : (scan .between a).1 <+: tokens (a ++ b) := by
  rw [tokens, scan_append, List.append_assoc]
  exact List.prefix_append _ _

/-! ### Words and literals -/

/-- Name characters go on with what the first of them began. -/
theorem scan_of_all (mode : Text → Mode)
    (hmode : ∀ start c, isNameChar c → step (mode start) c = ([], mode (start ++ [c])))
    {w : Text} (h : w.all isNameChar) (start : Text) :
    scan (mode start) w = ([], mode (start ++ w)) := by
  induction w generalizing start with
  | nil => rw [scan, List.append_nil]
  | cons c cs ih =>
    rw [List.all_cons, Bool.and_eq_true] at h
    rw [scan, hmode start c h.1, ih h.2, List.append_assoc]
    rfl

/-- Name characters between tokens begin a word. -/
theorem scan_between {w : Text} (hne : w ≠ []) (h : w.all isNameChar) :
    scan .between w = ([], .word w) := by
  cases w with
  | nil => exact absurd rfl hne
  | cons c cs =>
    rw [List.all_cons, Bool.and_eq_true] at h
    rw [scan, step, fresh, if_pos h.1, scan_of_all Mode.word (fun _ _ hc => if_pos hc) h.2]
    rfl

/-- Name characters behind a dot begin a member. -/
theorem scan_dot {w : Text} (hne : w ≠ []) (h : w.all isNameChar) :
    scan .dot w = ([], .member w) := by
  cases w with
  | nil => exact absurd rfl hne
  | cons c cs =>
    rw [List.all_cons, Bool.and_eq_true] at h
    rw [scan, step, if_pos h.1, scan_of_all Mode.member (fun _ _ hc => if_pos hc) h.2]
    rfl

/-- A word ends before a character that is not part of a name. -/
theorem scan_word {t : Text} {ts : List Token} {m : Mode} (w : Text) (h : scan .between t = (ts, m))
    {c : Char} (hhead : t.head? = some c) (hc : isNameChar c = false) :
    scan (.word w) t = (.word w :: ts, m) := by
  obtain ⟨cs, rfl⟩ := List.head?_eq_some_iff.mp hhead
  have hend : ¬ isNameChar c := by
    rw [hc]
    exact Bool.false_ne_true
  rw [scan, step] at h
  rw [scan, step, if_neg hend, ending]
  cases h
  rfl

/-- Name characters do not end a regular literal. -/
theorem scan_regular {w : Text} (h : w.all isNameChar) : scan .regular w = ([], .regular) := by
  induction w with
  | nil => rfl
  | cons c cs ih =>
    rw [List.all_cons, Bool.and_eq_true] at h
    have hquote : c ≠ '"' := by
      rintro rfl
      exact absurd h.1 (by decide)
    have hbackslash : c ≠ '\\' := by
      rintro rfl
      exact absurd h.1 (by decide)
    rw [scan, step, if_neg hquote, if_neg hbackslash, ih h.2]
    rfl

/-- Doubled quotes do not end a verbatim literal. -/
theorem scan_verbatimBody (t : Text) :
    scan .verbatim (Literal.verbatimBody t) = ([], .verbatim) := by
  induction t with
  | nil => rfl
  | cons c cs ih =>
    by_cases hc : c = '"'
    · subst hc
      rw [Literal.verbatimBody_quote, scan, scan]
      simp only [step, if_true, ih, List.append_nil]
    · rw [Literal.verbatimBody_char hc, scan, step, if_neg hc, ih]
      rfl

/-- A verbatim literal is over with its last quote, unless another one follows. -/
theorem scan_verbatim (value : Text) :
    scan .between ("@\"" ++ Literal.verbatimBody value ++ "\"") = ([], .quote) := by
  have hopening : scan .between "@\"" = ([], .verbatim) := rfl
  rw [List.append_assoc, scan_append, hopening, scan_append, scan_verbatimBody]
  rfl

/-! ### Indentation -/

/-- The modes that a blank does not change. -/
def Mode.Still (m : Mode) : Prop :=
  step m ' ' = ([], m)

theorem scan_spaces {m : Mode} (hm : m.Still) (n : Nat) (t : Text) :
    scan m (Text.spaces n ++ t) = scan m t := by
  induction n with
  | zero => rfl
  | succ n ih =>
    have hs : Text.spaces (n + 1) = ' ' :: Text.spaces n := List.replicate_succ
    have hstep : step m ' ' = ([], m) := hm
    rw [hs, List.cons_append, scan, hstep, ih]
    rfl

/-- A line feed ends every token but a literal. -/
theorem still_newline (m : Mode) : (step m '\n').2.Still := by
  cases m with
  | between | dot | word | member | sign | regular | escape | verbatim | quote => rfl

theorem scan_shift (m : Mode) (n : Nat) (t : Text) :
    scan m (Text.shift (Text.spaces n) t) = scan m t := by
  induction t generalizing m with
  | nil => rfl
  | cons c cs ih =>
    by_cases hc : c = '\n' ∧ cs.head? ≠ some '\n'
    · obtain ⟨rfl, hhead⟩ := hc
      rw [Text.shift_newline hhead, scan, scan_spaces (still_newline m), ih]
      rfl
    · rw [Text.shift, if_neg hc, List.nil_append, scan, ih]
      rfl

/-- Indentation changes no token. -/
theorem scan_indent (levels : Nat) {t : Text} (ht : Text.Closed t) :
    scan .between (Text.indent levels t) = scan .between t := by
  rw [Text.indent_eq_shift levels ht]
  split
  case isTrue => exact scan_shift _ _ _
  case isFalse =>
    have hstill : Mode.Still .between := rfl
    rw [scan_spaces hstill, scan_shift]

theorem scan_indent_append (levels : Nat) {t : Text} (ht : Text.Closed t) (rest : Text) :
    scan .between (Text.indent levels t ++ rest) = scan .between (t ++ rest) := by
  rw [scan_append, scan_append, scan_indent levels ht]

/-! ### Names and type arguments -/

/-- The name that a token refers to by itself. -/
def Token.name? : Token → Option Text
  | .word w => some w
  | _ => none

/-- The names that tokens refer to, other than as members of something else. -/
def names (ts : List Token) : List Text :=
  ts.filterMap Token.name?

@[simp] theorem names_append (ts us : List Token) : names (ts ++ us) = names ts ++ names us :=
  List.filterMap_append

/-- The tokens of the last type argument: those from the last `<` up to the `>` behind it. -/
def typeArgument? : List Token → Option (List Token)
  | [] => none
  | t :: ts =>
    (typeArgument? ts).or
      (if t = .mark '<' then some (ts.takeWhile (· ≠ .mark '>')) else none)

theorem typeArgument?_angle (argument : Text) {us : List Token} (h : typeArgument? us = none) :
    typeArgument? (.mark '<' :: .word argument :: .mark '>' :: us) = some [.word argument] := by
  simp [typeArgument?, h]

theorem typeArgument?_append {ts : List Token} {argument : List Token}
    (h : typeArgument? ts = some argument) (before : List Token) :
    typeArgument? (before ++ ts) = some argument := by
  induction before with
  | nil => exact h
  | cons t us ih => rw [List.cons_append, typeArgument?, ih, Option.some_or]

end SharpClient.Code

import SharpClient.Declaration.Printer
import SharpClient.Proofs.Text.LineBreaks

/-!
# Classes printed in one pass

The text of a class is built from the inside: each nested class is written at column zero, and every
class around it moves the finished text right once more. The same text comes from a printer that goes
over the class once and knows how deep it stands (`Member.linesAt`): it writes every line where it
belongs, and touches none again.

The two agree line by line (`Member.lines_text`), because of two laws of indentation: it passes through
the empty lines between members and leaves them empty (`Text.linesAt_join`), and indenting once more is
one more level for every line (`Text.linesAt_indent`). All of this needs that the names, types, defaults
and payload keys of the class keep to one line each: a line feed in one of them would begin a line that
only the re-indented text moves right.
-/

namespace SharpClient

/-! ### The printer -/

/-- A line that stands inside `depth` classes. -/
def lineAt (depth : Nat) (line : Text) : Text :=
  Text.spaces (2 * depth) ++ line

/-- The line that opens a class. -/
def classHeader (name : Text) : Text :=
  "public class" ++ (if name.isEmpty then [] else ' ' :: name) ++ " \x7b"

/-- The line that gives the payload key of a property. -/
def Property.keyLine (p : Property) : Text :=
  "[JsonProperty(\"" ++ p.wire ++ "\")]"

/-- The line that declares a property. -/
def Property.declarationLine (p : Property) : Text :=
  "public " ++ p.type ++ " " ++ p.member ++ " \x7b get; set; \x7d"

/-- The lines of a property. -/
def Property.linesAt (depth : Nat) (p : Property) : List Text :=
  [lineAt depth p.keyLine, lineAt depth p.declarationLine]

/-- The line that opens a constructor. -/
def Constructor.header (k : Constructor) : Text :=
  "public " ++ k.className ++ "(" ++ parametersText k.parameters ++ ") \x7b"

/-- The statement that assigns a parameter to a member. -/
def assignmentLine (a : Text × Text) : Text :=
  "this." ++ a.1 ++ " = " ++ a.2 ++ ";"

/-- The line that closes a class or a constructor. -/
def closingLine : Text := "\x7d"

/-- The lines of a constructor, its statements one level deeper. -/
def Constructor.linesAt (depth : Nat) (k : Constructor) : List Text :=
  lineAt depth k.header ::
    (k.assignments.map fun a => lineAt (depth + 1) (assignmentLine a)) ++ [lineAt depth closingLine]

mutual

/-- The lines of a member: what a class holds stands one level deeper and one empty line apart. -/
def Member.linesAt (depth : Nat) : Member → List Text
  | .property p => p.linesAt depth
  | .nested name members constructor =>
    lineAt depth (classHeader name) ::
      List.intercalate [[]] (memberLinesAt (depth + 1) members ++
        (constructor.map (Constructor.linesAt (depth + 1))).toList) ++
      [lineAt depth closingLine]

/-- The lines of members, one by one. -/
def memberLinesAt (depth : Nat) : List Member → List (List Text)
  | [] => []
  | m :: ms => m.linesAt depth :: memberLinesAt depth ms

end

/-- The class as printed in one pass. -/
def ClassDecl.printed (c : ClassDecl) : Text :=
  Text.unlines (c.toMember.linesAt 0)

/-! ### What a class is written with -/

/-- Payload key, type and name of a property. -/
def Property.atoms (p : Property) : List Text :=
  [p.wire, p.type, p.member]

/-- Type, name and default of a parameter. -/
def Parameter.atoms (p : Parameter) : List Text :=
  p.type :: p.name :: p.default.toList

/-- The names, types and defaults of a constructor. -/
def Constructor.atoms (k : Constructor) : List Text :=
  k.className :: k.parameters.flatMap Parameter.atoms ++ k.assignments.flatMap fun a => [a.1, a.2]

mutual

/-- The names, types, defaults and payload keys of a member, at every depth. -/
def Member.atoms : Member → List Text
  | .property p => p.atoms
  | .nested name members constructor =>
    name :: memberAtoms members ++ constructor.toList.flatMap Constructor.atoms

/-- The names, types, defaults and payload keys of members. -/
def memberAtoms : List Member → List Text
  | [] => []
  | m :: ms => m.atoms ++ memberAtoms ms

end

/-- The names, types, defaults and payload keys of a class, at every depth. -/
def ClassDecl.atoms (c : ClassDecl) : List Text :=
  c.toMember.atoms

/-! ### Lines with a margin -/

/-- A line that is not empty. -/
structure IsLine (line : Text) : Prop where
  /-- Something stands on it. -/
  ne_nil : line ≠ []
  /-- It does not go on in another line. -/
  newline_not_mem : '\n' ∉ line

theorem IsLine.of_append {start ending : Text} (hstart : '\n' ∉ start) (h : IsLine ending) :
    IsLine (start ++ ending) :=
  ⟨List.append_ne_nil_of_right_ne_nil start h.ne_nil, List.not_mem_append hstart h.newline_not_mem⟩

theorem isLine_closingLine : IsLine closingLine :=
  ⟨by decide, by decide⟩

namespace Text

/-- The lines of a text that is moved right by `depth` levels. -/
def linesAt (depth : Nat) (t : Text) : List Text :=
  (lines t).map (indentLine (spaces (2 * depth)))

theorem indentLine_of_ne_nil (margin : Text) {line : Text} (h : line ≠ []) :
    indentLine margin line = margin ++ line :=
  if_neg (by simpa using h)

/-- Two margins in a row are one. -/
theorem indentLine_indentLine (m n line : Text) :
    indentLine m (indentLine n line) = indentLine (m ++ n) line := by
  by_cases hline : line = []
  · rw [hline]
    rfl
  · have hindented : n ++ line ≠ [] := by simp [hline]
    rw [indentLine_of_ne_nil n hline, indentLine_of_ne_nil m hindented,
      indentLine_of_ne_nil (m ++ n) hline, List.append_assoc]

theorem linesAt_zero (t : Text) : linesAt 0 t = lines t := by
  have hkeep (line : Text) : indentLine (spaces (2 * 0)) line = line := by
    rw [indentLine]
    split <;> rfl
  rw [linesAt, List.map_congr_left fun line _ => hkeep line, List.map_id']

theorem linesAt_last (depth : Nat) {line : Text} (h : IsLine line) :
    linesAt depth line = [lineAt depth line] := by
  rw [linesAt, lines_of_not_mem h.newline_not_mem, List.map_singleton,
    indentLine_of_ne_nil _ h.ne_nil, lineAt]

theorem linesAt_append_newline (depth : Nat) (s t : Text) :
    linesAt depth (s ++ '\n' :: t) = linesAt depth s ++ linesAt depth t := by
  rw [linesAt, lines_append_newline, List.map_append, linesAt, linesAt]

/-- A line stands in front of the lines behind it. -/
theorem linesAt_line (depth : Nat) {line : Text} (h : IsLine line) (rest : Text) :
    linesAt depth (line ++ '\n' :: rest) = lineAt depth line :: linesAt depth rest := by
  rw [linesAt_append_newline, linesAt_last depth h, List.singleton_append]

/-- Indentation is one more level. -/
theorem linesAt_indent (depth : Nat) (t : Text) :
    linesAt depth (indent 1 t) = linesAt (depth + 1) t := by
  have hmargin : spaces (2 * depth) ++ repeated 1 indentUnit = spaces (2 * (depth + 1)) := by
    rw [repeated_indentUnit]
    exact List.replicate_append_replicate
  rw [linesAt, lines_indent, List.map_map, linesAt]
  refine List.map_congr_left fun line _ => ?_
  rw [Function.comp, indentLine_indentLine, hmargin]

/-- Indentation passes through the empty lines between parts and leaves them empty. -/
theorem linesAt_join (depth : Nat) {parts : List Text} (h : parts ≠ []) :
    linesAt depth (join "\n\n" parts) = List.intercalate [[]] (parts.map (linesAt depth)) := by
  induction parts with
  | nil => exact absurd rfl h
  | cons p ps ih =>
    by_cases hps : ps = []
    · rw [hps, join, List.intercalate_singleton, List.map_singleton, List.intercalate_singleton]
    · have hsplit : join "\n\n" (p :: ps) = p ++ '\n' :: ([] ++ '\n' :: join "\n\n" ps) := by
        rw [join, join, List.intercalate_cons_of_ne_nil hps, List.append_assoc]
        rfl
      have hempty : linesAt depth [] = [[]] := rfl
      have hmap : ps.map (linesAt depth) ≠ [] := by simpa using hps
      rw [hsplit, linesAt_append_newline, linesAt_append_newline, hempty, ih hps, List.map_cons,
        List.intercalate_cons_of_ne_nil hmap, List.append_assoc]

end Text

/-! ### Lines of a property -/

namespace Property

variable {p : Property}

theorem isLine_keyLine (h : ∀ t ∈ p.atoms, '\n' ∉ t) : IsLine p.keyLine := by
  have hwire : '\n' ∉ p.wire := h _ List.mem_cons_self
  have hstart : '\n' ∉ "[JsonProperty(\"".toList ++ p.wire := List.not_mem_append (by decide) hwire
  exact .of_append hstart ⟨by decide, by decide⟩

theorem isLine_declarationLine (h : ∀ t ∈ p.atoms, '\n' ∉ t) : IsLine p.declarationLine := by
  have htype : '\n' ∉ p.type := h _ (List.mem_cons_of_mem _ List.mem_cons_self)
  have hmember : '\n' ∉ p.member :=
    h _ (List.mem_cons_of_mem _ (List.mem_cons_of_mem _ List.mem_cons_self))
  have hstart : '\n' ∉ "public ".toList ++ p.type ++ " ".toList :=
    List.not_mem_append (List.not_mem_append (by decide) htype) (by decide)
  exact .of_append (List.not_mem_append hstart hmember) ⟨by decide, by decide⟩

theorem text_eq (p : Property) : p.text = p.keyLine ++ '\n' :: p.declarationLine := by
  have hbreak : "\")]\npublic ".toList = "\")]".toList ++ '\n' :: "public ".toList := rfl
  have hregroup (a b c d e f g i : Text) :
      a ++ b ++ (c ++ '\n' :: d) ++ e ++ f ++ g ++ i =
        (a ++ b ++ c) ++ '\n' :: (d ++ e ++ f ++ g ++ i) := by simp
  unfold text keyLine declarationLine
  rw [hbreak, hregroup]

theorem lines_text (h : ∀ t ∈ p.atoms, '\n' ∉ t) (depth : Nat) :
    Text.linesAt depth p.text = p.linesAt depth := by
  rw [p.text_eq, Text.linesAt_line depth (isLine_keyLine h),
    Text.linesAt_last depth (isLine_declarationLine h), linesAt]

end Property

/-! ### Lines of a constructor -/

theorem Parameter.newline_not_mem_text {p : Parameter} (h : ∀ t ∈ p.atoms, '\n' ∉ t) :
    '\n' ∉ p.text := by
  obtain ⟨type, name, default⟩ := p
  rw [Parameter.atoms, List.forall_mem_cons, List.forall_mem_cons] at h
  obtain ⟨htype, hname, hdefault⟩ := h
  refine List.not_mem_append (List.not_mem_append (List.not_mem_append htype (by decide)) hname) ?_
  cases default with
  | none => exact List.not_mem_nil
  | some value => exact List.not_mem_append (by decide) (hdefault value List.mem_cons_self)

theorem newline_not_mem_parametersText {ps : List Parameter}
    (h : ∀ t ∈ ps.flatMap Parameter.atoms, '\n' ∉ t) : '\n' ∉ parametersText ps := by
  intro hmem
  obtain hseparator | ⟨t, ht, hmem⟩ := Text.mem_of_mem_join hmem
  · exact absurd hseparator (by decide)
  · obtain ⟨p, hp, rfl⟩ := List.mem_map.mp ht
    exact p.newline_not_mem_text (fun a ha => h a (List.mem_flatMap.mpr ⟨p, hp, ha⟩)) hmem

theorem isLine_assignmentLine {a : Text × Text} (hmember : '\n' ∉ a.1) (hparameter : '\n' ∉ a.2) :
    IsLine (assignmentLine a) := by
  have hstart : '\n' ∉ "this.".toList ++ a.1 ++ " = ".toList :=
    List.not_mem_append (List.not_mem_append (by decide) hmember) (by decide)
  exact .of_append (List.not_mem_append hstart hparameter) ⟨by decide, by decide⟩

theorem assignmentText_append (a : Text × Text) (rest : Text) :
    assignmentText a.1 a.2 ++ rest = Text.indentUnit ++ assignmentLine a ++ '\n' :: rest := by
  have hending : ";\n".toList = ";".toList ++ ['\n'] := rfl
  have hregroup (u b c d e f r : Text) :
      u ++ b ++ c ++ d ++ e ++ (f ++ ['\n']) ++ r = u ++ (b ++ c ++ d ++ e ++ f) ++ '\n' :: r := by
    simp
  unfold assignmentText assignmentLine
  rw [hending, hregroup]

/-- Each assignment is a line of its own, one level deeper. -/
theorem linesAt_assignments (depth : Nat) {as : List (Text × Text)}
    (h : ∀ t ∈ as.flatMap fun a => [a.1, a.2], '\n' ∉ t) (rest : Text) :
    Text.linesAt depth ((as.flatMap fun a => assignmentText a.1 a.2) ++ rest) =
      (as.map fun a => lineAt (depth + 1) (assignmentLine a)) ++ Text.linesAt depth rest := by
  have hdeeper (line : Text) : lineAt depth (Text.indentUnit ++ line) = lineAt (depth + 1) line := by
    have hmargin : Text.spaces (2 * depth) ++ Text.spaces 2 = Text.spaces (2 * (depth + 1)) :=
      List.replicate_append_replicate
    rw [lineAt, lineAt, ← hmargin, List.append_assoc]
    rfl
  induction as with
  | nil => rfl
  | cons a as ih =>
    rw [List.flatMap_cons, List.forall_mem_append] at h
    have hmember : '\n' ∉ a.1 := h.1 _ List.mem_cons_self
    have hparameter : '\n' ∉ a.2 := h.1 _ (List.mem_cons_of_mem _ List.mem_cons_self)
    have hline : IsLine (Text.indentUnit ++ assignmentLine a) :=
      .of_append (by decide) (isLine_assignmentLine hmember hparameter)
    rw [List.flatMap_cons, List.append_assoc, assignmentText_append, Text.linesAt_line depth hline,
      ih h.2, hdeeper, List.map_cons, List.cons_append]

namespace Constructor

variable {k : Constructor}

theorem isLine_header (h : ∀ t ∈ k.atoms, '\n' ∉ t) : IsLine k.header := by
  rw [atoms, List.cons_append, List.forall_mem_cons, List.forall_mem_append] at h
  have hstart : '\n' ∉ "public ".toList ++ k.className ++ "(".toList :=
    List.not_mem_append (List.not_mem_append (by decide) h.1) (by decide)
  have hparameters : '\n' ∉ parametersText k.parameters := newline_not_mem_parametersText h.2.1
  exact .of_append (List.not_mem_append hstart hparameters) ⟨by decide, by decide⟩

theorem text_eq (k : Constructor) :
    k.text = k.header ++
      '\n' :: ((k.assignments.flatMap fun a => assignmentText a.1 a.2) ++ closingLine) := by
  have hbreak : ") \x7b\n".toList = ") \x7b".toList ++ ['\n'] := rfl
  have hregroup (a b c d e f g : Text) :
      a ++ b ++ c ++ d ++ (e ++ ['\n']) ++ f ++ g = a ++ b ++ c ++ d ++ e ++ '\n' :: (f ++ g) := by
    simp
  unfold text header closingLine
  rw [hbreak, hregroup]

theorem lines_text (h : ∀ t ∈ k.atoms, '\n' ∉ t) (depth : Nat) :
    Text.linesAt depth k.text = k.linesAt depth := by
  have hassignments : ∀ t ∈ k.assignments.flatMap fun a => [a.1, a.2], '\n' ∉ t := by
    rw [atoms, List.forall_mem_append] at h
    exact h.2
  rw [k.text_eq, Text.linesAt_line depth (isLine_header h), linesAt_assignments depth hassignments,
    Text.linesAt_last depth isLine_closingLine, linesAt, List.cons_append]

theorem text_ne_nil (k : Constructor) : k.text ≠ [] := by
  rw [k.text_eq]
  exact List.append_ne_nil_of_right_ne_nil _ (List.cons_ne_nil _ _)

end Constructor

/-! ### Lines of a class -/

theorem isLine_classHeader {name : Text} (h : '\n' ∉ name) : IsLine (classHeader name) := by
  refine .of_append (List.not_mem_append (by decide) ?_) ⟨by decide, by decide⟩
  split
  · exact List.not_mem_nil
  · exact List.not_mem_cons_of_ne_of_not_mem (by decide) h

theorem join_header (name : Text) :
    Text.join " " (["public".toList, "class".toList, name].filter (!·.isEmpty)) =
      "public class".toList ++ (if name.isEmpty then [] else ' ' :: name) := by
  cases name with
  | nil => rfl
  | cons c cs =>
    have hparts : ["public".toList, "class".toList, c :: cs].filter (!·.isEmpty) =
        ["public".toList, "class".toList, c :: cs] := rfl
    have hheader : "public class".toList = "public".toList ++ " ".toList ++ "class".toList := rfl
    rw [hparts, Text.join, List.intercalate_cons_cons, List.intercalate_cons_cons,
      List.intercalate_singleton, hheader]
    simp only [List.append_assoc]
    rfl

/-- A class without members and constructor is its header and its closing brace. -/
theorem classText_nil (name : Text) : classText name [] = classHeader name ++ '\n' :: closingLine := by
  have hregroup (a : Text) :
      a ++ [] ++ " \x7b\n\x7d".toList = a ++ " \x7b".toList ++ '\n' :: closingLine := by
    rw [List.append_nil, List.append_assoc]
    rfl
  unfold classText blockText classHeader
  rw [← hregroup, ← join_header]
  rfl

theorem indent_join_ne_nil {parts : List Text} (hne : parts ≠ []) (h : ∀ p ∈ parts, p ≠ []) :
    Text.indent 1 (Text.join "\n\n" parts) ≠ [] := by
  have hjoin : Text.join "\n\n" parts ≠ [] := by
    obtain ⟨p, ps, rfl⟩ := List.exists_cons_of_ne_nil hne
    have hp : p ≠ [] := h p List.mem_cons_self
    cases ps with
    | nil => rwa [Text.join, List.intercalate_singleton]
    | cons q qs =>
      rw [Text.join, List.intercalate_cons_cons, List.append_assoc]
      exact List.append_ne_nil_of_left_ne_nil hp _
  have hempty : Text.indent 1 [] = [] := rfl
  intro hnil
  exact hjoin (Text.indent_injective 1 (hnil.trans hempty.symm))

/-- Any other class has the texts of its parts between the two, moved right. -/
theorem classText_of_ne_nil (name : Text) {parts : List Text} (hne : parts ≠ [])
    (h : ∀ p ∈ parts, p ≠ []) :
    classText name parts =
      classHeader name ++ '\n' :: (Text.indent 1 (Text.join "\n\n" parts) ++ '\n' :: closingLine) := by
  have hregroup (a b : Text) : a ++ [] ++ " \x7b\n".toList ++ b ++ "\n\x7d".toList =
      a ++ " \x7b".toList ++ '\n' :: (b ++ '\n' :: closingLine) := by
    rw [List.append_nil, List.append_assoc, List.append_assoc, List.append_assoc]
    rfl
  have hblock (body : Text) (hbody : body ≠ []) : blockText "public" "class" name [] body =
      Text.join " " (["public".toList, "class".toList, name].filter (!·.isEmpty)) ++ [] ++
        " \x7b\n".toList ++ body ++ "\n\x7d".toList :=
    if_neg (by simpa using hbody)
  unfold classText classHeader
  rw [if_neg (by simpa using hne), hblock _ (indent_join_ne_nil hne h), hregroup, join_header]

theorem linesAt_classText {name : Text} (hname : '\n' ∉ name) {parts : List Text}
    (h : ∀ p ∈ parts, p ≠ []) (depth : Nat) :
    Text.linesAt depth (classText name parts) =
      lineAt depth (classHeader name) ::
        List.intercalate [[]] (parts.map (Text.linesAt (depth + 1))) ++
        [lineAt depth closingLine] := by
  have hheader := Text.linesAt_line depth (isLine_classHeader hname)
  have hclosing := Text.linesAt_last depth isLine_closingLine
  by_cases hparts : parts = []
  · rw [hparts, classText_nil, hheader, hclosing]
    rfl
  · rw [classText_of_ne_nil name hparts h, hheader, Text.linesAt_append_newline, hclosing,
      Text.linesAt_indent, Text.linesAt_join _ hparts, List.cons_append]

theorem blockText_ne_nil (access kind name : Text) (implements : List Text) (body : Text) :
    blockText access kind name implements body ≠ [] := by
  have hempty : " \x7b\n\x7d".toList ≠ [] := by decide
  have hclosing : "\n\x7d".toList ≠ [] := by decide
  unfold blockText
  dsimp only
  by_cases hbody : body.isEmpty
  · rw [if_pos hbody]
    exact List.append_ne_nil_of_right_ne_nil _ hempty
  · rw [if_neg hbody]
    exact List.append_ne_nil_of_right_ne_nil _ hclosing

theorem Member.text_ne_nil (m : Member) : m.text ≠ [] := by
  cases m with
  | property p =>
    rw [Member.text, p.text_eq]
    exact List.append_ne_nil_of_right_ne_nil _ (List.cons_ne_nil _ _)
  | nested name members constructor =>
    rw [Member.text]
    exact blockText_ne_nil _ _ name _ _

theorem ne_nil_of_mem_memberTexts {ms : List Member} {t : Text} (h : t ∈ memberTexts ms) :
    t ≠ [] := by
  induction ms with
  | nil => exact absurd h (by simp [memberTexts])
  | cons m ms ih =>
    rcases List.mem_cons.mp h with rfl | h
    · exact m.text_ne_nil
    · exact ih h

mutual

/-- The text of a member, moved right as far as the member stands deep, has the lines of the printer. -/
theorem Member.lines_text (m : Member) (h : ∀ t ∈ m.atoms, '\n' ∉ t) (depth : Nat) :
    Text.linesAt depth m.text = m.linesAt depth := by
  cases m with
  | property p => exact p.lines_text h depth
  | nested name members constructor =>
    rw [Member.atoms, List.cons_append, List.forall_mem_cons, List.forall_mem_append] at h
    obtain ⟨hname, hmembers, hconstructor⟩ := h
    have hparts : ∀ t ∈ memberTexts members ++ (constructor.map Constructor.text).toList, t ≠ [] := by
      refine List.forall_mem_append.mpr ⟨fun t ht => ne_nil_of_mem_memberTexts ht, ?_⟩
      cases constructor with
      | none => simp
      | some k => simpa using k.text_ne_nil
    have hown : (constructor.map Constructor.text).toList.map (Text.linesAt (depth + 1)) =
        (constructor.map (Constructor.linesAt (depth + 1))).toList := by
      cases constructor with
      | none => rfl
      | some k =>
        have hk : ∀ t ∈ k.atoms, '\n' ∉ t := by simpa using hconstructor
        exact congrArg (fun ls => [ls]) (k.lines_text hk (depth + 1))
    -- The parts stand one level deeper than the class, whose own lines frame them.
    rw [Member.text, linesAt_classText hname hparts, List.map_append,
      lines_memberTexts members hmembers, hown, Member.linesAt]

theorem lines_memberTexts (ms : List Member) (h : ∀ t ∈ memberAtoms ms, '\n' ∉ t) (depth : Nat) :
    (memberTexts ms).map (Text.linesAt depth) = memberLinesAt depth ms := by
  cases ms with
  | nil => rfl
  | cons m ms =>
    rw [memberAtoms, List.forall_mem_append] at h
    rw [memberTexts, List.map_cons, m.lines_text h.1, lines_memberTexts ms h.2, memberLinesAt]

end

/-- **A class is printed in one pass.** Its text, re-indented once for every class around a line, is
what the printer writes that puts each line at its depth at once. -/
theorem ClassDecl.text_eq_printed (c : ClassDecl) (h : ∀ t ∈ c.atoms, '\n' ∉ t) :
    c.text = c.printed := by
  have hlines : Text.lines c.text = c.toMember.linesAt 0 := by
    rw [← Text.linesAt_zero]
    exact c.toMember.lines_text h 0
  rw [printed, ← hlines, Text.unlines_lines]

namespace CartSample

/-- A class with an empty class two levels down, beside a property and a constructor. -/
def cart : ClassDecl :=
  ⟨"CartPayload",
    [.nested "ItemResult" [.nested "TagResult" [] none, .property ⟨"id", "Id", "string"⟩]
      (some ⟨"ItemResult", [⟨"string", "id", some "null"⟩], [("Id", "id")]⟩),
     .property ⟨"item", "Item", "ItemResult"⟩], none⟩

theorem cart_printed : (∀ t ∈ cart.atoms, '\n' ∉ t) ∧ cart.text = cart.printed := by
  have hatoms : ∀ t ∈ cart.atoms, '\n' ∉ t := by decide
  exact ⟨hatoms, cart.text_eq_printed hatoms⟩

example : cart.toMember.linesAt 0 = List.map String.toList
   ["public class CartPayload \x7b",
    "  public class ItemResult \x7b",
    "    public class TagResult \x7b",
    "    \x7d",
    "",
    "    [JsonProperty(\"id\")]",
    "    public string Id \x7b get; set; \x7d",
    "",
    "    public ItemResult(string id = null) \x7b",
    "      this.Id = id;",
    "    \x7d",
    "  \x7d",
    "",
    "  [JsonProperty(\"item\")]",
    "  public ItemResult Item \x7b get; set; \x7d",
    "\x7d"] := by
  decide +kernel

end CartSample

end SharpClient

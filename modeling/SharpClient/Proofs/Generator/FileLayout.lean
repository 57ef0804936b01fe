import SharpClient.Generator.Basic
import SharpClient.Proofs.Operation.Embedding
import SharpClient.Proofs.Outcome
import SharpClient.Proofs.Text.LineBreaks

/-!
# Layout of the file

With the templates of the library, the file is the `using` lines, a namespace, and in it the blocks
of the declarations, one empty line apart and moved right by two spaces (`file`). The layout splits
the blocks into lines by more characters than the line feed and joins them by line feeds, so that
what it moves right are the blocks with all their line breaks written as line feeds. The blocks come
through unchanged exactly when the line feed is their only line break (`code_layout`). Identifiers
never hold another one, but string values of an embedded document do, and names and endpoints of the
options may.
-/

namespace SharpClient

open Outcome

namespace Text

theorem mem_join_of_mem {separator p : Text} {parts : List Text} {c : Char} (hp : p ∈ parts)
    (hc : c ∈ p) : c ∈ join separator parts := by
  induction parts with
  | nil => exact absurd hp List.not_mem_nil
  | cons q qs ih =>
    by_cases hne : qs = []
    · rw [hne, List.mem_singleton] at hp
      rw [hne, join, List.intercalate_singleton, ← hp]
      exact hc
    · rw [join, List.intercalate_cons_of_ne_nil hne, List.mem_append]
      rcases List.mem_cons.mp hp with rfl | hp
      · exact .inl (List.mem_append_left separator hc)
      · exact .inr (ih hp)

theorem exists_join_concat (separator : Text) (parts : List Text) (p : Text) :
    ∃ start, join separator (parts ++ [p]) = start ++ p := by
  induction parts with
  | nil => exact ⟨[], List.intercalate_singleton⟩
  | cons q qs ih =>
    obtain ⟨start, hstart⟩ := ih
    refine ⟨q ++ separator ++ start, ?_⟩
    rw [join] at hstart ⊢
    rw [List.cons_append, List.intercalate_cons_of_ne_nil (by simp), hstart]
    simp only [List.append_assoc]

end Text

theorem exists_blockText_cons (c : Char) (access kind name : Text) (implements : List Text)
    (body : Text) : ∃ rest, blockText (c :: access) kind name implements body = c :: rest := by
  obtain ⟨rest, hheader⟩ : ∃ rest, Text.join " " ([c :: access, kind, name].filter (!·.isEmpty)) =
      c :: rest := by
    rw [List.filter_cons_of_pos (by rfl), Text.join]
    cases [kind, name].filter (!·.isEmpty) with
    | nil => exact ⟨access, List.intercalate_singleton⟩
    | cons second others => exact ⟨_, List.intercalate_cons_cons⟩
  rw [blockText, hheader]
  split <;> exact ⟨_, rfl⟩

namespace Generator

variable {g : Generator} {d : Declarations}

/-- The helpers of the library that follow the declarations. -/
def helpers (g : Generator) : List Text :=
  if g.config.httpClient.isSome then [httpRequestClass, responseExtensions]
  else [responseExtensions]

/-- The blocks of a file that the templates of the library lay out. -/
def blocks (g : Generator) (d : Declarations) : List Text :=
  g.declaredBlocks d ++ g.helpers

/-- The blocks of the file, one empty line apart. -/
def content (g : Generator) (d : Declarations) : Text :=
  Text.join "\n\n" (g.blocks d)

/-- The file around the text in its namespace. -/
def file (g : Generator) (body : Text) : Text :=
  g.usings.flatMap Template.usingLine ++ "\nnamespace " ++ g.config.namespaceName ++ " \x7b\n" ++
    body ++ "\n\x7d\n"

theorem file_injective (g : Generator) : Function.Injective g.file := by
  intro a b h
  rw [file, file] at h
  exact List.append_cancel_left (List.append_cancel_right h)

/-- The content begins with the access of the client's interface. -/
theorem exists_content_eq_cons (g : Generator) (d : Declarations) :
    ∃ rest, g.content d = 'p' :: rest := by
  obtain ⟨rest, hrest⟩ : ∃ rest, g.config.interfaceText d.signatures = 'p' :: rest :=
    exists_blockText_cons 'p' "ublic" "interface" _ [] _
  rw [content, blocks, declaredBlocks, hrest]
  exact ⟨_, List.intercalate_cons_cons⟩

/-- The helpers on answers come last. -/
theorem exists_helpers_eq_concat (g : Generator) :
    ∃ start, g.helpers = start ++ [responseExtensions] := by
  rw [helpers]
  split
  · exact ⟨[httpRequestClass], rfl⟩
  · exact ⟨[], rfl⟩

/-- The content ends with the brace that closes the helpers on answers. -/
theorem getLast?_content (g : Generator) (d : Declarations) :
    (g.content d).getLast? = some '\x7d' := by
  obtain ⟨first, hhelpers⟩ := g.exists_helpers_eq_concat
  obtain ⟨start, hstart⟩ :=
    Text.exists_join_concat "\n\n" (g.declaredBlocks d ++ first) responseExtensions
  have hlast : responseExtensions.getLast? = some '\x7d' := by decide +kernel
  rw [content, blocks, hhelpers, ← List.append_assoc, hstart, List.getLast?_append, hlast,
    Option.some_or]

theorem indented_content (g : Generator) (d : Declarations) :
    Template.indented (.ofText (g.content d)) =
      .ofText (Text.indent 1 (Text.lineFeeds (g.content d))) := by
  obtain ⟨rest, hrest⟩ := g.exists_content_eq_cons d
  have hlast : ('p' :: rest).getLast? ≠ some '\r' := by
    rw [← hrest, getLast?_content]
    decide
  rw [hrest, Template.indented_eq_indent (by decide) hlast]

/-! ### The templates of the library -/

theorem mapM_render_helperTemplates (htemplates : g.templates = {}) :
    (g.helperTemplates.mapM fun t => t.render none) = .ok (g.helpers.map .ofText) := by
  rw [helperTemplates, helpers, htemplates]
  split <;> rfl

/-- The templates of the library have no faults. -/
theorem render_eq (htemplates : g.templates = {}) (d : Declarations) :
    g.render d = .ok (.ofText (g.file (Text.indent 1 (Text.lineFeeds (g.content d))))) := by
  have hcontent : List.intercalate (RawText.ofText "\n\n")
      ((g.declaredBlocks d).map RawText.ofText ++ g.helpers.map RawText.ofText) =
        RawText.ofText (g.content d) := by
    rw [← List.map_append, content, RawText.ofText_join, blocks]
  have hfile (slots : Slots) : g.templates.file.render (some slots) =
      .ok (Template.fileText slots) := by
    rw [htemplates]
    rfl
  rw [render, mapM_render_helperTemplates htemplates]
  simp only [ok_bind, hcontent, hfile, Template.fileText, indented_content, file,
    RawText.ofText_append, List.append_assoc]
  rfl

theorem content_lineFeeds_iff :
    Text.lineFeeds (g.content d) = g.content d ↔
      ∀ block ∈ g.blocks d, ∀ c ∈ block, Text.isLineBreak c → c = '\n' := by
  rw [Text.lineFeeds_eq_self_iff]
  constructor
  · intro h block hblock c hc
    exact h c (Text.mem_join_of_mem hblock hc)
  · intro h c hc hbreak
    rcases Text.mem_of_mem_join hc with hseparator | ⟨block, hblock, hmem⟩
    · simpa using hseparator
    · exact h block hblock c hmem hbreak

theorem code_eq_ok (htemplates : g.templates = {}) {rendering : Rendering} :
    g.code = .ok rendering ↔ ∃ d, g.declarations = .ok d ∧
      .ok (.ofText (g.file (Text.indent 1 (Text.lineFeeds (g.content d))))) = rendering := by
  rw [code]
  cases hd : g.declarations with
  | error e => simp [Except.map]
  | ok d => simp [Except.map, render_eq htemplates]

end Generator

/-- **The file around the blocks.** A finished file holds, in its namespace, the blocks one empty
line apart, with every line break written as a line feed and every line that is not empty moved
right by two spaces. This is the blocks themselves, moved right, exactly when they have no line
break other than the line feed. -/
theorem code_layout {g : Generator} (htemplates : g.templates = {}) {rendering : Rendering}
    (h : g.code = .ok rendering) :
    ∃ d, g.declarations = .ok d ∧
      rendering = .ok (.ofText (g.file (Text.indent 1 (Text.lineFeeds (g.content d))))) ∧
      (rendering = .ok (.ofText (g.file (Text.indent 1 (g.content d)))) ↔
        ∀ block ∈ g.blocks d, ∀ c ∈ block, Text.isLineBreak c → c = '\n') := by
  obtain ⟨d, hd, hfile⟩ := (Generator.code_eq_ok htemplates).mp h
  refine ⟨d, hd, hfile.symm, ?_⟩
  rw [← hfile, ← Generator.content_lineFeeds_iff, Except.ok.injEq,
    RawText.ofText_injective.eq_iff, g.file_injective.eq_iff, (Text.indent_injective 1).eq_iff]

namespace ColorSample

/-- Colors, and nothing to ask for. -/
def generator : Generator where
  schema := ⟨[⟨"Color", .enum [⟨"RED", []⟩, ⟨"GREEN", []⟩], []⟩], [], []⟩
  documents := []
  config := { typesafeOperation := true }

theorem colorFile_layout :
    ∃ d, generator.declarations = .ok d ∧ d.enums ≠ [] ∧
      generator.code = .ok (.ok (.ofText (generator.file (Text.indent 1 (generator.content d))))) := by
  obtain ⟨d, hd⟩ : ∃ d, generator.declarations = .ok d := ⟨_, rfl⟩
  have hcode := (Generator.code_eq_ok (g := generator) rfl).mpr ⟨d, hd, rfl⟩
  obtain ⟨d', hd', -, hcarried⟩ := code_layout rfl hcode
  cases hd.symm.trans hd'
  have hbreaks : (generator.blocks d).all (·.all fun c => !Text.isLineBreak c || c == '\n') := by
    cases hd
    decide +kernel
  have hfeeds : ∀ block ∈ generator.blocks d, ∀ c ∈ block, Text.isLineBreak c → c = '\n' := by
    intro block hblock c hc hbreak
    have hc := List.all_eq_true.mp (List.all_eq_true.mp hbreaks block hblock) c hc
    simpa [hbreak] using hc
  refine ⟨d, hd, ?_, hcode.trans (congrArg Except.ok (hcarried.mpr hfeeds))⟩
  cases hd
  decide

end ColorSample

namespace SeparatorSample

/-- Looks for a text that a line separator divides. -/
def operation : Operation :=
  ⟨none, .query, some "Find", [], [],
    [.field none "find" [⟨"text", .string "one\u2028two"⟩] [] []]⟩

/-- The operation, embedded. -/
def generator : Generator where
  schema :=
    ⟨[⟨"Query", .object [] [⟨"find", [], .named "String", []⟩], []⟩], [(.query, "Query")], []⟩
  documents := [⟨[.operation operation]⟩]

/-- The signature of the client method. -/
def signature : Method :=
  ⟨"Task<GraphQLResponse<object>>", "FindAsync", [.transportClient, .cancellationToken], none⟩

theorem exists_methods_eq :
    ∃ m, generator.context.methods operation = .ok [m] ∧
      '\u2028' ∈ generator.config.classText [m] := by
  have hnames : generator.context.dependencies operation = .ok [] := by
    cbv
  have htexts : generator.context.definitionTexts operation = .ok [operation.text] := by
    rw [OperationContext.definitionTexts, hnames]
    rfl
  have hsignatures : generator.context.signatures operation = .ok [signature] := rfl
  have hname : operation.supportedName = .ok "Find".toList := rfl
  have hdocument := OperationContext.documentExpression_eq "Find" rfl htexts
  rw [OperationContext.methods]
  simp only [hsignatures, hname, hdocument, ok_bind]
  exact ⟨_, rfl, by decide +kernel⟩

theorem exists_declarations_eq :
    ∃ d, generator.declarations = .ok d ∧ '\u2028' ∈ generator.config.classText d.methods := by
  obtain ⟨m, hm, hmem⟩ := exists_methods_eq
  obtain ⟨compiled, hcompiled, hmethods⟩ : ∃ compiled,
      generator.operations.mapM (Generator.compileOperation generator.context) = .ok [compiled] ∧
        compiled.methods = [m] := by
    have hoperations : generator.operations = [operation] := rfl
    rw [hoperations, List.mapM_cons, Generator.compileOperation, hm]
    exact ⟨_, rfl, rfl⟩
  refine ⟨⟨[compiled].flatMap (·.signatures), [compiled].flatMap (·.methods), [], []⟩, ?_, ?_⟩
  · rw [Generator.declarations, hcompiled]
    rfl
  · simpa [hmethods] using hmem

/-- The file does not always carry its blocks unchanged: a line separator in a string of an embedded
document becomes a line feed. -/
theorem not_always_carried :
    ¬∀ g : Generator, g.templates = {} → ∀ d text, g.declarations = .ok d →
      g.code = .ok (.ok text) → text = .ofText (g.file (Text.indent 1 (g.content d))) := by
  intro h
  obtain ⟨d, hd, hmem⟩ := exists_declarations_eq
  have hcode := (Generator.code_eq_ok (g := generator) rfl).mpr ⟨d, hd, rfl⟩
  have hcarried : Text.lineFeeds (generator.content d) = generator.content d :=
    Text.indent_injective 1
      (generator.file_injective (RawText.ofText_injective (h generator rfl d _ hd hcode)))
  have hblock : generator.config.classText d.methods ∈ generator.blocks d := by
    simp [Generator.blocks, Generator.declaredBlocks]
  have heq := Generator.content_lineFeeds_iff.mp hcarried _ hblock '\u2028' hmem (by decide)
  exact absurd heq (by decide)

end SeparatorSample

end SharpClient

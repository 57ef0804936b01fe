import SharpClient.Client
import SharpClient.Operation.Methods
import SharpClient.Proofs.Declaration.Literal
import SharpClient.Proofs.Document.Source
import SharpClient.Proofs.Selection.Fragments

/-!
# Embedded documents

The document that an operation sends is written into a verbatim literal, and the literal is
indented with the statement, the method and the class around it. The literal still ends where it
was closed, and its value is the document with a margin, which reading the document does not notice
(`embeddedDocument_parse`).

The layout around the literal is taken apart by `Framed`: a text with a place for an expression,
which is written there with all but its first line moved right.
-/

namespace SharpClient

/-! ### Layouts around an expression -/

namespace Text

/-- The layout writes a closed expression between two fixed texts, with all but its first line moved
right by `n` spaces; a comma follows it. -/
def Framed (n : Nat) (layout : Text → Text) : Prop :=
  ∃ start rest, Closed start ∧ Closed rest ∧ rest.head? = some ',' ∧
    ∀ e, Closed e → layout e = start ++ shift (spaces n) e ++ rest

variable {n : Nat} {layout : Text → Text}

/-- The first of several assignments. -/
theorem framed_join {start : Text} {parts : List Text} (hstart : Closed start)
    (hparts : ∀ p ∈ parts, Closed p) (hne : parts ≠ []) :
    Framed 0 fun e => join ",\n" ((start ++ e) :: parts) := by
  refine ⟨start, ",\n" ++ join ",\n" parts, hstart, (closed_join hne hparts).append _, rfl, ?_⟩
  intro e _
  beta_reduce
  rw [shift_no_spaces, join, List.intercalate_cons_of_ne_nil hne, List.append_assoc]
  rfl

/-- A layout with more text behind it. -/
theorem Framed.append (h : Framed n layout) {ending : Text} (hending : Closed ending) :
    Framed n fun e => layout e ++ ending := by
  obtain ⟨start, rest, hstart, hrest, hhead, heq⟩ := h
  refine ⟨start, rest ++ ending, hstart, hending.append rest, ?_, ?_⟩
  · rw [List.head?_append_of_ne_nil _ hrest.ne_nil, hhead]
  · intro e he
    beta_reduce
    rw [heq e he, List.append_assoc]

/-- A layout with more text in front of it. -/
theorem Framed.prepend (h : Framed n layout) (opening : Text) :
    Framed n fun e => opening ++ layout e := by
  obtain ⟨start, rest, hstart, hrest, hhead, heq⟩ := h
  refine ⟨opening ++ start, rest, hstart.append opening, hrest, hhead, ?_⟩
  intro e he
  beta_reduce
  rw [heq e he]
  simp only [List.append_assoc]

theorem Framed.congr {layout' : Text → Text} (h : Framed n layout)
    (heq' : ∀ e, Closed e → layout' e = layout e) : Framed n layout' := by
  obtain ⟨start, rest, hstart, hrest, hhead, heq⟩ := h
  exact ⟨start, rest, hstart, hrest, hhead, fun e he => (heq' e he).trans (heq e he)⟩

/-- A layout writes something. -/
theorem Framed.ne_nil (h : Framed n layout) {e : Text} (he : Closed e) : layout e ≠ [] := by
  obtain ⟨start, rest, hstart, -, -, heq⟩ := h
  rw [heq e he]
  simp [hstart.ne_nil]

/-- An indented layout moves the expression further right. -/
theorem Framed.indent (h : Framed n layout) (levels : Nat) :
    Framed (2 * levels + n) fun e => indent levels (layout e) := by
  obtain ⟨start, rest, hstart, hrest, hhead, heq⟩ := h
  refine ⟨(if start.head? = some '\n' then [] else spaces (2 * levels)) ++
    shift (spaces (2 * levels)) start, shift (spaces (2 * levels)) rest,
    hstart.shift.append _, hrest.shift, ?_, ?_⟩
  · rw [head?_shift, hhead]
  · intro e he
    beta_reduce
    have hclosed : Closed (start ++ shift (spaces n) e ++ rest) := hrest.append _
    have hfirst : (start ++ shift (spaces n) e ++ rest).head? = start.head? := by
      rw [List.append_assoc, List.head?_append_of_ne_nil _ hstart.ne_nil]
    rw [heq e he, indent_eq_shift levels hclosed, hfirst, shift_append (he.shift.append start),
      shift_append hstart, shift_shift]
    simp only [List.append_assoc]

/-- A layout as one of several parts. -/
theorem Framed.join (h : Framed n layout) (separator : Text) (before : List Text)
    {after : List Text} (hafter : ∀ p ∈ after, Closed p) :
    Framed n fun e => join separator (before ++ layout e :: after) := by
  induction before with
  | nil =>
    by_cases hne : after = []
    · subst hne
      have hjoin : (fun e => Text.join separator ([] ++ [layout e])) = layout := by
        funext e
        exact List.intercalate_singleton
      rwa [hjoin]
    · have hjoin : (fun e => Text.join separator ([] ++ layout e :: after)) =
          fun e => layout e ++ (separator ++ Text.join separator after) := by
        funext e
        rw [List.nil_append, Text.join, List.intercalate_cons_of_ne_nil hne, List.append_assoc]
        rfl
      rw [hjoin]
      exact h.append ((closed_join hne hafter).append separator)
  | cons b bs ih =>
    have hjoin : (fun e => Text.join separator (b :: bs ++ layout e :: after)) =
        fun e => b ++ separator ++ Text.join separator (bs ++ layout e :: after) := by
      funext e
      rw [List.cons_append, Text.join, List.intercalate_cons_of_ne_nil (by simp)]
      rfl
    rw [hjoin]
    exact ih.prepend (b ++ separator)

end Text

/-! ### Printed definitions -/

theorem closed_of_char {c : Char} (hc : c ≠ '\n') : Text.Closed [c] :=
  ⟨[], c, rfl, hc⟩

theorem closed_append_of_wrapped {a start ending : Text} (t : Text) (ha : Text.Closed a)
    (hending : Text.Closed ending) : Text.Closed (a ++ Text.wrapped start t ending) := by
  rw [Text.wrapped]
  split
  · rwa [List.append_nil]
  · exact (hending.append _).append a

theorem FragmentDefinition.closed_text (f : FragmentDefinition) : Text.Closed f.text := by
  have hspace : Text.Closed " " := closed_of_char (by decide)
  have hbrace : Text.Closed "\n\x7d" := (closed_of_char (by decide)).append ['\n']
  exact closed_append_of_wrapped _ (closed_append_of_wrapped _ (hspace.append _) hspace) hbrace

/-- A query with a name is not written in the short form. -/
theorem spaced_ne_query {keyword name : Text} (rest : List Text) (start : Text)
    (hkeyword : 5 ≤ keyword.length) (hname : name ≠ []) :
    start ++ spaced (keyword :: name :: rest) ≠ ("query" : Text) := by
  have hne : keyword ≠ [] := by
    rintro rfl
    simp at hkeyword
  intro h
  have hlength := congrArg List.length h
  have hspaced : spaced (keyword :: name :: rest) =
      keyword ++ " " ++ Text.join " " (name :: rest.filter (!·.isEmpty)) := by
    simp [spaced, hne, hname, Text.join, List.intercalate_cons_cons]
  rw [hspaced] at hlength
  simp only [List.length_append] at hlength
  have hquery : List.length ("query" : Text) = 5 := rfl
  have hspace : List.length (" " : Text) = 1 := rfl
  omega

theorem Operation.supportedName_eq_ok {o : Operation} {name : Text}
    (h : o.supportedName = .ok name) :
    o.name = some name ∧ name ≠ [] ∧ 5 ≤ o.kind.keyword.length := by
  unfold supportedName at h
  split at h
  · cases h
  · rename_i hname hother
    cases h
    refine ⟨hname, by simp, ?_⟩
    cases hkind : o.kind with
    | query | mutation | subscription => decide
    | other keyword => exact absurd hkind (hother keyword)
  · cases h

theorem Operation.closed_text {o : Operation} {name : Text} (h : o.supportedName = .ok name) :
    Text.Closed o.text := by
  have hspace : Text.Closed " " := closed_of_char (by decide)
  have hbrace : Text.Closed "\n\x7d" := (closed_of_char (by decide)).append ['\n']
  obtain ⟨hname, hne, hkeyword⟩ := supportedName_eq_ok h
  have hhead : o.name.getD [] ++ variablesText o.variableDefinitions ≠ [] := by
    simp [hname, hne]
  simp only [text]
  rw [if_neg (spaced_ne_query _ _ hkeyword hhead)]
  exact closed_append_of_wrapped _ (hspace.append _) hbrace

/-! ### The texts that an operation sends -/

namespace OperationContext

variable {c : OperationContext} {o : Operation} {name : Text}

/-- The texts are there once the fragments that the operation needs are known. -/
theorem exists_definitionTexts {names : List Text} (h : c.dependencies o = .ok names) :
    ∃ fragments, names.mapM c.fragments.get = .ok fragments ∧
      (∀ f ∈ fragments, ∃ n ∈ names, c.fragments.get n = .ok f) ∧
      c.definitionTexts o = .ok (o.text :: fragments.map (·.definition.text)) := by
  obtain ⟨fragments, hfragments, hmem⟩ := Outcome.exists_mapM fun n hn =>
    FragmentTable.exists_get_of_mem_names (FragmentTable.mem_names_of_mem_dependencies h n hn)
  refine ⟨fragments, hfragments, hmem, ?_⟩
  rw [definitionTexts, h, Outcome.ok_bind, hfragments]
  rfl

/-- The definitions that an operation sends, as one text. -/
theorem closed_definitionTexts (hname : o.supportedName = .ok name) (fragments : List Fragment) :
    Text.Closed (Text.unlines (o.text :: fragments.map (·.definition.text))) := by
  refine Text.closed_join (by simp) fun t ht => ?_
  rcases List.mem_cons.1 ht with rfl | ht
  · exact Operation.closed_text hname
  · obtain ⟨f, -, rfl⟩ := List.mem_map.1 ht
    exact FragmentDefinition.closed_text _

theorem return_not_mem_definitionTexts {fragments : List Fragment} (ho : '\r' ∉ o.text)
    (hf : ∀ f ∈ fragments, '\r' ∉ f.definition.text) :
    '\r' ∉ Text.unlines (o.text :: fragments.map (·.definition.text)) := by
  intro hmem
  rcases Text.mem_of_mem_join hmem with hbreak | ⟨t, ht, hmem⟩
  · exact absurd hbreak (by decide)
  · rcases List.mem_cons.1 ht with rfl | ht
    · exact ho hmem
    · obtain ⟨f, hfmem, rfl⟩ := List.mem_map.1 ht
      exact hf f hfmem hmem

/-! ### The class around an expression -/

theorem closed_of_mem_assignments : ∀ p ∈ c.assignments o name, Text.Closed p := by
  have hquote : Text.Closed "\"" := closed_of_char (by decide)
  intro p hp
  rcases List.mem_append.1 hp with hp | hp
  · rcases List.mem_append.1 hp with hp | hp
    · split at hp
      · rcases List.mem_cons.1 hp with rfl | hp
        · exact Text.closed_of_not_mem (by decide) (by decide)
        · rw [List.mem_singleton.1 hp]
          exact Text.closed_of_not_mem (by decide) (by decide)
      · cases hp
    · rw [List.mem_singleton.1 hp]
      exact hquote.append _
  · split at hp
    · cases hp
    · rw [List.mem_singleton.1 hp]
      exact Text.closed_of_not_mem (by decide) (by decide)

theorem assignments_ne_nil : c.assignments o name ≠ [] := by
  intro h
  have hmem : "OperationName = \"" ++ name ++ "\"" ∈ c.assignments o name :=
    List.mem_append_left _ (List.mem_append_right _ (List.mem_singleton.2 rfl))
  rw [h] at hmem
  cases hmem

theorem framed_requestStatement (c : OperationContext) (o : Operation) (name : Text) :
    Text.Framed 2 (c.requestStatement o name) := by
  have hquery : Text.Closed "Query = " := Text.closed_of_not_mem (by decide) (by decide)
  have hending : Text.Closed "\n\x7d;" := (closed_of_char (by decide)).append ['\n', '\x7d']
  exact (((Text.framed_join hquery closed_of_mem_assignments assignments_ne_nil).indent 1).prepend
    ("var gqlRequest = new " ++ c.transportRequest ++ " \x7b\n")).append hending

theorem framed_implemented (c : OperationContext) (o : Operation) (name : Text) (m : Method)
    {send : Text} (hsend : Text.Closed send) :
    Text.Framed 4 fun e => (c.implemented o name e m send).text := by
  have hbody : Text.Framed 2 fun e => c.requestStatement o name e ++ "\n" ++ send := by
    refine ((framed_requestStatement c o name).append (hsend.append "\n")).congr fun e _ => ?_
    rw [List.append_assoc]
  have hending : Text.Closed "\n\x7d" := (closed_of_char (by decide)).append ['\n']
  exact ((hbody.indent 1).prepend ("public " ++ m.signature ++ " \x7b\n")).append hending

end OperationContext

theorem Method.closed_text (m : Method) : Text.Closed m.text :=
  ((closed_of_char (c := '\x7d') (by decide)).append ['\n']).append _

theorem exists_blockText_eq (access kind name : Text) (implements : List Text) :
    ∃ opening, ∀ body, body ≠ [] →
      blockText access kind name implements body = opening ++ body ++ "\n\x7d" := by
  let heritage : Text := if implements.isEmpty then [] else " : " ++ Text.join ", " implements
  refine ⟨Text.join " " ([access, kind, name].filter (!·.isEmpty)) ++ heritage ++ " \x7b\n", ?_⟩
  intro body hbody
  exact if_neg (by simpa using hbody)

/-- The class of the client around one of its methods. -/
theorem Config.framed_classText (config : Config) (before after : List Method) {n : Nat}
    {method : Text → Method} (h : Text.Framed n fun e => (method e).text) :
    Text.Framed (2 + n) fun e => config.classText (before ++ method e :: after) := by
  have hafter : ∀ p ∈ after.map Method.text, Text.Closed p := by
    intro p hp
    obtain ⟨m, -, rfl⟩ := List.mem_map.1 hp
    exact m.closed_text
  have hbody := (h.join "\n\n" (config.transportDeclaration?.toList ++ before.map Method.text)
    hafter).indent 1
  have hending : Text.Closed "\n\x7d" := (closed_of_char (by decide)).append ['\n']
  obtain ⟨opening, hblock⟩ :=
    exists_blockText_eq "public" "class" config.operationsClassName [config.interfaceName]
  refine ((hbody.prepend opening).append hending).congr fun e he => ?_
  rw [← hblock _ (hbody.ne_nil he), classText]
  simp only [List.map_append, List.map_cons, List.append_assoc]
  congr 1
  exact if_neg (by simp)

namespace OperationContext

variable {c : OperationContext} {o : Operation} {name : Text}

/-- The literal of a document, moved right by `n` spaces, holds the document with a margin. -/
theorem shift_literal (n : Nat) {t : Text} (ht : Text.Closed t) :
    Text.shift (Text.spaces n) ("@\"\n" ++ Text.indent 2 (Literal.verbatimBody t) ++ "\"") =
      "@\"" ++ Literal.verbatimBody (Text.shift (Text.spaces (n + 4)) ('\n' :: t)) ++ "\"" := by
  have hquoted := Literal.closed_verbatimBody ht
  have hopening : Text.Closed "@\"" := Text.closed_of_not_mem (by decide) (by decide)
  have hclosed : Text.Closed ('\n' :: Literal.verbatimBody t) := hquoted.append ['\n']
  have hsplit : ("@\"\n" : Text) ++ Text.indent 2 (Literal.verbatimBody t) =
      "@\"" ++ '\n' :: Text.indent 2 (Literal.verbatimBody t) := rfl
  rw [hsplit, Text.newline_indent 2 hquoted, Text.shift_append (hclosed.shift.append _),
    Text.shift_append hopening, Text.shift_shift, Literal.verbatimBody_shift]
  rfl

theorem documentExpression_eq (name : Text) {texts : List Text}
    (hmode : c.config.documentMode = .documentNode) (h : c.definitionTexts o = .ok texts) :
    c.documentExpression o name =
      .ok ("@\"\n" ++ Text.indent 2 (Literal.verbatimBody (Text.unlines texts)) ++ "\"") := by
  rw [documentExpression, hmode]
  simp only [documentText, h, Outcome.map_ok]

theorem closed_of_mem_sendStatements {kind : OperationKind} {payload send : Text}
    (h : send ∈ sendStatements kind payload) : Text.Closed send := by
  have hcall : Text.Closed ">(gqlRequest, cancellationToken);" :=
    Text.closed_of_not_mem (by decide) (by decide)
  have hstream : Text.Closed ">(gqlRequest);" := Text.closed_of_not_mem (by decide) (by decide)
  have hhandled : Text.Closed ">(gqlRequest, exceptionHandler);" :=
    Text.closed_of_not_mem (by decide) (by decide)
  cases kind with
  | subscription =>
    rcases List.mem_cons.1 h with rfl | h
    · exact hstream.append _
    · rw [List.mem_singleton.1 h]
      exact hhandled.append _
  | query | mutation | other =>
    rw [List.mem_singleton.1 h]
    exact hcall.append _

/-- The methods of a supported operation whose document can be written. -/
theorem exists_methods {document : Text} (hname : o.supportedName = .ok name)
    (hdocument : c.documentExpression o name = .ok document) :
    ∃ methods, c.methods o = .ok methods ∧ methods ≠ [] ∧ ∀ m ∈ methods,
      ∃ signature send, Text.Closed send ∧ m = c.implemented o name document signature send := by
  obtain ⟨s, ss, hsignatures⟩ : ∃ s ss, c.signatures o = .ok (s :: ss) := by
    rw [signatures, hname, Outcome.ok_bind]
    cases o.kind with
    | subscription => exact ⟨_, _, rfl⟩
    | query | mutation | other => exact ⟨_, _, rfl⟩
  obtain ⟨d, ds, hsend⟩ : ∃ d ds, sendStatements o.kind (c.payloadType name) = d :: ds := by
    cases o.kind with
    | subscription => exact ⟨_, _, rfl⟩
    | query | mutation | other => exact ⟨_, _, rfl⟩
  refine ⟨(s :: ss).zipWith (c.implemented o name document)
    (sendStatements o.kind (c.payloadType name)), ?_, by rw [hsend]; simp, ?_⟩
  · rw [methods, hsignatures, Outcome.ok_bind, hname, Outcome.ok_bind, hdocument, Outcome.ok_bind]
    rfl
  · intro m hm
    obtain ⟨i, hi, rfl⟩ := List.mem_iff_getElem.1 hm
    rw [List.getElem_zipWith]
    exact ⟨_, _, closed_of_mem_sendStatements (List.getElem_mem _), rfl⟩

end OperationContext

/-! ### The embedded document -/

/-- A text with a place for an expression, `layout`, holds there a verbatim literal of this value.
The texts before and behind the place are what stands around every expression of one line. The
literal is read behind the quote that opens it, and ends at the last quote of its expression. -/
def HoldsLiteral (layout : Text → Text) (literal value : Text) : Prop :=
  ∃ start body rest,
    (∀ e, e ≠ [] → '\n' ∉ e → layout e = start ++ e ++ rest) ∧
    layout literal = start ++ ("@\"" ++ body ++ "\"") ++ rest ∧
    Literal.readVerbatim (body ++ "\"" ++ rest) = some (value, rest)

theorem holdsLiteral_of_framed {n : Nat} {layout : Text → Text} (h : Text.Framed n layout)
    {t : Text} (ht : Text.Closed t) :
    HoldsLiteral layout ("@\"\n" ++ Text.indent 2 (Literal.verbatimBody t) ++ "\"")
      (Text.shift (Text.spaces (n + 4)) ('\n' :: t)) := by
  obtain ⟨start, rest, -, -, hhead, hlayout⟩ := h
  have hquote : Text.Closed "\"" := closed_of_char (by decide)
  -- A quote behind the literal would be read as the second one of a pair.
  have hcomma : rest.head? ≠ some '"' := by
    rw [hhead]
    decide
  refine ⟨start, Literal.verbatimBody (Text.shift (Text.spaces (n + 4)) ('\n' :: t)), rest,
    ?_, ?_, ?_⟩
  · intro e hne hline
    rw [hlayout e (Text.closed_of_not_mem hne hline), Text.shift_of_not_mem hline]
  · rw [hlayout _ (hquote.append _), OperationContext.shift_literal n ht]
  · rw [List.append_assoc]
    exact Literal.readVerbatim_verbatimBody _ hcomma

/-- A line feed in front of a document is ignored. -/
theorem Scan.ofText_newline (t : Text) : Scan.ofText ('\n' :: t) = Scan.ofText t := by
  have hskip : Lexeme.skipIgnored false ('\n' :: t) = Lexeme.skipIgnored false t :=
    Lexeme.skipIgnored_newline false t
  cases hs : Lexeme.skipIgnored false t with
  | nil => rw [ofText_done hs, ofText_done (hskip.trans hs)]
  | cons c cs =>
    cases hread : Lexeme.read c cs with
    | error fault => rw [ofText_fault hs hread, ofText_fault (hskip.trans hs) hread]
    | ok p => rw [ofText_lexeme hs hread, ofText_lexeme (hskip.trans hs) hread]

theorem Document.toOption_parse_shift (n : Nat) {t : Text} (hr : '\r' ∉ t) :
    (parse (Text.shift (Text.spaces n) ('\n' :: t))).toOption =
      (parse t).toOption.map (inSource (Text.shift (Text.spaces n) ('\n' :: t))) := by
  have hindented : Indented n ('\n' :: t) (Text.shift (Text.spaces n) ('\n' :: t)) :=
    indented_shift n (by simpa using hr)
  refine toOption_parse_of_lexemes ?_
  rw [lexemes_indented hindented, Scan.ofText_newline]

/-- The document that an operation sends survives the way into the class of the client: the
literal in each of its methods ends where it was closed, and its value is read as the same
definitions as the texts that were joined, or is refused like these. The texts hold no carriage
return. -/
theorem embeddedDocument_parse {c : OperationContext} {o : Operation} {name : Text}
    {names : List Text} (hmode : c.config.documentMode = .documentNode)
    (hname : o.supportedName = .ok name) (hnames : c.dependencies o = .ok names)
    (ho : '\r' ∉ o.text)
    (hf : ∀ n ∈ names, ∀ f, c.fragments.get n = .ok f → '\r' ∉ f.definition.text) :
    ∃ fragments document methods,
      names.mapM c.fragments.get = .ok fragments ∧
      c.documentExpression o name = .ok document ∧
      c.methods o = .ok methods ∧ methods ≠ [] ∧
      ∀ m ∈ methods, ∃ signature send, m = c.implemented o name document signature send ∧
        ∀ before after, ∃ value,
          HoldsLiteral (fun e => c.config.classText
            (before ++ c.implemented o name e signature send :: after)) document value ∧
          (Document.parse value).toOption =
            (Document.parse (Text.unlines
              (o.text :: fragments.map (·.definition.text)))).toOption.map
              (Document.inSource value) := by
  obtain ⟨fragments, hfragments, hmem, htexts⟩ := OperationContext.exists_definitionTexts hnames
  have hdocument := OperationContext.documentExpression_eq name hmode htexts
  obtain ⟨methods, hmethods, hne, himplemented⟩ := OperationContext.exists_methods hname hdocument
  have hreturn := OperationContext.return_not_mem_definitionTexts ho fun f hfmem => by
    obtain ⟨n, hn, hget⟩ := hmem f hfmem
    exact hf n hn f hget
  refine ⟨fragments, _, methods, hfragments, hdocument, hmethods, hne, fun m hm => ?_⟩
  obtain ⟨signature, send, hsend, rfl⟩ := himplemented m hm
  refine ⟨signature, send, rfl, fun before after => ?_⟩
  have hframed := c.config.framed_classText before after
    (OperationContext.framed_implemented c o name signature hsend)
  have hclosed := OperationContext.closed_definitionTexts hname fragments
  exact ⟨_, holdsLiteral_of_framed hframed hclosed, Document.toOption_parse_shift _ hreturn⟩

namespace NoteSample

/-- The notes of a user. -/
def notes : Fragment :=
  .ofDefinition ⟨none, "Notes", "User", [], [.field none "notes" [] [] []]⟩

/-- One fragment, and documents that are embedded. -/
def context : OperationContext where
  schema := ⟨[], [], []⟩
  scalars := ⟨[]⟩
  convention := .keep
  fragments := ⟨[notes]⟩
  limit := 1
  config := {}

/-- Looks for a note of several lines, one of them empty. -/
def operation : Operation :=
  ⟨none, .query, some "Find", [], [],
    [.field none "find" [⟨"note", .blockString "one \"two\"\n\n  three"⟩] []
      [.spread "Notes" []]]⟩

/-- The lexemes of both definitions. -/
def lexemes : List Lexeme :=
  [.name "query", .name "Find", .punctuator .braceL, .name "find", .punctuator .parenL,
    .name "note", .punctuator .colon, .blockString "one \"two\"\n\n  three", .punctuator .parenR,
    .punctuator .braceL, .punctuator .spread, .name "Notes", .punctuator .braceR,
    .punctuator .braceR, .name "fragment", .name "Notes", .name "on", .name "User",
    .punctuator .braceL, .name "notes", .punctuator .braceR, .done]

theorem parse_eq :
    (Document.parse (Text.unlines [operation.text, notes.definition.text])).toOption =
      some ⟨[.operation operation, .fragment notes.definition]⟩ := by
  have hlexemes : (Scan.ofText (Text.unlines [operation.text, notes.definition.text])).lexemes.map
      (·.1) = lexemes := by decide +kernel
  rw [Document.parse, Reader.toOption_run, hlexemes]
  rfl

theorem return_not_mem_fragments (n : Text) (hn : n ∈ ["Notes".toList]) (f : Fragment)
    (h : context.fragments.get n = .ok f) : '\r' ∉ f.definition.text := by
  rw [List.mem_singleton.1 hn] at h
  cases h
  decide +kernel

theorem noteDocument_parse :
    ∃ document methods,
      context.documentExpression operation "Find" = .ok document ∧
      context.methods operation = .ok methods ∧ methods ≠ [] ∧
      ∀ m ∈ methods, ∃ signature send,
        m = context.implemented operation "Find" document signature send ∧
        ∀ before after, ∃ value,
          HoldsLiteral (fun e => context.config.classText (before ++
            context.implemented operation "Find" e signature send :: after))
            document value ∧
          (Document.parse value).toOption =
            some ⟨[.operation operation, .fragment notes.definition]⟩ := by
  have hnames : context.dependencies operation = .ok ["Notes".toList] := by
    cbv
  have hreturn : '\r' ∉ operation.text := by decide +kernel
  obtain ⟨fragments, document, methods, hfragments, hdocument, hmethods, hne, h⟩ :=
    embeddedDocument_parse rfl rfl hnames hreturn return_not_mem_fragments
  cases hfragments
  refine ⟨document, methods, hdocument, hmethods, hne, fun m hm => ?_⟩
  obtain ⟨signature, send, hm', hliteral⟩ := h m hm
  refine ⟨signature, send, hm', fun before after => ?_⟩
  obtain ⟨value, hvalue, hparse⟩ := hliteral before after
  refine ⟨value, hvalue, hparse.trans ?_⟩
  exact congrArg (Option.map (Document.inSource value)) parse_eq

end NoteSample

end SharpClient

import SharpClient.Proofs.Declaration.OnePass
import SharpClient.Proofs.Declaration.RegularLiteral
import SharpClient.Proofs.Operation.Embedding

/-!
# Endpoints in the client

The declaration of the transport client holds the configured endpoints as string literals, and the
class of the client holds the declaration. Both are described as pieces (`Piece`): code that knows
nothing of the endpoints, and places for the literals of endpoints. The text is made of the pieces,
and a literal that is read from its opening quote ends where the next piece begins
(`endpoints_read_back`). So whatever an endpoint holds, none of it is read as code.
-/

namespace SharpClient

/-! ### Pieces -/

/-- One of the endpoints of a transport client. -/
inductive Endpoint
  | prod
  | dev
  deriving DecidableEq, Repr

/-- A piece of generated code: a fixed text, or the literal of an endpoint. -/
inductive Piece
  | code (text : Text)
  | literal (endpoint : Endpoint)

namespace Piece

/-- The text of a piece, by the values of the endpoints. -/
def text (value : Endpoint → Text) : Piece → Text
  | code t => t
  | literal e => Literal.regular (value e)

/-- The text of pieces in a row. -/
def texts (value : Endpoint → Text) (pieces : List Piece) : Text :=
  pieces.flatMap (text value)

/-- A piece with its lines moved right. Literals have no lines of their own. -/
def shift (margin : Text) : Piece → Piece
  | code t => code (Text.shift margin t)
  | literal e => literal e

/-- The code is made of the pieces. Wherever it has the literal of an endpoint, a literal that is
read from its opening quote denotes the endpoint and ends where the next piece begins. -/
def ReadBack (value : Endpoint → Text) (pieces : List Piece) (code : Text) : Prop :=
  code = texts value pieces ∧
    ∀ before e after, pieces = before ++ literal e :: after →
      Literal.readRegular (code.drop (texts value before).length) =
        some (Literal.units (value e), texts value after)

variable {value : Endpoint → Text}

theorem texts_append (a b : List Piece) : texts value (a ++ b) = texts value a ++ texts value b :=
  List.flatMap_append

theorem texts_framed (a b : Text) (pieces : List Piece) :
    texts value (code a :: (pieces ++ [code b])) = a ++ texts value pieces ++ b := by
  simp [texts, text]

theorem readBack_texts (h : ∀ e, Literal.isOneLine (value e))
    (pieces : List Piece) : ReadBack value pieces (texts value pieces) := by
  refine ⟨rfl, ?_⟩
  rintro before e after rfl
  rw [texts_append, List.drop_left]
  exact Literal.readRegular_regular (h e) _

theorem closed_literal (e : Endpoint) : Text.Closed ((literal e).text value) :=
  ((closed_of_char (c := '"') (by decide)).append _).append ['"']

/-- Closed pieces may be moved right one by one. -/
theorem shift_texts (h : ∀ e, Literal.isOneLine (value e)) (margin : Text)
    {pieces : List Piece} (hclosed : ∀ p ∈ pieces, Text.Closed (p.text value)) :
    Text.shift margin (texts value pieces) = texts value (pieces.map (shift margin)) := by
  induction pieces with
  | nil => rfl
  | cons p ps ih =>
    obtain ⟨hp, hps⟩ := List.forall_mem_cons.mp hclosed
    have hfirst : Text.shift margin (p.text value) = (p.shift margin).text value := by
      cases p with
      | code t => rfl
      | literal e => exact Text.shift_of_not_mem (Literal.newline_not_mem_regular (h e))
    calc Text.shift margin (texts value (p :: ps))
        = Text.shift margin (p.text value) ++ Text.shift margin (texts value ps) :=
          Text.shift_append hp _
      _ = texts value ((p :: ps).map (shift margin)) := by
          rw [hfirst, ih hps]
          rfl

end Piece

namespace HttpClient

/-- The value of an endpoint; one that is not configured counts as empty. -/
def endpoint (h : HttpClient) : Endpoint → Text
  | .prod => h.prodEndpoint
  | .dev => h.devEndpoint.getD []

/-- The condition under which the secondary endpoint is used, if it may be used. -/
def condition? (h : HttpClient) : Option Text :=
  h.secondary?.map Prod.snd

theorem dev_of_secondary? {h : HttpClient} {dev condition : Text}
    (hs : h.secondary? = some (dev, condition)) : h.endpoint .dev = dev := by
  rw [secondary?] at hs
  split at hs
  case h_1 d hdev _ =>
    split at hs
    · cases hs
    · cases hs
      rw [endpoint, hdev]
      rfl
  case h_2 => cases hs

end HttpClient

namespace Config

/-- The pieces of the statements that create the transport client. -/
def statementPieces : Option Text → List Piece
  | none =>
    [.code "_client = new GraphQLHttpClient(", .literal .prod,
      .code ", new NewtonsoftJsonSerializer());"]
  | some condition =>
    [.code ("var endpoint = " ++ condition ++ " ? "), .literal .dev, .code " : ", .literal .prod,
      .code (";\n" ++ Text.spaces 10 ++ newTransport "endpoint")]

/-- The pieces of the declaration of the transport client. -/
def declarationPieces (condition : Option Text) : List Piece :=
  .code (Text.unlines transportOpening ++ "\n" ++ Text.spaces 10) ::
    (statementPieces condition ++ [.code ("\n" ++ Text.unlines transportClosing)])

/-- The methods of the client as they follow the declaration. -/
def methodsBehind (methods : List Method) : Text :=
  methods.flatMap fun m => "\n\n" ++ m.text

/-- The header of the class of the client. -/
def classOpening (name interface : Text) : Text :=
  "public class" ++ (if name.isEmpty then [] else ' ' :: name) ++ " : " ++ interface ++ " \x7b\n"

/-- The pieces of the class of the client. -/
def classPieces (name interface : Text) (methods : List Method) (condition : Option Text) :
    List Piece :=
  .code (classOpening name interface ++ Text.spaces 2) ::
    ((declarationPieces condition).map (Piece.shift (Text.spaces 2)) ++
      [.code (Text.shift (Text.spaces 2) (methodsBehind methods) ++ "\n\x7d")])

/-! ### The declaration -/

theorem unlines_initializer (h : HttpClient) :
    Text.unlines ((transportInitializer h).map (Text.spaces 10 ++ ·)) =
      Text.spaces 10 ++ Piece.texts h.endpoint (statementPieces h.condition?) := by
  rw [transportInitializer, HttpClient.condition?]
  cases hs : h.secondary? with
  | none =>
    have hone (s a b : Text) : Text.unlines [s ++ (a ++ Literal.regular h.prodEndpoint ++ b)] =
        s ++ Piece.texts h.endpoint [.code a, .literal .prod, .code b] := by
      simp [Text.unlines, Text.join, Piece.texts, Piece.text, HttpClient.endpoint]
    exact hone _ _ _
  | some p =>
    obtain ⟨dev, condition⟩ := p
    have htwo (s a b n : Text) :
        Text.unlines [s ++ (a ++ Literal.regular dev ++ b ++ Literal.regular h.prodEndpoint ++ ";"),
          s ++ n] =
        s ++ Piece.texts h.endpoint
          [.code a, .literal .dev, .code b, .literal .prod, .code (";\n" ++ s ++ n)] := by
      rw [← HttpClient.dev_of_secondary? hs]
      simp [Text.unlines, Text.join, Piece.texts, Piece.text, HttpClient.endpoint,
        List.intercalate_cons_cons]
    exact htwo _ _ _ _

theorem transportDeclaration?_eq {c : Config} {h : HttpClient} (hc : c.httpClient = some h) :
    c.transportDeclaration? = some (Piece.texts h.endpoint (declarationPieces h.condition?)) := by
  have hopening : transportOpening ≠ [] := by decide
  have hclosing : transportClosing ≠ [] := by decide
  have hstatements : (transportInitializer h).map (Text.spaces 10 ++ ·) ≠ [] := by
    rw [transportInitializer]
    split <;> simp
  have hregroup (a n s t b : Text) :
      a ++ n ++ (s ++ t) ++ n ++ b = a ++ n ++ s ++ t ++ (n ++ b) := by
    simp only [List.append_assoc]
  rw [transportDeclaration?, hc, Option.map_some, declarationPieces, Piece.texts_framed,
    Text.unlines_append_of_ne_nil (List.append_ne_nil_of_left_ne_nil hopening _) hclosing,
    Text.unlines_append_of_ne_nil hopening hstatements, unlines_initializer, hregroup]

/-! ### The class -/

theorem closed_unlines_transportClosing : Text.Closed (Text.unlines transportClosing) := by
  have hlast : transportClosing = transportClosing.dropLast ++ ["\x7d".toList] := rfl
  rw [hlast, Text.unlines_append_of_ne_nil (by decide) (by decide)]
  exact (closed_of_char (by decide)).append _

theorem closed_newTransport (endpoint : Text) : Text.Closed (newTransport endpoint) :=
  Text.Closed.append (Text.closed_of_not_mem (by decide) (by decide)) _

/-- No piece of the declaration ends with a line. -/
theorem closed_of_mem_declarationPieces (value : Endpoint → Text) (condition : Option Text) :
    ∀ p ∈ declarationPieces condition, Text.Closed (p.text value) := by
  have hspaces : Text.Closed (Text.spaces 10) := Text.closed_of_not_mem (by decide) (by decide)
  have hstatements : ∀ p ∈ statementPieces condition, Text.Closed (p.text value) := by
    cases condition with
    | none =>
      have hopening : Text.Closed "_client = new GraphQLHttpClient(" :=
        Text.closed_of_not_mem (by decide) (by decide)
      have hclosing : Text.Closed ", new NewtonsoftJsonSerializer());" :=
        Text.closed_of_not_mem (by decide) (by decide)
      rw [statementPieces, List.forall_mem_cons, List.forall_mem_cons, List.forall_mem_singleton]
      exact ⟨hopening, Piece.closed_literal _, hclosing⟩
    | some condition =>
      have hquestion : Text.Closed " ? " := Text.closed_of_not_mem (by decide) (by decide)
      have hcolon : Text.Closed " : " := Text.closed_of_not_mem (by decide) (by decide)
      rw [statementPieces, List.forall_mem_cons, List.forall_mem_cons, List.forall_mem_cons,
        List.forall_mem_cons, List.forall_mem_singleton]
      exact ⟨hquestion.append _, Piece.closed_literal _, hcolon, Piece.closed_literal _,
        (closed_newTransport _).append _⟩
  rw [declarationPieces, List.forall_mem_cons, List.forall_mem_append, List.forall_mem_singleton]
  exact ⟨hspaces.append _, hstatements, closed_unlines_transportClosing.append _⟩

/-- The declaration begins and ends with a character that is no line feed. -/
theorem closed_texts_declarationPieces (value : Endpoint → Text) (condition : Option Text) :
    Text.Closed (Piece.texts value (declarationPieces condition)) ∧
      (Piece.texts value (declarationPieces condition)).head? = some 'p' := by
  obtain ⟨rest, hopening⟩ : ∃ rest, Text.unlines transportOpening = 'p' :: rest := ⟨_, rfl⟩
  rw [declarationPieces, Piece.texts_framed]
  refine ⟨(closed_unlines_transportClosing.append _).append _, ?_⟩
  rw [hopening]
  rfl

/-- The declaration and the methods are moved right one by one. -/
theorem indent_join_methods {declaration : Text} (hclosed : Text.Closed declaration)
    (hhead : declaration.head? ≠ some '\n') (methods : List Method) :
    Text.indent 1 (Text.join "\n\n" (declaration :: methods.map Method.text)) =
      Text.spaces 2 ++ (Text.shift (Text.spaces 2) declaration ++
        Text.shift (Text.spaces 2) (methodsBehind methods)) := by
  have hall : ∀ p ∈ declaration :: methods.map Method.text, Text.Closed p :=
    List.forall_mem_cons.mpr ⟨hclosed, List.forall_mem_map.mpr fun m _ => m.closed_text⟩
  have hjoin : Text.join "\n\n" (declaration :: methods.map Method.text) =
      declaration ++ methodsBehind methods := by
    rw [Text.join_cons_eq_flatMap, List.flatMap_map]
    rfl
  have hfirst : (declaration ++ methodsBehind methods).head? ≠ some '\n' := by
    rwa [List.head?_append_of_ne_nil _ hclosed.ne_nil]
  rw [Text.indent_eq_shift 1 (Text.closed_join (by simp) hall), hjoin, if_neg hfirst,
    Text.shift_append hclosed]

theorem blockText_client (name interface : Text) {body : Text} (hbody : body ≠ []) :
    blockText "public" "class" name [interface] body =
      classOpening name interface ++ body ++ "\n\x7d" := by
  have hblock : blockText "public" "class" name [interface] body =
      Text.join " " (["public".toList, "class".toList, name].filter (!·.isEmpty)) ++
        (" : " ++ Text.join ", " [interface]) ++ " \x7b\n" ++ body ++ "\n\x7d" :=
    if_neg (by simpa using hbody)
  have hregroup (a b i c d e : Text) :
      a ++ (b ++ i) ++ c ++ d ++ e = a ++ b ++ i ++ c ++ d ++ e := by
    simp only [List.append_assoc]
  have hinterface : Text.join ", " [interface] = interface := List.intercalate_singleton
  rw [hblock, join_header, hinterface]
  exact hregroup _ _ _ _ _ _

theorem classText_eq {c : Config} {h : HttpClient} (hc : c.httpClient = some h)
    (hline : ∀ e, Literal.isOneLine (h.endpoint e)) (methods : List Method) :
    c.classText methods = Piece.texts h.endpoint
      (classPieces c.operationsClassName c.interfaceName methods h.condition?) := by
  obtain ⟨hclosed, hhead⟩ := closed_texts_declarationPieces h.endpoint h.condition?
  -- The class moves the lines of the declaration right, and no line begins inside a literal.
  have hshift := Piece.shift_texts hline (Text.spaces 2)
    (closed_of_mem_declarationPieces h.endpoint h.condition?)
  have hbody := indent_join_methods hclosed (by simp [hhead]) methods
  have hne : Text.indent 1 (Text.join "\n\n" (Piece.texts h.endpoint
      (declarationPieces h.condition?) :: methods.map Method.text)) ≠ [] := by
    rw [hbody]
    exact List.append_ne_nil_of_left_ne_nil (by decide) _
  have hregroup (a s d m e : Text) : a ++ (s ++ (d ++ m)) ++ e = a ++ s ++ d ++ (m ++ e) := by
    simp only [List.append_assoc]
  rw [classText, transportDeclaration?_eq hc, Option.toList_some, List.singleton_append,
    if_neg (by simp), blockText_client _ _ hne, hbody, hshift, classPieces, Piece.texts_framed,
    hregroup]

/-- **Endpoint literals denote the endpoints.** Where each endpoint keeps to one line, the
declaration of the transport client and the class of the client are made of code that does not
depend on the endpoints, and of the literals of endpoints. A literal that is read from its opening
quote denotes the endpoint and ends at its own closing quote, before the next piece. -/
theorem endpoints_read_back (c : Config) (h : HttpClient) (hc : c.httpClient = some h)
    (hline : ∀ e, Literal.isOneLine (h.endpoint e)) (methods : List Method) :
    (∃ declaration, c.transportDeclaration? = some declaration ∧
      Piece.ReadBack h.endpoint (declarationPieces h.condition?) declaration) ∧
    Piece.ReadBack h.endpoint
      (classPieces c.operationsClassName c.interfaceName methods h.condition?)
      (c.classText methods) := by
  refine ⟨⟨_, transportDeclaration?_eq hc, Piece.readBack_texts hline _⟩, ?_⟩
  rw [classText_eq hc hline]
  exact Piece.readBack_texts hline _

end Config

namespace QuoteSample

/-- Endpoints with backslashes before quotes and at their ends. -/
def client : HttpClient where
  prodEndpoint := "https://a/\\\"b\\\\"
  devEndpoint := some "\"\\"
  useDevIf := some "IsDebug"

def config : Config where
  httpClient := some client

theorem quotes_read_back :
    (∀ e, Literal.isOneLine (client.endpoint e)) ∧
    (∃ before after,
      Config.declarationPieces (some "IsDebug".toList) = before ++ .literal .dev :: after ∧
      ∃ declaration, config.transportDeclaration? = some declaration ∧
        Literal.readRegular (declaration.drop (Piece.texts client.endpoint before).length) =
          some (Literal.units "\"\\", Piece.texts client.endpoint after)) ∧
    ∃ before after,
      Config.classPieces "GraphQLClient" "IGraphQLClient" [] (some "IsDebug".toList) =
        before ++ .literal .prod :: after ∧
      Literal.readRegular
          ((config.classText []).drop (Piece.texts client.endpoint before).length) =
        some (Literal.units "https://a/\\\"b\\\\", Piece.texts client.endpoint after) := by
  have hline : ∀ e, Literal.isOneLine (client.endpoint e) := by
    intro e
    cases e with
    | prod | dev => decide
  obtain ⟨⟨declaration, hdeclaration, -, hread⟩, -, hclass⟩ :=
    Config.endpoints_read_back config client rfl hline []
  exact ⟨hline,
    ⟨_ :: _ :: [], _, rfl, declaration, hdeclaration, hread (_ :: _ :: []) .dev _ rfl⟩,
    ⟨_ :: _ :: _ :: _ :: _ :: [], _, rfl, hclass (_ :: _ :: _ :: _ :: _ :: []) .prod _ rfl⟩⟩

end QuoteSample

end SharpClient

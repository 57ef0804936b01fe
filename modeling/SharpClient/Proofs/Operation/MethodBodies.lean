import SharpClient.Proofs.Declaration.Tokens
import SharpClient.Proofs.Naming.DerivedNames
import SharpClient.Proofs.Operation.Embedding

/-!
# Bodies of methods

A method of the client builds a request and hands it to the transport client. Which names its
statements use depends on the options and the operation in several places: the fields of the request,
the call, the parameters, and the client that the class may own. `Method.Agrees` says that these
places fit together.

The statements are text, so what they refer to is read off their tokens. For the statement that builds
the request these are computed once (`scan_body`): the document is one literal, or a member of another
class, and adds no name of its own. The statement that sends it is one of four, which are told apart
by `Sending`, together with the signature that goes with each.
-/

namespace SharpClient

open Code
open Lexeme (isNameChar)

/-- The names that a method's statements take from its parameters or from the class. -/
def suppliedNames : List Text :=
  List.map String.toList
    ["client", "request", "authToken", "headers", "exceptionHandler", "cancellationToken"]

/-- The configuration makes the class of the client declare a static property of this name. -/
def Config.DeclaresStatic (config : Config) (name : Text) : Prop :=
  ∃ text type, config.transportDeclaration? = some text ∧
    [.word "static", .word type, .word name, .mark '\x7b'] <:+: tokens text

/-- The statements of a method, given by their tokens, agree with its signature. -/
structure Method.Agrees (config : Config) (m : Method) (statements : List Token) : Prop where
  /-- The supplied names in use are the parameters, and what the class declares. -/
  uses_iff : ∀ n ∈ suppliedNames, n ∈ names statements ↔
    n ∈ m.parameters.map (·.name) ∨ n = "client" ∧ config.DeclaresStatic n
  /-- The transport client has one source. -/
  clientOnce : ¬ ("client".toList ∈ m.parameters.map (·.name) ∧ config.DeclaresStatic "client")
  distinct : (m.parameters.map (·.name)).Nodup
  /-- Behind a parameter that may be left out, all others may be left out. -/
  defaultsLast : m.parameters.Pairwise fun p q => p.default.isSome → q.default.isSome
  /-- The type argument of the call is that of the answer. -/
  payload : ∃ argument, typeArgument? statements = some argument ∧
    typeArgument? (tokens m.returnType) = some argument

namespace OperationContext

variable {c : OperationContext} {o : Operation} {name document : Text}

/-! ### The type of the payload -/

theorem all_isNameChar_payloadType (c : OperationContext) (h : IsName name) :
    (c.payloadType name).all isNameChar := by
  rw [payloadType]
  split
  case isTrue =>
    have happly := c.convention.all_isNameChar_apply h
    have hstem : (Convention.withoutGet (c.convention.apply name)).all isNameChar := by
      rw [Convention.withoutGet]
      split
      · exact List.all_eq_true.mpr fun d hd =>
          List.all_eq_true.mp happly d (List.mem_of_mem_drop hd)
      · exact happly
    rw [Convention.responseClass_eq, List.all_append, hstem]
    decide
  case isFalse => decide

theorem payloadType_not_mem_suppliedNames (c : OperationContext) (name : Text) :
    c.payloadType name ∉ suppliedNames := by
  have hending : ∀ n ∈ suppliedNames, ¬ "Payload".toList <:+ n := by decide
  rw [payloadType]
  split
  case isTrue =>
    rw [Convention.responseClass_eq]
    exact fun hmem => hending _ hmem (List.suffix_append _ _)
  case isFalse => decide

theorem payloadType_ne_nil (c : OperationContext) (name : Text) : c.payloadType name ≠ [] := by
  rw [payloadType]
  split
  case isTrue =>
    rw [Convention.responseClass_eq]
    exact List.append_ne_nil_of_right_ne_nil _ (by decide)
  case isFalse => decide

/-! ### The statement that builds the request -/

/-- The tokens of the expression for what an operation sends. -/
def documentTokens (c : OperationContext) (name : Text) : List Token :=
  match c.config.documentMode with
  | .external => [.word "Operations", .mark '.', .member name]
  | .documentNode => [.literal]

/-- A document is one literal, whatever it holds. -/
theorem scan_document (hname : o.supportedName = .ok name) (hletters : IsName name)
    (hdocument : c.documentExpression o name = .ok document) :
    scan .between (document ++ ",\n") = (c.documentTokens name ++ [.mark ','], .between) := by
  rw [documentExpression] at hdocument
  rw [documentTokens]
  cases hmode : c.config.documentMode with
  | external =>
    rw [hmode] at hdocument
    cases hdocument
    have hstart : scan .between "Operations." = ([.word "Operations", .mark '.'], .dot) := by
      decide +kernel
    rw [scan_append, scan_append, hstart, scan_dot hletters.ne_nil hletters.all_isNameChar]
    rfl
  | documentNode =>
    rw [hmode] at hdocument
    obtain ⟨body, hbody, rfl⟩ := Outcome.map_eq_ok.mp hdocument
    obtain ⟨texts, htexts, rfl⟩ := Outcome.map_eq_ok.mp hbody
    obtain ⟨names, hnames, -⟩ := Outcome.bind_eq_ok.mp htexts
    obtain ⟨fragments, -, -, hdefinitions⟩ := exists_definitionTexts hnames
    cases hdefinitions.symm.trans htexts
    rw [← Text.shift_no_spaces (_ ++ "\""), shift_literal 0 (closed_definitionTexts hname fragments),
      scan_append, scan_verbatim]
    rfl

/-- The assignments in front of the operation's name. -/
def assignmentsBefore (c : OperationContext) : Text :=
  if c.ownsClient then "AuthToken = authToken,\nHeaders = headers,\nOperationName = \""
  else "OperationName = \""

/-- The assignments behind the operation's name. -/
def assignmentsBehind (o : Operation) : Text :=
  if o.variableDefinitions.isEmpty then "\"" else "\",\nVariables = request"

theorem join_assignments (c : OperationContext) (o : Operation) (name : Text) :
    Text.join ",\n" (c.assignments o name) =
      c.assignmentsBefore ++ (name ++ assignmentsBehind o) := by
  rw [assignments, assignmentsBefore, assignmentsBehind]
  cases c.ownsClient with
  | true =>
    cases o.variableDefinitions.isEmpty with
    | true => simp [Text.join, List.intercalate_cons_cons]
    | false => simp [Text.join, List.intercalate_cons_cons]
  | false =>
    cases o.variableDefinitions.isEmpty with
    | true => simp [Text.join]
    | false => simp [Text.join, List.intercalate_cons_cons]

/-- The tokens of the assignments up to the operation's name. -/
def tokensBefore (c : OperationContext) : List Token :=
  if c.ownsClient then
    [.word "AuthToken", .mark '=', .word "authToken", .mark ',', .word "Headers", .mark '=',
      .word "headers", .mark ',', .word "OperationName", .mark '=']
  else [.word "OperationName", .mark '=']

/-- The tokens of the assignments from the operation's name on, to the end of the statement. -/
def tokensBehind (o : Operation) : List Token :=
  if o.variableDefinitions.isEmpty then [.literal, .mark '\x7d', .mark ';']
  else [.literal, .mark ',', .word "Variables", .mark '=', .word "request", .mark '\x7d', .mark ';']

theorem scan_assignments (c : OperationContext) (o : Operation) (h : IsName name) :
    scan .between (Text.join ",\n" (c.assignments o name) ++ ("\n\x7d;" ++ "\n")) =
      (c.tokensBefore ++ tokensBehind o, .between) := by
  have hbefore : scan .between c.assignmentsBefore = (c.tokensBefore, .regular) := by
    rw [assignmentsBefore, tokensBefore]
    cases c.ownsClient with
    | true => decide +kernel
    | false => decide +kernel
  have hbehind : scan .regular (assignmentsBehind o ++ ("\n\x7d;" ++ "\n")) =
      (tokensBehind o, .between) := by
    rw [assignmentsBehind, tokensBehind]
    cases o.variableDefinitions.isEmpty with
    | true => decide +kernel
    | false => decide +kernel
  rw [join_assignments, List.append_assoc, List.append_assoc]
  exact scan_append_of hbefore (scan_append_of (scan_regular h.all_isNameChar) hbehind)

/-- The tokens in front of the fields of a request. -/
def openingTokens (c : OperationContext) : List Token :=
  [.word "var", .word "gqlRequest", .mark '=', .word "new", .word c.transportRequest, .mark '\x7b']

/-- The tokens that name the field of the document. -/
def queryTokens : List Token :=
  [.word "Query", .mark '=']

/-- The tokens of the statement that builds the request. -/
def requestTokens (c : OperationContext) (o : Operation) (name : Text) : List Token :=
  c.openingTokens ++ (queryTokens ++ (c.documentTokens name ++ [.mark ','] ++
    (c.tokensBefore ++ tokensBehind o)))

theorem join_query (c : OperationContext) (o : Operation) (name document : Text) :
    Text.join ",\n" (("Query = " ++ document) :: c.assignments o name) =
      "Query = " ++ (document ++ ",\n" ++ Text.join ",\n" (c.assignments o name)) := by
  rw [Text.join, List.intercalate_cons_of_ne_nil assignments_ne_nil, List.append_assoc,
    List.append_assoc, List.append_assoc]
  rfl

theorem closed_join_query (c : OperationContext) (o : Operation) (name document : Text) :
    Text.Closed (Text.join ",\n" (("Query = " ++ document) :: c.assignments o name)) := by
  have hjoin : Text.Closed (Text.join ",\n" (c.assignments o name)) :=
    Text.closed_join assignments_ne_nil closed_of_mem_assignments
  rw [join_query]
  exact (hjoin.append _).append _

/-- The body of a method: the statement that builds the request, and one that sends it. -/
theorem scan_body (hname : o.supportedName = .ok name) (hletters : IsName name)
    (hdocument : c.documentExpression o name = .ok document) {send : Text} {ts : List Token}
    (hsend : scan .between send = (ts, .between)) :
    scan .between (c.requestStatement o name document ++ "\n" ++ send) =
      (c.requestTokens o name ++ ts, .between) := by
  have hnew : scan .between ("var gqlRequest = new " ++ c.transportRequest ++ " \x7b\n") =
      (c.openingTokens, .between) := by
    rw [openingTokens, transportRequest]
    cases c.ownsClient with
    | true => decide +kernel
    | false => decide +kernel
  have hquery : scan .between "Query = " = (queryTokens, .between) := by
    decide +kernel
  have hassignments := scan_append_of (scan_assignments c o hletters) hsend
  have hfields := scan_append_of hquery
    (scan_append_of (scan_document hname hletters hdocument) hassignments)
  -- Regrouped so that the fields of the request, which are indented, stand by themselves.
  have hbody (start fields close line : Text) :
      start ++ fields ++ close ++ line ++ send = start ++ (fields ++ ((close ++ line) ++ send)) := by
    simp only [List.append_assoc]
  have hgroup (start query fields close : Text) :
      start ++ (query ++ fields) ++ (close ++ send) =
        start ++ (query ++ (fields ++ close ++ send)) := by
    simp only [List.append_assoc]
  unfold requestStatement
  rw [hbody, scan_append, hnew, scan_indent_append 1 (closed_join_query c o name document),
    join_query, hgroup, hfields, requestTokens]
  simp only [List.append_assoc]

/-- The names of what a transport of the client's own is given. -/
def transportNames (owns : Bool) : List Text :=
  if owns then [Parameter.authToken.name, Parameter.headers.name] else []

/-- The name of the variables, unless there are none. -/
def variableNames (empty : Bool) : List Text :=
  if empty then [] else ["request"]

/-- The supplied names that the request is built from. -/
theorem names_requestTokens (c : OperationContext) (o : Operation) (name : Text) :
    (names (c.requestTokens o name)).filter (· ∈ suppliedNames) =
      transportNames c.ownsClient ++ variableNames o.variableDefinitions.isEmpty := by
  have hdocument : (names (c.documentTokens name)).filter (· ∈ suppliedNames) = [] := by
    rw [documentTokens]
    cases c.config.documentMode with
    | external => rfl
    | documentNode => rfl
  have hopening : (names c.openingTokens).filter (· ∈ suppliedNames) = [] := by
    rw [openingTokens, transportRequest]
    cases c.ownsClient with
    | true => decide
    | false => decide
  have hbefore : (names c.tokensBefore).filter (· ∈ suppliedNames) =
      transportNames c.ownsClient := by
    rw [tokensBefore]
    cases c.ownsClient with
    | true => decide
    | false => decide
  have hbehind : (names (tokensBehind o)).filter (· ∈ suppliedNames) =
      variableNames o.variableDefinitions.isEmpty := by
    rw [tokensBehind]
    cases o.variableDefinitions.isEmpty with
    | true => decide
    | false => decide
  simp only [requestTokens, names_append, List.filter_append, hopening, hdocument, hbefore, hbehind]
  rfl

end OperationContext

/-! ### The statement that sends the request -/

/-- The ways in which a method sends a request. -/
inductive Sending
  | query
  | mutation
  | stream
  | handledStream
  deriving DecidableEq, Repr

namespace Sending

/-- The ways in which an operation is sent. -/
def ofKind : OperationKind → List Sending
  | .subscription => [.stream, .handledStream]
  | .mutation => [.mutation]
  | _ => [.query]

/-- The member of the transport client that is called. -/
def member : Sending → Text
  | .query => "SendQueryAsync"
  | .mutation => "SendMutationAsync"
  | .stream | .handledStream => "CreateSubscriptionStream"

/-- What is handed on besides the request. -/
def argument? : Sending → Option Parameter
  | .query | .mutation => some .cancellationToken
  | .stream => none
  | .handledStream => some .exceptionHandler

/-- The statement in front of the type of the payload. -/
def opening : Sending → Text
  | .query => "return client.SendQueryAsync<"
  | .mutation => "return client.SendMutationAsync<"
  | .stream | .handledStream => "return client.CreateSubscriptionStream<"

/-- The statement behind the type of the payload. -/
def closing : Sending → Text
  | .query | .mutation => ">(gqlRequest, cancellationToken);"
  | .stream => ">(gqlRequest);"
  | .handledStream => ">(gqlRequest, exceptionHandler);"

theorem sendStatements_eq (kind : OperationKind) (payload : Text) :
    OperationContext.sendStatements kind payload =
      (ofKind kind).map fun s => s.opening ++ payload ++ s.closing := by
  cases kind with
  | query | mutation | subscription | other => rfl

/-- The tokens in front of the type of the payload. -/
def openingTokens (s : Sending) : List Token :=
  [.word "return", .word "client", .mark '.', .member s.member]

/-- The tokens of what is handed on, to the end of the statement. -/
def argumentTokens : Option Parameter → List Token
  | none => [.mark ')', .mark ';']
  | some p => [.mark ',', .word p.name, .mark ')', .mark ';']

/-- The tokens behind the type of the payload. -/
def closingTokens (s : Sending) : List Token :=
  .mark '(' :: .word "gqlRequest" :: argumentTokens s.argument?

theorem scan_opening (s : Sending) :
    scan .between s.opening = (s.openingTokens ++ [.mark '<'], .between) := by
  cases s with
  | query | mutation | stream | handledStream => decide +kernel

theorem scan_closing (s : Sending) :
    scan .between s.closing = (.mark '>' :: s.closingTokens, .between) := by
  cases s with
  | query | mutation | stream | handledStream => decide +kernel

/-- The tokens of the statement. -/
def tokens (s : Sending) (payload : Text) : List Token :=
  s.openingTokens ++ .mark '<' :: .word payload :: .mark '>' :: s.closingTokens

theorem scan_statement (s : Sending) {payload : Text} (hne : payload ≠ [])
    (h : payload.all isNameChar) :
    scan .between (s.opening ++ payload ++ s.closing) = (s.tokens payload, .between) := by
  have hhead : s.closing.head? = some '>' := by
    cases s with
    | query | mutation | stream | handledStream => rfl
  have hclosing := scan_word payload s.scan_closing hhead (by decide)
  rw [scan_append_of (scan_append_of s.scan_opening (scan_between hne h)) hclosing, tokens,
    List.append_nil, List.append_assoc]
  rfl

theorem typeArgument?_tokens (s : Sending) (payload : Text) (before : List Token) :
    typeArgument? (before ++ s.tokens payload) = some [.word payload] := by
  have hclosing : typeArgument? s.closingTokens = none := by
    cases s with
    | query | mutation | stream | handledStream => decide
  rw [tokens, ← List.append_assoc]
  exact typeArgument?_append (typeArgument?_angle payload hclosing) _

/-- The supplied names that the statement takes. -/
theorem names_tokens (s : Sending) {payload : Text} (h : payload ∉ suppliedNames) :
    (names (s.tokens payload)).filter (· ∈ suppliedNames) =
      "client".toList :: (s.argument?.map (·.name)).toList := by
  have hnames : names (s.tokens payload) =
      names s.openingTokens ++ payload :: names s.closingTokens := names_append _ _
  rw [hnames, List.filter_append, List.filter_cons_of_neg (by simpa using h)]
  cases s with
  | query | mutation | stream | handledStream => decide

/-! ### Signatures -/

/-- The type that a method of this kind returns. -/
def returnType (s : Sending) (payload : Text) : Text :=
  match s with
  | .query | .mutation => "Task<" ++ ("GraphQLResponse<" ++ payload ++ ">") ++ ">"
  | .stream | .handledStream => "IObservable<" ++ ("GraphQLResponse<" ++ payload ++ ">") ++ ">"

/-- The parameters of a method. They depend on whether the class owns a transport client, on whether
there are no variables, and on the type of the variables. -/
def parameters (s : Sending) (owns empty : Bool) (type : Text) : List Parameter :=
  let leading : List Parameter :=
    (if owns then [] else [.transportClient]) ++ (if empty then [] else [.request type])
  let transport : List Parameter := if owns then [.authToken, .headers] else []
  match s with
  | .query | .mutation => leading ++ transport ++ [.cancellationToken]
  | .stream => leading ++ transport
  | .handledStream => leading ++ [.exceptionHandler] ++ transport

/-- The signature of a method. -/
def signature (s : Sending) (c : OperationContext) (o : Operation) (name : Text) : Method where
  returnType := s.returnType (c.payloadType name)
  name :=
    match s with
    | .query | .mutation => c.convention.methodName name
    | .stream | .handledStream => c.convention.streamName name
  parameters := s.parameters c.ownsClient o.variableDefinitions.isEmpty (c.requestType name)

theorem signatures_eq {c : OperationContext} {o : Operation} {name : Text}
    (h : o.supportedName = .ok name) :
    c.signatures o = .ok ((ofKind o.kind).map fun s => s.signature c o name) := by
  rw [OperationContext.signatures, h, Outcome.ok_bind]
  cases o.kind with
  | query | mutation | subscription | other => rfl

theorem typeArgument?_returnType (s : Sending) {payload : Text} (hne : payload ≠ [])
    (h : payload.all isNameChar) :
    typeArgument? (Code.tokens (s.returnType payload)) = some [.word payload] := by
  have hangle : scan .between ">" = ([.mark '>'], .between) := rfl
  have hresponse : scan .between "GraphQLResponse<" =
      ([.word "GraphQLResponse", .mark '<'], .between) := by decide +kernel
  have hinner := scan_append_of (scan_append_of hresponse (scan_between hne h))
    (scan_word payload hangle rfl (by decide))
  -- Both kinds of results wrap the answer in one more type.
  have houter {start : Text} {ts : List Token} (hstart : scan .between start = (ts, .between)) :
      typeArgument? (Code.tokens (start ++ ("GraphQLResponse<" ++ payload ++ ">") ++ ">")) =
        some [.word payload] := by
    rw [tokens_of_scan (scan_append_of (scan_append_of hstart hinner) hangle), List.append_assoc]
    exact typeArgument?_append rfl ts
  have htask : scan .between "Task<" = ([.word "Task", .mark '<'], .between) := by
    decide +kernel
  have hstream : scan .between "IObservable<" = ([.word "IObservable", .mark '<'], .between) := by
    decide +kernel
  cases s with
  | query | mutation => exact houter htask
  | stream | handledStream => exact houter hstream

/-- The names of the parameters, each with whether it may be left out. -/
def shape (s : Sending) (owns empty : Bool) : List (Text × Bool) :=
  (s.parameters owns empty []).map fun p => (p.name, p.default.isSome)

/-- The type of the variables does not matter to names and defaults. -/
theorem map_parameters (s : Sending) (owns empty : Bool) (type : Text) :
    (s.parameters owns empty type).map (fun p => (p.name, p.default.isSome)) =
      s.shape owns empty := by
  cases empty with
  | true => rfl
  | false =>
    cases owns with
    | true | false =>
      cases s with
      | query | mutation | stream | handledStream => rfl

/-- Every supplied name in use is a parameter, apart from a client that the class owns. -/
theorem mem_used_iff (s : Sending) : ∀ owns empty : Bool, ∀ n ∈ suppliedNames,
    n ∈ OperationContext.transportNames owns ++ OperationContext.variableNames empty ++
        "client".toList :: (s.argument?.map (·.name)).toList ↔
      n ∈ (s.shape owns empty).map Prod.fst ∨ n = "client" ∧ owns = true := by
  cases s with
  | query | mutation | stream | handledStream => decide +kernel

theorem shape_wellFormed (s : Sending) : ∀ owns empty : Bool,
    ¬ ("client".toList ∈ (s.shape owns empty).map Prod.fst ∧ owns = true) ∧
      ((s.shape owns empty).map Prod.fst).Nodup ∧
      (s.shape owns empty).Pairwise fun p q => p.2 → q.2 := by
  cases s with
  | query | mutation | stream | handledStream => decide +kernel

end Sending

/-! ### The static client -/

/-- The beginning of joined parts. -/
theorem Text.prefix_join (separator : Text) (parts more : List Text) :
    join separator parts <+: join separator (parts ++ more) := by
  induction parts with
  | nil => exact List.nil_prefix
  | cons p ps ih =>
    by_cases hps : ps = []
    · subst hps
      cases more with
      | nil => exact List.prefix_refl _
      | cons q qs =>
        rw [join, join, List.intercalate_singleton, List.cons_append, List.nil_append,
          List.intercalate_cons_cons, List.append_assoc]
        exact List.prefix_append _ _
    · have hmore : ps ++ more ≠ [] := List.append_ne_nil_of_left_ne_nil hps more
      rw [join, join, List.cons_append, List.intercalate_cons_of_ne_nil hps,
        List.intercalate_cons_of_ne_nil hmore]
      exact (List.prefix_append_right_inj _).mpr ih

/-- A transport client is declared just when endpoints are configured. -/
theorem Config.declaresStatic_client_iff (config : Config) :
    config.DeclaresStatic "client" ↔ config.httpClient.isSome = true := by
  constructor
  · rintro ⟨text, type, htext, -⟩
    obtain ⟨h, hclient, -⟩ := Option.map_eq_some_iff.mp htext
    rw [hclient]
    rfl
  · intro hsome
    obtain ⟨h, hclient⟩ := Option.isSome_iff_exists.mp hsome
    have hdeclared : [.word "static", .word "GraphQLHttpClient", .word "client", .mark '\x7b'] <:+:
        (scan .between (Text.unlines transportOpening)).1 := by
      decide +kernel
    obtain ⟨rest, hrest⟩ := Text.prefix_join "\n" transportOpening
      ((transportInitializer h).map (Text.spaces 10 ++ ·) ++ transportClosing)
    refine ⟨_, "GraphQLHttpClient", congrArg (Option.map _) hclient, ?_⟩
    beta_reduce
    rw [Text.unlines, List.append_assoc, ← hrest]
    exact hdeclared.trans (prefix_tokens _ rest).isInfix

/-! ### Methods of operations -/

/-- The method that sends an operation in this way; `document` is the expression for what it
sends. -/
def Sending.method (s : Sending) (c : OperationContext) (o : Operation) (name document : Text) :
    Method :=
  c.implemented o name document (s.signature c o name) (s.opening ++ c.payloadType name ++ s.closing)

namespace OperationContext

variable {c : OperationContext} {o : Operation} {name document : Text}

/-- An operation has one method for each way in which it is sent. -/
theorem methods_eq (hname : o.supportedName = .ok name)
    (hdocument : c.documentExpression o name = .ok document) :
    c.methods o = .ok ((Sending.ofKind o.kind).map fun s => s.method c o name document) := by
  rw [methods, Sending.signatures_eq hname, Outcome.ok_bind, hname, Outcome.ok_bind, hdocument,
    Outcome.ok_bind, Sending.sendStatements_eq, List.zipWith_map, List.zipWith_self]
  rfl

theorem agrees_method (hname : o.supportedName = .ok name) (hletters : IsName name)
    (hdocument : c.documentExpression o name = .ok document) (s : Sending) :
    ∃ body, (s.method c o name document).body = some body ∧
      (s.method c o name document).Agrees c.config (tokens body) := by
  have hchars := c.all_isNameChar_payloadType hletters
  have hne := c.payloadType_ne_nil name
  have htokens := tokens_of_scan (scan_body hname hletters hdocument (s.scan_statement hne hchars))
  have hparameters := s.map_parameters c.ownsClient o.variableDefinitions.isEmpty (c.requestType name)
  have hnames : (s.method c o name document).parameters.map (·.name) =
      (s.shape c.ownsClient o.variableDefinitions.isEmpty).map Prod.fst := by
    rw [← hparameters, List.map_map]
    rfl
  have hstatic : c.config.DeclaresStatic "client" ↔ c.ownsClient = true :=
    c.config.declaresStatic_client_iff
  obtain ⟨hclient, hdistinct, hdefaults⟩ :=
    s.shape_wellFormed c.ownsClient o.variableDefinitions.isEmpty
  -- Of the names in the body only the supplied ones count, and the payload is none of them.
  have hused (n : Text) (hn : n ∈ suppliedNames) :
      n ∈ names (c.requestTokens o name ++ s.tokens (c.payloadType name)) ↔
        n ∈ (s.shape c.ownsClient o.variableDefinitions.isEmpty).map Prod.fst ∨
          n = "client" ∧ c.ownsClient = true := by
    rw [← s.mem_used_iff c.ownsClient _ n hn,
      ← s.names_tokens (c.payloadType_not_mem_suppliedNames name), ← c.names_requestTokens o name,
      ← List.filter_append, ← names_append, List.mem_filter]
    simp [hn]
  refine ⟨_, rfl, ?_⟩
  rw [htokens]
  exact {
    uses_iff := by
      intro n hn
      rw [hnames, hused n hn]
      refine or_congr_right (and_congr_right fun hclient => ?_)
      rw [hclient, hstatic]
    clientOnce := by
      rw [hnames, hstatic]
      exact hclient
    distinct := by
      rw [hnames]
      exact hdistinct
    defaultsLast := by
      rw [← hparameters, List.pairwise_map] at hdefaults
      exact hdefaults
    payload :=
      ⟨_, s.typeArgument?_tokens _ _, s.typeArgument?_returnType hne hchars⟩ }

end OperationContext

end SharpClient

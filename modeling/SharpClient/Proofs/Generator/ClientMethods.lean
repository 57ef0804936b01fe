import SharpClient.Generator.Basic
import SharpClient.Proofs.Operation.MethodBodies

/-!
# Methods of the client

A run collects the signatures of its operations for the interface of the client, and the methods for
its class. Both come from the same operations, but from different code. Operation by operation they
are made for the same ways of sending it (`Sending`), so that the two lists go together, and each
method agrees with its signature (`methods_agree`).
-/

namespace SharpClient

namespace Generator

open Outcome

variable {g : Generator} {d : Declarations}

/-- A run compiles its operations, whether it is typesafe or not. -/
theorem compiled_of_declarations (hd : g.declarations = .ok d) :
    ∃ compiled, g.operations.mapM (compileOperation g.context) = .ok compiled ∧
      d.signatures = compiled.flatMap (·.signatures) ∧ d.methods = compiled.flatMap (·.methods) := by
  simp only [declarations] at hd
  split at hd
  case isTrue | isFalse =>
    obtain ⟨fragments, -, hd⟩ := bind_eq_ok.mp hd
    obtain ⟨compiled, hcompiled, hd⟩ := bind_eq_ok.mp hd
    cases hd
    exact ⟨compiled, hcompiled, rfl, rfl⟩

theorem methods_of_compileOperation {c : OperationContext} {o : Operation} {x : CompiledOperation}
    (h : compileOperation c o = .ok x) :
    c.signatures o = .ok x.signatures ∧ c.methods o = .ok x.methods := by
  obtain ⟨signatures, hsignatures, h⟩ := bind_eq_ok.mp h
  obtain ⟨methods, hmethods, h⟩ := bind_eq_ok.mp h
  obtain ⟨request, -, h⟩ := bind_eq_ok.mp h
  obtain ⟨response, -, h⟩ := bind_eq_ok.mp h
  cases h
  exact ⟨hsignatures, hmethods⟩

/-- A run collects the signatures and the methods of its operations. -/
theorem collected_of_declarations (hd : g.declarations = .ok d) :
    ∃ signatures methods,
      g.operations.mapM g.context.signatures = .ok signatures ∧
      g.operations.mapM g.context.methods = .ok methods ∧
      d.signatures = signatures.flatten ∧ d.methods = methods.flatten := by
  obtain ⟨compiled, hcompiled, hsignatures, hmethods⟩ := compiled_of_declarations hd
  refine ⟨compiled.map (·.signatures), compiled.map (·.methods), ?_, ?_, ?_, ?_⟩
  · exact mapM_map_of_mapM hcompiled fun o x hx => (methods_of_compileOperation hx).1
  · exact mapM_map_of_mapM hcompiled fun o x hx => (methods_of_compileOperation hx).2
  · exact hsignatures.trans List.flatMap_def
  · exact hmethods.trans List.flatMap_def

end Generator

/-- The method as an interface lists it. -/
def Method.withoutBody (m : Method) : Method :=
  { m with body := none }

open Code

namespace OperationContext

/-- The operations can be sent: each is supported and has a proper name, and its document can be
written. -/
def Sendable (c : OperationContext) (operations : List Operation) : Prop :=
  ∀ o ∈ operations, ∃ name document,
    o.supportedName = .ok name ∧ IsName name ∧ c.documentExpression o name = .ok document

/-- The signatures and methods of a list of operations, by induction over the list. -/
theorem exists_collected {c : OperationContext} {operations : List Operation}
    (h : c.Sendable operations) :
    ∃ signatures methods,
      operations.mapM c.signatures = .ok signatures ∧
      operations.mapM c.methods = .ok methods ∧
      methods.flatten.map Method.withoutBody = signatures.flatten ∧
      ∀ m ∈ methods.flatten, ∃ body, m.body = some body ∧ m.Agrees c.config (tokens body) := by
  induction operations with
  | nil => exact ⟨[], [], rfl, rfl, rfl, by simp⟩
  | cons o operations ih =>
    obtain ⟨⟨name, document, hname, hletters, hdocument⟩, hrest⟩ := List.forall_mem_cons.mp h
    obtain ⟨signatures, methods, hsignatures, hmethods, hsame, hagree⟩ := ih hrest
    refine ⟨(Sending.ofKind o.kind).map (fun s => s.signature c o name) :: signatures,
      (Sending.ofKind o.kind).map (fun s => s.method c o name document) :: methods, ?_, ?_, ?_, ?_⟩
    · rw [List.mapM_cons, Sending.signatures_eq hname, Outcome.ok_bind, hsignatures]
      rfl
    · rw [List.mapM_cons, methods_eq hname hdocument, Outcome.ok_bind, hmethods]
      rfl
    · rw [List.flatten_cons, List.flatten_cons, List.map_append, hsame, List.map_map]
      rfl
    · intro m hm
      rw [List.flatten_cons, List.mem_append] at hm
      rcases hm with hm | hm
      · obtain ⟨s, -, rfl⟩ := List.mem_map.mp hm
        exact agrees_method hname hletters hdocument s
      · exact hagree m hm

/-- **Interface, signatures and bodies agree.** The operations have signatures and methods, which are
the same one for one but for the bodies, and the statements of each body agree with its signature.
These are what a run with the operations collects for the interface and for the class. -/
theorem methods_agree (c : OperationContext) (operations : List Operation)
    (h : c.Sendable operations) :
    ∃ signatures methods,
      operations.mapM c.signatures = .ok signatures ∧
      operations.mapM c.methods = .ok methods ∧
      methods.flatten.map Method.withoutBody = signatures.flatten ∧
      (∀ m ∈ methods.flatten, ∃ body, m.body = some body ∧ m.Agrees c.config (tokens body)) ∧
      ∀ (g : Generator) (d : Generator.Declarations), g.context = c → g.operations = operations →
        g.declarations = .ok d →
          d.signatures = signatures.flatten ∧ d.methods = methods.flatten := by
  obtain ⟨signatures, methods, hsignatures, hmethods, hsame, hagree⟩ := exists_collected h
  refine ⟨signatures, methods, hsignatures, hmethods, hsame, hagree, ?_⟩
  rintro g d rfl rfl hd
  obtain ⟨signatures', methods', hsignatures', hmethods', hd⟩ :=
    Generator.collected_of_declarations hd
  cases hsignatures.symm.trans hsignatures'
  cases hmethods.symm.trans hmethods'
  exact hd

end OperationContext

namespace FeedSample

/-- Notes that can be asked for, and a feed of them. -/
def schema : Schema :=
  ⟨[⟨"ID", .scalar, []⟩, ⟨"Query", .object [] [⟨"notes", [], .named "ID", []⟩], []⟩,
    ⟨"Subscription", .object [] [⟨"feed", [], .named "ID", []⟩], []⟩],
    [(.query, "Query"), (.subscription, "Subscription")], []⟩

/-- A subscription with a variable. It has the name of the transport client, and its document quotes
the name of a parameter that its methods do not have. -/
def feed : Operation :=
  ⟨none, .subscription, some "client", [⟨none, "id", .named "ID", none, []⟩], [],
    [.field none "feed" [⟨"note", .string "\" cancellationToken"⟩] [] []]⟩

/-- A query without variables. -/
def find : Operation :=
  ⟨none, .query, some "GetNotes", [], [], [.field none "notes" [] [] []]⟩

/-- A client with a transport of its own, or with that of its callers. -/
def generator (mode : DocumentMode) (httpClient : Option HttpClient) : Generator where
  schema := schema
  documents := [⟨[.operation feed, .operation find]⟩]
  config := { documentMode := mode, httpClient }

/-- Documents that are embedded. -/
theorem embedded_sendable (httpClient : Option HttpClient) :
    (generator .documentNode httpClient).context.Sendable [feed, find] := by
  have hfeed : (generator .documentNode httpClient).context.dependencies feed = .ok [] := by
    change FragmentTable.dependencies ⟨[]⟩ feed.selections = .ok []
    cbv
  have hfind : (generator .documentNode httpClient).context.dependencies find = .ok [] := by
    change FragmentTable.dependencies ⟨[]⟩ find.selections = .ok []
    cbv
  obtain ⟨_, -, -, hfeedTexts⟩ := OperationContext.exists_definitionTexts hfeed
  obtain ⟨_, -, -, hfindTexts⟩ := OperationContext.exists_definitionTexts hfind
  rw [OperationContext.Sendable, List.forall_mem_cons, List.forall_mem_singleton]
  exact ⟨⟨"client", _, rfl, by decide, OperationContext.documentExpression_eq _ rfl hfeedTexts⟩,
    ⟨"GetNotes", _, rfl, by decide, OperationContext.documentExpression_eq _ rfl hfindTexts⟩⟩

/-- Documents that are supplied elsewhere. -/
theorem external_sendable (httpClient : Option HttpClient) :
    (generator .external httpClient).context.Sendable [feed, find] := by
  rw [OperationContext.Sendable, List.forall_mem_cons, List.forall_mem_singleton]
  exact ⟨⟨"client", _, rfl, by decide, rfl⟩, ⟨"GetNotes", _, rfl, by decide, rfl⟩⟩

theorem feed_agrees :
    (∃ methods,
      [feed, find].mapM (generator .documentNode (some ⟨"p", none, none⟩)).context.methods =
        .ok methods ∧
      ∀ m ∈ methods.flatten, ∃ body, m.body = some body ∧
        m.Agrees (generator .documentNode (some ⟨"p", none, none⟩)).config (tokens body)) ∧
    ∃ d, (generator .external none).declarations = .ok d ∧
      d.methods.map (fun m => m.parameters.length) = [2, 3, 2] ∧
      d.methods.map Method.withoutBody = d.signatures ∧
      ∀ m ∈ d.methods, ∃ body, m.body = some body ∧
        m.Agrees (generator .external none).config (tokens body) := by
  refine ⟨?_, ?_⟩
  · obtain ⟨-, methods, -, hmethods, -, hagree, -⟩ :=
      OperationContext.methods_agree _ [feed, find] (embedded_sendable (some ⟨"p", none, none⟩))
    exact ⟨methods, hmethods, hagree⟩
  · obtain ⟨d, hd, hlengths⟩ : ∃ d, (generator .external none).declarations = .ok d ∧
        d.methods.map (fun m => m.parameters.length) = [2, 3, 2] := ⟨_, rfl, rfl⟩
    obtain ⟨signatures, methods, -, -, hsame, hagree, hcollected⟩ :=
      OperationContext.methods_agree _ [feed, find] (external_sendable none)
    obtain ⟨hsignatures, hmethods⟩ := hcollected _ d rfl rfl hd
    rw [← hsignatures, ← hmethods] at hsame
    rw [← hmethods] at hagree
    exact ⟨d, hd, hlengths, hsame, hagree⟩

end FeedSample

end SharpClient

import SharpClient.Generator.Basic
import SharpClient.Proofs.Outcome

/-!
# Typesafe and untyped runs

A typesafe run writes classes, and an untyped run writes the client only. Both check all operations
against the schema, and an operation is refused in one mode exactly when it is in the other, with the
same error: what the checks read of the options does not include the mode.

Fragments are a different matter. A typesafe run compiles the class of each of them before it turns to
the operations. An untyped run looks into a fragment only where an operation inlines it, so it passes
over the faults of fragments that no operation spreads, or that are the only sub-selection wherever
they are spread. A typesafe run therefore fails with the first error of a fragment, or else as the
untyped run does, and this settles when the two modes agree (`code_inMode`).

A run that breaks off because classes nest without end has not refused its input; `Refuses` leaves it
out.
-/

namespace SharpClient

open Outcome

namespace OperationContext

/-! ### What the checks of an operation read -/

variable {c c' : OperationContext}

theorem requestMembers_congr (htypes : c.toTypeContext = c'.toTypeContext) (scope : Scope)
    (vs : List Variable) : c.requestMembers scope vs = c'.requestMembers scope vs := by
  induction vs generalizing scope with
  | nil => rfl
  | cons v vs ih => simp only [requestMembers, htypes, ih]

theorem requestClass_congr (htypes : c.toTypeContext = c'.toTypeContext) (o : Operation) :
    c.requestClass o = c'.requestClass o := by
  simp only [requestClass, htypes, requestMembers_congr htypes]

variable (hselection : c.toSelectionContext = c'.toSelectionContext)

include hselection

theorem responseClass_congr (o : Operation) : c.responseClass o = c'.responseClass o := by
  simp only [responseClass, rootType, hselection]

theorem documentExpression_congr (hmode : c.config.documentMode = c'.config.documentMode)
    (o : Operation) (name : Text) :
    c.documentExpression o name = c'.documentExpression o name := by
  simp only [documentExpression, documentText, definitionTexts, dependencies, hselection, hmode]

omit hselection in
/-- Signatures need the name of the operation and nothing else. -/
theorem error?_signatures (c : OperationContext) (o : Operation) :
    error? (c.signatures o) = error? o.supportedName := by
  rw [signatures]
  cases o.supportedName with
  | error e => rfl
  | ok name => cases o.kind <;> rfl

theorem error?_methods_congr (hmode : c.config.documentMode = c'.config.documentMode)
    (o : Operation) : error? (c.methods o) = error? (c'.methods o) := by
  refine error?_bind_congr ?_ fun _ _ _ _ => error?_bind_congr rfl fun name name' hname hname' => ?_
  · rw [error?_signatures, error?_signatures]
  · cases hname.symm.trans hname'
    refine error?_bind_congr ?_ fun _ _ _ _ => rfl
    rw [documentExpression_congr hselection hmode]

/-- The options decide about an operation only by where its document comes from. -/
theorem error?_compileOperation_congr (hmode : c.config.documentMode = c'.config.documentMode)
    (o : Operation) :
    error? (Generator.compileOperation c o) = error? (Generator.compileOperation c' o) := by
  refine error?_bind_congr ?_ fun _ _ _ _ => error?_bind_congr ?_ fun _ _ _ _ =>
    error?_bind_congr ?_ fun _ _ _ _ => error?_bind_congr ?_ fun _ _ _ _ => rfl
  · rw [error?_signatures, error?_signatures]
  · exact error?_methods_congr hselection hmode o
  · rw [requestClass_congr (congrArg SelectionContext.toTypeContext hselection)]
  · rw [responseClass_congr hselection]

end OperationContext

namespace Generator

/-! ### Runs in both modes -/

/-- The same run in the typesafe or the untyped mode. -/
def inMode (typesafe : Bool) (g : Generator) : Generator :=
  { g with config := { g.config with typesafeOperation := typesafe } }

/-- The run refuses its input: it ends with an error, and not because classes nest without end. -/
def Refuses (g : Generator) : Prop :=
  ∃ e, g.code = .error e ∧ e ≠ .nestingLimit

/-- The error of the first fragment whose class cannot be compiled. -/
def fragmentError? (g : Generator) : Option GenerationError :=
  g.context.fragments.effective.findSome? fun f => error? (g.context.fragmentClass f)

/-- The error of the first operation that cannot be compiled. -/
def operationError? (g : Generator) : Option GenerationError :=
  g.operations.findSome? fun o => error? (compileOperation g.context o)

variable (g : Generator)

theorem refuses_iff : g.Refuses ↔ ∃ e, error? g.code = some e ∧ e ≠ .nestingLimit := by
  simp only [error?_eq_some, Refuses]

theorem operationError?_inMode (typesafe : Bool) :
    (g.inMode typesafe).operationError? = g.operationError? := by
  have hselection : (g.inMode typesafe).context.toSelectionContext =
      g.context.toSelectionContext := rfl
  have hoperation (o : Operation) : error? (compileOperation (g.inMode typesafe).context o) =
      error? (compileOperation g.context o) :=
    OperationContext.error?_compileOperation_congr hselection rfl o
  have hoperations : (g.inMode typesafe).operations = g.operations := rfl
  simp only [operationError?, hoperation, hoperations]

theorem error?_code : error? g.code = error? g.declarations := by
  rw [code]
  cases g.declarations <;> rfl

theorem error?_code_untyped : error? (g.inMode false).code = g.operationError? := by
  rw [error?_code, ← g.operationError?_inMode false, operationError?, ← error?_mapM]
  have hmode : (g.inMode false).config.typesafeOperation = false := rfl
  simp only [declarations, hmode, Bool.false_eq_true, if_false, pure_eq_ok, ok_bind]
  cases (g.inMode false).operations.mapM (compileOperation (g.inMode false).context) <;> rfl

theorem error?_code_typesafe :
    error? (g.inMode true).code = g.fragmentError?.or g.operationError? := by
  have hfragments : error? ((g.inMode true).context.fragments.effective.mapM
      (g.inMode true).context.fragmentClass) = g.fragmentError? :=
    error?_mapM _ _
  have hmode : (g.inMode true).config.typesafeOperation = true := rfl
  rw [error?_code, ← hfragments, ← g.operationError?_inMode true, operationError?, ← error?_mapM]
  simp only [declarations, hmode, if_true]
  cases (g.inMode true).context.fragments.effective.mapM (g.inMode true).context.fragmentClass with
  | error e => rfl
  | ok fragments =>
    cases (g.inMode true).operations.mapM (compileOperation (g.inMode true).context) <;> rfl

end Generator

/-- **Modes of a run.** A typesafe run fails with the error of the first fragment that has no class,
or else exactly as the untyped run does. So the two modes refuse the same input when every fragment
has a class. When some fragment has none, they agree only if the untyped run refuses the input too,
for a fault of an operation, or the fragment's class nests without end and the untyped run does not
refuse the input. -/
theorem code_inMode (g : Generator) :
    error? (g.inMode true).code = g.fragmentError?.or (error? (g.inMode false).code) ∧
      (((g.inMode true).Refuses ↔ (g.inMode false).Refuses) ↔
        ∀ e, g.fragmentError? = some e → ((g.inMode false).Refuses ↔ e ≠ .nestingLimit)) := by
  have htypesafe : error? (g.inMode true).code =
      g.fragmentError?.or (error? (g.inMode false).code) := by
    rw [g.error?_code_typesafe, g.error?_code_untyped]
  refine ⟨htypesafe, ?_⟩
  rw [(g.inMode true).refuses_iff, htypesafe]
  cases hfragment : g.fragmentError? with
  | none => simp [Generator.refuses_iff]
  | some e => simp [iff_comm]

namespace AgeSample

/-- A fragment with a field that users do not have. -/
def age : FragmentDefinition :=
  ⟨none, "Age", "User", [], [.field none "age" [] [] []]⟩

/-- Asks for the age of a user through the fragment alone. -/
def operation : Operation :=
  ⟨none, .query, some "Find", [], [], [.field none "user" [] [] [.spread "Age" []]]⟩

/-- Users with a name, one of which can be asked for. -/
def schema : Schema :=
  ⟨[⟨"Query", .object [] [⟨"user", [], .named "User", []⟩], []⟩,
    ⟨"User", .object [] [⟨"name", [], .named "String", []⟩], []⟩], [(.query, "Query")], []⟩

/-- The operation and the fragment. -/
def generator : Generator where
  schema := schema
  documents := [⟨[.operation operation, .fragment age]⟩]
  config := { documentMode := .external }

/-- The modes do not always agree: the fault of a fragment that is the only sub-selection is found in
a typesafe run and passed over in an untyped one. -/
theorem not_modes_agree :
    ¬∀ g : Generator, (g.inMode true).Refuses ↔ (g.inMode false).Refuses := by
  intro h
  have htypesafe : (generator.inMode true).code = .error (.fieldNotFound "age" "User") := rfl
  have huntyped : ∃ text, (generator.inMode false).code = .ok text := ⟨_, rfl⟩
  obtain ⟨text, htext⟩ := huntyped
  obtain ⟨e, he, -⟩ := (h generator).mp ⟨_, htypesafe, by simp⟩
  rw [htext] at he
  cases he

end AgeSample

end SharpClient

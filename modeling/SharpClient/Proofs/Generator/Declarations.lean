import SharpClient.Proofs.Declaration.References

/-!
# What a typesafe run declares

The classes of a file come from four sources, each with a rule of its own: the variables of the
operations, their answers, the fragments in effect, and the input types that are listed. The enums
come from the enum types that are listed. Here this is read off a run once (`declarations_eq_ok`),
and turned into what it means for a class to be in the file (`mem_classes_iff`, `mem_enums_iff`).
-/

namespace SharpClient.Generator

open Outcome

variable {g : Generator} {d : Declarations}

theorem compileOperation_eq_ok {c : OperationContext} {o : Operation} {x : CompiledOperation}
    (h : compileOperation c o = .ok x) :
    c.requestClass o = .ok x.request ∧ c.responseClass o = .ok x.response := by
  obtain ⟨signatures, -, h⟩ := bind_eq_ok.mp h
  obtain ⟨methods, -, h⟩ := bind_eq_ok.mp h
  obtain ⟨request, hrequest, h⟩ := bind_eq_ok.mp h
  obtain ⟨response, hresponse, h⟩ := bind_eq_ok.mp h
  cases h
  exact ⟨hrequest, hresponse⟩

/-- The classes of the input types that are listed. -/
def inputClasses (g : Generator) : List ClassDecl :=
  g.schema.inputTypes.map fun t => inputClass g.context.toTypeContext t.1 t.2

/-- The enums of the enum types that are listed. -/
def enumDecls (g : Generator) : List EnumDecl :=
  g.schema.enumTypes.map fun t => enumDecl g.context.toTypeContext t.1 t.2

/-- A typesafe run succeeds when all fragments and operations compile, and declares what they and
the listed types become. -/
theorem declarations_eq_ok (htypesafe : g.config.typesafeOperation = true)
    (hd : g.declarations = .ok d) :
    ∃ fragments compiled,
      g.context.fragments.effective.mapM g.context.fragmentClass = .ok fragments ∧
      g.operations.mapM (compileOperation g.context) = .ok compiled ∧
      d.classes = compiled.filterMap (·.request) ++ compiled.map (·.response) ++ fragments ++
        g.inputClasses ∧
      d.enums = g.enumDecls := by
  simp only [declarations, htypesafe, if_true] at hd
  obtain ⟨fragments, hfragments, hd⟩ := bind_eq_ok.mp hd
  obtain ⟨compiled, hcompiled, hd⟩ := bind_eq_ok.mp hd
  cases hd
  exact ⟨fragments, compiled, hfragments, hcompiled, rfl, rfl⟩

/-- The classes at the top of a file, by their sources. -/
inductive TopClass (g : Generator) : ClassDecl → Prop
  | request {o : Operation} {e : ClassDecl} (ho : o ∈ g.operations)
      (he : g.context.requestClass o = .ok (some e)) : TopClass g e
  | data {e : ClassDecl} {selections : List Selection} {parent : TypeDefinition}
      (he : g.DataClass e selections parent) : TopClass g e
  | input {name : Text} {fields : List InputValue} (h : (name, fields) ∈ g.schema.inputTypes) :
      TopClass g (inputClass g.context.toTypeContext name fields)

theorem DataClass.of_response {o : Operation} {e : ClassDecl} (ho : o ∈ g.operations)
    (he : g.context.responseClass o = .ok e) : ∃ root, g.DataClass e o.selections root := by
  obtain ⟨root, hroot, -⟩ := bind_eq_ok.mp he
  exact ⟨root, .response ho hroot he⟩

theorem DataClass.of_fragment {f : Fragment} {e : ClassDecl}
    (hf : f ∈ g.context.fragments.effective) (he : g.context.fragmentClass f = .ok e) :
    ∃ on, g.DataClass e f.definition.selections on := by
  obtain ⟨on, hon, -⟩ := SelectionContext.fragmentClass_eq_ok.mp he
  exact ⟨on, .fragment hf hon he⟩

/-- A typesafe run declares the classes of its four sources and no others. -/
theorem mem_classes_iff (htypesafe : g.config.typesafeOperation = true)
    (hd : g.declarations = .ok d) {e : ClassDecl} : e ∈ d.classes ↔ g.TopClass e := by
  obtain ⟨fragments, compiled, hfragments, hcompiled, hclasses, -⟩ :=
    declarations_eq_ok htypesafe hd
  rw [hclasses]
  simp only [List.mem_append, List.mem_filterMap, List.mem_map, inputClasses]
  constructor
  · rintro (((⟨x, hx, he⟩ | ⟨x, hx, rfl⟩) | he) | ⟨⟨name, fields⟩, h, rfl⟩)
    · obtain ⟨o, ho, hx⟩ := (mem_mapM_iff hcompiled).mp hx
      exact .request ho (he ▸ (compileOperation_eq_ok hx).1)
    · obtain ⟨o, ho, hx⟩ := (mem_mapM_iff hcompiled).mp hx
      obtain ⟨root, hdata⟩ := DataClass.of_response ho (compileOperation_eq_ok hx).2
      exact .data hdata
    · obtain ⟨f, hf, he⟩ := (mem_mapM_iff hfragments).mp he
      obtain ⟨on, hdata⟩ := DataClass.of_fragment hf he
      exact .data hdata
    · exact .input h
  · intro he
    cases he with
    | request ho he =>
      obtain ⟨x, hx, hcompile⟩ := exists_mem_of_mapM hcompiled ho
      have hrequest := (compileOperation_eq_ok hcompile).1
      exact .inl (.inl (.inl ⟨x, hx, Except.ok.inj (hrequest.symm.trans he)⟩))
    | data he =>
      cases he with
      | response ho hroot he =>
        obtain ⟨x, hx, hcompile⟩ := exists_mem_of_mapM hcompiled ho
        have hresponse := (compileOperation_eq_ok hcompile).2
        exact .inl (.inl (.inr ⟨x, hx, Except.ok.inj (hresponse.symm.trans he)⟩))
      | fragment hf hon he => exact .inl (.inr ((mem_mapM_iff hfragments).mpr ⟨_, hf, he⟩))
    | input h => exact .inr ⟨_, h, rfl⟩

theorem mem_enums_iff (htypesafe : g.config.typesafeOperation = true)
    (hd : g.declarations = .ok d) {e : EnumDecl} :
    e ∈ d.enums ↔ ∃ name values, (name, values) ∈ g.schema.enumTypes ∧
      enumDecl g.context.toTypeContext name values = e := by
  obtain ⟨-, -, -, -, -, henums⟩ := declarations_eq_ok htypesafe hd
  rw [henums, enumDecls, List.mem_map, Prod.exists]

end SharpClient.Generator

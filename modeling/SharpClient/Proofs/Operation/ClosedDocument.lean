import Mathlib.Data.List.Nodup
import SharpClient.Proofs.Operation.Dependencies

/-!
# Closed documents

A server accepts a document when each fragment that it spreads is defined in it once, and each one
that it defines is spread (`Document.IsClosed`). An operation is sent with the fragments that it
reaches, and these are the fragments that the document spreads, so all depends on the names under
which they are defined: a fragment is found by the name it has in the table, but it is printed with
the name of its definition.

* The spreads of the document are the names that the operation reaches (`mem_spreads_sent`).
* The document is closed exactly when the definitions bear these names, in whatever order. Fragments
  of the documents bear the name of their definition; one from outside may have been given another
  name, and then the document need not be closed (`documentText_isClosed_iff`,
  `RenamedSample.not_always_closed`).
-/

namespace SharpClient

open Outcome

/-! ### Documents -/

namespace Document

/-- The names that are spread anywhere in the operations and fragments of a document. -/
def spreads (d : Document) : List Text :=
  d.operations.flatMap (fun o => spreadsInAll o.selections) ++
    d.fragments.flatMap fun f => spreadsInAll f.selections

/-- The names of the fragments that a document defines. -/
def fragmentNames (d : Document) : List Text :=
  d.fragments.map (·.name)

/-- The printed operations and fragments of a document. -/
def texts (d : Document) : List Text :=
  d.operations.map Operation.text ++ d.fragments.map FragmentDefinition.text

/-- A document that leaves nothing open, and defines nothing in vain. -/
structure IsClosed (d : Document) : Prop where
  /-- A fragment that is spread is defined once. -/
  defined : ∀ name ∈ d.spreads, d.fragmentNames.count name = 1
  /-- A fragment that is defined is spread. -/
  used : ∀ name ∈ d.fragmentNames, name ∈ d.spreads

/-- When the document spreads the given names, it is closed if it defines them, each once. -/
theorem isClosed_iff_perm {d : Document} {names : List Text} (hnodup : names.Nodup)
    (hspreads : ∀ name, name ∈ d.spreads ↔ name ∈ names) :
    d.IsClosed ↔ d.fragmentNames.Perm names := by
  constructor
  · intro h
    refine List.perm_iff_count.mpr fun name => ?_
    by_cases hname : name ∈ names
    · rw [h.defined name ((hspreads name).mpr hname), List.count_eq_one_of_mem hnodup hname]
    · have hnot : name ∉ d.fragmentNames := fun hdefined =>
        hname ((hspreads name).mp (h.used name hdefined))
      rw [List.count_eq_zero_of_not_mem hnot, List.count_eq_zero_of_not_mem hname]
  · intro h
    refine ⟨fun name hname => ?_, fun name hname => (hspreads name).mpr (h.mem_iff.mp hname)⟩
    rw [h.count_eq, List.count_eq_one_of_mem hnodup ((hspreads name).mp hname)]

/-- An operation together with fragments. -/
def sent (o : Operation) (fragments : List Fragment) : Document :=
  ⟨.operation o :: fragments.map fun f => .fragment f.definition⟩

@[simp] theorem operations_sent (o : Operation) (fragments : List Fragment) :
    (sent o fragments).operations = [o] := by
  simp [sent, operations, List.filterMap_map]

@[simp] theorem fragments_sent (o : Operation) (fragments : List Fragment) :
    (sent o fragments).fragments = fragments.map (·.definition) := by
  simp [sent, Document.fragments, List.filterMap_map]

theorem texts_sent (o : Operation) (fragments : List Fragment) :
    (sent o fragments).texts = o.text :: fragments.map (·.definition.text) := by
  simp [texts]

theorem fragmentNames_sent (o : Operation) (fragments : List Fragment) :
    (sent o fragments).fragmentNames = fragments.map (·.definition.name) := by
  simp [fragmentNames]

theorem mem_spreads_sent {o : Operation} {fragments : List Fragment} {name : Text} :
    name ∈ (sent o fragments).spreads ↔ name ∈ spreadsInAll o.selections ∨
      ∃ f ∈ fragments, name ∈ spreadsInAll f.definition.selections := by
  simp [spreads]

end Document

/-! ### The document of an operation -/

namespace FragmentTable

variable {t : FragmentTable} {names : List Text} {fragments : List Fragment}

/-- The fragments that names find bear these names in the table. -/
theorem map_name_of_mapM_get (h : names.mapM t.get = .ok fragments) :
    fragments.map (·.name) = names := by
  have hname : ∀ name ∈ names, ∀ f, t.get name = .ok f → f.name = name := by
    intro name _ f hf
    simpa using List.find?_some (get_eq_ok.mp hf)
  exact (map_eq_of_mapM h hname).trans (List.map_id' names)

/-- A document made of selections and of all fragments that they reach spreads what they reach. -/
theorem reaches_iff_spread {selections : List Selection} (hnames : t.ListsReached selections names)
    (hfragments : names.mapM t.get = .ok fragments) {name : Text} :
    t.Reaches selections name ↔ name ∈ spreadsInAll selections ∨
      ∃ f ∈ fragments, name ∈ spreadsInAll f.definition.selections := by
  have hmem {f : Fragment} : f ∈ fragments ↔ ∃ via ∈ names, t.get via = .ok f :=
    mem_mapM_iff hfragments
  constructor
  · intro h
    cases h with
    | spread h => exact .inl h
    | @through via _ f hvia hget h =>
      have hf : f ∈ fragments := hmem.mpr ⟨via, (hnames.mem_iff via).mpr hvia, get_eq_ok.mpr hget⟩
      exact .inr ⟨f, hf, h⟩
  · rintro (h | ⟨f, hf, h⟩)
    · exact .spread h
    · obtain ⟨via, hvia, hget⟩ := hmem.mp hf
      exact .through ((hnames.mem_iff via).mp hvia) (get_eq_ok.mp hget) h

end FragmentTable

namespace OperationContext

variable {c : OperationContext} {o : Operation}

/-- The document that an operation sends: itself, and the fragments that it needs. -/
def sentDocument (c : OperationContext) (o : Operation) : Except GenerationError Document := do
  let names ← c.dependencies o
  let fragments ← names.mapM c.fragments.get
  return .sent o fragments

/-- What is embedded is the printed document. -/
theorem documentText_eq (c : OperationContext) (o : Operation) :
    c.documentText o =
      (c.sentDocument o).map fun d => Literal.verbatimBody (Text.unlines d.texts) := by
  rw [documentText, definitionTexts, sentDocument]
  cases c.dependencies o with
  | error e => rfl
  | ok names =>
    simp only [ok_bind]
    cases names.mapM c.fragments.get with
    | error e => rfl
    | ok fragments => simp only [ok_bind, pure_eq_ok, map_ok, Document.texts_sent]

theorem sentDocument_eq_ok {d : Document} : c.sentDocument o = .ok d ↔
    ∃ names fragments, c.dependencies o = .ok names ∧ names.mapM c.fragments.get = .ok fragments ∧
      d = .sent o fragments := by
  rw [sentDocument, bind_eq_ok]
  refine exists_congr fun names => ?_
  rw [bind_eq_ok]
  constructor
  · rintro ⟨hnames, fragments, hfragments, heq⟩
    cases heq
    exact ⟨fragments, hnames, hfragments, rfl⟩
  · rintro ⟨fragments, hnames, hfragments, rfl⟩
    exact ⟨hnames, fragments, hfragments, rfl⟩

/-- The document spreads the names that the operation needs. -/
theorem mem_spreads_iff {names : List Text} {fragments : List Fragment}
    (hnames : c.dependencies o = .ok names)
    (hfragments : names.mapM c.fragments.get = .ok fragments) (name : Text) :
    name ∈ (Document.sent o fragments).spreads ↔ name ∈ names := by
  have hlists := FragmentTable.listsReached_of_dependencies hnames
  rw [Document.mem_spreads_sent, hlists.mem_iff, FragmentTable.reaches_iff_spread hlists hfragments]

end OperationContext

/-- Fragments of documents bear the name of their definition. -/
theorem Generator.name_of_mem_fragments {g : Generator}
    (hexternal : ∀ f ∈ g.externalFragments, f.name = f.definition.name) :
    ∀ f ∈ g.fragments, f.name = f.definition.name := by
  intro f hf
  rcases List.mem_append.mp hf with hf | hf
  · obtain ⟨d, -, rfl⟩ := List.mem_map.mp hf
    rfl
  · exact hexternal f hf

/-- **Closed documents.** The text that is embedded for an operation is a printed document. It is
closed exactly when the definitions in it bear the names of the fragments that the operation needs,
in some order; so it is closed whenever no fragment from outside has been given a name that is not
that of its definition. -/
theorem documentText_isClosed_iff {g : Generator} {o : Operation} {text : Text}
    (h : g.context.documentText o = .ok text) :
    ∃ d names, g.context.sentDocument o = .ok d ∧ g.context.dependencies o = .ok names ∧
      text = Literal.verbatimBody (Text.unlines d.texts) ∧
      (d.IsClosed ↔ d.fragmentNames.Perm names) ∧
      ((∀ f ∈ g.externalFragments, f.name = f.definition.name) → d.IsClosed) := by
  rw [OperationContext.documentText_eq] at h
  obtain ⟨d, hd, htext⟩ := map_eq_ok.mp h
  obtain ⟨names, fragments, hnames, hfragments, rfl⟩ := OperationContext.sentDocument_eq_ok.mp hd
  have hlists := FragmentTable.listsReached_of_dependencies hnames
  have hiff := Document.isClosed_iff_perm hlists.nodup
    (OperationContext.mem_spreads_iff hnames hfragments)
  refine ⟨_, names, hd, hnames, htext.symm, hiff, fun hexternal => hiff.mpr ?_⟩
  have hname : ∀ f ∈ fragments, f.definition.name = f.name := by
    intro f hf
    obtain ⟨name, -, hget⟩ := (mem_mapM_iff hfragments).mp hf
    have hmem : f ∈ g.fragments := List.mem_of_find?_eq_some (FragmentTable.get_eq_ok.mp hget)
    exact (Generator.name_of_mem_fragments hexternal f hmem).symm
  rw [Document.fragmentNames_sent, List.map_congr_left hname,
    FragmentTable.map_name_of_mapM_get hfragments]

namespace RenamedSample

/-- Asks for a user by a fragment. -/
def operation : Operation :=
  ⟨none, .query, some "Find", [], [], [.field none "user" [] [] [.spread "Info" []]]⟩

/-- The definition of a fragment from outside. -/
def definition (name : Text) : FragmentDefinition :=
  ⟨none, name, "User", [], [.field none "id" [] [] []]⟩

/-- A run with one fragment from outside, which is spread as `Info` whatever its definition is
called. -/
def generator (name : Text) : Generator where
  schema := ⟨[], [], []⟩
  documents := [⟨[.operation operation]⟩]
  externalFragments := [.external (definition name) "Info" []]

theorem get?_info (name : Text) : (generator name).context.fragments.get? "Info" =
    some (.external (definition name) "Info" []) := rfl

theorem sentDocument_eq (name : Text) : (generator name).context.sentDocument operation =
    .ok ⟨[.operation operation, .fragment (definition name)]⟩ := by
  have hreach : (generator name).context.fragments.reach [] ["Info"] = .ok ["Info"] := by
    rw [FragmentTable.reach_found List.not_mem_nil (get?_info name)]
    exact FragmentTable.reach_nil
  refine OperationContext.sentDocument_eq_ok.mpr ⟨["Info"], _, ?_, rfl, rfl⟩
  exact congrArg (Except.map _) hreach

theorem info_isClosed :
    ∃ text d, (generator "Info").context.documentText operation = .ok text ∧
      (generator "Info").context.sentDocument operation = .ok d ∧
      text = Literal.verbatimBody (Text.unlines d.texts) ∧ d.IsClosed := by
  have htext := OperationContext.documentText_eq (generator "Info").context operation
  rw [sentDocument_eq, map_ok] at htext
  obtain ⟨d, names, hd, -, hprinted, -, hclosed⟩ := documentText_isClosed_iff htext
  refine ⟨_, d, htext, hd, hprinted, hclosed fun f hf => ?_⟩
  rw [List.mem_singleton.mp hf]
  rfl

/-- A fragment whose definition has another name than the one it is spread by leaves the document
open. -/
theorem not_always_closed :
    ¬∀ (g : Generator) (o : Operation) (text : Text), g.context.documentText o = .ok text →
      ∃ d, g.context.sentDocument o = .ok d ∧ d.IsClosed := by
  intro h
  have htext := OperationContext.documentText_eq (generator "Other").context operation
  rw [sentDocument_eq, map_ok] at htext
  obtain ⟨d, hd, hclosed⟩ := h _ _ _ htext
  rw [sentDocument_eq] at hd
  cases hd
  have hcount := hclosed.defined "Info" (by decide)
  revert hcount
  decide

end RenamedSample

end SharpClient

import SharpClient.Document.Basic
import SharpClient.Error

/-!
# Fragments of a run

The fragments that operations may spread: those of the documents first, then those supplied from
outside. Of several fragments of one name the first one counts. The fragments that an operation
needs are those that it reaches through spreads, however deep these stand.
-/

namespace SharpClient

/-- A fragment that may be spread. -/
structure Fragment where
  /-- Its definition. -/
  definition : FragmentDefinition
  /-- The name under which it is spread. -/
  name : Text
  /-- The type it applies to. -/
  on : Text
  /-- Whether it was supplied from outside the documents. -/
  isExternal : Bool
  deriving Repr

namespace Fragment

/-- The fragment of a document's definition. -/
def ofDefinition (d : FragmentDefinition) : Fragment :=
  ⟨d, d.name, d.on, false⟩

/-- A fragment supplied from outside, whose name and type may differ from its definition's. An empty
name or type stands for the definition's. -/
def external (d : FragmentDefinition) (name on : Text) : Fragment :=
  ⟨d, if name.isEmpty then d.name else name, if on.isEmpty then d.on else on, true⟩

end Fragment

/-! ### Spreads -/

mutual

/-- The names spread inside a selection, in the order of the document. -/
def spreadsIn : Selection → List Text
  | .field _ _ _ _ selections => spreadsInAll selections
  | .spread name _ => [name]
  | .inline _ _ selections => spreadsInAll selections

/-- The names spread inside selections, in the order of the document. -/
def spreadsInAll : List Selection → List Text
  | [] => []
  | s :: ss => spreadsIn s ++ spreadsInAll ss

end

/-- The names of a list, each at its first place only. -/
def firstOccurrences (names : List Text) : List Text :=
  names.foldl (fun found name => if name ∈ found then found else found ++ [name]) []

/-- The fragments spread inside selections, each named once. -/
def spreadNames (selections : List Selection) : List Text :=
  firstOccurrences (spreadsInAll selections)

/-! ### The table of fragments -/

/-- The fragments of a run, in order. -/
structure FragmentTable where
  /-- All fragments; of one name the first counts. -/
  fragments : List Fragment
  deriving Repr

namespace FragmentTable

/-- The fragment of a name. -/
def get? (t : FragmentTable) (name : Text) : Option Fragment :=
  t.fragments.find? (·.name = name)

/-- The fragment of a name, which must be known. -/
def get (t : FragmentTable) (name : Text) : Except GenerationError Fragment :=
  match t.get? name with
  | some f => .ok f
  | none => .error (.fragmentNotFound name)

/-- The names of the table, each once, in order. -/
def names (t : FragmentTable) : List Text :=
  firstOccurrences (t.fragments.map (·.name))

/-- The fragments that count, in order. -/
def effective (t : FragmentTable) : List Fragment :=
  t.names.filterMap t.get?

/-- The fragments whose name is not among `seen`. -/
def unseen (t : FragmentTable) (seen : List Text) : List Fragment :=
  t.fragments.filter (·.name ∉ seen)

theorem length_unseen_lt {t : FragmentTable} {seen : List Text} {name : Text} {f : Fragment}
    (hf : t.get? name = some f) (hn : name ∉ seen) :
    (t.unseen (name :: seen)).length < (t.unseen seen).length := by
  have hmem : f ∈ t.fragments := List.mem_of_find?_eq_some hf
  have hname : f.name = name := by simpa using List.find?_some hf
  have hsub : t.unseen (name :: seen) = (t.unseen seen).filter (·.name ≠ name) := by
    simp [unseen, List.filter_filter]
  rw [hsub]
  refine List.length_filter_lt_length_iff_exists.2 ⟨f, ?_, ?_⟩
  · simp [unseen, hmem, hname, hn]
  · simp [hname]

/-- The names reached from the pending ones, those already seen included. The latest pending name is
followed first. -/
def reach (t : FragmentTable) (seen pending : List Text) : Except GenerationError (List Text) :=
  match pending with
  | [] => .ok seen
  | name :: rest =>
    if _hn : name ∈ seen then t.reach seen rest
    else
      match _hf : t.get? name with
      | none => .error (.fragmentNotFound name)
      | some f =>
        t.reach (name :: seen) ((spreadNames f.definition.selections).reverse ++ rest)
termination_by ((t.unseen seen).length, pending.length)
decreasing_by
  · exact Prod.Lex.right _ (Nat.lt_succ_self _)
  · exact Prod.Lex.left _ _ (length_unseen_lt _hf _hn)

/-- The names of the fragments that selections need, in the order of the table. -/
def dependencies (t : FragmentTable) (selections : List Selection) :
    Except GenerationError (List Text) :=
  (t.reach [] (spreadNames selections).reverse).map fun seen => t.names.filter (· ∈ seen)

/-- The number of fields in the fragments, at any depth. -/
def fieldCount (t : FragmentTable) : Nat :=
  (t.fragments.map fun f => fieldCountAll f.definition.selections).foldl (· + ·) 0

end FragmentTable

end SharpClient

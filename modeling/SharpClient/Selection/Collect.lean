import SharpClient.Selection.Fragments

/-!
# Collecting fields

A selection set is read as the fields that an answer holds: spreads stand for the selections of
their fragment, and the fields that share a response key form one group, since an answer has one
value for each key. Groups keep the order in which their keys first occur, and a group keeps its
fields in order.

A spread is not expanded inside an expansion of the same fragment, so a circle of spreads comes to
an end. Inline fragments are not supported.
-/

namespace SharpClient

/-! ### Groups of fields -/

/-- The fields that share a response key. -/
structure FieldGroup where
  /-- The first field of the key. -/
  first : Field
  /-- The further fields, in order. -/
  more : List Field
  deriving Repr

namespace FieldGroup

/-- The response key of the group. -/
def key (g : FieldGroup) : Text :=
  g.first.key

/-- All fields of the group. -/
def fields (g : FieldGroup) : List Field :=
  g.first :: g.more

/-- One field in place of the group: the first one, with the sub-selections of all of them. -/
def merged (g : FieldGroup) : Field :=
  { g.first with selections := g.fields.flatMap (·.selections) }

end FieldGroup

/-- Adds a field to the group of its key, or as a new last group. -/
def insertField : List FieldGroup → Field → List FieldGroup
  | [], f => [⟨f, []⟩]
  | g :: gs, f =>
    if g.key = f.key then { g with more := g.more ++ [f] } :: gs else g :: insertField gs f

/-- Adds the fields of further groups, group by group. -/
def mergeGroups (groups further : List FieldGroup) : List FieldGroup :=
  (further.flatMap (·.fields)).foldl insertField groups

/-! ### Expansion -/

/-- Adds the fields of selections to groups, where `expand` gives the groups of a spread. The owner
is named in an error. -/
def addSelections (t : FragmentTable) (owner : Text)
    (expand : Fragment → Except GenerationError (List FieldGroup)) :
    List FieldGroup → List Selection → Except GenerationError (List FieldGroup)
  | groups, [] => .ok groups
  | groups, .field as name arguments directives selections :: rest =>
    addSelections t owner expand
      (insertField groups ⟨as, name, arguments, directives, selections⟩) rest
  | groups, .spread name _ :: rest => do
    let spread ← expand (← t.get name)
    addSelections t owner expand (mergeGroups groups spread) rest
  | _, .inline .. :: _ => .error (.unsupported owner .inlineFragment)

/-- The groups of selections inside the expansion of the fragments `path`, with at most `budget`
further expansions in one another. When the budget is the number of fragments that are not on the
path it does not matter: without a budget every known fragment is on the path. -/
def collectWithin (t : FragmentTable) (owner : Text) :
    Nat → List Text → List Selection → Except GenerationError (List FieldGroup)
  | 0, _, selections => addSelections t owner (fun _ => .ok []) [] selections
  | budget + 1, path, selections =>
    addSelections t owner
      (fun f =>
        if f.name ∈ path then .ok []
        else collectWithin t owner budget (f.name :: path) f.definition.selections)
      [] selections

/-- The groups of selections. -/
def collectFields (t : FragmentTable) (owner : Text) (selections : List Selection) :
    Except GenerationError (List FieldGroup) :=
  collectWithin t owner t.fragments.length [] selections

end SharpClient

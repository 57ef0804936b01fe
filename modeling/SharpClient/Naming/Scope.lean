import SharpClient.Text.Numeral

/-!
# Member names of one class

Two members of a class must not share a name, and none may bear the name of its class. A scope
holds the names already taken; claiming a name takes the first of `name`, `name2`, `name3`, …
that is still free. Among one more candidate than there are taken names one is free, so the
search needs no other bound.
-/

namespace SharpClient

/-- The member names already taken inside one class. -/
structure Scope where
  /-- The names taken, the latest first. -/
  taken : List Text := []
  deriving DecidableEq, Repr

namespace Scope

/-- The scope of a new class: nothing is taken but the class's own name, if it has one. -/
def ofClass (name : Text) : Scope :=
  ⟨if name.isEmpty then [] else [name]⟩

/-- The names tried for `name`, in order: `name`, `name2`, `name3`, … -/
def candidate (name : Text) : Nat → Text
  | 0 => name
  | k + 1 => name ++ Text.decimal (k + 2)

/-- The first candidate from the `k`-th on that is not taken, looking past at most `probes`
taken ones. -/
def firstFree (taken : List Text) (name : Text) : (probes k : Nat) → Text
  | 0, k => candidate name k
  | probes + 1, k =>
    if candidate name k ∈ taken then firstFree taken name probes (k + 1) else candidate name k

/-- The name that a claim on `name` gets. -/
def free (s : Scope) (name : Text) : Text :=
  firstFree s.taken name s.taken.length 0

/-- Takes the first free candidate of `name`. -/
def claim (s : Scope) (name : Text) : Text × Scope :=
  (s.free name, ⟨s.free name :: s.taken⟩)

/-- Claims in order, each on what the earlier ones left. -/
def claimAll : Scope → List Text → List Text
  | _, [] => []
  | s, n :: ns => (s.claim n).1 :: claimAll (s.claim n).2 ns

end Scope

end SharpClient

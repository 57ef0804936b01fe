import Mathlib.Logic.Relation
import SharpClient.Proofs.Selection.Merging

/-!
# Inlining fragments and splitting fields

Two ways to write a selection set differently that its members do not show:

* a spread may be replaced by the selections of its fragment, as long as the fragment does not spread
  itself again, directly or through others;
* a field may be split into two fields of the same key that share its sub-selections.

Both hold in the middle of any selections, with the same member names, the same order and, when
something is wrong, the same error (`compileSelections_rewrite`). Inlining keeps the sequence of
fields. It changes the path of the expansion only by the fragment itself, which the fields below it
never meet. Splitting changes the sequence of fields but not the merged ones.
-/

namespace SharpClient

open Outcome

/-! ### Inlining -/

/-- The selections of the first fragment spread the second one, not counting those below a field. -/
def SpreadsAtTop (t : FragmentTable) (a b : Text) : Prop :=
  ∃ f directives, t.get? a = some f ∧ .spread b directives ∈ f.definition.selections

section Inlining

variable {t : FragmentTable} {owner : Text} {name : Text}

/-- Selections that do not lead to a fragment expand alike inside an expansion of it and outside. -/
theorem expand_eq_of_not_reached {path path' : List Text} {selections : List Selection}
    (hpath : ∀ n, n ∈ path' ↔ n = name ∨ n ∈ path)
    (hreach : ∀ n directives, .spread n directives ∈ selections →
      ¬Relation.ReflTransGen (SpreadsAtTop t) n name) :
    expand t owner path' selections = expand t owner path selections := by
  fun_induction expand t owner path selections generalizing path' with
  | case1 path => rw [expand_nil]
  | case2 path as n arguments directives sub rest ih =>
    rw [expand_field, ih hpath fun m ds hm => hreach m ds (List.mem_cons_of_mem _ hm)]
  | case3 path n directives rest hf => rw [expand_spread_unknown hf]
  | case4 path n directives rest f hf hn ih =>
    rw [expand_spread_cut hf ((hpath n).mpr (.inr hn)),
      ih hpath fun m ds hm => hreach m ds (List.mem_cons_of_mem _ hm)]
  | case5 path n directives rest f hf hn ihspread ihrest =>
    have hne : n ≠ name := by
      rintro rfl
      exact hreach n directives List.mem_cons_self .refl
    have hn' : n ∉ path' := by
      rw [hpath]
      exact not_or.mpr ⟨hne, hn⟩
    -- What the fragment spreads is one step further, so it does not lead there either.
    have hbody : ∀ m ds, .spread m ds ∈ f.definition.selections →
        ¬Relation.ReflTransGen (SpreadsAtTop t) m name := fun m ds hm hto =>
      hreach n directives List.mem_cons_self (.head ⟨f, ds, hf, hm⟩ hto)
    have hpath' : ∀ m, m ∈ n :: path' ↔ m = name ∨ m ∈ n :: path := by
      intro m
      simp only [List.mem_cons, hpath]
      exact or_left_comm
    rw [expand_spread hf hn', ihspread hpath' hbody,
      ihrest hpath fun m ds hm => hreach m ds (List.mem_cons_of_mem _ hm)]
  | case6 path on directives sub rest => rw [expand_inline]

/-- A spread stands for the same fields as the selections of its fragment. -/
theorem expand_spread_eq_body {f : Fragment} (hf : t.get? name = some f)
    (hself : ¬Relation.TransGen (SpreadsAtTop t) name name) (directives : List Directive) :
    expand t owner [] [.spread name directives] = expand t owner [] f.definition.selections := by
  have hbody : expand t owner [name] f.definition.selections =
      expand t owner [] f.definition.selections := by
    have hpath : ∀ n, n ∈ [name] ↔ n = name ∨ n ∈ ([] : List Text) := by simp
    refine expand_eq_of_not_reached hpath fun n ds hn hto => hself ?_
    exact .head' ⟨f, ds, hf, hn⟩ hto
  rw [expand_spread hf List.not_mem_nil, hbody, expand_nil]
  cases expand t owner [] f.definition.selections <;> simp

theorem expand_inlined {f : Fragment} (hf : t.get? name = some f)
    (hself : ¬Relation.TransGen (SpreadsAtTop t) name name) (directives : List Directive)
    (before after : List Selection) :
    expand t owner [] (before ++ [.spread name directives] ++ after) =
      expand t owner [] (before ++ f.definition.selections ++ after) := by
  simp only [expand_append, expand_spread_eq_body hf hself]

end Inlining

/-! ### Splitting -/

/-- Merging a field in two parts is merging it whole. -/
theorem mergeField_parts {f g whole : Field} (has : f.as = whole.as) (hname : f.name = whole.name)
    (hkey : g.key = f.key) (hselections : whole.selections = f.selections ++ g.selections)
    (ms : List Field) : mergeField (mergeField ms f) g = mergeField ms whole := by
  have hwhole : whole.key = f.key := by rw [Field.key, Field.key, has, hname]
  induction ms with
  | nil =>
    have hbare : f.bare.key = g.key := hkey.symm
    simp only [mergeField, if_pos hbare]
    rw [Field.bare, Field.bare, hselections, has, hname]
  | cons m ms ih =>
    by_cases h : m.key = f.key
    · have hadded : Field.key { m with selections := m.selections ++ f.selections } = m.key := rfl
      rw [mergeField, if_pos h, mergeField, if_pos (hadded.trans (h.trans hkey.symm)), mergeField,
        if_pos (h.trans hwhole.symm), hselections, List.append_assoc]
    · rw [mergeField, if_neg h, mergeField, if_neg (hkey ▸ h), mergeField, if_neg (hwhole ▸ h), ih]

theorem mergeFields_parts {f g whole : Field} (has : f.as = whole.as) (hname : f.name = whole.name)
    (hkey : g.key = f.key) (hselections : whole.selections = f.selections ++ g.selections)
    (before after : List Field) :
    mergeFields (before ++ [f, g] ++ after) = mergeFields (before ++ [whole] ++ after) := by
  simp only [mergeFields, List.foldl_append, List.foldl_cons, List.foldl_nil,
    mergeField_parts has hname hkey hselections]

/-! ### Members of rewritten selections -/

/-- **Inlining and field splitting.** In the middle of any selections, a spread of a fragment that
does not lead back to itself may be replaced by the fragment's selections, and two fields with the
same name, alias and arguments by one with the sub-selections of both: the members stay the same, and
so does the error if there is one. -/
theorem compileSelections_rewrite (c : SelectionContext) (parent : TypeDefinition) (scope : Scope)
    (P Q : List Selection) :
    (∀ name fragment directives, c.fragments.get? name = some fragment →
      ¬Relation.TransGen (SpreadsAtTop c.fragments) name name →
        c.compileSelections (P ++ [.spread name directives] ++ Q) parent scope =
          c.compileSelections (P ++ fragment.definition.selections ++ Q) parent scope) ∧
    ∀ as name arguments directives₁ directives₂ directives S₁ S₂,
      c.compileSelections
          (P ++ [.field as name arguments directives₁ S₁, .field as name arguments directives₂ S₂]
            ++ Q) parent scope =
        c.compileSelections
          (P ++ [.field as name arguments directives (S₁ ++ S₂)] ++ Q) parent scope := by
  refine ⟨fun name fragment directives hf hself => ?_, ?_⟩
  · simp only [SelectionContext.compileSelections, SelectionContext.compileSelectionsWith_eq,
      expand_inlined hf hself]
  · intro as name arguments directives₁ directives₂ directives S₁ S₂
    simp only [SelectionContext.compileSelections, SelectionContext.compileSelectionsWith_eq,
      expand_append, expand_field, expand_nil, map_ok, ok_bind, pure_eq_ok]
    cases expand c.fragments parent.name [] P with
    | error e => rfl
    | ok before =>
      cases expand c.fragments parent.name [] Q with
      | error e => rfl
      | ok after =>
        -- The two sequences differ, but not once their fields are merged.
        refine congrArg (c.compileFields c.compileClass parent scope)
          (mergeFields_parts ?_ ?_ ?_ ?_ before after) <;> rfl

namespace NamesSample

/-- Users with a name and friends. -/
def user : TypeDefinition :=
  ⟨"User", .object [] [⟨"name", [], .named "String", []⟩,
    ⟨"friends", [], .list (.named "User"), []⟩], []⟩

/-- A user's name and the names of the friends. -/
def names : Fragment :=
  .ofDefinition ⟨none, "Names", "User", [],
    [.field none "name" [] [] [], .field none "friends" [] [] [.field none "name" [] [] []]]⟩

/-- Users, and the fragment of their names. -/
def context : SelectionContext where
  schema := ⟨[user], [], []⟩
  scalars := ⟨[]⟩
  convention := .keep
  fragments := ⟨[names]⟩
  limit := 2

/-- The friends of friends. -/
def friends : Selection :=
  .field none "friends" [] [] [.field none "friends" [] [] []]

/-- The name under another key. -/
def nick : Selection :=
  .field (some "nick") "name" [] [] []

/-- The members: the friends' class has what the field and the fragment ask for. -/
def members : List Member :=
  [.nested "FriendResult" [.property ⟨"friends", "Friends", "List<User>"⟩,
      .property ⟨"name", "Name", "String"⟩] none,
    .property ⟨"friends", "Result", "List<FriendResult>"⟩,
    .property ⟨"name", "Name", "String"⟩, .property ⟨"nick", "Nick", "String"⟩]

/-- The fragment spreads nothing, so it does not lead back to itself. -/
theorem not_reaches_names :
    ¬Relation.TransGen (SpreadsAtTop context.fragments) "Names" "Names" := by
  intro h
  obtain ⟨n, ⟨f, directives, hf, hspread⟩, -⟩ := Relation.TransGen.head'_iff.mp h
  have hmem : f ∈ [names] := List.mem_of_find?_eq_some hf
  rw [List.mem_singleton] at hmem
  subst hmem
  simp [names, Fragment.ofDefinition] at hspread

theorem names_rewritten :
    ¬Relation.TransGen (SpreadsAtTop context.fragments) "Names" "Names" ∧
      context.compileSelections ([friends] ++ [.spread "Names" []] ++ [nick]) user {}
        = .ok members ∧
      context.compileSelections ([friends] ++ names.definition.selections ++ [nick]) user {}
        = .ok members := by
  have hspread : context.compileSelections ([friends] ++ [.spread "Names" []] ++ [nick]) user {}
      = .ok members := rfl
  refine ⟨not_reaches_names, hspread, ?_⟩
  have hinlined := (compileSelections_rewrite context user {} [friends] [nick]).1 "Names" names []
    rfl not_reaches_names
  exact hinlined.symm.trans hspread

end NamesSample

end SharpClient

import SharpClient.Proofs.Operation.ReachedFragments

/-!
# Fragments that an operation needs

The search for the fragments that an operation needs keeps the names it has followed and a list of
pending ones. A turn takes the next pending name: one that has been followed already is skipped, and
a new one is followed, so that everything its fragment spreads becomes pending too. Names may be
pending several times, fragments may spread one another in circles, and the list grows while it is
read.

* The search ends, since a turn either follows a name of the table for the first time or shortens
  the list of pending names (`turn_wellFounded`).
* A turn keeps `SearchInvariant`: whatever has been met is reached, and what is reached has been met
  or hangs below something pending.
* So a search that is through has followed exactly the names that are reached, and one that breaks
  off has met one of them that no fragment bears (`SearchInvariant.outcome`).

`dependencies_exact` says this of operations, with the order of the names that are found.
-/

namespace SharpClient

open Outcome

namespace FragmentTable

/-! ### Turns of the search -/

/-- Where the search stands. -/
structure SearchState where
  /-- The names that have been followed. -/
  seen : List Text
  /-- The names that are still to be looked at, the next one first. -/
  pending : List Text

/-- Where the search for the fragments of selections begins. -/
def searchStart (selections : List Selection) : SearchState :=
  ⟨[], (spreadNames selections).reverse⟩

/-- One turn of the search. There is none when nothing is pending, or when no fragment bears the
next name. -/
inductive Turn (t : FragmentTable) : SearchState → SearchState → Prop
  | skip {name : Text} {seen rest : List Text} (hn : name ∈ seen) :
      Turn t ⟨seen, name :: rest⟩ ⟨seen, rest⟩
  | follow {name : Text} {seen rest : List Text} {f : Fragment} (hn : name ∉ seen)
      (hf : t.get? name = some f) :
      Turn t ⟨seen, name :: rest⟩
        ⟨name :: seen, (spreadNames f.definition.selections).reverse ++ rest⟩

variable {t : FragmentTable} {selections : List Selection} {s s' : SearchState}

/-- There is no endless row of turns. -/
theorem turn_wellFounded (t : FragmentTable) : WellFounded fun s' s => t.Turn s s' := by
  -- Fewer fragments are left to follow, or as many and fewer names are pending.
  let size (s : SearchState) : Nat × Nat := ((t.unseen s.seen).length, s.pending.length)
  have hsize : ∀ {s' s}, t.Turn s s' → Prod.Lex (· < ·) (· < ·) (size s') (size s) := by
    intro s' s hturn
    cases hturn with
    | skip hn => exact Prod.Lex.right _ (Nat.lt_succ_self _)
    | follow hn hf => exact Prod.Lex.left _ _ (length_unseen_lt hf hn)
  exact Subrelation.wf hsize (InvImage.wf size (Prod.lex Nat.lt_wfRel Nat.lt_wfRel).wf)

/-- A turn does not change what the search ends with. -/
theorem Turn.reach_eq (h : t.Turn s s') :
    t.reach s.seen s.pending = t.reach s'.seen s'.pending := by
  cases h with
  | skip hn => exact reach_seen hn
  | follow hn hf => exact reach_found hn hf

/-- The search is through, or the next name is not known, or there is another turn. -/
theorem stops_or_turns (t : FragmentTable) (s : SearchState) :
    s.pending = [] ∨
    (∃ name ∈ s.pending, t.get? name = none ∧
      t.reach s.seen s.pending = .error (.fragmentNotFound name)) ∨
    ∃ s', t.Turn s s' := by
  obtain ⟨seen, pending⟩ := s
  cases pending with
  | nil => exact .inl rfl
  | cons name rest =>
    refine .inr ?_
    by_cases hn : name ∈ seen
    · exact .inr ⟨_, .skip hn⟩
    · cases hf : t.get? name with
      | none => exact .inl ⟨name, List.mem_cons_self, hf, reach_unknown hn hf⟩
      | some f => exact .inr ⟨_, .follow hn hf⟩

/-! ### What every turn keeps -/

/-- The search has met a name: it has followed it, or will look at it. -/
def SearchState.Met (s : SearchState) (name : Text) : Prop :=
  name ∈ s.seen ∨ name ∈ s.pending

/-- What holds between any two turns of the search. -/
structure SearchInvariant (t : FragmentTable) (selections : List Selection) (s : SearchState) :
    Prop where
  /-- Only names that are reached are met. -/
  reached : ∀ name, s.Met name → t.Reaches selections name
  /-- A name that has been followed has a fragment. -/
  known : ∀ name ∈ s.seen, (t.get? name).isSome
  /-- What the selections spread has been met. -/
  spread : ∀ name ∈ spreadsInAll selections, s.Met name
  /-- What a fragment spreads that has been followed has been met. -/
  through : ∀ via ∈ s.seen, ∀ f, t.get? via = some f →
    ∀ name ∈ spreadsInAll f.definition.selections, s.Met name

/-- The order of spreads, and how often each one occurs, are of no account. -/
theorem mem_reverse_spreadNames {name : Text} :
    name ∈ (spreadNames selections).reverse ↔ name ∈ spreadsInAll selections :=
  List.mem_reverse.trans mem_firstOccurrences

namespace SearchInvariant

theorem start (t : FragmentTable) (selections : List Selection) :
    t.SearchInvariant selections (searchStart selections) where
  reached := by
    rintro name (hname | hname)
    · cases hname
    · exact .spread (mem_reverse_spreadNames.mp hname)
  known := by
    intro name hname
    cases hname
  spread := fun name hname => .inr (mem_reverse_spreadNames.mpr hname)
  through := by
    intro via hvia
    cases hvia

/-- A name that is met stays met, and those that a turn adds come from the fragment it follows. -/
theorem turn (h : t.SearchInvariant selections s) (hturn : t.Turn s s') :
    t.SearchInvariant selections s' := by
  cases hturn with
  | @skip next seen rest hn =>
    -- The name that leaves the list has been followed, so it stays met.
    have hmet : ∀ name, (⟨seen, next :: rest⟩ : SearchState).Met name →
        (⟨seen, rest⟩ : SearchState).Met name := by
      rintro name (hname | hname)
      · exact .inl hname
      · rcases List.mem_cons.mp hname with rfl | hname
        · exact .inl hn
        · exact .inr hname
    refine ⟨fun name hname => ?_, h.known, fun name hname => hmet name (h.spread name hname), ?_⟩
    · exact h.reached name (hname.imp_right (List.mem_cons_of_mem next))
    · exact fun via hvia f hf name hname => hmet name (h.through via hvia f hf name hname)
  | @follow next seen rest f hn hf =>
    have hmet : ∀ name, (⟨seen, next :: rest⟩ : SearchState).Met name →
        (⟨next :: seen, (spreadNames f.definition.selections).reverse ++ rest⟩ :
          SearchState).Met name := by
      rintro name (hname | hname)
      · exact .inl (List.mem_cons_of_mem next hname)
      · rcases List.mem_cons.mp hname with rfl | hname
        · exact .inl List.mem_cons_self
        · exact .inr (List.mem_append_right _ hname)
    have hnext : t.Reaches selections next := h.reached next (.inr List.mem_cons_self)
    refine ⟨?_, ?_, fun name hname => hmet name (h.spread name hname), ?_⟩
    · rintro name (hname | hname)
      · rcases List.mem_cons.mp hname with rfl | hname
        · exact hnext
        · exact h.reached name (.inl hname)
      · rcases List.mem_append.mp hname with hname | hname
        · exact .through hnext hf (mem_reverse_spreadNames.mp hname)
        · exact h.reached name (.inr (List.mem_cons_of_mem next hname))
    · intro name hname
      rcases List.mem_cons.mp hname with rfl | hname
      · rw [hf]
        rfl
      · exact h.known name hname
    · intro via hvia g hg name hname
      rcases List.mem_cons.mp hvia with rfl | hvia
      · rw [hf] at hg
        cases hg
        exact .inr (List.mem_append_left _ (mem_reverse_spreadNames.mpr hname))
      · exact hmet name (h.through via hvia g hg name hname)

/-- When nothing is pending, the names followed are those that are reached. -/
theorem mem_seen_iff (h : t.SearchInvariant selections s) (hdone : s.pending = []) {name : Text} :
    name ∈ s.seen ↔ t.Reaches selections name := by
  have hseen : ∀ {name}, s.Met name → name ∈ s.seen := by
    rintro name (hname | hname)
    · exact hname
    · rw [hdone] at hname
      cases hname
  refine ⟨fun hname => h.reached name (.inl hname), fun hname => ?_⟩
  induction hname with
  | spread hname => exact hseen (h.spread _ hname)
  | through hvia hget hname ih => exact hseen (h.through _ ih _ hget _ hname)

/-- **How the search ends.** It follows all names that are reached, each of which has a fragment, or
it breaks off at one that has none. -/
theorem outcome (h : t.SearchInvariant selections s) :
    (∃ found, t.reach s.seen s.pending = .ok found ∧
      ∀ name, (name ∈ found ↔ t.Reaches selections name) ∧
        (name ∈ found → (t.get? name).isSome)) ∨
    ∃ name, t.reach s.seen s.pending = .error (.fragmentNotFound name) ∧
      t.Reaches selections name ∧ t.get? name = none := by
  induction s using t.turn_wellFounded.induction with
  | _ s ih =>
    rcases t.stops_or_turns s with hdone | ⟨name, hname, hnone, hreach⟩ | ⟨s', hturn⟩
    · refine .inl ⟨s.seen, ?_, fun name => ⟨h.mem_seen_iff hdone, h.known name⟩⟩
      rw [hdone]
      exact reach_nil
    · exact .inr ⟨name, hreach, h.reached name (.inr hname), hnone⟩
    · rw [hturn.reach_eq]
      exact ih s' hturn (h.turn hturn)

end SearchInvariant

/-! ### The names that are found -/

/-- The names are those that are reached, each once, in the order in which the table first has
them. -/
structure ListsReached (t : FragmentTable) (selections : List Selection) (names : List Text) :
    Prop where
  mem_iff : ∀ name, name ∈ names ↔ t.Reaches selections name
  nodup : names.Nodup
  ordered : names.Pairwise fun a b => t.place a < t.place b

/-- Names picked from the table stand in the order of the table. -/
theorem listsReached_filter {found : List Text}
    (hfound : ∀ name, (name ∈ found ↔ t.Reaches selections name) ∧
      (name ∈ found → (t.get? name).isSome)) :
    t.ListsReached selections (t.names.filter (· ∈ found)) where
  mem_iff := by
    intro name
    rw [List.mem_filter, decide_eq_true_iff, mem_names, ← (hfound name).1]
    exact ⟨And.right, fun hname => ⟨(hfound name).2 hname, hname⟩⟩
  nodup := (nodup_firstOccurrences _).filter _
  ordered := (pairwise_firstOccurrences _).filter _

/-- The fragments that selections need are found, or one that is reached does not exist. -/
theorem dependencies_outcome (t : FragmentTable) (selections : List Selection) :
    (∃ names, t.dependencies selections = .ok names ∧ t.ListsReached selections names ∧
      ∀ name, t.Reaches selections name → (t.get? name).isSome) ∨
    ∃ name, t.dependencies selections = .error (.fragmentNotFound name) ∧
      t.Reaches selections name ∧ t.get? name = none := by
  rcases (SearchInvariant.start t selections).outcome with ⟨found, hreach, hfound⟩ | hunknown
  · refine .inl ⟨_, ?_, listsReached_filter hfound, fun name hname => ?_⟩
    · exact congrArg (Except.map fun seen => t.names.filter (· ∈ seen)) hreach
    · exact (hfound name).2 ((hfound name).1.mpr hname)
  · obtain ⟨name, hreach, hname, hnone⟩ := hunknown
    refine .inr ⟨name, ?_, hname, hnone⟩
    exact congrArg (Except.map fun seen => t.names.filter (· ∈ seen)) hreach

theorem listsReached_of_dependencies {names : List Text}
    (h : t.dependencies selections = .ok names) : t.ListsReached selections names := by
  rcases t.dependencies_outcome selections with ⟨names', hok, hlists, -⟩ | ⟨name, herror, -⟩
  · cases h.symm.trans hok
    exact hlists
  · cases h.symm.trans herror

end FragmentTable

/-- **Fragments that an operation needs.** The search for them ends, whatever circles the fragments
form. It fails exactly when the operation reaches a name that no fragment bears, and the error names
such a one. Otherwise it gives the names that the operation reaches, each once, in the order in
which the table first has them. -/
theorem dependencies_exact (c : OperationContext) (o : Operation) :
    Acc (fun s' s => c.fragments.Turn s s') (FragmentTable.searchStart o.selections) ∧
    ((∃ name, c.dependencies o = .error (.fragmentNotFound name)) ↔
      ∃ name, c.fragments.Reaches o.selections name ∧ c.fragments.get? name = none) ∧
    (∀ e, c.dependencies o = .error e → ∃ name, e = .fragmentNotFound name ∧
      c.fragments.Reaches o.selections name ∧ c.fragments.get? name = none) ∧
    ((¬∃ name, c.fragments.Reaches o.selections name ∧ c.fragments.get? name = none) →
      ∃ names, c.dependencies o = .ok names ∧ c.fragments.ListsReached o.selections names) := by
  have hends := c.fragments.turn_wellFounded.apply (FragmentTable.searchStart o.selections)
  rcases c.fragments.dependencies_outcome o.selections with
    ⟨names, hok, hlists, hknown⟩ | ⟨name, herror, hname, hnone⟩
  · have hall : ¬∃ name, c.fragments.Reaches o.selections name ∧ c.fragments.get? name = none := by
      rintro ⟨name, hname, hnone⟩
      have hsome := hknown name hname
      rw [hnone] at hsome
      cases hsome
    have hno : ∀ e, c.dependencies o ≠ .error e := by
      intro e he
      cases he.symm.trans hok
    refine ⟨hends, ⟨?_, fun h => absurd h hall⟩, fun e he => absurd he (hno e), fun _ => ?_⟩
    · rintro ⟨name, hname⟩
      exact absurd hname (hno _)
    · exact ⟨names, hok, hlists⟩
  · refine ⟨hends, ⟨fun _ => ⟨name, hname, hnone⟩, fun _ => ⟨name, herror⟩⟩, ?_, ?_⟩
    · intro e he
      cases he.symm.trans herror
      exact ⟨name, rfl, hname, hnone⟩
    · exact fun hall => absurd ⟨name, hname, hnone⟩ hall

namespace LoopSample

/-- A fragment that spreads itself, and another one inside an inline fragment. -/
def person : Fragment :=
  .ofDefinition ⟨none, "Person", "User", [],
    [.field none "friend" [] [] [.spread "Person" []], .inline none [] [.spread "Team" []]]⟩

/-- A fragment that leads back to the first one. -/
def team : Fragment :=
  .ofDefinition ⟨none, "Team", "User", [], [.field none "lead" [] [] [.spread "Person" []]]⟩

/-- A second fragment of the same name, which does not count. -/
def shadowed : Fragment :=
  .ofDefinition ⟨none, "Team", "User", [], [.spread "Missing" []]⟩

/-- The fragments in a circle. -/
def context : OperationContext where
  schema := ⟨[], [], []⟩
  scalars := ⟨[]⟩
  convention := .keep
  fragments := ⟨[team, shadowed, person]⟩
  limit := 1
  config := {}

/-- Asks for a person. -/
def operation : Operation :=
  ⟨none, .query, some "Find", [], [], [.field none "user" [] [] [.spread "Person" []]]⟩

theorem reached_known {name : Text} (h : context.fragments.Reaches operation.selections name) :
    name = "Person" ∨ name = "Team" := by
  induction h with
  | spread h => exact .inl (List.mem_singleton.mp h)
  | through hvia hget h ih =>
    rcases ih with rfl | rfl
    · cases hget
      simpa [person, Fragment.ofDefinition, spreadsInAll, spreadsIn] using h
    · cases hget
      exact .inl (List.mem_singleton.mp h)

theorem find_dependencies :
    (¬∃ name, context.fragments.Reaches operation.selections name ∧
      context.fragments.get? name = none) ∧
    context.dependencies operation = .ok ["Team".toList, "Person".toList] ∧
    context.fragments.ListsReached operation.selections ["Team".toList, "Person".toList] := by
  have hknown : ¬∃ name, context.fragments.Reaches operation.selections name ∧
      context.fragments.get? name = none := by
    rintro ⟨name, hname, hnone⟩
    rcases reached_known hname with rfl | rfl <;> cases hnone
  have hnames : context.dependencies operation = .ok ["Team".toList, "Person".toList] := by
    cbv
  obtain ⟨names, hok, hlists⟩ := (dependencies_exact context operation).2.2.2 hknown
  cases hnames.symm.trans hok
  exact ⟨hknown, hnames, hlists⟩

end LoopSample

end SharpClient

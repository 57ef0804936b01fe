import SharpClient.Proofs.Selection.Expansion

/-!
# Collecting with one visited set

GraphQL collects the fields of a selection set with one set of visited fragments: each fragment is
expanded where it is first spread, and all later spreads of it are skipped. `collectFields` cuts a
spread only inside an expansion of the same fragment and expands a fragment again wherever else it
is spread. The two walk through different trees, and in a circle of spreads the second expansion of
a fragment is cut at other places than the first one.

The results agree all the same (`collectFields_agrees`): the same error, or the same response keys
in the same order, the same first field for each key, and the same fields for each key but for
repetitions.

The argument follows the visited run. A visited fragment that is not on the path is finished: its
own fields are collected, and its spreads are of visited fragments. So a second expansion of it,
wherever it is cut, meets visited fragments only and adds no field that is not there.
-/

namespace SharpClient

open Outcome

namespace FragmentTable

theorem length_unseen_le {t : FragmentTable} {seen seen' : List Text} (h : seen ⊆ seen') :
    (t.unseen seen').length ≤ (t.unseen seen).length := by
  refine List.Sublist.length_le (List.monotone_filter_right _ fun f hf => ?_)
  simp only [decide_eq_true_eq] at hf ⊢
  exact fun hmem => hf (h hmem)

end FragmentTable

/-! ### The algorithm with a visited set -/

/-- Groups of fields, with the fragments visited so far, which no step of a run forgets. -/
abbrev Visit (visited : List Text) : Type :=
  { r : List FieldGroup × List Text // visited ⊆ r.2 }

/-- Adds the fields of selections to groups. A fragment that is not visited yet becomes visited and
is expanded with the same set of visited fragments; a visited one is skipped. -/
def collectVisiting (t : FragmentTable) (owner : Text) (visited : List Text)
    (groups : List FieldGroup) (selections : List Selection) :
    Except GenerationError (Visit visited) :=
  match selections with
  | [] => .ok ⟨(groups, visited), List.Subset.refl visited⟩
  | .field as name arguments directives sub :: rest =>
    collectVisiting t owner visited (insertField groups ⟨as, name, arguments, directives, sub⟩) rest
  | .spread name _ :: rest =>
    match _hf : t.get? name with
    | none => .error (.fragmentNotFound name)
    | some f =>
      if _hn : name ∈ visited then collectVisiting t owner visited groups rest
      else
        match collectVisiting t owner (name :: visited) [] f.definition.selections with
        | .error e => .error e
        | .ok ⟨(spread, visited'), h⟩ =>
          (collectVisiting t owner visited' (mergeGroups groups spread) rest).map fun r =>
            ⟨r.1, fun _ hv => r.2 (h (List.mem_cons_of_mem name hv))⟩
  | .inline .. :: _ => .error (.unsupported owner .inlineFragment)
termination_by ((t.unseen visited).length, selections.length)
decreasing_by
  · exact Prod.Lex.right _ (Nat.lt_succ_self _)
  · exact Prod.Lex.right _ (Nat.lt_succ_self _)
  · exact Prod.Lex.left _ _ (FragmentTable.length_unseen_lt _hf _hn)
  · exact Prod.Lex.left _ _ (Nat.lt_of_le_of_lt (FragmentTable.length_unseen_le h)
      (FragmentTable.length_unseen_lt _hf _hn))

/-- The groups of selections, collected with one visited set. -/
def collectOnce (t : FragmentTable) (owner : Text) (selections : List Selection) :
    Except GenerationError (List FieldGroup) :=
  (collectVisiting t owner [] [] selections).map (·.1.1)

/-! ### Agreement of groups -/

/-- Two groups for the same key with the same first field and the same fields. -/
structure SameGroup (g h : FieldGroup) : Prop where
  key_eq : g.key = h.key
  first_eq : g.first = h.first
  mem_iff : ∀ f, f ∈ g.fields ↔ f ∈ h.fields

/-- Two collections that failed alike, or that hold the same groups in the same order. -/
inductive Agree : Except GenerationError (List FieldGroup) →
    Except GenerationError (List FieldGroup) → Prop
  | error (e : GenerationError) : Agree (.error e) (.error e)
  | ok {groups groups' : List FieldGroup} (h : List.Forall₂ SameGroup groups groups') :
      Agree (.ok groups) (.ok groups')

theorem SameGroup.refl (g : FieldGroup) : SameGroup g g :=
  ⟨rfl, rfl, fun _ => Iff.rfl⟩

theorem SameGroup.add {g h : FieldGroup} (hgh : SameGroup g h) (f : Field) :
    SameGroup { g with more := g.more ++ [f] } { h with more := h.more ++ [f] } := by
  refine ⟨hgh.key_eq, hgh.first_eq, fun f' => ?_⟩
  have := hgh.mem_iff f'
  simp only [FieldGroup.fields, List.mem_cons, List.mem_append, List.not_mem_nil, or_false] at *
  grind

/-- Repeating a field of a group changes nothing. -/
theorem SameGroup.repeat {g h : FieldGroup} (hgh : SameGroup g h) {f : Field}
    (hf : f ∈ g.fields) : SameGroup { g with more := g.more ++ [f] } h := by
  refine ⟨hgh.key_eq, hgh.first_eq, fun f' => ?_⟩
  rw [← hgh.mem_iff f']
  simp only [FieldGroup.fields, List.mem_cons, List.mem_append, List.not_mem_nil, or_false] at *
  grind

theorem forall₂_insertField {groups groups' : List FieldGroup}
    (h : List.Forall₂ SameGroup groups groups') (f : Field) :
    List.Forall₂ SameGroup (insertField groups f) (insertField groups' f) := by
  induction h with
  | nil => exact .cons (.refl _) .nil
  | @cons g g' gs gs' hg hgs ih =>
    by_cases hkey : g.key = f.key
    · rw [insertField, insertField, if_pos hkey, if_pos (hg.key_eq ▸ hkey)]
      exact .cons (hg.add f) hgs
    · rw [insertField, insertField, if_neg hkey, if_neg (hg.key_eq ▸ hkey)]
      exact .cons hg ih

theorem forall₂_insertField_repeat {groups groups' : List FieldGroup}
    (h : List.Forall₂ SameGroup groups groups') (hg : WellGrouped groups) {f : Field}
    (hf : f ∈ ungroup groups) : List.Forall₂ SameGroup (insertField groups f) groups' := by
  induction h with
  | nil => simp [ungroup] at hf
  | @cons g g' gs gs' hgg' hgs ih =>
    have hmem : f ∈ g.fields ∨ f ∈ ungroup gs := by simpa [ungroup] using hf
    by_cases hkey : g.key = f.key
    · rw [insertField, if_pos hkey]
      refine .cons (hgg'.repeat (hmem.resolve_right fun hgs' => ?_)) hgs
      exact hg.key_ne hgs' hkey.symm
    · rw [insertField, if_neg hkey]
      refine .cons hgg' (ih hg.tail (hmem.resolve_left fun hg' => ?_))
      exact hkey (hg.key_eq g List.mem_cons_self f hg').symm

/-! ### Sequences with repetitions -/

/-- `Padded seen fs gs`: the sequence `fs` is `gs` with further fields in between, each of which is
in `seen` or occurs earlier in `gs`. -/
inductive Padded : List Field → List Field → List Field → Prop
  | nil (seen : List Field) : Padded seen [] []
  | keep {seen fs gs : List Field} {f : Field} (h : Padded (seen ++ [f]) fs gs) :
      Padded seen (f :: fs) (f :: gs)
  | skip {seen fs gs : List Field} {f : Field} (hf : f ∈ seen) (h : Padded seen fs gs) :
      Padded seen (f :: fs) gs

namespace Padded

variable {seen fs gs fs' gs' : List Field}

theorem append (h : Padded seen fs gs) (h' : Padded (seen ++ gs) fs' gs') :
    Padded seen (fs ++ fs') (gs ++ gs') := by
  induction h with
  | nil seen => simpa using h'
  | keep h ih => exact .keep (ih (by simpa using h'))
  | skip hf h ih => exact .skip hf (ih h')

theorem of_subset (h : fs ⊆ seen) : Padded seen fs [] := by
  induction fs with
  | nil => exact .nil seen
  | cons f fs ih =>
    rw [List.cons_subset] at h
    exact .skip h.1 (ih h.2)

/-- Sequences that differ in repetitions only have the same groups. -/
theorem forall₂_foldl {groups groups' : List FieldGroup} (h : Padded seen fs gs)
    (hseen : seen ⊆ ungroup groups) (hg : WellGrouped groups)
    (hgg' : List.Forall₂ SameGroup groups groups') :
    List.Forall₂ SameGroup (fs.foldl insertField groups) (gs.foldl insertField groups') := by
  induction h generalizing groups groups' with
  | nil => exact hgg'
  | @keep seen fs gs f h ih =>
    refine ih (fun f' hf' => ?_) (hg.insertField f) (forall₂_insertField hgg' f)
    rw [mem_ungroup_insertField hg]
    rw [List.mem_append, List.mem_singleton] at hf'
    exact hf'.imp_left (@hseen f')
  | @skip seen fs gs f hf h ih =>
    refine ih (fun f' hf' => ?_) (hg.insertField f)
      (forall₂_insertField_repeat hgg' hg (hseen hf))
    rw [mem_ungroup_insertField hg]
    exact .inl (hseen hf')

end Padded

/-! ### What is finished -/

/-- A selection of which nothing is left to do: a field is collected, a spread is of a known fragment
that is visited. -/
def Selection.IsMet (t : FragmentTable) (visited : List Text) (fields : List Field) :
    Selection → Prop
  | .field as name arguments directives sub => ⟨as, name, arguments, directives, sub⟩ ∈ fields
  | .spread name _ => name ∈ visited ∧ ∃ f, t.get? name = some f
  | .inline .. => False

/-- Every visited fragment that is not on the path is finished. -/
def Finished (t : FragmentTable) (visited path : List Text) (fields : List Field) : Prop :=
  ∀ name ∈ visited, name ∉ path → ∀ f, t.get? name = some f →
    ∀ s ∈ f.definition.selections, s.IsMet t visited fields

section Simulation

variable {t : FragmentTable} {owner : Text} {visited visited' path path' : List Text}
  {fields fields' : List Field}

theorem Selection.IsMet.mono {s : Selection} (h : s.IsMet t visited fields)
    (hv : visited ⊆ visited') (hf : fields ⊆ fields') : s.IsMet t visited' fields' := by
  cases s with
  | field as name arguments directives sub => exact hf h
  | spread name directives => exact ⟨hv h.1, h.2⟩
  | inline on directives sub => exact h

theorem Finished.mono (h : Finished t visited path fields) (hf : fields ⊆ fields') :
    Finished t visited path fields' :=
  fun name hn hp f hget s hs => (h name hn hp f hget s hs).mono (List.Subset.refl _) hf

theorem Finished.enter (h : Finished t visited path fields) (name : Text) :
    Finished t (name :: visited) (name :: path) fields := by
  intro n hn hp f hget s hs
  rw [List.mem_cons, not_or] at hp
  have hn' : n ∈ visited := (List.mem_cons.mp hn).resolve_left hp.1
  exact (h n hn' hp.2 f hget s hs).mono (List.subset_cons_self _ _) (List.Subset.refl _)

/-- A fragment whose selections are all met leaves the path as a finished one. -/
theorem Finished.leave {name : Text} {f : Fragment} (h : Finished t visited (name :: path) fields)
    (hget : t.get? name = some f)
    (hmet : ∀ s ∈ f.definition.selections, s.IsMet t visited fields) :
    Finished t visited path fields := by
  intro n hn hp f' hget' s hs
  by_cases hname : n = name
  · subst hname
    rw [hget] at hget'
    cases hget'
    exact hmet s hs
  · exact h n hn (List.not_mem_cons_of_ne_of_not_mem hname hp) f' hget' s hs

/-- Selections that are met add nothing, whatever else is on the path. -/
theorem expand_of_isMet (owner : Text) (hfin : Finished t visited path fields) (hpath : path ⊆ path')
    {selections : List Selection} (hmet : ∀ s ∈ selections, s.IsMet t visited fields) :
    ∃ fs, expand t owner path' selections = .ok fs ∧ fs ⊆ fields := by
  -- Each expansion puts a fragment on the path, so the induction is that of `expand`.
  fun_induction expand t owner path' selections with
  | case1 path' => exact ⟨[], rfl, List.nil_subset _⟩
  | case2 path' as name arguments directives sub rest ih =>
    rw [List.forall_mem_cons] at hmet
    obtain ⟨fs, hfs, hsub⟩ := ih hpath hmet.2
    exact ⟨_ :: fs, by rw [hfs]; rfl, List.cons_subset.mpr ⟨hmet.1, hsub⟩⟩
  | case3 path' name directives rest hf =>
    obtain ⟨-, f, hget⟩ := hmet _ List.mem_cons_self
    simp [hf] at hget
  | case4 path' name directives rest f hf hn ih =>
    rw [List.forall_mem_cons] at hmet
    exact ih hpath hmet.2
  | case5 path' name directives rest f hf hn ih₁ ih₂ =>
    rw [List.forall_mem_cons] at hmet
    have hname : name ∉ path := fun hp => hn (hpath hp)
    obtain ⟨spread, hspread, hsub⟩ := ih₁ (List.subset_cons_of_subset _ hpath)
      (hfin name hmet.1.1 hname f hf)
    obtain ⟨fs, hfs, hsub'⟩ := ih₂ hpath hmet.2
    exact ⟨spread ++ fs, by rw [hspread, hfs]; rfl, List.append_subset.mpr ⟨hsub, hsub'⟩⟩
  | case6 path' on directives sub rest => exact (hmet _ List.mem_cons_self).elim

/-- How an expansion along the path `path` goes when the visited run, which has collected `seen` and
adds to `groups`, ends with `outcome`. -/
def Follows (t : FragmentTable) (owner : Text) (path : List Text) (seen : List Field)
    (groups : List FieldGroup) (selections : List Selection) :
    Except GenerationError (List FieldGroup × List Text) → Prop
  | .error e => expand t owner path selections = .error e
  | .ok (groups', visited') =>
    ∃ fs gs, expand t owner path selections = .ok fs ∧ groups' = gs.foldl insertField groups ∧
      Padded seen fs gs ∧ (∀ s ∈ selections, s.IsMet t visited' (seen ++ gs)) ∧
      Finished t visited' path (seen ++ gs)

/-- One selection and then the rest: the expansion puts `fs` in front where the visited run
collects `gs`. -/
theorem Follows.cons (fs gs : List Field) {seen : List Field} {groups : List FieldGroup} {s : Selection}
    {rest : List Selection} {outcome : Except GenerationError (List FieldGroup × List Text)}
    (hexpand : expand t owner path (s :: rest) = (expand t owner path rest).map (fs ++ ·))
    (hpad : Padded seen fs gs) (hmet : s.IsMet t visited (seen ++ gs))
    (hvisited : ∀ r, outcome = .ok r → visited ⊆ r.2)
    (h : Follows t owner path (seen ++ gs) (gs.foldl insertField groups) rest outcome) :
    Follows t owner path seen groups (s :: rest) outcome := by
  cases outcome with
  | error e =>
    have hrest : expand t owner path rest = .error e := h
    rw [Follows, hexpand, hrest]
    rfl
  | ok r =>
    obtain ⟨fs', gs', hfs', hgroups, hpad', hmet', hfin⟩ := h
    rw [List.append_assoc] at hmet' hfin
    refine ⟨fs ++ fs', gs ++ gs', ?_, ?_, hpad.append hpad', ?_, hfin⟩
    · rw [hexpand, hfs']
      rfl
    · rw [hgroups, List.foldl_append]
    · rw [List.forall_mem_cons]
      refine ⟨hmet.mono (hvisited r rfl) ?_, hmet'⟩
      rw [← List.append_assoc]
      exact List.subset_append_left _ _

theorem subset_of_map_fst {x : Except GenerationError (Visit visited)}
    {r : List FieldGroup × List Text} (h : x.map (·.1) = .ok r) : visited ⊆ r.2 := by
  obtain ⟨v, -, rfl⟩ := map_eq_ok.mp h
  exact v.2

theorem follows_collectVisiting {seen : List Field} {groups : List FieldGroup}
    {selections : List Selection} (hpath : path ⊆ visited)
    (hfin : Finished t visited path seen) :
    Follows t owner path seen groups selections
      ((collectVisiting t owner visited groups selections).map (·.1)) := by
  fun_induction collectVisiting t owner visited groups selections generalizing path seen with
  | case1 visited groups =>
    exact ⟨[], [], expand_nil, rfl, .nil seen, by simp, by simpa using hfin⟩
  | case2 visited groups as name arguments directives sub rest ih =>
    refine Follows.cons [_] [_] (expand_field _ _ _ _ _ _) (.keep (.nil _)) ?_
      (fun _ => subset_of_map_fst) (ih hpath (hfin.mono (List.subset_append_left _ _)))
    exact List.mem_append_right _ List.mem_cons_self
  | case3 visited groups name directives rest hf =>
    exact expand_spread_unknown hf directives rest
  | case4 visited groups name directives rest f hf hn ih =>
    -- The fragment is still being expanded, or finished and about to be expanded once more.
    by_cases hp : name ∈ path
    · refine Follows.cons [] [] ?_ (.nil _) ⟨hn, f, hf⟩
        (fun _ => subset_of_map_fst) (by simpa using ih hpath hfin)
      rw [expand_spread_cut hf hp]
      cases expand t owner path rest <;> rfl
    · obtain ⟨fs, hfs, hsub⟩ := expand_of_isMet owner hfin (List.subset_cons_self name path)
        (hfin name hn hp f hf)
      refine Follows.cons fs [] ?_ (.of_subset hsub) ⟨hn, f, hf⟩
        (fun _ => subset_of_map_fst) (by simpa using ih hpath hfin)
      rw [expand_spread hf hp, hfs, ok_bind]
      cases expand t owner path rest <;> rfl
  | case5 visited groups name directives rest f hf hn e he ih =>
    have hp : name ∉ path := fun h => hn (hpath h)
    have hspread : expand t owner (name :: path) f.definition.selections = .error e := by
      simpa [he, Follows] using ih (List.cons_subset_cons name hpath) (hfin.enter name)
    change expand t owner path _ = _
    rw [expand_spread hf hp, hspread, error_bind]
  | case6 visited groups name directives rest f hf hn spread visited' hsub hrun ih₁ ih₂ =>
    have hp : name ∉ path := fun h => hn (hpath h)
    have hfollows := ih₁ (List.cons_subset_cons name hpath) (hfin.enter name)
    rw [hrun] at hfollows
    obtain ⟨fs, gs, hfs, rfl, hpad, hmet, hfin'⟩ := hfollows
    have hrest := ih₂ (fun _ h => hsub (List.mem_cons_of_mem name (hpath h)))
      (hfin'.leave hf hmet)
    have hmerge := mergeGroups_groupFields groups gs
    rw [groupFields] at hmerge
    rw [hmerge] at hrest ⊢
    rw [map_map]
    refine Follows.cons fs gs ?_ hpad ⟨hsub List.mem_cons_self, f, hf⟩
      (fun _ => subset_of_map_fst) hrest
    rw [expand_spread hf hp, hfs, ok_bind]
    cases expand t owner path rest <;> rfl
  | case7 => exact expand_inline _ _ _ _

end Simulation

/-- **Agreement with the visited set.** Expanding a fragment again on every path collects what
GraphQL's collection with one visited set collects, for every table of fragments. -/
theorem collectFields_agrees (t : FragmentTable) (owner : Text) (selections : List Selection) :
    Agree (collectFields t owner selections) (collectOnce t owner selections) := by
  have hfollows : Follows t owner [] [] [] selections
      ((collectVisiting t owner [] [] selections).map (·.1)) :=
    follows_collectVisiting (List.Subset.refl []) (by simp [Finished])
  rw [collectFields_eq, collectOnce]
  cases hrun : collectVisiting t owner [] [] selections with
  | error e =>
    rw [hrun] at hfollows
    have hexpand : expand t owner [] selections = .error e := hfollows
    rw [hexpand]
    exact .error e
  | ok r =>
    rw [hrun] at hfollows
    obtain ⟨fs, gs, hexpand, hgroups, hpad, -, -⟩ := hfollows
    rw [hexpand, map_ok, map_ok, hgroups]
    exact .ok (hpad.forall₂_foldl (List.nil_subset _) .nil .nil)

end SharpClient

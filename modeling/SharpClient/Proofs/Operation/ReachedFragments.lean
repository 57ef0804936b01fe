import SharpClient.Proofs.Generator.Modes
import SharpClient.Proofs.Selection.Held
import SharpClient.Proofs.Selection.Merging

/-!
# Fragments that an operation reaches

An operation is compiled against the fragments of all documents, but it sees only those that it
reaches: the ones it spreads at some depth, the ones that these spread, and so on (`Reaches`). What
stands in the table besides them may be anything, and may be missing.

Two tables agree on a set of names when they find the same fragment for each of them, or none, and
the set is closed under spreads (`AgreeOn`). Everything that is made of an operation is then the
same with either table, errors included:

* expanding and compiling selections, by induction on how deep classes nest;
* the names that are reached, by induction on the steps of the search;
* the order in which documents list their fragments, since only the first places of the reached
  names matter to it.

`output_eq_of_reached` puts these together. Runs may also differ in how deep classes may nest. Of
two such runs one may break off where the other goes on, and no more than that (`UpToLimit`).
-/

namespace SharpClient

open Outcome

/-! ### Spreads in selections -/

/-- Every fragment spread in the selections, at any depth, is in the set. -/
def SpreadsWithin (P : Text → Prop) (selections : List Selection) : Prop :=
  ∀ name ∈ spreadsInAll selections, P name

section SpreadsWithin

variable {P : Text → Prop} {t : FragmentTable}

theorem SpreadsWithin.head {s : Selection} {rest : List Selection}
    (h : SpreadsWithin P (s :: rest)) : ∀ name ∈ spreadsIn s, P name :=
  fun name hname => h name (List.mem_append_left _ hname)

theorem SpreadsWithin.tail {s : Selection} {rest : List Selection}
    (h : SpreadsWithin P (s :: rest)) : SpreadsWithin P rest :=
  fun name hname => h name (List.mem_append_right _ hname)

/-- Sub-selections that are put together spread what each of them spreads. -/
theorem spreadsWithin_selectionsOf {fs : List Field}
    (h : ∀ f ∈ fs, SpreadsWithin P f.selections) (k : Text) :
    SpreadsWithin P (selectionsOf fs k) := by
  intro name hname
  obtain ⟨s, hs, hname⟩ := mem_spreadsInAll.mp hname
  obtain ⟨f, hf, hs⟩ := List.mem_flatMap.mp hs
  exact h f (List.mem_filter.mp hf).1 name (mem_spreadsInAll.mpr ⟨s, hs, hname⟩)

end SpreadsWithin

/-! ### Tables that agree -/

namespace FragmentTable

/-- The selections spread the name at some depth, or spread a fragment that leads to it. -/
inductive Reaches (t : FragmentTable) (selections : List Selection) : Text → Prop
  | spread {name : Text} (h : name ∈ spreadsInAll selections) : Reaches t selections name
  | through {via name : Text} {f : Fragment} (hvia : Reaches t selections via)
      (hget : t.get? via = some f) (h : name ∈ spreadsInAll f.definition.selections) :
      Reaches t selections name

/-- The tables have the same fragments under the names of a set, and these spread no others. -/
structure AgreeOn (P : Text → Prop) (t t' : FragmentTable) : Prop where
  get?_eq : ∀ name, P name → t.get? name = t'.get? name
  spreadsWithin : ∀ name f, P name → t.get? name = some f →
    SpreadsWithin P f.definition.selections

variable {P : Text → Prop} {t t' : FragmentTable}

theorem agreeOn_reaches {selections : List Selection}
    (h : ∀ name, t.Reaches selections name → t.get? name = t'.get? name) :
    AgreeOn (t.Reaches selections) t t' :=
  ⟨h, fun _ _ hname hget _ hspread => .through hname hget hspread⟩

namespace AgreeOn

theorem symm (h : AgreeOn P t t') : AgreeOn P t' t := by
  refine ⟨fun name hname => (h.get?_eq name hname).symm, fun name f hname hget => ?_⟩
  exact h.spreadsWithin name f hname ((h.get?_eq name hname).trans hget)

theorem get_eq (h : AgreeOn P t t') {name : Text} (hname : P name) : t.get name = t'.get name := by
  rw [get, get, h.get?_eq name hname]

/-! ### Selections -/

/-- Selections stand for the same fields. -/
theorem expand_eq (h : AgreeOn P t t') {owner : Text} {path : List Text}
    {selections : List Selection} (hP : SpreadsWithin P selections) :
    expand t owner path selections = expand t' owner path selections := by
  have hsame {name : Text} {directives : List Directive} {rest : List Selection}
      (hP : SpreadsWithin P (.spread name directives :: rest)) : t.get? name = t'.get? name :=
    h.get?_eq name (hP.head name List.mem_cons_self)
  fun_induction expand t owner path selections with
  | case1 path => rw [expand_nil]
  | case2 path as name arguments directives sub rest ih => rw [expand_field, ih hP.tail]
  | case3 path name directives rest hf => rw [expand_spread_unknown ((hsame hP).symm.trans hf)]
  | case4 path name directives rest f hf hn ih =>
    rw [expand_spread_cut ((hsame hP).symm.trans hf) hn, ih hP.tail]
  | case5 path name directives rest f hf hn ihspread ihrest =>
    have hbody : SpreadsWithin P f.definition.selections :=
      h.spreadsWithin name f (hP.head name List.mem_cons_self) hf
    rw [expand_spread ((hsame hP).symm.trans hf) hn, ihspread hbody, ihrest hP.tail]
  | case6 path on directives sub rest => rw [expand_inline]

/-- The fields that selections hold spread no fragment outside the set. -/
theorem spreadsWithin_of_holds (h : AgreeOn P t t') {S : Set Selection} {f : Field}
    (hf : Holds t S f) (hS : ∀ s ∈ S, ∀ name ∈ spreadsIn s, P name) :
    SpreadsWithin P f.selections := by
  induction hf with
  | field hmem => exact fun name hname => hS _ hmem name hname
  | @spread S name directives fragment f hmem hget hf ih =>
    have hbody : SpreadsWithin P fragment.definition.selections :=
      h.spreadsWithin name fragment (hS _ hmem name List.mem_cons_self) hget
    exact ih fun s hs n hn => hbody n (mem_spreadsInAll.mpr ⟨s, hs, hn⟩)

theorem spreadsWithin_of_mem_expand (h : AgreeOn P t t') {owner : Text} {path : List Text}
    {selections : List Selection} {fs : List Field} (hP : SpreadsWithin P selections)
    (hfs : expand t owner path selections = .ok fs) {f : Field} (hf : f ∈ fs) :
    SpreadsWithin P f.selections := by
  refine h.spreadsWithin_of_holds (holds_of_mem_expand hfs hf) fun s hs name hname => ?_
  exact hP name (mem_spreadsInAll.mpr ⟨s, hs, hname⟩)

theorem spreadsWithin_of_mem_mergeFields (h : AgreeOn P t t') {owner : Text} {path : List Text}
    {selections : List Selection} {fs : List Field} (hP : SpreadsWithin P selections)
    (hfs : expand t owner path selections = .ok fs) {f : Field} (hf : f ∈ mergeFields fs) :
    SpreadsWithin P f.selections := by
  rw [selections_of_mem_mergeFields hf]
  exact spreadsWithin_selectionsOf (fun f hf => h.spreadsWithin_of_mem_expand hP hfs hf) f.key

end AgreeOn

end FragmentTable

/-! ### Classes -/

/-- The first run ended as the second one, or broke off because its classes nested too deep. -/
def UpToLimit {α : Type} (x y : Except GenerationError α) : Prop :=
  x = .error .nestingLimit ∨ x = y

namespace UpToLimit

variable {α β : Type} {x y : Except GenerationError α}

theorem refl (x : Except GenerationError α) : UpToLimit x x :=
  .inr rfl

theorem antisymm (h : UpToLimit x y) (h' : UpToLimit y x) : x = y := by
  rcases h with hx | hxy
  · rcases h' with hy | hyx
    · rw [hx, hy]
    · exact hyx.symm
  · exact hxy

theorem bind {f g : α → Except GenerationError β} (h : UpToLimit x y)
    (hrest : ∀ a, x = .ok a → UpToLimit (f a) (g a)) : UpToLimit (x >>= f) (y >>= g) := by
  rcases h with rfl | rfl
  · exact .inl rfl
  · cases hx : x with
    | error e => exact .refl _
    | ok a => exact hrest a hx

end UpToLimit

namespace SelectionContext

variable {P : Text → Prop} {c c' : SelectionContext}
  (htypes : c.toTypeContext = c'.toTypeContext)
  (hfragments : c.fragments.AgreeOn P c'.fragments)

include htypes hfragments

section Nesting

variable {nest nest' : Text → List Selection → TypeDefinition → Except GenerationError ClassDecl}
  (hnest : ∀ name selections parent, SpreadsWithin P selections →
    UpToLimit (nest name selections parent) (nest' name selections parent))

include hnest

theorem compileFieldWith_upToLimit {parent : TypeDefinition} {scope : Scope} {f : Field}
    (hf : SpreadsWithin P f.selections) :
    UpToLimit (c.compileFieldWith nest parent scope f)
      (c'.compileFieldWith nest' parent scope f) := by
  obtain ⟨types, table, limit⟩ := c
  obtain ⟨types', table', limit'⟩ := c'
  cases htypes
  refine .bind (.refl _) fun type _ => ?_
  by_cases hnone : f.selections.isEmpty
  · simp only [hnone, if_true]
    exact .refl _
  simp only [hnone]
  cases hsole : soleSpread? f.selections with
  | some name =>
    obtain ⟨directives, hselections⟩ := soleSpread?_eq_some hsole
    rw [hselections] at hf
    have hget : table.get name = table'.get name :=
      hfragments.get_eq (hf.head name List.mem_cons_self)
    simp only [hget]
    exact .refl _
  | none =>
    refine .bind (.refl _) fun core _ => ?_
    exact .bind (hnest _ _ _ hf) fun d _ => .refl _

theorem compileFields_upToLimit {parent : TypeDefinition} {fs : List Field}
    (hfs : ∀ f ∈ fs, SpreadsWithin P f.selections) (scope : Scope) :
    UpToLimit (c.compileFields nest parent scope fs) (c'.compileFields nest' parent scope fs) := by
  induction fs generalizing scope with
  | nil => exact .refl _
  | cons f fs ih =>
    rw [List.forall_mem_cons] at hfs
    refine .bind (compileFieldWith_upToLimit htypes hfragments hnest hfs.1) fun x _ => ?_
    exact .bind (ih hfs.2 x.2) fun rest _ => .refl _

theorem compileSelectionsWith_upToLimit {parent : TypeDefinition} {selections : List Selection}
    (hP : SpreadsWithin P selections) (scope : Scope) :
    UpToLimit (c.compileSelectionsWith nest selections parent scope)
      (c'.compileSelectionsWith nest' selections parent scope) := by
  rw [compileSelectionsWith_eq, compileSelectionsWith_eq, hfragments.expand_eq hP]
  refine .bind (.refl _) fun fs hfs => ?_
  rw [← hfragments.expand_eq hP] at hfs
  exact compileFields_upToLimit htypes hfragments hnest
    (fun f hf => hfragments.spreadsWithin_of_mem_mergeFields hP hfs hf) scope

end Nesting

/-- With a larger limit the same class is compiled, or the same error met, unless the smaller limit
is too small. -/
theorem compileClassWithin_upToLimit {limit limit' : Nat} (hlimit : limit ≤ limit') {name : Text}
    {selections : List Selection} {parent : TypeDefinition} (hP : SpreadsWithin P selections) :
    UpToLimit (c.compileClassWithin limit name selections parent)
      (c'.compileClassWithin limit' name selections parent) := by
  induction limit generalizing limit' name selections parent with
  | zero => exact .inl rfl
  | succ limit ih =>
    obtain ⟨limit', rfl⟩ : ∃ k, limit' = k + 1 := ⟨limit' - 1, by omega⟩
    have hnest : ∀ name selections parent, SpreadsWithin P selections →
        UpToLimit (c.compileClassWithin limit name selections parent)
          (c'.compileClassWithin limit' name selections parent) :=
      fun _ _ _ hP => ih (by omega) hP
    exact .bind (compileSelectionsWith_upToLimit htypes hfragments hnest hP _) fun _ _ => .refl _

theorem compileRoot_upToLimit (hlimit : c.limit ≤ c'.limit) {name : Text}
    {selections : List Selection} {parent : TypeDefinition} (hP : SpreadsWithin P selections) :
    UpToLimit (c.compileRoot name selections parent) (c'.compileRoot name selections parent) := by
  rw [compileRoot, compileRoot]
  cases selections.find? (!·.isField) with
  | some s => exact .refl _
  | none => exact compileClassWithin_upToLimit htypes hfragments hlimit hP

end SelectionContext

/-! ### Documents -/

namespace FragmentTable

/-- The place of the first fragment of a name; behind all fragments when there is none. -/
def place (t : FragmentTable) (name : Text) : Nat :=
  (t.fragments.map (·.name)).idxOf name

section Reach

variable {t : FragmentTable} {seen rest : List Text} {name : Text}

theorem reach_nil : t.reach seen [] = .ok seen := by
  rw [reach]

theorem reach_seen (hn : name ∈ seen) : t.reach seen (name :: rest) = t.reach seen rest := by
  rw [reach, dif_pos hn]

theorem reach_unknown (hn : name ∉ seen) (hf : t.get? name = none) :
    t.reach seen (name :: rest) = .error (.fragmentNotFound name) := by
  rw [reach, dif_neg hn]
  split <;> simp_all

theorem reach_found {f : Fragment} (hn : name ∉ seen) (hf : t.get? name = some f) :
    t.reach seen (name :: rest) =
      t.reach (name :: seen) ((spreadNames f.definition.selections).reverse ++ rest) := by
  rw [reach, dif_neg hn]
  split <;> simp_all

end Reach

namespace AgreeOn

variable {P : Text → Prop} {t t' : FragmentTable} (h : AgreeOn P t t')

include h

/-- What a fragment of the set adds to the pending names stays in the set. -/
theorem pending_found {name : Text} {f : Fragment} {rest : List Text}
    (hpending : ∀ n ∈ name :: rest, P n) (hf : t.get? name = some f) :
    ∀ n ∈ (spreadNames f.definition.selections).reverse ++ rest, P n := by
  rw [List.forall_mem_cons] at hpending
  intro n hn
  rcases List.mem_append.mp hn with hn | hn
  · have hspread : n ∈ spreadsInAll f.definition.selections :=
      mem_firstOccurrences.mp (List.mem_reverse.mp hn)
    exact h.spreadsWithin name f hpending.1 hf n hspread
  · exact hpending.2 n hn

/-- The search goes the same way in both tables, and never leaves the set. -/
theorem reach_eq (seen : List Text) {pending : List Text} (hpending : ∀ n ∈ pending, P n) :
    t.reach seen pending = t'.reach seen pending ∧
      ∀ found, t.reach seen pending = .ok found → ∀ n ∈ found, n ∈ seen ∨ P n := by
  fun_induction t.reach seen pending with
  | case1 seen =>
    refine ⟨reach_nil.symm, ?_⟩
    rintro found ⟨⟩ n hn
    exact .inl hn
  | case2 seen name rest hn ih =>
    rw [reach_seen hn]
    exact ih (List.forall_mem_cons.mp hpending).2
  | case3 seen name rest hn hf =>
    have hf' : t'.get? name = none := (h.get?_eq name (hpending name List.mem_cons_self)) ▸ hf
    exact ⟨(reach_unknown hn hf').symm, by simp⟩
  | case4 seen name rest hn f hf ih =>
    have hname : P name := hpending name List.mem_cons_self
    obtain ⟨heq, hfound⟩ := ih (h.pending_found hpending hf)
    refine ⟨?_, fun found hreach n hn => ?_⟩
    · rw [heq, reach_found hn ((h.get?_eq name hname) ▸ hf)]
    · rcases hfound found hreach n hn with hseen | hP
      · exact (List.mem_cons.mp hseen).elim (fun heq => .inr (heq ▸ hname)) .inl
      · exact .inr hP

variable (horder : ∀ a b, P a → P b → (t.place a < t.place b ↔ t'.place a < t'.place b))

include horder

/-- Names of the set that are picked from both tables come in the same order. -/
theorem filter_names_eq {found : List Text} (hfound : ∀ n ∈ found, P n) :
    t.names.filter (· ∈ found) = t'.names.filter (· ∈ found) := by
  have hsorted (t : FragmentTable) :
      (t.names.filter (· ∈ found)).Pairwise fun a b => t.place a < t.place b :=
    (pairwise_firstOccurrences _).filter _
  have hP {a : Text} {t : FragmentTable} (ha : a ∈ t.names.filter (· ∈ found)) : P a :=
    hfound a (by simpa using (List.mem_filter.mp ha).2)
  have hsorted' : (t'.names.filter (· ∈ found)).Pairwise fun a b => t.place a < t.place b :=
    (hsorted t').imp_of_mem fun ha hb hlt => (horder _ _ (hP ha) (hP hb)).mpr hlt
  have hmem (n : Text) :
      n ∈ t.names.filter (· ∈ found) ↔ n ∈ t'.names.filter (· ∈ found) := by
    simp only [List.mem_filter, decide_eq_true_eq, mem_names]
    exact and_congr_left fun hn => by rw [h.get?_eq n (hfound n hn)]
  have hperm : (t.names.filter (· ∈ found)).Perm (t'.names.filter (· ∈ found)) :=
    (List.perm_ext_iff_of_nodup ((nodup_firstOccurrences _).filter _)
      ((nodup_firstOccurrences _).filter _)).mpr hmem
  refine hperm.eq_of_pairwise (fun a b _ _ hab hba => ?_) (hsorted t) hsorted'
  exact absurd (Nat.lt_trans hab hba) (Nat.lt_irrefl _)

theorem dependencies_eq {selections : List Selection} (hP : SpreadsWithin P selections) :
    t.dependencies selections = t'.dependencies selections ∧
      ∀ names, t.dependencies selections = .ok names → ∀ n ∈ names, P n := by
  have hpending : ∀ n ∈ (spreadNames selections).reverse, P n := fun n hn =>
    hP n (mem_firstOccurrences.mp (List.mem_reverse.mp hn))
  obtain ⟨heq, hfound⟩ := h.reach_eq [] hpending
  rw [dependencies, dependencies, ← heq]
  cases hreach : t.reach [] (spreadNames selections).reverse with
  | error e => exact ⟨rfl, by simp⟩
  | ok found =>
    have hin : ∀ n ∈ found, P n := fun n hn =>
      (hfound found hreach n hn).resolve_left List.not_mem_nil
    refine ⟨?_, ?_⟩
    · rw [map_ok, map_ok, h.filter_names_eq horder hin]
    · rintro names ⟨⟩ n hn
      exact hin n (by simpa using (List.mem_filter.mp hn).2)

end AgreeOn

end FragmentTable

/-! ### Everything that is made of an operation -/

namespace OperationContext

/-- Both runs make the same of an operation, or refuse it with the same error. -/
structure SameOutput (c c' : OperationContext) (o : Operation) : Prop where
  request : c.requestClass o = c'.requestClass o
  /-- With one limit for both runs the answer has the same class. -/
  response : c.limit = c'.limit → c.responseClass o = c'.responseClass o
  /-- Whatever the limits, the classes differ only if one run breaks off. -/
  response_or_limit : c.responseClass o = c'.responseClass o ∨
    c.responseClass o = .error .nestingLimit ∨ c'.responseClass o = .error .nestingLimit
  signatures : c.signatures o = c'.signatures o
  dependencies : c.dependencies o = c'.dependencies o
  documentText : c.documentText o = c'.documentText o
  methods : c.methods o = c'.methods o

variable {P : Text → Prop} {c c' : OperationContext} {o : Operation}

theorem responseClass_upToLimit (htypes : c.toTypeContext = c'.toTypeContext)
    (hfragments : c.fragments.AgreeOn P c'.fragments) (hlimit : c.limit ≤ c'.limit)
    (hP : SpreadsWithin P o.selections) :
    UpToLimit (c.responseClass o) (c'.responseClass o) := by
  have hroot : c.rootType o = c'.rootType o := by rw [rootType, rootType, htypes]
  rw [responseClass, responseClass, hroot]
  refine .bind (.refl _) fun root _ => .bind (.refl _) fun name _ => ?_
  rw [htypes]
  exact SelectionContext.compileRoot_upToLimit htypes hfragments hlimit hP

theorem signatures_congr (htypes : c.toTypeContext = c'.toTypeContext)
    (hconfig : c.config = c'.config) (o : Operation) : c.signatures o = c'.signatures o := by
  obtain ⟨⟨types, table, limit⟩, config⟩ := c
  obtain ⟨⟨types', table', limit'⟩, config'⟩ := c'
  cases htypes
  cases hconfig
  rfl

theorem definitionTexts_eq (hfragments : c.fragments.AgreeOn P c'.fragments)
    (hdependencies : c.dependencies o = c'.dependencies o)
    (hin : ∀ names, c.dependencies o = .ok names → ∀ n ∈ names, P n) :
    c.definitionTexts o = c'.definitionTexts o := by
  rw [definitionTexts, definitionTexts, ← hdependencies]
  cases hnames : c.dependencies o with
  | error e => rfl
  | ok names =>
    have hget : names.mapM c.fragments.get = names.mapM c'.fragments.get :=
      mapM_congr fun n hn => hfragments.get_eq (hin names hnames n hn)
    rw [ok_bind, ok_bind, hget]

theorem methods_congr (htypes : c.toTypeContext = c'.toTypeContext)
    (hconfig : c.config = c'.config) (hdocument : c.documentText o = c'.documentText o) :
    c.methods o = c'.methods o := by
  have hexpression (name : Text) :
      c.documentExpression o name = c'.documentExpression o name := by
    rw [documentExpression, documentExpression, hconfig, hdocument]
  obtain ⟨⟨types, table, limit⟩, config⟩ := c
  obtain ⟨⟨types', table', limit'⟩, config'⟩ := c'
  cases htypes
  cases hconfig
  simp only [methods, hexpression]
  rfl

end OperationContext

/-- **Reached fragments.** Two runs with the same schema and options make the same of an operation,
errors included, when their fragments differ only where the operation does not reach: every name
that it reaches finds the same fragment first, or none, and these names first occur in the same
order. -/
theorem output_eq_of_reached {c c' : OperationContext} {o : Operation}
    (htypes : c.toTypeContext = c'.toTypeContext) (hconfig : c.config = c'.config)
    (hsame : ∀ name, c.fragments.Reaches o.selections name →
      c.fragments.get? name = c'.fragments.get? name)
    (horder : ∀ a b, c.fragments.Reaches o.selections a → c.fragments.Reaches o.selections b →
      (c.fragments.place a < c.fragments.place b ↔ c'.fragments.place a < c'.fragments.place b)) :
    c.SameOutput c' o := by
  have hfragments := FragmentTable.agreeOn_reaches hsame
  have hP : SpreadsWithin (c.fragments.Reaches o.selections) o.selections := fun _ h => .spread h
  have hup (hlimit : c.limit ≤ c'.limit) : UpToLimit (c.responseClass o) (c'.responseClass o) :=
    OperationContext.responseClass_upToLimit htypes hfragments hlimit hP
  have hdown (hlimit : c'.limit ≤ c.limit) : UpToLimit (c'.responseClass o) (c.responseClass o) :=
    OperationContext.responseClass_upToLimit htypes.symm hfragments.symm hlimit hP
  obtain ⟨hdependencies, hin⟩ := hfragments.dependencies_eq horder hP
  have htexts : c.definitionTexts o = c'.definitionTexts o :=
    OperationContext.definitionTexts_eq hfragments hdependencies hin
  have hdocument : c.documentText o = c'.documentText o := by
    rw [OperationContext.documentText, OperationContext.documentText, htexts]
  exact {
    request := OperationContext.requestClass_congr htypes o
    response := fun hlimit => (hup hlimit.le).antisymm (hdown hlimit.ge)
    response_or_limit := by
      rcases Nat.le_total c.limit c'.limit with hlimit | hlimit
      · exact (hup hlimit).elim (fun h => .inr (.inl h)) .inl
      · exact (hdown hlimit).elim (fun h => .inr (.inr h)) fun h => .inl h.symm
    signatures := OperationContext.signatures_congr htypes hconfig o
    dependencies := hdependencies
    documentText := hdocument
    methods := OperationContext.methods_congr htypes hconfig hdocument }

namespace ShadowSample

/-- The titles of a user's posts, through another fragment. -/
def posts : Fragment :=
  .ofDefinition ⟨none, "Posts", "User", [], [.field none "posts" [] [] [.spread "Title" []]]⟩

/-- A fragment of posts with the given field. -/
def title (field : Text) : Fragment :=
  .ofDefinition ⟨none, "Title", "Post", [], [.field none field [] [] []]⟩

/-- A fragment that the operation does not reach, on a type that does not exist. -/
def unused : Fragment :=
  .ofDefinition ⟨none, "Unused", "Nobody", [], [.spread "Missing" []]⟩

/-- Users with posts. -/
def schema : Schema :=
  ⟨[⟨"Query", .object [] [⟨"user", [], .named "User", []⟩], []⟩,
    ⟨"User", .object [] [⟨"name", [], .named "String", []⟩,
      ⟨"posts", [], .list (.named "Post"), []⟩], []⟩,
    ⟨"Post", .object [] [⟨"title", [], .named "String", []⟩], []⟩], [(.query, "Query")], []⟩

/-- A run with the given fragments. -/
def context (fragments : List Fragment) : OperationContext where
  schema := schema
  scalars := ⟨[]⟩
  convention := .keep
  fragments := ⟨fragments⟩
  limit := 2
  config := {}

/-- Asks for a user's name and posts. -/
def operation : Operation :=
  ⟨none, .query, some "Find", [], [],
    [.field none "user" [] [] [.field none "name" [] [] [], .spread "Posts" []]]⟩

/-- A table with a fragment that is not reached. -/
def first : List Fragment := [unused, title "title", posts]

/-- A table in which a second fragment bears the name of one that is reached. -/
def second : List Fragment := [title "title", posts, title "other"]

/-- The operation spreads one fragment, which spreads the other. -/
theorem reached_cases {name : Text}
    (h : (context first).fragments.Reaches operation.selections name) :
    name = "Posts" ∨ name = "Title" := by
  induction h with
  | spread h => exact .inl (List.mem_singleton.mp h)
  | through hvia hget h ih =>
    rcases ih with rfl | rfl
    · cases hget
      exact .inr (List.mem_singleton.mp h)
    · cases hget
      cases h

theorem operation_sameOutput :
    (∀ name, (context first).fragments.Reaches operation.selections name →
      (context first).fragments.get? name = (context second).fragments.get? name) ∧
    (∀ a b, (context first).fragments.Reaches operation.selections a →
      (context first).fragments.Reaches operation.selections b →
      ((context first).fragments.place a < (context first).fragments.place b ↔
        (context second).fragments.place a < (context second).fragments.place b)) ∧
    (context first).SameOutput (context second) operation := by
  have hsame : ∀ name, (context first).fragments.Reaches operation.selections name →
      (context first).fragments.get? name = (context second).fragments.get? name := by
    intro name h
    rcases reached_cases h with rfl | rfl <;> rfl
  have horder : ∀ a b, (context first).fragments.Reaches operation.selections a →
      (context first).fragments.Reaches operation.selections b →
      ((context first).fragments.place a < (context first).fragments.place b ↔
        (context second).fragments.place a < (context second).fragments.place b) := by
    intro a b ha hb
    rcases reached_cases ha with rfl | rfl <;> rcases reached_cases hb with rfl | rfl <;> decide
  exact ⟨hsame, horder, output_eq_of_reached rfl rfl hsame horder⟩

end ShadowSample

end SharpClient

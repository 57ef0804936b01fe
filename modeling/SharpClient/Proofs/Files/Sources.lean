import Mathlib.Data.List.Nodup
import SharpClient.Files.Sources
import SharpClient.Proofs.Files.Paths
import SharpClient.Proofs.Files.Writing
import SharpClient.Proofs.Outcome

/-!
# The order of source files

A directory lists its entries in an order of its own, and so does every directory below it. What a
walk through a tree reports is therefore one of many lists (`Tree.Walk`). They all hold the same
files (`Tree.Walk.perm`), and no two files of a tree have one path (`Tree.nodup_filesBelow`). So
sorting by paths gives the same list for all of them (`Workspace.sources_of_any_listing`), and the
documents are read from the files in the order of that list (`Workspace.documents_eq_ok_iff`,
`Workspace.documents_eq_error_iff`).

The order of whole paths is not the order of the tree: a slash is compared like any other character,
and the files of a directory may stand between files of the directory above.
-/

namespace SharpClient

/-! ### Code point order -/

namespace Text

/-- The text comes before another one in the order of code points, a proper beginning first. -/
def Precedes (a b : Text) : Prop :=
  List.Lex (fun c d : Char => c.toNat < d.toNat) a b

theorem before_iff (a b : Text) : before a b ↔ ¬ Precedes b a := by
  fun_induction before a b with
  | case1 b => exact iff_of_true rfl (List.not_lt_nil b)
  | case2 c cs => exact iff_of_false Bool.false_ne_true (not_not_intro .nil)
  | case3 cs d ds ih =>
    rw [ih, Precedes, Precedes, List.cons_lex_cons_iff]
    simp
  | case4 c cs d ds hne =>
    have hcode : c.toNat ≠ d.toNat := fun h => hne (Char.toNat_inj.mp h)
    rw [Precedes, List.cons_lex_cons_iff, decide_eq_true_iff]
    simp only [Ne.symm hne, false_and, or_false]
    omega

theorem Precedes.asymm {a b : Text} (h : Precedes a b) : ¬ Precedes b a :=
  List.lt_asymm h

theorem before_trans {a b c : Text} (hab : before a b) (hbc : before b c) : before a c := by
  rw [before_iff] at *
  exact List.not_lt.mpr (List.le_trans (List.not_lt.mp hab) (List.not_lt.mp hbc))

theorem before_total (a b : Text) : before a b || before b a := by
  rw [Bool.or_eq_true, before_iff, before_iff]
  exact List.le_total a b

theorem precedes_of_before {a b : Text} (h : before a b) (hne : a ≠ b) : Precedes a b := by
  by_contra hab
  exact hne (List.le_antisymm ((before_iff a b).mp h) hab)

end Text

namespace Tree

/-! ### Proper trees -/

/-- Every directory of the tree lists names, and each of them once. -/
inductive IsProper : Tree → Prop
  | file (content : Text) : IsProper (file content)
  | directory {entries : List (Text × Tree)} (hdistinct : (entries.map Prod.fst).Nodup)
      (hnames : ∀ e ∈ entries, Path.IsEntryName e.1) (hbelow : ∀ e ∈ entries, IsProper e.2) :
      IsProper (directory entries)

theorem at?_append (t : Tree) (a b : List Text) : t.at? (a ++ b) = (t.at? a).bind (·.at? b) := by
  induction a generalizing t with
  | nil => rfl
  | cons name rest ih =>
    rw [List.cons_append, at?, at?, Option.bind_assoc]
    exact congrArg _ (funext ih)

/-- What stands in a proper tree is proper, and names lead to it. -/
theorem IsProper.at? {t u : Tree} (ht : t.IsProper) {place : List Text} (h : t.at? place = some u) :
    u.IsProper ∧ ∀ n ∈ place, Path.IsEntryName n := by
  induction place generalizing t with
  | nil =>
    cases h
    exact ⟨ht, by simp⟩
  | cons name rest ih =>
    cases ht with
    | file content => cases h
    | directory hdistinct hnames hbelow =>
      obtain ⟨s, hs, h⟩ := Option.bind_eq_some_iff.mp h
      have hmem := (Entries.lookup_eq_some_iff_mem hdistinct).mp hs
      obtain ⟨hu, hrest⟩ := ih (hbelow _ hmem) h
      exact ⟨hu, List.forall_mem_cons.mpr ⟨hnames _ hmem, hrest⟩⟩

theorem IsProper.names_of_fileAt? {t : Tree} (ht : t.IsProper) {place : List Text} {content : Text}
    (h : t.fileAt? place = some content) : ∀ n ∈ place, Path.IsEntryName n := by
  rw [fileAt?] at h
  split at h
  case h_1 text hat => exact (ht.at? hat).2
  case h_2 => cases h

/-! ### The files of a tree -/

theorem filesOfEntries_eq (path : Text) (entries : List (Text × Tree)) :
    filesOfEntries path entries =
      entries.flatMap fun e => e.2.filesBelow (Path.child path e.1) := by
  induction entries with
  | nil => rfl
  | cons e es ih =>
    obtain ⟨name, t⟩ := e
    rw [filesOfEntries, ih, List.flatMap_cons]

/-- The files of a tree are those in its places, under the paths of the places. -/
theorem mem_filesBelow {t : Tree} (ht : t.IsProper) {path p content : Text} :
    (p, content) ∈ t.filesBelow path ↔
      ∃ place, t.fileAt? place = some content ∧ p = Path.below path place := by
  induction ht generalizing path with
  | file text =>
    rw [filesBelow, List.mem_singleton]
    constructor
    · rintro ⟨⟩
      exact ⟨[], rfl, rfl⟩
    · rintro ⟨place, hfile, rfl⟩
      cases place with
      | nil =>
        cases hfile
        rfl
      | cons name rest => cases hfile
  | directory hdistinct hnames hbelow ih =>
    -- Each entry is the one that its name leads to, since no name is listed twice.
    rw [filesBelow, filesOfEntries_eq, List.mem_flatMap]
    constructor
    · rintro ⟨⟨name, t⟩, hmem, hfile⟩
      obtain ⟨place, hplace, rfl⟩ := (ih _ hmem).mp hfile
      refine ⟨name :: place, ?_, rfl⟩
      rw [fileAt?_directory_cons, (Entries.lookup_eq_some_iff_mem hdistinct).mpr hmem]
      exact hplace
    · rintro ⟨place, hfile, rfl⟩
      cases place with
      | nil => cases hfile
      | cons name rest =>
        rw [fileAt?_directory_cons] at hfile
        obtain ⟨t, hlookup, hfile⟩ := Option.bind_eq_some_iff.mp hfile
        have hmem := (Entries.lookup_eq_some_iff_mem hdistinct).mp hlookup
        exact ⟨(name, t), hmem, (ih _ hmem).mpr ⟨rest, hfile, rfl⟩⟩

/-- No two files of a tree have one path. -/
theorem nodup_filesBelow {t : Tree} (ht : t.IsProper) (path : Text) :
    ((t.filesBelow path).map Prod.fst).Nodup := by
  induction ht generalizing path with
  | file text => simp [filesBelow]
  | @directory entries hdistinct hnames hbelow ih =>
    rw [filesBelow, filesOfEntries_eq, List.map_flatMap, List.nodup_flatMap]
    refine ⟨fun e he => ih e he _, ?_⟩
    have hpairs : entries.Pairwise fun e e' => e.1 ≠ e'.1 := List.pairwise_map.mp hdistinct
    refine hpairs.imp_of_mem fun {e e'} he he' hne p hp hp' => ?_
    -- A path in both parts would lead through entries of two names.
    obtain ⟨⟨q, content⟩, hfile, hq⟩ := List.mem_map.mp hp
    obtain ⟨⟨q', content'⟩, hfile', hq'⟩ := List.mem_map.mp hp'
    obtain ⟨place, hplace, rfl⟩ := (mem_filesBelow (hbelow e he)).mp hfile
    obtain ⟨place', hplace', rfl⟩ := (mem_filesBelow (hbelow e' he')).mp hfile'
    have hnames₁ : ∀ n ∈ e.1 :: place, Path.IsEntryName n :=
      List.forall_mem_cons.mpr ⟨hnames e he, (hbelow e he).names_of_fileAt? hplace⟩
    have hnames₂ : ∀ n ∈ e'.1 :: place', Path.IsEntryName n :=
      List.forall_mem_cons.mpr ⟨hnames e' he', (hbelow e' he').names_of_fileAt? hplace'⟩
    have hsame : Path.below path (e.1 :: place) = Path.below path (e'.1 :: place') :=
      hq.trans hq'.symm
    exact hne (List.cons.inj (Path.below_injective hnames₁ hnames₂ hsame)).1

/-! ### Walks -/

/-- The files that a directory lists itself, with their paths. -/
def listedFiles (path : Text) (entries : List (Text × Tree)) : List (Text × Text) :=
  entries.filterMap fun
    | (name, file content) => some (Path.child path name, content)
    | (_, directory _) => none

/-- The directories that a directory lists itself, with their paths. -/
def listedDirectories (path : Text) (entries : List (Text × Tree)) :
    List (Text × List (Text × Tree)) :=
  entries.filterMap fun
    | (_, file _) => none
    | (name, directory inner) => some (Path.child path name, inner)

/-- A walk that has directories ahead may report these files. It lists the first directory in any
order, reports the files in it, and goes on with the directories in it before all others. -/
inductive Walk : List (Text × List (Text × Tree)) → List (Text × Text) → Prop
  | done : Walk [] []
  | enter {path : Text} {entries listed : List (Text × Tree)}
      {ahead : List (Text × List (Text × Tree))} {found : List (Text × Text)}
      (hlisted : listed.Perm entries)
      (hrest : Walk (listedDirectories path listed ++ ahead) found) :
      Walk ((path, entries) :: ahead) (listedFiles path listed ++ found)

/-- What a walk may report of a tree that stands under a path. -/
def Reports (path : Text) : Tree → List (Text × Text) → Prop
  | file content, found => found = [(path, content)]
  | directory entries, found => Walk [(path, entries)] found

/-- Listing a directory loses no file: it is reported, or it is below a directory ahead. -/
theorem perm_listed (path : Text) (entries : List (Text × Tree)) :
    (listedFiles path entries ++
      (listedDirectories path entries).flatMap fun d => filesOfEntries d.1 d.2).Perm
      (filesOfEntries path entries) := by
  induction entries with
  | nil => exact .refl _
  | cons e es ih =>
    obtain ⟨name, t⟩ := e
    cases t with
    | file content => exact ih.cons _
    | directory inner =>
      rw [filesOfEntries, filesBelow]
      refine .trans ?_ (ih.append_left _)
      exact List.perm_append_comm_assoc _ _ _

/-- A walk reports the files below the directories ahead, and no others. -/
theorem Walk.perm {ahead : List (Text × List (Text × Tree))} {found : List (Text × Text)}
    (h : Walk ahead found) : found.Perm (ahead.flatMap fun d => filesOfEntries d.1 d.2) := by
  induction h with
  | done => exact .refl _
  | @enter path entries listed ahead found hlisted hrest ih =>
    have hentries : (filesOfEntries path listed).Perm (filesOfEntries path entries) := by
      rw [filesOfEntries_eq, filesOfEntries_eq]
      exact hlisted.flatMap_right _
    -- The files below a listed directory are those it reports and those below the ones put ahead.
    rw [List.flatMap_append] at ih
    refine (ih.append_left _).trans ?_
    rw [← List.append_assoc, List.flatMap_cons]
    exact ((perm_listed path listed).trans hentries).append_right _

theorem Reports.perm {path : Text} {t : Tree} {found : List (Text × Text)}
    (h : t.Reports path found) : found.Perm (t.filesBelow path) := by
  cases t with
  | file content =>
    cases h
    exact .refl _
  | directory entries => simpa [filesBelow] using Walk.perm h

theorem Walk.append {ahead ahead' : List (Text × List (Text × Tree))}
    {found found' : List (Text × Text)} (h : Walk ahead found) (h' : Walk ahead' found') :
    Walk (ahead ++ ahead') (found ++ found') := by
  induction h with
  | done => exact h'
  | enter hlisted hrest ih =>
    rw [List.append_assoc] at ih ⊢
    exact .enter hlisted ih

mutual

/-- Every tree can be walked through. -/
theorem exists_reports (path : Text) : (t : Tree) → ∃ found, t.Reports path found
  | file content => ⟨[(path, content)], rfl⟩
  | directory entries => by
    obtain ⟨found, h⟩ := exists_walk path entries
    rw [← List.append_nil (listedDirectories path entries)] at h
    exact ⟨_, .enter (.refl entries) h⟩

theorem exists_walk (path : Text) :
    (entries : List (Text × Tree)) → ∃ found, Walk (listedDirectories path entries) found
  | [] => ⟨[], .done⟩
  | (_, file _) :: rest => exists_walk path rest
  | (name, directory inner) :: rest => by
    obtain ⟨first, hfirst⟩ := exists_reports (Path.child path name) (directory inner)
    obtain ⟨found, h⟩ := exists_walk path rest
    exact ⟨first ++ found, Walk.append hfirst h⟩

end

/-! ### Listings of one tree -/

/-- The content of a file; a directory has none. -/
def content? : Tree → Option Text
  | file content => some content
  | directory _ => none

/-- The trees have the same files and the same directories in the same places, in whatever order the
directories list them. -/
def SamePlaces (t t' : Tree) : Prop :=
  ∀ place, (t.at? place).map content? = (t'.at? place).map content?

theorem fileAt?_eq_join (t : Tree) (place : List Text) :
    t.fileAt? place = ((t.at? place).map content?).join := by
  rw [fileAt?]
  split
  case h_1 content h =>
    rw [h]
    rfl
  case h_2 h =>
    cases hat : t.at? place with
    | none => rfl
    | some u =>
      cases u with
      | file content => exact absurd hat (h content)
      | directory entries => rfl

theorem SamePlaces.fileAt? {t t' : Tree} (h : t.SamePlaces t') (place : List Text) :
    t.fileAt? place = t'.fileAt? place := by
  rw [fileAt?_eq_join, fileAt?_eq_join, h place]

/-- What stands in one place of both trees is the same as well. -/
theorem SamePlaces.at? {t t' : Tree} (h : t.SamePlaces t') (start : List Text) :
    (t.at? start = none ∧ t'.at? start = none) ∨
      ∃ u u', t.at? start = some u ∧ t'.at? start = some u' ∧ u.SamePlaces u' := by
  have hstart := h start
  cases hu : t.at? start with
  | none =>
    rw [hu, Option.map_none, eq_comm, Option.map_eq_none_iff] at hstart
    exact .inl ⟨rfl, hstart⟩
  | some u =>
    rw [hu, Option.map_some, eq_comm, Option.map_eq_some_iff] at hstart
    obtain ⟨u', hu', -⟩ := hstart
    refine .inr ⟨u, u', rfl, hu', fun place => ?_⟩
    have hplace := h (start ++ place)
    rwa [at?_append, at?_append, hu, hu'] at hplace

theorem SamePlaces.isSome_lookup {entries entries' : List (Text × Tree)}
    (h : (directory entries).SamePlaces (directory entries')) (name : Text) :
    (entries.lookup name).isSome = (entries'.lookup name).isSome := by
  have hname := congrArg Option.isSome (h [name])
  rw [Option.isSome_map, Option.isSome_map] at hname
  simpa [Tree.at?, entry?] using hname

/-- A directory that lists its entries in another order. -/
theorem IsProper.relisted {entries listed : List (Text × Tree)}
    (h : (Tree.directory entries).IsProper) (hlisted : entries.Perm listed) :
    (Tree.directory listed).IsProper ∧
      (Tree.directory entries).SamePlaces (Tree.directory listed) := by
  cases h with
  | directory hdistinct hnames hbelow =>
    have hdistinct' : (listed.map Prod.fst).Nodup := (hlisted.map Prod.fst).nodup_iff.mp hdistinct
    refine ⟨.directory hdistinct' (fun e he => hnames e (hlisted.mem_iff.mpr he))
      (fun e he => hbelow e (hlisted.mem_iff.mpr he)), fun place => ?_⟩
    cases place with
    | nil => rfl
    | cons name rest =>
      have hlookup : entries.lookup name = listed.lookup name := by
        refine Option.ext fun t => ?_
        rw [Entries.lookup_eq_some_iff_mem hdistinct, Entries.lookup_eq_some_iff_mem hdistinct',
          hlisted.mem_iff]
      rw [Tree.at?, Tree.at?, entry?, entry?, hlookup]

end Tree

namespace Workspace

/-! ### Collected files -/

theorem mem_collect {found : List (Text × Text)} {e : Text × Text} :
    e ∈ collect found ↔ e ∈ found ∧ isGraphqlPath e.1 := by
  rw [collect, List.mem_mergeSort, List.mem_filter]

/-- Files of different paths are collected in the order of their paths. -/
theorem pairwise_collect {found : List (Text × Text)} (h : (found.map Prod.fst).Nodup) :
    (collect found).Pairwise fun a b => Text.Precedes a.1 b.1 := by
  have hsorted : (collect found).Pairwise fun a b => Text.before a.1 b.1 := by
    apply List.pairwise_mergeSort
    · exact fun a b c => Text.before_trans
    · exact fun a b => Text.before_total a.1 b.1
  have hfilter : ((found.filter (isGraphqlPath ·.1)).map Prod.fst).Nodup :=
    h.sublist (List.filter_sublist.map Prod.fst)
  have hnodup : ((collect found).map Prod.fst).Nodup :=
    ((List.mergeSort_perm _ _).map Prod.fst).nodup_iff.mpr hfilter
  have hdistinct : (collect found).Pairwise fun a b => a.1 ≠ b.1 := List.pairwise_map.mp hnodup
  exact (hsorted.and hdistinct).imp fun hab => Text.precedes_of_before hab.1 hab.2

/-- Files in the strict order of their paths are known by which ones they are. -/
theorem eq_of_pairwise_of_mem_iff {files files' : List (Text × Text)}
    (h : files.Pairwise fun a b => Text.Precedes a.1 b.1)
    (h' : files'.Pairwise fun a b => Text.Precedes a.1 b.1)
    (hmem : ∀ e, e ∈ files ↔ e ∈ files') : files = files' := by
  have hnodup : ∀ {l : List (Text × Text)},
      (l.Pairwise fun a b => Text.Precedes a.1 b.1) → l.Nodup := fun hl =>
    hl.imp fun {a b} hab heq => hab.asymm (by rwa [heq] at hab ⊢)
  refine List.Perm.eq_of_pairwise (fun a b _ _ hab hba => absurd hba hab.asymm) h h' ?_
  exact (List.perm_ext_iff_of_nodup (hnodup h) (hnodup h')).mpr hmem

/-- What is collected depends on which files were found, not on their order. -/
theorem collect_eq_of_mem_iff {found found' : List (Text × Text)}
    (h : (found.map Prod.fst).Nodup) (h' : (found'.map Prod.fst).Nodup)
    (hmem : ∀ e, e ∈ found ↔ e ∈ found') : collect found = collect found' := by
  refine eq_of_pairwise_of_mem_iff (pairwise_collect h) (pairwise_collect h') fun e => ?_
  rw [mem_collect, mem_collect, hmem e]

/-- The paths of GraphQL files are those whose last name has one of the endings. -/
theorem isGraphqlPath_iff (path : Text) :
    isGraphqlPath path ↔ ∃ ending ∈ graphqlEndings, ending <:+ Path.baseName path := by
  have hslash : ∀ ending ∈ graphqlEndings, '/' ∉ ending := by decide
  rw [isGraphqlPath, List.any_eq_true]
  refine exists_congr fun ending => and_congr_right fun hending => ?_
  rw [Text.endsWith, List.isSuffixOf_iff_suffix, Path.suffix_baseName_iff (hslash ending hending)]

/-! ### Files behind a path -/

variable {w w' : Workspace} {path : Text} {t : Tree}

theorem isProper_of_find? (hw : w.root.IsProper) (ht : w.find? path = some t) : t.IsProper := by
  obtain ⟨start, -, hat⟩ := Option.bind_eq_some_iff.mp ht
  exact (hw.at? hat).1

theorem sources_eq_collect (ht : w.find? path = some t) :
    w.sources path = collect (t.filesBelow path) := by
  rw [sources, ht]

theorem sources_of_find?_eq_none (ht : w.find? path = none) : w.sources path = [] := by
  rw [sources, ht]

/-- The source files are the files at any depth whose names have one of the endings. -/
theorem mem_sources_iff (hw : w.root.IsProper) {p content : Text} :
    (p, content) ∈ w.sources path ↔
      ∃ t place, w.find? path = some t ∧ t.fileAt? place = some content ∧
        p = Path.below path place ∧ ∃ ending ∈ graphqlEndings, ending <:+ Path.baseName p := by
  cases ht : w.find? path with
  | none => simp [sources_of_find?_eq_none ht]
  | some t =>
    rw [sources_eq_collect ht, mem_collect, Tree.mem_filesBelow (isProper_of_find? hw ht),
      isGraphqlPath_iff]
    constructor
    · rintro ⟨⟨place, hfile, hp⟩, hending⟩
      exact ⟨t, place, rfl, hfile, hp, hending⟩
    · rintro ⟨t, place, ⟨⟩, hfile, hp, hending⟩
      exact ⟨⟨place, hfile, hp⟩, hending⟩

/-- Each source file comes once, and their paths increase. -/
theorem pairwise_sources (hw : w.root.IsProper) (path : Text) :
    ((w.sources path).map Prod.fst).Pairwise Text.Precedes := by
  rw [List.pairwise_map]
  cases ht : w.find? path with
  | none => simp [sources_of_find?_eq_none ht]
  | some t =>
    rw [sources_eq_collect ht]
    exact pairwise_collect (Tree.nodup_filesBelow (isProper_of_find? hw ht) path)

/-- The source files are collected from whatever a walk reports. -/
theorem collect_of_reports (hw : w.root.IsProper) (ht : w.find? path = some t)
    {found : List (Text × Text)} (hfound : t.Reports path found) :
    collect found = w.sources path := by
  have hperm := hfound.perm
  have hnodup := Tree.nodup_filesBelow (isProper_of_find? hw ht) path
  rw [sources_eq_collect ht]
  exact collect_eq_of_mem_iff ((hperm.map Prod.fst).nodup_iff.mpr hnodup) hnodup
    fun e => hperm.mem_iff

/-! ### The same files at every listing -/

/-- A step along a path asks for nothing but what stands in a place. -/
theorem enter?_eq_of_samePlaces (h : w.root.SamePlaces w'.root) : w.enter? = w'.enter? := by
  funext place part
  rw [enter?, enter?]
  obtain ⟨hu, hu'⟩ | ⟨u, u', hu, hu', hsame⟩ := h.at? place
  · rw [hu, hu']
  · rw [hu, hu']
    cases u with
    | file content =>
      cases u' with
      | file content' => rfl
      | directory entries' => cases hsame []
    | directory entries =>
      cases u' with
      | file content' => cases hsame []
      | directory entries' => simp only [hsame.isSome_lookup part]

theorem sources_eq_of_samePlaces (hw : w.root.IsProper) (hw' : w'.root.IsProper)
    (h : w.root.SamePlaces w'.root) (hhere : w.here = w'.here) (path : Text) :
    w.sources path = w'.sources path := by
  have hlocate : w.locate? path = w'.locate? path := by
    rw [locate?, locate?, enter?_eq_of_samePlaces h, hhere]
  rw [sources, sources, find?, find?, hlocate]
  cases hstart : w'.locate? path with
  | none => rfl
  | some start =>
    rw [Option.bind_some, Option.bind_some]
    obtain ⟨hu, hu'⟩ | ⟨u, u', hu, hu', hsame⟩ := h.at? start
    · rw [hu, hu']
    · rw [hu, hu']
      have hproper := (hw.at? hu).1
      have hproper' := (hw'.at? hu').1
      refine collect_eq_of_mem_iff (Tree.nodup_filesBelow hproper path)
        (Tree.nodup_filesBelow hproper' path) fun e => ?_
      obtain ⟨p, content⟩ := e
      simp only [Tree.mem_filesBelow hproper, Tree.mem_filesBelow hproper', hsame.fileAt?]

/-! ### Reading files in order -/

/-- The documents are what the files hold, one after another. -/
def Hold (files : List (Text × Text)) (documents : List Document) : Prop :=
  List.Forall₂ (fun file d => Document.parse (Text.normalizeLineBreaks file.2) = .ok d)
    files documents

/-- The error tells of the first file that is not a document. -/
def FirstFault (files : List (Text × Text)) (e : SourceError) : Prop :=
  ∃ earlier file later documents error, files = earlier ++ file :: later ∧ Hold earlier documents ∧
    Document.parse (Text.normalizeLineBreaks file.2) = .error error ∧
    e = .invalidSyntax (Path.baseName file.1) error

theorem documents_eq_mapM (w : Workspace) (path : Text) :
    w.documents path = (w.sources path).mapM fun file => parseSource file.1 file.2 := rfl

theorem parseSource_of_ok {path content : Text} {d : Document}
    (h : Document.parse (Text.normalizeLineBreaks content) = .ok d) :
    parseSource path content = .ok d := by
  rw [parseSource, h]

theorem parseSource_of_error {path content : Text} {error : LocatedError}
    (h : Document.parse (Text.normalizeLineBreaks content) = .error error) :
    parseSource path content = .error (.invalidSyntax (Path.baseName path) error) := by
  rw [parseSource, h]

/-- Reading goes on as long as the files hold documents. -/
theorem mapM_parseSource_append {earlier later : List (Text × Text)} {documents : List Document}
    (h : Hold earlier documents) :
    ((earlier ++ later).mapM fun file => parseSource file.1 file.2) =
      (later.mapM fun file => parseSource file.1 file.2).map (documents ++ ·) := by
  induction h with
  | nil =>
    rw [List.nil_append]
    cases later.mapM fun file => parseSource file.1 file.2 <;> rfl
  | cons hfile hrest ih =>
    rw [List.cons_append, List.mapM_cons, parseSource_of_ok hfile, ih]
    cases later.mapM fun file => parseSource file.1 file.2 <;> rfl

/-- Files hold documents, or a first one does not. -/
theorem exists_hold_or_firstFault (files : List (Text × Text)) :
    (∃ documents, Hold files documents) ∨ ∃ e, FirstFault files e := by
  induction files with
  | nil => exact .inl ⟨[], .nil⟩
  | cons file rest ih =>
    cases hfile : Document.parse (Text.normalizeLineBreaks file.2) with
    | error error => exact .inr ⟨_, [], file, rest, [], error, rfl, .nil, hfile, rfl⟩
    | ok d =>
      rcases ih with ⟨ds, hds⟩ | ⟨e, earlier, fault, later, ds, error, rfl, hds, hfault, rfl⟩
      · exact .inl ⟨d :: ds, .cons hfile hds⟩
      · exact .inr ⟨_, file :: earlier, fault, later, d :: ds, error, rfl, .cons hfile hds, hfault,
          rfl⟩

theorem documents_of_hold {documents : List Document} (h : Hold (w.sources path) documents) :
    w.documents path = .ok documents := by
  rw [documents_eq_mapM, ← List.append_nil (w.sources path), mapM_parseSource_append h]
  exact congrArg Except.ok (List.append_nil documents)

theorem documents_of_firstFault {e : SourceError} (h : FirstFault (w.sources path) e) :
    w.documents path = .error e := by
  obtain ⟨earlier, file, later, ds, error, hfiles, hds, hfile, rfl⟩ := h
  rw [documents_eq_mapM, hfiles, mapM_parseSource_append hds, List.mapM_cons,
    parseSource_of_error hfile]
  rfl

theorem documents_eq_ok_iff {documents : List Document} :
    w.documents path = .ok documents ↔ Hold (w.sources path) documents := by
  refine ⟨fun h => ?_, documents_of_hold⟩
  rcases exists_hold_or_firstFault (w.sources path) with ⟨ds, hds⟩ | ⟨e, he⟩
  · cases h.symm.trans (documents_of_hold hds)
    exact hds
  · cases h.symm.trans (documents_of_firstFault he)

theorem documents_eq_error_iff {e : SourceError} :
    w.documents path = .error e ↔ FirstFault (w.sources path) e := by
  refine ⟨fun h => ?_, documents_of_firstFault⟩
  rcases exists_hold_or_firstFault (w.sources path) with ⟨ds, hds⟩ | ⟨e', he⟩
  · cases h.symm.trans (documents_of_hold hds)
  · cases h.symm.trans (documents_of_firstFault he)
    exact he

/-- The schema is the one of all definitions, in the order of the files. -/
theorem schema_eq_ok_iff {s : Schema} :
    w.schema path = .ok s ↔ w.sources path ≠ [] ∧ ∃ documents, Hold (w.sources path) documents ∧
      Schema.ofDocument (Document.concat documents) = .ok s := by
  simp only [← documents_eq_ok_iff]
  rw [schema]
  by_cases hfiles : w.sources path = []
  · rw [hfiles]
    exact iff_of_false nofun fun h => h.1 rfl
  · rw [if_neg (by simpa using hfiles), and_iff_right hfiles]
    cases w.documents path with
    | error e => exact iff_of_false nofun nofun
    | ok ds =>
      simp only [Outcome.ok_bind, Except.ok.injEq, exists_eq_left']
      cases Schema.ofDocument (Document.concat ds) with
      | error error => exact iff_of_false nofun nofun
      | ok s' => simp

/-- **The source files do not depend on how directories are listed.** The files behind a path are
those in the places below it whose names have one of the endings, under their paths, which are in
strictly increasing order. Whatever a walk through the tree reports, the same list is collected from
it. The documents are read from the files in this order, up to the first file that is not one, and
the schema is the one that the documents define together. Neither does it make a difference to the
files, the documents and the schema how the directories of the whole tree are listed. -/
theorem sources_of_any_listing (w : Workspace) (hw : w.root.IsProper) (path : Text) :
    (∀ p content, (p, content) ∈ w.sources path ↔
      ∃ t place, w.find? path = some t ∧ t.fileAt? place = some content ∧
        p = Path.below path place ∧ ∃ ending ∈ graphqlEndings, ending <:+ Path.baseName p) ∧
    ((w.sources path).map Prod.fst).Pairwise Text.Precedes ∧
    (∀ t, w.find? path = some t →
      (∃ found, t.Reports path found) ∧
      ∀ found, t.Reports path found → collect found = w.sources path) ∧
    (∀ documents, w.documents path = .ok documents ↔ Hold (w.sources path) documents) ∧
    (∀ e, w.documents path = .error e ↔ FirstFault (w.sources path) e) ∧
    (∀ s, w.schema path = .ok s ↔ w.sources path ≠ [] ∧
      ∃ documents, Hold (w.sources path) documents ∧
        Schema.ofDocument (Document.concat documents) = .ok s) ∧
    ∀ w' : Workspace, w'.root.IsProper → w.root.SamePlaces w'.root → w.here = w'.here →
      w.sources path = w'.sources path ∧ w.documents path = w'.documents path ∧
      w.schema path = w'.schema path := by
  refine ⟨fun p content => mem_sources_iff hw, pairwise_sources hw path,
    fun t ht => ⟨t.exists_reports path, fun found => collect_of_reports hw ht⟩,
    fun documents => documents_eq_ok_iff, fun e => documents_eq_error_iff,
    fun s => schema_eq_ok_iff, ?_⟩
  intro w' hw' hsame hhere
  have hsources := sources_eq_of_samePlaces hw hw' hsame hhere path
  have hdocuments : w.documents path = w'.documents path := by
    rw [documents, documents, hsources]
  have hschema : w.schema path = w'.schema path := by
    rw [schema, schema, hdocuments, hsources]
  exact ⟨hsources, hdocuments, hschema⟩

end Workspace

namespace ListingSample

/-- A file with an ending of its own beside a GraphQL file. -/
def inner : List (Text × Tree) :=
  [("z.gql", .file "scalar Z"), ("notes.txt", .file "text")]

/-- A directory beside files whose names begin as its own does. -/
def entries : List (Text × Tree) :=
  [("b.graphql", .file "scalar B"), ("a", .directory inner), ("a.gql", .file "scalar A"),
    ("a-b.graphqls", .file "scalar AB")]

/-- The files as a walk may report them. -/
def found : List (Text × Text) :=
  [("./b.graphql", "scalar B"), ("./a.gql", "scalar A"), ("./a-b.graphqls", "scalar AB"),
    ("./a/z.gql", "scalar Z"), ("./a/notes.txt", "text")]

/-- The files as a walk reports them when every directory is listed the other way round. -/
def foundBackwards : List (Text × Text) :=
  [("./a-b.graphqls", "scalar AB"), ("./a.gql", "scalar A"), ("./b.graphql", "scalar B"),
    ("./a/notes.txt", "text"), ("./a/z.gql", "scalar Z")]

/-- The GraphQL files in the order of their paths. -/
def sorted : List (Text × Text) :=
  [("./a-b.graphqls", "scalar AB"), ("./a.gql", "scalar A"), ("./a/z.gql", "scalar Z"),
    ("./b.graphql", "scalar B")]

/-- The directory as it is listed, and with its entries the other way round. -/
def workspace (backwards : Bool) : Workspace where
  root := .directory (if backwards then entries.reverse else entries)

theorem isProper_entries : (Tree.directory entries).IsProper := by
  have hinner : (Tree.directory inner).IsProper :=
    .directory (by decide) (by decide) (by simp [inner, Tree.IsProper.file])
  exact .directory (by decide) (by decide) (by simp [entries, Tree.IsProper.file, hinner])

theorem collect_found : Workspace.collect found = sorted := by
  have hperm : found.Perm (("./a/notes.txt".toList, "text".toList) :: sorted) := by decide
  have hfilter : (("./a/notes.txt".toList, "text".toList) :: sorted).filter
      (Workspace.isGraphqlPath ·.1) = sorted := by decide
  rw [Workspace.collect_eq_of_mem_iff (by decide) (by decide) fun e => hperm.mem_iff,
    Workspace.collect, hfilter]
  exact List.mergeSort_of_pairwise (by decide)

theorem listings_agree :
    (workspace false).root.IsProper ∧ (workspace false).root.SamePlaces (workspace true).root ∧
    (workspace false).root.Reports "." found ∧ (workspace false).root.Reports "." foundBackwards ∧
    Workspace.collect found = sorted ∧ Workspace.collect foundBackwards = sorted ∧
    (workspace false).schema "." = (workspace true).schema "." := by
  obtain ⟨hproper, hsame⟩ := isProper_entries.relisted entries.reverse_perm.symm
  obtain ⟨-, -, hwalks, -, -, -, hlistings⟩ :=
    Workspace.sources_of_any_listing (workspace false) isProper_entries "."
  obtain ⟨-, hcollect⟩ := hwalks _ rfl
  have hfound : (workspace false).root.Reports "." found :=
    .enter (.refl entries) (.enter (.refl inner) .done)
  have hbackwards : (workspace false).root.Reports "." foundBackwards :=
    .enter entries.reverse_perm (.enter inner.reverse_perm .done)
  have hcollected : Workspace.collect foundBackwards = Workspace.collect found :=
    (hcollect _ hbackwards).trans (hcollect _ hfound).symm
  exact ⟨isProper_entries, hsame, hfound, hbackwards, collect_found,
    hcollected.trans collect_found, (hlistings (workspace true) hproper hsame rfl).2.2⟩

end ListingSample

end SharpClient

import SharpClient.CommandLine.Run
import SharpClient.Proofs.Files.Sources

/-!
# What code is generated from

A request names paths, and the workspace has files behind them. What a run makes of the request is
said here without the run: which files are read (`Workspace.Reads`, `Workspace.HasSources`), what is
read from them, and what is generated from that (`Workspace.Supplies`, `Workspace.Delivers`). The
steps of a run read the same (`Workspace.supplies_iff`).
-/

namespace SharpClient

/-! ### Files that are read -/

namespace Workspace

/-- The file behind a path holds the text, apart from its line breaks. -/
def Reads (w : Workspace) (path text : Text) : Prop :=
  ∃ content, w.find? path = some (.file content) ∧ text = Text.normalizeLineBreaks content

/-- The files are the GraphQL files below a path, each once, in the order of their paths. -/
structure HasSources (w : Workspace) (path : Text) (files : List (Text × Text)) : Prop where
  mem_iff : ∀ p content, (p, content) ∈ files ↔
    ∃ t place, w.find? path = some t ∧ t.fileAt? place = some content ∧
      p = Path.below path place ∧ ∃ ending ∈ graphqlEndings, ending <:+ Path.baseName p
  sorted : (files.map Prod.fst).Pairwise Text.Precedes

/-- The settings that a run starts from: those of the configuration file, or none. -/
inductive HasSettings (w : Workspace) : Option Text → Settings → Prop
  | none : HasSettings w none {}
  | file {path text : Text} {settings : Settings} (hfile : w.Reads path text)
      (hsettings : Settings.ofText text = .ok settings) : HasSettings w (some path) settings

/-- The template of a name: the one in the directory of the user, rendered by the engine with the
files of that directory at hand, or the library's own where there is none. -/
inductive HasTemplate (engine : TemplateEngine) (w : Workspace) (name : Text) (own : Template) :
    Option Text → Template → Prop
  | noDirectory : HasTemplate engine w name own none own
  | missing {directory : Text} (hfile : ∀ text, ¬ w.Reads (Path.child directory name) text) :
      HasTemplate engine w name own (some directory) own
  | found {directory text : Text} {load : Text → Option Text}
      (hfile : w.Reads (Path.child directory name) text)
      (hload : ∀ n text, load n = some text ↔ w.Reads (Path.child directory n) text) :
      HasTemplate engine w name own (some directory) ⟨engine.render load name⟩

/-- The code of a request is generated from the schema and the documents in the files behind its
paths, with the configuration that its options override and the templates of its directory. -/
structure Supplies (engine : TemplateEngine) (w : Workspace) (r : Request) (g : Generator) :
    Prop where
  schema : ∃ files documents, w.HasSources r.schema files ∧ files ≠ [] ∧ Hold files documents ∧
    Schema.ofDocument (Document.concat documents) = .ok g.schema
  documents : ∃ files, w.HasSources r.documents files ∧ Hold files g.documents
  config : ∃ given overridden, w.HasSettings r.config given ∧
    given.override r.overrides = .ok overridden ∧ g.config = overridden.config
  file : HasTemplate engine w Templates.fileName .file r.templateDir g.templates.file
  httpRequest : HasTemplate engine w Templates.httpRequestName (.fixed httpRequestClass)
    r.templateDir g.templates.httpRequest
  responseExtensions : HasTemplate engine w Templates.responseExtensionsName
    (.fixed SharpClient.responseExtensions) r.templateDir g.templates.responseExtensions
  externalFragments : g.externalFragments = []

/-- The code for a request, to be written under a name that may hold code. -/
structure Delivers (engine : TemplateEngine) (w : Workspace) (r : Request) (code : RawText) :
    Prop where
  output : Path.extension (w.resolve r.output) = ".cs".toList
  generated : ∃ g, Supplies engine w r g ∧ g.code = .ok (.ok code)

/-- The place that a request names for its file. -/
def target (w : Workspace) (r : Request) : List Text :=
  Path.resolve w.here r.output

/-! ### The readers of a run -/

variable {engine : TemplateEngine} {w : Workspace} {path name text : Text} {own template : Template}

theorem fileText?_eq_some_iff : w.fileText? path = some text ↔ w.Reads path text := by
  rw [fileText?, Reads]
  split
  case h_1 content hfile => simp [hfile, eq_comm]
  case h_2 hfile =>
    refine iff_of_false nofun ?_
    rintro ⟨content, hfind, -⟩
    exact hfile content hfind

theorem hasSources_sources (hw : w.root.IsProper) : w.HasSources path (w.sources path) where
  mem_iff _ _ := mem_sources_iff hw
  sorted := pairwise_sources hw path

theorem HasSources.eq_sources (hw : w.root.IsProper) {files : List (Text × Text)}
    (h : w.HasSources path files) : files = w.sources path := by
  refine eq_of_pairwise_of_mem_iff (List.pairwise_map.mp h.sorted)
    (List.pairwise_map.mp (pairwise_sources hw path)) fun e => ?_
  rw [h.mem_iff e.1 e.2, ← mem_sources_iff hw]

theorem hasTemplate_iff {directory : Option Text} :
    HasTemplate engine w name own directory template ↔
      template = directory.elim own fun d =>
        Templates.choose engine (fun n => w.fileText? (Path.child d n)) name own := by
  cases directory with
  | none =>
    constructor
    · rintro ⟨⟩
      rfl
    · rintro rfl
      exact .noDirectory
  | some d =>
    rw [Option.elim_some, Templates.choose]
    cases hfile : w.fileText? (Path.child d name) with
    | none =>
      have hnone : ∀ text, ¬ w.Reads (Path.child d name) text := by
        intro text htext
        cases hfile.symm.trans (fileText?_eq_some_iff.mpr htext)
      constructor
      · intro h
        cases h with
        | missing => rfl
        | found hfile => exact absurd hfile (hnone _)
      · rintro rfl
        exact .missing hnone
    | some text =>
      have htext := fileText?_eq_some_iff.mp hfile
      constructor
      · intro h
        cases h with
        | missing hnone => exact absurd htext (hnone text)
        | @found _ _ load hfile hload =>
          have hsame : load = fun n => w.fileText? (Path.child d n) := by
            funext n
            refine Option.ext fun t => ?_
            rw [hload, fileText?_eq_some_iff]
          rw [hsame]
          rfl
      · rintro rfl
        exact .found htext fun n t => fileText?_eq_some_iff

theorem templates_eq_iff {templates : Templates} {directory : Option Text} :
    templates = Run.templates engine w directory ↔
      HasTemplate engine w Templates.fileName .file directory templates.file ∧
      HasTemplate engine w Templates.httpRequestName (.fixed httpRequestClass) directory
        templates.httpRequest ∧
      HasTemplate engine w Templates.responseExtensionsName (.fixed SharpClient.responseExtensions)
        directory templates.responseExtensions := by
  obtain ⟨file, httpRequest, responseExtensions⟩ := templates
  simp only [hasTemplate_iff]
  cases directory with
  | none => exact .of_eq (Templates.mk.injEq ..)
  | some d => exact .of_eq (Templates.mk.injEq ..)

/-- What a run reads is what the workspace supplies. -/
theorem supplies_iff (hw : w.root.IsProper) {r : Request} {g : Generator} :
    Supplies engine w r g ↔
      w.schema r.schema = .ok g.schema ∧ w.documents r.documents = .ok g.documents ∧
      (∃ given overridden, w.HasSettings r.config given ∧
        given.override r.overrides = .ok overridden ∧ g.config = overridden.config) ∧
      g.templates = Run.templates engine w r.templateDir ∧ g.externalFragments = [] := by
  rw [schema_eq_ok_iff, documents_eq_ok_iff, templates_eq_iff]
  constructor
  · rintro ⟨⟨files, ds, hfiles, hne, hds, hschema⟩, ⟨files', hfiles', hdocuments⟩, hconfig, hfile,
      hhttp, hresponse, hexternal⟩
    cases hfiles.eq_sources hw
    cases hfiles'.eq_sources hw
    exact ⟨⟨hne, ds, hds, hschema⟩, hdocuments, hconfig, ⟨hfile, hhttp, hresponse⟩, hexternal⟩
  · rintro ⟨⟨hne, ds, hds, hschema⟩, hdocuments, hconfig, ⟨hfile, hhttp, hresponse⟩, hexternal⟩
    exact ⟨⟨_, ds, hasSources_sources hw, hne, hds, hschema⟩,
      ⟨_, hasSources_sources hw, hdocuments⟩, hconfig, hfile, hhttp, hresponse, hexternal⟩

end Workspace

end SharpClient

import SharpClient.CommandLine.Arguments
import SharpClient.Files.Sources
import SharpClient.Generator.Notes
import SharpClient.Text.ControlSequence

/-!
# Running the command

A run reads files from a tree and, when all goes well, writes one file into it. What it prints is
part of its outcome: lines for the reader are printed without control sequences, notes as they are.
The files are part of what a run changes as it goes, so that they are left as they are when it ends
early.
-/

namespace SharpClient

/-! ### Transcripts -/

/-- What a run has printed. -/
structure Transcript where
  /-- What has been printed on the standard output. -/
  out : Text := []
  /-- What has been printed on the error output. -/
  err : Text := []
  deriving DecidableEq, Repr

namespace Transcript

/-- A line as it is printed for the reader. -/
def shown (line : Text) : Text :=
  Text.withoutSequences line ++ "\n"

/-- What has been printed, with line feeds alone for line breaks. -/
def withLineFeeds (t : Transcript) : Transcript :=
  ⟨Text.dropReturns t.out, Text.dropReturns t.err⟩

end Transcript

/-- A fault that a run does not handle. -/
inductive Crash
  /-- The schema violates rules. -/
  | invalidSchema
  /-- A path holds the null character. -/
  | impossiblePath
  /-- There is a directory in place of a file. -/
  | isDirectory
  /-- There is a file in place of a directory. -/
  | fileExists
  /-- There is a file on the way to a directory. -/
  | notDirectory
  /-- A name in a path is too long. -/
  | nameTooLong
  /-- A template cannot be rendered. -/
  | template (fault : TemplateFault)
  /-- A string that is no text is written to a file. -/
  | unencodable
  deriving DecidableEq, Repr

/-- The fault of a run that cannot write its file. -/
def Crash.ofWriteFault : WriteFault → Crash
  | .isDirectory => isDirectory
  | .parentIsFile => fileExists
  | .notDirectory => notDirectory
  | .nameTooLong => nameTooLong

/-- Why a run ends early. -/
inductive Stop
  /-- A failure, which has been told. -/
  | failure
  /-- A fault that is not handled. -/
  | crash (c : Crash)
  deriving DecidableEq, Repr

/-- What a run changes as it goes. -/
structure Session where
  /-- What it has printed. -/
  transcript : Transcript := {}
  /-- The files as they are. -/
  files : Tree

/-- A run: it prints and writes, and may end early. -/
abbrev Run := EStateM Stop Session

namespace Run

/-- Adds to what has been printed. -/
def print (f : Transcript → Transcript) : Run Unit :=
  modify fun s => { s with transcript := f s.transcript }

/-- Prints a line for the reader. -/
def say (line : Text) : Run Unit :=
  print fun t => { t with out := t.out ++ Transcript.shown line }

/-- Tells of a failure and ends the run. -/
def fail {α : Type} (message : Text) : Run α := do
  print fun t => { t with err := t.err ++ Transcript.shown ("Error: " ++ message) }
  throw .failure

/-- The value, or a failure with the message of the error. -/
def orFail {ε α : Type} (message : ε → Text) : Except ε α → Run α
  | .ok a => pure a
  | .error e => fail (message e)

/-- Prints a line on the error output as it is. -/
def log (line : Text) : Run Unit :=
  print fun t => { t with err := t.err ++ line ++ "\n" }

/-- Passes a note on. Without being asked to, a run tells only of files that it cannot read. -/
def note (verbose : Bool) (n : Note) : Run Unit :=
  if verbose then log n.line
  else
    match n with
    | .unreadable .. => log n.message
    | _ => pure ()

/-! ### Steps -/

/-- The settings in the file behind a path, if there is a path. -/
def settings (w : Workspace) : Option Text → Run Settings
  | none => pure {}
  | some path =>
    match w.fileText? path with
    | some text => orFail ConfigIssue.summary (Settings.ofText text)
    | none => throw (.crash .isDirectory)

/-- The value, or the end of the run for a fault of the sources, after `read` files. -/
def orFailSource {α : Type} (verbose : Bool) (read : Note) : Except SourceError α → Run α
  | .ok a => do
    note verbose read
    return a
  | .error (.noSchemaFiles path) => fail (SourceError.report (.noSchemaFiles path))
  | .error (.invalidSyntax file e) => do
    note verbose (.unreadable file e.report)
    fail e.report
  | .error (.invalidSchema (.invalid _)) => do
    note verbose read
    throw (.crash .invalidSchema)
  | .error (.invalidSchema e) => do
    note verbose read
    fail e.report

/-- The templates of a directory, if there is one, and those of the library. -/
def templates (engine : TemplateEngine) (w : Workspace) : Option Text → Templates
  | none => {}
  | some directory => .ofDirectory engine fun name => w.fileText? (Path.child directory name)

/-- The string that a template gives, or the end of the run for its fault. -/
def orCrash : Rendering → Run RawText
  | .ok code => pure code
  | .error fault => throw (.crash (.template fault))

/-- Writes a file in a place. The file is opened, and so emptied, before its content is encoded: a
string that is no text leaves an empty file behind. -/
def write (place : List Text) (code : RawText) : Run Unit := do
  let (files, fault) := (← get).files.write (code.text?.getD []) place
  modify fun s => { s with files }
  match fault with
  | some fault => throw (.crash (.ofWriteFault fault))
  | none => if code.text?.isSome then pure () else throw (.crash .unencodable)

/-- Prints lines for a reader who asks for details. -/
def detail (verbose : Bool) (lines : List Text) : Run Unit :=
  if verbose then lines.forM say else pure ()

/-- A line that tells the number of something. -/
def countLine (label : Text) (n : Nat) : Text :=
  "  " ++ label ++ ": " ++ Text.decimal n

/-- Reads what code is generated from. -/
def prepare (engine : TemplateEngine) (w : Workspace) (r : Request) : Run Generator := do
  orFail GenerationError.message (Generator.checkOutput (w.resolve r.output))
  let given ← settings w r.config
  let overridden ← orFail ConfigIssue.summary (given.override r.overrides)
  detail r.verbose
    ["Schema: " ++ w.resolve r.schema, "Documents: " ++ w.resolve r.documents,
      "Output: " ++ w.resolve r.output]
  say "Parsing schema and documents..."
  let schema ← orFailSource r.verbose (.schemaFiles (w.sources r.schema).length) (w.schema r.schema)
  let documents ←
    orFailSource r.verbose (.documentFiles (w.sources r.documents).length) (w.documents r.documents)
  return {
    schema
    documents
    config := overridden.config
    templates := templates engine w r.templateDir }

/-- Tells what the code is generated from. -/
def announce (verbose : Bool) (g : Generator) : Run Unit := do
  detail verbose
    [countLine "Operations" g.operations.length, countLine "Fragments" g.fragments.length,
      countLine "Inputs" g.schema.inputTypes.length, countLine "Enums" g.schema.enumTypes.length]
  say ("Generating code (class: " ++ g.config.operationsClassName ++ ")...")
  if verbose then g.notes.forM (note verbose) else pure ()

/-- Generates the code. -/
def produce (engine : TemplateEngine) (w : Workspace) (r : Request) : Run RawText := do
  let g ← prepare engine w r
  announce r.verbose g
  orCrash (← orFail GenerationError.message g.code)

/-- Tells that the code has been written. -/
def conclude (verbose : Bool) (output : Text) (code : RawText) : Run Unit := do
  note verbose (.wrote output)
  detail verbose [countLine "Lines" (RawText.breakLines code).length]
  say ("Done! Generated code in " ++ output)

/-- Generates a file. -/
def generate (engine : TemplateEngine) (w : Workspace) (r : Request) : Run Unit := do
  let code ← produce engine w r
  write (Path.resolve w.here r.output) code
  conclude r.verbose (w.resolve r.output) code

end Run

/-! ### Outcomes -/

/-- What a run leaves behind. -/
structure Outcome where
  /-- The exit code. -/
  exitCode : Nat
  /-- What it printed. -/
  transcript : Transcript
  /-- The files after it. -/
  files : Tree
  /-- The fault that ended it, if it was one that is not handled. -/
  crash : Option Crash := none

namespace Outcome

/-- How the program is used. -/
def programUsage : Text :=
  "Usage: main [OPTIONS] COMMAND [ARGS]...\n"

/-- How the command is used. -/
def commandUsage : Text :=
  "Usage: main generate [OPTIONS]\n"

/-- Where to find help on the program. -/
def programHelp : Text :=
  "Try 'main --help' for help.\n\n"

/-- Where to find help on the command. -/
def commandHelp : Text :=
  "Try 'main generate --help' for help.\n\n"

/-- The outcome of a misuse, after `usage` where it is shown. A path that cannot be one is not
handled. -/
def ofMisuse (files : Tree) (usage : Text) : Misuse → Outcome
  | .impossiblePath .. => { exitCode := 1, transcript := {}, files, crash := some .impossiblePath }
  | m =>
    { exitCode := 2
      transcript :=
        { err := (if m.showsUsage then usage else []) ++ Transcript.shown ("Error: " ++ m.message) }
      files }

/-- The outcome of a run on a tree. -/
def ofRun (files : Tree) (r : Run Unit) : Outcome :=
  match r { files } with
  | .ok _ s => { exitCode := 0, transcript := s.transcript, files := s.files }
  | .error .failure s => { exitCode := 1, transcript := s.transcript, files := s.files }
  | .error (.crash c) s =>
    { exitCode := 1, transcript := s.transcript, files := s.files, crash := some c }

end Outcome

namespace Workspace

/-- Runs the command that generates a file. -/
def runGenerate (engine : TemplateEngine) (w : Workspace) (arguments : List Text) : Outcome :=
  let usage := Outcome.commandUsage ++ Outcome.commandHelp
  match readArguments arguments with
  | .error m => .ofMisuse w.root usage m
  | .ok (given, extra) =>
    if asksForHelp given then
      { exitCode := 0, transcript := { out := Outcome.commandUsage }, files := w.root }
    else
      match Request.ofGiven w given extra with
      | .error m => .ofMisuse w.root usage m
      | .ok r => .ofRun w.root (Run.generate engine w r)

/-- The version of the program. -/
def version : Text := "main, version 0.1.0\n"

/-- Runs a command line, before its line breaks are settled. -/
def runCommand (engine : TemplateEngine) (w : Workspace) (arguments : List Text) : Outcome :=
  match Command.ofArguments arguments with
  | .error m => .ofMisuse w.root (Outcome.programUsage ++ Outcome.programHelp) m
  | .ok .usage =>
    { exitCode := if arguments.isEmpty then 2 else 0
      transcript :=
        if arguments.isEmpty then { err := Outcome.programUsage }
        else { out := Outcome.programUsage }
      files := w.root }
  | .ok .version => { exitCode := 0, transcript := { out := version }, files := w.root }
  | .ok (.generate arguments) => w.runGenerate engine arguments

/-- Runs a command line, with an engine for the templates of the user. -/
def run (engine : TemplateEngine) (w : Workspace) (arguments : List Text) : Outcome :=
  let outcome := w.runCommand engine arguments
  { outcome with transcript := outcome.transcript.withLineFeeds }

end Workspace

end SharpClient

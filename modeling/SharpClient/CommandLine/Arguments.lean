import SharpClient.Config.Validation
import SharpClient.Files.Tree
import SharpClient.Text.Printable
import SharpClient.Text.Similarity

/-!
# Arguments

How the arguments of the command line are read. They are texts, as the names of files are: words of
bytes that stand for no text are not covered. The words are read from left to right: `--name value`,
`--name=value`, `-nvalue`, and one-letter switches together, as in `-vn`. Of several values for one
option the last one counts. Then the values are checked, those given first and in the order in which
their options are first given, and then what is missing.
-/

namespace SharpClient

/-! ### Options -/

/-- The options of the command. -/
inductive CommandOption
  | schema
  | documents
  | output
  | config
  | namespaceName
  | className
  | typesafe
  | templateDir
  | verbose
  | help
  deriving DecidableEq, Repr

namespace CommandOption

/-- The options in the order in which they are declared. -/
def all : List CommandOption :=
  [schema, documents, output, config, namespaceName, className, typesafe, templateDir, verbose,
    help]

/-- How messages name an option. -/
def hint : CommandOption → Text
  | schema => "'--schema' / '-s'"
  | documents => "'--documents' / '-d'"
  | output => "'--output' / '-o'"
  | config => "'--config' / '-c'"
  | namespaceName => "'--namespace'"
  | className => "'--class-name' / '-n'"
  | typesafe => "'--typesafe' / '--no-typesafe'"
  | templateDir => "'--template-dir'"
  | verbose => "'--verbose' / '-v'"
  | help => "'--help'"

end CommandOption

/-- The meaning of a word that names an option. -/
inductive OptionWord
  /-- The option takes a value. -/
  | valued (option : CommandOption)
  /-- The option is switched on or off. -/
  | switch (option : CommandOption) (on : Bool)
  deriving DecidableEq, Repr

namespace OptionWord

/-- The long names. -/
def long : List (Text × OptionWord) :=
  [("--schema", valued .schema), ("--documents", valued .documents), ("--output", valued .output),
    ("--config", valued .config), ("--namespace", valued .namespaceName),
    ("--class-name", valued .className), ("--typesafe", switch .typesafe true),
    ("--no-typesafe", switch .typesafe false), ("--template-dir", valued .templateDir),
    ("--verbose", switch .verbose true), ("--help", switch .help true)]

/-- The one-letter names. -/
def short : List (Char × OptionWord) :=
  [('s', valued .schema), ('d', valued .documents), ('o', valued .output), ('c', valued .config),
    ('n', valued .className), ('v', switch .verbose true)]

end OptionWord

/-- What is given for an option at one place of the command line. -/
inductive Given
  | value (option : CommandOption) (text : Text)
  | switch (option : CommandOption) (on : Bool)
  deriving DecidableEq, Repr

/-- The option of a given value. -/
def Given.option : Given → CommandOption
  | value option _ | switch option _ => option

/-! ### Misuse -/

/-- Why arguments cannot be used. -/
inductive Misuse
  /-- There is no option of this name; some known ones are similar. -/
  | noSuchOption (name : Text) (similar : List Text)
  /-- There is no command of this name; some known ones are similar. -/
  | noSuchCommand (name : Text) (similar : List Text)
  | missingCommand
  /-- A switch is given a value. -/
  | takesNoValue (name : Text)
  /-- The value of an option is missing. -/
  | needsArgument (name : Text)
  /-- A required option is missing. -/
  | missingOption (option : CommandOption)
  /-- There is nothing behind the path that is given for an option. -/
  | pathNotFound (option : CommandOption) (path : Text)
  /-- There is no directory behind the path that is given for an option. -/
  | directoryNotFound (option : CommandOption) (path : Text)
  /-- There is a file where an option needs a directory. -/
  | notDirectory (option : CommandOption) (path : Text)
  /-- The path that is given for an option holds the null character, so nothing can be behind it. -/
  | impossiblePath (option : CommandOption) (path : Text)
  /-- There are arguments that belong to no option. -/
  | extraArguments (arguments : List Text)
  deriving DecidableEq, Repr

namespace Misuse

/-- A question after what may have been meant. -/
def suggestion : List Text → Text
  | [] => []
  | [word] => " Did you mean " ++ Text.quoted word ++ "?"
  | words => " (Did you mean one of: " ++ Text.join ", " (words.map Text.quoted) ++ "?)"

/-- The message of a misuse. -/
def message : Misuse → Text
  | noSuchOption name similar =>
    "No such option " ++ Text.quoted name ++ "." ++ suggestion similar
  | noSuchCommand name similar =>
    "No such command " ++ Text.quoted name ++ "." ++ suggestion similar
  | missingCommand => "Missing command."
  | takesNoValue name => "Option " ++ Text.quoted name ++ " does not take a value."
  | needsArgument name => "Option " ++ Text.quoted name ++ " requires an argument."
  | missingOption option => "Missing option " ++ option.hint ++ "."
  | pathNotFound option path =>
    "Invalid value for " ++ option.hint ++ ": Path " ++ Text.quoted path ++ " does not exist."
  | directoryNotFound option path =>
    "Invalid value for " ++ option.hint ++ ": Directory " ++ Text.quoted path ++ " does not exist."
  | notDirectory option path =>
    "Invalid value for " ++ option.hint ++ ": Directory " ++ Text.quoted path ++ " is a file."
  | impossiblePath _ _ => "embedded null byte"
  | extraArguments arguments =>
    (if arguments.length = 1 then "Got unexpected extra argument ("
      else "Got unexpected extra arguments (") ++ Text.join " " arguments ++ ")"

/-- Whether the message is preceded by the usage of the command. -/
def showsUsage : Misuse → Bool
  | takesNoValue _ | needsArgument _ => false
  | _ => true

end Misuse

/-! ### Reading -/

/-- Whether an argument names options. -/
def namesOptions (argument : Text) : Bool :=
  Text.startsWith argument "-" && 1 < argument.length

/-- An argument cut at its first equals sign. -/
def cutAtEquals (argument : Text) : Text × Option Text :=
  let name := argument.takeWhile (· ≠ '=')
  (name, (argument.drop name.length).tail?)

/-- The options that one argument gives, and the one that awaits the next argument as its value,
with the name it is called by. -/
abbrev ReadWord := List Given × Option (Text × CommandOption)

/-- Reads one-letter names. -/
def readCluster : Text → Except Misuse ReadWord
  | [] => .ok ([], none)
  | c :: rest =>
    match OptionWord.short.lookup c with
    | none => .error (.noSuchOption ['-', c] [])
    | some (.valued option) =>
      if rest.isEmpty then .ok ([], some (['-', c], option)) else .ok ([.value option rest], none)
    | some (.switch option on) =>
      (readCluster rest).map fun (given, awaiting) => (.switch option on :: given, awaiting)

/-- Reads an argument that names options. -/
def readOptions (argument : Text) : Except Misuse ReadWord :=
  let (name, explicit) := cutAtEquals argument
  match OptionWord.long.lookup name, explicit with
  | some (.valued option), some text => .ok ([.value option text], none)
  | some (.valued option), none => .ok ([], some (name, option))
  | some (.switch ..), some _ => .error (.takesNoValue name)
  | some (.switch option on), none => .ok ([.switch option on], none)
  | none, _ =>
    if Text.startsWith argument "--" then
      .error (.noSuchOption name (Text.suggestions name (OptionWord.long.map Prod.fst)))
    else readCluster argument.tail

/-- Reads arguments: what is given for options, and the arguments that belong to none. After two
dashes there are no more options. -/
def readArguments : List Text → Except Misuse (List Given × List Text)
  | [] => .ok ([], [])
  | argument :: rest =>
    if argument = "--" then .ok ([], rest)
    else if namesOptions argument then do
      let (given, awaiting) ← readOptions argument
      match awaiting, rest with
      | none, rest =>
        let (more, extra) ← readArguments rest
        return (given ++ more, extra)
      | some (name, _), [] => .error (.needsArgument name)
      | some (_, option), text :: rest =>
        let (more, extra) ← readArguments rest
        return (given ++ [.value option text] ++ more, extra)
    else do
      let (more, extra) ← readArguments rest
      return (more, argument :: extra)

/-! ### Checking -/

namespace Given

/-- The value that counts for an option. -/
def value? (given : List Given) (option : CommandOption) : Option Text :=
  given.reverse.findSome? fun
    | value o text => if o = option then some text else none
    | switch .. => none

/-- The switch that counts for an option. -/
def switch? (given : List Given) (option : CommandOption) : Option Bool :=
  given.reverse.findSome? fun
    | value .. => none
    | switch o on => if o = option then some on else none

/-- The value of an option that must be given. -/
def require (given : List Given) (option : CommandOption) : Except Misuse Text :=
  match value? given option with
  | some text => .ok text
  | none => .error (.missingOption option)

/-- The path of an option, behind which there must be something. -/
def checkPath (w : Workspace) (option : CommandOption) (path : Text) : Except Misuse Unit :=
  if (w.find? path).isSome then .ok () else .error (.pathNotFound option path)

/-- The path of an option, behind which there must be a directory. -/
def checkDirectory (w : Workspace) (option : CommandOption) (path : Text) : Except Misuse Unit :=
  match w.find? path with
  | none => .error (.directoryNotFound option path)
  | some t => if t.isDirectory then .ok () else .error (.notDirectory option path)

/-- Checks that the path of an option can be a path at all. -/
def checkPossible (option : CommandOption) (path : Text) : Except Misuse Unit :=
  if '\x00' ∈ path then .error (.impossiblePath option path) else .ok ()

/-- Whether the value of an option is a path. -/
def isPath : CommandOption → Bool
  | .schema | .documents | .output | .config | .templateDir => true
  | .namespaceName | .className | .typesafe | .verbose | .help => false

/-- Checks what is given for an option. -/
def check (w : Workspace) (given : List Given) (option : CommandOption) : Except Misuse Unit := do
  if isPath option then
    (value? given option).forM (checkPossible option)
  match option with
  | .schema | .documents => do checkPath w option (← require given option)
  | .output => (require given option).map fun _ => ()
  | .config => (value? given option).forM (checkPath w option)
  | .templateDir => (value? given option).forM (checkDirectory w option)
  | .namespaceName | .className | .typesafe | .verbose | .help => .ok ()

/-- The options in the order in which they are checked. -/
def checkOrder (given : List Given) : List CommandOption :=
  let first := (given.map option).eraseDups
  first ++ CommandOption.all.filter (· ∉ first)

end Given

/-- What the command is asked to do. -/
structure Request where
  /-- The path of the schema. -/
  schema : Text
  /-- The path of the documents. -/
  documents : Text
  /-- The path of the file to write. -/
  output : Text
  /-- The path of the configuration, if there is one. -/
  config : Option Text
  /-- The directory of the templates, if there is one. -/
  templateDir : Option Text
  /-- The options that override the configuration. -/
  overrides : Overrides
  /-- Whether to tell about the progress. -/
  verbose : Bool
  deriving DecidableEq, Repr

/-- Whether the arguments ask for help. -/
def asksForHelp (given : List Given) : Bool :=
  (Given.switch? given .help).getD false

namespace Request

/-- The request of given options. -/
def ofGiven (w : Workspace) (given : List Given) (extra : List Text) : Except Misuse Request := do
  (Given.checkOrder given).forM (Given.check w given)
  if !extra.isEmpty then
    .error (.extraArguments extra)
  return {
    schema := ← Given.require given .schema
    documents := ← Given.require given .documents
    output := ← Given.require given .output
    config := Given.value? given .config
    templateDir := Given.value? given .templateDir
    overrides := ⟨Given.value? given .namespaceName, Given.value? given .className,
      Given.switch? given .typesafe⟩
    verbose := (Given.switch? given .verbose).getD false }

end Request

/-! ### Commands -/

/-- What the command line asks for. -/
inductive Command
  /-- How to use the program. -/
  | usage
  /-- Which version the program has. -/
  | version
  /-- To generate, with these arguments. -/
  | generate (arguments : List Text)

namespace Command

/-- The options that may precede a command. -/
def optionNames : List Text :=
  List.map String.toList ["--version", "--help"]

/-- The names of the commands. -/
def names : List Text :=
  List.map String.toList ["generate"]

/-- The command of a name. -/
def ofName? (name : Text) (arguments : List Text) : Option Command :=
  if name = "generate".toList then some (generate arguments) else none

/-- Reads the one option that may precede a command. -/
def ofOption (argument : Text) : Except Misuse Command :=
  let (name, explicit) := cutAtEquals argument
  if name = "--help".toList then
    if explicit.isSome then .error (.takesNoValue name) else .ok usage
  else if name = "--version".toList then
    if explicit.isSome then .error (.takesNoValue name) else .ok version
  else if Text.startsWith argument "--" then
    .error (.noSuchOption name (Text.suggestions name optionNames))
  else .error (.noSuchOption (argument.take 2) [])

/-- Reads a command by its name, also one that looks like an option. -/
def ofNamed : List Text → Except Misuse Command
  | [] => .error .missingCommand
  | name :: rest =>
    match ofName? name rest with
    | some c => .ok c
    | none =>
      if namesOptions name && name ≠ "--" then ofOption name
      else .error (.noSuchCommand name (Text.suggestions name names))

/-- Reads the command line. -/
def ofArguments : List Text → Except Misuse Command
  | [] => .ok usage
  | argument :: rest =>
    if argument = "--" then ofNamed rest
    else if namesOptions argument then ofOption argument
    else ofNamed (argument :: rest)

end Command

end SharpClient

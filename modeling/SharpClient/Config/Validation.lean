import SharpClient.Config.Issue
import SharpClient.Config.Settings

/-!
# Reading settings

Settings are read from a JSON object. Every option is checked, and all issues are found, not only
the first. An option may be given under either of its names; when both are given the one in camel
case counts, and the other one is taken for an option that does not exist.
-/

namespace SharpClient

/-! ### Checks -/

/-- A value, or all that is wrong with it. -/
abbrev Checked (α : Type) := Except (List ConfigIssue) α

namespace Checked

/-- A checked function applied to a checked value; the issues of both are kept. -/
def seq {α β : Type} : Checked (α → β) → Checked α → Checked β
  | .ok f, .ok a => .ok (f a)
  | .ok _, .error issues => .error issues
  | .error issues, .ok _ => .error issues
  | .error issues, .error more => .error (issues ++ more)

/-- The value, if there are no further issues. -/
def reject {α : Type} (a : Checked α) (issues : List ConfigIssue) : Checked α :=
  match a, issues with
  | a, [] => a
  | .ok _, issues => .error issues
  | .error found, issues => .error (found ++ issues)

/-- The values of a list, if nothing is wrong with any. -/
def all {α : Type} : List (Checked α) → Checked (List α)
  | [] => .ok []
  | a :: as => seq (a.map List.cons) (all as)

/-- A single issue. -/
def issue {α : Type} (path : List Text) (kind : IssueKind) : Checked α :=
  .error [⟨path, kind⟩]

end Checked

/-- How a value is read at its place. -/
abbrev Check (α : Type) := List Text → Json → Checked α

namespace Check

/-- A string. -/
def text : Check Text
  | _, .string t => .ok t
  | path, _ => Checked.issue path .notString

/-- A string that is not empty. -/
def nonemptyText : Check Text
  | path, .string t => if t.isEmpty then Checked.issue path .emptyString else .ok t
  | path, _ => Checked.issue path .notString

/-- `null`, or a value of a kind. -/
def nullable {α : Type} (check : Check α) : Check (Option α)
  | _, .null => .ok none
  | path, value => (check path value).map some

/-- One of some words. -/
def oneOf {α : Type} (words : List Text) (ofWord? : Text → Option α) : Check α
  | path, .string t =>
    match ofWord? t with
    | some a => .ok a
    | none => Checked.issue path (.noneOf words)
  | path, _ => Checked.issue path (.noneOf words)

/-- The strings that stand for a truth value, in lower case. -/
def truthWords : List (Text × Bool) :=
  [("1", true), ("true", true), ("t", true), ("yes", true), ("y", true), ("on", true),
    ("0", false), ("false", false), ("f", false), ("no", false), ("n", false), ("off", false)]

/-- The truth value of a whole number. -/
def wholeTruth (path : List Text) (n : Int) : Checked Bool :=
  if n = 0 then .ok false
  else if n = 1 then .ok true
  else Checked.issue path .unclearBoolean

/-- A truth value: itself, one of the words for it in any case, or the numbers zero and one. -/
def truth : Check Bool
  | _, .bool b => .ok b
  | path, .string t =>
    match truthWords.lookup (t.map Char.toLower) with
    | some b => .ok b
    | none => Checked.issue path .unclearBoolean
  | path, .integer n => wholeTruth path n
  | path, .float x =>
    match x.toWhole? with
    | some n => wholeTruth path n
    | none => Checked.issue path .notBoolean
  | path, _ => Checked.issue path .notBoolean

end Check

/-! ### Options of an object -/

namespace OptionKey

/-- The option among entries: the name under which it is given, and its value. -/
def find? (key : OptionKey) (entries : List (Text × Json)) : Option (Text × Json) :=
  match Json.lookup entries key.camel with
  | some value => some (key.camel, value)
  | none => (Json.lookup entries key.snake).map (key.snake, ·)

/-- The option, if it is given. -/
def read {α : Type} (key : OptionKey) (path : List Text) (entries : List (Text × Json))
    (check : Check α) : Checked (Option α) :=
  match key.find? entries with
  | none => .ok none
  | some (name, value) => (check (path ++ [name]) value).map some

/-- The option, which must be given. -/
def require {α : Type} (key : OptionKey) (path : List Text) (entries : List (Text × Json))
    (check : Check α) : Checked α :=
  match key.find? entries with
  | none => Checked.issue (path ++ [key.camel]) .missing
  | some (name, value) => check (path ++ [name]) value

/-- An issue for each key that names none of the options, or one that is given under its other
name. -/
def extraIssues (keys : List OptionKey) (path : List Text) (entries : List (Text × Json)) :
    List ConfigIssue :=
  let used := keys.filterMap fun key => (key.find? entries).map Prod.fst
  ((entries.map Prod.fst).filter (· ∉ used)).eraseDups.map fun key => ⟨path ++ [key], .extra⟩

end OptionKey

/-! ### Settings -/

namespace HttpClientSettings

/-- The options of the transport client. -/
def keys : List OptionKey :=
  [.prodEndpoint, .devEndpoint, .useDevIf]

/-- Reads the options of the transport client. -/
def check : Check HttpClientSettings
  | path, .object entries =>
    Checked.seq (.ok mk) (OptionKey.prodEndpoint.require path entries Check.nonemptyText)
      |>.seq (OptionKey.devEndpoint.read path entries (Check.nullable Check.text))
      |>.seq (OptionKey.useDevIf.read path entries (Check.nullable Check.text))
      |>.reject (OptionKey.extraIssues keys path entries)
  | path, _ => Checked.issue path (.notOptions "HttpClientConfig")

end HttpClientSettings

namespace ScalarSettings

/-- The options of a scalar. -/
def keys : List OptionKey :=
  [.type, .valueType]

/-- The name of a set of scalar options in reports. -/
def optionsName : Text := "ScalarConfig"

/-- The name of a plain string in reports. -/
def stringName : Text := "str"

/-- Reads a set of scalar options. -/
def checkOptions : Check ScalarSettings
  | path, .object entries =>
    Checked.seq (.ok explicit) (OptionKey.type.require path entries Check.nonemptyText)
      |>.seq (OptionKey.valueType.read path entries (Check.nullable Check.truth))
      |>.reject (OptionKey.extraIssues keys path entries)
  | path, _ => Checked.issue path (.notOptions optionsName)

/-- Reads the options of a scalar: a C# type, or a set of options. Of what is neither, it is
reported why it is not the one and why it is not the other. -/
def check : Check ScalarSettings
  | _, .string t => .ok (type t)
  | path, value =>
    match checkOptions (path ++ [optionsName]) value with
    | .ok s => .ok s
    | .error issues => .error (⟨path ++ [stringName], .notString⟩ :: issues)

/-- The entries with one more: the last entry of a name counts, in the place of the first. -/
def insert (entries : List (Text × ScalarSettings)) (entry : Text × ScalarSettings) :
    List (Text × ScalarSettings) :=
  if entries.any (·.1 = entry.1) then
    entries.map fun e => if e.1 = entry.1 then entry else e
  else entries ++ [entry]

/-- Reads the scalars. -/
def checkAll : Check (List (Text × ScalarSettings))
  | path, .object entries =>
    (Checked.all (entries.map fun (name, value) =>
      (check (path ++ [name]) value).map (name, ·))).map (·.foldl insert [])
  | path, _ => Checked.issue path .notDictionary

end ScalarSettings

namespace Settings

/-- The options. -/
def keys : List OptionKey :=
  [.namespaceName, .operationsClassName, .namedClient, .querySuffix, .mutationSuffix,
    .subscriptionSuffix, .typesafeOperation, .httpClient, .scalars, .namingConvention,
    .documentMode]

/-- Reads the entries of a configuration. -/
def checkEntries (entries : List (Text × Json)) : Checked Settings :=
  Checked.seq (.ok mk) (OptionKey.namespaceName.read [] entries Check.text)
    |>.seq (OptionKey.operationsClassName.read [] entries Check.text)
    |>.seq (OptionKey.namedClient.read [] entries (Check.nullable Check.text))
    |>.seq (OptionKey.querySuffix.read [] entries Check.text)
    |>.seq (OptionKey.mutationSuffix.read [] entries Check.text)
    |>.seq (OptionKey.subscriptionSuffix.read [] entries Check.text)
    |>.seq (OptionKey.typesafeOperation.read [] entries Check.truth)
    |>.seq (OptionKey.httpClient.read [] entries (Check.nullable HttpClientSettings.check))
    |>.seq (OptionKey.scalars.read [] entries ScalarSettings.checkAll)
    |>.seq (OptionKey.namingConvention.read [] entries
      (Check.oneOf (Convention.all.map Convention.word) Convention.ofWord?))
    |>.seq (OptionKey.documentMode.read [] entries
      (Check.oneOf (DocumentMode.all.map DocumentMode.word) DocumentMode.ofWord?))
    |>.reject (OptionKey.extraIssues keys [] entries)

/-- Reads a configuration from a value. -/
def ofJson : Json → Checked Settings
  | .object entries => checkEntries entries
  | _ => Checked.issue [] (.notOptions "CSharpOperationsConfig")

/-- Reads a configuration from the text of a file. -/
def ofText (t : Text) : Checked Settings :=
  match Json.parse t with
  | some value => ofJson value
  | none => Checked.issue [] .invalidJson

end Settings

/-! ### Overrides -/

/-- The options that a command line may override. -/
structure Overrides where
  /-- The namespace. -/
  namespaceName : Option Text := none
  /-- The client class. -/
  operationsClassName : Option Text := none
  /-- Whether operations are typesafe. -/
  typesafeOperation : Option Bool := none
  deriving DecidableEq, Repr

namespace Overrides

/-- The overrides as entries of a configuration. -/
def entries (o : Overrides) : List (Text × Json) :=
  OptionKey.namespaceName.given .string o.namespaceName
    ++ OptionKey.operationsClassName.given .string o.operationsClassName
    ++ OptionKey.typesafeOperation.given .bool o.typesafeOperation

end Overrides

/-- The settings with overrides: the given options are written out, overlaid and read again. Without
overrides the settings stay as they are. -/
def Settings.override (s : Settings) (o : Overrides) : Checked Settings :=
  match o.entries with
  | [] => .ok s
  | entries =>
    Settings.ofJson <|
      .object (entries.foldl (fun dumped e => Json.insert dumped e.1 e.2) s.dump)

end SharpClient

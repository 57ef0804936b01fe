import SharpClient.Text.Numeral

/-!
# Issues of a configuration

What is wrong with a configuration, and where. All issues are reported at once.
-/

namespace SharpClient

/-- What a configuration is read from. -/
inductive ConfigSource
  /-- The text of a file. -/
  | text
  /-- A value. -/
  | value
  deriving DecidableEq, Repr

/-- What is wrong at one place of a configuration. -/
inductive IssueKind
  /-- There is no such option. -/
  | extra
  /-- A required option is not given. -/
  | missing
  /-- The value is no string. -/
  | notString
  /-- The string is empty. -/
  | emptyString
  /-- The value is of no kind that may stand for a truth value. -/
  | notBoolean
  /-- The value stands for no truth value. -/
  | unclearBoolean
  /-- The value is none of these words. -/
  | noneOf (words : List Text)
  /-- The value is no collection of named values. -/
  | notDictionary
  /-- The value is no set of options of this kind. -/
  | notOptions (kind : Text)
  /-- The text is not JSON. -/
  | invalidJson
  deriving DecidableEq, Repr

/-- An issue with its place: the keys that lead to it. -/
structure ConfigIssue where
  /-- The keys, the outermost first. -/
  path : List Text
  /-- What is wrong. -/
  kind : IssueKind
  deriving DecidableEq, Repr

namespace IssueKind

/-- A short name of the kind. -/
def code : IssueKind → Text
  | extra => "extra_forbidden"
  | missing => "missing"
  | notString => "string_type"
  | emptyString => "string_too_short"
  | notBoolean => "bool_type"
  | unclearBoolean => "bool_parsing"
  | noneOf _ => "literal_error"
  | notDictionary => "dict_type"
  | notOptions _ => "model_type"
  | invalidJson => "json_invalid"

/-- A word in single quotes. -/
def quoted (word : Text) : Text :=
  "'" ++ word ++ "'"

/-- The message of the kind. In a file a set of options is an object. -/
def message (source : ConfigSource) : IssueKind → Text
  | extra => "Extra inputs are not permitted"
  | missing => "Field required"
  | notString => "Input should be a valid string"
  | emptyString => "String should have at least 1 character"
  | notBoolean => "Input should be a valid boolean"
  | unclearBoolean => "Input should be a valid boolean, unable to interpret input"
  | noneOf words => "Input should be " ++ Text.join " or " (words.map quoted)
  | notDictionary =>
    match source with
    | .text => "Input should be an object"
    | .value => "Input should be a valid dictionary"
  | notOptions kind =>
    match source with
    | .text => "Input should be an object"
    | .value => "Input should be a valid dictionary or instance of " ++ kind
  | invalidJson => "Invalid JSON"

end IssueKind

namespace ConfigIssue

/-- Order of places: key by key, a proper beginning first. -/
def pathBefore : List Text → List Text → Bool
  | [], _ => true
  | _ :: _, [] => false
  | a :: as, b :: bs => if a = b then pathBefore as bs else Text.before a b

/-- Order of issues: by place, then by the short name of the kind. -/
def before (i j : ConfigIssue) : Bool :=
  if i.path = j.path then Text.before i.kind.code j.kind.code else pathBefore i.path j.path

/-- The issues in the order of a report. -/
def sorted (issues : List ConfigIssue) : List ConfigIssue :=
  issues.mergeSort before

/-- The first line of a report. -/
def summary (issues : List ConfigIssue) : Text :=
  Text.decimal issues.length
    ++ (if issues.length = 1 then " validation error" else " validation errors")
    ++ " for CSharpOperationsConfig"

end ConfigIssue

end SharpClient

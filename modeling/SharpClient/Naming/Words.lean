import SharpClient.Text.Basic

/-!
# Words of a name

A name in camel case, snake case or kebab case is taken apart into words. Two cuts are made
first, each by one pass over the name: before a capital that follows a lower-case letter or a
digit, and before the last capital of an acronym that a lower-case letter follows. What is
left of the name is then split at everything that is neither an ASCII letter nor an ASCII
digit. Only ASCII letters and digits ever belong to a word.
-/

namespace SharpClient.Naming

/-- A space between a lower-case letter or digit and the capital right after it. -/
def cutBeforeCapital : Text → Text
  | a :: b :: rest =>
    if (a.isLower || a.isDigit) && b.isUpper then a :: ' ' :: b :: cutBeforeCapital rest
    else a :: cutBeforeCapital (b :: rest)
  | t => t

/-- A space between two capitals when a lower-case letter follows the second one. -/
def cutAcronym : Text → Text
  | a :: b :: c :: rest =>
    if a.isUpper && b.isUpper && c.isLower then a :: ' ' :: b :: c :: cutAcronym rest
    else a :: cutAcronym (b :: c :: rest)
  | t => t

/-- The pieces of a text between the characters that are no ASCII letter or digit. -/
def pieces : Text → List Text
  | [] => [[]]
  | c :: cs =>
    if c.isAlphanum then
      match pieces cs with
      | [] => [[c]]
      | p :: ps => (c :: p) :: ps
    else [] :: pieces cs

/-- The words of a name, in order; none of them is empty. -/
def words (name : Text) : List Text :=
  (pieces (cutAcronym (cutBeforeCapital name))).filter (!·.isEmpty)

/-- A word with its first letter in upper case and the others in lower case. -/
def capitalized : Text → Text
  | [] => []
  | c :: cs => c.toUpper :: cs.map Char.toLower

/-- A word after the first one: an underscore keeps a leading digit apart from what precedes. -/
def capitalizedNext : Text → Text
  | [] => []
  | c :: cs => if c.isDigit then '_' :: c :: cs.map Char.toLower else capitalized (c :: cs)

/-- The name in Pascal case: `userID` and `user_id` both become `UserId`. -/
def pascalCase (name : Text) : Text :=
  match words name with
  | [] => []
  | w :: ws => capitalized w ++ ws.flatMap capitalizedNext

end SharpClient.Naming

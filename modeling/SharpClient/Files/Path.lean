import SharpClient.Text.Basic

/-!
# Paths

Paths as text. Slashes separate components; empty components and single dots stand for nothing, and
two dots for the directory above. Names are limited in length, counted in bytes.
-/

namespace SharpClient.Path

/-- The components between slashes, one more than there are slashes. -/
def split : Text → List Text
  | [] => [[]]
  | c :: cs =>
    if c = '/' then [] :: split cs
    else
      match split cs with
      | [] => [[c]]
      | part :: parts => (c :: part) :: parts

/-- The text after the last slash. -/
def baseName (path : Text) : Text :=
  (split path).getLastD []

/-- The text from the last dot on, if there is a dot. -/
def fromLastDot (name : Text) : Text :=
  if '.' ∈ name then '.' :: (name.reverse.takeWhile (· ≠ '.')).reverse else []

/-- The extension with its dot. Dots at the start of the name do not begin an extension. -/
def extension (path : Text) : Text :=
  fromLastDot ((baseName path).dropWhile (· = '.'))

/-- Whether a path starts at the root. -/
def isAbsolute (path : Text) : Bool :=
  Text.startsWith path "/"

/-- The path of a name inside a directory. -/
def child (directory name : Text) : Text :=
  if directory.isEmpty || Text.endsWith directory "/" then directory ++ name
  else directory ++ "/" ++ name

/-- The components of a path that name something. -/
def steps (path : Text) : List Text :=
  (split path).filter fun part => !part.isEmpty && part ≠ "."

/-- One step from a place, which is given by the names that lead to it, the last one first. Above
the root there is nothing else. -/
def step (place : List Text) (part : Text) : List Text :=
  if part = "..".toList then place.tail else part :: place

/-- The place of a path relative to another place, as the names that lead to it. -/
def resolve (here : List Text) (path : Text) : List Text :=
  let start := if isAbsolute path then [] else here.reverse
  ((steps path).foldl step start).reverse

/-- The absolute path of a place. -/
def ofPlace (place : List Text) : Text :=
  if place.isEmpty then "/" else place.flatMap ('/' :: ·)

/-- Whether a name is too long for a file or directory. -/
def isLongName (name : Text) : Bool :=
  255 < Text.byteCount name

end SharpClient.Path

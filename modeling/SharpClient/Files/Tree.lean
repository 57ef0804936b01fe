import SharpClient.Files.Path
import SharpClient.Text.Lines

/-!
# Directory trees

The files that a run can see, as one tree, and how paths lead through it. A place in the tree is the
list of names that lead to it from the root. Only directories can be entered, also by a slash at the
end of a path or by dots.
-/

namespace SharpClient

/-- A file with its content, or a directory with its entries. -/
inductive Tree
  | file (content : Text)
  | directory (entries : List (Text × Tree))
  deriving Repr

/-- Why a file cannot be written. -/
inductive WriteFault
  /-- There is a directory in its place. -/
  | isDirectory
  /-- Its directory is a file. -/
  | parentIsFile
  /-- A directory above its directory is a file. -/
  | notDirectory
  /-- A name on the way to it is too long. -/
  | nameTooLong
  deriving DecidableEq, Repr

namespace Tree

/-! ### Places -/

/-- The entry of a name, if the tree is a directory that has it. -/
def entry? : Tree → Text → Option Tree
  | file _, _ => none
  | directory entries, name => entries.lookup name

/-- What stands in a place. -/
def at? : Tree → List Text → Option Tree
  | t, [] => some t
  | t, name :: rest => (t.entry? name).bind (·.at? rest)

/-- Whether the tree is a directory. -/
def isDirectory : Tree → Bool
  | file _ => false
  | directory _ => true

/-! ### Listing -/

mutual

/-- The files of a tree that stands under a path, with their paths. -/
def filesBelow (path : Text) : Tree → List (Text × Text)
  | file content => [(path, content)]
  | directory entries => filesOfEntries path entries

/-- The files of the entries of a directory that stands under a path. -/
def filesOfEntries (path : Text) : List (Text × Tree) → List (Text × Text)
  | [] => []
  | (name, t) :: rest => filesBelow (Path.child path name) t ++ filesOfEntries path rest

end

/-! ### Writing -/

/-- The entries with one set: in its old place, or at the end. -/
def setEntry (entries : List (Text × Tree)) (name : Text) (t : Tree) : List (Text × Tree) :=
  if entries.any (·.1 = name) then entries.map fun e => if e.1 = name then (name, t) else e
  else entries ++ [(name, t)]

/-- The tree with another one put in a place, whatever stood there or on the way to it. -/
def put (node : Tree) : Tree → List Text → Tree
  | _, [] => node
  | file _, name :: rest => directory [(name, put node (directory []) rest)]
  | directory entries, name :: rest =>
    directory (setEntry entries name (put node ((entries.lookup name).getD (directory [])) rest))

/-- Writes a file in a place and makes the directories that lead to it, from the outermost on. What
comes back is the tree as it is then, with the fault that ended the work early, if there was one:
directories that were made before it stay. -/
def write (content : Text) : Tree → List Text → Tree × Option WriteFault
  | file _, [] => (file content, none)
  | file text, [_] => (file text, some .parentIsFile)
  | file text, _ :: _ :: _ => (file text, some .notDirectory)
  | directory entries, [] => (directory entries, some .isDirectory)
  | directory entries, [name] =>
    let found := entries.lookup name
    if found.isNone && Path.isLongName name then (directory entries, some .nameTooLong)
    else if (found.map isDirectory).getD false then (directory entries, some .isDirectory)
    else (directory (setEntry entries name (file content)), none)
  | directory entries, name :: next :: rest =>
    let found := entries.lookup name
    if found.isNone && Path.isLongName name then (directory entries, some .nameTooLong)
    else
      let (t, fault) := (found.getD (directory [])).write content (next :: rest)
      (directory (setEntry entries name t), fault)

end Tree

/-- The files that a run can see, and where it runs. -/
structure Workspace where
  /-- The tree of all files. -/
  root : Tree
  /-- The place where relative paths start. -/
  here : List Text := []

namespace Workspace

/-- The place that one component of a path leads to. -/
def enter? (w : Workspace) (place : List Text) (part : Text) : Option (List Text) :=
  match w.root.at? place with
  | some (.directory entries) =>
    if part.isEmpty || part = "." then some place
    else if part = ".." then some place.dropLast
    else if (entries.lookup part).isSome then some (place ++ [part])
    else none
  | _ => none

/-- The place that a path leads to, if there is something. -/
def locate? (w : Workspace) (path : Text) : Option (List Text) :=
  if path.isEmpty then none
  else (Path.split path).foldlM w.enter? (if Path.isAbsolute path then [] else w.here)

/-- What a path leads to. -/
def find? (w : Workspace) (path : Text) : Option Tree :=
  (w.locate? path).bind w.root.at?

/-- The text of a file, with line feeds for line breaks. -/
def fileText? (w : Workspace) (path : Text) : Option Text :=
  match w.find? path with
  | some (.file content) => some (Text.normalizeLineBreaks content)
  | _ => none

/-- A path made absolute without looking at the files. -/
def resolve (w : Workspace) (path : Text) : Text :=
  Path.ofPlace (Path.resolve w.here path)

end Workspace

end SharpClient

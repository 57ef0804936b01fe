import SharpClient.CommandLine.Run
import SharpClient.Layout.PlainEngine

/-!
# The program

Loads the files that the arguments name into a tree, runs the command on it, prints what it says and
writes the files that it changed.
-/

namespace SharpClient.Main

/-- Loads a file or a directory with all that is in it. A file that is not text counts as empty. -/
partial def load (path : String) : IO Tree := do
  let location := (← IO.currentDir) / path
  if ← location.isDir then
    let entries ← location.readDir
    let loaded ← entries.toList.mapM fun e => do
      return (e.fileName.toList, ← load e.path.toString)
    return .directory loaded
  else
    let content ← try IO.FS.readFile location catch _ => pure ""
    return .file content.toList

/-- The beginnings of a path that end at one of its slashes or at its end, the shortest first. -/
def beginnings (path : Text) : List Text :=
  let parts := Path.split path
  (List.range parts.length).map fun n => Text.join "/" (parts.take (n + 1))

/-- Puts what stands on the way to a path, and the path itself if `whole`, into a tree. -/
def addPath (here : List Text) (whole : Bool) (tree : Tree) (path : Text) : IO Tree := do
  let mut tree := tree
  for start in beginnings path do
    let name := String.ofList start
    let location := (← IO.currentDir) / (if start.isEmpty then "/" else name)
    let place := Path.resolve here (if start.isEmpty then "/" else start)
    if ← location.pathExists then
      if whole && start = path then
        tree := Tree.put (← load location.toString) tree place
      else if ← location.isDir then
        if (tree.at? place).isNone then
          tree := Tree.put (.directory []) tree place
      else
        tree := Tree.put (← load location.toString) tree place
  return tree

/-- The paths that arguments name, each with whether all behind it is needed. -/
def pathsOf (arguments : List Text) : List (Text × Bool) :=
  match Command.ofArguments arguments with
  | .ok (.generate rest) =>
    match readArguments rest with
    | .ok (given, _) =>
      given.filterMap fun
        | .value .schema path | .value .documents path | .value .config path
        | .value .templateDir path => some (path, true)
        | .value .output path => some (path, false)
        | _ => none
    | .error _ => []
  | _ => []

/-- The files that the arguments name. -/
def loadWorkspace (arguments : List Text) : IO Workspace := do
  let here := Path.steps (← IO.currentDir).toString.toList
  let mut tree := Tree.put (.directory []) (.directory []) here
  for (path, whole) in pathsOf arguments do
    tree ← addPath here whole tree path
  return { root := tree, here }

/-- Writes the files in which one tree differs from another. -/
def writeChanges (before after : Tree) : IO Unit := do
  let known := before.filesBelow []
  for (path, content) in after.filesBelow [] do
    if !known.contains (path, content) then
      let location := (← IO.currentDir) / String.ofList ('/' :: path)
      if let some directory := location.parent then
        IO.FS.createDirAll directory
      IO.FS.writeFile location (String.ofList content)

/-- What is told about a fault that is not handled. -/
def crashMessage : Crash → String
  | .invalidSchema => "The schema violates the rules of the type system."
  | .impossiblePath => "A path holds the null character."
  | .isDirectory => "There is a directory in place of a file."
  | .fileExists => "There is a file in place of a directory."
  | .notDirectory => "There is a file on the way to a directory."
  | .nameTooLong => "A name in a path is too long."
  | .template fault => "A template cannot be rendered: " ++ String.ofList fault.kind
  | .unencodable => "The generated code is no text."

/-- Runs the command line. -/
def run (arguments : List Text) : IO UInt32 := do
  let w ← loadWorkspace arguments
  let outcome := w.run .plain arguments
  IO.print (String.ofList outcome.transcript.out)
  IO.eprint (String.ofList outcome.transcript.err)
  if let some c := outcome.crash then
    IO.eprintln (crashMessage c)
  writeChanges w.root outcome.files
  return outcome.exitCode.toUInt32

end SharpClient.Main

/-- The entry point of the program. -/
def main (arguments : List String) : IO UInt32 :=
  SharpClient.Main.run (arguments.map String.toList)

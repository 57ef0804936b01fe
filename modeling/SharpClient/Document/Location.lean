import SharpClient.Text.Lines
import SharpClient.Text.Numeral

/-!
# Lines and columns

A refused document is reported with the line and column of the offending place and, for a human
reader, with an excerpt of the source around it.
-/

namespace SharpClient

/-- A line and a column, both counted from one. -/
structure Location where
  /-- The line. -/
  line : Nat
  /-- The column, in code points. -/
  column : Nat
  deriving DecidableEq, Repr

namespace Location

/-- The location `offset` code points behind `here`. A carriage return, a line feed, or the two in
this order end a line. -/
def advance (here : Location) : (offset : Nat) → Text → Location
  | 0, _ => here
  | _ + 1, [] => here
  | offset + 2, '\r' :: '\n' :: cs => advance ⟨here.line + 1, 1⟩ offset cs
  | offset + 1, c :: cs =>
    if c = '\n' ∨ c = '\r' then advance ⟨here.line + 1, 1⟩ offset cs
    else advance ⟨here.line, here.column + 1⟩ offset cs

/-- The location of an offset in a source. -/
def ofOffset (source : Text) (offset : Nat) : Location :=
  advance ⟨1, 1⟩ offset source

end Location

/-- Why a document was refused, and where. -/
structure LocatedError where
  /-- What is wrong. -/
  message : Text
  /-- The document. -/
  source : Text
  /-- The offset of the offending place. -/
  offset : Nat
  deriving DecidableEq, Repr

namespace LocatedError

/-- The error of a document that violates the grammar. -/
def ofSyntax (reason source : Text) (offset : Nat) : LocatedError :=
  ⟨"Syntax Error: " ++ reason, source, offset⟩

/-- The line and column of the error. -/
def location (e : LocatedError) : Location :=
  Location.ofOffset e.source e.offset

/-- A text cut into pieces of `size` characters, at most `limit` of them. -/
def chunks (size : Nat) : (limit : Nat) → Text → List Text
  | 0, _ => []
  | limit + 1, t => if t.isEmpty then [] else t.take size :: chunks size limit (t.drop size)

/-- Labelled lines one below the other, the labels aligned on the right. An empty line has no space
behind its label. -/
def labelled (table : List (Text × Text)) : Text :=
  let width := (table.map (·.1.length)).max?.getD 0
  Text.unlines (table.map fun (label, line) =>
    Text.alignRight width label ++ Text.wrapped " " line "")

/-- Lines that share one label. -/
def rows (label : Text) (lines : List Text) : List (Text × Text) :=
  lines.map fun line => (label, line)

/-- The label of a line. -/
def lineLabel (number : Nat) : Text :=
  Text.decimal number ++ " |"

/-- The rows of an excerpt whose line is too long to be shown as one: it is cut into pieces, and
the mark stands below the piece with the offending place. -/
def longRows (number : Nat) (line : Text) (column : Nat) : List (Text × Text) :=
  let pieces := chunks 80 line.length line
  let index := column / 80
  rows (lineLabel number) (pieces.take 1) ++ rows "|" ((pieces.take (index + 1)).drop 1) ++
    rows "|" [Text.alignRight (column % 80) "^"] ++ rows "|" ((pieces.drop (index + 1)).take 1)

/-- The line of this number, if there is one. -/
def lineAt (lines : List Text) (number : Nat) : List Text :=
  if number = 0 then [] else (lines.drop (number - 1)).take 1

/-- The rows of an excerpt: the offending line between its neighbours, with a mark below the
offending place. -/
def shortRows (lines : List Text) (number column : Nat) : List (Text × Text) :=
  rows (lineLabel (number - 1)) (lineAt lines (number - 1)) ++
    rows (lineLabel number) (lineAt lines number) ++ rows "|" [Text.alignRight column "^"] ++
    rows (lineLabel (number + 1)) (lineAt lines (number + 1))

/-- The excerpt around the offending place. -/
def excerpt (e : LocatedError) : Text :=
  let place := e.location
  let lines := Text.lines (Text.normalizeLineBreaks e.source)
  let line := (lineAt lines place.line).headD []
  labelled (if 120 < line.length then longRows place.line line place.column
    else shortRows lines place.line place.column)

/-- The error for a human reader: message, place and excerpt. -/
def report (e : LocatedError) : Text :=
  e.message ++ "\n\nGraphQL request:" ++ Text.decimal e.location.line ++ ":" ++
    Text.decimal e.location.column ++ "\n" ++ e.excerpt

end LocatedError

end SharpClient

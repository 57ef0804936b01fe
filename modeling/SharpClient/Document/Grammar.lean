import SharpClient.Document.Basic
import SharpClient.Document.Token

/-!
# Reading lexemes

The means with which the grammar of documents is written down: looking at the next lexeme, taking
it, and the repetitions that the grammar uses. A reader sees lexemes only and knows no positions;
an error names the offending lexeme by how many are left from it on. When the lexemes run out
without `Lexeme.done`, the scan stopped at a lexical fault, and that fault is the error.

A repetition takes at least one lexeme in each round, so the number of lexemes that are left bounds
the number of rounds. Selection sets, lists and objects nest at most as deep as the limit says; a
reader of something that nests is told how much room is left inside.
-/

namespace SharpClient

/-- Why reading stopped. -/
inductive ReadFault
  /-- The lexemes ran out before the end of the document. -/
  | lexical
  /-- The grammar does not admit the lexeme from which on `left` lexemes are left. -/
  | grammatical (reason : Text) (left : Nat)
  deriving DecidableEq, Repr

/-- A reader of the lexemes of a source. -/
abbrev Reader := ReaderT Text (StateT (List Lexeme) (Except ReadFault))

namespace Reader

variable {α : Type}

/-- The number of lexemes that are left. -/
def left : Reader Nat :=
  return (← get).length

/-- The place of the next lexeme. -/
def place : Reader Place :=
  return ⟨← read, ← left⟩

/-- The next lexeme. -/
def peek : Reader Lexeme := do
  match ← get with
  | [] => throw .lexical
  | l :: _ => return l

/-- The lexeme after the next one. -/
def peekSecond : Reader Lexeme := do
  match ← get with
  | _ :: l :: _ => return l
  | _ => throw .lexical

/-- Takes the next lexeme. The one behind it must be readable. -/
def advance : Reader Unit := do
  match ← get with
  | _ :: l :: rest => set (l :: rest)
  | _ => throw .lexical

/-- Fails at the next lexeme. -/
def fail (reason : Text) : Reader α := do
  throw (.grammatical reason (← left))

/-- Fails because the next lexeme cannot stand here. -/
def unexpected : Reader α := do
  fail ("Unexpected " ++ (← peek).described ++ ".")

/-- Fails because the lexeme after the next one cannot stand there. -/
def unexpectedSecond : Reader α := do
  throw (.grammatical ("Unexpected " ++ (← peekSecond).described ++ ".") ((← left) - 1))

/-- Fails because something else is needed than the next lexeme. -/
def expected (what : Text) : Reader α := do
  fail ("Expected " ++ what ++ ", found " ++ (← peek).described ++ ".")

/-- How deep selection sets, lists and objects may nest. -/
def nestingLimit : Nat := 200

/-- Fails because what begins at the next lexeme has no room left. -/
def tooDeep : Reader α :=
  fail "Document is nested too deeply. Parsing aborted."

/-- Takes a punctuator. -/
def punctuator (p : Punctuator) : Reader Unit := do
  if (← peek) = .punctuator p then advance else expected p.quoted

/-- Takes a punctuator if it comes next, and says whether it did. -/
def accept (p : Punctuator) : Reader Bool := do
  if (← peek) = .punctuator p then
    advance
    return true
  else return false

/-- Takes a name. -/
def name : Reader Text := do
  match ← peek with
  | .name t =>
    advance
    return t
  | _ => expected "Name"

/-- Takes a keyword. -/
def keyword (word : Text) : Reader Unit := do
  if (← peek) = .name word then advance else expected ("'" ++ word ++ "'")

/-- Takes a keyword if it comes next, and says whether it did. -/
def acceptKeyword (word : Text) : Reader Bool := do
  if (← peek) = .name word then
    advance
    return true
  else return false

/-- Items up to the closing punctuator, in at most `rounds` rounds. -/
def itemsUntil (close : Punctuator) (item : Reader α) : (rounds : Nat) → Reader (List α)
  | 0 => throw .lexical
  | rounds + 1 => do
    if ← accept close then return []
    else
      let x ← item
      return x :: (← itemsUntil close item rounds)

/-- One or more items up to the closing punctuator, in at most `rounds` rounds. -/
def someUntil (close : Punctuator) (item : Reader α) : (rounds : Nat) → Reader (List α)
  | 0 => throw .lexical
  | rounds + 1 => do
    let x ← item
    if ← accept close then return [x]
    else return x :: (← someUntil close item rounds)

/-- One or more items between delimiters, in at most `rounds` rounds. -/
def someBetween (delimiter : Punctuator) (item : Reader α) : (rounds : Nat) → Reader (List α)
  | 0 => throw .lexical
  | rounds + 1 => do
    let x ← item
    if ← accept delimiter then return x :: (← someBetween delimiter item rounds)
    else return [x]

/-- Any number of items in brackets. -/
def enclosed (opening close : Punctuator) (item : Reader α) : Reader (List α) := do
  punctuator opening
  itemsUntil close item (← left)

/-- One or more items in brackets. -/
def enclosedSome (opening close : Punctuator) (item : Reader α) : Reader (List α) := do
  punctuator opening
  someUntil close item (← left)

/-- One or more items in brackets, or nothing at all. -/
def optionallyEnclosed (opening close : Punctuator) (item : Reader α) : Reader (List α) := do
  if ← accept opening then someUntil close item (← left) else return []

/-- One or more items between delimiters; a delimiter may also stand in front. -/
def delimited (delimiter : Punctuator) (item : Reader α) : Reader (List α) := do
  let _ ← accept delimiter
  someBetween delimiter item (← left)

end Reader

end SharpClient

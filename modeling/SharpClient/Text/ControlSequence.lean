import SharpClient.Text.Basic

/-!
# Control sequences

A control sequence tells a terminal how to show text, in which colour for instance. It begins with
an escape character and an opening bracket; parameters, intermediate characters and one final
character follow, each from a range of its own. What is printed for a reader is printed without
them. An escape character that begins no complete sequence is text like any other.
-/

namespace SharpClient.Text

/-- The characters that give the parameters of a control sequence. -/
def isSequenceParameter (c : Char) : Bool :=
  '0' ≤ c && c ≤ '?'

/-- The characters between the parameters of a control sequence and its end. -/
def isSequenceIntermediate (c : Char) : Bool :=
  ' ' ≤ c && c ≤ '/'

/-- The characters that end a control sequence. -/
def isSequenceFinal (c : Char) : Bool :=
  '@' ≤ c && c ≤ '~'

/-- The length of the control sequence at the start of a text, if there is one. -/
def sequenceLength? : Text → Option Nat
  | '\x1b' :: '[' :: rest =>
    let parameters := rest.takeWhile isSequenceParameter
    let rest := rest.drop parameters.length
    let intermediates := rest.takeWhile isSequenceIntermediate
    match rest.drop intermediates.length with
    | c :: _ =>
      if isSequenceFinal c then some (parameters.length + intermediates.length + 3) else none
    | [] => none
  | _ => none

/-- A text without its first `skipped` characters and without the control sequences after them. -/
def dropSequences : Nat → Text → Text
  | _, [] => []
  | skipped + 1, _ :: cs => dropSequences skipped cs
  | 0, c :: cs =>
    match sequenceLength? (c :: cs) with
    | some n => dropSequences (n - 1) cs
    | none => c :: dropSequences 0 cs

/-- A text without its control sequences. -/
def withoutSequences (t : Text) : Text :=
  dropSequences 0 t

end SharpClient.Text

import SharpClient.Text.Basic

/-!
# Similar texts

How alike two texts are. The longest block that both contain is matched, then the longest blocks
left of it, and right of it, and so on; of blocks of equal length the one that begins first in the
first text counts, and of these the one that begins first in the second. Two texts are alike to the
degree of twice the matched length over both lengths together.

Suggestions for a word that is not known are the most similar of the known ones.
-/

namespace SharpClient.Text

/-! ### Matched blocks -/

/-- The length of the longest common beginning of two texts. -/
def commonStart : Text → Text → Nat
  | c :: cs, d :: ds => if c = d then commonStart cs ds + 1 else 0
  | _, _ => 0

/-- A block that two texts have in common. -/
structure Block where
  /-- Where it begins in the first text. -/
  left : Nat
  /-- Where it begins in the second text. -/
  right : Nat
  /-- How long it is. -/
  size : Nat
  deriving DecidableEq, Repr

namespace Block

/-- The longer one of two blocks; the first one if they are equally long. -/
def longer (a b : Block) : Block :=
  if a.size < b.size then b else a

/-- The longest block at the beginning of the first text that the second text contains; `right` is
how much of the second text has been passed. -/
def atStart (left : Nat) (a : Text) : (right : Nat) → Text → Block
  | right, [] => ⟨left, right, 0⟩
  | right, d :: ds => longer ⟨left, right, commonStart a (d :: ds)⟩ (atStart left a (right + 1) ds)

/-- The longest block of two texts; `left` is how much of the first text has been passed. -/
def longest (b : Text) : (left : Nat) → Text → Block
  | left, [] => ⟨left, 0, 0⟩
  | left, c :: cs => longer (atStart left (c :: cs) 0 b) (longest b (left + 1) cs)

end Block

/-- The number of characters that are matched in blocks, in at most `rounds` rounds. Each round
takes at least one character from the first text. -/
def matchedWithin : (rounds : Nat) → Text → Text → Nat
  | 0, _, _ => 0
  | rounds + 1, a, b =>
    let block := Block.longest b 0 a
    if block.size = 0 then 0
    else
      matchedWithin rounds (a.take block.left) (b.take block.right) + block.size +
        matchedWithin rounds (a.drop (block.left + block.size)) (b.drop (block.right + block.size))

/-- The number of characters of two texts that are matched in blocks. -/
def matched (a b : Text) : Nat :=
  matchedWithin a.length a b

/-! ### Suggestions -/

/-- A known word with its similarity to another one: matched characters over all characters. -/
structure Candidate where
  /-- The known word. -/
  word : Text
  /-- The number of matched characters. -/
  matched : Nat
  /-- The number of characters of both words. -/
  total : Nat
  deriving DecidableEq, Repr

namespace Candidate

/-- A known word compared with another one. -/
def ofWord (word known : Text) : Candidate :=
  ⟨known, Text.matched known word, known.length + word.length⟩

/-- Whether the words are alike to the degree of three fifths at least. -/
def isClose (c : Candidate) : Bool :=
  3 * c.total ≤ 10 * c.matched

/-- Order of candidates: the more similar first, equally similar ones from the last word on. -/
def before (c d : Candidate) : Bool :=
  if c.matched * d.total = d.matched * c.total then Text.before d.word c.word
  else d.matched * c.total < c.matched * d.total

end Candidate

/-- The known words to suggest for another one: the three most similar of those that are close, in
the order of words. -/
def suggestions (word : Text) (known : List Text) : List Text :=
  let close := (known.map (Candidate.ofWord word)).filter Candidate.isClose
  (((close.mergeSort Candidate.before).take 3).map (·.word)).mergeSort before

end SharpClient.Text

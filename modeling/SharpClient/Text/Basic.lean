/-!
# Text

Text is the list of its code points. Everything that reads or writes source text in this
library works on lists of characters, so that lengths, columns and cuts count code points and
every rule can be stated by recursion on the text. String literals are read as text.
-/

namespace SharpClient

/-- Text as the sequence of its code points. -/
abbrev Text := List Char

/-- A string literal stands for its code points. -/
instance : Coe String Text := ⟨String.toList⟩

/-- The equality test of texts decides their equality. -/
instance : LawfulBEq Text := inferInstance

namespace Text

/-- The parts in order, with the separator between each two neighbours. -/
def join (separator : Text) (parts : List Text) : Text :=
  List.intercalate separator parts

/-- Every occurrence of the character `c` replaced by `new`. -/
def replaceChar (c : Char) (new : Text) (t : Text) : Text :=
  t.flatMap fun d => if d = c then new else [d]

/-- Whether `t` begins with `start`. -/
def startsWith (t start : Text) : Bool :=
  start.isPrefixOf t

/-- Whether `t` ends with `ending`. -/
def endsWith (t ending : Text) : Bool :=
  ending.isSuffixOf t

/-- `n` copies of `t`, one after the other. -/
def repeated (n : Nat) (t : Text) : Text :=
  (List.replicate n t).flatten

/-- `n` spaces. -/
def spaces (n : Nat) : Text :=
  List.replicate n ' '

/-- `t` moved right by spaces until it is `width` code points long. -/
def alignRight (width : Nat) (t : Text) : Text :=
  spaces (width - t.length) ++ t

/-- `start`, `t` and `ending` in a row, or nothing when `t` is empty. -/
def wrapped (start t ending : Text) : Text :=
  if t.isEmpty then [] else start ++ t ++ ending

/-- The number of bytes that `t` takes up in UTF-8. -/
def byteCount (t : Text) : Nat :=
  t.foldl (fun n c => n + c.utf8Size) 0

/-- Code point order of two texts: a proper beginning comes first. -/
def before : Text → Text → Bool
  | [], _ => true
  | _ :: _, [] => false
  | c :: cs, d :: ds => if c = d then before cs ds else c.toNat < d.toNat

end Text

end SharpClient

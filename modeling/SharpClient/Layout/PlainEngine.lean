import SharpClient.Layout
import SharpClient.Text.Numeral

/-!
# Plain templates

An engine for templates that are text with slots. A slot, between two pairs of braces, holds a name
or a string in double quotes: the names are `namespace_name` and `content`, and a string may name
code points by four hexadecimal digits, surrogates among them. One line break at the end of a
template does not count. The engine refuses every template with anything else between braces, so
that what it renders is what a full engine renders.
-/

namespace SharpClient.TemplateEngine

/-- A part of a plain template. -/
inductive PlainPart
  /-- A character that stands for itself. -/
  | char (c : Char)
  /-- The slot for the name of the namespace. -/
  | namespaceName
  /-- The slot for the declarations. -/
  | content
  /-- A slot with a string. -/
  | string (value : RawText)
  deriving DecidableEq, Repr

/-! ### Reading -/

/-- A text without the blanks at its ends. -/
def trimmed (t : Text) : Text :=
  ((t.dropWhile Text.isBlank).reverse.dropWhile Text.isBlank).reverse

/-- The string up to the quote that ends it, if nothing follows the quote. -/
def readString : Text → Option RawText
  | ['"'] => some []
  | '\\' :: 'u' :: a :: b :: c :: d :: rest => do
    let n ← Text.hexNumber? [a, b, c, d]
    let ps ← readString rest
    return .ofNat n :: ps
  | c :: rest => if c = '"' || c = '\\' then none else (readString rest).map (.char c :: ·)
  | [] => none

/-- The part that stands in a slot. -/
def readSlot (inner : Text) : Option PlainPart :=
  match trimmed inner with
  | '"' :: rest => (readString rest).map .string
  | name =>
    if name = "namespace_name".toList then some .namespaceName
    else if name = "content".toList then some .content
    else none

/-- The text up to the end of a slot, and what follows it. -/
def slotBody : Text → Option (Text × Text)
  | [] => none
  | '\x7d' :: '\x7d' :: rest => some ([], rest)
  | c :: rest => (slotBody rest).map fun (inner, rest) => (c :: inner, rest)

/-- The parts of a template. The first argument bounds their number. -/
def parts : Nat → Text → Option (List PlainPart)
  | _, [] => some []
  | 0, _ :: _ => none
  | steps + 1, '\x7b' :: '\x7b' :: rest => do
    let (inner, rest) ← slotBody rest
    let part ← readSlot inner
    return part :: (← parts steps rest)
  | _ + 1, '\x7b' :: '%' :: _ => none
  | _ + 1, '\x7b' :: '#' :: _ => none
  | steps + 1, c :: rest => (parts steps rest).map (.char c :: ·)

/-- The text without the line feed at its end, if it has one. -/
def dropFinalBreak (t : Text) : Text :=
  if Text.endsWith t "\n" then t.dropLast else t

/-- The parts that a text is made of. -/
def partsOf (t : Text) : Option (List PlainPart) :=
  let body := dropFinalBreak (Text.normalizeLineBreaks t)
  parts body.length body

/-! ### Rendering -/

/-- What becomes of a part. A slot that nothing fills is empty. -/
def fillPart (slots : Option Slots) : PlainPart → RawText
  | .char c => [.char c]
  | .namespaceName => slots.elim [] (·.namespaceName)
  | .content => slots.elim [] (·.content)
  | .string value => value

/-- The engine for plain templates. -/
def plain : TemplateEngine where
  render load name slots :=
    match load name with
    | none => .error ⟨"TemplateNotFound"⟩
    | some text =>
      match partsOf text with
      | none => .error ⟨"UnsupportedTemplate"⟩
      | some ps => .ok (ps.flatMap (fillPart slots))

end SharpClient.TemplateEngine

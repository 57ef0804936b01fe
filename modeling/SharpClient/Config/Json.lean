import SharpClient.Number.Binary64
import SharpClient.Text.Numeral

/-!
# JSON

Values of configuration files, and their reader. The reader follows the JSON grammar strictly, with
three additions: `NaN` and the infinities are numbers, containers that hold something nest at most
two hundred deep, and the whole part of a number has at most 4300 digits. A number with a fraction
or an exponent is a binary floating-point number, and a number without is a whole number.
An object keeps all its entries in order; of several entries for one key the last one counts.
-/

namespace SharpClient

/-- A JSON value. -/
inductive Json
  | null
  | bool (b : Bool)
  /-- A whole number of 64 bits. -/
  | integer (n : Int)
  /-- A whole number that 64 bits cannot hold. -/
  | longInteger
  /-- A number with a fraction or an exponent. -/
  | float (x : Binary64)
  | string (t : Text)
  | array (items : List Json)
  | object (entries : List (Text × Json))
  deriving Inhabited, Repr

namespace Json

/-! ### Access -/

/-- The value of a key: the last entry for it. -/
def lookup (entries : List (Text × Json)) (key : Text) : Option Json :=
  entries.reverse.lookup key

/-- The entries with a value set: in the place of the key's entries, or at the end. -/
def insert (entries : List (Text × Json)) (key : Text) (value : Json) : List (Text × Json) :=
  if entries.any (·.1 = key) then
    entries.map fun e => if e.1 = key then (key, value) else e
  else entries ++ [(key, value)]

/-! ### Numbers -/

/-- A whole number, told apart by whether 64 bits hold it. -/
def ofInt (n : Int) : Json :=
  if -9223372036854775808 ≤ n ∧ n ≤ 9223372036854775807 then .integer n else .longInteger

/-- The number `digits / 10 ^ places`. -/
def ofDecimal (digits : Int) (places : Nat) : Json :=
  if places = 0 then ofInt digits
  else
    let size := digits.natAbs
    .float (.ofDecimal (digits < 0) size (Text.decimal size).length (-(places : Int)))

/-- The whole number that a numeral of these digits writes. -/
def ofNumeral (negative : Bool) (digits : Text) : Json :=
  let n : Int := Text.decimalValue digits
  ofInt (if negative then -n else n)

/-! ### Reading -/

/-- The text after blanks. -/
def skipBlanks (t : Text) : Text :=
  t.dropWhile fun c => c = ' ' ∨ c = '\t' ∨ c = '\n' ∨ c = '\r'

/-- The character that a one-letter escape stands for. -/
def escapedChar? : Char → Option Char
  | '"' => some '"'
  | '\\' => some '\\'
  | '/' => some '/'
  | 'b' => some '\x08'
  | 'f' => some '\x0c'
  | 'n' => some '\n'
  | 'r' => some '\r'
  | 't' => some '\t'
  | _ => none

/-- Reads the rest of a string, after its opening quote, and gives its value and what follows it.
The first argument bounds the number of steps. -/
def readString : Nat → Text → Option (Text × Text)
  | 0, _ => none
  | _ + 1, '"' :: rest => some ([], rest)
  | steps + 1, '\\' :: 'u' :: a :: b :: c :: d :: rest => do
    let n ← Text.hexNumber? [a, b, c, d]
    if Text.isLeadingSurrogate n then
      match rest with
      | '\\' :: 'u' :: e :: f :: g :: h :: rest =>
        let m ← Text.hexNumber? [e, f, g, h]
        guard (Text.isTrailingSurrogate m)
        let (value, rest) ← readString steps rest
        return (Char.ofNat (Text.surrogatePair n m) :: value, rest)
      | _ => none
    else
      guard (Text.isScalarValue n)
      let (value, rest) ← readString steps rest
      return (Char.ofNat n :: value, rest)
  | steps + 1, '\\' :: c :: rest => do
    let char ← escapedChar? c
    let (value, rest) ← readString steps rest
    return (char :: value, rest)
  | steps + 1, c :: rest => do
    guard (c ≠ '\\' ∧ ' ' ≤ c)
    let (value, rest) ← readString steps rest
    return (c :: value, rest)
  | _ + 1, [] => none

/-- Reads the fraction of a number, if there is one: its digits. -/
def readFraction : Text → Option (Text × Text)
  | '.' :: rest =>
    let digits := rest.takeWhile Char.isDigit
    if digits.isEmpty then none else some (digits, rest.dropWhile Char.isDigit)
  | rest => some ([], rest)

/-- Reads the digits of an exponent. -/
def readExponentDigits (rest : Text) : Option (Nat × Text) :=
  let digits := rest.takeWhile Char.isDigit
  if digits.isEmpty then none else some (Text.decimalValue digits, rest.dropWhile Char.isDigit)

/-- Reads the exponent of a number, if there is one. -/
def readExponent : Text → Option (Option Int × Text)
  | c :: rest =>
    if c = 'e' ∨ c = 'E' then
      match rest with
      | '-' :: rest => (readExponentDigits rest).map fun (n, rest) => (some (-(n : Int)), rest)
      | '+' :: rest => (readExponentDigits rest).map fun (n, rest) => (some (n : Int), rest)
      | rest => (readExponentDigits rest).map fun (n, rest) => (some (n : Int), rest)
    else some (none, c :: rest)
  | [] => some (none, [])

/-- Reads the digits before the point: one zero, or digits that start with another one. -/
def readWhole : Text → Option (Text × Text)
  | '0' :: rest => some (['0'], rest)
  | rest =>
    let digits := rest.takeWhile Char.isDigit
    if digits.isEmpty then none else some (digits, rest.dropWhile Char.isDigit)

/-- How many digits the whole part of a number may have. -/
def wholeLimit : Nat := 4300

/-- Reads a number, after its sign. -/
def readUnsigned (negative : Bool) (t : Text) : Option (Json × Text) := do
  let (whole, rest) ← readWhole t
  guard (whole.length ≤ wholeLimit)
  let (fraction, rest) ← readFraction rest
  let (exponent, rest) ← readExponent rest
  if fraction.isEmpty && exponent.isNone then return (ofNumeral negative whole, rest)
  else
    let digits := whole ++ fraction
    let scale : Int := exponent.getD 0 - fraction.length
    return (.float (.ofDecimal negative (Text.decimalValue digits) digits.length scale), rest)

/-- The words that stand for a value. -/
def words : List (Text × Json) :=
  [("null", .null), ("true", .bool true), ("false", .bool false), ("NaN", .float .nonFinite),
    ("Infinity", .float .nonFinite), ("-Infinity", .float .nonFinite)]

/-- Reads one of the words. -/
def readWord (t : Text) : Option (Json × Text) :=
  words.findSome? fun (word, value) =>
    if Text.startsWith t word then some (value, t.drop word.length) else none

/-- Reads items up to the closing character, at least one, with a comma between each two. The first
argument bounds the number of items. -/
def readItems {α : Type} (item : Text → Option (α × Text)) (close : Char) :
    Nat → Text → Option (List α × Text)
  | 0, _ => none
  | steps + 1, t => do
    let (first, rest) ← item (skipBlanks t)
    match skipBlanks rest with
    | ',' :: rest =>
      let (more, rest) ← readItems item close steps rest
      return (first :: more, rest)
    | c :: rest => if c = close then some ([first], rest) else none
    | [] => none

/-- Reads an entry of an object, where `value` reads its value. -/
def readEntry (value : Text → Option (Json × Text)) : Text → Option ((Text × Json) × Text)
  | '"' :: rest => do
    let (key, rest) ← readString (rest.length + 1) rest
    match skipBlanks rest with
    | ':' :: rest =>
      let (v, rest) ← value (skipBlanks rest)
      return ((key, v), rest)
    | _ => none
  | _ => none

/-- Reads the value at the start of a text that does not start with a blank. Inside it, containers
that hold something nest at most as deep as the first argument says. -/
def readValue : Nat → Text → Option (Json × Text)
  | _, '"' :: rest => do
    let (value, rest) ← readString (rest.length + 1) rest
    return (.string value, rest)
  | depth, '[' :: rest =>
    match skipBlanks rest with
    | ']' :: rest => some (.array [], rest)
    | rest =>
      match depth with
      | 0 => none
      | depth + 1 => do
        let (items, rest) ← readItems (readValue depth) ']' (rest.length + 1) rest
        return (.array items, rest)
  | depth, '\x7b' :: rest =>
    match skipBlanks rest with
    | '\x7d' :: rest => some (.object [], rest)
    | rest =>
      match depth with
      | 0 => none
      | depth + 1 => do
        let (entries, rest) ←
          readItems (readEntry (readValue depth)) '\x7d' (rest.length + 1) rest
        return (.object entries, rest)
  | _, t =>
    (readWord t).or <|
      match t with
      | '-' :: rest => readUnsigned true rest
      | rest => readUnsigned false rest

/-- How deep containers that hold something may nest. -/
def nestingLimit : Nat := 200

/-- The value that a text writes, if it is JSON. -/
def parse (t : Text) : Option Json := do
  let (value, rest) ← readValue nestingLimit (skipBlanks t)
  guard (skipBlanks rest).isEmpty
  return value

end Json

end SharpClient

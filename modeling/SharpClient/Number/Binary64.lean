/-!
# Binary floating-point numbers

The 64-bit binary number nearest to a decimal one. Everything is exact arithmetic of natural
numbers: a decimal is a quotient, the quotient is scaled by a power of two until its whole part has
53 binary digits, and it is then rounded to a whole number, a tie going to the even neighbour. Below
the smallest normal number the scale stays fixed, so that fewer digits remain.
-/

namespace SharpClient

/-- The value of a 64-bit binary number. -/
inductive Binary64
  /-- The number `significand * 2 ^ exponent`, or its negative. -/
  | finite (negative : Bool) (significand : Nat) (exponent : Int)
  /-- An infinity, or no number at all. -/
  | nonFinite
  deriving DecidableEq, Repr

namespace Binary64

/-! ### Rounding -/

/-- A quotient rounded to the nearest whole number, a tie to the even one. -/
def roundedQuotient (numerator denominator : Nat) : Nat :=
  let q := numerator / denominator
  let twice := 2 * (numerator % denominator)
  if denominator < twice || (twice = denominator && q % 2 = 1) then q + 1 else q

/-- A quotient divided by a power of two, as numerator and denominator. -/
def scaled (numerator denominator : Nat) : (exponent : Int) → Nat × Nat
  | .ofNat e => (numerator, denominator * Nat.pow 2 e)
  | .negSucc e => (numerator * Nat.pow 2 (e + 1), denominator)

/-- The exponent at which the whole part of a scaled quotient has 53 binary digits, but at least the
one of the smallest numbers. -/
def exponentOf (numerator denominator : Nat) : Int :=
  let guess : Int := (Nat.log2 numerator : Int) - (Nat.log2 denominator : Int) - 53
  let (n, d) := scaled numerator denominator guess
  max (-1074) (if n < d * 9007199254740992 then guess else guess + 1)

/-- The number nearest to a quotient. -/
def ofQuotient (negative : Bool) (numerator denominator : Nat) : Binary64 :=
  if numerator = 0 then .finite negative 0 0
  else
    let exponent := exponentOf numerator denominator
    let (n, d) := scaled numerator denominator exponent
    let significand := roundedQuotient n d
    if 971 < exponent || (exponent = 971 && 9007199254740992 ≤ significand) then .nonFinite
    else .finite negative significand exponent

/-- The number nearest to `digits * 10 ^ exponent`, or to its negative, where `digits` has at most
`count` decimal digits. Exponents far from zero are decided by the count alone. -/
def ofDecimal (negative : Bool) (digits count : Nat) (exponent : Int) : Binary64 :=
  if digits = 0 || exponent + count < -330 then .finite negative 0 0
  else if 310 < exponent then .nonFinite
  else
    match exponent with
    | .ofNat e => ofQuotient negative (digits * Nat.pow 10 e) 1
    | .negSucc e => ofQuotient negative digits (Nat.pow 10 (e + 1))

/-! ### Whole numbers -/

/-- The absolute value, if it is whole. -/
def wholeSize? (significand : Nat) : (exponent : Int) → Option Nat
  | .ofNat e => some (significand * Nat.pow 2 e)
  | .negSucc e =>
    if significand % Nat.pow 2 (e + 1) = 0 then some (significand / Nat.pow 2 (e + 1)) else none

/-- The number as a whole number, if it is one and its absolute value is below `2 ^ 63`. -/
def toWhole? : Binary64 → Option Int
  | finite negative significand exponent =>
    ((wholeSize? significand exponent).filter (· < 9223372036854775808)).map fun size =>
      if negative then -(size : Int) else size
  | nonFinite => none

end Binary64

end SharpClient

import SharpClient.Document.Basic
import SharpClient.Text.Numeral

/-!
# Literals where a scalar or an enum is wanted

Which literals a scalar or an enum admits: a literal of the right kind for a built-in scalar, any
literal for another scalar, and a declared value for an enum.
-/

namespace SharpClient

namespace TypeRef

/-- Whether the type admits no absent value. -/
def isRequired : TypeRef → Bool
  | nonNull _ => true
  | _ => false

end TypeRef

namespace Value

/-- The whole number that an integer literal denotes. -/
def intOf : Text → Int
  | '-' :: digits => -(Text.decimalValue digits : Int)
  | digits => Text.decimalValue digits

/-- Whether a scalar admits a literal. -/
def suitsScalar (scalar : Text) (literal : Value) : Bool :=
  if scalar = "Int" then
    match literal with
    | .int t => -2147483648 ≤ intOf t && intOf t ≤ 2147483647
    | _ => false
  else if scalar = "Float" then
    match literal with
    | .int _ | .float _ => true
    | _ => false
  else if scalar = "String" then
    match literal with
    | .string _ | .blockString _ => true
    | _ => false
  else if scalar = "ID" then
    match literal with
    | .string _ | .blockString _ | .int _ => true
    | _ => false
  else if scalar = "Boolean" then
    match literal with
    | .boolean _ => true
    | _ => false
  else true

/-- Whether an enum of these values admits a literal. -/
def suitsEnum (values : List Text) : Value → Bool
  | .enum name => name ∈ values
  | _ => false

end Value

end SharpClient

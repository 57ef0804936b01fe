import SharpClient.Text.Basic

/-!
# Value types of members

The C# type of a member is described by its element type and the list layers around it, each with
its own requiredness. Only the optional value type is written differently from the required one;
a list is written the same way in both cases, and its requiredness is kept for those who ask.
-/

namespace SharpClient

/-- The element type of a member. -/
structure BaseType where
  /-- The C# name. -/
  name : Text
  /-- Whether a value is always present. -/
  required : Bool := false
  /-- Whether the type has value semantics, so that its optional form is written with `?`. -/
  valueType : Bool := false
  deriving DecidableEq, Repr

/-- The described type of a member, variable or input field. -/
structure FieldType where
  /-- The element type. -/
  base : BaseType
  /-- Whether each list layer is required, the outermost first. -/
  layers : List Bool := []
  deriving DecidableEq, Repr

namespace FieldType

/-- Whether there is a list layer. -/
def isList (t : FieldType) : Bool :=
  !t.layers.isEmpty

/-- The number of list layers. -/
def listDepth (t : FieldType) : Nat :=
  t.layers.length

/-- Whether the outermost layer is required: the outer list, or the element when there is none. -/
def outerRequired (t : FieldType) : Bool :=
  t.layers.head?.getD t.base.required

/-- The element type as written, with `?` for an optional value type. -/
def elementText (t : FieldType) : Text :=
  t.base.name ++ (if t.base.valueType && !t.base.required then "?" else "")

/-- The whole type as written, one generic named `list` for each list layer. -/
def textIn (list : Text) (t : FieldType) : Text :=
  Text.repeated t.listDepth (list ++ "<") ++ t.elementText ++ Text.repeated t.listDepth ">"

/-- The whole type as written. -/
def text (t : FieldType) : Text :=
  t.textIn "List"

/-- The type with its outermost layer made optional. -/
def optional (t : FieldType) : FieldType :=
  match t.layers with
  | [] => { t with base := { t.base with required := false } }
  | _ :: inner => { t with layers := false :: inner }

/-- The type with the element replaced by a generated class. -/
def withElement (t : FieldType) (name : Text) : FieldType :=
  { t with base := { name := name } }

end FieldType

end SharpClient

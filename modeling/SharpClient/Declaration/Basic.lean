import SharpClient.Text.Basic

/-!
# Declarations

The generated C# declarations as data: classes with properties, nested classes and at most one
constructor, enums, and methods. Members keep the order in which they are declared.
-/

namespace SharpClient

/-- A property that is read from and written to the payload. -/
structure Property where
  /-- The key in the payload. -/
  wire : Text
  /-- The member's identifier. -/
  member : Text
  /-- The C# type as written. -/
  type : Text
  deriving DecidableEq, Inhabited, Repr

/-- A parameter of a constructor or method. -/
structure Parameter where
  /-- The C# type as written. -/
  type : Text
  /-- The parameter's name. -/
  name : Text
  /-- The default as written, if the parameter may be left out. -/
  default : Option Text := none
  deriving DecidableEq, Repr

/-- A constructor that assigns parameters to members. -/
structure Constructor where
  /-- The class that is constructed. -/
  className : Text
  /-- The parameters, in order. -/
  parameters : List Parameter
  /-- Each assigned member with the parameter it gets. -/
  assignments : List (Text × Text)
  deriving DecidableEq, Repr

/-- A member of a class: a property or a nested class. -/
inductive Member
  /-- A property. -/
  | property (p : Property)
  /-- A nested class with its members and constructor. -/
  | nested (name : Text) (members : List Member) (constructor : Option Constructor)
  deriving Inhabited, Repr

/-- A class. -/
structure ClassDecl where
  /-- The class's name. -/
  name : Text
  /-- The members, in order. -/
  members : List Member := []
  /-- The constructor, if one is declared. -/
  constructor : Option Constructor := none
  deriving Repr

namespace ClassDecl

/-- The class as a member of another one. -/
def toMember (c : ClassDecl) : Member :=
  .nested c.name c.members c.constructor

/-- The properties declared directly in the class. -/
def properties (c : ClassDecl) : List Property :=
  c.members.filterMap fun
    | .property p => some p
    | .nested .. => none

/-- The classes nested directly in the class. -/
def nestedClasses (c : ClassDecl) : List ClassDecl :=
  c.members.filterMap fun
    | .property _ => none
    | .nested name members constructor => some ⟨name, members, constructor⟩

end ClassDecl

/-- An enum. -/
structure EnumDecl where
  /-- The enum's name. -/
  name : Text
  /-- Its values, in order. -/
  values : List Text
  deriving DecidableEq, Repr

/-- A client method; a signature has no body. -/
structure Method where
  /-- The return type as written. -/
  returnType : Text
  /-- The method's name. -/
  name : Text
  /-- The parameters, in order. -/
  parameters : List Parameter
  /-- The statements of the body, if the method has one. -/
  body : Option Text := none
  deriving DecidableEq, Repr

end SharpClient

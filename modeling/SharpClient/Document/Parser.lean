import SharpClient.Document.Basic
import SharpClient.Document.Grammar
import SharpClient.Document.Lexer
import SharpClient.Document.Location

/-!
# Reading documents

The grammar of GraphQL documents: operations and fragments, and the definitions and extensions of
a type system. What nests is read with the room that is left inside it: each selection set, list or
object takes one unit of the room for its contents, and so does each layer of a list type.
-/

namespace SharpClient

namespace Reader

/-! ### Values and types -/

/-- A variable without its dollar sign. -/
def variableName : Reader Text := do
  punctuator .dollar
  name

/-- A variable where only constants may stand: always an error, at the dollar sign. -/
def constantVariable : Reader Value := do
  let here ← left
  punctuator .dollar
  match ← peek with
  | .name v => throw (.grammatical ("Unexpected variable '$" ++ v ++ "' in constant value.") here)
  | _ => throw (.grammatical ("Unexpected " ++ Punctuator.dollar.quoted ++ ".") here)

/-- The value written as a name. -/
def namedValue (word : Text) : Value :=
  if word = "true" then .boolean true
  else if word = "false" then .boolean false
  else if word = "null" then .null
  else .enum word

/-- A value that holds no others. -/
def plainValue (constant : Bool) : Reader Value := do
  match ← peek with
  | .punctuator .dollar =>
    if constant then constantVariable else return .variable (← variableName)
  | .int t =>
    advance
    return .int t
  | .float t =>
    advance
    return .float t
  | .string t =>
    advance
    return .string t
  | .blockString t =>
    advance
    return .blockString t
  | .name t =>
    advance
    return namedValue t
  | _ => unexpected

/-- A value, where lists and objects nest at most `room` deep. -/
def value (constant : Bool) : (room : Nat) → Reader Value
  | 0 => do
    match ← peek with
    | .punctuator .bracketL | .punctuator .braceL => tooDeep
    | _ => plainValue constant
  | room + 1 => do
    match ← peek with
    | .punctuator .bracketL =>
      return .list (← enclosed .bracketL .bracketR (value constant room))
    | .punctuator .braceL =>
      return .object (← enclosed .braceL .braceR do
        let key ← name
        punctuator .colon
        return (key, ← value constant room))
    | _ => plainValue constant

/-- A type reference with at most `room` layers of lists. -/
def typeWithin : (room : Nat) → Reader TypeRef
  | 0 => do
    if ← accept .bracketL then tooDeep
    else
      let t ← name
      if ← accept .bang then return .nonNull (.named t) else return .named t
  | room + 1 => do
    let t ← if ← accept .bracketL then do
        let item ← typeWithin room
        punctuator .bracketR
        pure (TypeRef.list item)
      else TypeRef.named <$> name
    if ← accept .bang then return .nonNull t else return t

/-- A type reference. -/
def type : Reader TypeRef :=
  typeWithin nestingLimit

/-- A default value behind an equals sign, or none. -/
def default? : Reader (Option Value) := do
  if ← accept .equals then return some (← value true nestingLimit) else return none

/-- A description, or none. -/
def description? : Reader (Option Description) := do
  match ← peek with
  | .string t =>
    advance
    return some ⟨t, false⟩
  | .blockString t =>
    advance
    return some ⟨t, true⟩
  | _ => return none

/-! ### Arguments and directives -/

/-- An argument. -/
def argument (constant : Bool) (room : Nat) : Reader Argument := do
  let key ← name
  punctuator .colon
  return ⟨key, ← value constant room⟩

/-- The arguments in parentheses, or none. -/
def arguments (constant : Bool) (room : Nat) : Reader (List Argument) :=
  optionallyEnclosed .parenL .parenR (argument constant room)

/-- A directive, after its sign. -/
def directive (constant : Bool) (room : Nat) : Reader Directive := do
  let n ← name
  return ⟨n, ← arguments constant room⟩

/-- Directives, in at most `rounds` rounds; `item` reads one, after its sign, given the place of the
sign. -/
def directivesWithin {α : Type} (item : Place → Reader α) : (rounds : Nat) → Reader (List α)
  | 0 => throw .lexical
  | rounds + 1 => do
    if (← peek) = .punctuator .atSign then
      let sign ← place
      advance
      let d ← item sign
      return d :: (← directivesWithin item rounds)
    else return []

/-- Any number of directives. -/
def directives (constant : Bool) (room : Nat) : Reader (List Directive) := do
  directivesWithin (fun _ => directive constant room) (← left)

/-- A constant argument with the place of its value. -/
def placedArgument : Reader (Argument × Place) := do
  let key ← name
  punctuator .colon
  let start ← place
  return (⟨key, ← value true nestingLimit⟩, start)

/-- A directive in a type system, after its sign, which stands at `sign`. -/
def placedDirective (sign : Place) : Reader PlacedDirective := do
  let n ← name
  let as ← optionallyEnclosed .parenL .parenR placedArgument
  return ⟨⟨n, as.map (·.1)⟩, sign, as.map (·.2)⟩

/-- Any number of directives in a type system. -/
def placedDirectives : Reader (List PlacedDirective) := do
  directivesWithin placedDirective (← left)

/-! ### Selections -/

/-- The name of a fragment, which is any name but `on`. -/
def fragmentName : Reader Text := do
  if (← peek).value? = some "on" then unexpected else name

/-- A field with `room` inside the selection set it stands in; `selectionSet` reads its
sub-selection. -/
def field (room : Nat) (selectionSet : Reader (List Selection)) : Reader Selection := do
  let first ← name
  let (as, fieldName) ← if ← accept .colon then pure (some first, ← name) else pure (none, first)
  let args ← arguments false room
  let dirs ← directives false room
  let sub ← if (← peek) = .punctuator .braceL then selectionSet else pure []
  return .field as fieldName args dirs sub

/-- The spread of a fragment, or an inline fragment. -/
def fragmentSelection (room : Nat) (selectionSet : Reader (List Selection)) :
    Reader Selection := do
  punctuator .spread
  if ← acceptKeyword "on" then
    let on ← name
    let dirs ← directives false room
    return .inline (some on) dirs (← selectionSet)
  else
    match ← peek with
    | .name _ =>
      let n ← fragmentName
      return .spread n (← directives false room)
    | _ =>
      let dirs ← directives false room
      return .inline none dirs (← selectionSet)

/-- A selection. -/
def selection (room : Nat) (selectionSet : Reader (List Selection)) : Reader Selection := do
  if (← peek) = .punctuator .spread then fragmentSelection room selectionSet
  else field room selectionSet

/-- A selection set, where selection sets nest at most `room` deep. -/
def selectionSetWithin : (room : Nat) → Reader (List Selection)
  | 0 => tooDeep
  | room + 1 => enclosedSome .braceL .braceR (selection room (selectionSetWithin room))

/-- A selection set. -/
def selectionSet : Reader (List Selection) :=
  selectionSetWithin nestingLimit

/-! ### Operations and fragments -/

/-- The kind of an operation. An unknown one is an error at its keyword. -/
def operationKind : Reader OperationKind := do
  let here ← left
  let word ← name
  match OperationKind.ofKeyword? word with
  | some kind => return kind
  | none => throw (.grammatical ("Unexpected " ++ (Lexeme.name word).described ++ ".") here)

/-- A variable definition. -/
def variableDefinition : Reader Variable := do
  let description ← description?
  let n ← variableName
  punctuator .colon
  let t ← type
  let d ← default?
  return ⟨description, n, t, d, ← directives true nestingLimit⟩

/-- A query without keyword. -/
def shorthandQuery : Reader Operation := do
  return ⟨none, .query, none, [], [], ← selectionSet⟩

/-- An operation with its keyword. -/
def operation : Reader Operation := do
  let description ← description?
  let kind ← operationKind
  let n ← match ← peek with
    | .name _ => some <$> name
    | _ => pure none
  let variableDefinitions ← optionallyEnclosed .parenL .parenR variableDefinition
  let dirs ← directives false nestingLimit
  return ⟨description, kind, n, variableDefinitions, dirs, ← selectionSet⟩

/-- A fragment definition. -/
def fragment : Reader FragmentDefinition := do
  let description ← description?
  keyword "fragment"
  let n ← fragmentName
  keyword "on"
  let on ← name
  let dirs ← directives false nestingLimit
  return ⟨description, n, on, dirs, ← selectionSet⟩

/-! ### Type system -/

/-- The definition of an argument or of an input field. -/
def inputValue : Reader InputValue := do
  let _ ← description?
  let n ← name
  punctuator .colon
  let t ← type
  let d ← default?
  return ⟨n, t, d, ← placedDirectives⟩

/-- The argument definitions in parentheses, or none. -/
def argumentDefinitions : Reader (List InputValue) :=
  optionallyEnclosed .parenL .parenR inputValue

/-- The definition of a field. -/
def fieldDefinition : Reader FieldDefinition := do
  let _ ← description?
  let n ← name
  let args ← argumentDefinitions
  punctuator .colon
  let t ← type
  return ⟨n, args, t, ← placedDirectives⟩

/-- The field definitions in braces, or none. -/
def fieldDefinitions : Reader (List FieldDefinition) :=
  optionallyEnclosed .braceL .braceR fieldDefinition

/-- The implemented interfaces, or none. -/
def interfaces : Reader (List Text) := do
  if ← acceptKeyword "implements" then delimited .amp name else return []

/-- An enum value, which must not spell a boolean or null. -/
def enumValue : Reader EnumValue := do
  let _ ← description?
  let next ← peek
  if next.value? = some "true" ∨ next.value? = some "false" ∨ next.value? = some "null" then
    fail (next.described ++ " is reserved and cannot be used for an enum value.")
  else
    let n ← name
    return ⟨n, ← placedDirectives⟩

/-- The root type of a kind of operation. -/
def rootType : Reader (OperationKind × Text) := do
  let kind ← operationKind
  punctuator .colon
  return (kind, ← name)

/-- What follows the keyword `scalar`. -/
def scalarType : Reader TypeDefinition := do
  let n ← name
  return ⟨n, .scalar, ← placedDirectives⟩

/-- What follows the keyword `type`. -/
def objectType : Reader TypeDefinition := do
  let n ← name
  let is ← interfaces
  let dirs ← placedDirectives
  return ⟨n, .object is (← fieldDefinitions), dirs⟩

/-- What follows the keyword `interface`. -/
def interfaceType : Reader TypeDefinition := do
  let n ← name
  let is ← interfaces
  let dirs ← placedDirectives
  return ⟨n, .interface is (← fieldDefinitions), dirs⟩

/-- What follows the keyword `union`. -/
def unionType : Reader TypeDefinition := do
  let n ← name
  let dirs ← placedDirectives
  let members ← if ← accept .equals then delimited .pipe name else pure []
  return ⟨n, .union members, dirs⟩

/-- What follows the keyword `enum`. -/
def enumType : Reader TypeDefinition := do
  let n ← name
  let dirs ← placedDirectives
  return ⟨n, .enum (← optionallyEnclosed .braceL .braceR enumValue), dirs⟩

/-- What follows the keyword `input`. -/
def inputType : Reader TypeDefinition := do
  let n ← name
  let dirs ← placedDirectives
  return ⟨n, .input (← optionallyEnclosed .braceL .braceR inputValue), dirs⟩

/-- The keywords of type definitions with what follows them. -/
def typeDefinitions : List (Text × Reader TypeDefinition) :=
  [("scalar", scalarType), ("type", objectType), ("interface", interfaceType),
    ("union", unionType), ("enum", enumType), ("input", inputType)]

/-- A place where a directive may be applied. An unknown one is an error at its name. -/
def directiveLocation : Reader DirectiveLocation := do
  let here ← left
  let word ← name
  match DirectiveLocation.ofKeyword? word with
  | some location => return location
  | none => throw (.grammatical ("Unexpected " ++ (Lexeme.name word).described ++ ".") here)

/-- What follows the keyword `directive`. -/
def directiveDefinition : Reader DirectiveDefinition := do
  punctuator .atSign
  let n ← name
  let args ← argumentDefinitions
  let repeatable ← acceptKeyword "repeatable"
  keyword "on"
  return ⟨n, args, repeatable, ← delimited .pipe directiveLocation⟩

/-- What follows the keyword `schema` in a definition. -/
def schemaDefinition : Reader SchemaDefinition := do
  let dirs ← placedDirectives
  return ⟨dirs, ← enclosedSome .braceL .braceR rootType⟩

/-- What follows the keywords `extend schema`. -/
def schemaExtension : Reader SchemaDefinition := do
  let dirs ← placedDirectives
  let roots ← optionallyEnclosed .braceL .braceR rootType
  if dirs.isEmpty && roots.isEmpty then unexpected else return ⟨dirs, roots⟩

/-- Whether a type extension adds nothing. -/
def addsNothing (t : TypeDefinition) : Bool :=
  t.directives.isEmpty &&
    match t.body with
    | .scalar => true
    | .object is fields | .interface is fields => is.isEmpty && fields.isEmpty
    | .union members => members.isEmpty
    | .enum values => values.isEmpty
    | .input fields => fields.isEmpty

/-- An extension, from its keyword on. It must add something. -/
def extension : Reader Definition := do
  match ← peekSecond with
  | .name word =>
    if word = "schema" then
      advance
      advance
      return .schemaExtension (← schemaExtension)
    else
      match typeDefinitions.lookup word with
      | some body =>
        advance
        advance
        let t ← body
        if addsNothing t then unexpected else return .typeExtension t
      | none => unexpectedSecond
  | _ => unexpectedSecond

/-- A definition of a type system, at its keyword. -/
def typeSystemDefinition? (word : Text) : Option (Reader Definition) :=
  if word = "schema" then some (.schema <$> schemaDefinition)
  else if word = "directive" then some (.directive <$> directiveDefinition)
  else (typeDefinitions.lookup word).map (Definition.type <$> ·)

/-! ### Documents -/

/-- A definition with a keyword, which a description may precede. -/
def keywordDefinition (described : Bool) (word : Text) : Reader Definition := do
  match typeSystemDefinition? word with
  | some body =>
    let _ ← description?
    advance
    body
  | none =>
    if (OperationKind.ofKeyword? word).isSome then return .operation (← operation)
    else if word = "fragment" then return .fragment (← fragment)
    else if described then
      fail "Unexpected description, only GraphQL definitions support descriptions."
    else if word = "extend" then extension
    else unexpected

/-- A definition. -/
def definition : Reader Definition := do
  match ← peek with
  | .punctuator .braceL => return .operation (← shorthandQuery)
  | .name word => keywordDefinition false word
  | .string _ | .blockString _ =>
    match ← peekSecond with
    | .punctuator .braceL =>
      fail "Unexpected description, descriptions are not supported on shorthand queries."
    | .name word => keywordDefinition true word
    | _ => unexpectedSecond
  | _ => unexpected

/-- One or more definitions up to the end of the document, in at most `rounds` rounds. -/
def definitionsWithin : (rounds : Nat) → Reader (List Definition)
  | 0 => throw .lexical
  | rounds + 1 => do
    let d ← definition
    if (← peek) = .done then return [d] else return d :: (← definitionsWithin rounds)

/-- A whole document. -/
def document : Reader Document := do
  return ⟨← definitionsWithin (← left)⟩

/-- A type reference and nothing else. -/
def wholeType : Reader TypeRef := do
  let t ← type
  if (← peek) = .done then return t else expected "<EOF>"

/-! ### From text -/

variable {α : Type}

/-- The number of characters left at the lexeme from which on `left` lexemes are left. -/
def charactersLeft (lexemes : List (Lexeme × Nat)) (left : Nat) : Nat :=
  ((lexemes.drop (lexemes.length - left)).head?.map (·.2)).getD 0

/-- Reads a text. -/
def run (reader : Reader α) (source : Text) : Except LocatedError α :=
  let scan := Scan.ofText source
  match (ReaderT.run reader source).run (scan.lexemes.map (·.1)) with
  | .ok (result, _) => .ok result
  | .error (.grammatical reason left) =>
    .error (.ofSyntax reason source (source.length - charactersLeft scan.lexemes left))
  | .error .lexical =>
    match scan.fault with
    | some fault => .error (.ofSyntax fault.message source (source.length - fault.rest.length))
    | none => .error (.ofSyntax "Unexpected <EOF>." source source.length)

end Reader

/-- The offset of a place in its source. -/
def Place.offset (p : Place) : Nat :=
  p.source.length - Reader.charactersLeft (Scan.ofText p.source).lexemes p.left

/-- An error at a place. -/
def Place.error (p : Place) (message : Text) : LocatedError :=
  ⟨message, p.source, p.offset⟩

/-- The document that a text holds. -/
def Document.parse (source : Text) : Except LocatedError Document :=
  Reader.document.run source

/-- The type reference that a text holds. -/
def TypeRef.parse (source : Text) : Except LocatedError TypeRef :=
  Reader.wholeType.run source

end SharpClient

import SharpClient.FieldType.Resolve

/-!
# Wrappers and described types

A type reference is a name inside list and non-null wrappers. A described type keeps them in another
form: a layer for each list, and for each layer and the element whether it is required. Nothing is
lost on the way, as long as no non-null wrapper stands directly around another (`TypeRef.Proper`),
which no schema allows. The layers are the list wrappers in order, a layer is required exactly when
its wrapper stands directly inside a non-null one (`Proper.layer_at`), and the reference can be
built again (`FieldType.reference`, `TypeContext.resolve_keeps_wrappers`).

The C# type is written from the described type, with all lists at once: so many openings, the
element and so many closings. `TypeContext.written` writes it wrapper by wrapper instead, and
`TypeContext.text_follows_wrappers` shows that both are the same.
-/

namespace SharpClient

/-! ### Wrappers -/

/-- A wrapper of a type reference. -/
inductive Wrapper
  /-- Lists of what is inside. -/
  | list
  /-- What is inside, without `null`. -/
  | nonNull
  deriving DecidableEq

namespace TypeRef

/-- The wrappers around the name, the outermost first. -/
def wrappers : TypeRef → List Wrapper
  | named _ => []
  | list t => .list :: t.wrappers
  | nonNull t => .nonNull :: t.wrappers

/-- The number of list wrappers. -/
def depth : TypeRef → Nat
  | named _ => 0
  | list t => t.depth + 1
  | nonNull t => t.depth

theorem count_wrappers (t : TypeRef) : t.wrappers.count .list = t.depth := by
  induction t with
  | named name => rfl
  | list t ih => rw [wrappers, List.count_cons_self, ih, depth]
  | nonNull t ih => rw [wrappers, List.count_cons_of_ne (by decide), ih, depth]

theorem length_layers (t : TypeRef) : t.layers.length = t.depth := by
  fun_induction layers t with
  | case1 name => rfl
  | case2 t ih => rw [List.length_cons, ih, depth]
  | case3 t ih => rw [List.length_cons, ih, depth, depth]
  | case4 t hlist ih => rw [ih, depth]

/-- No non-null wrapper stands directly around another. -/
inductive Proper : TypeRef → Prop
  | named (name : Text) : Proper (named name)
  | list {t : TypeRef} (ht : t.Proper) : Proper (list t)
  | nonNullNamed (name : Text) : Proper (nonNull (named name))
  | nonNullList {t : TypeRef} (ht : t.Proper) : Proper (nonNull (list t))

/-- A list wrapper further out does not make what is inside non-null. -/
theorem getLast_list_cons (ws : List Wrapper) :
    decide ((Wrapper.list :: ws).getLast? = some .nonNull) =
      decide (ws.getLast? = some .nonNull) := by
  cases ws with
  | nil => rfl
  | cons w ws => rw [List.getLast?_cons_cons]

/-- The layer of a list wrapper is required exactly when the wrapper stands directly inside a
non-null one. -/
theorem Proper.layer_at {t : TypeRef} (h : t.Proper) {outer inner : List Wrapper}
    (hw : t.wrappers = outer ++ .list :: inner) :
    t.layers[outer.count .list]? = some (decide (outer.getLast? = some .nonNull)) := by
  induction h generalizing outer with
  | named name => cases List.append_ne_nil_of_right_ne_nil outer (List.cons_ne_nil _ _) hw.symm
  | list ht ih =>
    cases outer with
    | nil => rfl
    | cons w outer =>
      obtain ⟨rfl, hinside⟩ := List.cons.inj hw
      rw [List.count_cons_self, layers, List.getElem?_cons_succ, ih hinside, getLast_list_cons]
  | nonNullNamed name =>
    cases outer with
    | nil => cases hw
    | cons w outer => cases outer <;> cases hw
  | nonNullList ht ih =>
    cases outer with
    | nil => cases hw
    | cons w outer =>
      -- The list wrapper asked for is the one inside this non-null wrapper, or further in.
      obtain ⟨rfl, hlist⟩ := List.cons.inj hw
      cases outer with
      | nil => rfl
      | cons w outer =>
        obtain ⟨rfl, hinside⟩ := List.cons.inj hlist
        rw [List.count_cons_of_ne (by decide), List.count_cons_self, layers,
          List.getElem?_cons_succ, ih hinside, List.getLast?_cons_cons, getLast_list_cons]

theorem Proper.coreRequired_eq {t : TypeRef} (h : t.Proper) :
    t.coreRequired = decide (t.wrappers.getLast? = some .nonNull) := by
  induction h with
  | named name => rfl
  | list ht ih => rw [coreRequired, ih, wrappers, getLast_list_cons]
  | nonNullNamed name => rfl
  | nonNullList ht ih =>
    rw [coreRequired, ih, wrappers, wrappers, List.getLast?_cons_cons, getLast_list_cons]

/-! ### Building a reference again -/

/-- The reference, inside a non-null wrapper where it is required. -/
def ofRequired : Bool → TypeRef → TypeRef
  | true, t => nonNull t
  | false, t => t

/-- The reference to a name with such layers. -/
def ofLayers (name : Text) (required : Bool) : List Bool → TypeRef
  | [] => ofRequired required (named name)
  | layer :: layers => ofRequired layer (list (ofLayers name required layers))

theorem Proper.ofLayers_layers {t : TypeRef} (h : t.Proper) :
    ofLayers t.core t.coreRequired t.layers = t := by
  induction h with
  | named name => rfl
  | list ht ih => exact congrArg TypeRef.list ih
  | nonNullNamed name => rfl
  | nonNullList ht ih => exact congrArg (fun t => nonNull (TypeRef.list t)) ih

end TypeRef

/-- The type reference to a name that a described type comes from. -/
def FieldType.reference (d : FieldType) (name : Text) : TypeRef :=
  .ofLayers name d.base.required d.layers

/-! ### Elements -/

namespace TypeContext

variable (c : TypeContext)

/-- The C# name of a type: that of the mapping for a scalar, the generated one for an input type or
an enum, and its own otherwise. -/
def elementName (name : Text) : Text :=
  match (c.schema.type? name).map TypeDefinition.body with
  | some .scalar => ((c.scalars.get? name).map ScalarMapping.type).getD untyped
  | some (.input _) => c.convention.typeName name
  | some (.enum _) => c.convention.typeName name
  | _ => name

/-- Whether a type is an enum or a scalar mapped to a value type. -/
def isValueType (name : Text) : Bool :=
  match (c.schema.type? name).map TypeDefinition.body with
  | some .scalar => (c.scalars.get? name).any ScalarMapping.valueType
  | some (.enum _) => true
  | _ => false

theorem element_eq (name : Text) (required : Bool) :
    c.element name required = ⟨c.elementName name, required, c.isValueType name⟩ := by
  unfold element elementName isValueType
  cases (c.schema.type? name).map TypeDefinition.body with
  | none => rfl
  | some body =>
    cases body with
    | scalar => cases c.scalars.get? name <;> rfl
    | _ => rfl

/-- Whether a value is present does not change what it is called. -/
theorem element_optional (name : Text) (required : Bool) :
    { c.element name required with required := false } = c.element name false := by
  rw [element_eq, element_eq]

theorem required_resolve (t : TypeRef) : (c.resolve t).base.required = t.coreRequired :=
  congrArg BaseType.required (c.element_eq t.core t.coreRequired)

theorem reference_resolve {t : TypeRef} (h : t.Proper) : (c.resolve t).reference t.core = t := by
  rw [FieldType.reference, required_resolve]
  exact h.ofLayers_layers

/-- **No wrapper is lost.** A described type has a layer for each list wrapper, required exactly
when the wrapper stands directly inside a non-null one, and its element is required exactly when the
name does. So the reference can be built again from the described type and the name, and no other
reference to the same name is described alike. -/
theorem resolve_keeps_wrappers {t : TypeRef} (h : t.Proper) :
    (c.resolve t).layers.length = t.wrappers.count .list ∧
    (∀ outer inner, t.wrappers = outer ++ .list :: inner →
      (c.resolve t).layers[outer.count .list]? = some (decide (outer.getLast? = some .nonNull))) ∧
    (c.resolve t).base.required = decide (t.wrappers.getLast? = some .nonNull) ∧
    (c.resolve t).reference t.core = t ∧
    ∀ t' : TypeRef, t'.Proper → t'.core = t.core → c.resolve t' = c.resolve t → t' = t := by
  refine ⟨?_, fun outer inner hw => h.layer_at hw, ?_, c.reference_resolve h, ?_⟩
  · rw [TypeRef.count_wrappers]
    exact t.length_layers
  · rw [required_resolve]
    exact h.coreRequired_eq
  · intro t' h' hcore hresolve
    calc t' = (c.resolve t').reference t'.core := (c.reference_resolve h').symm
      _ = (c.resolve t).reference t.core := by rw [hresolve, hcore]
      _ = t := c.reference_resolve h

end TypeContext

namespace RolesSample

/-- A schema with an enum. -/
def context : TypeContext where
  schema := ⟨[⟨"role", .enum [⟨"ADMIN", []⟩], []⟩], [], []⟩
  scalars := .standard
  convention := .pascalCase

/-- Lists of lists of roles, where only the outer list is always present. -/
def roles : TypeRef :=
  .nonNull (.list (.list (.named "role")))

theorem roles_proper : roles.Proper :=
  .nonNullList (.list (.named "role"))

theorem roles_kept :
    (context.resolve roles).layers.length = 2 ∧
    (context.resolve roles).layers[0]? = some true ∧
    (context.resolve roles).layers[1]? = some false ∧
    (context.resolve roles).base.required = false ∧
    (context.resolve roles).reference "role" = roles ∧
    ∀ t : TypeRef, t.Proper → t.core = "role" → context.resolve t = context.resolve roles →
      t = roles := by
  obtain ⟨hlength, hlayer, hbase, hreference, honly⟩ :=
    context.resolve_keeps_wrappers roles_proper
  exact ⟨hlength, hlayer [.nonNull] _ rfl, hlayer [.nonNull, .list] _ rfl, hbase, hreference, honly⟩

end RolesSample

/-! ### Texts -/

/-- One more copy on both sides stands around all others. -/
theorem Text.repeated_around (n : Nat) (opening t closing : Text) :
    repeated (n + 1) opening ++ t ++ repeated (n + 1) closing =
      opening ++ (repeated n opening ++ t ++ repeated n closing) ++ closing := by
  have hopening : repeated (n + 1) opening = opening ++ repeated n opening := rfl
  have hclosing : repeated (n + 1) closing = repeated n closing ++ closing := by
    rw [repeated, List.replicate_succ', List.flatten_concat, repeated]
  rw [hopening, hclosing]
  simp only [List.append_assoc]

/-- Lists of a type, as written. -/
def listOf (item : Text) : Text :=
  "List<" ++ item ++ ">"

/-- A type inside lists, as written. -/
def inLists (depth : Nat) (element : Text) : Text :=
  Text.repeated depth "List<" ++ element ++ Text.repeated depth ">"

namespace FieldType

theorem text_eq_inLists (t : FieldType) : t.text = inLists t.listDepth t.elementText := rfl

theorem text_layer (base : BaseType) (layer : Bool) (layers : List Bool) :
    text ⟨base, layer :: layers⟩ = listOf (text ⟨base, layers⟩) :=
  Text.repeated_around layers.length "List<" (elementText ⟨base, layers⟩) ">"

theorem listDepth_optional (t : FieldType) : t.optional.listDepth = t.listDepth := by
  obtain ⟨base, layers⟩ := t
  cases layers <;> rfl

theorem elementText_withElement (t : FieldType) (name : Text) :
    (t.withElement name).elementText = name :=
  List.append_nil name

end FieldType

/-- The reference without its outermost non-null wrapper, if it has one. -/
def TypeRef.nullable : TypeRef → TypeRef
  | nonNull t => t
  | t => t

namespace TypeContext

variable (c : TypeContext)

/-- Names and mappings do not change how many lists are around an element. -/
theorem listDepth_resolve (t : TypeRef) (hasDefault : Bool) :
    (c.resolve t hasDefault).listDepth = t.depth := by
  rw [resolve]
  split
  · rw [FieldType.listDepth_optional]
    exact t.length_layers
  · exact t.length_layers

theorem text_withElement (t : TypeRef) (hasDefault : Bool) (name : Text) :
    ((c.resolve t hasDefault).withElement name).text = inLists t.depth name := by
  rw [FieldType.text_eq_inLists, FieldType.elementText_withElement]
  exact congrArg (inLists · name) (c.listDepth_resolve t hasDefault)

/-- The C# type of a reference, wrapper by wrapper. -/
def written : TypeRef → Text
  | .named name => c.elementName name ++ (if c.isValueType name then "?" else "")
  | .list t => listOf (written t)
  | .nonNull (.named name) => c.elementName name
  | .nonNull t => written t

theorem text_element (name : Text) (required : Bool) :
    FieldType.text ⟨c.element name required, []⟩ =
      c.elementName name ++ (if c.isValueType name && !required then "?" else "") := by
  rw [element_eq]
  exact List.append_nil _

theorem text_eq_written {t : TypeRef} (h : t.Proper) : (c.resolve t).text = c.written t := by
  induction h with
  | named name =>
    have htext := c.text_element name false
    rw [Bool.not_false, Bool.and_true] at htext
    exact htext
  | list ht ih =>
    rw [written, ← ih]
    exact FieldType.text_layer _ _ _
  | nonNullNamed name =>
    have htext := c.text_element name true
    rw [Bool.not_true, Bool.and_false] at htext
    exact htext.trans (List.append_nil _)
  | nonNullList ht ih =>
    rw [written, written, ← ih]
    · exact FieldType.text_layer _ _ _
    · intro name hname
      cases hname

theorem resolve_default {t : TypeRef} (h : t.Proper) : c.resolve t true = c.resolve t.nullable := by
  cases h with
  | named name => exact congrArg (FieldType.mk · []) (c.element_optional name false)
  | list ht => rfl
  | nonNullNamed name => exact congrArg (FieldType.mk · []) (c.element_optional name true)
  | nonNullList ht => rfl

/-- **Types are written as they are wrapped.** A default is the same as leaving out the outermost
non-null wrapper, the text follows the wrappers, and an element that is replaced stands inside the
same lists. -/
theorem text_follows_wrappers {t : TypeRef} (h : t.Proper) :
    c.resolve t true = c.resolve t.nullable ∧
    (c.resolve t).text = c.written t ∧
    ∀ (name : Text) (hasDefault : Bool),
      ((c.resolve t hasDefault).withElement name).layers = (c.resolve t hasDefault).layers ∧
      ((c.resolve t hasDefault).withElement name).text = inLists t.depth name :=
  ⟨c.resolve_default h, c.text_eq_written h, fun name hasDefault =>
    ⟨rfl, c.text_withElement t hasDefault name⟩⟩

end TypeContext

theorem RolesSample.roles_written :
    context.resolve roles true = context.resolve (.list (.list (.named "role"))) ∧
    (context.resolve roles).text = "List<List<Role?>>" ∧
    ((context.resolve roles).withElement "Row").text = "List<List<Row>>" := by
  obtain ⟨hdefault, htext, helement⟩ := context.text_follows_wrappers roles_proper
  exact ⟨hdefault, htext, (helement "Row" false).2⟩

end SharpClient

import SharpClient.Document.Parser
import SharpClient.Proofs.Document.IndentedScan

/-!
# What readers do with the source

A reader is given the source of its lexemes, and uses it only to note down the places of directives
in a type system. The readers of operations and fragments note no places: what they give is
determined by the lexemes alone (`SourceFree`). Read from another source with the same lexemes, a
type system has its places in that source and is otherwise the same (`MovesWith`).

So the lexemes determine a document up to the source of its places
(`Document.toOption_parse_of_lexemes`).
-/

namespace SharpClient

namespace Reader

/-- The reader does not depend on the source. -/
def SourceFree {α : Type} (r : Reader α) : Prop :=
  ∀ s s' : Text, r s = r s'

variable {α β : Type}

namespace SourceFree

theorem pure (a : α) : SourceFree (Pure.pure a : Reader α) :=
  fun _ _ => rfl

theorem throw (e : ReadFault) : SourceFree (MonadExcept.throw e : Reader α) :=
  fun _ _ => rfl

theorem get : SourceFree (MonadState.get : Reader (List Lexeme)) :=
  fun _ _ => rfl

theorem bind {r : Reader α} {f : α → Reader β} (hr : SourceFree r)
    (hf : ∀ a, SourceFree (f a)) : SourceFree (r >>= f) := by
  intro s s'
  have hfun : (fun a => f a s) = fun a => f a s' := funext fun a => hf a s s'
  calc (r >>= f) s = (r s >>= fun a => f a s) := rfl
    _ = (r s' >>= fun a => f a s') := by rw [hr s s', hfun]
    _ = (r >>= f) s' := rfl

theorem map {r : Reader α} (hr : SourceFree r) (f : α → β) : SourceFree (f <$> r) := by
  intro s s'
  calc (f <$> r) s = f <$> r s := rfl
    _ = f <$> r s' := by rw [hr s s']
    _ = (f <$> r) s' := rfl

theorem ite {p : Prop} [Decidable p] {r r' : Reader α} (hr : SourceFree r)
    (hr' : SourceFree r') : SourceFree (if p then r else r') := by
  split
  · exact hr
  · exact hr'

end SourceFree

/-! ### Single lexemes -/

theorem sourceFree_left : SourceFree left := fun _ _ => rfl

theorem sourceFree_peek : SourceFree peek := by
  refine SourceFree.get.bind fun ls => ?_
  cases ls with
  | nil => exact .throw _
  | cons l ls => exact .pure l

theorem sourceFree_peekSecond : SourceFree peekSecond := by
  refine SourceFree.get.bind fun ls => ?_
  match ls with
  | [] | [_] => exact .throw _
  | _ :: l :: _ => exact .pure l

theorem sourceFree_advance : SourceFree advance := by
  refine SourceFree.get.bind fun ls => ?_
  match ls with
  | [] | [_] => exact .throw _
  | _ :: _ :: _ => exact fun _ _ => rfl

theorem sourceFree_fail (reason : Text) : SourceFree (fail reason : Reader α) :=
  sourceFree_left.bind fun _ => .throw _

theorem sourceFree_unexpected : SourceFree (unexpected : Reader α) :=
  sourceFree_peek.bind fun _ => sourceFree_fail _

theorem sourceFree_expected (what : Text) : SourceFree (expected what : Reader α) :=
  sourceFree_peek.bind fun _ => sourceFree_fail _

theorem sourceFree_punctuator (p : Punctuator) : SourceFree (punctuator p) :=
  sourceFree_peek.bind fun _ => .ite sourceFree_advance (sourceFree_expected _)

theorem sourceFree_accept (p : Punctuator) : SourceFree (accept p) :=
  sourceFree_peek.bind fun _ => .ite (sourceFree_advance.bind fun _ => .pure _) (.pure _)

theorem sourceFree_name : SourceFree name := by
  refine sourceFree_peek.bind fun l => ?_
  split
  · exact sourceFree_advance.bind fun _ => .pure _
  · exact sourceFree_expected _

theorem sourceFree_keyword (word : Text) : SourceFree (keyword word) :=
  sourceFree_peek.bind fun _ => .ite sourceFree_advance (sourceFree_expected _)

theorem sourceFree_acceptKeyword (word : Text) : SourceFree (acceptKeyword word) :=
  sourceFree_peek.bind fun _ => .ite (sourceFree_advance.bind fun _ => .pure _) (.pure _)

/-! ### Repetitions -/

theorem sourceFree_itemsUntil (close : Punctuator) {item : Reader α} (h : SourceFree item)
    (rounds : Nat) : SourceFree (itemsUntil close item rounds) := by
  induction rounds with
  | zero => exact .throw _
  | succ rounds ih =>
    exact (sourceFree_accept close).bind fun _ =>
      .ite (.pure _) (h.bind fun _ => ih.bind fun _ => .pure _)

theorem sourceFree_someUntil (close : Punctuator) {item : Reader α} (h : SourceFree item)
    (rounds : Nat) : SourceFree (someUntil close item rounds) := by
  induction rounds with
  | zero => exact .throw _
  | succ rounds ih =>
    exact h.bind fun _ => (sourceFree_accept close).bind fun _ =>
      .ite (.pure _) (ih.bind fun _ => .pure _)

theorem sourceFree_enclosed (opening close : Punctuator) {item : Reader α}
    (h : SourceFree item) : SourceFree (enclosed opening close item) :=
  (sourceFree_punctuator opening).bind fun _ =>
    sourceFree_left.bind fun rounds => sourceFree_itemsUntil close h rounds

theorem sourceFree_enclosedSome (opening close : Punctuator) {item : Reader α}
    (h : SourceFree item) : SourceFree (enclosedSome opening close item) :=
  (sourceFree_punctuator opening).bind fun _ =>
    sourceFree_left.bind fun rounds => sourceFree_someUntil close h rounds

theorem sourceFree_someBetween (delimiter : Punctuator) {item : Reader α} (h : SourceFree item)
    (rounds : Nat) : SourceFree (someBetween delimiter item rounds) := by
  induction rounds with
  | zero => exact .throw _
  | succ rounds ih =>
    exact h.bind fun _ => (sourceFree_accept delimiter).bind fun _ =>
      .ite (ih.bind fun _ => .pure _) (.pure _)

theorem sourceFree_delimited (delimiter : Punctuator) {item : Reader α} (h : SourceFree item) :
    SourceFree (delimited delimiter item) :=
  (sourceFree_accept delimiter).bind fun _ =>
    sourceFree_left.bind fun rounds => sourceFree_someBetween delimiter h rounds

theorem sourceFree_optionallyEnclosed (opening close : Punctuator) {item : Reader α}
    (h : SourceFree item) : SourceFree (optionallyEnclosed opening close item) :=
  (sourceFree_accept opening).bind fun _ =>
    .ite (sourceFree_left.bind fun rounds => sourceFree_someUntil close h rounds) (.pure _)

/-! ### Values and types -/

theorem sourceFree_variableName : SourceFree variableName :=
  (sourceFree_punctuator _).bind fun _ => sourceFree_name

theorem sourceFree_constantVariable : SourceFree constantVariable := by
  refine sourceFree_left.bind fun _ => (sourceFree_punctuator _).bind fun _ =>
    sourceFree_peek.bind fun l => ?_
  split
  · exact .throw _
  · exact .throw _

theorem sourceFree_plainValue (constant : Bool) : SourceFree (plainValue constant) := by
  refine sourceFree_peek.bind fun l => ?_
  split
  · exact .ite sourceFree_constantVariable (sourceFree_variableName.bind fun _ => .pure _)
  · exact sourceFree_advance.bind fun _ => .pure _
  · exact sourceFree_advance.bind fun _ => .pure _
  · exact sourceFree_advance.bind fun _ => .pure _
  · exact sourceFree_advance.bind fun _ => .pure _
  · exact sourceFree_advance.bind fun _ => .pure _
  · exact sourceFree_unexpected

theorem sourceFree_value (constant : Bool) (room : Nat) : SourceFree (value constant room) := by
  induction room with
  | zero =>
    refine sourceFree_peek.bind fun l => ?_
    split
    · exact sourceFree_fail _
    · exact sourceFree_fail _
    · exact sourceFree_plainValue constant
  | succ room ih =>
    refine sourceFree_peek.bind fun l => ?_
    split
    · exact (sourceFree_enclosed _ _ ih).bind fun _ => .pure _
    · refine (sourceFree_enclosed _ _ ?_).bind fun _ => .pure _
      exact sourceFree_name.bind fun _ => (sourceFree_punctuator _).bind fun _ =>
        ih.bind fun _ => .pure _
    · exact sourceFree_plainValue constant

theorem sourceFree_typeWithin (room : Nat) : SourceFree (typeWithin room) := by
  induction room with
  | zero =>
    exact (sourceFree_accept _).bind fun _ => .ite (sourceFree_fail _)
      (sourceFree_name.bind fun _ => (sourceFree_accept _).bind fun _ =>
        .ite (.pure _) (.pure _))
  | succ room ih =>
    have hcore : ∀ t : TypeRef, SourceFree (do
        if ← accept .bang then return .nonNull t else return t) :=
      fun _ => (sourceFree_accept _).bind fun _ => .ite (.pure _) (.pure _)
    refine (sourceFree_accept _).bind fun _ => .ite ?_ ((sourceFree_name.map _).bind hcore)
    exact ih.bind fun _ => (sourceFree_punctuator _).bind fun _ => (SourceFree.pure _).bind hcore

theorem sourceFree_default? : SourceFree default? :=
  (sourceFree_accept _).bind fun _ =>
    .ite ((sourceFree_value _ _).bind fun _ => .pure _) (.pure _)

theorem sourceFree_description? : SourceFree description? := by
  refine sourceFree_peek.bind fun l => ?_
  split
  · exact sourceFree_advance.bind fun _ => .pure _
  · exact sourceFree_advance.bind fun _ => .pure _
  · exact .pure _

/-! ### Arguments and directives -/

theorem sourceFree_argument (constant : Bool) (room : Nat) :
    SourceFree (argument constant room) :=
  sourceFree_name.bind fun _ => (sourceFree_punctuator _).bind fun _ =>
    (sourceFree_value constant room).bind fun _ => .pure _

theorem sourceFree_arguments (constant : Bool) (room : Nat) :
    SourceFree (arguments constant room) :=
  sourceFree_optionallyEnclosed _ _ (sourceFree_argument constant room)

theorem sourceFree_directive (constant : Bool) (room : Nat) :
    SourceFree (directive constant room) :=
  sourceFree_name.bind fun _ => (sourceFree_arguments constant room).bind fun _ => .pure _

/-- A directive that forgets where its sign stands makes no use of the place it is given. -/
theorem sourceFree_directivesWithin {item : Reader α} (h : SourceFree item) (rounds : Nat) :
    SourceFree (directivesWithin (fun _ => item) rounds) := by
  induction rounds with
  | zero => exact .throw _
  | succ rounds ih =>
    refine sourceFree_peek.bind fun _ => .ite ?_ (.pure _)
    have hrest : SourceFree (do
        advance
        let d ← item
        return d :: (← directivesWithin (fun _ => item) rounds)) :=
      sourceFree_advance.bind fun _ => h.bind fun _ => ih.bind fun _ => .pure _
    intro s s'
    exact hrest s s'

theorem sourceFree_directives (constant : Bool) (room : Nat) :
    SourceFree (directives constant room) :=
  sourceFree_left.bind fun _ => sourceFree_directivesWithin (sourceFree_directive constant room) _

/-! ### Selections -/

theorem sourceFree_fragmentName : SourceFree fragmentName :=
  sourceFree_peek.bind fun _ => .ite sourceFree_unexpected sourceFree_name

theorem sourceFree_field (room : Nat) {selectionSet : Reader (List Selection)}
    (h : SourceFree selectionSet) : SourceFree (field room selectionSet) := by
  have hrest : ∀ as fieldName, SourceFree (do
      let args ← arguments false room
      let dirs ← directives false room
      let sub ← if (← peek) = .punctuator .braceL then selectionSet else pure []
      return Selection.field as fieldName args dirs sub) := fun _ _ =>
    (sourceFree_arguments _ _).bind fun _ => (sourceFree_directives _ _).bind fun _ =>
      sourceFree_peek.bind fun _ =>
        .ite (h.bind fun _ => .pure _) ((SourceFree.pure _).bind fun _ => .pure _)
  refine sourceFree_name.bind fun _ => (sourceFree_accept _).bind fun _ => .ite ?_ ?_
  · exact sourceFree_name.bind fun _ => (SourceFree.pure _).bind fun _ => hrest _ _
  · exact (SourceFree.pure _).bind fun _ => hrest _ _

theorem sourceFree_fragmentSelection (room : Nat) {selectionSet : Reader (List Selection)}
    (h : SourceFree selectionSet) : SourceFree (fragmentSelection room selectionSet) := by
  refine (sourceFree_punctuator _).bind fun _ => (sourceFree_acceptKeyword _).bind fun _ =>
    .ite ?_ (sourceFree_peek.bind fun l => ?_)
  · exact sourceFree_name.bind fun _ => (sourceFree_directives _ _).bind fun _ =>
      h.bind fun _ => .pure _
  · split
    · exact sourceFree_fragmentName.bind fun _ => (sourceFree_directives _ _).bind fun _ => .pure _
    · exact (sourceFree_directives _ _).bind fun _ => h.bind fun _ => .pure _

theorem sourceFree_selection (room : Nat) {selectionSet : Reader (List Selection)}
    (h : SourceFree selectionSet) : SourceFree (selection room selectionSet) :=
  sourceFree_peek.bind fun _ =>
    .ite (sourceFree_fragmentSelection room h) (sourceFree_field room h)

theorem sourceFree_selectionSetWithin (room : Nat) : SourceFree (selectionSetWithin room) := by
  induction room with
  | zero => exact sourceFree_fail _
  | succ room ih => exact sourceFree_enclosedSome _ _ (sourceFree_selection room ih)

theorem sourceFree_selectionSet : SourceFree selectionSet :=
  sourceFree_selectionSetWithin _

/-! ### Operations and fragments -/

theorem sourceFree_operationKind : SourceFree operationKind := by
  refine sourceFree_left.bind fun _ => sourceFree_name.bind fun word => ?_
  split
  · exact .pure _
  · exact .throw _

theorem sourceFree_variableDefinition : SourceFree variableDefinition :=
  sourceFree_description?.bind fun _ => sourceFree_variableName.bind fun _ =>
    (sourceFree_punctuator _).bind fun _ => (sourceFree_typeWithin _).bind fun _ =>
      sourceFree_default?.bind fun _ => (sourceFree_directives _ _).bind fun _ => .pure _

theorem sourceFree_shorthandQuery : SourceFree shorthandQuery :=
  sourceFree_selectionSet.bind fun _ => .pure _

theorem sourceFree_operation : SourceFree operation := by
  have hrest : ∀ description kind n, SourceFree (do
      let variableDefinitions ← optionallyEnclosed .parenL .parenR variableDefinition
      let dirs ← directives false nestingLimit
      return Operation.mk description kind n variableDefinitions dirs (← selectionSet)) :=
    fun _ _ _ => (sourceFree_optionallyEnclosed _ _ sourceFree_variableDefinition).bind fun _ =>
      (sourceFree_directives _ _).bind fun _ => sourceFree_selectionSet.bind fun _ => .pure _
  refine sourceFree_description?.bind fun _ => sourceFree_operationKind.bind fun _ =>
    sourceFree_peek.bind fun l => ?_
  dsimp only
  split
  · exact (sourceFree_name.map _).bind fun _ => hrest _ _ _
  · exact (SourceFree.pure _).bind fun _ => hrest _ _ _

theorem sourceFree_fragment : SourceFree fragment :=
  sourceFree_description?.bind fun _ => (sourceFree_keyword _).bind fun _ =>
    sourceFree_fragmentName.bind fun _ => (sourceFree_keyword _).bind fun _ =>
      sourceFree_name.bind fun _ => (sourceFree_directives _ _).bind fun _ =>
        sourceFree_selectionSet.bind fun _ => .pure _

end Reader

/-! ### Places -/

/-- The place of the same lexeme in another source. -/
def Place.inSource (source : Text) (p : Place) : Place :=
  { p with source }

/-- The directive with its places in another source. -/
def PlacedDirective.inSource (source : Text) (d : PlacedDirective) : PlacedDirective :=
  ⟨d.directive, d.place.inSource source, d.valuePlaces.map (·.inSource source)⟩

/-- The argument or input field with its places in another source. -/
def InputValue.inSource (source : Text) (v : InputValue) : InputValue :=
  { v with directives := v.directives.map (·.inSource source) }

/-- The field with its places in another source. -/
def FieldDefinition.inSource (source : Text) (f : FieldDefinition) : FieldDefinition :=
  { f with
    arguments := f.arguments.map (·.inSource source)
    directives := f.directives.map (·.inSource source) }

/-- The enum value with its places in another source. -/
def EnumValue.inSource (source : Text) (v : EnumValue) : EnumValue :=
  { v with directives := v.directives.map (·.inSource source) }

/-- The parts of a type with their places in another source. -/
def TypeBody.inSource (source : Text) : TypeBody → TypeBody
  | scalar => scalar
  | object interfaces fields => object interfaces (fields.map (·.inSource source))
  | interface interfaces fields => interface interfaces (fields.map (·.inSource source))
  | union members => union members
  | enum values => enum (values.map (·.inSource source))
  | input fields => input (fields.map (·.inSource source))

/-- The type with its places in another source. -/
def TypeDefinition.inSource (source : Text) (t : TypeDefinition) : TypeDefinition :=
  ⟨t.name, t.body.inSource source, t.directives.map (·.inSource source)⟩

/-- The definition of a directive with its places in another source. -/
def DirectiveDefinition.inSource (source : Text) (d : DirectiveDefinition) : DirectiveDefinition :=
  { d with arguments := d.arguments.map (·.inSource source) }

/-- The schema with its places in another source. -/
def SchemaDefinition.inSource (source : Text) (d : SchemaDefinition) : SchemaDefinition :=
  { d with directives := d.directives.map (·.inSource source) }

/-- The definition with its places in another source. Operations and fragments have none. -/
def Definition.inSource (source : Text) : Definition → Definition
  | operation o => operation o
  | fragment f => fragment f
  | schema d => schema (d.inSource source)
  | schemaExtension d => schemaExtension (d.inSource source)
  | type t => type (t.inSource source)
  | typeExtension t => typeExtension (t.inSource source)
  | directive d => directive (d.inSource source)

/-- The document with its places in another source. -/
def Document.inSource (source : Text) (d : Document) : Document :=
  ⟨d.definitions.map (·.inSource source)⟩

namespace Reader

/-- Read from another source, the reader gives the same with its places changed by `σ`. -/
def MovesWith {α : Type} (σ : Text → α → α) (r : Reader α) : Prop :=
  ∀ s s' : Text, r s' = σ s' <$> r s

namespace MovesWith

variable {α γ : Type} {σ : Text → α → α} {τ : Text → γ → γ}

section

variable {s s' : Text} {move : γ → γ}

/-- A chain of two steps, the second of which may use what the first one gave. -/
theorem bind_at {carry : α → α} {r r' : Reader α} {f f' : α → Reader γ}
    (hr : r' s' = carry <$> r s) (hf : ∀ a, f' (carry a) s' = move <$> f a s) :
    (r' >>= f') s' = move <$> (r >>= f) s := by
  calc (r' >>= f') s' = r' s' >>= fun a => f' a s' := rfl
    _ = (carry <$> r s) >>= fun a => f' a s' := by rw [hr]
    _ = r s >>= fun a => f' (carry a) s' := bind_map_left _ _ _
    _ = r s >>= fun a => move <$> f a s := by simp only [hf]
    _ = move <$> (r >>= f) s := (map_bind _ _ _).symm

/-- A chain whose first step notes no places. -/
theorem bind_free_at {r : Reader α} {f f' : α → Reader γ} (hr : SourceFree r)
    (hf : ∀ a, f' a s' = move <$> f a s) : (r >>= f') s' = move <$> (r >>= f) s := by
  have hid : r s' = id <$> r s := by rw [id_map, hr s' s]
  exact bind_at hid hf

/-- A last step followed by what is made of it. -/
theorem bind_pure_at {r : Reader α} {g g' : α → γ} (hr : MovesWith σ r)
    (hg : ∀ a, g' (σ s' a) = move (g a)) :
    (r >>= fun a => pure (g' a)) s' = move <$> (r >>= fun a => pure (g a)) s := by
  refine bind_at (hr s s') fun a => ?_
  rw [hg]
  rfl

end

theorem bind {r : Reader α} {f : α → Reader γ} (hr : MovesWith σ r)
    (hf : ∀ s s' a, f (σ s' a) s' = τ s' <$> f a s) : MovesWith τ (r >>= f) :=
  fun s s' => bind_at (hr s s') (hf s s')

theorem bind_free {r : Reader α} {f : α → Reader γ} (hr : SourceFree r)
    (hf : ∀ a, MovesWith τ (f a)) : MovesWith τ (r >>= f) :=
  fun s s' => bind_free_at hr fun a => hf a s s'

theorem bind_pure {r : Reader α} {g : α → γ} (hr : MovesWith σ r)
    (hg : ∀ s a, g (σ s a) = τ s (g a)) : MovesWith τ (r >>= fun a => pure (g a)) :=
  fun _ s' => hr.bind_pure_at (hg s')

theorem throw (e : ReadFault) : MovesWith σ (MonadExcept.throw e) :=
  fun _ _ => rfl

theorem ite {p : Prop} [Decidable p] {r r' : Reader α} (hr : MovesWith σ r)
    (hr' : MovesWith σ r') : MovesWith σ (if p then r else r') := by
  split
  · exact hr
  · exact hr'

end MovesWith

variable {α : Type} {σ : Text → α → α}

/-! ### Repetitions of what has places -/

theorem movesWith_someUntil (close : Punctuator) {item : Reader α} (h : MovesWith σ item)
    (rounds : Nat) : MovesWith (fun s => List.map (σ s)) (someUntil close item rounds) := by
  induction rounds with
  | zero => exact .throw _
  | succ rounds ih =>
    refine h.bind fun s s' x => MovesWith.bind_free_at (sourceFree_accept close) fun b => ?_
    cases b with
    | true => rfl
    | false => exact ih.bind_pure_at fun _ => rfl

theorem movesWith_optionallyEnclosed (opening close : Punctuator) {item : Reader α}
    (h : MovesWith σ item) :
    MovesWith (fun s => List.map (σ s)) (optionallyEnclosed opening close item) := by
  refine .bind_free (sourceFree_accept opening) fun _ => .ite ?_ fun _ _ => rfl
  exact .bind_free sourceFree_left fun rounds => movesWith_someUntil close h rounds

theorem movesWith_place : MovesWith Place.inSource place :=
  fun _ _ => rfl

/-- Each directive is given the place of its sign. -/
theorem movesWith_directivesWithin {item : Place → Reader α}
    (h : ∀ s s' p, item (p.inSource s') s' = σ s' <$> item p s) (rounds : Nat) :
    MovesWith (fun s => List.map (σ s)) (directivesWithin item rounds) := by
  induction rounds with
  | zero => exact .throw _
  | succ rounds ih =>
    refine .bind_free sourceFree_peek fun _ => .ite ?_ fun _ _ => rfl
    refine .bind movesWith_place fun s s' p => MovesWith.bind_free_at sourceFree_advance fun _ => ?_
    exact MovesWith.bind_at (h s s' p) fun d => ih.bind_pure_at fun ds => rfl

/-! ### Type systems -/

theorem movesWith_placedDirectives :
    MovesWith (fun s => List.map (PlacedDirective.inSource s)) placedDirectives := by
  have hargument : MovesWith (fun s p => (p.1, p.2.inSource s)) placedArgument := by
    refine .bind_free sourceFree_name fun _ => .bind_free (sourceFree_punctuator _) fun _ => ?_
    refine .bind movesWith_place fun s s' p => MovesWith.bind_free_at (sourceFree_value _ _) ?_
    exact fun _ => rfl
  refine .bind_free sourceFree_left fun _ => movesWith_directivesWithin (fun s s' p => ?_) _
  refine MovesWith.bind_free_at sourceFree_name fun n => ?_
  refine (movesWith_optionallyEnclosed _ _ hargument).bind_pure_at fun as => ?_
  simp [PlacedDirective.inSource, Function.comp_def]

theorem movesWith_inputValue : MovesWith InputValue.inSource inputValue := by
  refine .bind_free sourceFree_description? fun _ => .bind_free sourceFree_name fun _ => ?_
  refine .bind_free (sourceFree_punctuator _) fun _ => .bind_free (sourceFree_typeWithin _) ?_
  refine fun _ => .bind_free sourceFree_default? fun _ => ?_
  exact .bind_pure movesWith_placedDirectives fun _ _ => rfl

theorem movesWith_argumentDefinitions :
    MovesWith (fun s => List.map (InputValue.inSource s)) argumentDefinitions :=
  movesWith_optionallyEnclosed _ _ movesWith_inputValue

theorem movesWith_fieldDefinition : MovesWith FieldDefinition.inSource fieldDefinition := by
  refine .bind_free sourceFree_description? fun _ => .bind_free sourceFree_name fun _ => ?_
  refine .bind movesWith_argumentDefinitions fun s s' args => ?_
  refine MovesWith.bind_free_at (sourceFree_punctuator _) fun _ => ?_
  refine MovesWith.bind_free_at (sourceFree_typeWithin _) fun _ => ?_
  exact MovesWith.bind_pure_at movesWith_placedDirectives fun _ => rfl

theorem movesWith_fieldDefinitions :
    MovesWith (fun s => List.map (FieldDefinition.inSource s)) fieldDefinitions :=
  movesWith_optionallyEnclosed _ _ movesWith_fieldDefinition

theorem sourceFree_interfaces : SourceFree interfaces :=
  (sourceFree_acceptKeyword _).bind fun _ =>
    .ite (sourceFree_delimited _ sourceFree_name) (.pure _)

theorem movesWith_enumValue : MovesWith EnumValue.inSource enumValue := by
  refine .bind_free sourceFree_description? fun _ => .bind_free sourceFree_peek fun _ => .ite ?_ ?_
  · exact .bind_free sourceFree_left fun _ => .throw _
  · exact .bind_free sourceFree_name fun _ => .bind_pure movesWith_placedDirectives fun _ _ => rfl

theorem sourceFree_rootType : SourceFree rootType :=
  sourceFree_operationKind.bind fun _ => (sourceFree_punctuator _).bind fun _ =>
    sourceFree_name.bind fun _ => .pure _

theorem movesWith_scalarType : MovesWith TypeDefinition.inSource scalarType :=
  .bind_free sourceFree_name fun _ => .bind_pure movesWith_placedDirectives fun _ _ => rfl

theorem movesWith_objectType : MovesWith TypeDefinition.inSource objectType := by
  refine .bind_free sourceFree_name fun _ => .bind_free sourceFree_interfaces fun _ => ?_
  refine .bind movesWith_placedDirectives fun s s' dirs => ?_
  exact MovesWith.bind_pure_at movesWith_fieldDefinitions fun _ => rfl

theorem movesWith_interfaceType : MovesWith TypeDefinition.inSource interfaceType := by
  refine .bind_free sourceFree_name fun _ => .bind_free sourceFree_interfaces fun _ => ?_
  refine .bind movesWith_placedDirectives fun s s' dirs => ?_
  exact MovesWith.bind_pure_at movesWith_fieldDefinitions fun _ => rfl

theorem movesWith_unionType : MovesWith TypeDefinition.inSource unionType := by
  refine .bind_free sourceFree_name fun _ => .bind movesWith_placedDirectives fun s s' dirs => ?_
  refine MovesWith.bind_free_at (sourceFree_accept _) fun b => ?_
  cases b with
  | true =>
    exact MovesWith.bind_free_at (sourceFree_delimited _ sourceFree_name) fun _ => rfl
  | false => rfl

theorem movesWith_enumType : MovesWith TypeDefinition.inSource enumType := by
  refine .bind_free sourceFree_name fun _ => .bind movesWith_placedDirectives fun s s' dirs => ?_
  exact (movesWith_optionallyEnclosed _ _ movesWith_enumValue).bind_pure_at fun _ => rfl

theorem movesWith_inputType : MovesWith TypeDefinition.inSource inputType := by
  refine .bind_free sourceFree_name fun _ => .bind movesWith_placedDirectives fun s s' dirs => ?_
  exact (movesWith_optionallyEnclosed _ _ movesWith_inputValue).bind_pure_at fun _ => rfl

theorem movesWith_of_typeDefinitions {word : Text} {body : Reader TypeDefinition}
    (h : typeDefinitions.lookup word = some body) : MovesWith TypeDefinition.inSource body := by
  obtain ⟨before, after, heq, -⟩ := List.lookup_eq_some_iff.1 h
  have hmem : (word, body) ∈ typeDefinitions := by simp [heq]
  simp only [typeDefinitions, List.mem_cons, Prod.mk.injEq, List.not_mem_nil, or_false] at hmem
  rcases hmem with ⟨-, rfl⟩ | ⟨-, rfl⟩ | ⟨-, rfl⟩ | ⟨-, rfl⟩ | ⟨-, rfl⟩ | ⟨-, rfl⟩
  · exact movesWith_scalarType
  · exact movesWith_objectType
  · exact movesWith_interfaceType
  · exact movesWith_unionType
  · exact movesWith_enumType
  · exact movesWith_inputType

theorem sourceFree_directiveLocation : SourceFree directiveLocation := by
  refine sourceFree_left.bind fun _ => sourceFree_name.bind fun word => ?_
  split
  · exact .pure _
  · exact .throw _

theorem movesWith_directiveDefinition :
    MovesWith DirectiveDefinition.inSource directiveDefinition := by
  refine .bind_free (sourceFree_punctuator _) fun _ => .bind_free sourceFree_name fun _ => ?_
  refine .bind movesWith_argumentDefinitions fun s s' args => ?_
  refine MovesWith.bind_free_at (sourceFree_acceptKeyword _) fun _ => ?_
  refine MovesWith.bind_free_at (sourceFree_keyword _) fun _ => ?_
  exact MovesWith.bind_free_at (sourceFree_delimited _ sourceFree_directiveLocation) fun _ => rfl

theorem movesWith_schemaDefinition : MovesWith SchemaDefinition.inSource schemaDefinition := by
  refine .bind movesWith_placedDirectives fun s s' dirs => ?_
  exact MovesWith.bind_free_at (sourceFree_enclosedSome _ _ sourceFree_rootType) fun _ => rfl

theorem movesWith_unexpected {σ : Text → α → α} : MovesWith σ unexpected :=
  .bind_free sourceFree_peek fun _ => .bind_free sourceFree_left fun _ => .throw _

theorem movesWith_schemaExtension : MovesWith SchemaDefinition.inSource schemaExtension := by
  refine .bind movesWith_placedDirectives fun s s' dirs => ?_
  refine MovesWith.bind_free_at (sourceFree_optionallyEnclosed _ _ sourceFree_rootType) ?_
  intro roots
  rw [List.isEmpty_map]
  split
  · exact movesWith_unexpected s s'
  · rfl

/-- Whether an extension adds something has nothing to do with places. -/
theorem addsNothing_inSource (source : Text) (t : TypeDefinition) :
    addsNothing (t.inSource source) = addsNothing t := by
  obtain ⟨name, body, directives⟩ := t
  cases body <;> simp [addsNothing, TypeDefinition.inSource, TypeBody.inSource]

theorem movesWith_unexpectedSecond {σ : Text → α → α} : MovesWith σ unexpectedSecond :=
  .bind_free sourceFree_peekSecond fun _ => .bind_free sourceFree_left fun _ => .throw _

theorem movesWith_extension : MovesWith Definition.inSource extension := by
  refine .bind_free sourceFree_peekSecond fun l => ?_
  split
  · refine .ite ?_ ?_
    · refine .bind_free sourceFree_advance fun _ => .bind_free sourceFree_advance fun _ => ?_
      exact .bind_pure movesWith_schemaExtension fun _ _ => rfl
    · split
      · rename_i body hbody
        refine .bind_free sourceFree_advance fun _ => .bind_free sourceFree_advance fun _ => ?_
        refine (movesWith_of_typeDefinitions hbody).bind fun s s' t => ?_
        rw [addsNothing_inSource]
        split
        · exact movesWith_unexpected s s'
        · rfl
      · exact movesWith_unexpectedSecond
  · exact movesWith_unexpectedSecond

theorem movesWith_of_typeSystemDefinition? {word : Text} {body : Reader Definition}
    (h : typeSystemDefinition? word = some body) : MovesWith Definition.inSource body := by
  unfold typeSystemDefinition? at h
  split at h
  · cases h
    exact .bind_pure movesWith_schemaDefinition fun _ _ => rfl
  · split at h
    · cases h
      exact .bind_pure movesWith_directiveDefinition fun _ _ => rfl
    · obtain ⟨r, hr, rfl⟩ := Option.map_eq_some_iff.1 h
      exact (movesWith_of_typeDefinitions hr).bind_pure fun _ _ => rfl

/-! ### Documents -/

theorem movesWith_fail {σ : Text → α → α} (reason : Text) : MovesWith σ (fail reason) :=
  .bind_free sourceFree_left fun _ => .throw _

theorem movesWith_keywordDefinition (described : Bool) (word : Text) :
    MovesWith Definition.inSource (keywordDefinition described word) := by
  unfold keywordDefinition
  split
  · rename_i body hbody
    exact .bind_free sourceFree_description? fun _ => .bind_free sourceFree_advance fun _ =>
      movesWith_of_typeSystemDefinition? hbody
  · refine .ite ?_ (.ite ?_ (.ite (movesWith_fail _) (.ite movesWith_extension ?_)))
    · exact .bind_free sourceFree_operation fun _ _ _ => rfl
    · exact .bind_free sourceFree_fragment fun _ _ _ => rfl
    · exact movesWith_unexpected

theorem movesWith_definition : MovesWith Definition.inSource definition := by
  refine .bind_free sourceFree_peek fun l => ?_
  split
  case h_1 => exact .bind_free sourceFree_shorthandQuery fun _ _ _ => rfl
  case h_2 => exact movesWith_keywordDefinition _ _
  case h_3 | h_4 =>
    -- A description, of either kind of string: the lexeme behind it decides.
    refine .bind_free sourceFree_peekSecond fun l => ?_
    split
    · exact movesWith_fail _
    · exact movesWith_keywordDefinition _ _
    · exact movesWith_unexpectedSecond
  case h_5 => exact movesWith_unexpected

/-- Definition after definition. -/
theorem movesWith_definitionsWithin (rounds : Nat) :
    MovesWith (fun s => List.map (Definition.inSource s)) (definitionsWithin rounds) := by
  induction rounds with
  | zero => exact .throw _
  | succ rounds ih =>
    refine .bind movesWith_definition fun s s' d => ?_
    refine MovesWith.bind_free_at sourceFree_peek fun next => ?_
    split
    · rfl
    · exact ih.bind_pure_at fun _ => rfl

theorem movesWith_document : MovesWith Document.inSource document :=
  .bind_free sourceFree_left fun _ =>
    (movesWith_definitionsWithin _).bind_pure fun _ _ => rfl

theorem toOption_run (r : Reader α) (source : Text) :
    (r.run source).toOption =
      (r source ((Scan.ofText source).lexemes.map (·.1))).toOption.map (·.1) := by
  have hrun : ∀ ls, (ReaderT.run r source).run ls = r source ls := fun _ => rfl
  simp only [run, hrun]
  split
  · rename_i heq
    rw [heq]
    rfl
  · rename_i heq
    rw [heq]
    rfl
  · rename_i heq
    rw [heq]
    split <;> rfl

end Reader

/-- Two sources with the same lexemes hold the same document, or both hold none. Only the places in
a type system are in the one or the other source. -/
theorem Document.toOption_parse_of_lexemes {source source' : Text}
    (h : (Scan.ofText source').lexemes.map (·.1) = (Scan.ofText source).lexemes.map (·.1)) :
    (parse source').toOption = (parse source).toOption.map (inSource source') := by
  rw [parse, parse, Reader.toOption_run, Reader.toOption_run, h,
    Reader.movesWith_document source source']
  generalize (Scan.ofText source).lexemes.map (·.1) = ls
  have hmap : (inSource source' <$> Reader.document source) ls =
      Reader.document source ls >>= fun p => pure (inSource source' p.1, p.2) := rfl
  rw [hmap]
  cases Reader.document source ls with
  | error e => rfl
  | ok p => rfl

end SharpClient

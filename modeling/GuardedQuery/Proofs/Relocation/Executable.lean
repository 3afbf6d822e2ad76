import GuardedQuery.Executable.Visit
import GuardedQuery.Proofs.Relocation.Basic

/-! # Moving executable documents

What a document says can be moved with its tokens, and its visits are moved with it.

- `Executable.relocate` and the like: everything at the places that a relocation gives.
- `Definition.forget_relocate`: what is moved says the same.
- `Executable.visits_of_definitions`: the visits of what is moved.
-/

namespace GuardedQuery

variable (r s : Relocation)

/-! ## Parts -/

def Variable.relocate (target : Variable) : Variable :=
  ⟨r.range target.range, target.name.relocate r⟩

mutual

def Value.relocate : Value → Value
  | .reference target => .reference (target.relocate r)
  | .scalar range rule text => .scalar (r.range range) rule text
  | .list range items => .list (r.range range) (Value.relocateAll items)
  | .object range fields => .object (r.range range) (ObjectField.relocateAll fields)

def Value.relocateAll : List Value → List Value
  | [] => []
  | value :: rest => value.relocate :: Value.relocateAll rest

def ObjectField.relocate : ObjectField → ObjectField
  | .mk name value => .mk (name.relocate r) value.relocate

def ObjectField.relocateAll : List ObjectField → List ObjectField
  | [] => []
  | field :: rest => field.relocate :: ObjectField.relocateAll rest

end

def Argument.relocate (argument : Argument) : Argument :=
  ⟨argument.name.relocate r, argument.value.relocate r⟩

def Directive.relocate (directive : Directive) : Directive :=
  ⟨directive.name.relocate r, directive.arguments.map (·.map (Argument.relocate r))⟩

def VariableDefinition.relocate (definition : VariableDefinition) : VariableDefinition where
  range := r.range definition.range
  target := definition.target.relocate r
  default := definition.default.map (Value.relocate r)
  directives := definition.directives.map (·.map (Directive.relocate r))

def Field.relocate (field : Field) : Field where
  range := r.range field.range
  label := field.label.map (Token.relocate r)
  name := field.name.relocate r
  arguments := field.arguments.map (·.map (Argument.relocate r))
  directives := field.directives.map (·.map (Directive.relocate r))

def FragmentSpread.relocate (spread : FragmentSpread) : FragmentSpread where
  range := r.range spread.range
  name := spread.name.relocate r
  directives := spread.directives.map (·.map (Directive.relocate r))

def InlineFragment.relocate (inline : InlineFragment) : InlineFragment where
  range := r.range inline.range
  typeName := inline.typeName.map (Token.relocate r)
  directives := inline.directives.map (·.map (Directive.relocate r))

mutual

def Selection.relocate : Selection → Selection
  | .field f none => .field (f.relocate r) none
  | .field f (some set) => .field (f.relocate r) (some set.relocate)
  | .spread s => .spread (s.relocate r)
  | .inline i set => .inline (i.relocate r) set.relocate

def SelectionSet.relocate : SelectionSet → SelectionSet
  | .mk range selections => .mk (r.range range) (Selection.relocateAll selections)

def Selection.relocateAll : List Selection → List Selection
  | [] => []
  | selection :: rest => selection.relocate :: Selection.relocateAll rest

end

def Operation.relocate (operation : Operation) : Operation where
  range := r.range operation.range
  head := operation.head.relocate r
  keyword := operation.keyword.map (Token.relocate r)
  name := operation.name.map (Token.relocate r)
  variableDefinitions := operation.variableDefinitions.map (·.map (VariableDefinition.relocate r))
  directives := operation.directives.map (·.map (Directive.relocate r))
  set := operation.set.relocate r

def Fragment.relocate (fragment : Fragment) : Fragment where
  range := r.range fragment.range
  name := fragment.name.relocate r
  typeName := fragment.typeName.relocate r
  directives := fragment.directives.map (·.map (Directive.relocate r))
  set := fragment.set.relocate r

def Definition.relocate : Definition → Definition
  | .operation o => .operation (o.relocate r)
  | .fragment f => .fragment (f.relocate r)

def Executable.relocate (doc : Executable) : Executable where
  range := r.range doc.range
  definitions := doc.definitions.map (Definition.relocate r)

/-! ## One move after another -/

@[simp] theorem Relocation.range_range (range : ByteRange) :
    s.range (r.range range) = (s.comp r).range range := rfl

@[simp] theorem Token.relocate_relocate (token : Token) :
    (token.relocate r).relocate s = token.relocate (s.comp r) := rfl

@[simp] theorem Variable.relocate_relocate (target : Variable) :
    (target.relocate r).relocate s = target.relocate (s.comp r) := rfl

mutual

@[simp] theorem Value.relocate_relocate : ∀ value : Value,
    (value.relocate r).relocate s = value.relocate (s.comp r)
  | .reference _ => rfl
  | .scalar .. => rfl
  | .list _ items => by
    simp [Value.relocate, Value.relocateAll_relocateAll items]
  | .object _ fields => by
    simp [Value.relocate, ObjectField.relocateAll_relocateAll fields]

theorem Value.relocateAll_relocateAll : ∀ values : List Value,
    Value.relocateAll s (Value.relocateAll r values) = Value.relocateAll (s.comp r) values
  | [] => rfl
  | value :: rest => by
    simp [Value.relocateAll, Value.relocate_relocate value, Value.relocateAll_relocateAll rest]

theorem ObjectField.relocate_relocate : ∀ field : ObjectField,
    (field.relocate r).relocate s = field.relocate (s.comp r)
  | .mk _ value => by
    simp [ObjectField.relocate, Value.relocate_relocate value]

theorem ObjectField.relocateAll_relocateAll : ∀ fields : List ObjectField,
    ObjectField.relocateAll s (ObjectField.relocateAll r fields) =
      ObjectField.relocateAll (s.comp r) fields
  | [] => rfl
  | field :: rest => by
    simp [ObjectField.relocateAll, ObjectField.relocate_relocate field,
      ObjectField.relocateAll_relocateAll rest]

end

@[simp] theorem Argument.relocate_relocate (argument : Argument) :
    (argument.relocate r).relocate s = argument.relocate (s.comp r) := by
  simp [Argument.relocate]

@[simp] theorem Directive.relocate_relocate (directive : Directive) :
    (directive.relocate r).relocate s = directive.relocate (s.comp r) := by
  simp [Directive.relocate, Function.comp_def]

@[simp] theorem VariableDefinition.relocate_relocate (definition : VariableDefinition) :
    (definition.relocate r).relocate s = definition.relocate (s.comp r) := by
  simp [VariableDefinition.relocate, Function.comp_def]

@[simp] theorem Field.relocate_relocate (field : Field) :
    (field.relocate r).relocate s = field.relocate (s.comp r) := by
  simp [Field.relocate, Function.comp_def]

@[simp] theorem FragmentSpread.relocate_relocate (spread : FragmentSpread) :
    (spread.relocate r).relocate s = spread.relocate (s.comp r) := by
  simp [FragmentSpread.relocate, Function.comp_def]

@[simp] theorem InlineFragment.relocate_relocate (inline : InlineFragment) :
    (inline.relocate r).relocate s = inline.relocate (s.comp r) := by
  simp [InlineFragment.relocate, Function.comp_def]

mutual

theorem Selection.relocate_relocate : ∀ selection : Selection,
    (selection.relocate r).relocate s = selection.relocate (s.comp r)
  | .field _ none => by simp [Selection.relocate]
  | .field _ (some set) => by simp [Selection.relocate, SelectionSet.relocate_relocate set]
  | .spread _ => by simp [Selection.relocate]
  | .inline _ set => by simp [Selection.relocate, SelectionSet.relocate_relocate set]

@[simp] theorem SelectionSet.relocate_relocate : ∀ set : SelectionSet,
    (set.relocate r).relocate s = set.relocate (s.comp r)
  | .mk _ selections => by
    simp [SelectionSet.relocate, Selection.relocateAll_relocateAll selections]

theorem Selection.relocateAll_relocateAll : ∀ selections : List Selection,
    Selection.relocateAll s (Selection.relocateAll r selections) =
      Selection.relocateAll (s.comp r) selections
  | [] => rfl
  | selection :: rest => by
    simp [Selection.relocateAll, Selection.relocate_relocate selection,
      Selection.relocateAll_relocateAll rest]

end

@[simp] theorem Operation.relocate_relocate (operation : Operation) :
    (operation.relocate r).relocate s = operation.relocate (s.comp r) := by
  simp [Operation.relocate, Function.comp_def]

@[simp] theorem Fragment.relocate_relocate (fragment : Fragment) :
    (fragment.relocate r).relocate s = fragment.relocate (s.comp r) := by
  simp [Fragment.relocate, Function.comp_def]

@[simp] theorem Definition.relocate_relocate (definition : Definition) :
    (definition.relocate r).relocate s = definition.relocate (s.comp r) := by
  cases definition <;> simp [Definition.relocate]

/-- What is moved says the same as before. -/
theorem Definition.forget_relocate (definition : Definition) :
    (definition.relocate r).relocate .forget = definition.relocate .forget :=
  definition.relocate_relocate r .forget

/-! ## Visits -/

def Visit.relocate (whole : ByteRange) : Visit → Visit
  | document doc => document ⟨whole, doc.definitions.map (Definition.relocate r)⟩
  | operation o => operation (o.relocate r)
  | fragment f => fragment (f.relocate r)
  | variableDefinition d => variableDefinition (d.relocate r)
  | selectionSet range => selectionSet (r.range range)
  | field f => field (f.relocate r)
  | spread s => spread (s.relocate r)
  | inline i => inline (i.relocate r)
  | value range => value (r.range range)
  | use target => use (target.relocate r)

variable (whole : ByteRange)

mutual

theorem Value.pushVisits_relocate (visits : List Visit) : ∀ value : Value,
    (value.relocate r).pushVisits (visits.map (Visit.relocate r whole)) =
      (value.pushVisits visits).map (Visit.relocate r whole)
  | .reference _ => rfl
  | .scalar .. => rfl
  | .list range items => by
    simpa [Value.relocate, Value.pushVisits, Visit.relocate] using
      Value.pushAllVisits_relocate (.value range :: visits) items
  | .object range fields => by
    simpa [Value.relocate, Value.pushVisits, Visit.relocate] using
      ObjectField.pushAllVisits_relocate (.value range :: visits) fields

theorem Value.pushAllVisits_relocate (visits : List Visit) : ∀ values : List Value,
    Value.pushAllVisits (visits.map (Visit.relocate r whole)) (Value.relocateAll r values) =
      (Value.pushAllVisits visits values).map (Visit.relocate r whole)
  | [] => rfl
  | value :: rest => by
    simp only [Value.relocateAll, Value.pushAllVisits, Value.pushVisits_relocate visits value,
      Value.pushAllVisits_relocate _ rest]

theorem ObjectField.pushVisits_relocate (visits : List Visit) : ∀ field : ObjectField,
    (field.relocate r).pushVisits (visits.map (Visit.relocate r whole)) =
      (field.pushVisits visits).map (Visit.relocate r whole)
  | .mk _ value => Value.pushVisits_relocate visits value

theorem ObjectField.pushAllVisits_relocate (visits : List Visit) : ∀ fields : List ObjectField,
    ObjectField.pushAllVisits (visits.map (Visit.relocate r whole)) (ObjectField.relocateAll r fields) =
      (ObjectField.pushAllVisits visits fields).map (Visit.relocate r whole)
  | [] => rfl
  | field :: rest => by
    simp only [ObjectField.relocateAll, ObjectField.pushAllVisits,
      ObjectField.pushVisits_relocate visits field, ObjectField.pushAllVisits_relocate _ rest]

end

/-- A fold that pushes the visits of moved parts pushes moved visits. -/
theorem foldl_pushVisits_relocate {α β : Type} {move : α → β} {push : List Visit → β → List Visit}
    {push' : List Visit → α → List Visit}
    (h : ∀ visits part, push (visits.map (Visit.relocate r whole)) (move part) =
      (push' visits part).map (Visit.relocate r whole))
    (visits : List Visit) (parts : List α) :
    (parts.map move).foldl push (visits.map (Visit.relocate r whole)) =
      (parts.foldl push' visits).map (Visit.relocate r whole) := by
  induction parts generalizing visits with
  | nil => rfl
  | cons part parts ih => rw [List.map_cons, List.foldl_cons, h, ih, List.foldl_cons]

theorem Argument.pushVisits_relocate (visits : List Visit) (arguments : Option (List Argument)) :
    Argument.pushVisits (visits.map (Visit.relocate r whole))
        (arguments.map (·.map (Argument.relocate r))) =
      (Argument.pushVisits visits arguments).map (Visit.relocate r whole) := by
  cases arguments with
  | none => rfl
  | some arguments =>
    exact foldl_pushVisits_relocate r whole
      (fun visits argument => argument.value.pushVisits_relocate r whole visits) visits arguments

theorem Directive.pushVisits_relocate (visits : List Visit) (directives : Option (List Directive)) :
    Directive.pushVisits (visits.map (Visit.relocate r whole))
        (directives.map (·.map (Directive.relocate r))) =
      (Directive.pushVisits visits directives).map (Visit.relocate r whole) := by
  cases directives with
  | none => rfl
  | some directives =>
    exact foldl_pushVisits_relocate r whole
      (fun visits directive => Argument.pushVisits_relocate r whole visits directive.arguments)
      visits directives

theorem Field.pushVisits_relocate (visits : List Visit) (field : Field) :
    (field.relocate r).pushVisits (visits.map (Visit.relocate r whole)) =
      (field.pushVisits visits).map (Visit.relocate r whole) := by
  have harguments := Argument.pushVisits_relocate r whole (.field field :: visits) field.arguments
  rw [Field.pushVisits, Field.pushVisits, ← Directive.pushVisits_relocate, ← harguments]
  rfl

mutual

theorem Selection.pushVisits_relocate (visits : List Visit) : ∀ selection : Selection,
    (selection.relocate r).pushVisits (visits.map (Visit.relocate r whole)) =
      (selection.pushVisits visits).map (Visit.relocate r whole)
  | .field f none => Field.pushVisits_relocate r whole visits f
  | .field f (some set) => by
    rw [Selection.pushVisits, ← SelectionSet.pushVisits_relocate _ set,
      ← Field.pushVisits_relocate]
    rfl
  | .spread s => Directive.pushVisits_relocate r whole (.spread s :: visits) s.directives
  | .inline i set => by
    have hdirectives := Directive.pushVisits_relocate r whole (.inline i :: visits) i.directives
    rw [Selection.pushVisits, ← SelectionSet.pushVisits_relocate _ set, ← hdirectives]
    rfl

theorem SelectionSet.pushVisits_relocate (visits : List Visit) : ∀ set : SelectionSet,
    (set.relocate r).pushVisits (visits.map (Visit.relocate r whole)) =
      (set.pushVisits visits).map (Visit.relocate r whole)
  | .mk range selections => by
    simpa [SelectionSet.relocate, SelectionSet.pushVisits, Visit.relocate] using
      Selection.pushAllVisits_relocate (.selectionSet range :: visits) selections

theorem Selection.pushAllVisits_relocate (visits : List Visit) : ∀ selections : List Selection,
    Selection.pushAllVisits (visits.map (Visit.relocate r whole)) (Selection.relocateAll r selections) =
      (Selection.pushAllVisits visits selections).map (Visit.relocate r whole)
  | [] => rfl
  | selection :: rest => by
    simp only [Selection.relocateAll, Selection.pushAllVisits,
      Selection.pushVisits_relocate visits selection, Selection.pushAllVisits_relocate _ rest]

end

theorem Operation.pushVisits_relocate (visits : List Visit) (operation : Operation) :
    (operation.relocate r).pushVisits (visits.map (Visit.relocate r whole)) =
      (operation.pushVisits visits).map (Visit.relocate r whole) := by
  have hdefined : (((operation.relocate r).variableDefinitions.getD []).foldl
        (fun visits definition => .variableDefinition definition :: visits)
        ((Visit.operation operation :: visits).map (Visit.relocate r whole))) =
      ((operation.variableDefinitions.getD []).foldl
        (fun visits definition => Visit.variableDefinition definition :: visits)
        (.operation operation :: visits)).map (Visit.relocate r whole) := by
    cases hdefinitions : operation.variableDefinitions with
    | none => simp [Operation.relocate, hdefinitions]
    | some definitions =>
      simp only [Operation.relocate, hdefinitions, Option.map_some, Option.getD_some]
      exact foldl_pushVisits_relocate r whole (fun _ _ => rfl) _ definitions
  rw [Operation.pushVisits, Operation.pushVisits, ← SelectionSet.pushVisits_relocate,
    ← Directive.pushVisits_relocate, ← hdefined]
  rfl

theorem Fragment.pushVisits_relocate (visits : List Visit) (fragment : Fragment) :
    (fragment.relocate r).pushVisits (visits.map (Visit.relocate r whole)) =
      (fragment.pushVisits visits).map (Visit.relocate r whole) := by
  have hdirectives :=
    Directive.pushVisits_relocate r whole (.fragment fragment :: visits) fragment.directives
  rw [Fragment.pushVisits, Fragment.pushVisits, ← SelectionSet.pushVisits_relocate, ← hdirectives]
  rfl

theorem Definition.pushVisits_relocate (visits : List Visit) (definition : Definition) :
    (definition.relocate r).pushVisits (visits.map (Visit.relocate r whole)) =
      (definition.pushVisits visits).map (Visit.relocate r whole) := by
  cases definition with
  | operation o => exact o.pushVisits_relocate r whole visits
  | fragment f => exact f.pushVisits_relocate r whole visits

variable {r}

/-- The visits of a document whose definitions are moved are the moved visits. -/
theorem Executable.visits_of_definitions {doc moved : Executable}
    (h : moved.definitions = doc.definitions.map (Definition.relocate r)) :
    moved.visits = doc.visits.map (Visit.relocate r moved.range) := by
  have hdoc : Visit.document moved = (Visit.document doc).relocate r moved.range := by
    rw [Visit.relocate, ← h]
  rw [visits, visits, List.map_reverse, h, hdoc]
  exact congrArg List.reverse (foldl_pushVisits_relocate r moved.range
    (fun visits definition => definition.pushVisits_relocate r moved.range visits) [.document doc]
    doc.definitions)

end GuardedQuery

import GuardedQuery.Executable.Visit

/-! # The visits of the parts

The visits of a part are its own and then those of what it contains, in order.

- `Value.visits`, `Selection.visits` and the like: the visits of a part.
- `Value.pushVisits_eq` and the like: visits are pushed on what came before.
- `Executable.visits_eq`: the visits of a document.
-/

namespace GuardedQuery

/-! ## Values -/

theorem foldl_push {α : Type} {push : List Visit → α → List Visit} {own : α → List Visit}
    (h : ∀ visits part, push visits part = (own part).reverse ++ visits) (visits : List Visit)
    (parts : List α) : parts.foldl push visits = (parts.flatMap own).reverse ++ visits := by
  induction parts generalizing visits with
  | nil => rfl
  | cons part parts ih => simp [ih, h]

mutual

theorem Value.pushVisits_append (visits : List Visit) : ∀ value : Value,
    value.pushVisits visits = value.pushVisits [] ++ visits
  | .reference _ => rfl
  | .scalar .. => rfl
  | .list range items => by
    rw [Value.pushVisits, Value.pushVisits, Value.pushAllVisits_append (_ :: visits) items,
      Value.pushAllVisits_append [_] items, List.append_assoc]
    rfl
  | .object range fields => by
    rw [Value.pushVisits, Value.pushVisits, ObjectField.pushAllVisits_append (_ :: visits) fields,
      ObjectField.pushAllVisits_append [_] fields, List.append_assoc]
    rfl

theorem Value.pushAllVisits_append (visits : List Visit) : ∀ values : List Value,
    Value.pushAllVisits visits values = Value.pushAllVisits [] values ++ visits
  | [] => rfl
  | value :: rest => by
    rw [Value.pushAllVisits, Value.pushAllVisits, Value.pushAllVisits_append _ rest,
      Value.pushAllVisits_append (value.pushVisits []) rest, Value.pushVisits_append visits value,
      List.append_assoc]

theorem ObjectField.pushVisits_append (visits : List Visit) : ∀ field : ObjectField,
    field.pushVisits visits = field.pushVisits [] ++ visits
  | .mk _ value => Value.pushVisits_append visits value

theorem ObjectField.pushAllVisits_append (visits : List Visit) : ∀ fields : List ObjectField,
    ObjectField.pushAllVisits visits fields = ObjectField.pushAllVisits [] fields ++ visits
  | [] => rfl
  | field :: rest => by
    rw [ObjectField.pushAllVisits, ObjectField.pushAllVisits,
      ObjectField.pushAllVisits_append _ rest,
      ObjectField.pushAllVisits_append (field.pushVisits []) rest,
      ObjectField.pushVisits_append visits field, List.append_assoc]

end

def Value.visits (value : Value) : List Visit :=
  (value.pushVisits []).reverse

def ObjectField.visits (field : ObjectField) : List Visit :=
  field.value.visits

theorem Value.pushVisits_eq (visits : List Visit) (value : Value) :
    value.pushVisits visits = value.visits.reverse ++ visits := by
  rw [pushVisits_append, Value.visits, List.reverse_reverse]

theorem Value.pushAllVisits_eq (visits : List Visit) (values : List Value) :
    Value.pushAllVisits visits values = (values.flatMap Value.visits).reverse ++ visits := by
  induction values generalizing visits with
  | nil => rfl
  | cons value rest ih => simp [pushAllVisits, ih, pushVisits_eq]

theorem ObjectField.pushVisits_eq (visits : List Visit) :
    ∀ field : ObjectField, field.pushVisits visits = field.visits.reverse ++ visits
  | .mk _ value => value.pushVisits_eq visits

theorem ObjectField.pushAllVisits_eq (visits : List Visit) (fields : List ObjectField) :
    ObjectField.pushAllVisits visits fields =
      (fields.flatMap ObjectField.visits).reverse ++ visits := by
  induction fields generalizing visits with
  | nil => rfl
  | cons field rest ih => simp [pushAllVisits, ih, pushVisits_eq]

@[simp] theorem Value.visits_reference (target : Variable) :
    (reference target).visits = [.value target.range, .use target] := rfl

@[simp] theorem Value.visits_scalar (range : ByteRange) (rule : NodeKind) (text : String) :
    (scalar range rule text).visits = [.value range] := rfl

@[simp] theorem Value.visits_list (range : ByteRange) (items : List Value) :
    (list range items).visits = .value range :: items.flatMap Value.visits := by
  simp [Value.visits, pushVisits, pushAllVisits_eq]

@[simp] theorem Value.visits_object (range : ByteRange) (fields : List ObjectField) :
    (object range fields).visits = .value range :: fields.flatMap ObjectField.visits := by
  simp [Value.visits, pushVisits, ObjectField.pushAllVisits_eq]

@[simp] theorem ObjectField.visits_mk (name : Token) (value : Value) :
    (mk name value).visits = value.visits := rfl

/-! ## Arguments and directives -/

def Argument.visits (argument : Argument) : List Visit :=
  argument.value.visits

def Argument.allVisits (arguments : Option (List Argument)) : List Visit :=
  (arguments.getD []).flatMap Argument.visits

theorem Argument.pushVisits_eq (visits : List Visit) (arguments : Option (List Argument)) :
    Argument.pushVisits visits arguments = (allVisits arguments).reverse ++ visits :=
  foldl_push (fun visits argument => argument.value.pushVisits_eq visits) visits _

def Directive.visits (directive : Directive) : List Visit :=
  Argument.allVisits directive.arguments

def Directive.allVisits (directives : Option (List Directive)) : List Visit :=
  (directives.getD []).flatMap Directive.visits

theorem Directive.pushVisits_eq (visits : List Visit) (directives : Option (List Directive)) :
    Directive.pushVisits visits directives = (allVisits directives).reverse ++ visits :=
  foldl_push (fun visits directive => Argument.pushVisits_eq visits directive.arguments) visits _

/-! ## Selections -/

def Field.visits (field : Field) : List Visit :=
  .field field :: (Argument.allVisits field.arguments ++ Directive.allVisits field.directives)

theorem Field.pushVisits_eq (visits : List Visit) (field : Field) :
    field.pushVisits visits = field.visits.reverse ++ visits := by
  simp [pushVisits, Field.visits, Argument.pushVisits_eq, Directive.pushVisits_eq]

mutual

theorem Selection.pushVisits_append (visits : List Visit) : ∀ selection : Selection,
    selection.pushVisits visits = selection.pushVisits [] ++ visits
  | .field f none => by
    rw [Selection.pushVisits, Selection.pushVisits, f.pushVisits_eq, f.pushVisits_eq,
      List.append_nil]
  | .field f (some set) => by
    rw [Selection.pushVisits, Selection.pushVisits, f.pushVisits_eq, f.pushVisits_eq,
      SelectionSet.pushVisits_append _ set, SelectionSet.pushVisits_append (_ ++ []) set,
      List.append_nil, List.append_assoc]
  | .spread s => by simp [Selection.pushVisits, Directive.pushVisits_eq]
  | .inline i set => by
    rw [Selection.pushVisits, Selection.pushVisits, SelectionSet.pushVisits_append _ set,
      SelectionSet.pushVisits_append (Directive.pushVisits [_] _) set, List.append_assoc]
    simp [Directive.pushVisits_eq]

theorem SelectionSet.pushVisits_append (visits : List Visit) : ∀ set : SelectionSet,
    set.pushVisits visits = set.pushVisits [] ++ visits
  | .mk range selections => by
    rw [SelectionSet.pushVisits, SelectionSet.pushVisits,
      Selection.pushAllVisits_append (_ :: visits) selections,
      Selection.pushAllVisits_append [_] selections, List.append_assoc]
    rfl

theorem Selection.pushAllVisits_append (visits : List Visit) : ∀ selections : List Selection,
    Selection.pushAllVisits visits selections = Selection.pushAllVisits [] selections ++ visits
  | [] => rfl
  | selection :: rest => by
    rw [Selection.pushAllVisits, Selection.pushAllVisits, Selection.pushAllVisits_append _ rest,
      Selection.pushAllVisits_append (selection.pushVisits []) rest,
      Selection.pushVisits_append visits selection, List.append_assoc]

end

def Selection.visits (selection : Selection) : List Visit :=
  (selection.pushVisits []).reverse

def SelectionSet.visits (set : SelectionSet) : List Visit :=
  (set.pushVisits []).reverse

theorem Selection.pushVisits_eq (visits : List Visit) (selection : Selection) :
    selection.pushVisits visits = selection.visits.reverse ++ visits := by
  rw [pushVisits_append, Selection.visits, List.reverse_reverse]

theorem SelectionSet.pushVisits_eq (visits : List Visit) (set : SelectionSet) :
    set.pushVisits visits = set.visits.reverse ++ visits := by
  rw [pushVisits_append, SelectionSet.visits, List.reverse_reverse]

theorem Selection.pushAllVisits_eq (visits : List Visit) (selections : List Selection) :
    Selection.pushAllVisits visits selections =
      (selections.flatMap Selection.visits).reverse ++ visits := by
  induction selections generalizing visits with
  | nil => rfl
  | cons selection rest ih => simp [pushAllVisits, ih, pushVisits_eq]

@[simp] theorem Selection.visits_field (f : Field) (set : Option SelectionSet) :
    (field f set).visits = f.visits ++ set.toList.flatMap SelectionSet.visits := by
  cases set <;>
    simp [Selection.visits, pushVisits, Field.pushVisits_eq, SelectionSet.pushVisits_eq]

@[simp] theorem Selection.visits_spread (s : FragmentSpread) :
    (spread s).visits = .spread s :: Directive.allVisits s.directives := by
  simp [Selection.visits, pushVisits, Directive.pushVisits_eq]

@[simp] theorem Selection.visits_inline (i : InlineFragment) (set : SelectionSet) :
    (inline i set).visits = .inline i :: (Directive.allVisits i.directives ++ set.visits) := by
  simp [Selection.visits, pushVisits, Directive.pushVisits_eq, SelectionSet.pushVisits_eq]

@[simp] theorem SelectionSet.visits_mk (range : ByteRange) (selections : List Selection) :
    (mk range selections).visits =
      .selectionSet range :: selections.flatMap Selection.visits := by
  simp [SelectionSet.visits, pushVisits, Selection.pushAllVisits_eq]

/-! ## Definitions -/

def Operation.visits (operation : Operation) : List Visit :=
  .operation operation :: ((operation.variableDefinitions.getD []).map .variableDefinition ++
    (Directive.allVisits operation.directives ++ operation.set.visits))

def Fragment.visits (fragment : Fragment) : List Visit :=
  .fragment fragment :: (Directive.allVisits fragment.directives ++ fragment.set.visits)

def Definition.visits : Definition → List Visit
  | .operation o => o.visits
  | .fragment f => f.visits

theorem Definition.pushVisits_eq (visits : List Visit) (definition : Definition) :
    definition.pushVisits visits = definition.visits.reverse ++ visits := by
  cases definition with
  | operation o =>
    simp [pushVisits, Operation.pushVisits, Directive.pushVisits_eq, SelectionSet.pushVisits_eq,
      Definition.visits, Operation.visits]
  | fragment f =>
    simp [pushVisits, Fragment.pushVisits, Directive.pushVisits_eq, SelectionSet.pushVisits_eq,
      Definition.visits, Fragment.visits]

/-- The visits of a document are its own and then those of its definitions. -/
theorem Executable.visits_eq (doc : Executable) :
    doc.visits = .document doc :: doc.definitions.flatMap Definition.visits := by
  rw [visits, foldl_push fun visits definition => definition.pushVisits_eq visits]
  simp

end GuardedQuery

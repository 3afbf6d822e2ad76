import GuardedQuery.Executable.Basic
import GuardedQuery.Fault

/-! # Visits

The parts of a document in the order in which they stand, a part before what it
contains.  Nothing inside a variable definition is visited, for its value and its
directives are constant.

- `Visit`: a visited part.
- `Executable.visits`: all visits of a document.
- `traverse`: shows visits to a visitor until it fails.
-/

namespace GuardedQuery

inductive Visit where
  | document (doc : Executable)
  | operation (operation : Operation)
  | fragment (fragment : Fragment)
  | variableDefinition (definition : VariableDefinition)
  | selectionSet (range : ByteRange)
  | field (field : Field)
  | spread (spread : FragmentSpread)
  | inline (inline : InlineFragment)
  | value (range : ByteRange)
  | use (target : Variable)

namespace Visit

def range : Visit → ByteRange
  | document d => d.range
  | operation o => o.range
  | fragment f => f.range
  | variableDefinition d => d.range
  | selectionSet range => range
  | field f => f.range
  | spread s => s.range
  | inline i => i.range
  | value range => range
  | use target => target.range

end Visit

/-! ## Pushing visits

Each function puts the visits of a part in front of `visits`, the latest first. -/

mutual

def Value.pushVisits (visits : List Visit) : Value → List Visit
  | .reference target => .use target :: .value target.range :: visits
  | .scalar range _ _ => .value range :: visits
  | .list range items => Value.pushAllVisits (.value range :: visits) items
  | .object range fields => ObjectField.pushAllVisits (.value range :: visits) fields

def Value.pushAllVisits (visits : List Visit) : List Value → List Visit
  | [] => visits
  | value :: rest => Value.pushAllVisits (value.pushVisits visits) rest

def ObjectField.pushVisits (visits : List Visit) : ObjectField → List Visit
  | .mk _ value => value.pushVisits visits

def ObjectField.pushAllVisits (visits : List Visit) : List ObjectField → List Visit
  | [] => visits
  | field :: rest => ObjectField.pushAllVisits (field.pushVisits visits) rest

end

def Argument.pushVisits (visits : List Visit) (arguments : Option (List Argument)) :
    List Visit :=
  (arguments.getD []).foldl (fun visits argument => argument.value.pushVisits visits) visits

def Directive.pushVisits (visits : List Visit) (directives : Option (List Directive)) :
    List Visit :=
  (directives.getD []).foldl
    (fun visits directive => Argument.pushVisits visits directive.arguments) visits

def Field.pushVisits (visits : List Visit) (field : Field) : List Visit :=
  Directive.pushVisits (Argument.pushVisits (.field field :: visits) field.arguments)
    field.directives

mutual

def Selection.pushVisits (visits : List Visit) : Selection → List Visit
  | .field f none => f.pushVisits visits
  | .field f (some set) => set.pushVisits (f.pushVisits visits)
  | .spread s => Directive.pushVisits (.spread s :: visits) s.directives
  | .inline i set => set.pushVisits (Directive.pushVisits (.inline i :: visits) i.directives)

def SelectionSet.pushVisits (visits : List Visit) : SelectionSet → List Visit
  | .mk range selections => Selection.pushAllVisits (.selectionSet range :: visits) selections

def Selection.pushAllVisits (visits : List Visit) : List Selection → List Visit
  | [] => visits
  | selection :: rest => Selection.pushAllVisits (selection.pushVisits visits) rest

end

def Operation.pushVisits (visits : List Visit) (operation : Operation) : List Visit :=
  let defined := (operation.variableDefinitions.getD []).foldl
    (fun visits definition => .variableDefinition definition :: visits)
    (.operation operation :: visits)
  operation.set.pushVisits (Directive.pushVisits defined operation.directives)

def Fragment.pushVisits (visits : List Visit) (fragment : Fragment) : List Visit :=
  fragment.set.pushVisits
    (Directive.pushVisits (.fragment fragment :: visits) fragment.directives)

def Definition.pushVisits (visits : List Visit) : Definition → List Visit
  | .operation o => o.pushVisits visits
  | .fragment f => f.pushVisits visits

def Executable.visits (doc : Executable) : List Visit :=
  (doc.definitions.foldl Definition.pushVisits [.document doc]).reverse

/-- Shows visits in order until the visitor fails.  Gives its last state besides the
fault. -/
def traverse {σ : Type} (visit : σ → Visit → σ × Option Fault) :
    σ → List Visit → σ × Option Fault
  | state, [] => (state, none)
  | state, next :: rest =>
    match visit state next with
    | (state, some fault) => (state, some fault)
    | (state, none) => traverse visit state rest

end GuardedQuery

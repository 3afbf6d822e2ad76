import GuardedQuery.Token.Basic

/-! # Executable documents

What a document says, free of punctuation and trivia.  Names are kept as their tokens,
and every part that a report can point at keeps its range.  A part that a document may
leave out is optional.

- `Value`: variables, literals, lists and objects.
- `Directive`, `Argument`, `VariableDefinition`.
- `Selection`, `SelectionSet`: fields, fragment spreads and inline fragments.
- `Operation`, `Fragment`, `Definition`, `Executable`.
-/

namespace GuardedQuery

structure Variable where
  range : ByteRange
  name : Token
deriving Repr, DecidableEq

mutual

inductive Value where
  | reference (target : Variable)
  | scalar (range : ByteRange) (rule : NodeKind) (text : String)
  | list (range : ByteRange) (items : List Value)
  | object (range : ByteRange) (fields : List ObjectField)

inductive ObjectField where
  | mk (name : Token) (value : Value)

end

namespace Value

def range : Value → ByteRange
  | reference target => target.range
  | scalar range .. => range
  | list range _ => range
  | object range _ => range

end Value

namespace ObjectField

def name : ObjectField → Token
  | mk name _ => name

def value : ObjectField → Value
  | mk _ value => value

end ObjectField

structure Argument where
  name : Token
  value : Value

structure Directive where
  name : Token
  arguments : Option (List Argument)

/-- A variable that an operation takes.  Its type is left out. -/
structure VariableDefinition where
  range : ByteRange
  target : Variable
  default : Option Value
  directives : Option (List Directive)

structure Field where
  range : ByteRange
  label : Option Token
  name : Token
  arguments : Option (List Argument)
  directives : Option (List Directive)

structure FragmentSpread where
  range : ByteRange
  name : Token
  directives : Option (List Directive)

structure InlineFragment where
  range : ByteRange
  typeName : Option Token
  directives : Option (List Directive)

mutual

inductive Selection where
  | field (field : Field) (set : Option SelectionSet)
  | spread (spread : FragmentSpread)
  | inline (inline : InlineFragment) (set : SelectionSet)

inductive SelectionSet where
  | mk (range : ByteRange) (selections : List Selection)

end

namespace SelectionSet

def range : SelectionSet → ByteRange
  | mk range _ => range

def selections : SelectionSet → List Selection
  | mk _ selections => selections

end SelectionSet

inductive OperationType where
  | query
  | mutation
  | subscription
deriving Repr, DecidableEq

namespace OperationType

def label : OperationType → String
  | query => "Query"
  | mutation => "Mutation"
  | subscription => "Subscription"

def ofKeyword (word : String) : OperationType :=
  if word = "mutation" then .mutation
  else if word = "subscription" then .subscription
  else .query

end OperationType

structure Operation where
  range : ByteRange
  head : Token
  keyword : Option Token
  name : Option Token
  variableDefinitions : Option (List VariableDefinition)
  directives : Option (List Directive)
  set : SelectionSet

namespace Operation

def type (operation : Operation) : OperationType :=
  .ofKeyword ((operation.keyword.map (·.text)).getD "")

end Operation

structure Fragment where
  range : ByteRange
  name : Token
  typeName : Token
  directives : Option (List Directive)
  set : SelectionSet

inductive Definition where
  | operation (operation : Operation)
  | fragment (fragment : Fragment)

structure Executable where
  range : ByteRange
  definitions : List Definition

namespace Executable

def operations (doc : Executable) : List Operation :=
  doc.definitions.filterMap fun
    | .operation operation => some operation
    | .fragment _ => none

def fragments (doc : Executable) : List Fragment :=
  doc.definitions.filterMap fun
    | .operation _ => none
    | .fragment fragment => some fragment

end Executable

end GuardedQuery

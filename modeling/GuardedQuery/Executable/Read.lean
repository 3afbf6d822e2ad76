import GuardedQuery.Document
import GuardedQuery.Executable.Basic

/-! # Reading a tree

A tree is read from its leaves up.  Each node is read from what its children say; a
node that lacks a part it cannot do without says nothing.

- `Item`: what a tree can say.
- `Part`: an item with the first and the last token of its tree.
- `Item.ofNode?`: what a node says, given its children's parts.
- `Document.executable`: what a document says.
-/

namespace GuardedQuery

inductive Item where
  | token (token : Token)
  | label (name : Token)
  | typeName (name : Token)
  | value (value : Value)
  | objectField (field : ObjectField)
  | argument (argument : Argument)
  | arguments (arguments : List Argument)
  | directive (directive : Directive)
  | directives (directives : List Directive)
  | default (value : Value)
  | variableDefinition (definition : VariableDefinition)
  | variableDefinitions (definitions : List VariableDefinition)
  | selection (selection : Selection)
  | selectionSet (set : SelectionSet)
  | definition (definition : Definition)
  | nothing

structure Part where
  first : Token
  last : Token
  item : Item

namespace Item

/-! ## Choosing among the children -/

def name? : Item → Option Token
  | token t => if t.kind = .name then some t else none
  | _ => none

def text? : Item → Option String
  | token t => some t.text
  | _ => none

def label? : Item → Option Token
  | label name => some name
  | _ => none

def typeName? : Item → Option Token
  | typeName name => some name
  | _ => none

def value? : Item → Option Value
  | value v => some v
  | _ => none

def reference? : Item → Option Variable
  | value (.reference target) => some target
  | _ => none

def objectField? : Item → Option ObjectField
  | objectField f => some f
  | _ => none

def argument? : Item → Option Argument
  | argument a => some a
  | _ => none

def arguments? : Item → Option (List Argument)
  | arguments as => some as
  | _ => none

def directive? : Item → Option Directive
  | directive d => some d
  | _ => none

def directives? : Item → Option (List Directive)
  | directives ds => some ds
  | _ => none

def default? : Item → Option Value
  | default v => some v
  | _ => none

def variableDefinition? : Item → Option VariableDefinition
  | variableDefinition d => some d
  | _ => none

def variableDefinitions? : Item → Option (List VariableDefinition)
  | variableDefinitions ds => some ds
  | _ => none

def selection? : Item → Option Selection
  | selection s => some s
  | _ => none

def selectionSet? : Item → Option SelectionSet
  | selectionSet s => some s
  | _ => none

def definition? : Item → Option Definition
  | definition d => some d
  | _ => none

/-! ## Reading a node -/

/-- What a node says.  `range` and `head` are its range and its first token, `items` what
its children say. -/
def ofNode? (kind : NodeKind) (range : ByteRange) (head : Token) (items : List Item) :
    Option Item :=
  let names := items.filterMap name?
  match kind with
  | .operationDefinition => do
    let set ← items.findSome? selectionSet?
    return .definition (.operation {
      range, head, set
      keyword := names[0]?
      name := names[1]?
      variableDefinitions := items.findSome? variableDefinitions?
      directives := items.findSome? directives? })
  | .fragmentDefinition => do
    let name ← names[1]?
    let typeName ← items.findSome? typeName?
    let set ← items.findSome? selectionSet?
    return .definition (.fragment {
      range, name, typeName, set
      directives := items.findSome? directives? })
  | .variableDefinitions => some (.variableDefinitions (items.filterMap variableDefinition?))
  | .variableDefinition => do
    let target ← items.findSome? reference?
    return .variableDefinition {
      range, target
      default := items.findSome? default?
      directives := items.findSome? directives? }
  | .variableRef => do
    let name ← names[0]?
    return .value (.reference { range, name })
  | .defaultValue => (items.findSome? value?).map .default
  | .namedType => names[0]?.map .typeName
  | .typeCondition => (items.findSome? typeName?).map .typeName
  | .selectionSet => some (.selectionSet (.mk range (items.filterMap selection?)))
  | .field => do
    let name ← names[0]?
    return .selection (.field {
      range, name
      label := items.findSome? label?
      arguments := items.findSome? arguments?
      directives := items.findSome? directives? } (items.findSome? selectionSet?))
  | .fieldAlias => names[0]?.map .label
  | .arguments => some (.arguments (items.filterMap argument?))
  | .argument => do
    let name ← names[0]?
    let value ← items.findSome? value?
    return .argument { name, value }
  | .fragmentSpread => do
    let name ← names[0]?
    return .selection (.spread { range, name, directives := items.findSome? directives? })
  | .inlineFragment => do
    let set ← items.findSome? selectionSet?
    return .selection (.inline {
      range
      typeName := items.findSome? typeName?
      directives := items.findSome? directives? } set)
  | .directives => some (.directives (items.filterMap directive?))
  | .directive => do
    let name ← names[0]?
    return .directive { name, arguments := items.findSome? arguments? }
  | .intValue | .floatValue | .stringValue | .booleanValue | .nullValue | .enumValue =>
    some (.value (.scalar range kind (String.join (items.filterMap text?))))
  | .listValue => some (.value (.list range (items.filterMap value?)))
  | .objectValue => some (.value (.object range (items.filterMap objectField?)))
  | .objectField => do
    let name ← names[0]?
    let value ← items.findSome? value?
    return .objectField (.mk name value)
  | .document | .typeRef | .listType => none

end Item

namespace Part

def ofNode? (kind : NodeKind) (parts : List Part) : Option Part :=
  match parts.head?, parts.getLast? with
  | some first, some last =>
    let range : ByteRange := ⟨first.first.start, last.last.stop⟩
    let item := Item.ofNode? kind range first.first (parts.map (·.item))
    some ⟨first.first, last.last, item.getD .nothing⟩
  | _, _ => none

end Part

namespace Tree

mutual

def part? : Tree → Option Part
  | leaf token => some ⟨token, token, .token token⟩
  | node kind children => Part.ofNode? kind (pushParts [] children).reverse

def pushParts (parts : List Part) : List Tree → List Part
  | [] => parts
  | tree :: trees =>
    match part? tree with
    | some part => pushParts (part :: parts) trees
    | none => pushParts parts trees

end

end Tree

namespace Document

def executable (document : Document) : Executable :=
  let items := (Tree.pushParts [] document.children).reverse.map (·.item)
  { range := document.tree.range?.getD (.empty 0)
    definitions := items.filterMap Item.definition? }

end Document

end GuardedQuery

import GuardedQuery.Token.Basic

/-! # Grammar goals

The grammar of executable documents as a table.  What a parse still has to find is a
stack of goals.  A goal looks at the current significant token, and in two places at
the one after it, and either takes the token or does not.

- `Goal`: what can be asked for.
- `Goal.take?`: the rules a goal enters at a token it takes, and the goals that remain.
- `Goal.decline`: what becomes of a goal that does not take the token: it may be left
  out, it may only have marked the end of a rule, or the document is at fault.
-/

namespace GuardedQuery

inductive Goal where
  | firstDefinition
  | definitions
  | leave (rule : NodeKind)
  | token (kind : TokenKind) (what : String)
  | optionalName
  | optionalVariableDefinitions
  | variableDefinition
  | moreVariableDefinitions
  | type
  | optionalBang
  | optionalDefault
  | fragmentName
  | typeCondition
  | optionalTypeCondition
  | namedType
  | selectionSet
  | optionalSelectionSet
  | selection
  | moreSelections
  /-- Directives, if there are any; constant ones hold no variables. -/
  | optionalDirectives (constant : Bool)
  | moreDirectives (constant : Bool)
  | optionalArguments (constant : Bool)
  | argument (constant : Bool)
  | moreArguments (constant : Bool)
  | value (constant : Bool)
  | listItems (constant : Bool)
  | objectFields (constant : Bool)
deriving Repr, DecidableEq

/-- The rules that are entered at a token, outermost first, and the goals behind it. -/
structure Taken where
  enters : List NodeKind
  goals : List Goal
deriving Repr, DecidableEq

inductive Declined where
  | skip
  | leave (rule : NodeKind)
  | reject (enters : List NodeKind) (message : String)
deriving Repr, DecidableEq

namespace Taken

def andThen (taken : Taken) (goals : List Goal) : Taken :=
  { taken with goals := taken.goals ++ goals }

def within (rule : NodeKind) (taken : Taken) : Taken :=
  { taken with enters := rule :: taken.enters }

def only : Taken := ⟨[], []⟩

def scalar (rule : NodeKind) : Taken := ⟨[rule], [.leave rule]⟩

end Taken

namespace Goal

/-! ## Productions

Each function looks at the token that a construct would start with. -/

/-- `{ Selection+ }` -/
def takeSelectionSet? (t : Token) : Option Taken :=
  if t.kind = .braceOpen then
    some ⟨[.selectionSet], [selection, moreSelections, leave .selectionSet]⟩
  else none

/-- `{ ... }`, or `query | mutation | subscription` and
`Name? VariableDefinitions? Directives? SelectionSet`, or
`fragment FragmentName TypeCondition Directives? SelectionSet` -/
def takeDefinition? (t : Token) : Option Taken :=
  if t.isWord "fragment" then
    some ⟨[.fragmentDefinition], [fragmentName, typeCondition, optionalDirectives false,
      selectionSet, leave .fragmentDefinition]⟩
  else if t.isWord "query" || t.isWord "mutation" || t.isWord "subscription" then
    some ⟨[.operationDefinition], [optionalName, optionalVariableDefinitions,
      optionalDirectives false, selectionSet, leave .operationDefinition]⟩
  else
    (takeSelectionSet? t).map fun taken =>
      (taken.andThen [leave .operationDefinition]).within .operationDefinition

/-- `$ Name` -/
def takeVariable? (t : Token) : Option Taken :=
  if t.kind = .dollar then
    some ⟨[.variableRef], [token .name "a variable name", leave .variableRef]⟩
  else none

/-- `Variable : Type DefaultValue? Directives?` -/
def takeVariableDefinition? (t : Token) : Option Taken :=
  (takeVariable? t).map fun taken =>
    (taken.andThen [token .colon "':'", type, optionalDefault, optionalDirectives true,
      leave .variableDefinition]).within .variableDefinition

def takeNamedType? (t : Token) : Option Taken :=
  if t.kind = .name then some (.scalar .namedType) else none

/-- `NamedType !?` or `[ Type ] !?` -/
def takeType? (t : Token) : Option Taken :=
  if t.kind = .bracketOpen then
    some ⟨[.typeRef, .listType], [type, token .bracketClose "']'", leave .listType,
      optionalBang, leave .typeRef]⟩
  else
    (takeNamedType? t).map fun taken =>
      (taken.andThen [optionalBang, leave .typeRef]).within .typeRef

/-- `on NamedType` -/
def takeTypeCondition? (t : Token) : Option Taken :=
  if t.isWord "on" then some ⟨[.typeCondition], [namedType, leave .typeCondition]⟩ else none

/-- `Name : Value` as an argument -/
def takeArgument? (constant : Bool) (t : Token) : Option Taken :=
  if t.kind = .name then
    some ⟨[.argument], [token .colon "':'", value constant, leave .argument]⟩
  else none

/-- `@ Name Arguments?` -/
def takeDirective? (constant : Bool) (t : Token) : Option Taken :=
  if t.kind = .atSign then
    some ⟨[.directive], [token .name "a directive name", optionalArguments constant,
      leave .directive]⟩
  else none

def namedValue (text : String) : NodeKind :=
  if text = "true" ∨ text = "false" then .booleanValue
  else if text = "null" then .nullValue
  else .enumValue

/-- A variable, a literal, `[ Value* ]` or an object; a constant holds no variable. -/
def takeValue? (constant : Bool) (t : Token) : Option Taken :=
  match t.kind with
  | .dollar => if constant then none else takeVariable? t
  | .intLit => some (.scalar .intValue)
  | .floatLit => some (.scalar .floatValue)
  | .stringLit | .blockStringLit => some (.scalar .stringValue)
  | .name => some (.scalar (namedValue t.text))
  | .bracketOpen => some ⟨[.listValue], [listItems constant, leave .listValue]⟩
  | .braceOpen => some ⟨[.objectValue], [objectFields constant, leave .objectValue]⟩
  | _ => none

/-- `Name : Value` as a field of an object -/
def takeObjectField? (constant : Bool) (t : Token) : Option Taken :=
  if t.kind = .name then
    some ⟨[.objectField], [token .colon "':'", value constant, leave .objectField]⟩
  else none

def afterFieldName : List Goal :=
  [optionalArguments false, optionalDirectives false, optionalSelectionSet, leave .field]

/-- `Alias? Name Arguments? Directives? SelectionSet?`.  The name is an alias if a colon
follows it. -/
def takeField? (t : Token) (next : Option Token) : Option Taken :=
  if t.kind = .name then
    if next.any (·.kind = .colon) then
      some ⟨[.field, .fieldAlias], [token .colon "':'", leave .fieldAlias,
        token .name "a field name"] ++ afterFieldName⟩
    else some ⟨[.field], afterFieldName⟩
  else none

/-- `... FragmentName Directives?` or `... TypeCondition? Directives? SelectionSet`.  A
name other than `on` behind the dots is the name of a fragment. -/
def takeSpread? (t : Token) (next : Option Token) : Option Taken :=
  if t.kind = .spread then
    if next.any fun name => name.kind = .name && !name.isWord "on" then
      some ⟨[.fragmentSpread], [fragmentName, optionalDirectives false,
        leave .fragmentSpread]⟩
    else
      some ⟨[.inlineFragment], [optionalTypeCondition, optionalDirectives false,
        selectionSet, leave .inlineFragment]⟩
  else none

def takeSelection? (t : Token) (next : Option Token) : Option Taken :=
  (takeSpread? t next).or (takeField? t next)

def closeOr (close : TokenKind) (t : Token) (more : Goal) (one : Option Taken) : Option Taken :=
  if t.kind = close then some .only else one.map (·.andThen [more])

/-! ## The table -/

/-- What the goal does with the token `t` and the significant token `next` behind it, if
it takes the token. -/
def take? (goal : Goal) (t : Token) (next : Option Token) : Option Taken :=
  match goal with
  | firstDefinition => (takeDefinition? t).map (·.within .document)
  | definitions => (takeDefinition? t).map (·.andThen [definitions])
  | leave _ => none
  | token kind _ => if t.kind = kind then some .only else none
  | optionalName => if t.kind = .name then some .only else none
  | optionalVariableDefinitions =>
    if t.kind = .parenOpen then
      some ⟨[.variableDefinitions], [variableDefinition, moreVariableDefinitions,
        leave .variableDefinitions]⟩
    else none
  | variableDefinition => takeVariableDefinition? t
  | moreVariableDefinitions =>
    closeOr .parenClose t moreVariableDefinitions (takeVariableDefinition? t)
  | type => takeType? t
  | optionalBang => if t.kind = .bang then some .only else none
  | optionalDefault =>
    if t.kind = .equals then some ⟨[.defaultValue], [value true, leave .defaultValue]⟩
    else none
  | fragmentName => if t.kind = .name ∧ ¬ t.isWord "on" then some .only else none
  | typeCondition | optionalTypeCondition => takeTypeCondition? t
  | namedType => takeNamedType? t
  | selectionSet | optionalSelectionSet => takeSelectionSet? t
  | selection => takeSelection? t next
  | moreSelections => closeOr .braceClose t moreSelections (takeSelection? t next)
  | optionalDirectives constant =>
    (takeDirective? constant t).map fun taken =>
      (taken.andThen [moreDirectives constant, leave .directives]).within .directives
  | moreDirectives constant =>
    (takeDirective? constant t).map (·.andThen [moreDirectives constant])
  | optionalArguments constant =>
    if t.kind = .parenOpen then
      some ⟨[.arguments], [argument constant, moreArguments constant, leave .arguments]⟩
    else none
  | argument constant => takeArgument? constant t
  | moreArguments constant =>
    closeOr .parenClose t (moreArguments constant) (takeArgument? constant t)
  | value constant => takeValue? constant t
  | listItems constant =>
    closeOr .bracketClose t (listItems constant) (takeValue? constant t)
  | objectFields constant =>
    closeOr .braceClose t (objectFields constant) (takeObjectField? constant t)

def declineValue (constant : Bool) (t : Option Token) : Declined :=
  if constant ∧ t.any (·.kind = .dollar) then
    .reject [] "variables are not allowed in constant values"
  else .reject [] "expected a value"

/-- What becomes of the goal at a token that it does not take, or at the end of the
input. -/
def decline (goal : Goal) (t : Option Token) : Declined :=
  match goal with
  | firstDefinition => .reject [.document] "expected a definition"
  | definitions | optionalName | optionalVariableDefinitions | optionalBang
  | optionalDefault | optionalTypeCondition | optionalSelectionSet | optionalDirectives _
  | moreDirectives _ | optionalArguments _ => .skip
  | leave rule => .leave rule
  | token _ what => .reject [] ("expected " ++ what)
  | variableDefinition | moreVariableDefinitions =>
    .reject [.variableDefinition] "expected a variable definition"
  | type => .reject [.typeRef] "expected a type"
  | fragmentName =>
    if t.any (·.isWord "on") then .reject [] "expected a fragment name, 'on' is reserved"
    else .reject [] "expected a fragment name"
  | typeCondition => .reject [.typeCondition] "expected 'on'"
  | namedType => .reject [.namedType] "expected a type name"
  | selectionSet => .reject [.selectionSet] "expected '\x7b'"
  | selection | moreSelections => .reject [] "expected a selection"
  | argument _ | moreArguments _ => .reject [.argument] "expected an argument name"
  | value constant | listItems constant => declineValue constant t
  | objectFields _ => .reject [.objectField] "expected an object field name"

end Goal

end GuardedQuery

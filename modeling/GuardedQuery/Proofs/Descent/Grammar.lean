import GuardedQuery.Proofs.Descent.Parser
import GuardedQuery.Token.KindSet

/-! # The grammar, procedure by procedure

One procedure for each production.  Nothing bounds their loops and their calls of each other:
they are fixpoints, and a text they never come to an end with would have no outcome.  A
procedure that is still being defined is called with `|>.`.

- `Parser.value`, `Parser.arguments`, `Parser.directives`: values and what holds them.
- `Parser.selectionSet`: selections, fields and fragments.
- `Parser.document`: definitions.
- `Parser.parse`: the whole text.
-/

namespace GuardedQuery

def KindSet.valueStarts : KindSet :=
  .ofList [.token .dollar, .token .intLit, .token .floatLit, .token .stringLit,
    .token .blockStringLit, .token .name, .token .bracketOpen, .token .braceOpen]

def KindSet.selectionStarts : KindSet :=
  .ofList [.token .name, .token .spread]

def operationWords : List String := ["query", "mutation", "subscription"]

namespace Parser

variable {σ : Type}

/-! ## Values -/

def scalar (parser : Parser σ) (rule : NodeKind) : Parsing σ Unit := do
  parser.startNode rule
  parser.bump
  parser.finishNode

def variableRef (parser : Parser σ) : Parsing σ Unit := do
  parser.startNode .variableRef
  assertCurrent .dollar
  parser.bump
  parser.expect .name "a variable name"
  parser.finishNode

mutual

def value (parser : Parser σ) (constant : Bool) : Parsing σ Unit := do
  if KindSet.valueStarts.contains (← current) then
    match ← current with
    | .token .dollar =>
      if constant then parser.unexpected "variables are not allowed in constant values"
      else parser.variableRef
    | .token .intLit => parser.scalar .intValue
    | .token .floatLit => parser.scalar .floatValue
    | .token .stringLit | .token .blockStringLit => parser.scalar .stringValue
    | .token .name => do parser.scalar (Goal.namedValue (← parser.currentText))
    | .token .bracketOpen => parser |>.listValue constant
    | _ => parser |>.objectValue constant
  else parser.unexpected "expected a value"
partial_fixpoint

def listValue (parser : Parser σ) (constant : Bool) : Parsing σ Unit := do
  parser.startNode .listValue
  parser.bump
  parser |>.listItems constant
  parser.finishNode
partial_fixpoint

def listItems (parser : Parser σ) (constant : Bool) : Parsing σ Unit := do
  if ← isAt .bracketClose then parser.bump
  else do
    parser |>.value constant
    parser |>.listItems constant
partial_fixpoint

def objectValue (parser : Parser σ) (constant : Bool) : Parsing σ Unit := do
  parser.startNode .objectValue
  assertCurrent .braceOpen
  parser.bump
  parser |>.objectFields constant
  parser.finishNode
partial_fixpoint

def objectFields (parser : Parser σ) (constant : Bool) : Parsing σ Unit := do
  if ← isAt .braceClose then parser.bump
  else do
    parser.startNode .objectField
    parser.expect .name "an object field name"
    parser.expect .colon "':'"
    parser |>.value constant
    parser.finishNode
    parser |>.objectFields constant
partial_fixpoint

end

def argument (parser : Parser σ) (constant : Bool) : Parsing σ Unit := do
  parser.startNode .argument
  parser.expect .name "an argument name"
  parser.expect .colon "':'"
  parser.value constant
  parser.finishNode

def argumentList (parser : Parser σ) (constant : Bool) : Parsing σ Unit := do
  parser.argument constant
  if ← isAt .parenClose then parser.bump else parser |>.argumentList constant
partial_fixpoint

def arguments (parser : Parser σ) (constant : Bool) : Parsing σ Unit := do
  parser.startNode .arguments
  assertCurrent .parenOpen
  parser.bump
  parser.argumentList constant
  parser.finishNode

def optionalArguments (parser : Parser σ) (constant : Bool) : Parsing σ Unit := do
  if ← isAt .parenOpen then parser.arguments constant

def directive (parser : Parser σ) (constant : Bool) : Parsing σ Unit := do
  parser.startNode .directive
  parser.bump
  parser.expect .name "a directive name"
  parser.optionalArguments constant
  parser.finishNode

def directiveList (parser : Parser σ) (constant : Bool) : Parsing σ Unit := do
  if ← isAt .atSign then do
    parser.directive constant
    parser |>.directiveList constant
partial_fixpoint

def directives (parser : Parser σ) (constant : Bool) : Parsing σ Unit := do
  parser.startNode .directives
  parser.directiveList constant
  parser.finishNode

def optionalDirectives (parser : Parser σ) (constant : Bool) : Parsing σ Unit := do
  if ← isAt .atSign then parser.directives constant

/-! ## Types -/

def namedType (parser : Parser σ) : Parsing σ Unit := do
  parser.startNode .namedType
  parser.expect .name "a type name"
  parser.finishNode

mutual

def type (parser : Parser σ) : Parsing σ Unit := do
  parser.startNode .typeRef
  parser |>.bareType
  parser.optionalToken .bang
  parser.finishNode
partial_fixpoint

def bareType (parser : Parser σ) : Parsing σ Unit := do
  match ← current with
  | .token .name => parser.namedType
  | .token .bracketOpen => do
    parser.startNode .listType
    parser.bump
    parser |>.type
    parser.expect .bracketClose "']'"
    parser.finishNode
  | _ => parser.unexpected "expected a type"
partial_fixpoint

end

def typeCondition (parser : Parser σ) : Parsing σ Unit := do
  parser.startNode .typeCondition
  parser.expectWord "on"
  parser.namedType
  parser.finishNode

def optionalTypeCondition (parser : Parser σ) : Parsing σ Unit := do
  if ← parser.isAtWord "on" then parser.typeCondition

/-! ## Selections -/

/-- `Name :`, if a colon follows the name. -/
def optionalAlias (parser : Parser σ) : Parsing σ Unit := do
  if (← parser.peekNth 1).1 = .token .colon then do
    parser.startNode .fieldAlias
    parser.bump
    parser.bump
    parser.finishNode

mutual

def selectionSet (parser : Parser σ) : Parsing σ Unit := do
  parser.startNode .selectionSet
  parser.expect .braceOpen "'\x7b'"
  parser |>.selectionList
  parser.finishNode
partial_fixpoint

def selectionList (parser : Parser σ) : Parsing σ Unit := do
  parser |>.selection
  if ← isAt .braceClose then parser.bump else parser |>.selectionList
partial_fixpoint

def selection (parser : Parser σ) : Parsing σ Unit := do
  if KindSet.selectionStarts.contains (← current) then
    -- The token is looked at twice before anything is taken, which the fuel has to allow.
    if ← isAt .spread then parser |>.spread else parser |>.field
  else parser.unexpected "expected a selection"
partial_fixpoint

def field (parser : Parser σ) : Parsing σ Unit := do
  parser.startNode .field
  parser.optionalAlias
  parser.expect .name "a field name"
  parser.optionalArguments false
  parser.optionalDirectives false
  parser |>.optionalSelectionSet
  parser.finishNode
partial_fixpoint

def optionalSelectionSet (parser : Parser σ) : Parsing σ Unit := do
  if ← isAt .braceOpen then parser |>.selectionSet
partial_fixpoint

/-- `... FragmentName Directives?` or `... TypeCondition? Directives? SelectionSet`.  A name
other than `on` behind the dots is the name of a fragment. -/
def spread (parser : Parser σ) : Parsing σ Unit := do
  let next ← parser.peekNth 1
  if next.1 = .token .name ∧ next.2 ≠ "on" then do
    parser.startNode .fragmentSpread
    parser.bump
    parser.bump
    parser.optionalDirectives false
    parser.finishNode
  else do
    parser.startNode .inlineFragment
    parser.bump
    parser.optionalTypeCondition
    parser.optionalDirectives false
    parser |>.selectionSet
    parser.finishNode
partial_fixpoint

end

/-! ## Definitions -/

def optionalDefault (parser : Parser σ) : Parsing σ Unit := do
  if ← isAt .equals then do
    parser.startNode .defaultValue
    parser.bump
    parser.value true
    parser.finishNode

def variableDefinition (parser : Parser σ) : Parsing σ Unit := do
  parser.startNode .variableDefinition
  if ← isAt .dollar then do
    parser.variableRef
    parser.expect .colon "':'"
    parser.type
    parser.optionalDefault
    parser.optionalDirectives true
    parser.finishNode
  else parser.unexpected "expected a variable definition"

def variableDefinitionList (parser : Parser σ) : Parsing σ Unit := do
  parser.variableDefinition
  if ← isAt .parenClose then parser.bump else parser |>.variableDefinitionList
partial_fixpoint

def variableDefinitions (parser : Parser σ) : Parsing σ Unit := do
  parser.startNode .variableDefinitions
  assertCurrent .parenOpen
  parser.bump
  parser.variableDefinitionList
  parser.finishNode

def optionalVariableDefinitions (parser : Parser σ) : Parsing σ Unit := do
  if ← isAt .parenOpen then parser.variableDefinitions

/-- A selection set alone, or
`query | mutation | subscription Name? VariableDefinitions? Directives? SelectionSet` -/
def operationDefinition (parser : Parser σ) : Parsing σ Unit := do
  parser.startNode .operationDefinition
  if ← isAt .braceOpen then do
    parser.selectionSet
    parser.finishNode
  else if operationWords.contains (← parser.currentText) then do
    parser.bump
    parser.optionalToken .name
    parser.optionalVariableDefinitions
    parser.optionalDirectives false
    parser.selectionSet
    parser.finishNode
  else parser.unexpected "expected 'query', 'mutation' or 'subscription'"

def fragmentName (parser : Parser σ) : Parsing σ Unit := do
  if ← parser.isAtWord "on" then
    parser.unexpected "expected a fragment name, 'on' is reserved"
  else parser.expect .name "a fragment name"

def fragmentDefinition (parser : Parser σ) : Parsing σ Unit := do
  parser.startNode .fragmentDefinition
  parser.expectWord "fragment"
  parser.fragmentName
  parser.typeCondition
  parser.optionalDirectives false
  parser.selectionSet
  parser.finishNode

def definition (parser : Parser σ) : Parsing σ Unit := do
  if ← parser.isAtWord "fragment" then parser.fragmentDefinition
  else parser.operationDefinition

def isAtDefinition (parser : Parser σ) : Parsing σ Bool := do
  match ← current with
  | .token .braceOpen => return true
  | .token .name => do
    let text ← parser.currentText
    return text = "fragment" || operationWords.contains text
  | _ => return false

/-- `Definition*` -/
def definitions (parser : Parser σ) : Parsing σ Unit := do
  if ← parser.isAtDefinition then do
    parser.definition
    parser |>.definitions
partial_fixpoint

/-- `Definition+`, up to the first token that starts no definition -/
def document (parser : Parser σ) : Parsing σ Unit := do
  parser.startNode .document
  if ← parser.isAtDefinition then do
    parser.definitions
    skipTrivia
    parser.drainTrivia
    parser.finishNode
  else parser.unexpected "expected a definition"

/-- Parses the whole text: gives the tree and the number of significant tokens, unless some
of them are left. -/
def parse (parser : Parser σ) : Parsing σ (Tree × Nat) := do
  parser.document
  let p ← get
  match trailingIndex? parser.tokens p.lastTaken with
  | some index =>
    match parser.tokens[index]? with
    | some token => do
      let text ← parser.slice token.span.range
      throw (parser.policy.trailing (token.span.token text))
    | none => .fail .pastEnd
  | none =>
    match p.builder.finish? with
    | some tree => return (tree, (significant parser.tokens).length)
    | none => .fail .rootless

end Parser

end GuardedQuery

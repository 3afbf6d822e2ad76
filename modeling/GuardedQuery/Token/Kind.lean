/-! # Kinds

Everything in a document is of one of these kinds.

- `TokenKind`: what the lexer tells apart.
- `NodeKind`: the rules of the grammar, which are also the kinds of inner tree nodes.
- `SyntaxKind`: both in one numbering, with a kind of its own for the end of input.
-/

namespace GuardedQuery

inductive TokenKind where
  | braceOpen
  | braceClose
  | parenOpen
  | parenClose
  | bracketOpen
  | bracketClose
  | colon
  | equals
  | atSign
  | dollar
  | bang
  | spread
  /-- The token `&`, known only so that it can be reported. -/
  | amp
  /-- The token `|`, known only so that it can be reported. -/
  | pipe
  | name
  | intLit
  | floatLit
  | stringLit
  | blockStringLit
  | whitespace
  | newline
  | comma
  | comment
  | garbage
deriving Repr, DecidableEq

namespace TokenKind

def label : TokenKind → String
  | braceOpen => "BraceOpen"
  | braceClose => "BraceClose"
  | parenOpen => "ParenOpen"
  | parenClose => "ParenClose"
  | bracketOpen => "BracketOpen"
  | bracketClose => "BracketClose"
  | colon => "Colon"
  | equals => "Equals"
  | atSign => "At"
  | dollar => "Dollar"
  | bang => "Bang"
  | spread => "Spread"
  | amp => "Amp"
  | pipe => "Pipe"
  | name => "Name"
  | intLit => "IntLit"
  | floatLit => "FloatLit"
  | stringLit => "StringLit"
  | blockStringLit => "BlockStringLit"
  | whitespace => "Whitespace"
  | newline => "Newline"
  | comma => "Comma"
  | comment => "Comment"
  | garbage => "Garbage"

def all : List TokenKind :=
  [
    braceOpen, braceClose, parenOpen, parenClose, bracketOpen, bracketClose, colon, equals,
    atSign, dollar, bang, spread, amp, pipe, name, intLit, floatLit, stringLit, blockStringLit,
    whitespace, newline, comma, comment, garbage]

def isTrivia : TokenKind → Bool
  | whitespace | newline | comma | comment => true
  | _ => false

end TokenKind

inductive NodeKind where
  | document
  | operationDefinition
  | fragmentDefinition
  | variableDefinitions
  | variableDefinition
  | variableRef
  | defaultValue
  | typeRef
  | namedType
  | listType
  | selectionSet
  | field
  | fieldAlias
  | arguments
  | argument
  | fragmentSpread
  | inlineFragment
  | typeCondition
  | directives
  | directive
  | intValue
  | floatValue
  | stringValue
  | booleanValue
  | nullValue
  | enumValue
  | listValue
  | objectValue
  | objectField
deriving Repr, DecidableEq

namespace NodeKind

def label : NodeKind → String
  | document => "Document"
  | operationDefinition => "OperationDefinition"
  | fragmentDefinition => "FragmentDefinition"
  | variableDefinitions => "VariableDefinitions"
  | variableDefinition => "VariableDefinition"
  | variableRef => "Variable"
  | defaultValue => "DefaultValue"
  | typeRef => "Type"
  | namedType => "NamedType"
  | listType => "ListType"
  | selectionSet => "SelectionSet"
  | field => "Field"
  | fieldAlias => "Alias"
  | arguments => "Arguments"
  | argument => "Argument"
  | fragmentSpread => "FragmentSpread"
  | inlineFragment => "InlineFragment"
  | typeCondition => "TypeCondition"
  | directives => "Directives"
  | directive => "Directive"
  | intValue => "IntValue"
  | floatValue => "FloatValue"
  | stringValue => "StringValue"
  | booleanValue => "BooleanValue"
  | nullValue => "NullValue"
  | enumValue => "EnumValue"
  | listValue => "ListValue"
  | objectValue => "ObjectValue"
  | objectField => "ObjectField"

def all : List NodeKind :=
  [
    document, operationDefinition, fragmentDefinition, variableDefinitions, variableDefinition,
    variableRef, defaultValue, typeRef, namedType, listType, selectionSet, field, fieldAlias,
    arguments, argument, fragmentSpread, inlineFragment, typeCondition, directives, directive,
    intValue, floatValue, stringValue, booleanValue, nullValue, enumValue, listValue,
    objectValue, objectField]

end NodeKind

/-- Token kinds, the end of input, and node kinds in one numbering. -/
inductive SyntaxKind where
  | token (kind : TokenKind)
  | endOfInput
  | node (kind : NodeKind)
deriving Repr, DecidableEq

namespace SyntaxKind

def label : SyntaxKind → String
  | token kind => kind.label
  | endOfInput => "Error"
  | node kind => kind.label

def all : List SyntaxKind :=
  TokenKind.all.map token ++ endOfInput :: NodeKind.all.map node

def code (kind : SyntaxKind) : Nat :=
  all.idxOf kind

def ofCode? (code : Nat) : Option SyntaxKind :=
  all[code]?

def ofLabel? (label : String) : Option SyntaxKind :=
  all.find? (·.label == label)

def isTrivia : SyntaxKind → Bool
  | token kind => kind.isTrivia
  | _ => false

theorem ofCode?_code (kind : SyntaxKind) : ofCode? kind.code = some kind := by
  cases kind with
  | token kind => cases kind <;> rfl
  | endOfInput => rfl
  | node kind => cases kind <;> rfl

theorem ofLabel?_label (kind : SyntaxKind) : ofLabel? kind.label = some kind := by
  cases kind with
  | token kind => cases kind <;> rfl
  | endOfInput => rfl
  | node kind => cases kind <;> rfl

end SyntaxKind

end GuardedQuery

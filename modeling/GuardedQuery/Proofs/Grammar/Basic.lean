import GuardedQuery.Syntax.Tree

/-! # The grammar of documents

The productions of executable documents as data, apart from the goals that a run works
through, and the derivations that they allow.

- `Lexeme`: a kind and a text, all that the grammar sees of a token.
- `Grammar.Pattern`: what may stand at the right-hand side of a production.
- `Grammar.production`: the right-hand side for every rule.
- `Grammar.Derives`: derivations, as trees without trivia.
- `Grammar.IsDocument`: the token sequences that are documents.
-/

namespace GuardedQuery

structure Lexeme where
  kind : TokenKind
  text : String
deriving Repr, DecidableEq

def Token.lexeme (token : Token) : Lexeme :=
  ⟨token.kind, token.text⟩

def Lexeme.token (lexeme : Lexeme) : Token := ⟨lexeme.kind, 0, lexeme.text⟩

@[simp] theorem Token.lexeme_kind (token : Token) : token.lexeme.kind = token.kind := rfl

@[simp] theorem Token.lexeme_text (token : Token) : token.lexeme.text = token.text := rfl

namespace Grammar

/-! ## Patterns -/

inductive Terminal where
  | kind (kind : TokenKind)
  | word (words : List String)
  | nameBut (words : List String)
deriving Repr, DecidableEq

namespace Terminal

def tokenKind : Terminal → TokenKind
  | kind k => k
  | word _ | nameBut _ => .name

def Admits : Terminal → Lexeme → Prop
  | kind k, lexeme => lexeme.kind = k
  | word words, lexeme => lexeme.kind = .name ∧ lexeme.text ∈ words
  | nameBut words, lexeme => lexeme.kind = .name ∧ lexeme.text ∉ words

instance (terminal : Terminal) (lexeme : Lexeme) : Decidable (terminal.Admits lexeme) := by
  cases terminal <;> unfold Admits <;> infer_instance

theorem Admits.kind_eq {terminal : Terminal} {lexeme : Lexeme} (h : terminal.Admits lexeme) :
    lexeme.kind = terminal.tokenKind := by
  cases terminal with
  | kind k => exact h
  | word words => exact h.1
  | nameBut words => exact h.1

end Terminal

/-- What may stand at the right-hand side of a production.  `constant` marks the rules
inside which no variable may occur. -/
inductive Pattern where
  | empty
  | token (terminal : Terminal)
  | rule (kind : NodeKind) (constant : Bool)
  | both (first second : Pattern)
  | either (left right : Pattern)
  | optional (pattern : Pattern)
  | many (pattern : Pattern)
deriving Repr, DecidableEq

namespace Pattern

instance : OrOp Pattern := ⟨either⟩

def sequence : List Pattern → Pattern
  | [] => empty
  | pattern :: patterns => both pattern (sequence patterns)

end Pattern

open Pattern

def punctuator (kind : TokenKind) : Pattern := token (.kind kind)

def name : Pattern := token (.kind .name)

def enclosed (opening : TokenKind) (item : Pattern) (closing : TokenKind) : Pattern :=
  sequence [punctuator opening, item, item.many, punctuator closing]

/-! ## Productions -/

def definition : Pattern :=
  rule .operationDefinition false ||| rule .fragmentDefinition false

def operationType : Pattern := token (.word ["query", "mutation", "subscription"])

def fragmentName : Pattern := token (.nameBut ["on"])

def selection : Pattern :=
  rule .field false ||| rule .fragmentSpread false ||| rule .inlineFragment false

def literal (constant : Bool) : Pattern :=
  rule .intValue constant ||| rule .floatValue constant ||| rule .stringValue constant |||
    rule .booleanValue constant ||| rule .nullValue constant ||| rule .enumValue constant |||
    rule .listValue constant ||| rule .objectValue constant

def value : Bool → Pattern
  | true => literal true
  | false => rule .variableRef false ||| literal false

def directives (constant : Bool) : Pattern := (rule .directives constant).optional

def production (kind : NodeKind) (constant : Bool) : Pattern :=
  match kind with
  | .document => sequence [definition, definition.many]
  | .operationDefinition =>
    rule .selectionSet false |||
      sequence [operationType, name.optional, (rule .variableDefinitions false).optional,
        directives false, rule .selectionSet false]
  | .fragmentDefinition =>
    sequence [token (.word ["fragment"]), fragmentName, rule .typeCondition false,
      directives false, rule .selectionSet false]
  | .variableDefinitions => enclosed .parenOpen (rule .variableDefinition false) .parenClose
  | .variableDefinition =>
    sequence [rule .variableRef false, punctuator .colon, rule .typeRef false,
      (rule .defaultValue true).optional, directives true]
  | .variableRef => sequence [punctuator .dollar, name]
  | .defaultValue => sequence [punctuator .equals, value true]
  | .typeRef =>
    sequence [rule .namedType false ||| rule .listType false, (punctuator .bang).optional]
  | .namedType => name
  | .listType =>
    sequence [punctuator .bracketOpen, rule .typeRef false, punctuator .bracketClose]
  | .selectionSet => enclosed .braceOpen selection .braceClose
  | .field =>
    sequence [(rule .fieldAlias false).optional, name, (rule .arguments false).optional,
      directives false, (rule .selectionSet false).optional]
  | .fieldAlias => sequence [name, punctuator .colon]
  | .arguments => enclosed .parenOpen (rule .argument constant) .parenClose
  | .argument => sequence [name, punctuator .colon, value constant]
  | .fragmentSpread => sequence [punctuator .spread, fragmentName, directives false]
  | .inlineFragment =>
    sequence [punctuator .spread, (rule .typeCondition false).optional, directives false,
      rule .selectionSet false]
  | .typeCondition => sequence [token (.word ["on"]), rule .namedType false]
  | .directives => sequence [rule .directive constant, (rule .directive constant).many]
  | .directive =>
    sequence [punctuator .atSign, name, (rule .arguments constant).optional]
  | .intValue => punctuator .intLit
  | .floatValue => punctuator .floatLit
  | .stringValue => punctuator .stringLit ||| punctuator .blockStringLit
  | .booleanValue => token (.word ["true", "false"])
  | .nullValue => token (.word ["null"])
  | .enumValue => token (.nameBut ["true", "false", "null"])
  | .listValue =>
    sequence [punctuator .bracketOpen, (value constant).many, punctuator .bracketClose]
  | .objectValue =>
    sequence [punctuator .braceOpen, (rule .objectField constant).many, punctuator .braceClose]
  | .objectField => sequence [name, punctuator .colon, value constant]

/-! ## Derivations -/

/-- The trees are a derivation of the pattern: every node has its rule's production for
its children, and every leaf is a token that meets its condition. -/
inductive Derives : Pattern → List Tree → Prop where
  | empty : Derives .empty []
  | token {terminal : Terminal} {token : Token} (h : terminal.Admits token.lexeme) :
      Derives (.token terminal) [.leaf token]
  | rule {kind : NodeKind} {constant : Bool} {children : List Tree}
      (h : Derives (production kind constant) children) :
      Derives (.rule kind constant) [.node kind children]
  | both {first second : Pattern} {trees more : List Tree} (hfirst : Derives first trees)
      (hsecond : Derives second more) : Derives (.both first second) (trees ++ more)
  | left {left right : Pattern} {trees : List Tree} (h : Derives left trees) :
      Derives (.either left right) trees
  | right {left right : Pattern} {trees : List Tree} (h : Derives right trees) :
      Derives (.either left right) trees
  | absent {pattern : Pattern} : Derives (.optional pattern) []
  | present {pattern : Pattern} {trees : List Tree} (h : Derives pattern trees) :
      Derives (.optional pattern) trees
  | done {pattern : Pattern} : Derives (.many pattern) []
  | more {pattern : Pattern} {trees more : List Tree} (h : Derives pattern trees)
      (hmore : Derives (.many pattern) more) : Derives (.many pattern) (trees ++ more)

def root : Pattern := rule .document false

def IsDocument (lexemes : List Lexeme) : Prop :=
  ∃ tree, Derives root [tree] ∧ tree.leaves.map Token.lexeme = lexemes

def IsDocumentPrefix (lexemes : List Lexeme) : Prop :=
  ∃ more, IsDocument (lexemes ++ more)

def StartsDefinition (lexeme : Lexeme) : Prop :=
  ∃ tree, Derives definition [tree] ∧ (tree.leaves.map Token.lexeme).head? = some lexeme

end Grammar

end GuardedQuery

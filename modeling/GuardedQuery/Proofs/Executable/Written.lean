import GuardedQuery.Executable.Basic
import GuardedQuery.Proofs.Grammar.Basic

/-! # Written documents

Documents apart from any source: what the grammar lets a document say, with the tokens
that it is written with and what a reader should find.  A part is left out or it is there
with at least one member, so there is no document that the grammar does not allow.

- `Written.Value`, `Written.Selection`, `Written.Definition`, `Written.Document`: documents.
- `Written.Document.lexemes`: the tokens of a document in order.
- `Written.Document.read`: its definitions, all at one place and without variable types.
-/

namespace GuardedQuery

namespace Written

/-! ## Tokens -/

def spelling : TokenKind → String
  | .braceOpen => "\x7b"
  | .braceClose => "\x7d"
  | .parenOpen => "("
  | .parenClose => ")"
  | .bracketOpen => "["
  | .bracketClose => "]"
  | .colon => ":"
  | .equals => "="
  | .atSign => "@"
  | .dollar => "$"
  | .bang => "!"
  | .spread => "..."
  | _ => ""

def sign (kind : TokenKind) : Lexeme :=
  ⟨kind, spelling kind⟩

def word (text : String) : Lexeme :=
  ⟨.name, text⟩

def enclosed (opening : TokenKind) (inner : List Lexeme) (closing : TokenKind) : List Lexeme :=
  sign opening :: (inner ++ [sign closing])

def optional {α : Type} (lexemes : α → List Lexeme) (part : Option α) : List Lexeme :=
  (part.map lexemes).getD []

structure OneOrMore (α : Type) where
  first : α
  more : List α

def OneOrMore.toList {α : Type} (parts : OneOrMore α) : List α :=
  parts.first :: parts.more

/-! ## Values -/

inductive Literal where
  | int (text : String)
  | float (text : String)
  | string (text : String)
  | blockString (text : String)
  | boolean (value : Bool)
  | null
  | enum (text : String) (h : text ∉ ["true", "false", "null"])

namespace Literal

def lexeme : Literal → Lexeme
  | int text => ⟨.intLit, text⟩
  | float text => ⟨.floatLit, text⟩
  | string text => ⟨.stringLit, text⟩
  | blockString text => ⟨.blockStringLit, text⟩
  | boolean value => word (if value then "true" else "false")
  | null => word "null"
  | enum text _ => word text

def rule : Literal → NodeKind
  | int _ => .intValue
  | float _ => .floatValue
  | string _ | blockString _ => .stringValue
  | boolean _ => .booleanValue
  | null => .nullValue
  | enum .. => .enumValue

end Literal

mutual

inductive Value (constant : Bool) where
  | reference (name : String) (h : constant = false)
  | literal (literal : Literal)
  | list (items : List (Value constant))
  | object (fields : List (ObjectField constant))

inductive ObjectField (constant : Bool) where
  | mk (name : String) (value : Value constant)

end

section values

variable {constant : Bool}

mutual

def Value.lexemes : Value constant → List Lexeme
  | .reference name _ => [sign .dollar, word name]
  | .literal literal => [literal.lexeme]
  | .list items => enclosed .bracketOpen (Value.allLexemes items) .bracketClose
  | .object fields => enclosed .braceOpen (ObjectField.allLexemes fields) .braceClose

def Value.allLexemes : List (Value constant) → List Lexeme
  | [] => []
  | value :: rest => value.lexemes ++ Value.allLexemes rest

def ObjectField.lexemes : ObjectField constant → List Lexeme
  | .mk name value => word name :: sign .colon :: value.lexemes

def ObjectField.allLexemes : List (ObjectField constant) → List Lexeme
  | [] => []
  | field :: rest => field.lexemes ++ ObjectField.allLexemes rest

end

mutual

def Value.read : Value constant → GuardedQuery.Value
  | .reference name _ => .reference ⟨.empty 0, (word name).token⟩
  | .literal literal => .scalar (.empty 0) literal.rule literal.lexeme.text
  | .list items => .list (.empty 0) (Value.readAll items)
  | .object fields => .object (.empty 0) (ObjectField.readAll fields)

def Value.readAll : List (Value constant) → List GuardedQuery.Value
  | [] => []
  | value :: rest => value.read :: Value.readAll rest

def ObjectField.read : ObjectField constant → GuardedQuery.ObjectField
  | .mk name value => .mk (word name).token value.read

def ObjectField.readAll : List (ObjectField constant) → List GuardedQuery.ObjectField
  | [] => []
  | field :: rest => field.read :: ObjectField.readAll rest

end

end values

/-! ## Arguments and directives -/

structure Argument (constant : Bool) where
  name : String
  value : Value constant

structure Directive (constant : Bool) where
  name : String
  arguments : Option (OneOrMore (Argument constant))

section directives

variable {constant : Bool}

def Argument.lexemes (argument : Argument constant) : List Lexeme :=
  word argument.name :: sign .colon :: argument.value.lexemes

def Argument.read (argument : Argument constant) : GuardedQuery.Argument :=
  ⟨(word argument.name).token, argument.value.read⟩

def Argument.allLexemes (arguments : OneOrMore (Argument constant)) : List Lexeme :=
  enclosed .parenOpen (arguments.toList.flatMap Argument.lexemes) .parenClose

def Argument.readAll (arguments : OneOrMore (Argument constant)) : List GuardedQuery.Argument :=
  arguments.toList.map Argument.read

def Directive.lexemes (directive : Directive constant) : List Lexeme :=
  sign .atSign :: word directive.name :: optional Argument.allLexemes directive.arguments

def Directive.read (directive : Directive constant) : GuardedQuery.Directive :=
  ⟨(word directive.name).token, directive.arguments.map Argument.readAll⟩

def Directive.allLexemes (directives : OneOrMore (Directive constant)) : List Lexeme :=
  directives.toList.flatMap Directive.lexemes

def Directive.readAll (directives : OneOrMore (Directive constant)) :
    List GuardedQuery.Directive :=
  directives.toList.map Directive.read

end directives

/-! ## Selections -/

structure FragmentName where
  text : String
  ne_on : text ∉ ["on"]

mutual

inductive Selection where
  | field (label : Option String) (name : String)
      (arguments : Option (OneOrMore (Argument false)))
      (directives : Option (OneOrMore (Directive false))) (set : Option SelectionSet)
  | spread (name : FragmentName) (directives : Option (OneOrMore (Directive false)))
  | inline (typeName : Option String) (directives : Option (OneOrMore (Directive false)))
      (set : SelectionSet)

inductive SelectionSet where
  | mk (first : Selection) (more : List Selection)

end

def conditionLexemes (typeName : String) : List Lexeme :=
  [word "on", word typeName]

mutual

def Selection.lexemes : Selection → List Lexeme
  | .field label name arguments directives set =>
    optional (fun label => [word label, sign .colon]) label ++ word name ::
      (optional Argument.allLexemes arguments ++ (optional Directive.allLexemes directives ++
        match set with
        | none => []
        | some set => set.lexemes))
  | .spread name directives =>
    sign .spread :: word name.text :: optional Directive.allLexemes directives
  | .inline typeName directives set =>
    sign .spread :: (optional conditionLexemes typeName ++
      (optional Directive.allLexemes directives ++ set.lexemes))

def SelectionSet.lexemes : SelectionSet → List Lexeme
  | .mk first more => enclosed .braceOpen (first.lexemes ++ Selection.allLexemes more) .braceClose

def Selection.allLexemes : List Selection → List Lexeme
  | [] => []
  | selection :: rest => selection.lexemes ++ Selection.allLexemes rest

end

mutual

def Selection.read : Selection → GuardedQuery.Selection
  | .field label name arguments directives set =>
    .field {
      range := .empty 0
      label := label.map fun label => (word label).token
      name := (word name).token
      arguments := arguments.map Argument.readAll
      directives := directives.map Directive.readAll }
      (match set with
        | none => none
        | some set => some set.read)
  | .spread name directives =>
    .spread ⟨.empty 0, (word name.text).token, directives.map Directive.readAll⟩
  | .inline typeName directives set =>
    .inline ⟨.empty 0, typeName.map fun name => (word name).token,
      directives.map Directive.readAll⟩ set.read

def SelectionSet.read : SelectionSet → GuardedQuery.SelectionSet
  | .mk first more => .mk (.empty 0) (first.read :: Selection.readAll more)

def Selection.readAll : List Selection → List GuardedQuery.Selection
  | [] => []
  | selection :: rest => selection.read :: Selection.readAll rest

end

/-! ## Definitions -/

inductive TypeRef where
  | named (name : String) (nonNull : Bool)
  | list (item : TypeRef) (nonNull : Bool)

def TypeRef.lexemes : TypeRef → List Lexeme
  | named name nonNull => word name :: if nonNull then [sign .bang] else []
  | list item nonNull =>
    enclosed .bracketOpen item.lexemes .bracketClose ++ if nonNull then [sign .bang] else []

structure VariableDefinition where
  name : String
  type : TypeRef
  default : Option (Value true)
  directives : Option (OneOrMore (Directive true))

namespace VariableDefinition

def lexemes (definition : VariableDefinition) : List Lexeme :=
  sign .dollar :: word definition.name :: sign .colon :: (definition.type.lexemes ++
    (optional (sign .equals :: ·.lexemes) definition.default ++
      optional Directive.allLexemes definition.directives))

def read (definition : VariableDefinition) : GuardedQuery.VariableDefinition where
  range := .empty 0
  target := ⟨.empty 0, (word definition.name).token⟩
  default := definition.default.map Value.read
  directives := definition.directives.map Directive.readAll

end VariableDefinition

def keyword : OperationType → String
  | .query => "query"
  | .mutation => "mutation"
  | .subscription => "subscription"

inductive Definition where
  | shorthand (set : SelectionSet)
  | operation (type : OperationType) (name : Option String)
      (inputs : Option (OneOrMore VariableDefinition))
      (directives : Option (OneOrMore (Directive false))) (set : SelectionSet)
  | fragment (name : FragmentName) (typeName : String)
      (directives : Option (OneOrMore (Directive false))) (set : SelectionSet)

namespace Definition

def lexemes : Definition → List Lexeme
  | shorthand set => set.lexemes
  | operation type name inputs directives set =>
    word (keyword type) :: (optional ([word ·]) name ++
      (optional (fun inputs => enclosed .parenOpen
        (inputs.toList.flatMap VariableDefinition.lexemes) .parenClose) inputs ++
      (optional Directive.allLexemes directives ++ set.lexemes)))
  | fragment name typeName directives set =>
    word "fragment" :: word name.text :: (conditionLexemes typeName ++
      (optional Directive.allLexemes directives ++ set.lexemes))

def read : Definition → GuardedQuery.Definition
  | shorthand set => .operation {
      range := .empty 0
      head := (sign .braceOpen).token
      keyword := none
      name := none
      variableDefinitions := none
      directives := none
      set := set.read }
  | operation type name inputs directives set => .operation {
      range := .empty 0
      head := (word (keyword type)).token
      keyword := some (word (keyword type)).token
      name := name.map fun name => (word name).token
      variableDefinitions := inputs.map (·.toList.map VariableDefinition.read)
      directives := directives.map Directive.readAll
      set := set.read }
  | fragment name typeName directives set => .fragment {
      range := .empty 0
      name := (word name.text).token
      typeName := (word typeName).token
      directives := directives.map Directive.readAll
      set := set.read }

def operation? : Definition → Option (Bool × OperationType)
  | shorthand _ => some (false, .query)
  | operation type .. => some (true, type)
  | fragment .. => none

end Definition

abbrev Document := OneOrMore Definition

namespace Document

def lexemes (document : Document) : List Lexeme :=
  document.toList.flatMap Definition.lexemes

def read (document : Document) : List GuardedQuery.Definition :=
  document.toList.map Definition.read

def operations (document : Document) : List (Bool × OperationType) :=
  document.toList.filterMap Definition.operation?

end Document

end Written

end GuardedQuery

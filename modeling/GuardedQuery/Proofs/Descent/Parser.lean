import GuardedQuery.Document
import GuardedQuery.Token.Span

/-! # A parser that descends

The grammar as procedures that call each other, each of which looks at the next token,
takes it or fails.  Nothing about such a parser is safe by itself: it may ask for a token
behind the last one, close a node that was never opened, or look at one token for ever.
Here each of these is a defect that the parser can really come to.

- `Defect`: what must never happen, whatever the text.
- `Parsing`: a computation of the parser; it ends in a value, a fault or a defect, or never.
- `Builder`: the tree under construction, its root one of the nodes.
- `Parser`: the operations that the procedures of the grammar are made of.
-/

namespace GuardedQuery

inductive Defect where
  /-- Too many looks ahead without a token taken or a rule entered. -/
  | stuck
  | pastEnd
  | misled
  | unopened
  /-- A text is cut inside a character. -/
  | torn
  | rootless
deriving Repr, DecidableEq

/-- A tree under construction.  Nothing is there from the start. -/
structure Builder where
  /-- What stands outside of all nodes, the latest first. -/
  finished : List Tree := []
  openNodes : List OpenNode := []

namespace Builder

def add (builder : Builder) (tree : Tree) : Builder :=
  match builder.openNodes with
  | [] => { builder with finished := tree :: builder.finished }
  | inner :: outer =>
    { builder with openNodes := { inner with children := tree :: inner.children } :: outer }

def openNode (builder : Builder) (kind : NodeKind) : Builder :=
  { builder with openNodes := ⟨kind, []⟩ :: builder.openNodes }

def closeNode? (builder : Builder) : Option Builder :=
  match builder.openNodes with
  | [] => none
  | inner :: outer =>
    some ({ builder with openNodes := outer }.add (.node inner.kind inner.children.reverse))

def finish? (builder : Builder) : Option Tree :=
  match builder.openNodes, builder.finished with
  | [], [.node .document children] => some (.node .document children)
  | _, _ => none

end Builder

/-- What a parser is given: the text, how faults are worded, and who looks on.  Several
observers in order are one (`Observer.list`, `Observer.both`). -/
structure Parser (σ : Type) where
  source : String
  policy : FaultPolicy
  observer : Observer σ
  start : σ

structure Parser.State (σ : Type) where
  unread : List Token
  /-- How many tokens lie before the current position. -/
  position : Nat := 0
  held : List Token := []
  builder : Builder := {}
  rules : List NodeKind := []
  lastTaken : Option Nat := none
  fuel : Nat := 256
  observing : σ

/-- A computation of the parser.  It may run for ever (`none`), end in a defect, end in a
fault, or give a value. -/
abbrev Parsing (σ α : Type) :=
  ExceptT Fault (StateT (Parser.State σ) (ExceptT Defect Option)) α

namespace Parsing

variable {σ α : Type}

def fail (defect : Defect) : Parsing σ α := fun _ => some (.error defect)

end Parsing

namespace Parser

variable {σ α : Type}

/-! ## Looking ahead

Trivia is set aside first, so what is looked at is always the next significant token. -/

def State.skipped (p : State σ) : State σ :=
  let trivia := p.unread.takeWhile (·.isTrivia)
  { p with
    held := p.held ++ trivia
    unread := p.unread.dropWhile (·.isTrivia)
    position := p.position + trivia.length }

def skipTrivia : Parsing σ Unit := modify State.skipped

def burn : Parsing σ Unit := do
  let p ← get
  if p.fuel = 0 then .fail .stuck else set { p with fuel := p.fuel - 1 }

def refuel : Parsing σ Unit :=
  modify fun p => { p with fuel := 256 }

def current : Parsing σ SyntaxKind := do
  skipTrivia
  burn
  match (← get).unread with
  | [] => return .endOfInput
  | token :: _ => return .token token.kind

def isAt (kind : TokenKind) : Parsing σ Bool :=
  return (← current) = .token kind

/-- The production that starts here is entered at the token it starts with. -/
def assertCurrent (kind : TokenKind) : Parsing σ Unit := do
  if ← isAt kind then return () else .fail .misled

variable (parser : Parser σ)

/-- All tokens of the text, trivia included.  The parser looks at their kinds and spans alone. -/
def tokens : List Token := lex parser.source

def endOffset : Nat := (UInt32.ofNat parser.source.utf8ByteSize).toNat

def initial : State σ := { unread := parser.tokens, observing := parser.start }

def slice (range : ByteRange) : Parsing σ String :=
  match Text.slice? parser.source range with
  | some text => return text
  | none => .fail .torn

def currentText : Parsing σ String := do
  skipTrivia
  match (← get).unread with
  | [] => return endOfInputText
  | token :: _ => parser.slice token.span.range

def currentRange : Parsing σ ByteRange := do
  skipTrivia
  match (← get).unread with
  | [] => return .empty parser.endOffset
  | token :: _ => return token.span.range

def isAtWord (word : String) : Parsing σ Bool := do
  if ← isAt .name then return (← parser.currentText) = word else return false

def peekNth (n : Nat) : Parsing σ (SyntaxKind × String) := do
  skipTrivia
  burn
  match (significant (← get).unread)[n]? with
  | none => return (.endOfInput, endOfInputText)
  | some token => return (.token token.kind, ← parser.slice token.span.range)

/-! ## Going on

The observer sees an event before the tree changes, except at the end of a rule. -/

def notify (event : Event) : Parsing σ Unit := do
  let p ← get
  let (observing, veto) := parser.observer p.observing event
  set { p with observing }
  match veto with
  | none => return ()
  | some fault => throw fault

def addLeaf (token : Token) : Parsing σ Unit := do
  let text ← parser.slice token.span.range
  modify fun p => { p with builder := p.builder.add (.leaf (token.span.token text)) }

def drainTrivia : Parsing σ Unit := do
  let p ← get
  set { p with held := [] }
  forM p.held parser.addLeaf

def drainInside : Parsing σ Unit := do
  if (← get).rules = [] then return () else parser.drainTrivia

def startNode (rule : NodeKind) : Parsing σ Unit := do
  let range ← parser.currentRange
  let text ← parser.currentText
  parser.notify (.enter rule range text)
  refuel
  parser.drainInside
  modify fun p => { p with builder := p.builder.openNode rule, rules := rule :: p.rules }

def finishNode : Parsing σ Unit := do
  let p ← get
  match p.rules, p.builder.closeNode? with
  | rule :: rules, some builder => do
    set { p with rules, builder }
    parser.notify (.exit rule)
  | _, _ => .fail .unopened

def bump : Parsing σ Unit := do
  skipTrivia
  match (← get).unread with
  | [] => .fail .pastEnd
  | token :: unread => do
    let text ← parser.slice token.span.range
    parser.notify (.terminal token.kind token.span.range text)
    refuel
    -- Trivia comes in front of the token that it was set aside for.
    parser.drainTrivia
    modify fun p => { p with
      builder := p.builder.add (.leaf (token.span.token text))
      lastTaken := some p.position
      position := p.position + 1
      unread }

def unexpected (message : String) : Parsing σ α := do
  let range ← parser.currentRange
  let text ← parser.currentText
  let anomaly : Anomaly := { range, text, message }
  parser.notify (.anomaly anomaly)
  throw (parser.policy.report anomaly)

def expect (kind : TokenKind) (what : String) : Parsing σ Unit := do
  if ← isAt kind then parser.bump else parser.unexpected ("expected " ++ what)

def optionalToken (kind : TokenKind) : Parsing σ Unit := do
  if ← isAt kind then parser.bump

def expectWord (word : String) : Parsing σ Unit := do
  if ← parser.isAtWord word then parser.bump
  else parser.unexpected ("expected '" ++ word ++ "'")

end Parser

end GuardedQuery

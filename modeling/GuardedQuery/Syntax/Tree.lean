import GuardedQuery.Syntax.Event

/-! # Syntax trees

A tree holds every token of the source in its leaves, trivia included.  Trivia stands
in the lowest node that is open when the next significant token is reached, after all
rules that end before it are closed and before those that start at it are opened.

- `Tree`: leaves and nodes.
- `Tree.leaves`, `Tree.text`, `Tree.range?`: what a tree holds.
- `Assembly`: a tree under construction.
- `assemble`: from the tokens and the events of a parse to the children of the root.
-/

namespace GuardedQuery

inductive Tree where
  | leaf (token : Token)
  | node (kind : NodeKind) (children : List Tree)

namespace Tree

def isNode (kind : NodeKind) : Tree → Bool
  | leaf _ => false
  | node k _ => k = kind

mutual

def pushLeaves (tokens : List Token) : Tree → List Token
  | leaf token => token :: tokens
  | node _ children => pushAllLeaves tokens children

def pushAllLeaves (tokens : List Token) : List Tree → List Token
  | [] => tokens
  | tree :: trees => pushAllLeaves (pushLeaves tokens tree) trees

end

def leaves (tree : Tree) : List Token :=
  (pushLeaves [] tree).reverse

def text (tree : Tree) : String :=
  tree.leaves.foldl (fun text token => text ++ token.text) ""

mutual

def firstToken? : Tree → Option Token
  | leaf token => some token
  | node _ children => firstOfAll? children

def firstOfAll? : List Tree → Option Token
  | [] => none
  | tree :: trees =>
    match firstToken? tree with
    | some token => some token
    | none => firstOfAll? trees

end

mutual

def lastTokenFrom (before : Option Token) : Tree → Option Token
  | leaf token => some token
  | node _ children => lastOfAllFrom before children

def lastOfAllFrom (before : Option Token) : List Tree → Option Token
  | [] => before
  | tree :: trees => lastOfAllFrom (lastTokenFrom before tree) trees

end

/-- The range from the first leaf to the last; a tree without leaves has none. -/
def range? (tree : Tree) : Option ByteRange :=
  match tree.firstToken?, tree.lastTokenFrom none with
  | some first, some last => some ⟨first.start, last.stop⟩
  | _, _ => none

end Tree

structure OpenNode where
  kind : NodeKind
  children : List Tree

structure Assembly where
  /-- The children of the root, the latest first. -/
  root : List Tree := []
  /-- The open nodes below the root, the innermost first. -/
  openNodes : List OpenNode := []
  unplaced : List Token

namespace Assembly

def add (assembly : Assembly) (tree : Tree) : Assembly :=
  match assembly.openNodes with
  | [] => { assembly with root := tree :: assembly.root }
  | inner :: outer =>
    { assembly with openNodes := { inner with children := tree :: inner.children } :: outer }

def addTrivia (assembly : Assembly) : Assembly :=
  (assembly.unplaced.takeWhile (·.isTrivia)).foldl (fun built token => built.add (.leaf token))
    { assembly with unplaced := assembly.unplaced.dropWhile (·.isTrivia) }

def addToken (assembly : Assembly) : Assembly :=
  match assembly.unplaced with
  | [] => assembly
  | token :: unplaced => { assembly with unplaced }.add (.leaf token)

def openNode (assembly : Assembly) (kind : NodeKind) : Assembly :=
  { assembly with openNodes := ⟨kind, []⟩ :: assembly.openNodes }

def closeNode (assembly : Assembly) : Assembly :=
  match assembly.openNodes with
  | [] => assembly
  | inner :: outer =>
    { assembly with openNodes := outer }.add (.node inner.kind inner.children.reverse)

/-- Follows one event.  The root needs neither opening nor closing. -/
def follow (assembly : Assembly) : Event → Assembly
  | .enter .document _ _ | .exit .document | .anomaly _ => assembly
  -- Trivia in front of a node stays outside it.
  | .enter rule _ _ => assembly.addTrivia.openNode rule
  | .exit _ => assembly.closeNode
  | .terminal .. => assembly.addTrivia.addToken

def finish (assembly : Assembly) : List Tree :=
  let closed := assembly.openNodes.foldl (fun built _ => built.closeNode) assembly
  (closed.unplaced.foldl (fun children token => .leaf token :: children) closed.root).reverse

end Assembly

/-- The children of the root of a document with these tokens and events. -/
def assemble (tokens : List Token) (events : List Event) : List Tree :=
  (events.foldl Assembly.follow { unplaced := tokens }).finish

end GuardedQuery

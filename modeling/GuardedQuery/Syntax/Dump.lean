import GuardedQuery.Syntax.Tree

/-! # Tree dumps

One line per node and per token, children indented by two blanks.

- `DumpStyle`: whether trivia and positions are shown.
- `Tree.dump`: the dump.
-/

namespace GuardedQuery

structure DumpStyle where
  trivia : Bool := false
  spans : Bool := false
deriving Repr, DecidableEq

namespace DumpStyle

def full : DumpStyle := ⟨true, true⟩

def span (style : DumpStyle) (range : ByteRange) : String :=
  if style.spans then " [" ++ range.display ++ "]" else ""

def tokenLine (style : DumpStyle) (token : Token) : String :=
  token.kind.label ++ style.span token.range ++ " " ++ Text.quoted token.text

def nodeLine (style : DumpStyle) (tree : Tree) (kind : NodeKind) : String :=
  kind.label ++ style.span (tree.range?.getD (.empty 0))

end DumpStyle

def indentation (level : Nat) : String :=
  String.ofList (List.replicate (2 * level) ' ')

namespace Tree

mutual

/-- Puts the lines of a tree at a level in front of `lines`, the latest first. -/
def pushLines (style : DumpStyle) (level : Nat) (lines : List String) : Tree → List String
  | leaf token =>
    if style.trivia || !token.isTrivia then
      (indentation level ++ style.tokenLine token) :: lines
    else lines
  | node kind children =>
    pushAllLines style (level + 1)
      ((indentation level ++ style.nodeLine (node kind children) kind) :: lines) children

def pushAllLines (style : DumpStyle) (level : Nat) (lines : List String) :
    List Tree → List String
  | [] => lines
  | tree :: trees => pushAllLines style level (pushLines style level lines tree) trees

end

def dumpLines (style : DumpStyle) (tree : Tree) : List String :=
  (pushLines style 0 [] tree).reverse

def dump (style : DumpStyle) (tree : Tree) : String :=
  (tree.dumpLines style).foldl (fun text line => text ++ line ++ "\n") ""

end Tree

end GuardedQuery

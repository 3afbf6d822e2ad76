/-! # Styled text

A line of output is a row of pieces, each in a style.  Colored output marks the styles
by escape sequences of the terminal; plain output leaves them out.

- `Style`, `Styled`: a style, and a text in it.
- `Styled.render`: a line in either form.
-/

namespace GuardedQuery

inductive Style where
  | plain
  | strong
  | fault
  | margin
deriving Repr, DecidableEq

namespace Style

def reset : String := "\x1b[0m"

def start : Style → String
  | plain => ""
  | strong => "\x1b[1m"
  | fault => "\x1b[1m\x1b[91m"
  | margin => "\x1b[1m\x1b[94m"

end Style

structure Styled where
  style : Style
  text : String
deriving Repr, DecidableEq

namespace Styled

def plain (text : String) : Styled := ⟨.plain, text⟩

def blanks (n : Nat) : Styled := plain (String.ofList (List.replicate n ' '))

/-- One piece of output.  A piece without text leaves no trace. -/
def piece (colored : Bool) (styled : Styled) : String :=
  if colored && styled.style != .plain && !styled.text.isEmpty then
    styled.style.start ++ styled.text ++ Style.reset
  else styled.text

def render (colored : Bool) (line : List Styled) : String :=
  String.join (line.map (piece colored)) ++ "\n"

end Styled

end GuardedQuery

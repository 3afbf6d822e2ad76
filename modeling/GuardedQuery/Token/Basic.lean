import GuardedQuery.Token.Kind

/-! # Tokens

A token is a piece of the source of one kind.  Tokens follow each other without gaps.

- `ByteRange`: where something stands in the source.
- `Token`: a kind, a text and where it starts.
- `trailingIndex?`: the last significant token, if it lies behind a given one.
-/

namespace GuardedQuery

structure ByteRange where
  start : Nat
  stop : Nat
deriving Repr, DecidableEq

namespace ByteRange

def empty (offset : Nat) : ByteRange := ⟨offset, offset⟩

def display (range : ByteRange) : String :=
  toString range.start ++ ".." ++ toString range.stop

end ByteRange

structure Token where
  kind : TokenKind
  start : Nat
  text : String
deriving Repr, DecidableEq

namespace Token

def stop (token : Token) : Nat :=
  token.start + token.text.utf8ByteSize

def range (token : Token) : ByteRange :=
  ⟨token.start, token.stop⟩

def isTrivia (token : Token) : Bool :=
  token.kind.isTrivia

def isWord (token : Token) (word : String) : Bool :=
  token.kind = .name && token.text == word

end Token

def significant (tokens : List Token) : List Token :=
  tokens.filter (!·.isTrivia)

def lastSignificant? (tokens : List Token) : Option Nat :=
  (tokens.reverse.findIdx? (!·.isTrivia)).map (tokens.length - 1 - ·)

/-- The position of the last significant token if it lies behind position `stop`, the
last token that a document took.  A document that took nothing leaves nothing behind. -/
def trailingIndex? (tokens : List Token) (stop : Option Nat) : Option Nat :=
  stop.bind fun stop => (lastSignificant? tokens).filter (stop < ·)

end GuardedQuery

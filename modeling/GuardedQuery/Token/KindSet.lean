import GuardedQuery.Token.Kind

/-! # Sets of kinds

A set of kinds is one bit per kind in a 64-bit word.
-/

namespace GuardedQuery

/-- A set of kinds; the bit of a kind is at its number. -/
structure KindSet where
  bits : UInt64
deriving DecidableEq

namespace KindSet

def bit (kind : SyntaxKind) : UInt64 :=
  1 <<< UInt64.ofNat kind.code

def ofList (kinds : List SyntaxKind) : KindSet :=
  ⟨kinds.foldl (fun bits kind => bits ||| bit kind) 0⟩

def contains (set : KindSet) (kind : SyntaxKind) : Bool :=
  set.bits &&& bit kind != 0

def toList (set : KindSet) : List SyntaxKind :=
  SyntaxKind.all.filter set.contains

def display (set : KindSet) : String :=
  "\x7b" ++ String.intercalate ", " (set.toList.map (·.label)) ++ "\x7d"

end KindSet

end GuardedQuery

import GuardedQuery.Text.Blank
import GuardedQuery.Text.Decimal

/-! # Limits

The ceilings of a parse and of a validation.  Each is a signed 32-bit integer, and one
that is not positive switches its check off; trust switches all of them off.

- `Limits`: the four numbers and the trust mark.
- `Limits.ofLookup`: the defaults with what an environment sets.
- `Limits.charCeiling?` and its companions: the ceilings in force.
-/

namespace GuardedQuery

structure Limits where
  chars : Int32 := 1048576
  depth : Int32 := 500
  tokens : Int32 := 15000
  nodes : Int32 := 500
  trust : Bool := false
deriving DecidableEq

namespace Limits

def trusted : Limits := { trust := true }

/-- The number that `raw` stands for, blanks around it ignored; `default` if there is
none, or it is no signed 32-bit integer. -/
def resolve (raw : Option String) (default : Int32) : Int32 :=
  (raw.bind fun text => Text.readInt32? (Text.trimBlanks text.toList)).getD default

def charsVariable : String := "PALISADE_MAX_CHARS"

def depthVariable : String := "PALISADE_MAX_DEPTH"

def tokensVariable : String := "PALISADE_MAX_TOKENS"

def nodesVariable : String := "PALISADE_MAX_NODES"

def variableNames : List String := [charsVariable, depthVariable, tokensVariable, nodesVariable]

def ofLookup (lookup : String → Option String) : Limits where
  chars := resolve (lookup charsVariable) ({} : Limits).chars
  depth := resolve (lookup depthVariable) ({} : Limits).depth
  tokens := resolve (lookup tokensVariable) ({} : Limits).tokens
  nodes := resolve (lookup nodesVariable) ({} : Limits).nodes

/-- The ceiling for a number: none under trust or if the number is not positive. -/
def ceiling? (limits : Limits) (value : Int32) : Option UInt32 :=
  if limits.trust ∨ value ≤ 0 then none else some value.toUInt32

def charCeiling? (limits : Limits) : Option UInt32 := limits.ceiling? limits.chars

def depthCeiling? (limits : Limits) : Option UInt32 := limits.ceiling? limits.depth

def tokenCeiling? (limits : Limits) : Option UInt32 := limits.ceiling? limits.tokens

def nodeCeiling? (limits : Limits) : Option UInt32 := limits.ceiling? limits.nodes

end Limits

end GuardedQuery

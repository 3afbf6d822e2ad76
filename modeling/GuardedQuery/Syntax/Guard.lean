import GuardedQuery.Limits
import GuardedQuery.Syntax.Event

/-! # The parse guard

An observer that vetoes the event with which too many rules are open or too many
significant tokens are taken.  The two ceilings are independent; whichever is passed
first decides.

- `Guard`: the ceilings and the counts, in 32-bit words.
- `Guard.ofLimits?`: the guard for some limits, if it has anything to check.
- `Guard.observe`: counts an event.
-/

namespace GuardedQuery

structure Guard where
  maxDepth : Option UInt32
  maxTokens : Option UInt32
  depth : UInt32 := 0
  tokens : UInt32 := 0
deriving Repr, DecidableEq

namespace Guard

def ofLimits? (limits : Limits) : Option Guard :=
  if limits.depthCeiling?.isNone ∧ limits.tokenCeiling?.isNone then none
  else some { maxDepth := limits.depthCeiling?, maxTokens := limits.tokenCeiling? }

def passed? (ceiling : Option UInt32) (count : UInt32) : Option UInt32 :=
  ceiling.filter (· < count)

def faultAt (source : Source) (cause : Cause) (range : ByteRange) (text : String) : Fault :=
  { cause, offending := some text, location := source.locate range.start }

def observe (source : Source) : Observer Guard := fun guard event =>
  match event with
  | .enter _ range text =>
    let guard := { guard with depth := guard.depth + 1 }
    (guard, (passed? guard.maxDepth guard.depth).map fun ceiling =>
      faultAt source (.tooDeep ceiling) range text)
  | .exit _ =>
    ({ guard with depth := if guard.depth = 0 then 0 else guard.depth - 1 }, none)
  | .terminal _ range text =>
    let guard := { guard with tokens := guard.tokens + 1 }
    (guard, (passed? guard.maxTokens guard.tokens).map fun ceiling =>
      faultAt source (.tooManyTokens ceiling) range text)
  | .anomaly _ => (guard, none)

end Guard

end GuardedQuery

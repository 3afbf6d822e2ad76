import GuardedQuery.Source.Location

/-! # Faults

A fault ends a parse or a validation.  It has a cause, the text it was raised at and,
where one is known, a location.

- `FaultKind`: the kinds that callers tell apart.
- `Cause`: what went wrong, with what the wording needs.
- `Fault`: a cause and where it arose.
-/

namespace GuardedQuery

inductive FaultKind where
  | characterLimitExceeded
  | ruleDepthExceeded
  | tokenCountExceeded
  | syntaxError
  | trailingInput
  | nodeCountExceeded
deriving Repr, DecidableEq

namespace FaultKind

def name : FaultKind → String
  | characterLimitExceeded => "CharacterLimitExceeded"
  | ruleDepthExceeded => "RuleDepthExceeded"
  | tokenCountExceeded => "TokenCountExceeded"
  | syntaxError => "SyntaxError"
  | trailingInput => "TrailingInput"
  | nodeCountExceeded => "NodeCountExceeded"

def all : List FaultKind :=
  [characterLimitExceeded, ruleDepthExceeded, tokenCountExceeded, syntaxError, trailingInput,
    nodeCountExceeded]

def ofName? (name : String) : Option FaultKind :=
  all.find? (·.name == name)

end FaultKind

inductive Cause where
  | unreadable (fault : ReadFault)
  | tooDeep (ceiling : UInt32)
  | tooManyTokens (ceiling : UInt32)
  | unexpected (offending expectation : String)
  /-- A complete document is followed by more tokens, `offending` the last of them. -/
  | trailing (offending : String)
  | tooManyNodes (ceiling : UInt32)
  | raised (kind : FaultKind) (message : String)
deriving Repr, DecidableEq

namespace Cause

def kind : Cause → FaultKind
  | unreadable _ => .characterLimitExceeded
  | tooDeep _ => .ruleDepthExceeded
  | tooManyTokens _ => .tokenCountExceeded
  | unexpected .. => .syntaxError
  | trailing _ => .trailingInput
  | tooManyNodes _ => .nodeCountExceeded
  | raised kind _ => kind

def message : Cause → String
  | unreadable fault => fault.message
  | tooDeep ceiling =>
    "More than " ++ toString ceiling ++ " deep 'grammar' rules have been entered. " ++
      "To prevent Denial Of Service attacks, parsing has been cancelled."
  | tooManyTokens ceiling =>
    "More than " ++ toString ceiling ++ " 'grammar' tokens have been presented. " ++
      "To prevent Denial Of Service attacks, parsing has been cancelled."
  | unexpected offending expectation =>
    "Invalid syntax with offending token '" ++ offending ++ "': " ++ expectation
  | trailing offending =>
    "Invalid syntax encountered. There are extra tokens in the text that have not been " ++
      "consumed. Offending token '" ++ offending ++ "'"
  | tooManyNodes ceiling =>
    "Validation aborted: too many nodes (max is " ++ toString ceiling ++ ")"
  | raised _ message => message

end Cause

structure Fault where
  cause : Cause
  offending : Option String := none
  location : Option Located := none
deriving Repr, DecidableEq

namespace Fault

def kind (fault : Fault) : FaultKind := fault.cause.kind

def message (fault : Fault) : String := fault.cause.message

end Fault

end GuardedQuery

import GuardedQuery.Validation.OperationNames
import GuardedQuery.Validation.VariableUsage

/-! # Rules

A rule takes note of visits and reports findings, on the way or at the end of the
document.  It can neither stop the visits nor see what other rules find.

- `RuleName`: the rules there are.
- `Rule`: a rule and what it knows.
-/

namespace GuardedQuery

inductive RuleName where
  | operationNames
  | fragmentUsage
  | variableUsage
deriving Repr, DecidableEq

namespace RuleName

def label : RuleName → String
  | operationNames => "OperationNames"
  | fragmentUsage => "FragmentUsage"
  | variableUsage => "VariableUsage"

/-- All rules, in the order in which a validation runs them unless told otherwise. -/
def all : List RuleName :=
  [operationNames, fragmentUsage, variableUsage]

def ofLabel? (label : String) : Option RuleName :=
  all.find? (·.label == label)

end RuleName

inductive Rule where
  | operationNames (state : OperationNames)
  | fragmentUsage (state : FragmentUsage)
  | variableUsage (state : VariableUsage)
deriving Repr, DecidableEq

namespace Rule

def fresh : RuleName → Rule
  | .operationNames => operationNames {}
  | .fragmentUsage => fragmentUsage {}
  | .variableUsage => variableUsage {}

def visit (rule : Rule) (next : Visit) : Rule × List Finding :=
  match rule with
  | operationNames state => let (state, found) := state.visit next; (operationNames state, found)
  | fragmentUsage state => let (state, found) := state.visit next; (fragmentUsage state, found)
  | variableUsage state => (variableUsage (state.visit next), [])

def leave : Rule → List Finding
  | operationNames _ => []
  | fragmentUsage state => state.leave
  | variableUsage state => state.leave

end Rule

end GuardedQuery

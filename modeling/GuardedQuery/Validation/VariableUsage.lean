import GuardedQuery.Validation.FragmentUsage

/-! # Variable usage

Every variable that an operation uses is defined by it, and every variable it defines is
used, in the operation itself or in a fragment that it reaches.

- `VariableScope`: the variables and spreads of one definition.
- `OperationScope`: the same for an operation, with what it defines.
- `VariableUsage`: what the rule knows.
-/

namespace GuardedQuery

structure VariableScope where
  used : List (String × ByteRange) := []
  spreads : List String := []
deriving Repr, DecidableEq

namespace VariableScope

def use (scope : VariableScope) (target : Variable) : VariableScope :=
  { scope with used := scope.used ++ [(target.name.text, target.range)] }

def spread (scope : VariableScope) (name : String) : VariableScope :=
  { scope with spreads := scope.spreads ++ [name] }

end VariableScope

structure OperationScope where
  name : Option String
  defined : ByName ByteRange := {}
  scope : VariableScope := {}
deriving Repr, DecidableEq

namespace OperationScope

def suffix (operation : OperationScope) : String :=
  match operation.name with
  | some name => " by operation '" ++ name ++ "'"
  | none => ""

end OperationScope

structure VariableUsage where
  operations : List OperationScope := []
  fragments : ByName VariableScope := {}
  owner : Owner := .nobody
deriving Repr, DecidableEq

namespace VariableUsage

def updateOperation (rule : VariableUsage) (change : OperationScope → OperationScope) :
    VariableUsage :=
  match rule.operations with
  | [] => rule
  | latest :: earlier => { rule with operations := change latest :: earlier }

def updateScope (rule : VariableUsage) (change : VariableScope → VariableScope) :
    VariableUsage :=
  match rule.owner with
  | .nobody => rule
  | .operation => rule.updateOperation fun latest => { latest with scope := change latest.scope }
  | .fragment name => { rule with fragments := rule.fragments.update name change }

def allUses (rule : VariableUsage) (scope : VariableScope) : List (String × ByteRange) :=
  let graph : ByName (List String) :=
    ⟨rule.fragments.entries.map fun (name, scope) => (name, scope.spreads)⟩
  scope.used ++ (graph.reach scope.spreads).flatMap fun name =>
    ((rule.fragments.get? name).map (·.used)).getD []

def distinct (uses : List (String × ByteRange)) : List (String × ByteRange) :=
  (uses.foldl (fun seen use => if seen.contains use then seen else use :: seen) []).reverse

/-- The findings for one operation: its undefined variables by use, then its unused ones
by definition. -/
def judge (rule : VariableUsage) (operation : OperationScope) : List Finding :=
  let uses := rule.allUses operation.scope
  let undefined := distinct (uses.filter fun (name, _) => !operation.defined.contains name)
  let unused := operation.defined.entries.filter fun (name, _) => !uses.any (·.1 == name)
  (undefined.map fun (name, range) =>
    { kind := .undefinedVariable, range
      message := "variable '$" ++ name ++ "' is not defined" ++ operation.suffix }) ++
  (unused.map fun (name, range) =>
    { kind := .unusedVariable, range
      message := "variable '$" ++ name ++ "' is never used" ++ operation.suffix })

def visit (rule : VariableUsage) : Visit → VariableUsage
  | .operation o =>
    { rule with
      operations := { name := o.name.map (·.text) } :: rule.operations
      owner := .operation }
  | .fragment f =>
    { rule with
      fragments := rule.fragments.insertNew f.name.text {}
      owner := .fragment f.name.text }
  | .variableDefinition d =>
    rule.updateOperation fun latest =>
      { latest with defined := latest.defined.insertNew d.target.name.text d.target.range }
  | .spread s => rule.updateScope (·.spread s.name.text)
  | .use target => rule.updateScope (·.use target)
  | _ => rule

def leave (rule : VariableUsage) : List Finding :=
  rule.operations.reverse.flatMap rule.judge

end VariableUsage

end GuardedQuery

import GuardedQuery.Executable.Visit
import GuardedQuery.Validation.Finding

/-! # Operation names

An operation without a name must be the only operation, and no two operations may share
a name.
-/

namespace GuardedQuery

structure OperationNames where
  count : Nat := 0
  seen : List String := []
deriving Repr, DecidableEq

namespace OperationNames

def judge (rule : OperationNames) (operation : Operation) : OperationNames × List Finding :=
  match operation.name with
  | none =>
    (rule, if 1 < rule.count then
      [{ kind := .loneAnonymousOperation, range := operation.head.range }] else [])
  | some name =>
    if rule.seen.contains name.text then
      (rule, [{ kind := .duplicateOperationName, range := name.range,
                message := "there can be only one operation named '" ++ name.text ++ "'" }])
    else ({ rule with seen := name.text :: rule.seen }, [])

def visit (rule : OperationNames) : Visit → OperationNames × List Finding
  | .document doc => ({ rule with count := doc.operations.length }, [])
  | .operation o => rule.judge o
  | _ => (rule, [])

end OperationNames

end GuardedQuery

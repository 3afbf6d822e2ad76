import GuardedQuery.Document
import GuardedQuery.Executable.Read
import GuardedQuery.Validation.Rule

/-! # Validation

One walk over a document serves all rules.  A ceiling on the number of fields is checked
on the same walk, before the rules see a field, and is the only thing that ends it early.

- `FieldGuard`: the ceiling and the count, in 32-bit words.
- `Validator`: the guard, the rules and their findings.
- `Document.validate`: validates with all rules.
-/

namespace GuardedQuery

structure FieldGuard where
  ceiling : UInt32
  count : UInt32 := 0
deriving Repr, DecidableEq

namespace FieldGuard

def ofLimits? (limits : Limits) : Option FieldGuard :=
  limits.nodeCeiling?.map fun ceiling => { ceiling }

def check (guard : FieldGuard) (field : Field) : FieldGuard × Option Fault :=
  let guard := { guard with count := guard.count + 1 }
  (guard, if guard.count ≤ guard.ceiling then none else
    some { cause := .tooManyNodes guard.ceiling, offending := some field.name.text })

end FieldGuard

structure Validator where
  guard : Option FieldGuard
  rules : List Rule := RuleName.all.map Rule.fresh
  findings : Findings := {}

namespace Validator

def ofLimits (limits : Limits) : Validator where
  guard := FieldGuard.ofLimits? limits

def visitRules (validator : Validator) (next : Visit) : Validator :=
  let told := validator.rules.map (·.visit next)
  { validator with
    rules := told.map (·.1)
    findings := validator.findings.pushAll (told.flatMap (·.2)) }

def visit (validator : Validator) (next : Visit) : Validator × Option Fault :=
  match next, validator.guard with
  -- The count comes first: no rule sees a field that is one too many.
  | .field f, some guard =>
    match guard.check f with
    | (guard, some fault) => ({ validator with guard := some guard }, some fault)
    | (guard, none) => ({ validator with guard := some guard }.visitRules next, none)
  | _, _ => (validator.visitRules next, none)

def leave (validator : Validator) : Validator :=
  { validator with findings := validator.findings.pushAll (validator.rules.flatMap (·.leave)) }

def run (validator : Validator) (document : Document) : Except Fault Findings :=
  match traverse visit validator document.executable.visits with
  | (_, some fault) => .error fault
  | (validator, none) => .ok validator.leave.findings.sorted

end Validator

namespace Document

def validate (document : Document) (limits : Limits) : Except Fault Findings :=
  (Validator.ofLimits limits).run document

end Document

end GuardedQuery

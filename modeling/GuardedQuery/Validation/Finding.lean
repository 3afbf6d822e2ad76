import GuardedQuery.Source.Location
import GuardedQuery.Token.Basic

/-! # Findings

A finding says what is wrong with a parsed document and where.  Findings are collected
up to a capacity.

- `FindingKind`: the kinds, their standing messages and hints.
- `Finding`: a kind, a range and a message.
- `Findings`: a collector with a capacity.
-/

namespace GuardedQuery

/-- The kinds of finding, in the order that breaks ties between findings at one place. -/
inductive FindingKind where
  | loneAnonymousOperation
  | duplicateOperationName
  | undefinedFragment
  | unusedFragment
  | fragmentCycle
  | undefinedVariable
  | unusedVariable
  /-- Stands for all findings that were dropped. -/
  | maxValidationErrorsReached
deriving Repr, DecidableEq

namespace FindingKind

def label : FindingKind → String
  | loneAnonymousOperation => "LoneAnonymousOperation"
  | duplicateOperationName => "DuplicateOperationName"
  | undefinedFragment => "UndefinedFragment"
  | unusedFragment => "UnusedFragment"
  | fragmentCycle => "FragmentCycle"
  | undefinedVariable => "UndefinedVariable"
  | unusedVariable => "UnusedVariable"
  | maxValidationErrorsReached => "MaxValidationErrorsReached"

def all : List FindingKind :=
  [loneAnonymousOperation, duplicateOperationName, undefinedFragment, unusedFragment,
    fragmentCycle, undefinedVariable, unusedVariable, maxValidationErrorsReached]

def ofLabel? (label : String) : Option FindingKind :=
  all.find? (·.label == label)

def rank (kind : FindingKind) : Nat :=
  all.idxOf kind

def standingMessage : FindingKind → String
  | loneAnonymousOperation => "an anonymous operation must be the only defined operation"
  | duplicateOperationName => "operation names must be unique"
  | undefinedFragment => "undefined fragment"
  | unusedFragment => "unused fragment"
  | fragmentCycle => "fragment spreads must not form cycles"
  | undefinedVariable => "undefined variable"
  | unusedVariable => "unused variable"
  | maxValidationErrorsReached => "the maximum number of validation errors has been reached"

def hint? : FindingKind → Option String
  | loneAnonymousOperation => some "give every operation a name"
  | unusedVariable => some "remove it from the variable definitions"
  | _ => none

end FindingKind

structure Finding where
  kind : FindingKind
  range : ByteRange
  message : String := kind.standingMessage
deriving Repr, DecidableEq

namespace Finding

def locate (finding : Finding) (source : Source) : Option Located :=
  source.locate finding.range.start

def before (a b : Finding) : Bool :=
  a.range.start < b.range.start ||
    (a.range.start == b.range.start && a.kind.rank ≤ b.kind.rank)

end Finding

structure Findings where
  capacity : Nat := 100
  entries : Array Finding := #[]
deriving Repr, DecidableEq

namespace Findings

def size (findings : Findings) : Nat :=
  findings.entries.size

def isEmpty (findings : Findings) : Bool :=
  findings.entries.isEmpty

def toList (findings : Findings) : List Finding :=
  findings.entries.toList

def isFull (findings : Findings) : Bool :=
  findings.entries.back?.any (·.kind = .maxValidationErrorsReached)

/-- Collects a finding.  The first one past the capacity leaves a mark in its place, and
all later ones are dropped. -/
def push (findings : Findings) (finding : Finding) : Findings :=
  if findings.size < findings.capacity then
    { findings with entries := findings.entries.push finding }
  else if findings.isFull then findings
  else
    let mark : Finding := { kind := .maxValidationErrorsReached, range := finding.range }
    { findings with entries := findings.entries.push mark }

def pushAll (findings : Findings) (more : List Finding) : Findings :=
  more.foldl push findings

/-- The findings in document order, those at one place by kind and then as they were.
The mark of dropped findings stays last. -/
def sorted (findings : Findings) : Findings :=
  let (ordinary, mark) :=
    if findings.isFull then (findings.entries.pop, findings.entries.back?.toList)
    else (findings.entries, [])
  { findings with entries := (ordinary.toList.mergeSort Finding.before ++ mark).toArray }

end Findings

end GuardedQuery

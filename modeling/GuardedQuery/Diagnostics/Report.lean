import GuardedQuery.Document
import GuardedQuery.Text.Json
import GuardedQuery.Validation.Finding

/-! # Reports

The outcome of checking a document, and its form as JSON.

- `Fault.toJson`, `Finding.toJson`: a fault and a finding as members of a report.
- `Verdict`: a document with its findings, or the fault that rejects it.
- `Verdict.report`: the whole report.
-/

namespace GuardedQuery

def Location.toJson (location : Location) : Json :=
  .object [
    ("source_name", .ofOption .string location.name),
    ("line", .number location.line.toNat),
    ("column", .number location.column.toNat),
    ("offset", .number location.offset)]

def Fault.toJson (fault : Fault) : Json :=
  .object [
    ("kind", .string fault.kind.name),
    ("span", .ofOption Location.toJson (fault.location.bind (·.location?))),
    ("message", .string fault.message),
    ("offending_text", .ofOption .string fault.offending)]

def Finding.toJson (source : Source) (finding : Finding) : Json :=
  .object [
    ("kind", .string finding.kind.label),
    ("message", .string finding.message),
    ("location", .ofOption Location.toJson ((finding.locate source).bind (·.location?)))]

inductive Verdict where
  | rejected (fault : Fault)
  | checked (document : Document) (findings : Findings)

namespace Verdict

def isValid : Verdict → Bool
  | rejected _ => false
  | checked _ findings => findings.isEmpty

def report (source : Source) (verdict : Verdict) : Json :=
  let valid := ("valid", Json.bool verdict.isValid)
  match verdict with
  | rejected fault => .object [valid, ("error", fault.toJson), ("findings", .array [])]
  | checked document findings =>
    .object [
      valid,
      ("operations", .number document.operationCount),
      ("fragments", .number document.fragmentCount),
      ("findings", .array (findings.toList.map (Finding.toJson source)))]

end Verdict

end GuardedQuery

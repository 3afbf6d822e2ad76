import GuardedQuery.CommandLine.Arguments
import GuardedQuery.CommandLine.Input
import GuardedQuery.Diagnostics.Render
import GuardedQuery.Diagnostics.Report
import GuardedQuery.Validation.Validator

/-! # Running a command

From a command line and its surroundings to what the program prints and its exit code.

- `Outcome`: exit code and output.
- `Invocation.run`: a command on a loaded source.
- `runCommandLine`: the whole program.
-/

namespace GuardedQuery

structure Outcome where
  code : UInt32 := 0
  stdout : String := ""
  stderr : String := ""
deriving Repr, DecidableEq

def Event.indentedLines (depth : Nat) : List Event → List String
  | [] => []
  | event :: events =>
    let line (depth : Nat) := indentation depth ++ event.display ++ "\n"
    match event with
    | .enter .. => line depth :: indentedLines (depth + 1) events
    | .exit _ => line (depth - 1) :: indentedLines (depth - 1) events
    | .terminal .. | .anomaly _ => line depth :: indentedLines depth events

def Verdict.ofSource (limits : Limits) (skipValidation : Bool) (source : Source) : Verdict :=
  match Document.parse limits source with
  | .error fault => .rejected fault
  | .ok document =>
    if skipValidation then .checked document {}
    else
      match document.validate limits with
      | .error fault => .rejected fault
      | .ok findings => .checked document findings

def Verdict.outcome (verdict : Verdict) (format : ReportFormat) (colored : Bool)
    (source : Source) : Outcome :=
  let code := if verdict.isValid then 0 else 1
  match format, verdict with
  | .json, _ => { code, stdout := (verdict.report source).pretty ++ "\n" }
  | .text, .rejected fault => { code, stderr := renderFault colored source fault }
  | .text, .checked _ findings => { code, stderr := renderFindings colored source findings }

def Invocation.run (invocation : Invocation) (limits : Limits) (colored : Bool)
    (source : Source) : Outcome :=
  let settings := invocation.settings
  match invocation.command with
  | .check =>
    (Verdict.ofSource limits settings.skipValidation source).outcome settings.format colored source
  | .cst =>
    match Document.parse limits source with
    | .ok document =>
      { stdout := document.dump { trivia := settings.trivia, spans := settings.spans } }
    | .error fault => { code := 1, stderr := renderFault colored source fault }
  | .events =>
    let (events, result) := Document.parseRecorded limits source
    let stdout := String.join (Event.indentedLines 0 events)
    match result with
    | .ok _ => { stdout }
    | .error fault => { code := 1, stdout, stderr := renderFault colored source fault }

structure Surroundings (m : Type → Type) where
  files : FileAccess m
  lookup : String → Option String
  terminal : Bool

/-- Runs the program on the words of a command line.  A command line that cannot be read
leaves code 2, and a source that cannot be loaded code 1. -/
def runCommandLine {m : Type → Type} [Monad m] (surroundings : Surroundings m)
    (words : List String) : m Outcome := do
  match Invocation.ofArguments words with
  | .error fault => return { code := 2, stderr := fault.message ++ "\n" }
  | .ok invocation =>
    let settings := invocation.settings
    match ← (surroundings.files.load settings).run with
    | .error fault => return { code := 1, stderr := "error: " ++ fault.message ++ "\n" }
    | .ok source =>
      let limits := settings.limits (Limits.ofLookup surroundings.lookup)
      return invocation.run limits (settings.isColored surroundings.terminal) source

end GuardedQuery

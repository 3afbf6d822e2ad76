import GuardedQuery.CommandLine.Parameter
import GuardedQuery.Limits
import GuardedQuery.Text.Visible

/-! # Settings

The values that an invocation gives, and the faults of a command line.

- `ColorChoice`, `ReportFormat`: the settings with a fixed choice of values.
- `UsageFault`: what can be wrong with a command line, in words.
- `Settings`: the values given, checked one by one as they are set.
- `Settings.limits`: the limits of the environment under the values given.
-/

namespace GuardedQuery

inductive ColorChoice where
  | auto
  | always
  | never
deriving Repr, DecidableEq

def ColorChoice.ofWord? : String → Option ColorChoice
  | "auto" => some .auto
  | "always" => some .always
  | "never" => some .never
  | _ => none

inductive ReportFormat where
  | text
  | json
deriving Repr, DecidableEq

def ReportFormat.ofWord? : String → Option ReportFormat
  | "text" => some .text
  | "json" => some .json
  | _ => none

inductive NumberFault where
  | unreadable (fault : Text.IntegerFault)
  | outOfRange (number : Int)
deriving Repr, DecidableEq

def NumberFault.message : NumberFault → String
  | unreadable fault => fault.message
  | outOfRange number =>
    toString number ++ " is not in " ++ toString Int32.minValue.toInt ++ "..=" ++
      toString Int32.maxValue.toInt

inductive UsageFault where
  | noCommand
  | unknownCommand (word : String)
  | unexpectedArgument (word : String)
  | unexpectedValue (value : String) (flag : Flag)
  | missingValue (parameter : Parameter)
  | repeated (parameter : Parameter)
  | invalidChoice (value : String) (setting : Setting)
  | invalidNumber (value : String) (setting : Setting) (fault : NumberFault)
  | conflict (first second : Parameter)
deriving Repr, DecidableEq

namespace UsageFault

def message : UsageFault → String
  | noCommand => "Guarded parser and validator for GraphQL documents"
  | unknownCommand word => "error: unrecognized subcommand '" ++ Text.visible word ++ "'"
  | unexpectedArgument word => "error: unexpected argument '" ++ Text.visible word ++ "' found"
  | unexpectedValue value flag =>
    "error: unexpected value '" ++ Text.visible value ++ "' for '" ++
      (Parameter.flag flag).display ++ "' found; no more were expected"
  | missingValue parameter =>
    "error: a value is required for '" ++ parameter.display ++ "' but none was supplied"
  | repeated parameter =>
    "error: the argument '" ++ parameter.display ++ "' cannot be used multiple times"
  | invalidChoice value setting =>
    "error: invalid value '" ++ Text.visible value ++ "' for '" ++
      (Parameter.setting setting).display ++ "'"
  | invalidNumber value setting fault =>
    "error: invalid value '" ++ Text.visible value ++ "' for '" ++
      (Parameter.setting setting).display ++ "': " ++ fault.message
  | conflict first second =>
    "error: the argument '" ++ first.display ++ "' cannot be used with '" ++ second.display ++ "'"

end UsageFault

structure Settings where
  files : List String := []
  query : Option String := none
  chars : Option Int32 := none
  depth : Option Int32 := none
  tokens : Option Int32 := none
  nodes : Option Int32 := none
  trusted : Bool := false
  color : ColorChoice := .auto
  format : ReportFormat := .text
  skipValidation : Bool := false
  trivia : Bool := false
  spans : Bool := false
deriving Repr, DecidableEq

namespace Settings

def raise (settings : Settings) : Flag → Settings
  | .trusted => { settings with trusted := true }
  | .skipValidation => { settings with skipValidation := true }
  | .trivia => { settings with trivia := true }
  | .spans => { settings with spans := true }

/-- Reads the number of a limit: a signed 64-bit integer that fits 32 bits. -/
def readLimit (value : String) : Except NumberFault Int32 :=
  match Text.readInteger Int64.minValue.toInt Int64.maxValue.toInt value.toList with
  | .error fault => .error (.unreadable fault)
  | .ok number =>
    if Int32.minValue.toInt ≤ number ∧ number ≤ Int32.maxValue.toInt then
      .ok (Int32.ofInt number)
    else .error (.outOfRange number)

def readChoice {α : Type} (setting : Setting) (ofWord? : String → Option α) (value : String) :
    Except UsageFault α :=
  match ofWord? value with
  | some choice => .ok choice
  | none =>
    if value.isEmpty then .error (.missingValue (.setting setting))
    else .error (.invalidChoice value setting)

def set (settings : Settings) (setting : Setting) (value : String) : Except UsageFault Settings :=
  let number (place : Int32 → Settings) : Except UsageFault Settings :=
    match readLimit value with
    | .ok n => .ok (place n)
    | .error fault => .error (.invalidNumber value setting fault)
  match setting with
  | .query => .ok { settings with query := some value }
  | .chars => number fun n => { settings with chars := some n }
  | .depth => number fun n => { settings with depth := some n }
  | .tokens => number fun n => { settings with tokens := some n }
  | .nodes => number fun n => { settings with nodes := some n }
  | .color =>
    (readChoice setting ColorChoice.ofWord? value).map fun color => { settings with color }
  | .format =>
    (readChoice setting ReportFormat.ofWord? value).map fun format => { settings with format }

def limits (settings : Settings) (base : Limits) : Limits where
  chars := settings.chars.getD base.chars
  depth := settings.depth.getD base.depth
  tokens := settings.tokens.getD base.tokens
  nodes := settings.nodes.getD base.nodes
  trust := settings.trusted

def isColored (settings : Settings) (terminal : Bool) : Bool :=
  match settings.color with
  | .auto => terminal
  | .always => true
  | .never => false

end Settings

end GuardedQuery

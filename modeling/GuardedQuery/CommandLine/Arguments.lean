import GuardedQuery.CommandLine.Settings

/-! # Arguments

From the words of a command line to a command and its settings.  The words are read in
order; the value of a setting, and a run of files, are taken in only when the next
parameter or the end comes, and faults arise in that order.

- `Word`: the shapes of a word.
- `Reading`: what was read so far.
- `Reading.accept`: reads a word.
- `Invocation.ofArguments`: reads a whole command line.
-/

namespace GuardedQuery

inductive Word where
  | escape
  | long (name : String) (value : Option String)
  | short (letter : Char) (rest : List Char)
  | plain (text : String)
deriving Repr, DecidableEq

namespace Word

def ofString (word : String) : Word :=
  match word.toList with
  | ['-', '-'] => escape
  | '-' :: '-' :: body =>
    let name := String.ofList (body.takeWhile (· != '='))
    match body.dropWhile (· != '=') with
    | [] => long name none
    | _ :: value => long name (some (String.ofList value))
  | '-' :: letter :: rest => short letter rest
  | _ => plain word

end Word

/-- Whether the characters after the first continue a number: digits, one point, and one
exponent mark after it that is not the last character. -/
def continuesNumber (point mark : Bool) : List Char → Bool
  | [] => true
  | c :: rest =>
    if c.isDigit then continuesNumber point mark rest
    else if c = '.' ∧ ¬ point ∧ ¬ mark then continuesNumber true mark rest
    else if (c = 'e' ∨ c = 'E') ∧ ¬ mark then !rest.isEmpty && continuesNumber point true rest
    else false

def isUnsignedNumber : List Char → Bool
  | [] => false
  | c :: rest => c.isDigit && continuesNumber false false rest

/-- What was given last and is not taken in yet. -/
inductive Pending where
  | nothing
  | setting (setting : Setting) (value : Option String)
  | files (paths : List String)
deriving Repr, DecidableEq

structure Reading where
  settings : Settings := {}
  given : List Parameter := []
  pending : Pending := .nothing
  onlyFiles : Bool := false
deriving Repr, DecidableEq

namespace Reading

def note (reading : Reading) (parameter : Parameter) : Except UsageFault Reading :=
  if parameter ∈ reading.given then .error (.repeated parameter)
  else .ok { reading with given := reading.given ++ [parameter] }

def take (reading : Reading) (setting : Setting) (value : String) : Except UsageFault Reading := do
  let reading ← reading.note (.setting setting)
  return { reading with settings := ← reading.settings.set setting value }

def takeFiles (reading : Reading) (paths : List String) : Except UsageFault Reading :=
  if paths.any (·.isEmpty) then .error (.missingValue .files)
  else .ok { reading with
    settings := { reading.settings with files := reading.settings.files ++ paths }
    given := if .files ∈ reading.given then reading.given else reading.given ++ [.files] }

def settle (reading : Reading) : Except UsageFault Reading :=
  let settled := { reading with pending := .nothing }
  match reading.pending with
  | .nothing => .ok settled
  | .setting setting none => .error (.missingValue (.setting setting))
  | .setting setting (some value) => settled.take setting value
  | .files paths => settled.takeFiles paths

def flag (reading : Reading) (flag : Flag) : Except UsageFault Reading := do
  let reading ← (← reading.settle).note (.flag flag)
  return { reading with settings := reading.settings.raise flag }

def setting (reading : Reading) (setting : Setting) (attached : Option String) :
    Except UsageFault Reading := do
  let reading ← reading.settle
  match attached with
  | some value => reading.take setting value
  | none => return { reading with pending := .setting setting none }

def file (reading : Reading) (path : String) : Except UsageFault Reading :=
  match reading.pending with
  | .files paths => .ok { reading with pending := .files (paths ++ [path]) }
  | _ => reading.settle.map fun reading => { reading with pending := .files [path] }

def text (reading : Reading) (text : String) : Except UsageFault Reading :=
  match reading.pending with
  | .setting setting none => .ok { reading with pending := .setting setting (some text) }
  | _ => reading.file text

def long (command : Command) (reading : Reading) (name : String) (value : Option String) :
    Except UsageFault Reading :=
  -- A name that is not known is at fault before anything that is pending.
  match command.flag? name, command.setting? name, value with
  | some flag, _, none => reading.flag flag
  | some flag, _, some value => .error (.unexpectedValue value flag)
  | none, some setting, value => reading.setting setting value
  | none, none, _ => .error (.unexpectedArgument ("--" ++ name))

def attachedValue : List Char → Option String
  | [] => none
  | '=' :: value => some (String.ofList value)
  | value => some (String.ofList value)

/-- Reads a letter behind one dash.  A setting that waits for a number takes a negative
one. -/
def short (command : Command) (reading : Reading) (letter : Char) (rest : List Char) :
    Except UsageFault Reading :=
  let waitsForNumber : Bool := match reading.pending with
    | .setting setting none => setting.isNumeric
    | _ => false
  if waitsForNumber && isUnsignedNumber (letter :: rest) then
    reading.text (String.ofList ('-' :: letter :: rest))
  else
    match command.settingOfLetter? letter with
    | some setting => reading.setting setting (attachedValue rest)
    | none => .error (.unexpectedArgument (String.ofList ['-', letter]))

def accept (command : Command) (reading : Reading) (word : String) : Except UsageFault Reading :=
  if reading.onlyFiles then reading.file word
  else
    match Word.ofString word with
    | .escape => .ok { reading with onlyFiles := true }
    | .long name value => long command reading name value
    | .short letter rest => short command reading letter rest
    | .plain text => reading.text text

def finish (reading : Reading) : Except UsageFault Settings := do
  let reading ← reading.settle
  match reading.given.filter (· ∈ [Parameter.files, .setting .query]) with
  | first :: second :: _ => throw (.conflict first second)
  | _ => return reading.settings

end Reading

structure Invocation where
  command : Command
  settings : Settings
deriving Repr, DecidableEq

namespace Invocation

def ofWords (command : Command) (words : List String) : Except UsageFault Invocation := do
  let reading ← words.foldlM (Reading.accept command) {}
  return ⟨command, ← reading.finish⟩

def ofArguments : List String → Except UsageFault Invocation
  | [] => .error .noCommand
  | word :: words =>
    match Word.ofString word with
    | .escape =>
      match words with
      | [] => .error .noCommand
      | word :: _ =>
        if (Command.ofName? word).isSome then .error (.unexpectedArgument word)
        else .error (.unknownCommand word)
    | .long name _ => .error (.unexpectedArgument ("--" ++ name))
    | .short letter _ => .error (.unexpectedArgument (String.ofList ['-', letter]))
    | .plain text =>
      match Command.ofName? text with
      | some command => ofWords command words
      | none => .error (.unknownCommand text)

end Invocation

end GuardedQuery

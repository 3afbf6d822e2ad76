/-! # Commands and their parameters

The commands of the program and what each can be given.  A parameter is a flag, a
setting, which takes a value, or the list of files.

- `Command`, `Flag`, `Setting`, `Parameter`: the names.
- `Command.flags`, `Command.settings`: what a command admits.
- `Parameter.display`: how messages name a parameter.
-/

namespace GuardedQuery

inductive Command where
  | check
  | cst
  | events
deriving Repr, DecidableEq

namespace Command

def name : Command → String
  | check => "check"
  | cst => "cst"
  | events => "events"

def all : List Command := [check, cst, events]

def ofName? (name : String) : Option Command :=
  all.find? (·.name == name)

end Command

inductive Flag where
  | trusted
  | skipValidation
  | trivia
  | spans
deriving Repr, DecidableEq

namespace Flag

def name : Flag → String
  | trusted => "trusted"
  | skipValidation => "no-validate"
  | trivia => "trivia"
  | spans => "spans"

end Flag

inductive Setting where
  | query
  | chars
  | depth
  | tokens
  | nodes
  | color
  | format
deriving Repr, DecidableEq

namespace Setting

def name : Setting → String
  | query => "query"
  | chars => "max-chars"
  | depth => "max-depth"
  | tokens => "max-tokens"
  | nodes => "max-nodes"
  | color => "color"
  | format => "format"

def letter? : Setting → Option Char
  | query => some 'q'
  | _ => none

def placeholder : Setting → String
  | query => "TEXT"
  | chars | depth | tokens | nodes => "N"
  | color => "WHEN"
  | format => "FORMAT"

def isNumeric : Setting → Bool
  | chars | depth | tokens | nodes => true
  | query | color | format => false

end Setting

namespace Command

def flags : Command → List Flag
  | check => [.skipValidation, .trusted]
  | cst => [.trivia, .spans, .trusted]
  | events => [.trusted]

def inputSettings : List Setting :=
  [.query, .chars, .depth, .tokens, .nodes, .color]

def settings : Command → List Setting
  | check => .format :: inputSettings
  | cst | events => inputSettings

def flag? (command : Command) (name : String) : Option Flag :=
  command.flags.find? (·.name == name)

def setting? (command : Command) (name : String) : Option Setting :=
  command.settings.find? (·.name == name)

def settingOfLetter? (command : Command) (letter : Char) : Option Setting :=
  command.settings.find? (·.letter? == some letter)

end Command

inductive Parameter where
  | flag (flag : Flag)
  | setting (setting : Setting)
  | files
deriving Repr, DecidableEq

namespace Parameter

def display : Parameter → String
  | flag f => "--" ++ f.name
  | setting s => "--" ++ s.name ++ " <" ++ s.placeholder ++ ">"
  | files => "[FILES]..."

end Parameter

end GuardedQuery

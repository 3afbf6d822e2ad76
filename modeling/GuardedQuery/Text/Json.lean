/-! # JSON

A JSON value and its two written forms, on one line and indented by two blanks a level.
Members of objects keep their order.  Only what must be escaped is.

- `Json`: the values.
- `Json.compact`, `Json.pretty`: the written forms.
-/

namespace GuardedQuery

inductive Json where
  | null
  | bool (value : Bool)
  | number (value : Nat)
  | string (value : String)
  | array (items : List Json)
  | object (members : List (String × Json))

namespace Json

def escapedChar (c : Char) : List Char :=
  match c with
  | '"' => ['\\', '"']
  | '\\' => ['\\', '\\']
  | '\x08' => ['\\', 'b']
  | '\x0c' => ['\\', 'f']
  | '\n' => ['\\', 'n']
  | '\r' => ['\\', 'r']
  | '\t' => ['\\', 't']
  | c =>
    if c.toNat < 0x20 then
      let digits := Nat.toDigits 16 c.toNat
      '\\' :: 'u' :: (List.replicate (4 - digits.length) '0' ++ digits)
    else [c]

def quotedString (text : String) : String :=
  String.ofList ('"' :: (text.toList.flatMap escapedChar ++ ['"']))

def atom : Json → String
  | null => "null"
  | bool true => "true"
  | bool false => "false"
  | number value => toString value
  | string value => quotedString value
  | array _ => "[]"
  | object _ => "\x7b\x7d"

mutual

def compact : Json → String
  | array items => "[" ++ compactItems items ++ "]"
  | object members => "\x7b" ++ compactMembers members ++ "\x7d"
  | value => value.atom

def compactItems : List Json → String
  | [] => ""
  | [item] => compact item
  | item :: items => compact item ++ "," ++ compactItems items

def compactMembers : List (String × Json) → String
  | [] => ""
  | [(key, value)] => quotedString key ++ ":" ++ compact value
  | (key, value) :: members =>
    quotedString key ++ ":" ++ compact value ++ "," ++ compactMembers members

end

def newLine (level : Nat) : String :=
  "\n" ++ String.ofList (List.replicate (2 * level) ' ')

mutual

/-- The value over several lines, its own line at the given level.  Arrays and objects
without parts stay on one line. -/
def prettyAt (level : Nat) : Json → String
  | array (item :: items) =>
    "[" ++ newLine (level + 1) ++ prettyItems (level + 1) (item :: items) ++ newLine level ++ "]"
  | object (member :: members) =>
    "\x7b" ++ newLine (level + 1) ++ prettyMembers (level + 1) (member :: members) ++
      newLine level ++ "\x7d"
  | value => value.atom

def prettyItems (level : Nat) : List Json → String
  | [] => ""
  | [item] => prettyAt level item
  | item :: items => prettyAt level item ++ "," ++ newLine level ++ prettyItems level items

def prettyMembers (level : Nat) : List (String × Json) → String
  | [] => ""
  | [(key, value)] => quotedString key ++ ": " ++ prettyAt level value
  | (key, value) :: members =>
    quotedString key ++ ": " ++ prettyAt level value ++ "," ++ newLine level ++
      prettyMembers level members

end

def pretty (value : Json) : String :=
  value.prettyAt 0

def ofOption {α : Type} (f : α → Json) : Option α → Json
  | some value => f value
  | none => null

end Json

end GuardedQuery

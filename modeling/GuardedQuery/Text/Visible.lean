/-! # Visible text

A word of a command line may hold controls that would steer a terminal: single characters,
and sequences of characters behind an escape.  Messages show the word without them.

- `Sequence`: how far a control sequence is read.
- `visible`: the text without controls and control sequences.
-/

namespace GuardedQuery.Text

inductive Sequence where
  | nothing
  | escape
  | marked
  | parameters
  | string
  | title
deriving Repr, DecidableEq

namespace Sequence

/-- The sequence after one more character.  An escape starts anew from everywhere, and the
controls CAN and SUB cancel. -/
def next (sequence : Sequence) (c : Char) : Sequence :=
  if c = '\x1b' then escape
  else if c = '\x18' ∨ c = '\x1a' then nothing
  else
    let within (low high : Char) : Bool := low ≤ c && c ≤ high
    match sequence with
    | nothing => nothing
    | escape =>
      if within ' ' '/' then marked
      else if c = '[' then parameters
      else if c = ']' then title
      else if c ∈ ['P', 'X', '^', '_'] then string
      else if within '0' '~' then nothing
      else escape
    | marked => if within '0' '~' then nothing else marked
    | parameters => if within '@' '~' then nothing else parameters
    | string => string
    | title => if c = '\x07' then nothing else title

/-- Whether a character at this place is text.  Line ends, tabs and form feeds are, even in
the middle of a sequence, but not in a string. -/
def shows (sequence : Sequence) (c : Char) : Bool :=
  if c ∈ ['\t', '\n', '\x0c', '\r'] then sequence != string && sequence != title
  else sequence == nothing && ' ' ≤ c && c != '\x7f'

end Sequence

/-- What is visible of a text behind a sequence.  Text that has begun goes on until a
control comes; what was read of a sequence before it counts again then, unless a character
outside ASCII came. -/
def visibleAfter (sequence : Sequence) (begun : Bool) : List Char → List Char
  | [] => []
  | c :: rest =>
    if (if begun then Sequence.nothing else sequence).shows c then
      c :: visibleAfter (if c.toNat < 0x80 then sequence else .nothing) true rest
    else visibleAfter (sequence.next c) false rest

def visible (text : String) : String :=
  String.ofList (visibleAfter .nothing false text.toList)

end GuardedQuery.Text

import GuardedQuery.Text.Blank
import GuardedQuery.Text.Bytes
import GuardedQuery.Text.Columns

/-! # Source lines

A content cut into the lines that an excerpt shows.  A line ends at a line feed, and a
carriage return before it belongs to the line end.

- `SourceLine`: a line and where it stands.
- `SourceLine.ofContent`: all lines of a content.
- `Point`: a position in lines, characters and display columns.
- `Point.ofRange`: the two points of a range.
- `shown`, `shownText`: a text as it is displayed.
-/

namespace GuardedQuery

structure SourceLine where
  number : Nat
  start : Nat
  text : List Char
  /-- The size of the line end in bytes. -/
  endSize : Nat
deriving Repr, DecidableEq

namespace SourceLine

def textStop (line : SourceLine) : Nat :=
  line.start + Text.byteLength line.text

def stop (line : SourceLine) : Nat :=
  line.textStop + line.endSize

def ended (number start : Nat) : List Char → SourceLine
  | '\r' :: read => ⟨number, start, read.reverse, 2⟩
  | read => ⟨number, start, read.reverse, 1⟩

def cut (number start : Nat) (read : List Char) (lines : List SourceLine) :
    List Char → List SourceLine
  | [] => (if read.isEmpty then lines else ⟨number, start, read.reverse, 0⟩ :: lines).reverse
  | '\n' :: rest =>
    let line := ended number start read
    cut (number + 1) line.stop [] (line :: lines) rest
  | c :: rest => cut number start (c :: read) lines rest

/-- The lines of a content.  An empty content is one empty line; nothing follows the last
line end. -/
def ofContent (content : List Char) : List SourceLine :=
  match cut 1 0 [] [] content with
  | [] => [⟨1, 0, [], 0⟩]
  | lines => lines

/-- Whether a line holds nothing that is worth showing: blanks, a note behind two
slashes, or one bracket. -/
def isBare (text : List Char) : Bool :=
  let trimmed := Text.trimBlanks text
  let starts (mark : String) := mark.toList.isPrefixOf trimmed
  (starts "//" && !(starts "///" || starts "//!")) ||
    ["", "\x7b", "\x7d", "(", ")", "[", "]"].any (·.toList == trimmed)

end SourceLine

def turnsWriting (c : Char) : Bool :=
  ('\u202a' ≤ c && c ≤ '\u202e') || ('\u2066' ≤ c && c ≤ '\u2069')

def shownColumns (c : Char) : Nat :=
  if c = '\t' then 4
  else if c.toNat < 0x20 || turnsWriting c then 1
  else Text.columns c

/-- How a character shows in an excerpt: a tab as four blanks, another control character
as its picture, a mark that would change the direction of writing as a replacement. -/
def shownChar (c : Char) : List Char :=
  if c = '\t' then [' ', ' ', ' ', ' ']
  else if c.toNat < 0x20 then [Char.ofNat (0x2400 + c.toNat)]
  else if c = '\x7f' then ['\u2421']
  else if c = '\u200d' then []
  else if turnsWriting c then ['\ufffd']
  else [c]

/-- How a text shows in an excerpt. -/
def shown (text : List Char) : List Char :=
  text.flatMap shownChar

def shownText (text : String) : String :=
  String.ofList (shown text.toList)

structure Point where
  line : Nat
  /-- Characters before it on the line. -/
  char : Nat
  /-- Columns before it on the line. -/
  column : Nat
deriving Repr, DecidableEq

namespace Point

/-- The position of an offset on its line.  An offset behind the text of the line has the
column of the line end. -/
def onLine (line : SourceLine) (offset : Nat) : Point :=
  let before := Text.takeBytes (offset - line.start) line.text
  ⟨line.number, before.length, before.foldl (fun n c => n + shownColumns c) 0⟩

def lineOf (first : SourceLine) (rest : List SourceLine) (offset : Nat) : SourceLine :=
  ((first :: rest).find? fun line => line.start ≤ offset && offset < line.stop).getD
    ((first :: rest).getLast (by simp))

/-- Where a range starts and stops.  A start behind the text of its line counts the line
end as one more character.  A range over several lines that stops within a line end stops
one column behind the text. -/
def ofRange (first : SourceLine) (rest : List SourceLine) (start stop : Nat) : Point × Point :=
  let startLine := lineOf first rest start
  let atStart := onLine startLine start
  let low :=
    if startLine.textStop < start then { atStart with char := atStart.char + 1 } else atStart
  if start = stop then (low, low)
  else
    let stopLine := lineOf first rest stop
    let high := onLine stopLine stop
    if low.line ≠ high.line ∧ stopLine.textStop < stop then
      (low, { high with char := high.char + 1, column := high.column + 1 })
    else (low, high)

end Point

end GuardedQuery

import GuardedQuery.Diagnostics.SourceLine

/-! # The window of an excerpt

An excerpt shows the same columns of all its lines.  Blanks that all of its lines start with
are cut off if there are many of them, and so is what does not fit into the width of the
terminal.

- `Extent`: what an excerpt has to show.
- `Window`, `Window.around`: the columns that are shown, and the choice of them.
- `Window.view`: what a line shows in the window.
-/

namespace GuardedQuery

def shownWidth (text : List Char) : Nat :=
  text.foldl (fun n c => n + shownColumns c) 0

structure Extent where
  indent : Nat
  low : Nat
  high : Nat
  longest : Nat
deriving Repr, DecidableEq

namespace Extent

def indentOf (text : List Char) : Nat :=
  (text.takeWhile Text.isBlank).foldl (fun n c => n + if c = '\t' then 4 else 1) 0

/-- The extent of lines that are marked between two columns.  Lines of blanks alone do not
count for the indent. -/
def ofLines (lines : List (List Char)) (low high : Nat) : Extent where
  indent := (((lines.filter (·.any fun c => !Text.isBlank c)).map indentOf).min?).getD 0
  low := low
  high := high
  longest := lines.foldl (fun n text => max n (shownWidth text)) 0

end Extent

structure Window where
  width : Nat
  /-- The first column shown. -/
  left : Nat
  /-- The column behind the last one shown of a line that is too long. -/
  right : Nat
deriving Repr, DecidableEq

namespace Window

def room : Nat := 6

/-- The window for an extent.  More than twenty columns of blanks are cut off down to a few,
but no blank that is marked.  If the longest line still does not fit, the window starts
behind the blanks; if what is marked is not in it then, it is in the middle of the window,
and if that does not fit either, it is the window. -/
def around (width : Nat) (extent : Extent) : Window :=
  let low := extent.low - room
  let indent := min (extent.indent - room) low
  let high := extent.high + room
  let left := if 20 < indent then indent - 16 else 0
  let right := max extent.longest left
  if right - left ≤ width then ⟨width, left, right⟩
  else if high - indent ≤ width then ⟨width, indent, indent + width⟩
  else if high - low ≤ width then
    let start := low - (width - (high - low)) / 2
    ⟨width, start, start + width⟩
  else ⟨width, low, high⟩

def start (window : Window) (columns : Nat) : Nat :=
  min window.left columns

def stop (window : Window) (columns : Nat) : Nat :=
  if columns - window.left ≤ window.width then columns else min columns window.right

/-- Drops characters until they take so many columns, and says how many columns they took:
a wide character may take one more. -/
def dropColumns (columns : Nat) (dropped : Nat) : List Char → Nat × List Char
  | [] => (dropped, [])
  | c :: rest =>
    if dropped < columns then dropColumns columns (dropped + shownColumns c) rest
    else (dropped, c :: rest)

/-- The longest start of a text that fits into so many columns, behind the characters that
are taken already, the latest first. -/
def takeColumns (columns : Nat) (taken : List Char) : List Char → List Char
  | [] => taken.reverse
  | c :: rest =>
    if shownColumns c ≤ columns then takeColumns (columns - shownColumns c) (c :: taken) rest
    else taken.reverse

structure View where
  /-- The columns that are cut off. -/
  left : Nat
  text : List Char
  isShortened : Bool
deriving Repr, DecidableEq

def view (window : Window) (line : List Char) : View :=
  let columns := shownWidth line
  let start := window.start columns
  let stop := window.stop columns
  let (dropped, rest) := dropColumns start 0 line
  { left := max start dropped
    text := takeColumns (stop - start) [] rest
    isShortened := stop < columns }

end Window

end GuardedQuery

import GuardedQuery.Diagnostics.Row
import GuardedQuery.Diagnostics.Window

/-! # Drawings of excerpts

The source lines of an excerpt with their numbers, and below or beside them what marks the
range that is meant.  Every row is drawn in cells: number, bar and text have their columns,
and what is cut off at the left moves the marks with the text.

- `Drawing`: the lines of an excerpt and how they are laid out.
- `Drawing.sourceRow`: one line of the source.
- `Drawing.onLine`: a range on one line, with carets below it.
- `Drawing.overLines`: a range over several lines, with a bar along it.
-/

namespace GuardedQuery

structure Drawing where
  lines : List SourceLine
  digits : Nat
  offset : Nat
  window : Window

namespace Drawing

def terminalWidth : Nat := 140

def textOf (lines : List SourceLine) (number : Nat) : List Char :=
  ((lines[number - 1]?).map (·.text)).getD []

def lineText (drawing : Drawing) (number : Nat) : List Char :=
  textOf drawing.lines number

def marginBar (drawing : Drawing) : Nat := drawing.digits + 1

def rangeBar (drawing : Drawing) : Nat := drawing.digits + 3

def placeOf (drawing : Drawing) (cut column : Nat) : Nat :=
  drawing.offset + column - cut

def emptyMargin (drawing : Drawing) : Row :=
  Row.empty.put drawing.marginBar .margin ['|']

def numberText (drawing : Drawing) (number : Nat) : List Char :=
  let digits := (toString number).toList
  List.replicate (drawing.digits - digits.length) ' ' ++ digits

/-- Source text as a view of it shows: an ellipsis stands for the first characters if
columns are cut off before them, and covers the last ones if some are cut off behind. -/
def viewRow (drawing : Drawing) (view : Window.View) : Row :=
  let dots := Row.ellipsis.length
  let (covered, rest) :=
    if drawing.window.left = 0 then (0, view.text) else Window.dropColumns dots 0 view.text
  let opening :=
    if drawing.window.left = 0 then Row.empty
    else Row.empty.put drawing.offset .margin Row.ellipsis
  let whole := opening.put (drawing.offset + covered) .plain rest
  if view.isShortened then
    let last := view.text.length - (Window.dropColumns dots 0 view.text.reverse).2.length
    whole.put (drawing.offset + covered + rest.length - last) .margin Row.ellipsis
  else whole

def sourceRow (drawing : Drawing) (number : Nat) : Row × Nat :=
  let view := drawing.window.view (shown (drawing.lineText number))
  -- A number one digit wider than the others fills the blank before the bar.
  let row := (drawing.viewRow view).put 0 .margin (drawing.numberText number)
  (row.put drawing.marginBar .margin ['|'], view.left)

def underlined (drawing : Drawing) (number low high : Nat) : List Row :=
  let (source, cut) := drawing.sourceRow number
  let first := drawing.placeOf cut low
  let stop := drawing.placeOf cut (high - 1) + 1
  let carets := drawing.emptyMargin.fill first stop .fault '^'
  if 2 * drawing.window.width < high - low then
    let kept := drawing.window.width / 3
    [source.elide (first + kept) (stop - kept), carets.elide (first + kept) (stop - kept)]
  else [source, carets]

def barred (drawing : Drawing) (row : Row) : Row :=
  row.put drawing.rangeBar .fault ['|']

def barredLine (drawing : Drawing) (number : Nat) : Row :=
  drawing.barred (drawing.sourceRow number).1

/-- The lines between two that are shown: one is shown, more are left out. -/
def between (drawing : Drawing) (above below : Nat) : List Row :=
  if below = above + 2 then [drawing.barredLine (above + 1)]
  else if above + 2 < below then
    [drawing.barred (Row.empty.put 0 .margin Row.ellipsis)]
  else []

/-- The numbers of the lines inside a range that are shown for their own sake: those that
follow the start closely, bare ones at the end of these left out, and the one before the
end. -/
def inner (lines : List SourceLine) (first last : Nat) : List Nat :=
  let isBare (number : Nat) : Bool := SourceLine.isBare (textOf lines number)
  let near := min (first + 4) last
  let count := ((List.range (near - first)).reverse.find? fun i => !isBare (first + i)).getD 0
  let close := (List.range count).map (first + 1 + ·)
  if near < last - 1 ∧ ¬ isBare (last - 1) ∧ (last - 1) ∉ close then close ++ [last - 1]
  else close

def barredDown (drawing : Drawing) (above : Nat) : List Nat → List Row
  | [] => []
  | number :: rest =>
    drawing.between above number ++ drawing.barredLine number :: drawing.barredDown number rest

def leader (drawing : Drawing) (start : Char) (place : Nat) : Row :=
  let row := drawing.emptyMargin.fill (drawing.rangeBar + 1) place .fault '_'
  (row.put drawing.rangeBar .fault [start]).put place .fault ['^']

/-- The lines of a range from `low` to `high`.  The first line has a corner in front if
only blanks stand there; otherwise a line below it leads to the range. -/
def bracketed (drawing : Drawing) (low high : Point) : List Row :=
  let (first, firstCut) := drawing.sourceRow low.line
  let opening :=
    -- Counted in columns of the shown text, in which a tab is four blanks.
    if ((shown (drawing.lineText low.line)).take low.column).all Text.isBlank then
      [first.put drawing.rangeBar .fault ['/']]
    else [first, drawing.leader ' ' (drawing.placeOf firstCut low.column)]
  -- The caret is below the last character; a range that stops before its last line has it
  -- below the first.
  let lastCut := (drawing.sourceRow high.line).2
  let closing := drawing.leader '|' (drawing.placeOf lastCut (high.column - 1))
  opening ++
    drawing.barredDown low.line (inner drawing.lines low.line high.line ++ [high.line]) ++
    [closing]

def onLine (lines : List SourceLine) (digits : Nat) (low high : Point) : List Row :=
  let stop := max high.column (low.column + 1)
  let offset := digits + 3
  let extent := Extent.ofLines [textOf lines low.line] low.column stop
  let window := Window.around (terminalWidth - offset) extent
  underlined ⟨lines, digits, offset, window⟩ low.line low.column stop

def overLines (lines : List SourceLine) (digits : Nat) (low high : Point) : List Row :=
  let offset := digits + 5
  let inside := inner lines low.line high.line
  let shownLines := (low.line :: inside ++ [high.line]).map (textOf lines)
  let left := min low.column (high.column - 1)
  let right := max (low.column + 1) high.column
  let window := Window.around (terminalWidth - offset) (Extent.ofLines shownLines left right)
  bracketed ⟨lines, digits, offset, window⟩ low high

end Drawing

end GuardedQuery

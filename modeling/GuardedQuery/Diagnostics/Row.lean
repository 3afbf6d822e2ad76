import GuardedQuery.Diagnostics.Styled

/-! # Rows of cells

A row of an excerpt is drawn piece by piece, and a later piece covers what an earlier one
left in its place.  So a row is a list of cells, one for each character, until it is
written.

- `Cell`, `Row`: a character in a style, and a row of them.
- `Row.put`: writes a text from a column on.
- `Row.elide`: leaves out the middle of a row.
- `Row.line`: the row as a line of styled text.
-/

namespace GuardedQuery

structure Cell where
  style : Style
  char : Char
deriving Repr, DecidableEq

structure Row where
  cells : List Cell
deriving Repr, DecidableEq

namespace Row

def empty : Row := ⟨[]⟩

def blank : Cell := ⟨.plain, ' '⟩

/-- Writes a text from a column on, over what stands there.  Blanks lead up to it if the
row ends before. -/
def put (row : Row) (column : Nat) (style : Style) (text : List Char) : Row :=
  if text.isEmpty then row
  else
    let before := row.cells.take column
    ⟨before ++ List.replicate (column - before.length) blank ++
      text.map (Cell.mk style) ++ row.cells.drop (column + text.length)⟩

def fill (row : Row) (start stop : Nat) (style : Style) (c : Char) : Row :=
  row.put start style (List.replicate (stop - start) c)

def ellipsis : List Char := ['.', '.', '.']

/-- Leaves out the cells from column `start` up to `stop` for an ellipsis.  A row that does
not reach so far stays as it is. -/
def elide (row : Row) (start stop : Nat) : Row :=
  if start = stop ∨ row.cells.length < start ∨ row.cells.length < stop then row
  else
    ⟨row.cells.take start ++ ellipsis.map (Cell.mk .margin) ++ row.cells.drop stop⟩

def join (cell : Cell) : List (Style × List Char) → List (Style × List Char)
  | [] => [(cell.style, [cell.char])]
  | (style, text) :: rest =>
    if cell.style = style then (style, cell.char :: text) :: rest
    else (cell.style, [cell.char]) :: (style, text) :: rest

def line (row : Row) : List Styled :=
  (row.cells.foldr join []).map fun (style, text) => ⟨style, String.ofList text⟩

end Row

end GuardedQuery

import GuardedQuery.Source.Basic

/-! # Locations

The line and column of an offset within its segment.  Numbering starts anew in every
segment, lines at one and columns at zero.  A line feed, a carriage return, and the
pair of them each end one line.  Lines and columns are counted in 32-bit words, and the
program gives up where one of them does not fit.

- `Location`: a resolved offset.
- `Located`: what resolving an offset comes to.
- `LineCursor`: line and column while a text is read.
- `LineCursor.within`: line and column behind the first bytes of a text.
- `Source.locate`: from an offset to its location.
-/

namespace GuardedQuery

structure Location where
  name : Option String
  line : UInt32
  column : UInt32
  offset : Nat
deriving Repr, DecidableEq

namespace Location

/-- The name, where there is one, the line and the column between colons. -/
def display (location : Location) : String :=
  let position := toString location.line ++ ":" ++ toString location.column
  match location.name with
  | some name => name ++ ":" ++ position
  | none => position

end Location

/-- What resolving an offset comes to.  There is no location where the line or the column does
not fit its word.  The program ends there, so nothing is ever shown of such an offset. -/
structure Located where
  offset : Nat
  location? : Option Location
deriving Repr, DecidableEq

namespace Located

def counted (location : Location) : Located := ⟨location.offset, some location⟩

def overflowed (offset : Nat) : Located := ⟨offset, none⟩

end Located

structure LineCursor where
  line : UInt32 := 1
  column : UInt32 := 0
  afterReturn : Bool := false
deriving Repr, DecidableEq

namespace LineCursor

/-- The next word, unless this is the greatest. -/
@[inline] def count (word : UInt32) : Option UInt32 :=
  if word = 4294967295 then none else some (word + 1)

/-- Reads one character.  A line feed right after a carriage return ends no line of
its own.  Fails where a word overflows. -/
@[inline] def step (cursor : LineCursor) (c : Char) : Option LineCursor :=
  if c = '\n' ∧ cursor.afterReturn then some { cursor with afterReturn := false }
  else if c = '\n' ∨ c = '\r' then
    (count cursor.line).map fun line => { line, column := 0, afterReturn := c = '\r' }
  else (count cursor.column).map fun column => { line := cursor.line, column }

def behind (chars : List Char) : Option LineCursor :=
  chars.foldlM step {}

/-- Reads on from a place, up to the first character that does not end within `stop` bytes. -/
def readOn (text : String) (stop : Nat) (place : text.Pos) (cursor : LineCursor) :
    Option LineCursor :=
  if h : place = text.endPos then some cursor
  else
    let next := place.next h
    if next.offset.byteIdx ≤ stop then
      match cursor.step (place.get h) with
      | some cursor => readOn text stop next cursor
      | none => none
    else some cursor
termination_by place

/-- The cursor behind the first `n` bytes of a text.  They are read in place, since a text can
be far larger than memory has room for its characters one by one. -/
def within (n : Nat) (text : String) : Option LineCursor :=
  readOn text n text.startPos {}

/-! ## Laws -/

theorem readOn_eq {text : String} {place : text.Pos} {front back : List Char} (stop : Nat)
    (cursor : LineCursor) (h : Text.Divides place front back)
    (hfront : Text.byteLength front ≤ stop) :
    readOn text stop place cursor =
      (Text.takeBytes (stop - Text.byteLength front) back).foldlM step cursor := by
  induction back generalizing place front cursor with
  | nil =>
    rw [readOn, dif_pos (h.eq_endPos_iff.2 rfl)]
    rfl
  | cons c back ih =>
    have hnext : Text.Divides (place.next h.ne_endPos) (front ++ [c]) back := h.next
    have hlength : Text.byteLength (front ++ [c]) = Text.byteLength front + c.utf8Size := by
      simp [Text.byteLength_append]
    rw [readOn, dif_neg h.ne_endPos, Text.takeBytes_cons]
    simp only [h.get, hnext.byteIdx, hlength]
    by_cases hfits : Text.byteLength front + c.utf8Size ≤ stop
    · rw [if_pos hfits, if_pos (by omega), List.foldlM_cons]
      cases cursor.step c with
      | none => rfl
      | some next =>
        simp only [Option.bind_eq_bind, Option.bind_some]
        rw [ih next hnext (by omega), hlength, Nat.sub_add_eq]
    · rw [if_neg hfits, if_neg (by omega)]
      rfl

/-- Reading in place comes to the same as taking the characters out first. -/
theorem within_eq (n : Nat) (text : String) :
    within n text = behind (Text.takeBytes n text.toList) :=
  readOn_eq n {} (.startPos text) (Nat.zero_le n)

end LineCursor

namespace Source

/-- Resolves an offset.  One inside a character counts as the start of the character,
but is kept as it was given. -/
def locate (source : Source) (offset : Nat) : Option Located :=
  (source.segmentAt offset).map fun segment =>
    let cursor := LineCursor.within (offset - segment.start) segment.content
    { offset
      location? := cursor.map fun cursor =>
        { name := segment.name, line := cursor.line, column := cursor.column, offset } }

end Source

end GuardedQuery

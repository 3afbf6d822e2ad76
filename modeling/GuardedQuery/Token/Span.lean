import GuardedQuery.Source.Basic
import GuardedQuery.Token.Lexer

/-! # Tokens as spans

What the lexer hands out of a token is its kind and where it stands, in offsets of 32 bits.
Its text is cut out of the source where it is needed.  A source is never longer than the
greatest offset, so in the text of a source offsets are exact.  In a longer text, offsets
beyond the greatest are taken for it, and a range that was cut off so may end inside a
character.

The text is read in place, as it can be far larger than memory has room for its characters
one by one.

- `TokenSpan`, `Token.span`: a token as it is handed out.
- `Text.slice?`: the text of a range, if both its ends lie between characters.
- `lexSpans`: all tokens of a text.
-/

namespace GuardedQuery

/-- The range in offsets of 32 bits. -/
def ByteRange.saturated (range : ByteRange) : ByteRange :=
  ⟨min range.start Source.maxSize, min range.stop Source.maxSize⟩

structure TokenSpan where
  kind : TokenKind
  range : ByteRange
deriving Repr, DecidableEq

def Token.span (token : Token) : TokenSpan := ⟨token.kind, token.range.saturated⟩

def TokenSpan.token (span : TokenSpan) (text : String) : Token :=
  ⟨span.kind, span.range.start, text⟩

/-- The text of a range, if both its ends lie between characters. -/
def Text.slice? (text : String) (range : ByteRange) : Option String :=
  if h : String.Pos.Raw.IsValid text ⟨range.start⟩ ∧ String.Pos.Raw.IsValid text ⟨range.stop⟩ then
    (text.slice? ⟨_, h.1⟩ ⟨_, h.2⟩).map (·.copy)
  else none

namespace Piece

/-- A piece that was found in place: its kind, and the place behind it. -/
structure Mark (text : String) where
  kind : TokenKind
  stop : text.Pos

variable {text : String}

def munchFrom (best : Option (Mark text)) (state : Scan) (place : text.Pos) : Mark text :=
  if h : place = text.endPos then best.getD ⟨.garbage, place⟩
  else
    match state.step (place.get h) with
    | none => best.getD ⟨.garbage, place⟩
    | some next =>
      match next.accepts with
      | none => munchFrom best next (place.next h)
      | some kind => munchFrom (some ⟨kind, place.next h⟩) next (place.next h)
termination_by place

def past? : List Char → text.Pos → Option text.Pos
  | [], place => some place
  | c :: word, place =>
    if h : place = text.endPos then none
    else if place.get h = c then past? word (place.next h)
    else none

theorem lt_of_past? {word : List Char} {start place stop : text.Pos} (hplace : start < place)
    (h : past? word place = some stop) : start < stop := by
  induction word generalizing place with
  | nil =>
    cases h
    exact hplace
  | cons c word ih =>
    rw [past?] at h
    split at h
    · cases h
    · split at h
      · exact ih (String.Pos.lt_trans hplace String.Pos.lt_next) h
      · cases h

theorem lt_of_past?_cons {c : Char} {word : List Char} {place stop : text.Pos}
    (h : past? (c :: word) place = some stop) : place < stop := by
  rw [past?] at h
  split at h
  · cases h
  · split at h
    · exact lt_of_past? String.Pos.lt_next h
    · cases h

def blockStringFrom (place : text.Pos) : Mark text :=
  if h : place = text.endPos then ⟨.garbage, place⟩
  else
    match _escape : past? ['\\', '"', '"', '"'] place with
    | some next => blockStringFrom next
    | none =>
      match past? ['"', '"', '"'] place with
      | some stop => ⟨.blockStringLit, stop⟩
      | none => blockStringFrom (place.next h)
termination_by place
decreasing_by
  · exact lt_of_past?_cons ‹_›
  · exact String.Pos.lt_next

def nextFrom (place : text.Pos) (h : place ≠ text.endPos) : Mark text :=
  match past? ['"', '"', '"'] place with
  | some body => blockStringFrom body
  | none =>
    match Scan.start.step (place.get h) with
    | none => ⟨.garbage, place.next h⟩
    | some state => munchFrom (state.accepts.map (⟨·, place.next h⟩)) state (place.next h)

theorem lt_munchFrom_stop {best : Option (Mark text)} {state : Scan} {start place : text.Pos}
    (hbest : ∀ mark ∈ best, start < mark.stop) (hplace : start < place) :
    start < (munchFrom best state place).stop := by
  have hstop : start < (best.getD ⟨.garbage, place⟩).stop := by
    cases best with
    | none => exact hplace
    | some mark => exact hbest mark rfl
  fun_induction munchFrom best state place with
  | case1 | case2 => exact hstop
  | case3 best state place h next _ _ ih =>
    have hnext := String.Pos.lt_trans hplace (String.Pos.lt_next (p := place) (h := h))
    refine ih hbest hnext ?_
    cases best with
    | none => exact hnext
    | some mark => exact hbest mark rfl
  | case4 best state place h next _ kind _ ih =>
    have hnext := String.Pos.lt_trans hplace (String.Pos.lt_next (p := place) (h := h))
    exact ih (fun mark hmark => by cases hmark; exact hnext) hnext hnext

theorem lt_blockStringFrom_stop {start place : text.Pos} (hplace : start < place) :
    start < (blockStringFrom place).stop := by
  fun_induction blockStringFrom place with
  | case1 => exact hplace
  | case2 place h next hescape ih =>
    exact ih (String.Pos.lt_trans hplace (lt_of_past?_cons hescape))
  | case3 place h hescape stop hquotes =>
    exact String.Pos.lt_trans hplace (lt_of_past?_cons hquotes)
  | case4 place h hescape hquotes ih =>
    exact ih (String.Pos.lt_trans hplace String.Pos.lt_next)

theorem lt_nextFrom_stop (place : text.Pos) (h : place ≠ text.endPos) :
    place < (nextFrom place h).stop := by
  have hnext : place < place.next h := String.Pos.lt_next
  rw [nextFrom]
  split
  · next body hbody => exact lt_blockStringFrom_stop (lt_of_past?_cons hbody)
  · split
    · exact hnext
    · refine lt_munchFrom_stop (fun mark hmark => ?_) hnext
      obtain ⟨kind, -, rfl⟩ := Option.map_eq_some_iff.1 hmark
      exact hnext

end Piece

/-- The spans in front, the latest first, and one more for the garbage that ends here. -/
def closeGarbage {text : String} (from? : Option text.Pos) (stop : text.Pos)
    (done : List TokenSpan) : List TokenSpan :=
  match from? with
  | none => done
  | some start =>
    ⟨.garbage, ByteRange.saturated ⟨start.offset.byteIdx, stop.offset.byteIdx⟩⟩ :: done

/-- The spans from a place on behind those in `done`, the latest of which comes first.
`from?` is where garbage started that goes on here. -/
def spansFrom {text : String} (from? : Option text.Pos) (place : text.Pos)
    (done : List TokenSpan) : List TokenSpan :=
  if h : place = text.endPos then (closeGarbage from? place done).reverse
  else
    have := Piece.lt_nextFrom_stop place h
    let mark := Piece.nextFrom place h
    if mark.kind = .garbage then spansFrom (from? <|> some place) mark.stop done
    else
      let range : ByteRange := ⟨place.offset.byteIdx, mark.stop.offset.byteIdx⟩
      spansFrom none mark.stop (⟨mark.kind, range.saturated⟩ :: closeGarbage from? place done)
termination_by place

def lexSpans (text : String) : List TokenSpan :=
  spansFrom none text.startPos []

end GuardedQuery

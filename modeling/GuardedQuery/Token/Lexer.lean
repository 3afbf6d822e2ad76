import GuardedQuery.Token.Basic
import GuardedQuery.Token.Automaton

/-! # The lexer

The source is cut into pieces from left to right, each the longest that is a token.
Where no token starts, the piece is garbage: as much as could have become a token, and
at least one character.  Neighbouring pieces of garbage are one token.  A block string
without an end makes the rest of the source garbage.

- `Piece.next`: the first piece of a text and what follows it.
- `lex`: all tokens of a source.
-/

namespace GuardedQuery

structure Piece where
  kind : TokenKind
  taken : List Char
deriving Repr, DecidableEq

namespace Piece

structure Cut where
  piece : Piece
  rest : List Char

/-- Reads on from `state`.  `taken` was read so far and `best` is the longest part of it
that is a token.  When the automaton is stuck the best cut wins; without one, all that
was read is garbage. -/
def munch (best : Option Cut) (state : Scan) (taken : List Char) : List Char → Cut
  | [] => best.getD ⟨⟨.garbage, taken⟩, []⟩
  | c :: rest =>
    match state.step c with
    | none => best.getD ⟨⟨.garbage, taken⟩, c :: rest⟩
    | some next =>
      -- A later cut is longer than all before it, so it replaces them.
      let better := next.accepts.map fun kind => (⟨⟨kind, c :: taken⟩, rest⟩ : Cut)
      munch (better <|> best) next (c :: taken) rest

/-- Reads a block string from behind its opening quotes.  An escaped triple quote does
not end it. -/
def blockString (taken : List Char) : List Char → Cut
  | '\\' :: '"' :: '"' :: '"' :: rest => blockString ('"' :: '"' :: '"' :: '\\' :: taken) rest
  | '"' :: '"' :: '"' :: rest => ⟨⟨.blockStringLit, '"' :: '"' :: '"' :: taken⟩, rest⟩
  | c :: rest => blockString (c :: taken) rest
  | [] => ⟨⟨.garbage, taken⟩, []⟩

def next (c : Char) (rest : List Char) : Cut :=
  match c, rest with
  -- Three quotes never are an empty string and the start of another.
  | '"', '"' :: '"' :: body => blockString ['"', '"', '"'] body
  | c, rest =>
    match Scan.start.step c with
    | none => ⟨⟨.garbage, [c]⟩, rest⟩
    | some state => munch (state.accepts.map (⟨⟨·, [c]⟩, rest⟩)) state [c] rest

theorem munch_rest_length {best : Option Cut} {state : Scan} {taken text : List Char} {n : Nat}
    (hbest : ∀ cut ∈ best, cut.rest.length ≤ n) (htext : text.length ≤ n) :
    (munch best state taken text).rest.length ≤ n := by
  induction text generalizing best state taken with
  | nil =>
    cases best with
    | none => simp [munch]
    | some cut => simpa [munch] using hbest cut rfl
  | cons c rest ih =>
    rw [List.length_cons] at htext
    simp only [munch]
    split
    · cases best with
      | none => simpa using htext
      | some cut => simpa using hbest cut rfl
    · next state' _ =>
      refine ih ?_ (by omega)
      intro cut hcut
      cases ha : state'.accepts with
      | none => exact hbest cut (by simpa [ha] using hcut)
      | some kind =>
        have hcut : (⟨⟨kind, c :: taken⟩, rest⟩ : Cut) = cut := by simpa [ha] using hcut
        exact hcut ▸ Nat.le_of_succ_le htext

theorem blockString_rest_length (taken text : List Char) :
    (blockString taken text).rest.length ≤ text.length := by
  fun_induction blockString taken text <;> simp_all <;> omega

/-- The first piece takes at least one character. -/
theorem next_rest_length (c : Char) (rest : List Char) :
    (next c rest).rest.length < (c :: rest).length := by
  rw [List.length_cons, Nat.lt_succ_iff]
  unfold next
  split
  · next body => exact Nat.le_trans (blockString_rest_length _ body) (by simp; omega)
  · next c rest _ =>
    split
    · exact Nat.le_refl _
    · next state _ =>
      refine munch_rest_length ?_ (Nat.le_refl _)
      intro cut hcut
      obtain ⟨kind, _, rfl⟩ := Option.map_eq_some_iff.1 hcut
      exact Nat.le_refl _

/-- Puts a piece behind the others, the latest of which comes first.  Garbage joins
garbage. -/
def push (done : List Piece) (piece : Piece) : List Piece :=
  match done with
  | last :: earlier =>
    if last.kind = .garbage ∧ piece.kind = .garbage then
      ⟨.garbage, piece.taken ++ last.taken⟩ :: earlier
    else piece :: done
  | [] => [piece]

def cutInto (done : List Piece) : List Char → List Piece
  | [] => done
  | c :: rest =>
    have := next_rest_length c rest
    cutInto (push done (next c rest).piece) (next c rest).rest
termination_by text => text.length
decreasing_by exact this

def text (piece : Piece) : String :=
  String.ofList piece.taken.reverse

end Piece

def placePieces (offset : Nat) (pieces : List Piece) : List Token := go offset pieces []
where
  go : Nat → List Piece → List Token → List Token
    | _, [], placed => placed.reverse
    | offset, piece :: rest, placed =>
      let token : Token := ⟨piece.kind, offset, piece.text⟩
      go token.stop rest (token :: placed)

def lex (source : String) : List Token :=
  placePieces 0 (Piece.cutInto [] source.toList).reverse

end GuardedQuery

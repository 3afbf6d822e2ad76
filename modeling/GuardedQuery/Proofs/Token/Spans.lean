import GuardedQuery.Proofs.Source.Slices
import GuardedQuery.Proofs.Token.Strings
import GuardedQuery.Token.Span

/-! # The spans of tokens

Reading in place finds the same pieces as cutting up the characters.  So the lexer hands out
each token with its place, as far as that fits 32 bits.  In the text of a source every place
fits, and the text of a token is found there.

- `Text.slice?_eq_some_iff`: which texts are cut out.
- `Piece.Marks`: a piece found in place and the same piece cut off.
- `lexSpans_eq`: the spans are those of the tokens.
- `Token.span_eq`, `Token.slice?_span`: nothing is cut off in the text of a source.
- `lexSpans_exact`, `lexSpans_torn`: the tokens of such a text, and of a longer one.
-/

namespace GuardedQuery

/-! ## Slices -/

namespace Text

variable {text piece : String} {range : ByteRange}

/-- What is cut out is a part of the text that stands at its range. -/
theorem slice?_eq_some_iff : slice? text range = some piece ↔
    ∃ front back, text = front ++ piece ++ back ∧ range.start = front.utf8ByteSize ∧
      range.stop = front.utf8ByteSize + piece.utf8ByteSize := by
  constructor
  · intro h
    rw [slice?] at h
    split at h
    · obtain ⟨_, hslice, rfl⟩ := Option.map_eq_some_iff.1 h
      rw [String.slice?] at hslice
      split at hslice
      · next hle =>
        cases hslice
        obtain ⟨front, back, hstart, hstop⟩ := String.copy_slice_eq_iff_splits.1 ⟨hle, rfl⟩
        refine ⟨front, back, hstop.eq_append, congrArg (·.byteIdx) hstart.offset_eq_rawEndPos, ?_⟩
        rw [← String.utf8ByteSize_append]
        exact congrArg (·.byteIdx) hstop.offset_eq_rawEndPos
      · cases hslice
    · cases h
  · rintro ⟨front, back, rfl, hstart, hstop⟩
    have hfront : (⟨range.start⟩ : String.Pos.Raw) = front.rawEndPos := congrArg _ hstart
    have hpiece : (⟨range.stop⟩ : String.Pos.Raw) = (front ++ piece).rawEndPos := by
      rw [String.Pos.Raw.ext_iff, String.byteIdx_rawEndPos, String.utf8ByteSize_append]
      exact hstop
    have hvalid : String.Pos.Raw.IsValid (front ++ piece ++ back) ⟨range.start⟩ ∧
        String.Pos.Raw.IsValid (front ++ piece ++ back) ⟨range.stop⟩ :=
      ⟨String.Pos.Raw.isValid_iff_exists_append.2
          ⟨front, piece ++ back, String.append_assoc .., hfront⟩,
        String.Pos.Raw.isValid_iff_exists_append.2 ⟨front ++ piece, back, rfl, hpiece⟩⟩
    have hstart : String.Pos.Splits ⟨_, hvalid.1⟩ front (piece ++ back) :=
      ⟨String.append_assoc .., hfront⟩
    have hstop : String.Pos.Splits ⟨_, hvalid.2⟩ (front ++ piece) back := ⟨rfl, hpiece⟩
    obtain ⟨hle, hcopy⟩ := String.copy_slice_eq_iff_splits.2 ⟨front, back, hstart, hstop⟩
    rw [slice?, dif_pos hvalid, String.slice?, dif_pos hle, Option.map_some, hcopy]

/-- Nothing is cut out where the range ends inside a character. -/
theorem slice?_eq_none_of_inside {front back : List Char} {c : Char}
    (htext : text.toList = front ++ c :: back) (hlow : byteLength front < range.stop)
    (hhigh : range.stop < byteLength front + c.utf8Size) : slice? text range = none := by
  rw [Option.eq_none_iff_forall_ne_some]
  intro piece hpiece
  obtain ⟨lead, tail, rfl, -, hstop⟩ := slice?_eq_some_iff.1 hpiece
  rw [← String.utf8ByteSize_append, ← byteLength_toList] at hstop
  rw [String.toList_append] at htext
  obtain ⟨between, hbetween, hback⟩ := exists_between htext.symm (by omega)
  rw [hbetween, byteLength_append] at hstop
  cases between with
  | nil => simp at hstop; omega
  | cons d between =>
    obtain ⟨rfl, -⟩ := List.cons.inj hback
    rw [byteLength_cons] at hstop
    omega

end Text

/-! ## Pieces found in place -/

namespace Piece

open Text (Divides)

variable {text : String} {place : text.Pos} {front back taken : List Char} {c : Char}
  {mark : Mark text} {cut : Cut}

structure Marks (front : List Char) (mark : Mark text) (cut : Cut) : Prop where
  kind : mark.kind = cut.piece.kind
  stop : Divides mark.stop (front ++ cut.piece.taken.reverse) cut.rest

theorem Marks.getD {best : Option (Mark text)} {best' : Option Cut}
    (h : Option.Rel (Marks front) best best') (hother : Marks front mark cut) :
    Marks front (best.getD mark) (best'.getD cut) := by
  cases h with
  | none => exact hother
  | some h => exact h

theorem marks_munch {best : Option (Mark text)} {best' : Option Cut} {state : Scan}
    (hbest : Option.Rel (Marks front) best best')
    (h : Divides place (front ++ taken.reverse) back) :
    Marks front (munchFrom best state place) (munch best' state taken back) := by
  induction back generalizing best best' state taken place with
  | nil =>
    rw [munchFrom, dif_pos (h.eq_endPos_iff.2 rfl), munch]
    exact .getD hbest ⟨rfl, h⟩
  | cons c back ih =>
    have hnext : Divides (place.next h.ne_endPos) (front ++ (c :: taken).reverse) back := by
      rw [List.reverse_cons, ← List.append_assoc]
      exact h.next
    rw [munchFrom, dif_neg h.ne_endPos, munch, h.get]
    cases state.step c with
    | none => exact .getD hbest ⟨rfl, h⟩
    | some next =>
      cases haccepts : next.accepts with
      | none =>
        simp only [haccepts]
        exact ih hbest hnext
      | some kind =>
        simp only [haccepts]
        exact ih (.some ⟨rfl, hnext⟩) hnext

theorem exists_past? (word : List Char) (h : Divides place front (word ++ back)) :
    ∃ stop, past? word place = some stop ∧ Divides stop (front ++ word) back := by
  induction word generalizing place front with
  | nil => exact ⟨place, rfl, by rwa [List.append_nil]⟩
  | cons c word ih =>
    obtain ⟨stop, hpast, hstop⟩ := ih h.next
    refine ⟨stop, ?_, by rwa [List.append_cons]⟩
    rw [past?, dif_neg h.ne_endPos, if_pos h.get, hpast]

theorem past?_eq_none {word : List Char} (h : Divides place front back) (hword : ¬ word <+: back) :
    past? word place = none := by
  induction word generalizing place front back with
  | nil => exact (hword List.nil_prefix).elim
  | cons c word ih =>
    rw [past?]
    cases back with
    | nil => rw [dif_pos (h.eq_endPos_iff.2 rfl)]
    | cons d back =>
      rw [dif_neg h.ne_endPos, h.get]
      split
      · next hc => exact ih h.next fun hrest => hword (List.cons_prefix_cons.2 ⟨hc.symm, hrest⟩)
      · rfl

theorem marks_blockString (h : Divides place (front ++ taken.reverse) back) :
    Marks front (blockStringFrom place) (blockString taken back) := by
  fun_induction blockString taken back generalizing place with
  | case1 taken rest ih =>
    obtain ⟨stop, hpast, hstop⟩ := exists_past? ['\\', '"', '"', '"'] h
    rw [blockStringFrom, dif_neg h.ne_endPos]
    split
    · next next hescape =>
      obtain rfl : stop = next := Option.some.inj (hpast.symm.trans hescape)
      exact ih (by simpa using hstop)
    · next hescape => rw [hpast] at hescape; cases hescape
  | case2 taken rest =>
    obtain ⟨stop, hpast, hstop⟩ := exists_past? ['"', '"', '"'] h
    have hescape : past? ['\\', '"', '"', '"'] place = none := past?_eq_none h (by simp)
    rw [blockStringFrom, dif_neg h.ne_endPos]
    split
    · next hnext => rw [hescape] at hnext; cases hnext
    · simp only [hpast]
      exact ⟨rfl, by simpa using hstop⟩
  | case3 taken c rest hescape hquotes ih =>
    have hescape' : past? ['\\', '"', '"', '"'] place = none := by
      refine past?_eq_none h ?_
      rintro ⟨tail, htail⟩
      cases htail
      exact hescape tail rfl rfl
    have hquotes' : past? ['"', '"', '"'] place = none := by
      refine past?_eq_none h ?_
      rintro ⟨tail, htail⟩
      cases htail
      exact hquotes tail rfl rfl
    rw [blockStringFrom, dif_neg h.ne_endPos]
    split
    · next hnext => rw [hescape'] at hnext; cases hnext
    · simp only [hquotes']
      exact ih (by simpa using h.next)
  | case4 taken =>
    rw [blockStringFrom, dif_pos (h.eq_endPos_iff.2 rfl)]
    exact ⟨rfl, h⟩

/-- The piece that starts at a place is the first one of what stands behind it. -/
theorem marks_next (h : Divides place front (c :: back)) :
    Marks front (nextFrom place h.ne_endPos) (next c back) := by
  have hnext : Divides (place.next h.ne_endPos) (front ++ [c].reverse) back := h.next
  unfold next
  split
  · next body =>
    obtain ⟨stop, hpast, hstop⟩ := exists_past? ['"', '"', '"'] h
    have hbody : Divides stop (front ++ ['"', '"', '"'].reverse) body := hstop
    simp only [nextFrom, hpast]
    exact marks_blockString hbody
  · next hquotes =>
    have hquotes' : past? ['"', '"', '"'] place = none := by
      refine past?_eq_none h ?_
      rintro ⟨tail, htail⟩
      cases htail
      exact hquotes tail rfl rfl
    simp only [nextFrom, hquotes', h.get]
    cases Scan.start.step c with
    | none => exact ⟨rfl, hnext⟩
    | some state =>
      refine marks_munch ?_ hnext
      cases state.accepts with
      | none => exact .none
      | some kind => exact .some ⟨rfl, hnext⟩

theorem marks_firstPiece {kind : TokenKind} {word rest : List Char}
    (h : Divides place front (word ++ rest)) (hword : word ≠ [])
    (hfirst : FirstPiece (word ++ rest) kind word) {hend : place ≠ text.endPos} :
    (nextFrom place hend).kind = kind ∧
      Divides (nextFrom place hend).stop (front ++ word) rest := by
  obtain ⟨c, tail, htail⟩ :=
    List.exists_cons_of_ne_nil (List.append_ne_nil_of_left_ne_nil hword rest)
  rw [htail] at h hfirst
  obtain ⟨other, htaken, htext, hother⟩ := next_firstPiece c tail
  obtain ⟨rfl, rfl⟩ := hfirst.unique hother
  obtain rfl : rest = (next c tail).rest := List.append_cancel_left (htail.trans htext)
  obtain ⟨hkind, hstop⟩ := marks_next h
  rw [htaken, List.reverse_reverse] at hstop
  exact ⟨hkind, hstop⟩

end Piece

/-! ## The spans of a text -/

open Text (Divides byteLength)

variable {text : String} {kind : TokenKind} {offset : Nat} {word front back : List Char}
  {from? : Option text.Pos} {place : text.Pos} {done : List TokenSpan}
  {pieces pending : List (TokenKind × List Char)}

def spansOf (offset : Nat) : List (TokenKind × List Char) → List TokenSpan
  | [] => []
  | (kind, word) :: pieces =>
    ⟨kind, ByteRange.saturated ⟨offset, offset + byteLength word⟩⟩ ::
      spansOf (offset + byteLength word) pieces

theorem spansOf_append (offset : Nat) (pieces others : List (TokenKind × List Char)) :
    spansOf offset (pieces ++ others) =
      spansOf offset pieces ++ spansOf (offset + byteLength (pieces.flatMap Prod.snd)) others := by
  induction pieces generalizing offset with
  | nil => rfl
  | cons piece pieces ih =>
    rw [List.cons_append, spansOf, spansOf, ih, List.flatMap_cons, Text.byteLength_append,
      Nat.add_assoc, List.cons_append]

theorem Adjoin.map_span {tokens : List Token} (h : Adjoin offset tokens) :
    tokens.map Token.span = spansOf offset (tokens.map Token.entry) := by
  induction tokens generalizing offset with
  | nil => rfl
  | cons token tokens ih =>
    obtain ⟨rfl, hrest⟩ := h
    rw [List.map_cons, List.map_cons, ih hrest, Token.entry, spansOf, ← token.stop_eq]
    rfl

inductive OpenGarbage : Option text.Pos → List Char → Nat → List (TokenKind × List Char) → Prop where
  | clean (front : List Char) : OpenGarbage none front (byteLength front) []
  | garbage {start : text.Pos} {front : List Char} (word : List Char)
      (hstart : start.offset.byteIdx = byteLength front) :
      OpenGarbage (some start) (front ++ word) (byteLength front) [(.garbage, word)]

namespace OpenGarbage

theorem byteLength_front (h : OpenGarbage from? front offset pending) :
    byteLength front = offset + byteLength (pending.flatMap Prod.snd) := by
  cases h with
  | clean => rfl
  | garbage => simp [Text.byteLength_append]

/-- One more piece of garbage joins what was read. -/
theorem more (h : OpenGarbage from? front offset pending) (hplace : Divides place front back)
    (word : List Char) (pieces : List (TokenKind × List Char)) :
    ∃ longer, OpenGarbage (from? <|> some place) (front ++ word) offset longer ∧
      joinGarbage (longer ++ pieces) = joinGarbage (pending ++ (.garbage, word) :: pieces) := by
  cases h with
  | clean => exact ⟨_, .garbage word hplace.byteIdx, rfl⟩
  | garbage first hstart =>
    rw [List.append_assoc]
    exact ⟨_, .garbage (first ++ word) hstart, (joinGarbage_garbage_garbage _ _ _).symm⟩

theorem joinGarbage_eq (h : OpenGarbage from? front offset pending) (hkind : kind ≠ .garbage) :
    joinGarbage (pending ++ (kind, word) :: pieces) =
      pending ++ (kind, word) :: joinGarbage pieces := by
  cases h with
  | clean => exact joinGarbage_cons_of_ne hkind
  | garbage first hstart =>
    rw [List.singleton_append, joinGarbage, joinGarbage_cons_of_ne hkind]
    cases kind <;> first | rfl | exact (hkind rfl).elim

theorem joinGarbage_self (h : OpenGarbage from? front offset pending) :
    joinGarbage pending = pending := by
  cases h <;> rfl

theorem closeGarbage_eq (h : OpenGarbage from? front offset pending)
    (hplace : Divides place front back) :
    (closeGarbage from? place done).reverse = done.reverse ++ spansOf offset pending := by
  cases h with
  | clean => exact (List.append_nil _).symm
  | garbage first hstart =>
    rw [closeGarbage, hstart, hplace.byteIdx, Text.byteLength_append, List.reverse_cons]
    rfl

end OpenGarbage

theorem spansFrom_eq (hcuts : Cuts back pieces) (hplace : Divides place front back)
    (hpending : OpenGarbage from? front offset pending) :
    spansFrom from? place done =
      done.reverse ++ spansOf offset (joinGarbage (pending ++ pieces)) := by
  induction hcuts generalizing place front from? offset pending done with
  | nil =>
    rw [spansFrom, dif_pos (hplace.eq_endPos_iff.2 rfl), hpending.closeGarbage_eq hplace,
      List.append_nil, hpending.joinGarbage_self]
  | @cons kind word rest pieces hword hfirst others ih =>
    have hend : place ≠ text.endPos := by
      rw [ne_eq, hplace.eq_endPos_iff]
      exact List.append_ne_nil_of_left_ne_nil hword rest
    obtain ⟨hkind, hstop⟩ := Piece.marks_firstPiece hplace hword hfirst
    rw [spansFrom, dif_neg hend]
    simp only [hkind]
    by_cases hgarbage : kind = .garbage
    · subst hgarbage
      obtain ⟨longer, hlonger, hjoin⟩ := hpending.more hplace word pieces
      rw [if_pos rfl, ih hstop hlonger, hjoin]
    · rw [if_neg hgarbage, ih hstop (.clean _), List.reverse_cons, hpending.closeGarbage_eq hplace,
        hpending.joinGarbage_eq hgarbage, spansOf_append, spansOf, ← hpending.byteLength_front,
        ← Text.byteLength_append, hplace.byteIdx, hstop.byteIdx]
      simp

/-- The lexer hands out its tokens with their places as far as these fit. -/
theorem lexSpans_eq (text : String) : lexSpans text = (lex text).map Token.span := by
  obtain ⟨pieces, hcuts, hlex⟩ := exists_cuts_lex text
  rw [(lex_tiles text).adjoin.map_span, hlex]
  exact spansFrom_eq hcuts (.startPos text) (.clean [])

/-- A string without an end is one token, whose end is cut off beyond the greatest offset. -/
theorem lexSpans_openString {body : List Char} (h : ∀ c ∈ body, isPlain c) :
    lexSpans (String.ofList ('"' :: body)) =
      [⟨.garbage, ⟨0, min (byteLength ('"' :: body)) Source.maxSize⟩⟩] := by
  have hcuts := cuts_openString h
  rw [← String.toList_ofList (l := '"' :: body)] at hcuts
  refine (spansFrom_eq hcuts (.startPos _) (.clean [])).trans ?_
  simp [joinGarbage, spansOf, ByteRange.saturated]

/-- One byte too many, and the last token ends inside its last character. -/
theorem openString_torn {n : Nat} (hsize : n + 2 = Source.maxSize) :
    let text := String.ofList ('"' :: longWord n)
    text.utf8ByteSize = Source.maxSize + 1 ∧
      lexSpans text = [⟨.garbage, ⟨0, Source.maxSize⟩⟩] ∧
      Text.slice? text ⟨0, Source.maxSize⟩ = none := by
  intro text
  have hlength : byteLength ('"' :: longWord n) = Source.maxSize + 1 := by
    rw [Text.byteLength_cons, byteLength_longWord, hsize, Nat.add_comm]
    rfl
  have htext : text.toList = '"' :: List.replicate n 'a' ++ ['é'] := String.toList_ofList
  have hfront : byteLength ('"' :: List.replicate n 'a') + 1 = Source.maxSize := by
    rw [Text.byteLength_cons, Text.byteLength_replicate n rfl, ← hsize, Nat.add_comm _ n]
    rfl
  have hwide : 'é'.utf8Size = 2 := rfl
  refine ⟨?_, ?_, Text.slice?_eq_none_of_inside htext (Nat.lt_of_succ_le hfront.le) ?_⟩
  · rw [← Text.byteLength_toList, String.toList_ofList, hlength]
  · rw [lexSpans_openString isPlain_of_mem_longWord, hlength, Nat.min_eq_right (Nat.le_succ _)]
  · rw [← hfront, hwide]
    exact Nat.lt_succ_self _

/-! ## Spans in the text of a source -/

/-- Spans without gaps between two offsets, none of them empty. -/
def Abut : Nat → Nat → List TokenSpan → Prop
  | low, high, [] => low = high
  | low, high, span :: spans =>
    span.range.start = low ∧ low < span.range.stop ∧ Abut span.range.stop high spans

theorem Tiles.stop_le {tokens : List Token} (h : Tiles text tokens) {token : Token}
    (htoken : token ∈ tokens) : token.stop ≤ text.utf8ByteSize := by
  obtain ⟨front, back, rfl, hstart⟩ := h.slice htoken
  rw [Token.stop, hstart, String.utf8ByteSize_append, String.utf8ByteSize_append]
  exact Nat.le_add_right _ _

theorem Adjoin.abut {tokens : List Token} (h : Adjoin offset tokens)
    (hnonempty : ∀ token ∈ tokens, token.text ≠ "") :
    Abut offset (offset + (String.join (tokens.map (·.text))).utf8ByteSize)
      (tokens.map fun token => ⟨token.kind, token.range⟩) := by
  induction tokens generalizing offset with
  | nil => rfl
  | cons token tokens ih =>
    obtain ⟨rfl, hrest⟩ := h
    rw [List.forall_mem_cons] at hnonempty
    have hpos := Nat.pos_of_ne_zero (mt String.utf8ByteSize_eq_zero_iff.1 hnonempty.1)
    have htokens := ih hrest hnonempty.2
    rw [List.map_cons, List.map_cons, String.join_cons, String.utf8ByteSize_append,
      ← Nat.add_assoc]
    exact ⟨rfl, Nat.lt_add_of_pos_right hpos, htokens⟩

section source

variable {token : Token} (hsize : text.utf8ByteSize ≤ Source.maxSize)

include hsize

theorem Token.span_eq (htoken : token ∈ lex text) : token.span = ⟨token.kind, token.range⟩ := by
  have hstop : token.stop ≤ Source.maxSize := ((lex_tiles text).stop_le htoken).trans hsize
  have hstart : token.start ≤ Source.maxSize := (Nat.le_add_right _ _).trans hstop
  rw [span, ByteRange.saturated, range, Nat.min_eq_left hstart, Nat.min_eq_left hstop]

theorem Token.slice?_span (htoken : token ∈ lex text) :
    Text.slice? text token.span.range = some token.text := by
  obtain ⟨front, back, htext, hstart⟩ := (lex_tiles text).slice htoken
  rw [span_eq hsize htoken]
  exact Text.slice?_eq_some_iff.2 ⟨front, back, htext, hstart, hstart ▸ rfl⟩

theorem Token.token_span (htoken : token ∈ lex text) : token.span.token token.text = token := by
  rw [span_eq hsize htoken]
  rfl

theorem map_span_lex :
    lexSpans text = (lex text).map fun token => ⟨token.kind, token.range⟩ := by
  rw [lexSpans_eq]
  exact List.map_congr_left fun _ => Token.span_eq hsize

end source

/-- Kind and text of the tokens that the grammar sees, as the lexer hands them out. -/
def readTokens (text : String) : List (TokenKind × Option String) :=
  ((lexSpans text).filter (!·.kind.isTrivia)).map fun span =>
    (span.kind, Text.slice? text span.range)

theorem readTokens_eq (hsize : text.utf8ByteSize ≤ Source.maxSize) :
    readTokens text =
      (significant (lex text)).map fun token => (token.kind, some token.text) := by
  rw [readTokens, lexSpans_eq, List.filter_map, List.map_map]
  refine List.map_congr_left fun token htoken => ?_
  rw [Function.comp_apply, Token.slice?_span hsize (List.mem_of_mem_filter htoken)]
  rfl

/-- In the text of a source, the tokens that the lexer hands out are the pieces that the scanner
cuts, garbage joined to garbage: each has its kind, and its text is found at its place.  They
are not empty, lie side by side over the whole text, no garbage is next to garbage, and none is
of a kind that only the grammar uses. -/
theorem lexSpans_exact (hsize : text.utf8ByteSize ≤ Source.maxSize) :
    (∃ pieces, Cuts text.toList pieces ∧
      (∀ others, Cuts text.toList others → others = pieces) ∧
      (lexSpans text).map (fun span => (span.kind, Text.slice? text span.range)) =
        (joinGarbage pieces).map fun (kind, word) => (kind, some (String.ofList word))) ∧
    Abut 0 text.utf8ByteSize (lexSpans text) ∧
    (lexSpans text).IsChain (fun span next => Apart span.kind next.kind) ∧
    ∀ span ∈ lexSpans text, SyntaxKind.token span.kind ≠ .endOfInput ∧
      ∀ rule, SyntaxKind.token span.kind ≠ .node rule := by
  obtain ⟨pieces, hcuts, hlex⟩ := exists_cuts_lex text
  have htiles := lex_tiles text
  refine ⟨⟨pieces, hcuts, fun _ => hcuts.unique, ?_⟩, ?_, ?_, ?_⟩
  · rw [lexSpans_eq, ← hlex, List.map_map, List.map_map]
    refine List.map_congr_left fun token htoken => ?_
    rw [Function.comp_apply, Function.comp_apply, Token.slice?_span hsize htoken]
    exact Prod.ext rfl (congrArg some String.ofList_toList.symm)
  · have habut := htiles.adjoin.abut htiles.nonempty
    rwa [htiles.covers, Nat.zero_add, ← map_span_lex hsize] at habut
  · have hchain := isChain_joinGarbage pieces
    rw [← hlex, List.isChain_map] at hchain
    rw [map_span_lex hsize, List.isChain_map]
    exact hchain
  · intro span _
    refine ⟨?_, fun rule => ?_⟩ <;> intro h <;> cases h

/-- Garbage in front of what starts a token, and a character of two bytes in it. -/
theorem lexSpans_exact_of_garbage :
    let text := "\x7b é%a"
    text.utf8ByteSize ≤ Source.maxSize ∧ Abut 0 6 (lexSpans text) ∧
      ∃ pieces, Cuts text.toList pieces ∧
        (lexSpans text).map (fun span => (span.kind, Text.slice? text span.range)) =
          (joinGarbage pieces).map fun (kind, word) => (kind, some (String.ofList word)) := by
  have hsize : "\x7b é%a".utf8ByteSize ≤ Source.maxSize := by decide
  obtain ⟨⟨pieces, hcuts, -, htexts⟩, habut, -, -⟩ := lexSpans_exact hsize
  exact ⟨hsize, habut, pieces, hcuts, htexts⟩

/-- Beyond the greatest offset the last token ends inside its last character. -/
theorem lexSpans_torn :
    let text := String.ofList ('"' :: longWord 4294967293)
    text.utf8ByteSize = 4294967296 ∧ lexSpans text = [⟨.garbage, ⟨0, 4294967295⟩⟩] ∧
      Text.slice? text ⟨0, 4294967295⟩ = none ∧
      ¬ Abut 0 text.utf8ByteSize (lexSpans text) := by
  intro text
  obtain ⟨hsize, hspans, hnone⟩ := openString_torn (n := 4294967293) rfl
  refine ⟨hsize, hspans, hnone, ?_⟩
  rw [hsize, hspans]
  rintro ⟨-, -, hend⟩
  cases hend

end GuardedQuery

import Mathlib.Data.List.Chain
import GuardedQuery.Proofs.Token.Scanning

/-! # The tokens of a text

The lexer gives the pieces of the reference scanner with neighbouring garbage joined, and its
tokens lie side by side over the whole text.

- `joinGarbage`, `cutInto_entries`: from pieces to tokens.
- `Adjoin`, `Tiles`: tokens without gaps, and tokens that cover a text.
- `exists_cuts_lex`, `lex_tiles`: the tokens of a text.
-/

namespace GuardedQuery

/-! ## Joined garbage -/

def joinGarbage : List (TokenKind × List Char) → List (TokenKind × List Char)
  | [] => []
  | (.garbage, word) :: pieces =>
    match joinGarbage pieces with
    | (.garbage, more) :: others => (.garbage, word ++ more) :: others
    | joined => (.garbage, word) :: joined
  | piece :: pieces => piece :: joinGarbage pieces

/-- Two kinds that may stand side by side: no garbage is next to garbage. -/
def Apart (kind next : TokenKind) : Prop := ¬ (kind = .garbage ∧ next = .garbage)

variable {kind : TokenKind} {word text : List Char} {pieces xs ys : List (TokenKind × List Char)}

theorem joinGarbage_cons_of_ne (h : kind ≠ .garbage) :
    joinGarbage ((kind, word) :: pieces) = (kind, word) :: joinGarbage pieces := by
  cases kind <;> first | rfl | exact (h rfl).elim

theorem joinGarbage_garbage_garbage (front back : List Char)
    (pieces : List (TokenKind × List Char)) :
    joinGarbage ((.garbage, front) :: (.garbage, back) :: pieces) =
      joinGarbage ((.garbage, front ++ back) :: pieces) := by
  simp only [joinGarbage]
  rcases joinGarbage pieces with _ | ⟨⟨kind, word⟩, others⟩
  · rfl
  · cases kind <;> simp

/-- Joining looks at what follows only after it is joined. -/
theorem joinGarbage_append_congr (h : joinGarbage xs = joinGarbage ys) :
    joinGarbage (pieces ++ xs) = joinGarbage (pieces ++ ys) := by
  induction pieces with
  | nil => exact h
  | cons piece pieces ih =>
    obtain ⟨kind, word⟩ := piece
    by_cases hkind : kind = .garbage
    · subst hkind
      simp only [List.cons_append, joinGarbage, ih]
    · rw [List.cons_append, List.cons_append, joinGarbage_cons_of_ne hkind,
        joinGarbage_cons_of_ne hkind, ih]

/-- The joined pieces: the first one is put in front, or joined to the one behind it. -/
theorem joinGarbage_cons (kind : TokenKind) (word : List Char)
    (pieces : List (TokenKind × List Char)) :
    (∃ more others, kind = .garbage ∧ joinGarbage pieces = (.garbage, more) :: others ∧
      joinGarbage ((kind, word) :: pieces) = (.garbage, word ++ more) :: others) ∨
    (∀ next ∈ (joinGarbage pieces).head?, Apart kind next.1) ∧
      joinGarbage ((kind, word) :: pieces) = (kind, word) :: joinGarbage pieces := by
  by_cases hkind : kind = .garbage
  · subst hkind
    simp only [joinGarbage]
    split
    · next more others hjoined => exact .inl ⟨more, others, trivial, hjoined, rfl⟩
    · next hjoined =>
      refine .inr ⟨?_, rfl⟩
      rintro ⟨next, more⟩ hnext ⟨-, hkind⟩
      obtain ⟨others, hothers⟩ := List.head?_eq_some_iff.1 hnext
      exact hjoined more others (by rw [hothers, ← hkind])
  · exact .inr ⟨fun _ _ h => hkind h.1, joinGarbage_cons_of_ne hkind⟩

theorem isChain_joinGarbage (pieces : List (TokenKind × List Char)) :
    (joinGarbage pieces).IsChain (fun piece next => Apart piece.1 next.1) := by
  induction pieces with
  | nil => exact .nil
  | cons piece pieces ih =>
    obtain ⟨kind, word⟩ := piece
    rcases joinGarbage_cons kind word pieces with ⟨more, others, -, hjoined, h⟩ | ⟨hnext, h⟩
    · rw [hjoined, List.isChain_cons] at ih
      rw [h, List.isChain_cons]
      exact ih
    · rw [h, List.isChain_cons]
      exact ⟨hnext, ih⟩

theorem joinGarbage_eq_self (h : pieces.IsChain fun piece next => Apart piece.1 next.1) :
    joinGarbage pieces = pieces := by
  induction pieces with
  | nil => rfl
  | cons piece pieces ih =>
    obtain ⟨kind, word⟩ := piece
    rw [List.isChain_cons] at h
    rcases joinGarbage_cons kind word pieces with ⟨more, others, hkind, hjoined, -⟩ | ⟨-, heq⟩
    · rw [ih h.2] at hjoined
      exact (h.1 (.garbage, more) (by rw [hjoined]; rfl) ⟨hkind, rfl⟩).elim
    · rw [heq, ih h.2]

theorem flatMap_joinGarbage (pieces : List (TokenKind × List Char)) :
    (joinGarbage pieces).flatMap Prod.snd = pieces.flatMap Prod.snd := by
  induction pieces with
  | nil => rfl
  | cons piece pieces ih =>
    obtain ⟨kind, word⟩ := piece
    rw [List.flatMap_cons, ← ih]
    rcases joinGarbage_cons kind word pieces with ⟨more, others, -, hjoined, h⟩ | ⟨-, h⟩
    · rw [h, hjoined, List.flatMap_cons, List.flatMap_cons, List.append_assoc]
    · rw [h, List.flatMap_cons]

theorem ne_nil_of_mem_joinGarbage (h : ∀ piece ∈ pieces, piece.2 ≠ []) :
    ∀ piece ∈ joinGarbage pieces, piece.2 ≠ [] := by
  induction pieces with
  | nil => exact h
  | cons piece pieces ih =>
    obtain ⟨kind, word⟩ := piece
    rw [List.forall_mem_cons] at h
    have ih := ih h.2
    rcases joinGarbage_cons kind word pieces with ⟨more, others, -, hjoined, heq⟩ | ⟨-, heq⟩
    · rw [hjoined, List.forall_mem_cons] at ih
      rw [heq, List.forall_mem_cons]
      exact ⟨fun hnil => h.1 (List.append_eq_nil_iff.1 hnil).1, ih.2⟩
    · rw [heq, List.forall_mem_cons]
      exact ⟨h.1, ih⟩

/-! ## The pieces of the lexer -/

theorem Cuts.flatMap (h : Cuts text pieces) : pieces.flatMap Prod.snd = text := by
  induction h with
  | nil => rfl
  | cons _ _ _ ih => rw [List.flatMap_cons, ih]

theorem Cuts.ne_nil (h : Cuts text pieces) : ∀ piece ∈ pieces, piece.2 ≠ [] := by
  induction h with
  | nil => simp
  | cons hword _ _ ih => exact List.forall_mem_cons.2 ⟨hword, ih⟩

namespace Piece

def entry (piece : Piece) : TokenKind × List Char := (piece.kind, piece.taken.reverse)

def entries (done : List Piece) : List (TokenKind × List Char) := done.reverse.map entry

theorem joinGarbage_entries_push (done : List Piece) (piece : Piece) :
    joinGarbage (entries (push done piece) ++ pieces) =
      joinGarbage (entries done ++ piece.entry :: pieces) := by
  cases done with
  | nil => rfl
  | cons last earlier =>
    simp only [push]
    split
    · next hgarbage =>
      obtain ⟨lastKind, lastTaken⟩ := last
      obtain ⟨kind, taken⟩ := piece
      obtain ⟨rfl, rfl⟩ := hgarbage
      simp only [entries, List.reverse_cons, List.map_append, List.append_assoc, List.map_cons,
        List.map_nil, List.cons_append, List.nil_append, entry, List.reverse_append]
      exact joinGarbage_append_congr (joinGarbage_garbage_garbage _ _ _).symm
    · simp [entries]

theorem isChain_push {done : List Piece} (piece : Piece)
    (h : done.IsChain fun next piece => Apart piece.kind next.kind) :
    (push done piece).IsChain fun next piece => Apart piece.kind next.kind := by
  cases done with
  | nil => exact .singleton _
  | cons last earlier =>
    simp only [push]
    split
    · next hgarbage =>
      rw [List.isChain_cons] at h ⊢
      rw [hgarbage.1] at h
      exact h
    · next hapart => exact List.isChain_cons_cons.2 ⟨hapart, h⟩

/-- The lexer joins the pieces of the scanner. -/
theorem cutInto_entries (done : List Piece) (text : List Char)
    (hdone : done.IsChain fun next piece => Apart piece.kind next.kind) :
    ∃ pieces, Cuts text pieces ∧
      entries (cutInto done text) = joinGarbage (entries done ++ pieces) := by
  fun_induction cutInto done text with
  | case1 done =>
    refine ⟨[], .nil, ?_⟩
    rw [List.append_nil, joinGarbage_eq_self]
    rw [entries, List.isChain_map, List.isChain_reverse]
    exact hdone
  | case2 done c rest hlength ih =>
    obtain ⟨pieces, hcuts, hentries⟩ := ih (isChain_push _ hdone)
    obtain ⟨word, htaken, htext, hfirst⟩ := next_firstPiece c rest
    refine ⟨((next c rest).piece.kind, word) :: pieces, ?_, ?_⟩
    · have hword : word ≠ [] := by
        rintro rfl
        rw [List.nil_append] at htext
        rw [← htext] at hlength
        exact Nat.lt_irrefl _ hlength
      rw [htext] at hfirst ⊢
      exact .cons hword hfirst hcuts
    · rw [hentries, joinGarbage_entries_push, entry, htaken, List.reverse_reverse]

end Piece

/-! ## Tokens side by side -/

def Adjoin : Nat → List Token → Prop
  | _, [] => True
  | offset, token :: tokens => token.start = offset ∧ Adjoin token.stop tokens

/-- The tokens lie side by side over the whole text, and none is empty. -/
structure Tiles (text : String) (tokens : List Token) : Prop where
  adjoin : Adjoin 0 tokens
  covers : String.join (tokens.map (·.text)) = text
  nonempty : ∀ token ∈ tokens, token.text ≠ ""

theorem Adjoin.slice {offset : Nat} {tokens : List Token} (h : Adjoin offset tokens) {token : Token}
    (htoken : token ∈ tokens) : ∃ front back,
      String.join (tokens.map (·.text)) = front ++ token.text ++ back ∧
        token.start = offset + front.utf8ByteSize := by
  induction tokens generalizing offset with
  | nil => cases htoken
  | cons first tokens ih =>
    obtain ⟨rfl, hrest⟩ := h
    rw [List.map_cons, String.join_cons]
    rcases List.mem_cons.1 htoken with rfl | htoken
    · exact ⟨"", String.join (tokens.map (·.text)), by simp, rfl⟩
    · obtain ⟨front, back, hjoin, hstart⟩ := ih hrest htoken
      refine ⟨first.text ++ front, back, by simp [hjoin, String.append_assoc], ?_⟩
      rw [hstart, Token.stop, String.utf8ByteSize_append, Nat.add_assoc]

/-- A token is the part of the text at its place. -/
theorem Tiles.slice {text : String} {tokens : List Token} (h : Tiles text tokens) {token : Token}
    (htoken : token ∈ tokens) :
    ∃ front back, text = front ++ token.text ++ back ∧ token.start = front.utf8ByteSize := by
  obtain ⟨front, back, hjoin, hstart⟩ := h.adjoin.slice htoken
  exact ⟨front, back, h.covers.symm.trans hjoin, by rw [hstart, Nat.zero_add]⟩

/-- The tokens are no more than the bytes, since none of them is empty. -/
theorem Tiles.length_le {text : String} {tokens : List Token} (h : Tiles text tokens) :
    tokens.length ≤ text.utf8ByteSize := by
  obtain ⟨-, rfl, hnonempty⟩ := h
  induction tokens with
  | nil => exact Nat.zero_le _
  | cons token tokens ih =>
    obtain ⟨hfirst, hrest⟩ := List.forall_mem_cons.1 hnonempty
    have hpos := Nat.pos_of_ne_zero (mt String.utf8ByteSize_eq_zero_iff.1 hfirst)
    have hle := ih hrest
    rw [List.map_cons, String.join_cons, String.utf8ByteSize_append, List.length_cons]
    omega

/-! ## The tokens of the lexer -/

namespace Token

def entry (token : Token) : TokenKind × List Char := (token.kind, token.text.toList)

end Token

theorem placePieces_go (offset : Nat) (pieces : List Piece) (placed : List Token) :
    placePieces.go offset pieces placed = placed.reverse ++ placePieces offset pieces := by
  induction pieces generalizing offset placed with
  | nil => simp [placePieces, placePieces.go]
  | cons piece pieces ih =>
    simp only [placePieces, placePieces.go]
    rw [ih, ih _ [_], List.reverse_cons, List.append_assoc]
    rfl

theorem placePieces_cons (offset : Nat) (piece : Piece) (pieces : List Piece) :
    placePieces offset (piece :: pieces) = ⟨piece.kind, offset, piece.text⟩ ::
      placePieces (Token.stop ⟨piece.kind, offset, piece.text⟩) pieces := by
  rw [placePieces, placePieces.go, placePieces_go]
  rfl

theorem map_entry_placePieces (offset : Nat) (pieces : List Piece) :
    (placePieces offset pieces).map Token.entry = pieces.map Piece.entry := by
  induction pieces generalizing offset with
  | nil => rfl
  | cons piece pieces ih =>
    rw [placePieces_cons, List.map_cons, List.map_cons, ih]
    simp [Token.entry, Piece.entry, Piece.text]

theorem adjoin_placePieces (offset : Nat) (pieces : List Piece) :
    Adjoin offset (placePieces offset pieces) := by
  induction pieces generalizing offset with
  | nil => trivial
  | cons piece pieces ih =>
    rw [placePieces_cons]
    exact ⟨rfl, ih _⟩

/-- The tokens are the joined pieces of the scanner. -/
theorem exists_cuts_lex (source : String) :
    ∃ pieces, Cuts source.toList pieces ∧ (lex source).map Token.entry = joinGarbage pieces := by
  obtain ⟨pieces, hcuts, hentries⟩ := Piece.cutInto_entries [] source.toList .nil
  exact ⟨pieces, hcuts, (map_entry_placePieces _ _).trans hentries⟩

theorem lex_tiles (source : String) : Tiles source (lex source) := by
  obtain ⟨pieces, hcuts, hlex⟩ := exists_cuts_lex source
  have hmap {α : Type} (f : TokenKind × List Char → α) :
      (lex source).map (fun token => f token.entry) = (joinGarbage pieces).map f := by
    rw [← hlex, List.map_map]
    rfl
  refine ⟨adjoin_placePieces _ _, ?_, ?_⟩
  · rw [← String.toList_inj, String.toList_join, List.flatMap_map]
    calc (lex source).flatMap (fun token => token.text.toList)
        = (joinGarbage pieces).flatMap Prod.snd := by
          rw [List.flatMap_def, List.flatMap_def, ← hmap Prod.snd]
          rfl
      _ = source.toList := by rw [flatMap_joinGarbage, hcuts.flatMap]
  · intro token htoken hempty
    have hentry : token.entry ∈ joinGarbage pieces := hlex ▸ List.mem_map_of_mem htoken
    exact ne_nil_of_mem_joinGarbage hcuts.ne_nil _ hentry (by simp [Token.entry, hempty])

end GuardedQuery

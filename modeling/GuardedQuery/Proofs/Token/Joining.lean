import GuardedQuery.Proofs.Token.Prolonging

/-! # Text behind text

- `Cuts.join`: the pieces of two texts, one behind the other.
- `Closed.append`: the tokens that the grammar sees of two texts, one behind the other.
-/

namespace GuardedQuery

open Language Computability

variable {kind : TokenKind} {word text rest more : List Char} {c : Char}
  {pieces : List (TokenKind × List Char)}

/-! ## The pieces of two texts -/

def isSignificant (piece : TokenKind × List Char) : Bool :=
  !piece.1.isTrivia

theorem Cuts.eq_nil (h : Cuts [] pieces) : pieces = [] :=
  Cuts.nil.unique h

/-- A closing brace among the pieces is one in the text. -/
theorem Cuts.brace_mem (h : Cuts text pieces) {piece : TokenKind × List Char}
    (hpiece : piece ∈ pieces) (hkind : piece.1 = .braceClose) : '\x7d' ∈ text := by
  induction h with
  | nil => cases hpiece
  | cons _ hfirst _ ih =>
    rcases List.mem_cons.mp hpiece with rfl | hpiece
    · obtain rfl := hkind
      have hvocabulary := hfirst.mem_vocabulary (by simp)
      obtain ⟨c, hc, rfl⟩ := hvocabulary
      obtain rfl : c = '\x7d' := by simpa using hc
      simp
    · exact List.mem_append_right _ (ih hpiece)

/-- A piece in front of a text that closes with a brace stays, whatever follows. -/
theorem FirstPiece.append_of_closes (h : FirstPiece (word ++ rest) kind word)
    (hkind : kind ≠ .garbage) (hrest : rest ≠ []) (hcuts : Cuts rest pieces)
    (hcloses : ∀ piece ∈ (((kind, word) :: pieces).filter isSignificant).getLast?,
      piece.1 = .braceClose) (more : List Char) :
    FirstPiece (word ++ rest ++ more) kind word := by
  refine h.append hkind ?_ more
  generalize htext : word ++ rest = text at h
  cases h with
  | block => exact .inl rfl
  | unclosed => exact (hkind rfl).elim
  | stray => exact (hkind rfl).elim
  | token hquote hword hvocabulary =>
    subst htext
    refine .inr (not_isStem hquote hword hvocabulary hrest fun hopen => ?_)
    have hsignificant : isSignificant (kind, word) := by
      rcases hopen with rfl | rfl | rfl <;> rfl
    rw [List.filter_cons_of_pos hsignificant, List.getLast?_cons] at hcloses
    cases hlast : (pieces.filter isSignificant).getLast? with
    | none =>
      have := hcloses (kind, word) (by rw [hlast]; rfl)
      rcases hopen with rfl | rfl | rfl <;> cases this
    | some piece =>
      have hpiece := List.mem_of_mem_filter (List.mem_of_getLast? hlast)
      exact hcuts.brace_mem hpiece (hcloses piece (by rw [hlast]; rfl))

theorem getLast?_filter_cons {head piece : TokenKind × List Char}
    (h : piece ∈ (pieces.filter isSignificant).getLast?) :
    piece ∈ ((head :: pieces).filter isSignificant).getLast? := by
  rw [List.filter_cons]
  split
  · rw [List.getLast?_cons, h]
    rfl
  · exact h

/-- Behind pieces that close with a brace, the pieces of another text stay as they are, but
for trivia that the last piece takes in. -/
theorem Cuts.join {others : List (TokenKind × List Char)} (h : Cuts text pieces)
    (hmore : Cuts more others) (hclean : ∀ piece ∈ pieces, piece.1 ≠ .garbage)
    (hcloses : ∀ piece ∈ (pieces.filter isSignificant).getLast?, piece.1 = .braceClose)
    (hcomment : (∃ piece ∈ pieces.getLast?, piece.1 = .comment) →
      ∃ piece ∈ others.takeWhile (·.1.isTrivia), piece.1 = .newline) :
    ∃ front skipped back, Cuts (text ++ more) (front ++ back) ∧
      front.filter isSignificant = pieces.filter isSignificant ∧
      (∀ piece ∈ front, piece.1 ≠ .garbage) ∧ others = skipped ++ back ∧
      ∀ piece ∈ skipped, piece.1.isTrivia := by
  induction h with
  | nil => exact ⟨[], [], others, hmore, rfl, by simp, rfl, by simp⟩
  | @cons kind word rest pieces hword hfirst hrest ih =>
    rw [List.forall_mem_cons] at hclean
    by_cases hend : rest = []
    · subst hend
      obtain rfl := hrest.eq_nil
      rw [List.append_nil] at hfirst ⊢
      have hkind : kind.isTrivia ∨ kind = .braceClose := by
        by_cases htrivia : kind.isTrivia
        · exact .inl htrivia
        · exact .inr (hcloses (kind, word) (by simp [isSignificant, htrivia]))
      obtain ⟨longer, skipped, back, hcuts, hbrace, hothers, hskipped⟩ :=
        hmore.join_last hfirst hword hkind fun h => hcomment ⟨_, rfl, h⟩
      refine ⟨[(kind, word ++ longer)], skipped, back, hcuts, ?_, by simpa using hclean.1, hothers,
        hskipped⟩
      rcases hkind with htrivia | rfl
      · simp [isSignificant, htrivia]
      · simp [hbrace rfl]
    · have hpieces : pieces ≠ [] := by
        rintro rfl
        exact hend hrest.flatMap.symm
      obtain ⟨front, skipped, back, hcuts, hfront, hclean', hothers, hskipped⟩ :=
        ih hclean.2 (fun piece hpiece => hcloses piece (getLast?_filter_cons hpiece))
          fun h => hcomment (by rwa [List.getLast?_cons_of_ne_nil hpieces])
      rw [List.append_assoc]
      refine ⟨(kind, word) :: front, skipped, back, .cons hword ?_ hcuts, ?_,
        List.forall_mem_cons.mpr ⟨hclean.1, hclean'⟩, hothers, hskipped⟩
      · rw [← List.append_assoc]
        exact hfirst.append_of_closes hclean.1 hend hrest hcloses more
      · rw [List.filter_cons, List.filter_cons, hfront]

/-! ## The tokens of two texts -/

theorem joinGarbage_of_clean (h : ∀ piece ∈ pieces, piece.1 ≠ .garbage) :
    joinGarbage pieces = pieces := by
  induction pieces with
  | nil => rfl
  | cons piece pieces ih =>
    rw [List.forall_mem_cons] at h
    rw [joinGarbage_cons_of_ne h.1, ih h.2]

theorem joinGarbage_of_joined_clean (h : ∀ piece ∈ joinGarbage pieces, piece.1 ≠ .garbage) :
    joinGarbage pieces = pieces := by
  induction pieces with
  | nil => rfl
  | cons piece pieces ih =>
    obtain ⟨kind, word⟩ := piece
    rcases joinGarbage_cons kind word pieces with ⟨more, others, -, -, heq⟩ | ⟨-, heq⟩
    · rw [heq, List.forall_mem_cons] at h
      exact (h.1 rfl).elim
    · rw [heq, List.forall_mem_cons] at h
      rw [heq, ih h.2]

/-- Without garbage the tokens are the pieces. -/
theorem cuts_lex {source : String} (h : ∀ token ∈ lex source, token.kind ≠ .garbage) :
    Cuts source.toList ((lex source).map Token.entry) := by
  obtain ⟨pieces, hcuts, hlex⟩ := exists_cuts_lex source
  have hclean : ∀ piece ∈ joinGarbage pieces, piece.1 ≠ .garbage := by
    rw [← hlex, List.forall_mem_map]
    exact h
  rwa [hlex, joinGarbage_of_joined_clean hclean]

theorem Cuts.lex_eq {source : String} (h : Cuts source.toList pieces)
    (hclean : ∀ piece ∈ pieces, piece.1 ≠ .garbage) : (lex source).map Token.entry = pieces := by
  obtain ⟨others, hcuts, hlex⟩ := exists_cuts_lex source
  rw [hlex, h.unique hcuts, joinGarbage_of_clean hclean]

theorem map_entry_significant (tokens : List Token) :
    (significant tokens).map Token.entry = (tokens.map Token.entry).filter isSignificant := by
  rw [List.filter_map]
  rfl

structure Closed (text : String) : Prop where
  clean : ∀ token ∈ lex text, token.kind ≠ .garbage
  closes : ∃ token ∈ (significant (lex text)).getLast?, token.kind = .braceClose

def EndsInComment (text : String) : Prop :=
  ∃ token ∈ (lex text).getLast?, token.kind = .comment

def OpensOnNewLine (text : String) : Prop :=
  ∃ token ∈ (lex text).takeWhile (·.isTrivia), token.kind = .newline

theorem endsInComment_iff {text : String} :
    EndsInComment text ↔ ∃ piece ∈ ((lex text).map Token.entry).getLast?, piece.1 = .comment := by
  rw [List.getLast?_map]
  constructor
  · rintro ⟨token, htoken, hkind⟩
    exact ⟨token.entry, Option.mem_map_of_mem _ htoken, hkind⟩
  · rintro ⟨piece, hpiece, hkind⟩
    obtain ⟨token, htoken, rfl⟩ := Option.map_eq_some_iff.mp hpiece
    exact ⟨token, htoken, hkind⟩

theorem OpensOnNewLine.piece {text : String} (h : OpensOnNewLine text) :
    ∃ piece ∈ ((lex text).map Token.entry).takeWhile (·.1.isTrivia), piece.1 = .newline := by
  obtain ⟨token, htoken, hkind⟩ := h
  rw [List.takeWhile_map]
  exact ⟨token.entry, List.mem_map_of_mem htoken, hkind⟩

theorem Closed.piece_ne_garbage {text : String} (h : Closed text) :
    ∀ piece ∈ (lex text).map Token.entry, piece.1 ≠ .garbage :=
  List.forall_mem_map.mpr h.clean

theorem Closed.piece_eq_braceClose {text : String} (h : Closed text) :
    ∀ piece ∈ (((lex text).map Token.entry).filter isSignificant).getLast?,
      piece.1 = .braceClose := by
  obtain ⟨brace, hbrace, hkind⟩ := h.closes
  rw [← map_entry_significant, List.getLast?_map, hbrace]
  rintro piece ⟨⟩
  exact hkind

/-- The tokens of one text behind another, next to those of the two: trivia at the start of the
second is taken in at the end of the first. -/
theorem Closed.lex_append {a b : String} (ha : Closed a) (hb : Closed b)
    (hcomment : EndsInComment a → OpensOnNewLine b) :
    ∃ front skipped back, (lex (a ++ b)).map Token.entry = front ++ back ∧
      (lex b).map Token.entry = skipped ++ back ∧
      front.filter isSignificant = ((lex a).map Token.entry).filter isSignificant ∧
      skipped.filter isSignificant = [] ∧ ∀ piece ∈ front ++ back, piece.1 ≠ .garbage := by
  obtain ⟨front, skipped, back, hcuts, hfront, hfrontClean, hothers, hskipped⟩ :=
    (cuts_lex ha.clean).join (cuts_lex hb.clean) ha.piece_ne_garbage ha.piece_eq_braceClose
      fun h => (hcomment (endsInComment_iff.mpr h)).piece
  have hbehind := hb.piece_ne_garbage
  rw [hothers, List.forall_mem_append] at hbehind
  have hclean := List.forall_mem_append.mpr ⟨hfrontClean, hbehind.2⟩
  rw [← String.toList_append] at hcuts
  refine ⟨front, skipped, back, hcuts.lex_eq hclean, hothers, hfront, ?_, hclean⟩
  rw [List.filter_eq_nil_iff]
  intro piece hpiece
  simp [isSignificant, hskipped piece hpiece]

/-- One text behind another has the significant tokens of both, unless a comment at the end of
the first reaches into the second. -/
theorem Closed.significant_append {a b : String} (ha : Closed a) (hb : Closed b)
    (hcomment : EndsInComment a → OpensOnNewLine b) :
    (significant (lex (a ++ b))).map Token.entry =
      (significant (lex a)).map Token.entry ++ (significant (lex b)).map Token.entry := by
  obtain ⟨front, skipped, back, hboth, hbehind, hfront, hskipped, -⟩ := ha.lex_append hb hcomment
  simp only [map_entry_significant, hboth, hbehind, List.filter_append, hfront, hskipped,
    List.nil_append]

theorem Closed.append {a b : String} (ha : Closed a) (hb : Closed b)
    (hcomment : EndsInComment a → OpensOnNewLine b) : Closed (a ++ b) where
  clean := by
    obtain ⟨front, skipped, back, hboth, -, -, -, hclean⟩ := ha.lex_append hb hcomment
    rwa [← hboth, List.forall_mem_map] at hclean
  closes := by
    obtain ⟨brace, hbrace, hkind⟩ := hb.closes
    have hlast := congrArg List.getLast? (ha.significant_append hb hcomment)
    rw [List.getLast?_append, List.getLast?_map, List.getLast?_map, hbrace] at hlast
    obtain ⟨last, hlast, heq⟩ := Option.map_eq_some_iff.mp hlast
    exact ⟨last, hlast, (congrArg Prod.fst heq).trans hkind⟩

/-- The last token of two texts is that of the second. -/
theorem Closed.endsInComment_append {a b : String} (ha : Closed a) (hb : Closed b)
    (hcomment : EndsInComment a → OpensOnNewLine b) (h : EndsInComment (a ++ b)) :
    EndsInComment b := by
  obtain ⟨front, skipped, back, hboth, hbehind, -, hskipped, -⟩ := ha.lex_append hb hcomment
  have hback : back ≠ [] := by
    rintro rfl
    obtain ⟨brace, hbrace, -⟩ := hb.closes
    have hnone : (significant (lex b)).map Token.entry = [] := by
      rw [map_entry_significant, hbehind, List.append_nil, hskipped]
    rw [List.map_eq_nil_iff.mp hnone] at hbrace
    cases hbrace
  rw [endsInComment_iff, hboth, List.getLast?_append_of_ne_nil _ hback] at h
  rwa [endsInComment_iff, hbehind, List.getLast?_append_of_ne_nil _ hback]

end GuardedQuery

import GuardedQuery.Proofs.Token.Joining

/-! # One space between tokens

A token that the grammar sees ends where it does whatever stands behind it, and a space does not
prolong it.  So these tokens stay what they are when one space between each two of them takes
the place of all trivia.

- `respaced`: a text with one space between its significant tokens and no other trivia.
- `FirstPiece.before_space`: a token with a space behind it.
- `cuts_spaced`: the pieces of tokens with spaces between them.
- `significant_respaced`: the significant tokens of the rewritten text.
-/

namespace GuardedQuery

/-- The significant tokens of a text, one space between each two of them. -/
def respaced (text : String) : String :=
  " ".intercalate ((significant (lex text)).map (·.text))

variable {kind : TokenKind} {word rest more : List Char} {c : Char}

/-! ## A token and a space -/

theorem Scan.step_space {last : Scan} (haccepts : last.accepts = some kind)
    (hkind : kind.isTrivia = false) : last.step ' ' = none := by
  cases last with
  | blank | carriageReturn | comment =>
    cases haccepts
    cases hkind
  | complete _ | name | zero | digits | fraction | exponentDigits => rfl
  | _ => cases haccepts

theorem Scan.eq_blank_of_read {last : Scan} (h : blank.read word = some last) : last = blank := by
  induction word with
  | nil => exact (Option.some.inj h).symm
  | cons c word ih =>
    rw [read_cons, step] at h
    split at h
    · exact ih h
    · cases h

theorem isLineBlank_eq_false (hquote : ¬ tripleQuote <+: c :: word)
    (hkind : kind.isTrivia = false) (h : c :: word ∈ vocabulary kind) : isLineBlank c = false := by
  by_contra hblank
  obtain ⟨last, hread, haccepts⟩ := exists_read_of_mem_vocabulary hquote h
  rw [Scan.read_cons, Scan.step, Scan.first_of_isLineBlank (by simpa using hblank)] at hread
  obtain rfl := Scan.eq_blank_of_read hread
  cases haccepts
  cases hkind

/-- Quotes in front of a space do not become three. -/
theorem not_tripleQuote_before_space (hquote : ¬ tripleQuote <+: word)
    (hmore : ∀ c ∈ more.head?, c = ' ') : ¬ tripleQuote <+: word ++ more := by
  intro h
  rcases List.prefix_or_prefix_of_prefix h (List.prefix_append word more) with
    hwhole | ⟨lack, hlack⟩
  · exact hquote hwhole
  · -- The quotes that the word lacks would stand where the space stands.
    rw [← hlack, List.prefix_append_right_inj] at h
    cases lack with
    | nil => exact hquote ⟨[], by simpa using hlack.symm⟩
    | cons d lack =>
      obtain ⟨behind, rfl⟩ := h
      have hspace : d = ' ' := hmore d rfl
      have hd : d ∈ tripleQuote := hlack ▸ List.mem_append_right word List.mem_cons_self
      rw [hspace] at hd
      exact absurd hd (by decide)

section

variable (h : FirstPiece (word ++ rest) kind word) (hgarbage : kind ≠ .garbage)
  (hkind : kind.isTrivia = false)

include h hgarbage hkind

/-- A significant token stays what it is with a space or the end behind it. -/
theorem FirstPiece.before_space (hmore : ∀ c ∈ more.head?, c = ' ') :
    FirstPiece (word ++ more) kind word := by
  generalize htext : word ++ rest = text at h
  cases h with
  | block hfront htail => exact .block (List.prefix_append _ _) htail
  | unclosed => exact (hgarbage rfl).elim
  | stray => exact (hgarbage rfl).elim
  | token hquote hlongest hvocabulary =>
    have hfront := not_quote_of_front hquote hlongest.isPrefix
    obtain ⟨last, hread, haccepts⟩ := exists_read_of_mem_vocabulary hfront hvocabulary
    refine firstPiece_of_read (not_tripleQuote_before_space hfront hmore) hread haccepts ?_
    intro c hc
    rw [hmore c hc]
    exact Scan.step_space haccepts hkind

/-- No significant token starts with a blank. -/
theorem FirstPiece.head_not_blank : ∀ c ∈ word.head?, isLineBlank c = false := by
  intro c hc
  obtain ⟨behind, rfl⟩ := List.head?_eq_some_iff.1 hc
  generalize htext : c :: behind ++ rest = text at h
  generalize hword : c :: behind = word at h
  cases h with
  | block hfront htail =>
    obtain rfl := (List.cons.inj hword).1
    rfl
  | unclosed => exact (hgarbage rfl).elim
  | stray => exact (hgarbage rfl).elim
  | token hquote hlongest hvocabulary =>
    subst hword
    exact isLineBlank_eq_false (not_quote_of_front hquote hlongest.isPrefix) hkind hvocabulary

end

/-- A space in front of a token is a piece of its own. -/
theorem firstPiece_space (hrest : ∀ c ∈ rest.head?, isLineBlank c = false) :
    FirstPiece ([' '] ++ rest) .whitespace [' '] := by
  have hquote : ¬ tripleQuote <+: [' '] ++ rest := by
    rintro ⟨more, hmore⟩
    cases hmore
  have hread : Scan.start.read [' '] = some .blank := rfl
  exact firstPiece_of_read hquote hread rfl fun c hc => by simp [Scan.step, hrest c hc]

/-! ## Spaces between tokens -/

/-- A significant token, with something behind it that does not prolong it. -/
structure Stands (piece : TokenKind × List Char) : Prop where
  isSignificant : isSignificant piece
  clean : piece.1 ≠ .garbage
  nonempty : piece.2 ≠ []
  first : ∃ rest, FirstPiece (piece.2 ++ rest) piece.1 piece.2

variable {text : List Char} {pieces : List (TokenKind × List Char)}

theorem Stands.isTrivia {piece : TokenKind × List Char} (h : Stands piece) :
    piece.1.isTrivia = false := by
  have hsignificant := h.isSignificant
  rwa [GuardedQuery.isSignificant, Bool.not_eq_true'] at hsignificant

theorem Cuts.stands (h : Cuts text pieces) (hclean : ∀ piece ∈ pieces, piece.1 ≠ .garbage) :
    ∀ piece ∈ pieces.filter isSignificant, Stands piece := by
  induction h with
  | nil => simp
  | @cons kind word rest pieces hword hfirst _ ih =>
    rw [List.forall_mem_cons] at hclean
    intro piece hpiece
    obtain ⟨hmem, hsignificant⟩ := List.mem_filter.1 hpiece
    rcases List.mem_cons.1 hmem with rfl | hmem
    · exact ⟨hsignificant, hclean.1, hword, rest, hfirst⟩
    · exact ih hclean.2 piece (List.mem_filter.2 ⟨hmem, hsignificant⟩)

theorem exists_intercalate_eq (word : List Char) (words : List (List Char)) :
    ∃ behind, [' '].intercalate (word :: words) = word ++ behind := by
  cases words with
  | nil => exact ⟨[], by simp⟩
  | cons next words => exact ⟨[' '] ++ [' '].intercalate (next :: words), by simp⟩

/-- Tokens with spaces between them are cut into these tokens and these spaces. -/
theorem cuts_spaced (h : ∀ piece ∈ pieces, Stands piece) :
    Cuts ([' '].intercalate (pieces.map Prod.snd)) (pieces.intersperse (.whitespace, [' '])) := by
  induction pieces with
  | nil => exact .nil
  | cons piece pieces ih =>
    rw [List.forall_mem_cons] at h
    obtain ⟨_, hfirst⟩ := h.1.first
    have hbefore (more : List Char) (hmore : ∀ c ∈ more.head?, c = ' ') :=
      hfirst.before_space h.1.clean h.1.isTrivia hmore
    cases pieces with
    | nil =>
      have hlast := Cuts.cons h.1.nonempty (hbefore [] (by simp)) .nil
      simpa using hlast
    | cons next pieces =>
      have hnext := h.2 next List.mem_cons_self
      obtain ⟨_, hnextFirst⟩ := hnext.first
      obtain ⟨behind, hbehind⟩ := exists_intercalate_eq next.2 (pieces.map Prod.snd)
      have hspace : FirstPiece ([' '] ++ [' '].intercalate ((next :: pieces).map Prod.snd))
          .whitespace [' '] := by
        refine firstPiece_space fun c hc => ?_
        rw [List.map_cons, hbehind, List.head?_append_of_ne_nil _ hnext.nonempty] at hc
        exact hnextFirst.head_not_blank hnext.clean hnext.isTrivia c hc
      have hcuts := Cuts.cons h.1.nonempty (hbefore _ (by simp)) (.cons (by simp) hspace (ih h.2))
      simpa using hcuts

theorem filter_intersperse_space (h : ∀ piece ∈ pieces, isSignificant piece) :
    (pieces.intersperse (.whitespace, [' '])).filter isSignificant = pieces := by
  induction pieces with
  | nil => rfl
  | cons piece pieces ih =>
    rw [List.forall_mem_cons] at h
    cases pieces with
    | nil => simp [h.1]
    | cons next pieces =>
      have hspace : ¬ isSignificant (.whitespace, [' ']) := by decide
      rw [List.intersperse_cons_cons, List.filter_cons_of_pos h.1,
        List.filter_cons_of_neg hspace, ih h.2]

theorem eq_or_mem_of_mem_intersperse {piece space : TokenKind × List Char}
    (h : piece ∈ pieces.intersperse space) : piece = space ∨ piece ∈ pieces := by
  induction pieces with
  | nil => cases h
  | cons first pieces ih =>
    cases pieces with
    | nil => exact .inr h
    | cons next pieces =>
      rw [List.intersperse_cons_cons] at h
      rcases List.mem_cons.1 h with rfl | h
      · exact .inr List.mem_cons_self
      · rcases List.mem_cons.1 h with rfl | h
        · exact .inl rfl
        · exact (ih h).imp_right (List.mem_cons_of_mem first)

/-! ## The rewritten text -/

theorem toList_respaced (source : String) : (respaced source).toList =
    [' '].intercalate (((significant (lex source)).map Token.entry).map Prod.snd) := by
  rw [respaced, String.toList_intercalate, List.map_map, List.map_map]
  rfl

/-- The tokens of the rewritten text are the significant ones and spaces between them. -/
theorem lex_respaced {source : String} (h : ∀ token ∈ lex source, token.kind ≠ .garbage) :
    (lex (respaced source)).map Token.entry =
      ((significant (lex source)).map Token.entry).intersperse (.whitespace, [' ']) := by
  have hstands : ∀ piece ∈ (significant (lex source)).map Token.entry, Stands piece := by
    rw [map_entry_significant]
    exact (cuts_lex h).stands (List.forall_mem_map.2 h)
  refine Cuts.lex_eq (toList_respaced source ▸ cuts_spaced hstands) fun piece hpiece => ?_
  rcases eq_or_mem_of_mem_intersperse hpiece with rfl | hmem
  · decide
  · exact (hstands piece hmem).clean

theorem significant_respaced {source : String} (h : ∀ token ∈ lex source, token.kind ≠ .garbage) :
    (significant (lex (respaced source))).map Token.entry =
      (significant (lex source)).map Token.entry := by
  have hsignificant :
      ∀ piece ∈ (significant (lex source)).map Token.entry, isSignificant piece := by
    rw [map_entry_significant]
    exact fun piece hpiece => (List.mem_filter.1 hpiece).2
  rw [map_entry_significant, lex_respaced h, filter_intersperse_space hsignificant]

end GuardedQuery

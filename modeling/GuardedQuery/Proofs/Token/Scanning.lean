import GuardedQuery.Token.Lexer
import GuardedQuery.Proofs.Token.Automaton

/-! # The reference scanner

Which piece stands at the front of a text, said with the vocabulary alone: a block string up
to its first closing quotes, else the longest word, else as much garbage as could have become
a word.  The lexer cuts off that piece, and there is only one such piece.

- `LongestPrefix`, `IsStem`, `FirstPiece`, `Cuts`: the scanner.
- `Piece.munch_spec`, `Piece.blockString_append`: what the two loops of the lexer find.
- `Piece.next_firstPiece`, `FirstPiece.unique`: the lexer and the scanner agree.
-/

namespace GuardedQuery

/-! ## The scanner -/

structure LongestPrefix (p : List Char → Prop) (text word : List Char) : Prop where
  isPrefix : word <+: text
  holds : p word
  longest : ∀ other, other <+: text → p other → other.length ≤ word.length

/-- Some word of the vocabulary starts like that. -/
def IsStem (word : List Char) : Prop := ∃ kind more, word ++ more ∈ vocabulary kind

/-- The piece at the front of a text that is not empty. -/
inductive FirstPiece (text : List Char) : TokenKind → List Char → Prop where
  | block {tail : List Char} (hfront : tripleQuote ++ tail <+: text) (htail : BlockTail tail) :
      FirstPiece text .blockStringLit (tripleQuote ++ tail)
  | unclosed (hquote : tripleQuote <+: text)
      (hopen : ∀ tail, tripleQuote ++ tail <+: text → ¬ BlockTail tail) :
      FirstPiece text .garbage text
  | token {kind : TokenKind} {word : List Char} (hquote : ¬ tripleQuote <+: text)
      (hword : LongestPrefix (fun word => ∃ kind, word ∈ vocabulary kind) text word)
      (hkind : word ∈ vocabulary kind) : FirstPiece text kind word
  | stray {word : List Char} (hquote : ¬ tripleQuote <+: text)
      (hnone : ∀ kind word, word <+: text → word ∉ vocabulary kind)
      (hword : LongestPrefix IsStem text word) :
      FirstPiece text .garbage (text.take (max 1 word.length))

inductive Cuts : List Char → List (TokenKind × List Char) → Prop where
  | nil : Cuts [] []
  | cons {kind : TokenKind} {word rest : List Char} {pieces : List (TokenKind × List Char)}
      (hword : word ≠ []) (first : FirstPiece (word ++ rest) kind word)
      (others : Cuts rest pieces) : Cuts (word ++ rest) ((kind, word) :: pieces)

variable {text word other rest tail taken : List Char} {c : Char} {kind : TokenKind}

theorem LongestPrefix.eq {p : List Char → Prop} (hword : LongestPrefix p text word)
    (hother : LongestPrefix p text other) : word = other := by
  have hle := hother.longest word hword.isPrefix hword.holds
  have hge := hword.longest other hother.isPrefix hother.holds
  exact (List.prefix_of_prefix_length_le hword.isPrefix hother.isPrefix hle).eq_of_length
    (Nat.le_antisymm hle hge)

/-! ## Words that do not start with three quotes -/

theorem kind_ne_of_not_quote (hquote : ¬ tripleQuote <+: word) (hword : word ∈ vocabulary kind) :
    kind ≠ .blockStringLit := by
  rintro rfl
  obtain ⟨tail, rfl, -⟩ := hword
  exact hquote (List.prefix_append _ _)

/-- A word has one kind. -/
theorem kind_unique {kind' : TokenKind} (hquote : ¬ tripleQuote <+: word)
    (hkind : word ∈ vocabulary kind) (hkind' : word ∈ vocabulary kind') : kind = kind' := by
  have h : Scan.start.Awaits kind word := ⟨kind_ne_of_not_quote hquote hkind, hkind⟩
  have h' : Scan.start.Awaits kind' word := ⟨kind_ne_of_not_quote hquote hkind', hkind'⟩
  obtain ⟨last, hread, haccepts⟩ := Scan.awaits_iff.1 h
  obtain ⟨last', hread', haccepts'⟩ := Scan.awaits_iff.1 h'
  cases hread.symm.trans hread'
  exact Option.some.inj (haccepts.symm.trans haccepts')

/-- The automaton gets through the stems. -/
theorem isStem_iff (hquote : ¬ tripleQuote <+: word) :
    IsStem word ↔ (Scan.start.read word).isSome := by
  rw [Scan.isSome_read_iff]
  constructor
  · rintro ⟨kind, more, hmore⟩
    by_cases hblock : kind = .blockStringLit
    · -- One quote or two start a string as well.
      subst hblock
      obtain ⟨tail, h, -⟩ := hmore
      have hshort : word <+: tripleQuote :=
        (List.prefix_or_prefix_of_prefix ⟨more, h⟩ (List.prefix_append _ _)).resolve_right hquote
      rw [← Scan.isSome_read_iff]
      have hlength : word.length ≠ tripleQuote.length :=
        fun h => hquote (by rw [hshort.eq_of_length h])
      have hlt : word.length < 3 := Nat.lt_of_le_of_ne hshort.length_le hlength
      rw [List.prefix_iff_eq_take.1 hshort]
      match word.length, hlt with
      | 0, _ => rfl
      | 1, _ => rfl
      | 2, _ => rfl
    · exact ⟨kind, more, hblock, hmore⟩
  · rintro ⟨kind, more, -, hmore⟩
    exact ⟨kind, more, hmore⟩

namespace Piece

/-! ## The longest word -/

/-- How far a state reads into a text: up to the longest word that it waits for, or, where
there is none, as far as it gets. -/
inductive Reads (state : Scan) (text : List Char) : Option TokenKind → List Char → Prop where
  | token {kind : TokenKind} {word : List Char}
      (hword : LongestPrefix (fun word => word ≠ [] ∧ ∃ kind, state.Awaits kind word) text word)
      (hkind : state.Awaits kind word) : Reads state text (some kind) word
  | stuck {word : List Char}
      (hnone : ∀ kind word, word <+: text → word ≠ [] → ¬ state.Awaits kind word)
      (hword : LongestPrefix (fun word => (state.read word).isSome) text word) :
      Reads state text none word

theorem Reads.nil (state : Scan) : Reads state [] none [] := by
  refine .stuck ?_ ⟨List.prefix_refl _, rfl, ?_⟩
  · intro kind word hword hne
    exact (hne (List.prefix_nil.1 hword)).elim
  · intro word hword _
    rw [List.prefix_nil.1 hword]

theorem Reads.of_step_none {state : Scan} (hstep : state.step c = none) :
    Reads state (c :: rest) none [] := by
  refine .stuck ?_ ⟨List.nil_prefix, rfl, ?_⟩
  · intro kind word hword hne hawaits
    obtain rfl | ⟨word, rfl, -⟩ := List.prefix_cons_iff.1 hword
    · exact hne rfl
    · obtain ⟨next, hnext, -⟩ := Scan.awaits_iff_step.1 hawaits
      cases hstep.symm.trans hnext
  · intro word hword hread
    obtain rfl | ⟨word, rfl, -⟩ := List.prefix_cons_iff.1 hword
    · exact Nat.le_refl _
    · rw [Scan.read_cons, hstep] at hread
      cases hread

section cons

variable {state next : Scan}

/-- A step in front of a word makes it longer. -/
theorem Reads.cons_token (hstep : state.step c = some next) (h : Reads next rest (some kind) word) :
    Reads state (c :: rest) (some kind) (c :: word) := by
  obtain ⟨hword, hkind⟩ : LongestPrefix (fun word => word ≠ [] ∧ ∃ kind, next.Awaits kind word)
      rest word ∧ next.Awaits kind word := by
    cases h with
    | token hword hkind => exact ⟨hword, hkind⟩
  have hawaits : state.Awaits kind (c :: word) := (Scan.awaits_cons_iff hstep).2 hkind
  have hfront : c :: word <+: c :: rest := List.cons_prefix_cons.2 ⟨rfl, hword.isPrefix⟩
  refine .token ⟨hfront, ⟨List.cons_ne_nil _ _, kind, hawaits⟩, ?_⟩ hawaits
  rintro other hother ⟨hne, kind, hawaits⟩
  obtain rfl | ⟨other, rfl, hbehind⟩ := List.prefix_cons_iff.1 hother
  · exact (hne rfl).elim
  · cases other with
    | nil => exact Nat.succ_le_succ (Nat.zero_le _)
    | cons d other =>
      have hlonger := (Scan.awaits_cons_iff hstep).1 hawaits
      exact Nat.succ_le_succ (hword.longest _ hbehind ⟨List.cons_ne_nil _ _, kind, hlonger⟩)

/-- Where the next state is stuck, no word that is waited for goes beyond the first character. -/
theorem Reads.eq_nil_of_awaits (hstep : state.step c = some next) (h : Reads next rest none word)
    (hother : other <+: rest) (hawaits : state.Awaits kind (c :: other)) : other = [] := by
  cases h with
  | stuck hnone hword =>
    by_contra hne
    exact hnone kind other hother hne ((Scan.awaits_cons_iff hstep).1 hawaits)

/-- A step to a token that nothing makes longer is a word. -/
theorem Reads.cons_accepts (hstep : state.step c = some next) (haccepts : next.accepts = some kind)
    (h : Reads next rest none word) : Reads state (c :: rest) (some kind) [c] := by
  have hkind : state.Awaits kind [c] :=
    (Scan.awaits_cons_iff hstep).2 (Scan.awaits_nil_iff.2 haccepts)
  have hfront : [c] <+: c :: rest := List.cons_prefix_cons.2 ⟨rfl, List.nil_prefix⟩
  refine .token ⟨hfront, ⟨List.cons_ne_nil _ _, kind, hkind⟩, ?_⟩ hkind
  rintro other hother ⟨hne, kind, hawaits⟩
  obtain rfl | ⟨other, rfl, hbehind⟩ := List.prefix_cons_iff.1 hother
  · exact (hne rfl).elim
  · rw [h.eq_nil_of_awaits hstep hbehind hawaits]

/-- A step to no token gets further into a text that holds no word. -/
theorem Reads.cons_stuck (hstep : state.step c = some next) (haccepts : next.accepts = none)
    (h : Reads next rest none word) : Reads state (c :: rest) none (c :: word) := by
  obtain ⟨hfront, hread, hlongest⟩ :
      LongestPrefix (fun word => (next.read word).isSome) rest word := by
    cases h with
    | stuck hnone hword => exact hword
  refine .stuck ?_ ⟨List.cons_prefix_cons.2 ⟨rfl, hfront⟩, ?_, ?_⟩
  · intro kind other hother hne hawaits
    obtain rfl | ⟨other, rfl, hbehind⟩ := List.prefix_cons_iff.1 hother
    · exact hne rfl
    · obtain rfl := h.eq_nil_of_awaits hstep hbehind hawaits
      have hother := Scan.awaits_nil_iff.1 ((Scan.awaits_cons_iff hstep).1 hawaits)
      cases haccepts.symm.trans hother
  · rw [Scan.read_cons, hstep]
    exact hread
  · intro other hother hread
    obtain rfl | ⟨other, rfl, hbehind⟩ := List.prefix_cons_iff.1 hother
    · exact Nat.zero_le _
    · rw [Scan.read_cons, hstep] at hread
      exact Nat.succ_le_succ (hlongest other hbehind hread)

end cons

/-- Reading on cuts behind the longest word, else where it was cut before, else where the
automaton is stuck. -/
theorem munch_spec (best : Option Cut) (state : Scan) (taken text : List Char) :
    ∃ kind? word rest, text = word ++ rest ∧ Reads state text kind? word ∧
      munch best state taken text =
        ((kind?.map fun kind => (⟨⟨kind, word.reverse ++ taken⟩, rest⟩ : Cut)) <|> best).getD
          ⟨⟨.garbage, word.reverse ++ taken⟩, rest⟩ := by
  induction text generalizing best state taken with
  | nil => exact ⟨none, [], [], rfl, .nil state, rfl⟩
  | cons c text ih =>
    cases hstep : state.step c with
    | none => exact ⟨none, [], c :: text, rfl, .of_step_none hstep, by simp [munch, hstep]⟩
    | some next =>
      obtain ⟨kind?, word, rest, rfl, hreads, hmunch⟩ :=
        ih ((next.accepts.map fun kind => ⟨⟨kind, c :: taken⟩, text⟩) <|> best) next (c :: taken)
      simp only [munch, hstep]
      rw [hmunch]
      cases kind? with
      | some kind =>
        exact ⟨some kind, c :: word, rest, rfl, hreads.cons_token hstep, by simp⟩
      | none =>
        cases haccepts : next.accepts with
        | some kind =>
          have hreads := hreads.cons_accepts hstep haccepts
          exact ⟨some kind, [c], word ++ rest, rfl, hreads, by simp⟩
        | none =>
          have hreads := hreads.cons_stuck hstep haccepts
          exact ⟨none, c :: word, rest, rfl, hreads, by simp⟩

end Piece

/-! ## The first closing quotes -/

theorem BlockTail.length_ge (h : BlockTail tail) : tripleQuote.length ≤ tail.length := by
  induction h with
  | close => exact Nat.le_refl _
  | escaped _ ih => exact Nat.le_trans ih (by simp; omega)
  | other _ _ _ ih => exact Nat.le_succ_of_le ih

namespace Piece

/-- The loop finds the tail of a block string, whatever follows. -/
theorem blockString_append (h : BlockTail tail) (taken rest : List Char) :
    blockString taken (tail ++ rest) = ⟨⟨.blockStringLit, tail.reverse ++ taken⟩, rest⟩ := by
  induction h generalizing taken with
  | close => rfl
  | escaped h ih => simpa [tripleQuote, blockString] using ih _
  | @other c tail hclose hescaped h ih =>
    have seen {front : List Char} (hlength : front.length ≤ 4)
        (hseen : front <+: c :: tail ++ rest) : front <+: c :: tail := by
      refine List.prefix_of_prefix_length_le hseen (List.prefix_append _ _) ?_
      exact Nat.le_trans hlength (Nat.succ_le_succ h.length_ge)
    rw [List.cons_append, blockString]
    · simpa using ih (c :: taken)
    · rintro more rfl hmore
      exact hescaped (seen (by decide) ⟨more, by simp [tripleQuote, hmore]⟩)
    · rintro more rfl hmore
      exact hclose (seen (by decide) ⟨more, by simp [tripleQuote, hmore]⟩)

/-- The loop stops behind the tail of a block string or at the end. -/
theorem blockString_spec (taken text : List Char) :
    (∃ tail rest, text = tail ++ rest ∧ BlockTail tail) ∨
      blockString taken text = ⟨⟨.garbage, text.reverse ++ taken⟩, []⟩ := by
  fun_induction blockString taken text with
  | case1 taken rest ih =>
    rcases ih with ⟨tail, rest, rfl, htail⟩ | h
    · exact .inl ⟨_, rest, rfl, htail.escaped⟩
    · exact .inr (by simpa using h)
  | case2 taken rest => exact .inl ⟨tripleQuote, rest, rfl, .close⟩
  | case3 taken c rest hescaped hclose ih =>
    rcases ih with ⟨tail, rest, rfl, htail⟩ | h
    · refine .inl ⟨c :: tail, rest, rfl, .other ?_ ?_ htail⟩
      · rintro ⟨more, hmore⟩
        cases hmore
        exact hclose (more ++ rest) rfl rfl
      · rintro ⟨more, hmore⟩
        cases hmore
        exact hescaped (more ++ rest) rfl rfl
    · exact .inr (by simpa using h)
  | case4 taken => exact .inr rfl

end Piece

theorem BlockTail.eq_of_common (h : BlockTail tail) (hother : BlockTail other)
    (htext : tail <+: text) (hothertext : other <+: text) : tail = other := by
  obtain ⟨rest, rfl⟩ := htext
  obtain ⟨rest', heq⟩ := hothertext
  have hcut := Piece.blockString_append h [] rest
  rw [← heq, Piece.blockString_append hother] at hcut
  simpa using (congrArg (·.piece.taken) hcut).symm

/-! ## The first piece -/

theorem not_quote_of_front (hquote : ¬ tripleQuote <+: text) (hword : word <+: text) :
    ¬ tripleQuote <+: word :=
  fun h => hquote (h.trans hword)

/-- There is one first piece. -/
theorem FirstPiece.unique {kind' : TokenKind} (h : FirstPiece text kind word)
    (h' : FirstPiece text kind' other) : kind = kind' ∧ word = other := by
  cases h with
  | block hfront htail =>
    have hquote := (List.prefix_append _ _).trans hfront
    cases h' with
    | block hfront' htail' =>
      obtain ⟨rest, rfl⟩ := hfront
      rw [List.append_assoc, List.prefix_append_right_inj] at hfront'
      exact ⟨rfl, by rw [htail.eq_of_common htail' (List.prefix_append _ _) hfront']⟩
    | unclosed _ hopen => exact (hopen _ hfront htail).elim
    | token hquote' => exact (hquote' hquote).elim
    | stray hquote' => exact (hquote' hquote).elim
  | unclosed hquote hopen =>
    cases h' with
    | block hfront htail => exact (hopen _ hfront htail).elim
    | unclosed => exact ⟨rfl, rfl⟩
    | token hquote' => exact (hquote' hquote).elim
    | stray hquote' => exact (hquote' hquote).elim
  | token hquote hword hkind =>
    cases h' with
    | block hfront => exact (hquote ((List.prefix_append _ _).trans hfront)).elim
    | unclosed hquote' => exact (hquote hquote').elim
    | token _ hother hkind' =>
      obtain rfl := hword.eq hother
      exact ⟨kind_unique (not_quote_of_front hquote hword.isPrefix) hkind hkind', rfl⟩
    | stray _ hnone => exact (hnone _ _ hword.isPrefix hkind).elim
  | stray hquote hnone hword =>
    cases h' with
    | block hfront => exact (hquote ((List.prefix_append _ _).trans hfront)).elim
    | unclosed hquote' => exact (hquote hquote').elim
    | token _ hother hkind => exact (hnone _ _ hother.isPrefix hkind).elim
    | stray _ _ hother => exact ⟨rfl, by rw [hword.eq hother]⟩

/-- The pieces of a text are the only ones. -/
theorem Cuts.unique {pieces others : List (TokenKind × List Char)} (h : Cuts text pieces)
    (h' : Cuts text others) : others = pieces := by
  induction h generalizing others with
  | nil =>
    generalize htext : ([] : List Char) = text at h'
    cases h' with
    | nil => rfl
    | cons hword => exact (hword (List.append_eq_nil_iff.1 htext.symm).1).elim
  | @cons kind word rest pieces hword first _ ih =>
    generalize htext : word ++ rest = text at h'
    cases h' with
    | nil => exact (hword (List.append_eq_nil_iff.1 htext).1).elim
    | @cons kind' other rest' _ _ first' others =>
      rw [← htext] at first'
      obtain ⟨rfl, rfl⟩ := first.unique first'
      obtain rfl := List.append_cancel_left htext
      rw [ih others]

theorem LongestPrefix.congr {p q : List Char → Prop} (h : LongestPrefix p text word)
    (hpq : ∀ word, word <+: text → (p word ↔ q word)) : LongestPrefix q text word where
  isPrefix := h.isPrefix
  holds := (hpq word h.isPrefix).1 h.holds
  longest other hother hq := h.longest other hother ((hpq other hother).2 hq)

namespace Piece

/-- How far the start reads, where no three quotes stand. -/
theorem Reads.firstPiece {kind? : Option TokenKind} (hquote : ¬ tripleQuote <+: c :: rest)
    (h : Reads .start (c :: rest) kind? word) :
    FirstPiece (c :: rest) (kind?.getD .garbage) ((c :: rest).take (max 1 word.length)) := by
  cases h with
  | token hword hkind =>
    have htake : (c :: rest).take (max 1 word.length) = word := by
      rw [Nat.max_eq_right (List.length_pos_iff.2 hword.holds.1)]
      exact (List.prefix_iff_eq_take.1 hword.isPrefix).symm
    rw [htake]
    refine .token hquote (hword.congr ?_) hkind.2
    intro word hfront
    constructor
    · rintro ⟨-, kind, hawaits⟩
      exact ⟨kind, hawaits.2⟩
    · rintro ⟨kind, hkind⟩
      refine ⟨?_, kind, kind_ne_of_not_quote (not_quote_of_front hquote hfront) hkind, hkind⟩
      rintro rfl
      exact nil_notMem_vocabulary kind hkind
  | stuck hnone hword =>
    refine .stray hquote ?_ (hword.congr ?_)
    · intro kind word hfront hkind
      refine hnone kind word hfront ?_
        ⟨kind_ne_of_not_quote (not_quote_of_front hquote hfront) hkind, hkind⟩
      rintro rfl
      exact nil_notMem_vocabulary kind hkind
    · intro word hfront
      exact (isStem_iff (not_quote_of_front hquote hfront)).symm

/-- Behind three quotes a block string is cut off, or all of the text. -/
theorem next_firstPiece_of_quote (body : List Char) :
    ∃ word, (next '"' ('"' :: '"' :: body)).piece.taken = word.reverse ∧
      tripleQuote ++ body = word ++ (next '"' ('"' :: '"' :: body)).rest ∧
      FirstPiece (tripleQuote ++ body) (next '"' ('"' :: '"' :: body)).piece.kind word := by
  have hnext : next '"' ('"' :: '"' :: body) = blockString tripleQuote.reverse body := rfl
  rw [hnext]
  rcases blockString_spec tripleQuote.reverse body with ⟨tail, rest, rfl, htail⟩ | hopen
  · rw [blockString_append htail]
    refine ⟨tripleQuote ++ tail, by simp, by simp, .block ?_ htail⟩
    exact ⟨rest, by simp⟩
  · rw [hopen]
    refine ⟨tripleQuote ++ body, by simp, by simp, ?_⟩
    refine .unclosed (List.prefix_append tripleQuote body) ?_
    intro tail hfront htail
    obtain ⟨rest, rfl⟩ : tail <+: body := (List.prefix_append_right_inj _).1 hfront
    rw [blockString_append htail] at hopen
    cases congrArg (·.piece.kind) hopen

/-- Elsewhere the automaton reads from the start, if it reads the first character at all. -/
theorem next_of_not_quote (hquote : ¬ tripleQuote <+: c :: rest) :
    next c rest =
      if (Scan.start.step c).isSome then munch none .start [] (c :: rest)
      else ⟨⟨.garbage, [c]⟩, rest⟩ := by
  rw [next]
  · cases hstep : Scan.start.step c with
    | none => simp
    | some state => simp [hstep, munch]
  · rintro body rfl rfl
    exact hquote (List.prefix_append tripleQuote body)

/-- The first character is read, so the word is not empty. -/
theorem Reads.length_pos {state next : Scan} {kind? : Option TokenKind}
    (hstep : state.step c = some next) (h : Reads state (c :: rest) kind? word) :
    0 < word.length := by
  cases h with
  | token hword => exact List.length_pos_iff.2 hword.holds.1
  | stuck _ hword =>
    have hfront : [c] <+: c :: rest := List.cons_prefix_cons.2 ⟨rfl, List.nil_prefix⟩
    exact hword.longest [c] hfront (by simp [hstep])

/-- The lexer cuts off the first piece. -/
theorem next_firstPiece (c : Char) (rest : List Char) :
    ∃ word, (next c rest).piece.taken = word.reverse ∧ c :: rest = word ++ (next c rest).rest ∧
      FirstPiece (c :: rest) (next c rest).piece.kind word := by
  by_cases hquote : tripleQuote <+: c :: rest
  · obtain ⟨body, hbody⟩ := hquote
    obtain ⟨rfl, rfl⟩ : c = '"' ∧ rest = '"' :: '"' :: body := by
      simpa [tripleQuote, eq_comm] using hbody
    exact next_firstPiece_of_quote body
  · rw [next_of_not_quote hquote]
    cases hstep : Scan.start.step c with
    | none => exact ⟨[c], rfl, rfl, (Reads.of_step_none hstep).firstPiece hquote⟩
    | some state =>
      obtain ⟨kind?, word, rest', heq, hreads, hmunch⟩ := munch_spec none .start [] (c :: rest)
      have hpiece := hreads.firstPiece hquote
      rw [Nat.max_eq_right (hreads.length_pos hstep), heq, List.take_left] at hpiece
      rw [Option.isSome_some, if_pos rfl, hmunch, heq]
      cases kind? with
      | none => exact ⟨word, by simp, by simp, hpiece⟩
      | some kind => exact ⟨word, by simp, by simp, hpiece⟩

end Piece

end GuardedQuery

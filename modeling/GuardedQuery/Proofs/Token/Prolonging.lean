import GuardedQuery.Proofs.Token.Tiling
import Mathlib.Data.List.TakeWhile

/-! # A piece and the text behind it

A piece of a text stays as it is when more text is put behind the text, unless it is the last
one, which takes in what prolongs it.

- `FirstPiece.append`: a piece that is cut off before the end of the text stays.
- `firstPiece_of_read`: a piece at the end of the text with what prolongs it.
- `Cuts.join_last`: what the last piece takes in of the pieces of the text behind it.
-/

namespace GuardedQuery

open Language Computability

variable {kind : TokenKind} {word text rest more : List Char} {c : Char}
  {pieces : List (TokenKind × List Char)}

/-! ## Pieces before the end -/

theorem isStem_of_prefix_tripleQuote (h : text <+: tripleQuote) : IsStem text := by
  obtain ⟨more, hmore⟩ := h
  refine ⟨.blockStringLit, more ++ tripleQuote, tripleQuote, ?_, .close⟩
  rw [← List.append_assoc, hmore]

/-- A text with which no word starts holds its first piece, whatever follows. -/
theorem FirstPiece.append (h : FirstPiece text kind word) (hkind : kind ≠ .garbage)
    (hstem : kind = .blockStringLit ∨ ¬ IsStem text) (more : List Char) :
    FirstPiece (text ++ more) kind word := by
  cases h with
  | block hfront htail => exact .block (hfront.trans (List.prefix_append _ _)) htail
  | unclosed => exact (hkind rfl).elim
  | stray => exact (hkind rfl).elim
  | token hquote hword hvocabulary =>
    have hstem : ¬ IsStem text := hstem.resolve_left
      (kind_ne_of_not_quote (not_quote_of_front hquote hword.isPrefix) hvocabulary)
    have hwithin {other : List Char} (hother : other <+: text ++ more)
        (hstems : text <+: other → IsStem text) : other <+: text :=
      (List.prefix_or_prefix_of_prefix hother (List.prefix_append _ _)).resolve_right
        fun hbeyond => hstem (hstems hbeyond)
    refine .token ?_ ⟨hword.isPrefix.trans (List.prefix_append _ _), hword.holds, ?_⟩ hvocabulary
    · exact fun hfront => hquote (hwithin hfront isStem_of_prefix_tripleQuote)
    · rintro other hother ⟨kind, hkind⟩
      refine hword.longest other (hwithin hother ?_) ⟨kind, hkind⟩
      rintro ⟨behind, rfl⟩
      exact ⟨kind, behind, hkind⟩

namespace Scan

def Settled : Scan → Prop
  | complete _ | blank | carriageReturn | comment => True
  | _ => False

def Plain : Scan → Prop
  | start | string | escape | codePoint _ | comment => False
  | _ => True

theorem Settled.accepts_isSome {state next : Scan} (h : state.Settled)
    (hstep : state.step c = some next) : next.accepts.isSome := by
  cases state with
  | complete kind => cases hstep
  | blank =>
    simp only [step, Option.ite_none_right_eq_some] at hstep
    obtain ⟨-, ⟨⟩⟩ := hstep
    rfl
  | carriageReturn =>
    simp only [step, Option.ite_none_right_eq_some] at hstep
    obtain ⟨-, ⟨⟩⟩ := hstep
    rfl
  | comment =>
    simp only [step, Option.ite_none_left_eq_some] at hstep
    obtain ⟨-, ⟨⟩⟩ := hstep
    rfl
  | _ => exact h.elim

theorem Plain.step {state next : Scan} (h : state.Plain) (hstep : state.step c = some next) :
    next.Plain ∧ c ≠ '\x7d' := by
  constructor
  · have hinteger (hafter : afterInteger c = some next) : next.Plain := by
      simp only [afterInteger] at hafter
      grind [Plain]
    cases state <;> simp only [Scan.step] at hstep <;> grind [Plain]
  · rintro rfl
    cases state with
    | start | string | escape | codePoint _ | comment => exact h
    | _ => cases hstep

theorem Plain.read_eq_none {state : Scan} (h : state.Plain) (hbrace : '\x7d' ∈ text) :
    state.read text = none := by
  induction text generalizing state with
  | nil => cases hbrace
  | cons c text ih =>
    rw [read_cons]
    cases hstep : state.step c with
    | none => rfl
    | some next =>
      obtain ⟨hnext, hc⟩ := h.step hstep
      exact ih hnext ((List.mem_cons.mp hbrace).resolve_left fun h => hc h.symm)

/-- A state that accepts is settled, or what was read is a name or a number. -/
theorem settled_or_plain {state : Scan} (h : state.accepts = some kind) :
    state.Settled ∨ state.Plain ∧ (kind = .name ∨ kind = .intLit ∨ kind = .floatLit) := by
  cases state <;> simp_all [Settled, Plain, accepts]

end Scan

/-- What the automaton has read of a word, block strings apart. -/
theorem exists_read_of_mem_vocabulary (hquote : ¬ tripleQuote <+: word)
    (h : word ∈ vocabulary kind) :
    ∃ last, Scan.start.read word = some last ∧ last.accepts = some kind :=
  Scan.awaits_iff.mp ⟨kind_ne_of_not_quote hquote h, h⟩

/-- A name or a number is cut off at a brace behind it, any other word by itself. -/
theorem not_isStem (hquote : ¬ tripleQuote <+: word ++ rest)
    (hword : LongestPrefix (fun word => ∃ kind, word ∈ vocabulary kind) (word ++ rest) word)
    (hkind : word ∈ vocabulary kind) (hrest : rest ≠ [])
    (hbrace : kind = .name ∨ kind = .intLit ∨ kind = .floatLit → '\x7d' ∈ rest) :
    ¬ IsStem (word ++ rest) := by
  obtain ⟨last, hread, haccepts⟩ :=
    exists_read_of_mem_vocabulary (not_quote_of_front hquote hword.isPrefix) hkind
  rw [isStem_iff hquote, Scan.read_append, hread, Option.bind_some]
  rcases Scan.settled_or_plain haccepts with hsettled | ⟨hplain, hnumber⟩
  · obtain ⟨c, rest, rfl⟩ := List.exists_cons_of_ne_nil hrest
    rw [Scan.read_cons]
    cases hstep : last.step c with
    | none => simp
    | some next =>
      obtain ⟨other, hother⟩ := Option.isSome_iff_exists.mp (hsettled.accepts_isSome hstep)
      have hlonger : Scan.start.Awaits other (word ++ [c]) :=
        Scan.awaits_iff.mpr ⟨next, by simp [Scan.read_append, hread, hstep], hother⟩
      have hlength := hword.longest (word ++ [c]) ⟨rest, by simp⟩ ⟨other, hlonger.2⟩
      rw [List.length_append, List.length_singleton] at hlength
      exact (Nat.not_succ_le_self _ hlength).elim
  · rw [hplain.read_eq_none (hbrace hnumber)]
    simp

/-! ## Pieces at the end -/

/-- A text that is a word, cut off where the automaton reads no further. -/
theorem firstPiece_of_read {last : Scan} (hquote : ¬ tripleQuote <+: word ++ rest)
    (hread : Scan.start.read word = some last) (haccepts : last.accepts = some kind)
    (hstuck : ∀ c ∈ rest.head?, last.step c = none) : FirstPiece (word ++ rest) kind word := by
  have hkind : Scan.start.Awaits kind word := Scan.awaits_iff.mpr ⟨last, hread, haccepts⟩
  refine .token hquote ⟨List.prefix_append _ _, ⟨kind, hkind.2⟩, ?_⟩ hkind.2
  rintro other hother ⟨kind', hkind'⟩
  by_contra hlength
  -- A longer word would be read beyond the cut.
  obtain ⟨behind, rfl⟩ : word <+: other :=
    (List.prefix_or_prefix_of_prefix hother (List.prefix_append _ _)).resolve_left
      fun h => hlength h.length_le
  obtain ⟨final, hfinal, -⟩ :=
    exists_read_of_mem_vocabulary (not_quote_of_front hquote hother) hkind'
  rw [Scan.read_append, hread, Option.bind_some] at hfinal
  cases behind with
  | nil => simp at hlength
  | cons c behind =>
    rw [List.prefix_append_right_inj] at hother
    obtain ⟨rest, rfl⟩ := hother
    rw [Scan.read_cons, hstuck c rfl] at hfinal
    cases hfinal

/-- The first of the pieces of a text, if it is known. -/
theorem Cuts.of_firstPiece (h : Cuts (word ++ rest) pieces)
    (hfirst : FirstPiece (word ++ rest) kind word) (hword : word ≠ []) :
    ∃ others, pieces = (kind, word) :: others ∧ Cuts rest others := by
  generalize htext : word ++ rest = text at h hfirst
  cases h with
  | nil => exact (hword (List.append_eq_nil_iff.mp htext).1).elim
  | cons _ hother hrest =>
    obtain ⟨rfl, rfl⟩ := hfirst.unique hother
    obtain rfl := List.append_cancel_left htext
    exact ⟨_, rfl, hrest⟩

theorem FirstPiece.mem_vocabulary (h : FirstPiece text kind word) (hkind : kind ≠ .garbage) :
    word ∈ vocabulary kind := by
  cases h with
  | block _ htail => exact ⟨_, rfl, htail⟩
  | token _ _ hvocabulary => exact hvocabulary
  | unclosed => exact (hkind rfl).elim
  | stray => exact (hkind rfl).elim

theorem forall_of_mem_kstar_oneOf {test : Char → Bool} (h : word ∈ (oneOf test)∗) :
    ∀ c ∈ word, test c := by
  induction word with
  | nil => simp
  | cons c word ih =>
    rw [cons_mem_kstar_oneOf] at h
    exact List.forall_mem_cons.mpr ⟨h.1, ih h.2⟩

theorem isLineEnd_eq_false_of_isLineBlank (h : isLineBlank c) : isLineEnd c = false := by
  simp only [isLineBlank, Bool.or_eq_true, beq_iff_eq] at h
  rcases h with (rfl | rfl) | rfl <;> rfl

/-- Trivia other than line ends stays within its line. -/
theorem not_isLineEnd_of_mem_vocabulary (htrivia : kind.isTrivia) (hkind : kind ≠ .newline)
    (h : word ∈ vocabulary kind) : ∀ c ∈ word, !isLineEnd c := by
  cases word with
  | nil => simp
  | cons c word =>
    cases kind with
    | newline => exact (hkind rfl).elim
    | comma =>
      obtain ⟨rfl, rfl⟩ := cons_mem_char.mp h
      exact List.forall_mem_singleton.mpr rfl
    | comment =>
      obtain ⟨rfl, hword⟩ := cons_mem_char_mul.mp h
      exact List.forall_mem_cons.mpr ⟨rfl, forall_of_mem_kstar_oneOf hword⟩
    | whitespace =>
      obtain ⟨hc, hword⟩ := cons_mem_oneOf_mul.mp h
      have hblank : ∀ d ∈ c :: word, isLineBlank d = true :=
        List.forall_mem_cons.mpr ⟨hc, forall_of_mem_kstar_oneOf hword⟩
      intro d hd
      simp [isLineEnd_eq_false_of_isLineBlank (hblank d hd)]
    | _ => cases htrivia

/-- What a line end starts with. -/
theorem exists_isLineEnd_of_mem_newline (h : word ∈ vocabulary .newline) :
    ∃ c rest, word = c :: rest ∧ isLineEnd c := by
  cases word with
  | nil => exact (nil_notMem_vocabulary _ h).elim
  | cons c word =>
    refine ⟨c, word, rfl, ?_⟩
    simp only [vocabulary, mem_add, cons_mem_char, cons_mem_char_mul] at h
    rcases h with (⟨rfl, -⟩ | ⟨rfl, -⟩) | ⟨rfl, -⟩ <;> rfl

/-- No trivia and no closing brace starts with a quote. -/
theorem not_tripleQuote_prefix_append (hkind : kind.isTrivia ∨ kind = .braceClose)
    (h : word ∈ vocabulary kind) (rest : List Char) : ¬ tripleQuote <+: word ++ rest := by
  cases word with
  | nil => exact (nil_notMem_vocabulary _ h).elim
  | cons c word =>
    rintro ⟨more, hmore⟩
    obtain rfl : c = '"' := (List.cons.inj hmore).1.symm
    rcases hkind with htrivia | rfl
    · cases kind with
      | whitespace => exact absurd (cons_mem_oneOf_mul.mp h).1 (by decide)
      | newline => exact absurd (exists_isLineEnd_of_mem_newline h) (by simp [isLineEnd])
      | comma => exact absurd (cons_mem_char.mp h).1 (by decide)
      | comment => exact absurd (cons_mem_char_mul.mp h).1 (by decide)
      | _ => cases htrivia
    · exact absurd (cons_mem_char.mp h).1 (by decide)

/-! ## What prolongs the last piece -/

/-- Reading characters that leave the state as it is. -/
theorem Scan.read_eq_self {state : Scan} (h : ∀ c ∈ text, state.step c = some state) :
    state.read text = some state := by
  induction text with
  | nil => rfl
  | cons c text ih =>
    rw [List.forall_mem_cons] at h
    rw [read_cons, h.1]
    exact ih h.2

/-- The pieces that are left of a text that starts with blanks. -/
theorem Cuts.dropBlanks {blanks : List Char} (h : Cuts (blanks ++ rest) pieces)
    (hblanks : ∀ c ∈ blanks, isLineBlank c) (hrest : ∀ c ∈ rest.head?, isLineBlank c = false) :
    ∃ skipped others, Cuts rest others ∧ pieces = skipped ++ others ∧
      ∀ piece ∈ skipped, piece.1.isTrivia := by
  cases blanks with
  | nil => exact ⟨[], pieces, h, rfl, by simp⟩
  | cons c blanks =>
    rw [List.forall_mem_cons] at hblanks
    have hread : Scan.start.read (c :: blanks) = some .blank := by
      rw [Scan.read_cons, Scan.step, Scan.first_of_isLineBlank hblanks.1]
      exact Scan.read_eq_self fun d hd => if_pos (hblanks.2 d hd)
    have hquote : ¬ tripleQuote <+: c :: blanks ++ rest := by
      rintro ⟨more, hmore⟩
      rw [← (List.cons.inj hmore).1] at hblanks
      exact absurd hblanks.1 (by decide)
    obtain ⟨others, rfl, hothers⟩ := h.of_firstPiece
      (firstPiece_of_read hquote hread rfl fun d hd => by simp [Scan.step, hrest d hd]) (by simp)
    exact ⟨[_], others, hothers, rfl, by simp [TokenKind.isTrivia]⟩

/-- A line end among the trivia in front: the pieces from the first line end on. -/
theorem Cuts.dropLine (h : Cuts text pieces)
    (hline : ∃ piece ∈ pieces.takeWhile (·.1.isTrivia), piece.1 = .newline) :
    ∃ skipped others, Cuts (text.dropWhile (!isLineEnd ·)) others ∧ pieces = skipped ++ others ∧
      ∀ piece ∈ skipped, piece.1.isTrivia := by
  induction h with
  | nil => simp at hline
  | @cons kind word rest pieces hword hfirst hrest ih =>
    have htrivia : kind.isTrivia := by
      by_contra hkind
      simp [hkind] at hline
    have hvocabulary := hfirst.mem_vocabulary (by rintro rfl; cases htrivia)
    by_cases hkind : kind = .newline
    · subst hkind
      obtain ⟨c, behind, rfl, hc⟩ := exists_isLineEnd_of_mem_newline hvocabulary
      have hdrop : (c :: behind ++ rest).dropWhile (!isLineEnd ·) = c :: behind ++ rest := by
        simp [hc]
      rw [hdrop]
      exact ⟨[], _, .cons hword hfirst hrest, rfl, by simp⟩
    · have hlater : ∃ piece ∈ pieces.takeWhile (·.1.isTrivia), piece.1 = .newline := by
        simpa [htrivia, hkind] using hline
      obtain ⟨skipped, others, hothers, rfl, hskipped⟩ := ih hlater
      rw [List.dropWhile_append_of_pos
        (not_isLineEnd_of_mem_vocabulary htrivia hkind hvocabulary)]
      exact ⟨(kind, word) :: skipped, others, hothers, rfl,
        List.forall_mem_cons.mpr ⟨htrivia, hskipped⟩⟩

theorem head?_dropWhile_eq_false (p : Char → Bool) (text : List Char) :
    ∀ c ∈ (text.dropWhile p).head?, p c = false := by
  intro c hc
  have h := List.head?_dropWhile_not p text
  rwa [hc] at h

/-- What a state takes in of the text behind it, up to where it reads no further.  The pieces
that this text had by itself are trivia. -/
def Scan.TakesIn (state : Scan) (kind : TokenKind) (text : List Char)
    (pieces : List (TokenKind × List Char)) (front : List Char) : Prop :=
  ∃ back final skipped others, text = front ++ back ∧
    state.read front = some final ∧ final.accepts = some kind ∧
    (∀ c ∈ back.head?, final.step c = none) ∧
    Cuts back others ∧ pieces = skipped ++ others ∧ ∀ piece ∈ skipped, piece.1.isTrivia

namespace Scan

theorem takesIn_nil {state : Scan} (haccepts : state.accepts = some kind)
    (hstuck : ∀ c ∈ text.head?, state.step c = none) (h : Cuts text pieces) :
    state.TakesIn kind text pieces [] :=
  ⟨text, state, [], pieces, rfl, rfl, haccepts, hstuck, h, rfl, by simp⟩

theorem blank_takesIn (h : Cuts text pieces) :
    blank.TakesIn .whitespace text pieces (text.takeWhile isLineBlank) := by
  have hstop := head?_dropWhile_eq_false isLineBlank text
  have hblanks : ∀ c ∈ text.takeWhile isLineBlank, isLineBlank c :=
    fun _ => List.mem_takeWhile_imp
  rw [← List.takeWhile_append_dropWhile (p := isLineBlank) (l := text)] at h
  obtain ⟨skipped, others, hothers, hpieces, hskipped⟩ := h.dropBlanks hblanks hstop
  refine ⟨_, .blank, skipped, others, List.takeWhile_append_dropWhile.symm,
    read_eq_self fun c hc => if_pos (hblanks c hc), rfl, ?_, hothers, hpieces, hskipped⟩
  intro c hc
  simp [step, hstop c hc]

theorem carriageReturn_takesIn (h : Cuts text pieces) :
    ∃ front, carriageReturn.TakesIn .newline text pieces front := by
  by_cases hend : text.head? = some '\n'
  · obtain ⟨rest, rfl⟩ := List.head?_eq_some_iff.mp hend
    have hfirst : FirstPiece (['\n'] ++ rest) .newline ['\n'] := by
      refine firstPiece_of_read ?_ rfl rfl fun _ _ => rfl
      rintro ⟨more, hmore⟩
      cases hmore
    obtain ⟨others, rfl, hothers⟩ := h.of_firstPiece hfirst (by simp)
    exact ⟨['\n'], rest, .complete .newline, [_], others, rfl, rfl, rfl, fun _ _ => rfl, hothers,
      rfl, by simp [TokenKind.isTrivia]⟩
  · refine ⟨[], takesIn_nil rfl ?_ h⟩
    rintro c hc
    refine if_neg ?_
    rintro rfl
    exact hend hc

theorem comment_takesIn (h : Cuts text pieces)
    (hline : ∃ piece ∈ pieces.takeWhile (·.1.isTrivia), piece.1 = .newline) :
    comment.TakesIn .comment text pieces (text.takeWhile (!isLineEnd ·)) := by
  obtain ⟨skipped, others, hothers, hpieces, hskipped⟩ := h.dropLine hline
  refine ⟨_, .comment, skipped, others, List.takeWhile_append_dropWhile.symm, ?_, rfl, ?_,
    hothers, hpieces, hskipped⟩
  · refine read_eq_self fun c hc => if_neg ?_
    have hinside := List.mem_takeWhile_imp hc
    simpa using hinside
  · intro c hc
    have hstop := head?_dropWhile_eq_false (!isLineEnd ·) text c hc
    exact if_pos (by simpa using hstop)

/-- At the end of trivia or of a brace. -/
theorem exists_takesIn {last : Scan} (haccepts : last.accepts = some kind)
    (hkind : kind.isTrivia ∨ kind = .braceClose) (h : Cuts text pieces)
    (hcomment : kind = .comment →
      ∃ piece ∈ pieces.takeWhile (·.1.isTrivia), piece.1 = .newline) :
    ∃ front, last.TakesIn kind text pieces front ∧ (kind = .braceClose → front = []) := by
  cases last with
  | complete kind => exact ⟨[], takesIn_nil haccepts (fun _ _ => rfl) h, fun _ => rfl⟩
  | blank =>
    cases haccepts
    exact ⟨_, blank_takesIn h, by simp⟩
  | carriageReturn =>
    cases haccepts
    obtain ⟨front, hfront⟩ := carriageReturn_takesIn h
    exact ⟨front, hfront, by simp⟩
  | comment =>
    cases haccepts
    exact ⟨_, comment_takesIn h (hcomment rfl), by simp⟩
  | name | zero | digits | fraction | exponentDigits =>
    cases haccepts
    rcases hkind with hkind | hkind <;> cases hkind
  | _ => cases haccepts

end Scan

/-- The last piece of a text takes in what prolongs it; what that was is trivia. -/
theorem Cuts.join_last (h : FirstPiece word kind word) (hword : word ≠ []) (hrest : Cuts rest pieces)
    (hkind : kind.isTrivia ∨ kind = .braceClose)
    (hcomment : kind = .comment →
      ∃ piece ∈ pieces.takeWhile (·.1.isTrivia), piece.1 = .newline) :
    ∃ more skipped others, Cuts (word ++ rest) ((kind, word ++ more) :: others) ∧
      (kind = .braceClose → more = []) ∧ pieces = skipped ++ others ∧
      ∀ piece ∈ skipped, piece.1.isTrivia := by
  have hvocabulary := h.mem_vocabulary (by rintro rfl; rcases hkind with hkind | hkind <;> cases hkind)
  have hquote := not_tripleQuote_prefix_append hkind hvocabulary
  obtain ⟨last, hread, haccepts⟩ :=
    exists_read_of_mem_vocabulary (by simpa using hquote []) hvocabulary
  obtain ⟨front, hintake, hbrace⟩ := Scan.exists_takesIn haccepts hkind hrest hcomment
  obtain ⟨back, final, skipped, others, rfl, hfront, hfinal, hstuck, hothers, hpieces, hskipped⟩ :=
    hintake
  refine ⟨front, skipped, others, ?_, hbrace, hpieces, hskipped⟩
  have hlonger : Scan.start.read (word ++ front) = some final := by
    rw [Scan.read_append, hread, Option.bind_some, hfront]
  rw [← List.append_assoc]
  refine .cons (by simp [hword]) (firstPiece_of_read ?_ hlonger hfinal hstuck) hothers
  rw [List.append_assoc]
  exact hquote _

end GuardedQuery

import GuardedQuery.Proofs.Token.Prolonging
import GuardedQuery.Text.Bytes

/-! # Strings of any length

The automaton goes through characters that stand for themselves without leaving its state, so
what becomes of a string does not depend on how long it is.

- `isPlain`: the characters that stand for themselves.
- `cuts_openString`: a string without an end is garbage.
- `firstPiece_string`: a string with an end is one token.
- `longWord`: what a string may hold, of any length.
-/

namespace GuardedQuery

open Text (byteLength)

def isPlain (c : Char) : Bool :=
  c != '"' && c != '\\' && !isLineEnd c

variable {c : Char} {body : List Char}

theorem Scan.step_string (h : isPlain c) : string.step c = some string := by
  simp only [isPlain, Bool.and_eq_true, bne_iff_ne, Bool.not_eq_true'] at h
  rw [step, if_neg h.1.1, if_neg h.1.2, if_neg (by simp [h.2])]

theorem Scan.read_string (h : ∀ c ∈ body, isPlain c) : string.read body = some string := by
  induction body with
  | nil => rfl
  | cons c body ih =>
    rw [List.forall_mem_cons] at h
    rw [read_cons, step_string h.1, Option.bind_some, ih h.2]

theorem Scan.read_openString (h : ∀ c ∈ body, isPlain c) :
    start.read ('"' :: body) = some string :=
  read_string h

theorem not_tripleQuote_of_plain (h : ∀ c ∈ body.head?, isPlain c) :
    ¬ tripleQuote <+: '"' :: body := by
  rintro ⟨more, hmore⟩
  obtain rfl : '"' :: '"' :: more = body := (List.cons.inj hmore).2
  exact absurd (h '"' rfl) (by decide)

/-- The first characters of a string without an end are no token, and all of them could become
one. -/
theorem cuts_openString (h : ∀ c ∈ body, isPlain c) :
    Cuts ('"' :: body) [(.garbage, '"' :: body)] := by
  have hquote : ¬ tripleQuote <+: '"' :: body :=
    not_tripleQuote_of_plain fun c hc => h c (List.mem_of_mem_head? hc)
  have hfront (word : List Char) (hword : word <+: body) :
      Scan.start.read ('"' :: word) = some .string :=
    Scan.read_openString fun c hc => h c (hword.subset hc)
  have hstray : FirstPiece ('"' :: body) .garbage
      (('"' :: body).take (max 1 ('"' :: body).length)) := by
    refine .stray hquote ?_ ⟨List.prefix_refl _, ?_, fun other hother _ => hother.length_le⟩
    · intro kind word hword hkind
      obtain ⟨last, hread, haccepts⟩ :=
        exists_read_of_mem_vocabulary (not_quote_of_front hquote hword) hkind
      cases word with
      | nil => exact nil_notMem_vocabulary kind hkind
      | cons c word =>
        obtain ⟨rfl, hbody⟩ := List.cons_prefix_cons.1 hword
        rw [hfront word hbody] at hread
        cases hread
        cases haccepts
    · rw [isStem_iff hquote, hfront body (List.prefix_refl _)]
      rfl
  rw [List.take_of_length_le (Nat.le_max_right _ _)] at hstray
  simpa using Cuts.cons (List.cons_ne_nil _ _) (by simpa using hstray) Cuts.nil

/-- A string that is not empty is cut off behind its second quote. -/
theorem firstPiece_string (h : ∀ c ∈ body, isPlain c) (hbody : body ≠ []) (rest : List Char) :
    FirstPiece ('"' :: body ++ ['"'] ++ rest) .stringLit ('"' :: body ++ ['"']) := by
  obtain ⟨c, more, rfl⟩ := List.exists_cons_of_ne_nil hbody
  have hread : Scan.start.read ('"' :: (c :: more) ++ ['"']) = some (.complete .stringLit) := by
    rw [Scan.read_append, Scan.read_openString h]
    rfl
  refine firstPiece_of_read ?_ hread rfl fun _ _ => rfl
  exact not_tripleQuote_of_plain fun d hd => h d (by cases hd; exact List.mem_cons_self)

/-- A token of one character, in front of other pieces. -/
theorem Cuts.cons_char {c : Char} {rest : List Char} {kind : TokenKind} {state : Scan}
    {pieces : List (TokenKind × List Char)} (hquote : c ≠ '"')
    (hread : Scan.start.read [c] = some state) (haccepts : state.accepts = some kind)
    (hstuck : ∀ d ∈ rest.head?, state.step d = none) (h : Cuts rest pieces) :
    Cuts (c :: rest) ((kind, [c]) :: pieces) := by
  refine .cons (List.cons_ne_nil _ _) (firstPiece_of_read ?_ hread haccepts hstuck) h
  rintro ⟨more, hmore⟩
  exact hquote (List.cons.inj hmore).1.symm

/-! ## A long word -/

def longWord (n : Nat) : List Char := List.replicate n 'a' ++ ['é']

theorem byteLength_longWord (n : Nat) : byteLength (longWord n) = n + 2 := by
  rw [longWord, Text.byteLength_append, Text.byteLength_replicate n rfl]
  rfl

theorem isPlain_of_mem_longWord {n : Nat} : ∀ c ∈ longWord n, isPlain c := by
  intro c hc
  rcases List.mem_append.1 hc with hc | hc
  · rw [List.eq_of_mem_replicate hc]
    rfl
  · rw [List.mem_singleton.1 hc]
    rfl

end GuardedQuery

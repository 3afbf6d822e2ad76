import GuardedQuery.Proofs.Parse.Ceilings
import GuardedQuery.Proofs.Parse.Composition
import GuardedQuery.Proofs.Parse.Lossless
import GuardedQuery.Proofs.Parse.Trivia
import GuardedQuery.Proofs.Token.Spacing
import GuardedQuery.Proofs.Token.Spans

/-! # Documents with one space between their tokens

- `Document.parse_of_guarded`: a parse that nothing stops.
- `Document.guarded_of_significant_eq`: what stops a parse, when texts have the same tokens.
- `Document.parse_respaced`: the tokens, the parse and the dump of the rewritten text.
-/

namespace GuardedQuery

open Text (byteLength)

namespace Document

variable {limits : Limits} {source other : Source} {document : Document}

/-- A parse that no ceiling stops is the parse without limits. -/
theorem parse_of_guarded
    (hchars : ∀ ceiling, limits.charCeiling? = some ceiling → source.text.length ≤ ceiling.toNat)
    (hguarded : (guarded limits source).2 = none) :
    parse limits source = parse .trusted source := by
  rw [parse_trusted, parse_eq, parseRecorded_eq, filter_charCeiling?_eq_none hchars]
  revert hguarded
  rcases guarded limits source with ⟨progress, _ | fault⟩
  · exact fun _ => rfl
  · exact fun hfault => nomatch hfault

/-- What the guards of a parse let pass passes with the same tokens elsewhere, too. -/
theorem guarded_of_significant_eq
    (hsame : (significant (lex source.text)).map Token.lexeme =
      (significant (lex other.text)).map Token.lexeme)
    (hguarded : (guarded limits source).2 = none) : (guarded limits other).2 = none := by
  obtain ⟨-, hveto⟩ := guarded_alike limits (traceGoals_alike hsame _ _ documentGoals)
  rw [hguarded] at hveto
  generalize (guarded limits other).2 = veto at hveto ⊢
  cases hveto
  rfl

theorem guarded_of_parse (h : parse limits source = .ok document) :
    (guarded limits source).2 = none := by
  rw [parse_eq] at h
  obtain ⟨_, hguarded, -⟩ := guarded_eq_of_parseRecorded (Prod.ext rfl h)
  rw [hguarded]

/-- The source of a document holds no garbage. -/
theorem clean_of_parse (h : parse limits source = .ok document) :
    ∀ token ∈ lex source.text, token.kind ≠ .garbage := by
  obtain ⟨_, hholds, -⟩ := exists_holdsDocument_of_parse (parse_trusted_of_parse h)
  exact hholds.closed.clean

/-- What parses alike to a document is a document with the same dump. -/
theorem ParsesAlike.exists_ok {result : Except Fault Document}
    (h : ParsesAlike (.ok document) result) :
    ∃ other, result = .ok other ∧ other.dump {} = document.dump {} := by
  cases h with
  | ok halike => exact ⟨_, rfl, halike.dump.symm⟩

theorem lexeme_respaced {text : String} (h : ∀ token ∈ lex text, token.kind ≠ .garbage) :
    (significant (lex (respaced text))).map Token.lexeme =
      (significant (lex text)).map Token.lexeme := by
  rw [Token.map_lexeme_eq, significant_respaced h, ← Token.map_lexeme_eq]

theorem readTokens_eq_map_lexeme {text : String} (hsize : text.utf8ByteSize ≤ Source.maxSize) :
    readTokens text = ((significant (lex text)).map Token.lexeme).map
      fun lexeme => (lexeme.kind, some lexeme.text) := by
  rw [readTokens_eq hsize, List.map_map]
  rfl

/-- As long as both texts fit a source, one space between tokens in the place of all trivia
changes no token, unless there is garbage.  A document rewritten so is a document with the same
dump.  The limits under which it was parsed admit the rewritten text as well, unless that has too
many characters. -/
theorem parse_respaced {text : String} (hsize : text.utf8ByteSize ≤ Source.maxSize)
    (hrespaced : (respaced text).utf8ByteSize ≤ Source.maxSize) :
    ((∀ span ∈ lexSpans text, span.kind ≠ .garbage) →
      ∃ lexemes : List Lexeme,
        readTokens text = lexemes.map (fun lexeme => (lexeme.kind, some lexeme.text)) ∧
        respaced text = " ".intercalate (lexemes.map (·.text)) ∧
        readTokens (respaced text) = readTokens text) ∧
    ∀ (source other : Source) (limits : Limits) (document : Document),
      source.text = text → other.text = respaced text → parse limits source = .ok document →
      ∃ rewritten, parse .trusted other = .ok rewritten ∧
        rewritten.dump {} = document.dump {} ∧
        ((∀ ceiling, limits.charCeiling? = some ceiling → other.text.length ≤ ceiling.toNat) →
          parse limits other = .ok rewritten) := by
  constructor
  · intro hclean
    rw [lexSpans_eq, List.forall_mem_map] at hclean
    refine ⟨_, readTokens_eq_map_lexeme hsize, ?_, ?_⟩
    · rw [List.map_map]
      rfl
    · rw [readTokens_eq_map_lexeme hrespaced, lexeme_respaced hclean,
        ← readTokens_eq_map_lexeme hsize]
  · rintro source other limits document rfl hother hparse
    have hsame : (significant (lex source.text)).map Token.lexeme =
        (significant (lex other.text)).map Token.lexeme := by
      rw [hother, lexeme_respaced (clean_of_parse hparse)]
    have hresult := result_alike hsame
    rw [← parse_trusted, ← parse_trusted, parse_trusted_of_parse hparse] at hresult
    obtain ⟨rewritten, hrewritten, hdump⟩ := hresult.exists_ok
    have hguarded := guarded_of_significant_eq hsame (guarded_of_parse hparse)
    refine ⟨rewritten, hrewritten, hdump, fun hchars => ?_⟩
    rw [parse_of_guarded hchars hguarded, hrewritten]

/-- Numbers and strings that stand side by side, the last one with quotes in it, and a comment. -/
theorem parse_respaced_adjoining :
    let text := "\x7ba(b:[01\"x\"\"\"\"z\\\"\"\"\"\"\"])#c\n\x7d"
    let spread := "\x7b a ( b : [ 0 1 \"x\" \"\"\"z\\\"\"\"\"\"\" ] ) \x7d"
    let source : Source := ⟨[⟨none, text, 0⟩], 28⟩
    let other : Source := ⟨[⟨none, spread, 0⟩], 37⟩
    respaced text = spread ∧
    ∃ document rewritten, parse {} source = .ok document ∧ parse {} other = .ok rewritten ∧
      rewritten.dump {} = document.dump {} := by
  intro text spread source other
  have hspread : respaced text = spread := by decide +kernel
  have hsize : text.utf8ByteSize ≤ Source.maxSize := by decide
  have hrespaced : (respaced text).utf8ByteSize ≤ Source.maxSize := by
    rw [hspread]
    decide
  have hok : (parse {} source).isOk = true := by decide +kernel
  rcases hparse : parse {} source with fault | document
  · rw [hparse] at hok
    cases hok
  · obtain ⟨-, halike⟩ := parse_respaced hsize hrespaced
    obtain ⟨rewritten, -, hdump, hlimited⟩ :=
      halike source other {} document rfl hspread.symm hparse
    refine ⟨hspread, document, rewritten, rfl, hlimited ?_, hdump⟩
    intro ceiling hceiling
    cases hceiling
    decide

/-! ## Texts that are too long -/

/-- A field with one argument, a string of any length, as pieces without trivia. -/
def fieldPieces (n : Nat) : List (TokenKind × List Char) :=
  [(.braceOpen, ['\x7b']), (.name, ['a']), (.parenOpen, ['(']), (.name, ['b']), (.colon, [':']),
    (.stringLit, '"' :: longWord n ++ ['"']), (.parenClose, [')']), (.braceClose, ['\x7d'])]

def fieldText (n : Nat) : String := String.ofList ((fieldPieces n).flatMap Prod.snd)

theorem longWord_ne_nil (n : Nat) : longWord n ≠ [] :=
  List.append_ne_nil_of_right_ne_nil _ (List.cons_ne_nil _ _)

theorem cuts_fieldText (n : Nat) : Cuts (fieldText n).toList (fieldPieces n) := by
  have hstring := firstPiece_string isPlain_of_mem_longWord (longWord_ne_nil n) [')', '\x7d']
  have hclose : Cuts [')', '\x7d'] [(.parenClose, [')']), (.braceClose, ['\x7d'])] :=
    .cons_char (by decide) rfl rfl (by simp [Scan.step]) <|
      .cons_char (by decide) rfl rfl (by simp) .nil
  have hargument := Cuts.cons (List.cons_ne_nil _ _) hstring hclose
  rw [fieldText, String.toList_ofList]
  refine .cons_char (by decide) rfl rfl (by simp; rfl) <|
    .cons_char (by decide) rfl rfl (by simp; rfl) <|
    .cons_char (by decide) rfl rfl (by simp; rfl) <|
    .cons_char (by decide) rfl rfl (by simp; rfl) <|
    .cons_char (by decide) rfl rfl (by simp; rfl) hargument

theorem fieldPieces_significant (n : Nat) :
    ∀ piece ∈ fieldPieces n, piece.1 ≠ .garbage ∧ isSignificant piece := by
  simp [fieldPieces, isSignificant, TokenKind.isTrivia]

theorem lex_fieldText (n : Nat) : (lex (fieldText n)).map Token.entry = fieldPieces n :=
  (cuts_fieldText n).lex_eq fun piece hpiece => (fieldPieces_significant n piece hpiece).1

theorem clean_fieldText (n : Nat) : ∀ token ∈ lex (fieldText n), token.kind ≠ .garbage := by
  intro token htoken
  have hentry := List.mem_map_of_mem (f := Token.entry) htoken
  rw [lex_fieldText] at hentry
  exact (fieldPieces_significant n _ hentry).1

theorem significant_fieldText (n : Nat) :
    (significant (lex (fieldText n))).map Token.entry = fieldPieces n := by
  rw [map_entry_significant, lex_fieldText, List.filter_eq_self]
  exact fun piece hpiece => (fieldPieces_significant n piece hpiece).2

theorem toList_respaced_fieldText (n : Nat) : (respaced (fieldText n)).toList =
    "\x7b a ( b : \"".toList ++ List.replicate n 'a' ++ 'é' :: "\" ) \x7d".toList := by
  rw [toList_respaced, significant_fieldText]
  simp [fieldPieces, longWord]

/-- Ten bytes stand in front of the string. -/
theorem mem_lexSpans_respaced_fieldText (n : Nat) :
    ⟨.stringLit, ⟨10, min (n + 14) Source.maxSize⟩⟩ ∈ lexSpans (respaced (fieldText n)) := by
  let space : TokenKind × List Char := (.whitespace, [' '])
  let front := ((fieldPieces n).take 5).flatMap fun piece => [piece, space]
  have hsplit : (fieldPieces n).intersperse space = front ++
      (.stringLit, '"' :: longWord n ++ ['"']) ::
        [space, (.parenClose, [')']), space, (.braceClose, ['\x7d'])] := rfl
  have hfront : 0 + byteLength (front.flatMap Prod.snd) = 10 := rfl
  have hquote : byteLength ['"'] = 1 := rfl
  have hstring : 10 + byteLength ('"' :: longWord n ++ ['"']) = n + 14 := by
    rw [← List.singleton_append, Text.byteLength_append, Text.byteLength_append,
      byteLength_longWord, hquote]
    omega
  rw [lexSpans_eq, (lex_tiles _).adjoin.map_span, lex_respaced (clean_fieldText n),
    significant_fieldText, hsplit, spansOf_append, spansOf, hfront, hstring]
  exact List.mem_append_right _ List.mem_cons_self

/-- The spaces move the string, so that the last offset lies inside a character of it. -/
theorem respaced_fieldText_torn {n : Nat} (hsize : n + 12 = Source.maxSize) :
    (fieldText n).utf8ByteSize = n + 11 ∧ (respaced (fieldText n)).utf8ByteSize = n + 18 ∧
      (.stringLit, none) ∈ readTokens (respaced (fieldText n)) := by
  have htext : (fieldText n).toList = "\x7ba(b:\"".toList ++ longWord n ++ "\")\x7d".toList := by
    rw [fieldText, String.toList_ofList]
    simp [fieldPieces]
  have hfront : byteLength ("\x7b a ( b : \"".toList ++ List.replicate n 'a') = n + 11 := by
    rw [Text.byteLength_append, Text.byteLength_replicate n rfl, Nat.add_comm]
    rfl
  have hnone : Text.slice? (respaced (fieldText n)) ⟨10, Source.maxSize⟩ = none := by
    refine Text.slice?_eq_none_of_inside (toList_respaced_fieldText n) ?_ ?_
    · rw [hfront, ← hsize]
      exact Nat.lt_succ_self _
    · rw [hfront, ← hsize]
      exact Nat.lt_succ_self _
  have hmem := mem_lexSpans_respaced_fieldText n
  rw [Nat.min_eq_right (by omega)] at hmem
  refine ⟨?_, ?_, List.mem_map.2 ⟨_, List.mem_filter.2 ⟨hmem, rfl⟩, congrArg _ hnone⟩⟩
  · have hopen : byteLength "\x7ba(b:\"".toList = 6 := rfl
    have hclose : byteLength "\")\x7d".toList = 3 := rfl
    rw [← Text.byteLength_toList, htext, Text.byteLength_append, Text.byteLength_append,
      byteLength_longWord, hopen, hclose]
    omega
  · rw [← Text.byteLength_toList, toList_respaced_fieldText, Text.byteLength_append, hfront]
    rfl

/-- The text of a source, but not so with spaces between its tokens. -/
theorem respaced_torn :
    let text := fieldText 4294967283
    text.utf8ByteSize = 4294967294 ∧ (∀ span ∈ lexSpans text, span.kind ≠ .garbage) ∧
      readTokens (respaced text) ≠ readTokens text ∧
      Source.single none (respaced text) = .error (.sourceTooLarge 4294967301) := by
  intro text
  obtain ⟨hsize, hrespaced, hmem⟩ := respaced_fieldText_torn (n := 4294967283) rfl
  have hsum : Source.empty.size + (respaced text).utf8ByteSize = 4294967301 := by
    rw [hrespaced]
    rfl
  have hbound : text.utf8ByteSize ≤ Source.maxSize := by
    rw [hsize]
    decide
  refine ⟨hsize, ?_, fun heq => ?_, ?_⟩
  · rw [lexSpans_eq, List.forall_mem_map]
    exact clean_fieldText 4294967283
  · rw [heq, readTokens_eq hbound, List.mem_map] at hmem
    obtain ⟨token, -, htoken⟩ := hmem
    cases (Prod.mk.inj htoken).2
  · simp only [Source.single, Source.add, hsum]
    rfl

end Document

end GuardedQuery

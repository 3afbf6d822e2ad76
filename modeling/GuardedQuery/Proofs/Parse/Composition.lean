import GuardedQuery.Proofs.Grammar.Documents
import GuardedQuery.Proofs.Parse.Exactness
import GuardedQuery.Proofs.Relocation.Basic
import GuardedQuery.Proofs.Source.Segments
import GuardedQuery.Proofs.Token.Joining
import Mathlib.Algebra.GroupWithZero.Nat

/-! # Documents of several texts

Segments are read as one text.  If every text is a document, so is the whole, and it has
their definitions in order, unless a comment at the end of one text reaches into the next.

- `Document.outline`: the definitions of a document with their significant tokens.
- `HoldsDocument.join`: texts one behind the other.
- `Document.parse_ofPieces`: the document of several texts.
-/

namespace GuardedQuery

open Grammar GuardedQuery.Tree

/-! ## Outlines -/

def Tree.outline? : Tree → Option (NodeKind × List Lexeme)
  | leaf _ => none
  | node kind children => some (kind, (significant (allLeaves children)).map Token.lexeme)

def Document.outline (document : Document) : List (NodeKind × List Lexeme) :=
  document.children.filterMap Tree.outline?

namespace Tree

theorem filterMap_outline?_withoutTrivia (tree : Tree) :
    tree.withoutTrivia.filterMap outline? = tree.outline?.toList := by
  cases tree with
  | leaf token =>
    rw [withoutTrivia]
    split <;> rfl
  | node kind children =>
    have hsignificant := significant_eq_self fun token (h : token ∈ significant (allLeaves children)) =>
      isTrivia_of_mem_significant h
    simp [withoutTrivia, outline?, allLeaves_allWithoutTrivia, hsignificant]

/-- Trivia between definitions and in them does not show. -/
theorem filterMap_outline?_allWithoutTrivia (trees : List Tree) :
    (allWithoutTrivia trees).filterMap outline? = trees.filterMap outline? := by
  induction trees with
  | nil => rfl
  | cons tree trees ih =>
    rw [allWithoutTrivia, List.filterMap_append, filterMap_outline?_withoutTrivia, ih,
      List.filterMap_cons]
    cases tree.outline? <;> rfl

theorem outline?_relocate (r : Relocation) (tree : Tree) :
    (tree.relocate r).outline? = tree.outline? := by
  cases tree with
  | leaf token => rfl
  | node kind children =>
    have hsignificant : significant ((allLeaves children).map (Token.relocate r)) =
        (significant (allLeaves children)).map (Token.relocate r) := List.filter_map
    rw [relocate, outline?, outline?, allLeaves_relocateAll, hsignificant, List.map_map]
    rfl

theorem filterMap_outline?_relocateAll (r : Relocation) (trees : List Tree) :
    (relocateAll r trees).filterMap outline? = trees.filterMap outline? := by
  rw [relocateAll_eq_map, List.filterMap_map]
  exact congrArg (List.filterMap · trees) (funext (outline?_relocate r))

end Tree

/-- Derivations of the same lexemes have the same outline. -/
theorem outline_congr {children others : List Tree}
    (h : Derives (production .document false) children)
    (hothers : Derives (production .document false) others)
    (hlexemes : (allLeaves children).map Token.lexeme = (allLeaves others).map Token.lexeme) :
    children.filterMap outline? = others.filterMap outline? := by
  have hforget (tokens : List Token) : tokens.map (Token.relocate .forget) =
      (tokens.map Token.lexeme).map fun lexeme => ⟨lexeme.kind, 0, lexeme.text⟩ := by
    rw [List.map_map]
    rfl
  have hsame : relocateAll .forget children = relocateAll .forget others := by
    refine (h.relocate .forget).document_unique (hothers.relocate .forget) ?_
    rw [allLeaves_relocateAll, allLeaves_relocateAll, hforget, hforget, hlexemes]
  rw [← filterMap_outline?_relocateAll .forget children, hsame, filterMap_outline?_relocateAll]

namespace Document

theorem countP_isNode (document : Document) (kind : NodeKind) :
    document.children.countP (·.isNode kind) = document.outline.countP (·.1 = kind) := by
  rw [outline, List.countP_filterMap]
  refine List.countP_congr fun tree _ => ?_
  cases tree with
  | leaf token => simp [isNode, outline?]
  | node kind' children => simp [isNode, outline?]

end Document

/-! ## Texts one behind the other -/

structure HoldsDocument (text : String) (children : List Tree) : Prop where
  derives : Derives (production .document false) children
  lexemes : (significant (lex text)).map Token.lexeme = (allLeaves children).map Token.lexeme
  closed : Closed text

theorem HoldsDocument.of_derives {text : String} {children : List Tree}
    (h : Derives (production .document false) children)
    (htokens : significant (lex text) = allLeaves children) : HoldsDocument text children where
  derives := h
  lexemes := by rw [htokens]
  closed := by
    refine ⟨fun token htoken hkind => ?_, htokens ▸ h.closes⟩
    have hsignificant : token ∈ significant (lex text) :=
      List.mem_filter.mpr ⟨htoken, by simp [Token.isTrivia, hkind, TokenKind.isTrivia]⟩
    exact h.kind_ne_garbage (production_isClean _ _) token (htokens ▸ hsignificant) hkind

theorem Token.map_lexeme_eq (tokens : List Token) :
    tokens.map Token.lexeme =
      (tokens.map Token.entry).map fun entry => ⟨entry.1, String.ofList entry.2⟩ := by
  rw [List.map_map]
  refine List.map_congr_left fun token _ => ?_
  simp [Token.entry, Token.lexeme]

section

variable {text next : String} {children more : List Tree}

/-- Two documents, and no comment at the end of the first that reaches into the second. -/
theorem HoldsDocument.append (h : HoldsDocument text children) (hnext : HoldsDocument next more)
    (hcomment : EndsInComment text → OpensOnNewLine next) :
    HoldsDocument (text ++ next) (children ++ more) := by
  refine ⟨h.derives.document_append hnext.derives, ?_, h.closed.append hnext.closed hcomment⟩
  rw [Token.map_lexeme_eq, h.closed.significant_append hnext.closed hcomment, List.map_append,
    ← Token.map_lexeme_eq, ← Token.map_lexeme_eq, h.lexemes, hnext.lexemes, allLeaves_append,
    List.map_append]

/-- Several documents, and no comment at the end of one that reaches into the next. -/
theorem HoldsDocument.join {texts : List String} {forest : List (List Tree)}
    (h : HoldsDocument text children) (hall : List.Forall₂ HoldsDocument texts forest)
    (hcomments : (text :: texts).IsChain fun text next => EndsInComment text → OpensOnNewLine next) :
    HoldsDocument (text ++ String.join texts) (children ++ forest.flatten) := by
  induction hall generalizing text children with
  | nil => simpa using h
  | @cons next more texts forest hnext _ ih =>
    rw [List.isChain_cons_cons] at hcomments
    obtain ⟨hcomment, hlater⟩ := hcomments
    have hends := h.closed.endsInComment_append hnext.closed hcomment
    rw [String.join_cons, ← String.append_assoc, List.flatten_cons, ← List.append_assoc]
    refine ih (h.append hnext hcomment) ?_
    rw [List.isChain_cons] at hlater ⊢
    exact ⟨fun text htext hcomment => hlater.1 text htext (hends hcomment), hlater.2⟩

end

namespace Document

theorem outline_of_derives {text : String} {children : List Tree}
    (h : Derives (production .document false) children)
    (htokens : significant (lex text) = allLeaves children) :
    (Document.mk (assemble (lex text) (allEvents [.node .document children]))).outline =
      children.filterMap outline? := by
  rw [outline, ← filterMap_outline?_allWithoutTrivia,
    (assemble_allEvents (h.proper (production_isInner _ _)) htokens).1]

/-- The document of a text that holds one. -/
theorem exists_parse_of_holdsDocument {source : Source} {children : List Tree}
    (h : HoldsDocument source.text children) :
    ∃ document, parse .trusted source = .ok document ∧
      document.outline = children.filterMap outline? := by
  obtain ⟨others, hothers, htokens⟩ := h.derives.relabel h.lexemes
  refine ⟨_, parse_trusted_eq_ok_iff.mpr ⟨others, hothers, htokens.symm, rfl⟩, ?_⟩
  rw [outline_of_derives hothers htokens.symm]
  refine outline_congr hothers h.derives ?_
  rw [htokens, h.lexemes]

theorem exists_holdsDocument_of_parse {source : Source} {document : Document}
    (h : parse .trusted source = .ok document) :
    ∃ children, HoldsDocument source.text children ∧
      document.outline = children.filterMap outline? := by
  obtain ⟨children, hderives, htokens, rfl⟩ := parse_trusted_eq_ok_iff.mp h
  exact ⟨children, .of_derives hderives htokens, outline_of_derives hderives htokens⟩

def ParsesAlone (piece : Option String × String) (document : Document) : Prop :=
  ∃ single, Source.ofPieces [piece] = .ok single ∧ parse .trusted single = .ok document

theorem exists_forest {pieces : List (Option String × String)} {documents : List Document}
    (h : List.Forall₂ ParsesAlone pieces documents) :
    ∃ forest, List.Forall₂ HoldsDocument (pieces.map (·.2)) forest ∧
      documents.map outline = forest.map (List.filterMap outline?) := by
  induction h with
  | nil => exact ⟨[], .nil, rfl⟩
  | @cons piece document pieces documents hpiece _ ih =>
    obtain ⟨single, hsingle, hparse⟩ := hpiece
    obtain ⟨children, hchildren, houtline⟩ := exists_holdsDocument_of_parse hparse
    obtain ⟨forest, hforest, houtlines⟩ := ih
    have htext : single.text = piece.2 := by
      rw [Source.text_ofPieces hsingle]
      simp
    rw [htext] at hchildren
    refine ⟨children :: forest, .cons hchildren hforest, ?_⟩
    rw [List.map_cons, List.map_cons, houtline, houtlines]

/-- The document of a source of several segments, each of them a document: it has their
definitions in order.  A segment that ends in a comment needs a line end in front of the first
token of the next one. -/
theorem parse_ofPieces {pieces : List (Option String × String)} {source : Source}
    {documents : List Document} (hnonempty : pieces ≠ [])
    (hsource : Source.ofPieces pieces = .ok source)
    (hparse : List.Forall₂ ParsesAlone pieces documents)
    (hcomments : pieces.IsChain fun piece next =>
      EndsInComment piece.2 → OpensOnNewLine next.2) :
    ∃ document, parse .trusted source = .ok document ∧
      document.outline = documents.flatMap outline ∧
      document.operationCount = (documents.map operationCount).sum ∧
      document.fragmentCount = (documents.map fragmentCount).sum := by
  obtain ⟨forest, hforest, houtlines⟩ := exists_forest hparse
  have htext := Source.text_ofPieces hsource
  have hwhole : HoldsDocument source.text forest.flatten := by
    rw [htext]
    have hchain : (pieces.map (·.2)).IsChain fun text next =>
        EndsInComment text → OpensOnNewLine next := (List.isChain_map _).mpr hcomments
    cases pieces with
    | nil => exact (hnonempty rfl).elim
    | cons piece pieces =>
      rw [List.map_cons] at hforest hchain ⊢
      cases hforest with
      | cons hfirst hrest =>
        rw [String.join_cons, List.flatten_cons]
        exact hfirst.join hrest hchain
  obtain ⟨document, hdocument, houtline⟩ := exists_parse_of_holdsDocument hwhole
  have hdefinitions : document.outline = documents.flatMap outline := by
    rw [houtline, List.flatMap_def, houtlines, List.filterMap_flatten]
  have hcount (kind : NodeKind) : document.children.countP (·.isNode kind) =
      (documents.map fun document => document.children.countP (·.isNode kind)).sum := by
    rw [countP_isNode, hdefinitions, List.countP_flatMap]
    simp only [countP_isNode]
    rfl
  exact ⟨document, hdocument, hdefinitions, hcount _, hcount _⟩

/-- A comment at the end of a segment, and a line end at the start of the next. -/
theorem parse_ofPieces_behind_comment :
    ∃ source document, Source.ofPieces [(some "a", "\x7b a \x7d # x"), (some "b", "\n\x7b b \x7d")] =
        .ok source ∧
      parse .trusted source = .ok document ∧ document.operationCount = 2 := by
  have hparses (single : Source)
      (h : (parse .trusted single).toOption.map operationCount = some 1) :
      ∃ document, parse .trusted single = .ok document ∧ document.operationCount = 1 := by
    cases hparse : parse .trusted single with
    | error fault => simp [hparse, Except.toOption] at h
    | ok document => exact ⟨document, rfl, by simpa [hparse, Except.toOption] using h⟩
  obtain ⟨first, hfirst, hone⟩ :=
    hparses ⟨[⟨some "a", "\x7b a \x7d # x", 0⟩], 9⟩ (by decide +kernel)
  obtain ⟨second, hsecond, htwo⟩ :=
    hparses ⟨[⟨some "b", "\n\x7b b \x7d", 0⟩], 6⟩ (by decide +kernel)
  have hopens : OpensOnNewLine "\n\x7b b \x7d" := ⟨⟨.newline, 0, "\n"⟩, by decide +kernel, rfl⟩
  have hsource : Source.ofPieces [(some "a", "\x7b a \x7d # x"), (some "b", "\n\x7b b \x7d")] =
      .ok ⟨[⟨some "a", "\x7b a \x7d # x", 0⟩, ⟨some "b", "\n\x7b b \x7d", 9⟩], 15⟩ := rfl
  obtain ⟨document, hdocument, -, hcount, -⟩ := parse_ofPieces (by simp) hsource
    (.cons ⟨_, rfl, hfirst⟩ (.cons ⟨_, rfl, hsecond⟩ .nil))
    (by simpa using fun _ => hopens)
  exact ⟨_, document, hsource, hdocument, by simp [hcount, hone, htwo]⟩

/-- A comment without a line end takes the next segment with it. -/
theorem parse_ofPieces_loses_definition :
    ∃ first second both : Source,
      Source.ofPieces [(some "a", "\x7b a \x7d # x")] = .ok first ∧
      Source.ofPieces [(some "b", "\x7b b \x7d")] = .ok second ∧
      Source.ofPieces [(some "a", "\x7b a \x7d # x"), (some "b", "\x7b b \x7d")] = .ok both ∧
      (parse .trusted first).toOption.map operationCount = some 1 ∧
      (parse .trusted second).toOption.map operationCount = some 1 ∧
      (parse .trusted both).toOption.map operationCount = some 1 := by
  refine ⟨⟨[⟨some "a", "\x7b a \x7d # x", 0⟩], 9⟩, ⟨[⟨some "b", "\x7b b \x7d", 0⟩], 5⟩,
    ⟨[⟨some "a", "\x7b a \x7d # x", 0⟩, ⟨some "b", "\x7b b \x7d", 9⟩], 14⟩, rfl, rfl, rfl, ?_, ?_, ?_⟩
  · decide +kernel
  · decide +kernel
  · decide +kernel

end Document

end GuardedQuery

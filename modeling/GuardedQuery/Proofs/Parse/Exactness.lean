import GuardedQuery.Proofs.Parse.Observation

/-! # A parse accepts exactly the documents

- `Derives.document_unique`: a document has one derivation.
- `Document.parse_trusted_eq_ok_iff`: which document a parse without limits gives.
- `Document.parse_trusted_exact`: it accepts what the grammar derives, and its tree without
  trivia is the derivation.
-/

namespace GuardedQuery

open Grammar GuardedQuery.Tree

/-- The document assembled from the walk through a derivation is the derivation with the
trivia of the text. -/
theorem assembled_tree {text : String} {children : List Tree}
    (h : Derives (production .document false) children)
    (htokens : significant (lex text) = allLeaves children) :
    let document : Document := ⟨assemble (lex text) (allEvents [.node .document children])⟩
    document.tree.withoutTrivia = [.node .document children] ∧ document.tree.leaves = lex text := by
  intro document
  obtain ⟨hchildren, hleaves⟩ := assemble_allEvents (h.proper (production_isInner _ _)) htokens
  constructor
  · rw [Document.tree, withoutTrivia, hchildren]
  · rw [Document.tree, leaves_node, hleaves]

/-- A document has one derivation: the run over its tokens walks through every one. -/
theorem Grammar.Derives.document_unique {children others : List Tree}
    (h : Derives (production .document false) children)
    (hothers : Derives (production .document false) others)
    (hleaves : allLeaves children = allLeaves others) : children = others := by
  have hrun := traceGoals_complete h 0
  rw [hleaves, traceGoals_complete hothers 0, Trace.mk.injEq] at hrun
  have hproper := h.proper (production_isInner _ _)
  have hproperOthers := hothers.proper (production_isInner _ _)
  rw [← (assemble_allEvents hproper (significant_allLeaves hproper)).1, ← hrun.1, hleaves]
  exact (assemble_allEvents hproperOthers (significant_allLeaves hproperOthers)).1

namespace Document

/-- A parse without limits gives the document of the derivation of its tokens. -/
theorem parse_trusted_eq_ok_iff {source : Source} {document : Document} :
    parse .trusted source = .ok document ↔
      ∃ children, Derives (production .document false) children ∧
        significant (lex source.text) = allLeaves children ∧
        document = ⟨assemble (lex source.text) (allEvents [.node .document children])⟩ := by
  rw [parse_trusted]
  constructor
  · intro h
    have hexplained := textTrace_explained source.text
    generalize textTrace source.text = trace at h hexplained
    cases hexplained with
    | complete hderives htokens =>
      cases h
      exact ⟨_, hderives, htokens, rfl⟩
    | trailing _ _ _ => cases h
    | anomaly _ _ _ _ _ => cases h
  · rintro ⟨children, hderives, htokens, rfl⟩
    rw [textTrace, htokens, traceGoals_complete hderives]
    rfl

/-- A parse without limits accepts exactly the texts whose significant tokens the grammar
derives.  The tree of the document, its trivia left out, is their only derivation. -/
theorem parse_trusted_exact (source : Source) :
    ((∃ document, parse .trusted source = .ok document) ↔
      IsDocument ((significant (lex source.text)).map Token.lexeme)) ∧
    ∀ document, parse .trusted source = .ok document →
      Derives root document.tree.withoutTrivia ∧
      allLeaves document.tree.withoutTrivia = significant (lex source.text) ∧
      ∀ tree, Derives root [tree] → tree.leaves = significant (lex source.text) →
        document.tree.withoutTrivia = [tree] := by
  refine ⟨⟨?accepted, ?derivable⟩, ?tree⟩
  case accepted =>
    rintro ⟨document, hparse⟩
    obtain ⟨children, hderives, htokens, -⟩ := parse_trusted_eq_ok_iff.1 hparse
    exact isDocument_iff.2 ⟨children, hderives, htokens.symm⟩
  case derivable =>
    intro hdocument
    obtain ⟨children, hderives, htokens⟩ := isDocument_iff.1 hdocument
    exact ⟨_, parse_trusted_eq_ok_iff.2 ⟨children, hderives, htokens.symm, rfl⟩⟩
  case tree =>
    intro document hparse
    obtain ⟨children, hderives, htokens, rfl⟩ := parse_trusted_eq_ok_iff.1 hparse
    have htree := (assembled_tree hderives htokens).1
    refine ⟨?_, ?_, fun tree hroot hleaves => ?_⟩
    · rw [htree]
      exact .rule hderives
    · rw [htree, htokens, allLeaves_cons, leaves_node, allLeaves_nil, List.append_nil]
    · obtain ⟨others, hothers, htree'⟩ := derives_rule.1 hroot
      cases htree'
      rw [leaves_node] at hleaves
      have hparse' := parse_trusted_eq_ok_iff.2 ⟨others, hothers, hleaves.symm, rfl⟩
      rw [hparse, Except.ok.injEq] at hparse'
      rw [hparse']
      exact (assembled_tree hothers hleaves.symm).1

end Document

end GuardedQuery

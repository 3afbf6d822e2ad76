import GuardedQuery.Proofs.Parse.EventTree
import GuardedQuery.Proofs.Token.Tiling

/-! # A tree holds its whole source

- `Tree.text_eq_join`: the text of a tree is that of its leaves.
- `Document.leaves_of_parse`: the leaves of a document are all tokens of its source.
- `Document.parse_lossless`: the tokens, their places and the text of a document.
-/

namespace GuardedQuery

theorem Tree.text_eq_join (tree : Tree) : tree.text = String.join (tree.leaves.map (·.text)) := by
  rw [Tree.text, String.join_eq_foldl, List.foldl_map]

theorem Source.text_eq_join (source : Source) :
    source.text = String.join (source.segments.map (·.content)) := by
  rw [Source.text, String.join_eq_foldl, List.foldl_map]

namespace Document

variable {limits : Limits} {source : Source} {document : Document}

/-- What parses under limits parses without them to the same document. -/
theorem parse_trusted_of_parse (h : parse limits source = .ok document) :
    parse .trusted source = .ok document := by
  rw [parse_eq] at h
  rcases hrecorded : parseRecorded limits source with ⟨events, result⟩
  rw [hrecorded] at h
  subst h
  obtain ⟨_, _, _, hparse⟩ := guarded_eq_of_parseRecorded hrecorded
  exact hparse

theorem leaves_of_parse (h : parse limits source = .ok document) :
    document.tree.leaves = lex source.text := by
  obtain ⟨children, hderives, htokens, rfl⟩ := parse_trusted_eq_ok_iff.1 (parse_trusted_of_parse h)
  exact (assembled_tree hderives htokens).2

/-- The leaves of a document are the tokens of all segments read as one text, trivia
included, each at its place, and its text is that text. -/
theorem parse_lossless (h : parse limits source = .ok document) :
    document.tree.leaves = lex (String.join (source.segments.map (·.content))) ∧
    Tiles (String.join (source.segments.map (·.content))) document.tree.leaves ∧
    document.text = String.join (source.segments.map (·.content)) := by
  have hleaves := leaves_of_parse h
  have htiles := lex_tiles source.text
  rw [← hleaves] at htiles
  rw [← source.text_eq_join]
  refine ⟨hleaves, htiles, ?_⟩
  rw [Document.text, Tree.text_eq_join, htiles.covers]

theorem lossless_shorthand_with_comment :
    let source : Source := ⟨[⟨none, "# c\n\x7b", 0⟩, ⟨some "b", "a,\x7d ", 5⟩], 9⟩
    ∃ document, parse {} source = .ok document ∧ document.tree.leaves.length = 7 ∧
      document.text = "# c\n\x7ba,\x7d " := by
  intro source
  rcases hparse : parse {} source with fault | document
  · have hok : (parse {} source).isOk = true := by decide +kernel
    rw [hparse] at hok
    cases hok
  · obtain ⟨hleaves, -, htext⟩ := parse_lossless hparse
    refine ⟨document, rfl, ?_, ?_⟩
    · rw [hleaves]
      decide +kernel
    · rw [htext]
      decide +kernel

end Document

end GuardedQuery

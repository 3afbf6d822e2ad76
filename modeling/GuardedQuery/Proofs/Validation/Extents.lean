import GuardedQuery.Proofs.Tree.Trimming
import GuardedQuery.Proofs.Validation.Placement

/-! # From where to where

In the tree of an accepted document trivia stands as low as the tokens around it allow, so
what is said of a node, and what is found at it, is said of significant tokens.

- `Document.trimmed_of_parse`: below the root nodes start and end with significant tokens.
- `Document.PlacesTrivia`: a tree that keeps trivia at its place.
- `Document.places_trivia`: the tree, the visits and the findings of an accepted document.
-/

namespace GuardedQuery

open Grammar GuardedQuery.Tree

namespace Document

variable {limits : Limits} {source : Source} {document : Document}

theorem trimmed_of_parse (h : parse limits source = .ok document) : document.tree.Trimmed := by
  obtain ⟨children, hderives, htokens, rfl⟩ := parse_trusted_eq_ok_iff.1 (parse_trusted_of_parse h)
  obtain ⟨added, trailing, hassemble, hadded, -, -⟩ :=
    assemble_padded (hderives.proper (production_isInner .document false)) htokens
  intro path kind children hpath hat
  cases path with
  | nil => exact absurd rfl hpath
  | cons index path =>
    rw [tree, hassemble] at hat
    obtain ⟨child, hchild, hat⟩ := Option.bind_eq_some_iff.1 hat
    rcases List.mem_append.1 (List.mem_of_getElem? hchild) with hchild | hchild
    · exact hadded.startsAndEnds child hchild path kind children hat
    · -- Behind the last token there is only trivia.
      obtain ⟨token, -, rfl⟩ := List.mem_map.1 hchild
      exact absurd hat at?_leaf_ne_node

structure PlacesTrivia (document : Document) : Prop where
  /-- Below the root nodes start and end with significant tokens, and so do their ranges. -/
  nodes : ∀ path kind children, path ≠ [] →
    document.tree.at? path = some (.node kind children) →
    ∃ first last, StartsAndEnds (Tree.node kind children).leaves first last ∧
      (Tree.node kind children).range? = some ⟨first.start, last.stop⟩
  /-- Trivia is a child of the lowest node that holds the significant tokens next to it. -/
  between : ∀ front path token back before after,
    document.tree.leafPaths = front ++ (path, token) :: back → token.isTrivia →
    (significantPlaces front).getLast? = some before →
    (significantPlaces back).head? = some after →
    (∃ kind children, document.tree.at? path.dropLast = some (.node kind children)) ∧
      LowestAbove path.dropLast before.1 after.1
  outside : ∀ front path token back,
    document.tree.leafPaths = front ++ (path, token) :: back → token.isTrivia →
    significantPlaces front = [] ∨ significantPlaces back = [] → path.length = 1

theorem placesTrivia_of_parse (h : parse limits source = .ok document) :
    document.PlacesTrivia := by
  have htrimmed := trimmed_of_parse h
  refine ⟨fun path kind children hpath hat => ?nodes,
    fun front path token back before after hsplit htrivia hbefore hafter => ⟨?parent, ?lowest⟩,
    fun front path token back hsplit htrivia hone => ?outside⟩
  case nodes =>
    obtain ⟨first, last, hends⟩ := htrimmed path kind children hpath hat
    refine ⟨first, last, hends, ?_⟩
    rw [range?_eq, hends.1, hends.2.1]
    rfl
  case parent =>
    have hat : document.tree.at? path = some (.leaf token) := by
      rw [← mem_leafPaths_iff, hsplit]
      simp
    refine exists_parent hat ?_
    rintro rfl
    cases hat
  case lowest => exact htrimmed.lowestAbove hsplit htrivia hbefore hafter
  case outside => exact htrimmed.length_eq_one hsplit htrivia nofun hone

/-- Trivia stands as low as the tokens around it allow.  In the tree of an accepted document
the leaves are the tokens of the source.  Every node below the root starts and ends with a
significant token, trivia between two such tokens is a child of the lowest node that holds
both, and any other trivia is a child of the root.  Hence the range of everything that is
visited below the document, and of every finding of every validation, starts where a
significant token starts and stops where one stops. -/
theorem places_trivia (h : parse limits source = .ok document) :
    document.tree.leafPaths.map (·.2) = lex source.text ∧
    document.PlacesTrivia ∧
    (∀ visit ∈ document.executable.visits, (∀ doc, visit ≠ .document doc) →
      visit.range.Spans (significant (lex source.text))) ∧
    ∀ (checks : Limits) (names : List RuleName) (capacity : Nat) (findings : Findings),
      (Validator.ofRules checks names capacity).run document = .ok findings →
      ∀ finding ∈ findings.toList, finding.range.Spans (significant (lex source.text)) := by
  refine ⟨?leaves, placesTrivia_of_parse h, fun visit hvisit hinner => ?visits, ?findings⟩
  case leaves => rw [map_snd_leafPaths, leaves_of_parse h]
  case visits => exact spans_of_mem_visits h visit hvisit _ (Visit.range_mem_ranges hinner)
  case findings => exact fun _ _ _ _ hrun => Validator.spans_of_run h hrun

/-- A blank between two fields, and two operations without a name. -/
theorem places_blank_between_fields :
    let source : Source := ⟨[⟨none, "\x7ba b\x7d\x7bc\x7d", 0⟩], 8⟩
    let checks : Limits := { nodes := 0 }
    ∃ document capacity findings, parse {} source = .ok document ∧
      document.tree.leafPaths.map (·.1) =
        [[0, 0, 0], [0, 0, 1, 0], [0, 0, 2], [0, 0, 3, 0], [0, 0, 4],
          [1, 0, 0], [1, 0, 1, 0], [1, 0, 2]] ∧
      LowestAbove [0, 0] [0, 0, 1, 0] [0, 0, 3, 0] ∧
      (Validator.ofRules checks [.operationNames] capacity).run document = .ok findings ∧
      findings.toList.length = 2 ∧
      ∀ finding ∈ findings.toList, finding.range.Spans (significant (lex source.text)) := by
  intro source checks
  have hmap : (parse {} source).toOption.map (fun document =>
      (document.tree.leafPaths, (document.report .operationNames).length)) =
      some (
        [([0, 0, 0], ⟨.braceOpen, 0, "\x7b"⟩), ([0, 0, 1, 0], ⟨.name, 1, "a"⟩)] ++
          ([0, 0, 2], ⟨.whitespace, 2, " "⟩) ::
        [([0, 0, 3, 0], ⟨.name, 3, "b"⟩), ([0, 0, 4], ⟨.braceClose, 4, "\x7d"⟩),
          ([1, 0, 0], ⟨.braceOpen, 5, "\x7b"⟩), ([1, 0, 1, 0], ⟨.name, 6, "c"⟩),
          ([1, 0, 2], ⟨.braceClose, 7, "\x7d"⟩)], 2) := by
    decide +kernel
  obtain ⟨document, hparse, hplaces⟩ := Document.exists_parse_of_map hmap
  rw [Prod.mk.injEq] at hplaces
  obtain ⟨-, htrivia, -, hfindings⟩ := places_trivia hparse
  have hnodup : [RuleName.operationNames].Nodup := List.nodup_singleton _
  obtain ⟨findings, hrun⟩ := @Validator.exists_run checks _ _ document hnodup (Nat.le_refl _) rfl
  have hsorted := Validator.isStableSort_of_run hrun hnodup (Nat.le_refl _)
  refine ⟨document, _, findings, hparse, ?_, ?_, hrun, ?_, hfindings _ _ _ _ hrun⟩
  · rw [hplaces.1]
    rfl
  · exact (htrivia.between _ _ _ _ _ _ hplaces.1 rfl rfl rfl).2
  · rw [hsorted.perm.length_eq, List.flatMap_singleton, hplaces.2]

end Document

end GuardedQuery

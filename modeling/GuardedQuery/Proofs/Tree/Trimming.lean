import GuardedQuery.Proofs.Tree.Padding
import GuardedQuery.Proofs.Tree.Paths

/-! # Where trivia stands

Below the root the nodes of a document's tree start and end with significant tokens.  So
trivia stands as low as the tokens around it allow, and no lower.

- `Tree.Trimmed`: below the root nodes start and end with significant tokens.
- `Tree.Padded.startsAndEnds`: trees with trivia in front of their tokens are of this kind.
- `Tree.Trimmed.lowestAbove`: trivia between two significant tokens.
- `Tree.Trimmed.length_eq_one`: other trivia.
-/

namespace GuardedQuery

namespace Tree

variable {tree : Tree} {path : List Nat} {token : Token}

/-! ## Trimmed trees -/

def StartsAndEnds (tokens : List Token) (first last : Token) : Prop :=
  tokens.head? = some first ∧ tokens.getLast? = some last ∧
    first.isTrivia = false ∧ last.isTrivia = false

/-- Neither end is trivia. -/
theorem StartsAndEnds.around {before after : List Token} {first last : Token}
    (h : StartsAndEnds (before ++ token :: after) first last) (htrivia : token.isTrivia) :
    first ∈ before ∧ last ∈ after := by
  obtain ⟨hhead, hgetLast, hfirst, hlast⟩ := h
  constructor
  · cases before with
    | nil =>
      cases hhead
      rw [htrivia] at hfirst
      cases hfirst
    | cons other before =>
      cases hhead
      exact List.mem_cons_self
  · rw [List.getLast?_append, List.getLast?_cons] at hgetLast
    cases hafter : after.getLast? with
    | none =>
      rw [hafter] at hgetLast
      cases hgetLast
      rw [Option.getD_none, htrivia] at hlast
      cases hlast
    | some other =>
      rw [hafter] at hgetLast
      cases hgetLast
      exact List.mem_of_getLast? hafter

def Trimmed (tree : Tree) : Prop :=
  ∀ path kind children, path ≠ [] → tree.at? path = some (node kind children) →
    ∃ first last, StartsAndEnds (node kind children).leaves first last

/-- So do all nodes of trees with trivia in front of their tokens. -/
theorem Padded.startsAndEnds {trees plain : List Tree} (h : Padded trees plain) :
    ∀ tree ∈ trees, ∀ path kind children, tree.at? path = some (.node kind children) →
      ∃ first last, StartsAndEnds (Tree.node kind children).leaves first last := by
  have htrivia (trivia : List Token) (kind : NodeKind) (children : List Tree) :
      ∀ tree ∈ trivia.map Tree.leaf, ∀ path, tree.at? path ≠ some (.node kind children) := by
    intro tree htree path
    obtain ⟨token, -, rfl⟩ := List.mem_map.1 htree
    exact at?_leaf_ne_node
  induction h with
  | nil => nofun
  | leaf _ _ _ ih =>
    rw [List.forall_mem_append, List.forall_mem_cons]
    refine ⟨?_, ?_, ih⟩
    · intro tree htree path kind children hat
      exact absurd hat (htrivia _ kind children tree htree path)
    · intro path kind children hat
      exact absurd hat at?_leaf_ne_node
  | @node _ kind inner _ _ _ _ hfirst hinner _ ihinner ih =>
    rw [List.forall_mem_append, List.forall_mem_cons]
    refine ⟨?_, ?_, ih⟩
    · intro tree htree path kind children hat
      exact absurd hat (htrivia _ kind children tree htree path)
    · intro path other children hat
      cases path with
      | nil =>
        cases hat
        rw [leaves_node]
        obtain ⟨first, hhead, hfirst⟩ := hfirst
        have hne : allLeaves inner ≠ [] := by
          rintro hnil
          rw [hnil] at hhead
          cases hhead
        have hlast := List.getLast?_eq_some_getLast hne
        exact ⟨first, _, hhead, hlast, hfirst, hinner.isTrivia_of_getLast? _ hlast⟩
      | cons index path =>
        obtain ⟨child, hchild, hat⟩ := Option.bind_eq_some_iff.1 hat
        exact ihinner child (List.mem_of_getElem? hchild) path other children hat

/-! ## Trivia in trimmed trees -/

def significantPlaces (places : List (List Nat × Token)) : List (List Nat × Token) :=
  places.filter fun place => !place.2.isTrivia

variable {front back : List (List Nat × Token)}

theorem mem_significantPlaces {place : List Nat × Token} :
    place ∈ significantPlaces front ↔ place ∈ front ∧ place.2.isTrivia = false := by
  rw [significantPlaces, List.mem_filter, Bool.not_eq_true']

/-- The last significant leaf stands in the latter part, if there is one. -/
theorem getLast?_significantPlaces (front : List (List Nat × Token))
    (hback : significantPlaces back ≠ []) :
    ∃ place ∈ back, (significantPlaces (front ++ back)).getLast? = some place := by
  have hlast := List.getLast?_eq_some_getLast hback
  refine ⟨_, (mem_significantPlaces.1 (List.getLast_mem hback)).1, ?_⟩
  rw [significantPlaces, List.filter_append, List.getLast?_append]
  change (significantPlaces back).getLast?.or _ = _
  rw [hlast]
  rfl

/-- The first significant leaf stands in the former part, if there is one. -/
theorem head?_significantPlaces (back : List (List Nat × Token))
    (hfront : significantPlaces front ≠ []) :
    ∃ place ∈ front, (significantPlaces (front ++ back)).head? = some place := by
  have hhead := List.head?_eq_some_head hfront
  refine ⟨_, (mem_significantPlaces.1 (List.head_mem hfront)).1, ?_⟩
  rw [significantPlaces, List.filter_append, List.head?_append]
  change (significantPlaces front).head?.or _ = _
  rw [hhead]
  rfl

/-- Trivia below a node other than the root has significant tokens of that node on both
sides. -/
theorem Trimmed.tokens_around (h : tree.Trimmed)
    (hsplit : tree.leafPaths = front ++ (path, token) :: back) (htrivia : token.isTrivia)
    (hparent : path.dropLast ≠ []) :
    (∃ before ∈ (significantPlaces front).getLast?, path.dropLast <+: before.1) ∧
      ∃ after ∈ (significantPlaces back).head?, path.dropLast <+: after.1 := by
  have hat : tree.at? path = some (leaf token) := by
    rw [← mem_leafPaths_iff, hsplit]
    simp
  have hpath : path ≠ [] := by
    rintro rfl
    exact hparent rfl
  obtain ⟨kind, children, hnode⟩ := exists_parent hat hpath
  obtain ⟨first, last, hends⟩ := h _ kind children hparent hnode
  obtain ⟨outer, rest, hblock, houter, hrest⟩ := leafPaths_split hnode
  rw [hsplit] at hblock
  obtain ⟨before, after, rfl, hinner, rfl⟩ :=
    split_block hblock (List.dropLast_prefix path) houter hrest
  have hleaves : (node kind children).leaves = before.map (·.2) ++ token :: after.map (·.2) := by
    have hmap := congrArg (List.map (·.2)) hinner
    rw [List.map_map, List.map_append, List.map_cons] at hmap
    rw [← map_snd_leafPaths, ← hmap]
    rfl
  have hbelow : ∀ place ∈ before ++ (path, token) :: after, path.dropLast <+: place.1 := by
    rw [← hinner]
    intro place hplace
    obtain ⟨own, -, rfl⟩ := List.mem_map.1 hplace
    exact List.prefix_append _ _
  rw [hleaves] at hends
  obtain ⟨hfirst, hlast⟩ := hends.around htrivia
  obtain ⟨firstPlace, hfirstPlace, rfl⟩ := List.mem_map.1 hfirst
  obtain ⟨lastPlace, hlastPlace, rfl⟩ := List.mem_map.1 hlast
  constructor
  · obtain ⟨place, hplace, hlast⟩ := getLast?_significantPlaces outer
      (List.ne_nil_of_mem (mem_significantPlaces.2 ⟨hfirstPlace, hends.2.2.1⟩))
    exact ⟨place, hlast, hbelow place (List.mem_append_left _ hplace)⟩
  · obtain ⟨place, hplace, hfirst⟩ := head?_significantPlaces rest
      (List.ne_nil_of_mem (mem_significantPlaces.2 ⟨hlastPlace, hends.2.2.2⟩))
    exact ⟨place, hfirst, hbelow place (List.mem_append_right _ (.tail _ hplace))⟩

/-- Trivia between two significant tokens stands in the lowest node that holds both. -/
theorem Trimmed.lowestAbove (h : tree.Trimmed)
    (hsplit : tree.leafPaths = front ++ (path, token) :: back) (htrivia : token.isTrivia)
    {before after : List Nat × Token} (hbefore : (significantPlaces front).getLast? = some before)
    (hafter : (significantPlaces back).head? = some after) :
    LowestAbove path.dropLast before.1 after.1 := by
  have haround : path.dropLast <+: before.1 ∧ path.dropLast <+: after.1 := by
    by_cases hparent : path.dropLast = []
    · rw [hparent]
      exact ⟨List.nil_prefix, List.nil_prefix⟩
    · obtain ⟨⟨first, hfirst, hstarts⟩, second, hsecond, hstarts'⟩ :=
        h.tokens_around hsplit htrivia hparent
      cases hbefore.symm.trans hfirst
      cases hafter.symm.trans hsecond
      exact ⟨hstarts, hstarts'⟩
  refine ⟨haround.1, haround.2, fun other hfirst hsecond => ?_⟩
  obtain ⟨hbefore, htoken⟩ := mem_significantPlaces.1 (List.mem_of_getLast? hbefore)
  obtain ⟨hafter, -⟩ := mem_significantPlaces.1 (List.mem_of_head? hafter)
  have hstarts : other <+: path := by
    obtain ⟨outer, between, rfl⟩ := List.append_of_mem hbefore
    obtain ⟨more, rest, rfl⟩ := List.append_of_mem hafter
    have hbetween : tree.leafPaths =
        outer ++ before :: ((between ++ (path, token) :: more) ++ after :: rest) := by
      rw [hsplit]
      simp
    have hmem : (path, token) ∈ between ++ (path, token) :: more := by simp
    exact isPrefix_of_between hbetween hfirst hsecond hmem
  have hne : other ≠ path := by
    rintro rfl
    have hmem (place : List Nat × Token) (hplace : place ∈ front ++ (other, token) :: back) :
        place ∈ tree.leafPaths := hsplit ▸ hplace
    have hsame := eq_of_isPrefix (hmem (other, token) (by simp))
      (hmem before (List.mem_append_left _ hbefore)) hfirst
    rw [← hsame, htrivia] at htoken
    cases htoken
  have hpath : path ≠ [] := by
    rintro rfl
    exact hne (List.prefix_nil.1 hstarts)
  rw [← List.dropLast_concat_getLast hpath, List.prefix_concat_iff,
    List.dropLast_concat_getLast hpath] at hstarts
  exact hstarts.resolve_left hne

/-- Trivia that does not stand between significant tokens stands right below the root. -/
theorem Trimmed.length_eq_one (h : tree.Trimmed)
    (hsplit : tree.leafPaths = front ++ (path, token) :: back) (htrivia : token.isTrivia)
    (hroot : tree ≠ leaf token)
    (hone : significantPlaces front = [] ∨ significantPlaces back = []) :
    path.length = 1 := by
  have hat : tree.at? path = some (leaf token) := by
    rw [← mem_leafPaths_iff, hsplit]
    simp
  have hpath : path ≠ [] := by
    rintro rfl
    exact hroot (Option.some.inj hat)
  have hparent : path.dropLast = [] := by
    refine Decidable.byContradiction fun hparent => ?_
    obtain ⟨⟨_, hbefore, -⟩, _, hafter, -⟩ := h.tokens_around hsplit htrivia hparent
    rcases hone with hnone | hnone
    · rw [hnone] at hbefore
      cases hbefore
    · rw [hnone] at hafter
      cases hafter
  rw [← List.dropLast_concat_getLast hpath, hparent]
  rfl

end Tree

end GuardedQuery

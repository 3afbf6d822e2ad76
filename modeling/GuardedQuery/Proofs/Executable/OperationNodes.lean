import GuardedQuery.Proofs.Executable.Nodes
import GuardedQuery.Proofs.Parse.Lossless

/-! # Operations and their nodes

The operations that a document says are those of its operation nodes, one for one and in
order.  What a node is called and where it starts are read off the tree here, so that what is
found about names can be put against the tree.

- `Tree.headToken?`, `Tree.operationName?`: the first token of a node and the name behind a
  keyword.
- `Grammar.Derives.operations_of_padded`: derived trees say the operations of their nodes.
- `Document.operations_of_parse`: so do documents.
-/

namespace GuardedQuery

def Item.token? : Item → Option Token
  | token t => some t
  | _ => none

def Item.operation? : Item → Option Operation
  | definition (.operation o) => some o
  | _ => none

namespace Tree

def token? : Tree → Option Token
  | leaf token => some token
  | node _ _ => none

def headToken? (tree : Tree) : Option Token :=
  (significant tree.leaves).head?

/-- The token right behind the first child of a node, trivia passed over.  An operation that
starts with a keyword has its name there, if it has one; what else may follow is a node. -/
def operationName? : Tree → Option Token
  | leaf _ => none
  | node _ children => (allWithoutTrivia children)[1]?.bind token?

/-- Where every tree says something, the tokens are the leaves. -/
theorem getElem?_items_token? {trees : List Tree} (h : ∀ tree ∈ trees, tree.part?.isSome)
    (n : Nat) : (items trees)[n]?.bind Item.token? = trees[n]?.bind token? := by
  induction trees generalizing n with
  | nil => rfl
  | cons tree trees ih =>
    rw [List.forall_mem_cons] at h
    obtain ⟨part, hpart⟩ := Option.isSome_iff_exists.1 h.1
    have hitems : items (tree :: trees) = part.item :: items trees := by
      rw [items, parts_cons, hpart]
      rfl
    rw [hitems]
    cases n with
    | succ n => exact ih h.2 n
    | zero =>
      show part.item.token? = tree.token?
      cases tree with
      | leaf token =>
        cases hpart
        rfl
      | node kind children =>
        rw [part?_node, Part.ofNode?] at hpart
        split at hpart
        · cases hpart
          cases hitem : Item.ofNode? kind _ _ _ with
          | none => rfl
          | some item =>
            cases item with
            | token t => exact (Item.ofNode?_ne_token _ _ _ _ _ hitem).elim
            | _ => rfl
        · cases hpart

theorem Proper.isSome_part? {tree : Tree} (h : tree.Proper) : tree.part?.isSome := by
  have hfirst := map_first_part? tree
  have hleaves : tree.leaves ≠ [] := by
    cases h with
    | leaf _ => exact List.cons_ne_nil _ _
    | node _ hleaves _ => rwa [leaves_node]
  rw [List.head?_eq_some_head hleaves] at hfirst
  have hsome := congrArg Option.isSome hfirst
  rwa [Option.isSome_map] at hsome

end Tree

namespace Item

variable {range : ByteRange} {head : Token} {kind : NodeKind} {items : List Item} {item : Item}

/-- An operation node says an operation that starts where the node does and has the token
behind the keyword for its name. -/
theorem Composes.exists_operation (h : Composes range head .operationDefinition items item) :
    ∃ o : Operation, item = .definition (.operation o) ∧ o.head = head ∧
      o.name = items[1]?.bind token? := by
  generalize hkind : NodeKind.operationDefinition = kind at h
  cases h with
  | shorthand set => exact ⟨_, rfl, rfl, rfl⟩
  | @operation keyword name inputs directives set _ _ =>
    refine ⟨_, rfl, rfl, ?_⟩
    cases name with
    | some name => rfl
    | none => cases inputs <;> cases directives <;> rfl
  | scalar token hscalar =>
    subst hkind
    exact absurd hscalar (by decide)
  | _ => cases hkind

/-- No other node says an operation. -/
theorem Composes.operation?_eq_none (h : Composes range head kind items item)
    (hkind : kind ≠ .operationDefinition) : item.operation? = none := by
  cases h with
  | shorthand _ => exact (hkind rfl).elim
  | operation _ _ _ _ _ => exact (hkind rfl).elim
  | _ => rfl

end Item

def Tree.operationEntries (trees : List Tree) : List (Option Token × Option Token) :=
  (trees.filter (·.isNode .operationDefinition)).map fun node =>
    (node.headToken?, node.operationName?)

theorem Tree.operationEntries_append (trees more : List Tree) :
    operationEntries (trees ++ more) = operationEntries trees ++ operationEntries more := by
  rw [operationEntries, List.filter_append, List.map_append]
  rfl

theorem Tree.operationEntries_leaves (tokens : List Token) :
    operationEntries (tokens.map leaf) = [] := by
  rw [operationEntries, List.filter_map]
  simp [Function.comp_def, isNode]

namespace Grammar

open Pattern GuardedQuery.Tree

variable {pattern : Pattern} {plain trees : List Tree}

/-- An operation node says an operation with the head and the name of the node. -/
theorem Derives.operation_of_padded {constant : Bool} {children inner : List Tree}
    (h : Derives (production .operationDefinition constant) children)
    (hfirst : ∃ t ∈ (allLeaves inner).head?, t.isTrivia = false) (hinner : Padded inner children) :
    ∃ o : Operation, Tree.items [node .operationDefinition children] =
        [.definition (.operation o)] ∧
      (node .operationDefinition inner).headToken? = some o.head ∧
      (node .operationDefinition inner).operationName? = o.name := by
  obtain ⟨first, last, item, hitem, hplain, hpart⟩ :=
    h.exists_part_of_padded (by decide) hfirst hinner
  obtain ⟨o, rfl, hhead, hname⟩ := hitem.exists_operation
  refine ⟨o, ?_, ?_, ?_⟩
  · rw [Tree.items, parts_cons, hplain]
    rfl
  · obtain ⟨t, ht, htrivia⟩ := hfirst
    obtain ⟨rest, hrest⟩ := List.head?_eq_some_iff.1 ht
    have hleaf := map_first_part? (node .operationDefinition inner)
    rw [hpart, leaves_node, ht] at hleaf
    rw [headToken?, leaves_node, hrest, significant_cons, htrivia, hhead]
    exact hleaf.symm
  · have hparts (tree : Tree) (member : tree ∈ children) : tree.part?.isSome :=
      (h.proper (production_isInner _ _) tree member).isSome_part?
    rw [operationName?, hinner.allWithoutTrivia_eq, hname, getElem?_items_token? hparts]

/-- Every other node below the root says no operation. -/
theorem Derives.operation?_of_padded {kind : NodeKind} {constant : Bool}
    {children inner : List Tree} (h : Derives (production kind constant) children)
    (hfirst : ∃ t ∈ (allLeaves inner).head?, t.isTrivia = false) (hinner : Padded inner children)
    (hroot : kind ≠ .document) (hkind : kind ≠ .operationDefinition) :
    (Tree.items [node kind children]).filterMap Item.operation? = [] := by
  obtain ⟨first, last, item, hitem, hplain, -⟩ := h.exists_part_of_padded hroot hfirst hinner
  have hitems : Tree.items [node kind children] = [item] := by
    rw [Tree.items, parts_cons, hplain]
    rfl
  rw [hitems, List.filterMap_cons_none (hitem.operation?_eq_none hkind), List.filterMap_nil]

/-- Derived trees say the operations of their nodes. -/
theorem Derives.operations_of_padded (h : Derives pattern plain) (hpattern : pattern.isInner = true)
    (hpadded : Padded trees plain) :
    operationEntries trees =
      ((Tree.items plain).filterMap Item.operation?).map fun o => (some o.head, o.name) := by
  induction h generalizing trees with
  | empty | absent | done =>
    cases hpadded
    rfl
  | token _ =>
    cases hpadded with
    | leaf htrivia htoken hrest =>
      cases hrest
      rw [operationEntries_append, operationEntries_leaves]
      rfl
  | @rule kind constant children hchildren _ =>
    cases hpadded with
    | @node trivia _ inner _ _ _ htrivia hfirst hinner hrest =>
      cases hrest
      rw [operationEntries_append, operationEntries_leaves, List.nil_append]
      by_cases hkind : kind = .operationDefinition
      · subst hkind
        obtain ⟨o, hitems, hhead, hname⟩ := hchildren.operation_of_padded hfirst hinner
        simp [operationEntries, hitems, isNode, Item.operation?, hhead, hname]
      · have hroot : kind ≠ .document := by simpa [isInner] using hpattern
        rw [hchildren.operation?_of_padded hfirst hinner hroot hkind]
        simp [operationEntries, isNode, hkind]
  | left _ ih =>
    simp only [isInner, Bool.and_eq_true] at hpattern
    exact ih hpattern.1 hpadded
  | right _ ih =>
    simp only [isInner, Bool.and_eq_true] at hpattern
    exact ih hpattern.2 hpadded
  | present _ ih => exact ih hpattern hpadded
  | both _ _ ihfirst ihsecond =>
    simp only [isInner, Bool.and_eq_true] at hpattern
    obtain ⟨front, back, rfl, hfront, hback⟩ := padded_append_iff.1 hpadded
    rw [operationEntries_append, ihfirst hpattern.1 hfront, ihsecond hpattern.2 hback,
      items_append, List.filterMap_append, List.map_append]
  | more _ _ ih ihmore =>
    obtain ⟨front, back, rfl, hfront, hback⟩ := padded_append_iff.1 hpadded
    rw [operationEntries_append, ih hpattern hfront, ihmore hpattern hback, items_append,
      List.filterMap_append, List.map_append]

end Grammar

namespace Document

variable {limits : Limits} {source : Source} {document : Document}

def operationNodes (document : Document) : List Tree :=
  document.children.filter (·.isNode .operationDefinition)

/-- A document says the operations of its nodes, each with the head and the name of its
node. -/
theorem operations_of_parse (h : parse limits source = .ok document) :
    document.operationNodes.map (fun node => (node.headToken?, node.operationName?)) =
      document.executable.operations.map fun o => (some o.head, o.name) := by
  obtain ⟨children, hderives, htokens, rfl⟩ := parse_trusted_eq_ok_iff.1 (parse_trusted_of_parse h)
  have hinner := Grammar.production_isInner .document false
  have hdefinitions := definitions_of_derives hderives htokens
  obtain ⟨added, trailing, hassemble, hadded, -, -⟩ :=
    assemble_padded (hderives.proper hinner) htokens
  have hoperations : (Document.mk (added ++ trailing.map .leaf)).executable.operations =
      (Tree.items children).filterMap Item.operation? := by
    rw [Executable.operations, ← hassemble, hdefinitions, hderives.items_document,
      List.filterMap_map]
    congr 1
    funext definition
    cases definition <;> rfl
  simp only [hassemble]
  show Tree.operationEntries (added ++ trailing.map Tree.leaf) = _
  rw [Tree.operationEntries_append, Tree.operationEntries_leaves, List.append_nil,
    hderives.operations_of_padded hinner hadded, hoperations]

end Document

end GuardedQuery

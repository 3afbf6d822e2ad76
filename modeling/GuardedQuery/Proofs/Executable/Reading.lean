import GuardedQuery.Executable.Read
import GuardedQuery.Proofs.Grammar.Derivation
import GuardedQuery.Proofs.Tree.Assembly

/-! # Reading passes over trivia

What a node says is chosen among what its children say, and trivia is never chosen.  Only
literals take the text of all their leaves, but a literal is a single token.

- `Tree.parts`: what several trees say.
- `Item.ofNode?_significant`: a node that is no literal does not see trivia.
- `Grammar.Derives.parts_of_padded`: trees with trivia say what they say without.
- `Document.definitions_of_derives`: a document says what its derivation says.
-/

namespace GuardedQuery

open GuardedQuery.Tree

/-! ## Trivia among the children -/

def Item.isTrivia : Item → Bool
  | token t => t.isTrivia
  | _ => false

def Part.isTrivia (part : Part) : Bool :=
  part.item.isTrivia

def Grammar.scalarRules : List NodeKind :=
  [.intValue, .floatValue, .stringValue, .booleanValue, .nullValue, .enumValue]

namespace Item

section choices

variable {α : Type} {choose : Item → Option α}

theorem filterMap_significant (h : ∀ t, t.isTrivia → choose (.token t) = none)
    (items : List Item) :
    (items.filter (!·.isTrivia)).filterMap choose = items.filterMap choose := by
  rw [List.filterMap_filter]
  congr 1
  funext item
  cases item with
  | token t =>
    cases htrivia : t.isTrivia with
    | true => simp [isTrivia, htrivia, h t htrivia]
    | false => simp [isTrivia, htrivia]
  | _ => rfl

theorem findSome?_significant (h : ∀ t, t.isTrivia → choose (.token t) = none)
    (items : List Item) :
    (items.filter (!·.isTrivia)).findSome? choose = items.findSome? choose := by
  rw [← List.head?_filterMap, ← List.head?_filterMap, filterMap_significant h]

end choices

theorem name?_of_isTrivia (t : Token) (h : t.isTrivia) : name? (.token t) = none := by
  rw [name?, if_neg]
  intro hname
  rw [Token.isTrivia, hname] at h
  cases h

/-- A node that is no literal does not see trivia. -/
theorem ofNode?_significant {kind : NodeKind} (hkind : kind ∉ Grammar.scalarRules)
    (range : ByteRange) (head : Token) (items : List Item) :
    ofNode? kind range head (items.filter (!·.isTrivia)) = ofNode? kind range head items := by
  -- Every choice that a node makes among its items passes over trivia.
  have hnames := filterMap_significant name?_of_isTrivia items
  have hmap {α : Type} (choose : Item → Option α) (h : ∀ t, choose (.token t) = none) :=
    filterMap_significant (fun t _ => h t) items
  have hfind {α : Type} (choose : Item → Option α) (h : ∀ t, choose (.token t) = none) :=
    findSome?_significant (fun t _ => h t) items
  simp only [ofNode?, hnames, hmap variableDefinition? fun _ => rfl, hmap selection? fun _ => rfl,
    hmap argument? fun _ => rfl, hmap directive? fun _ => rfl, hmap value? fun _ => rfl,
    hmap objectField? fun _ => rfl, hfind selectionSet? fun _ => rfl,
    hfind variableDefinitions? fun _ => rfl, hfind directives? fun _ => rfl,
    hfind typeName? fun _ => rfl, hfind reference? fun _ => rfl, hfind default? fun _ => rfl,
    hfind value? fun _ => rfl, hfind label? fun _ => rfl, hfind arguments? fun _ => rfl]
  cases kind <;> first | rfl | exact absurd (by decide) hkind

theorem ofNode?_ne_token (kind : NodeKind) (range : ByteRange) (head t : Token)
    (items : List Item) : ofNode? kind range head items ≠ some (.token t) := by
  cases kind <;> simp [ofNode?, Option.bind_eq_some_iff, -List.map_findSome?]

end Item

namespace Part

theorem ofNode?_eq (kind : NodeKind) (parts : List Part) :
    ofNode? kind parts =
      (parts.head?.map (·.first)).bind fun first => (parts.getLast?.map (·.last)).map fun last =>
        ⟨first, last, (Item.ofNode? kind ⟨first.start, last.stop⟩ first
          (parts.map (·.item))).getD .nothing⟩ := by
  rw [ofNode?]
  cases parts.head? <;> cases parts.getLast? <;> rfl

theorem map_first_ofNode? (kind : NodeKind) (parts : List Part) :
    (ofNode? kind parts).map (·.first) = parts.head?.map (·.first) := by
  cases parts with
  | nil => rfl
  | cons part parts =>
    rw [ofNode?_eq, List.getLast?_cons]
    rfl

theorem map_last_ofNode? (kind : NodeKind) (parts : List Part) :
    (ofNode? kind parts).map (·.last) = parts.getLast?.map (·.last) := by
  cases parts with
  | nil => rfl
  | cons part parts =>
    rw [ofNode?_eq, List.getLast?_cons]
    rfl

end Part

/-! ## Parts of trees -/

namespace Tree

def parts (trees : List Tree) : List Part :=
  trees.filterMap part?

theorem pushParts_eq (parts : List Part) (trees : List Tree) :
    pushParts parts trees = (Tree.parts trees).reverse ++ parts := by
  induction trees generalizing parts with
  | nil => rfl
  | cons tree trees ih =>
    rw [pushParts, Tree.parts, List.filterMap_cons]
    cases tree.part? <;> simp [ih, Tree.parts]

theorem pushParts_reverse (trees : List Tree) : (pushParts [] trees).reverse = parts trees := by
  rw [pushParts_eq, List.append_nil, List.reverse_reverse]

@[simp] theorem parts_nil : parts [] = [] := rfl

theorem parts_cons (tree : Tree) (trees : List Tree) :
    parts (tree :: trees) = tree.part?.toList ++ parts trees := by
  rw [parts, List.filterMap_cons]
  cases tree.part? <;> rfl

@[simp] theorem parts_append (trees more : List Tree) :
    parts (trees ++ more) = parts trees ++ parts more := by
  simp [parts]

theorem part?_node (kind : NodeKind) (children : List Tree) :
    (node kind children).part? = Part.ofNode? kind (parts children) := by
  rw [part?, pushParts_reverse]

/-- What a node says is not trivia. -/
theorem isTrivia_part?_node {kind : NodeKind} {children : List Tree} :
    ∀ part ∈ (node kind children).part?, part.isTrivia = false := by
  intro part hpart
  rw [part?_node, Part.ofNode?] at hpart
  split at hpart
  · cases hpart
    rw [Part.isTrivia]
    cases hitem : Item.ofNode? kind _ _ _ with
    | none => rfl
    | some item =>
      cases item with
      | token t => exact (Item.ofNode?_ne_token _ _ _ _ _ hitem).elim
      | _ => rfl
  · cases hpart

theorem parts_map_leaf {trivia : List Token} (h : ∀ t ∈ trivia, t.isTrivia) :
    (parts (trivia.map leaf)).filter (!·.isTrivia) = [] := by
  rw [List.filter_eq_nil_iff]
  intro part hpart
  simp only [parts, List.mem_filterMap, List.mem_map] at hpart
  obtain ⟨_, ⟨t, ht, rfl⟩, hpart⟩ := hpart
  cases hpart
  simp [Part.isTrivia, Item.isTrivia, h t ht]

/-! ## First and last tokens -/

mutual

theorem map_first_part? : ∀ tree : Tree, tree.part?.map (·.first) = tree.leaves.head?
  | leaf _ => rfl
  | node kind children => by
    rw [part?_node, Part.map_first_ofNode?, leaves_node, map_first_parts children]

theorem map_first_parts : ∀ trees : List Tree,
    (parts trees).head?.map (·.first) = (allLeaves trees).head?
  | [] => rfl
  | tree :: trees => by
    rw [parts_cons, List.head?_append, Option.map_or, map_first_parts trees, allLeaves_cons,
      List.head?_append, ← map_first_part? tree]
    cases tree.part? <;> rfl

end

mutual

theorem map_last_part? : ∀ tree : Tree, tree.part?.map (·.last) = tree.leaves.getLast?
  | leaf _ => rfl
  | node kind children => by
    rw [part?_node, Part.map_last_ofNode?, leaves_node, map_last_parts children]

theorem map_last_parts : ∀ trees : List Tree,
    (parts trees).getLast?.map (·.last) = (allLeaves trees).getLast?
  | [] => rfl
  | tree :: trees => by
    rw [parts_cons, List.getLast?_append, Option.map_or, map_last_parts trees, allLeaves_cons,
      List.getLast?_append, ← map_last_part? tree]
    cases tree.part? <;> rfl

end

end Tree

/-! ## Trees with trivia -/

theorem head?_filter_of_head? {α : Type} {p : α → Bool} {xs : List α}
    (h : ∀ x ∈ xs.head?, p x = true) : (xs.filter p).head? = xs.head? := by
  cases xs with
  | nil => rfl
  | cons x xs => simp [h x rfl]

/-- The first and the last leaf decide on the range, what is no trivia on the rest. -/
theorem Part.ofNode?_congr {kind : NodeKind} {parts others : List Part}
    (hfirst : parts.head?.map (·.first) = others.head?.map (·.first))
    (hlast : parts.getLast?.map (·.last) = others.getLast?.map (·.last))
    (hitems : parts.filter (!·.isTrivia) = others.filter (!·.isTrivia))
    (hkind : kind ∉ Grammar.scalarRules) : ofNode? kind parts = ofNode? kind others := by
  have hsignificant : (parts.map (·.item)).filter (!·.isTrivia) =
      (others.map (·.item)).filter (!·.isTrivia) := by
    rw [List.filter_map, List.filter_map]
    exact congrArg (List.map (·.item)) hitems
  have hitem (range : ByteRange) (head : Token) :
      Item.ofNode? kind range head (parts.map (·.item)) =
        Item.ofNode? kind range head (others.map (·.item)) := by
    rw [← Item.ofNode?_significant hkind, hsignificant, Item.ofNode?_significant hkind]
  rw [ofNode?_eq, ofNode?_eq, hfirst, hlast]
  simp only [hitem]

namespace Grammar

theorem eq_leaf_of_scalarRules {kind : NodeKind} {constant : Bool} {children : List Tree}
    (hkind : kind ∈ scalarRules) (h : Derives (production kind constant) children) :
    ∃ token, children = [leaf token] := by
  simp only [scalarRules, List.mem_cons, List.not_mem_nil, or_false] at hkind
  rcases hkind with rfl | rfl | rfl | rfl | rfl | rfl <;>
    simp only [production, punctuator, or_eq_either, derives_either, derives_token] at h
  case inr.inr.inl => rcases h with ⟨token, -, rfl⟩ | ⟨token, -, rfl⟩ <;> exact ⟨token, rfl⟩
  all_goals
    obtain ⟨token, -, rfl⟩ := h
    exact ⟨token, rfl⟩

/-- A node says what it says without the trivia inside. -/
theorem Derives.part?_of_padded {kind : NodeKind} {constant : Bool} {children inner : List Tree}
    (h : Derives (production kind constant) children)
    (hfirst : ∃ t ∈ (allLeaves inner).head?, t.isTrivia = false)
    (hinner : Padded inner children)
    (hparts : (Tree.parts inner).filter (!·.isTrivia) = Tree.parts children) :
    (node kind inner).part? = (node kind children).part? := by
  obtain ⟨first, hhead, hfirst⟩ := hfirst
  by_cases hkind : kind ∈ scalarRules
  · obtain ⟨token, rfl⟩ := eq_leaf_of_scalarRules hkind h
    cases hinner with
    | @leaf trivia _ trees _ htrivia htoken hrest =>
      cases hrest
      cases trivia with
      | nil => rfl
      | cons t trivia =>
        cases hhead
        simp [htrivia first] at hfirst
  · have hleaves : allLeaves children = (allLeaves inner).filter (!·.isTrivia) := by
      rw [← hinner.allWithoutTrivia_eq, allLeaves_allWithoutTrivia]
      rfl
    rw [part?_node, part?_node]
    refine Part.ofNode?_congr ?_ ?_ ?_ hkind
    · rw [map_first_parts, map_first_parts, hleaves, head?_filter_of_head?]
      rintro t ht
      cases hhead.symm.trans ht
      simpa using hfirst
    · rw [map_last_parts, map_last_parts, hleaves, ← List.head?_reverse, ← List.head?_reverse,
        ← List.filter_reverse, head?_filter_of_head?]
      intro t ht
      rw [List.head?_reverse] at ht
      simp [hinner.isTrivia_of_getLast? t ht]
    · rw [← hparts, List.filter_filter]
      simp only [Bool.and_self]

/-- Trees with trivia say what they say without. -/
theorem Derives.parts_of_padded {pattern : Pattern} {plain trees : List Tree}
    (h : Derives pattern plain) (hpadded : Padded trees plain) :
    (Tree.parts trees).filter (!·.isTrivia) = Tree.parts plain := by
  induction h generalizing trees with
  | empty | absent | done =>
    cases hpadded
    rfl
  | token _ =>
    cases hpadded with
    | leaf htrivia htoken hrest =>
      cases hrest
      rw [parts_append, List.filter_append, parts_map_leaf htrivia, List.nil_append]
      exact List.filter_cons_of_pos (by simp [Part.isTrivia, Item.isTrivia, htoken])
  | @rule kind constant children hchildren ih =>
    cases hpadded with
    | @node trivia _ inner _ _ _ htrivia hfirst hinner hrest =>
      cases hrest
      have hnode := hchildren.part?_of_padded hfirst hinner (ih hinner)
      rw [parts_append, List.filter_append, parts_map_leaf htrivia, List.nil_append, parts_cons,
        parts_cons, hnode, parts_nil, List.append_nil, List.filter_eq_self]
      intro part hpart
      simp [isTrivia_part?_node part (Option.mem_toList.mp hpart)]
  | left _ ih | right _ ih | present _ ih => exact ih hpadded
  | both _ _ ihfirst ihsecond | more _ _ ihfirst ihsecond =>
    obtain ⟨front, back, rfl, hfront, hback⟩ := padded_append_iff.mp hpadded
    rw [parts_append, List.filter_append, ihfirst hfront, ihsecond hback, parts_append]

end Grammar

/-! ## Documents -/

def Tree.definitions (trees : List Tree) : List Definition :=
  ((parts trees).map (·.item)).filterMap Item.definition?

theorem Document.definitions_executable (document : Document) :
    document.executable.definitions = Tree.definitions document.children := by
  rw [executable, pushParts_reverse, Tree.definitions]

/-- A document says the definitions of its derivation. -/
theorem Document.definitions_of_derives {tokens : List Token} {children : List Tree}
    (h : Grammar.Derives (Grammar.production .document false) children)
    (htokens : significant tokens = allLeaves children) :
    (Document.mk (assemble tokens (allEvents [.node .document children]))).executable.definitions =
      Tree.definitions children := by
  obtain ⟨added, trailing, hassemble, hadded, htrailing, -⟩ :=
    assemble_padded (h.proper (Grammar.production_isInner _ _)) htokens
  have hparts : (parts (added ++ trailing.map leaf)).filter (!·.isTrivia) = parts children := by
    rw [parts_append, List.filter_append, parts_map_leaf htrailing, List.append_nil,
      h.parts_of_padded hadded]
  have hitems : ((parts (added ++ trailing.map leaf)).map (·.item)).filter (!·.isTrivia) =
      (parts children).map (·.item) := by
    rw [← hparts, List.filter_map]
    rfl
  rw [definitions_executable, hassemble, Tree.definitions, Tree.definitions, ← hitems,
    Item.filterMap_significant fun _ _ => rfl]

end GuardedQuery

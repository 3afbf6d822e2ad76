import GuardedQuery.Proofs.Parse.Traversal

/-! # Fields and their nodes

A walk leaves out what stands inside variable definitions, and no field stands there.  So the
fields that are visited are those of the field nodes of the tree, wherever they stand.

- `Tree.nodes`: all nodes of a tree in pre-order.
- `Tree.ownName?`: the name that a node has of its own.
- `Grammar.Derives.reached_of_padded`: a walk comes to all field nodes.
- `Document.names_fieldNodes`: fields are visited once each and in order.
-/

namespace GuardedQuery

def Visit.field? : Visit → Option Field
  | field f => some f
  | _ => none

/-- What a node says is no token, and so no name. -/
theorem Item.name?_getD_ofNode? (kind : NodeKind) (range : ByteRange) (head : Token)
    (items : List Item) : ((ofNode? kind range head items).getD .nothing).name? = none := by
  cases hitem : ofNode? kind range head items with
  | none => rfl
  | some item =>
    cases item with
    | token t => exact (ofNode?_ne_token kind range head t items hitem).elim
    | _ => rfl

namespace Tree

/-! ## Nodes -/

mutual

def nodes : Tree → List Tree
  | leaf _ => []
  | node kind children => node kind children :: allNodes children

def allNodes : List Tree → List Tree
  | [] => []
  | tree :: trees => nodes tree ++ allNodes trees

end

theorem allNodes_append (trees more : List Tree) :
    allNodes (trees ++ more) = allNodes trees ++ allNodes more := by
  induction trees with
  | nil => rfl
  | cons tree trees ih => rw [List.cons_append, allNodes, ih, allNodes, List.append_assoc]

theorem allNodes_map_leaf (tokens : List Token) : allNodes (tokens.map leaf) = [] := by
  induction tokens with
  | nil => rfl
  | cons token tokens ih => rw [List.map_cons, allNodes, ih, nodes, List.append_nil]

/-! ## Names -/

def nameLeaf? : Tree → Option Token
  | leaf token => if token.kind = .name then some token else none
  | node _ _ => none

/-- The first name among the tokens that belong to a node and to no node inside it.  A field
has its name so, but the other name for its result is inside a node. -/
def ownName? : Tree → Option Token
  | leaf _ => none
  | node _ children => children.findSome? nameLeaf?

theorem bind_name?_part? (tree : Tree) :
    tree.part?.bind (fun part => part.item.name?) = tree.nameLeaf? := by
  cases tree with
  | leaf token => rfl
  | node kind children =>
    rw [part?_node, Part.ofNode?]
    split
    · exact Item.name?_getD_ofNode? _ _ _ _
    · rfl

/-- The first name in what the children of a node say is its own. -/
theorem getElem?_names_parts (kind : NodeKind) (children : List Tree) :
    (((parts children).map (·.item)).filterMap Item.name?)[0]? =
      (node kind children).ownName? := by
  rw [parts, List.filterMap_map, List.filterMap_filterMap, ← List.head?_eq_getElem?,
    List.head?_filterMap, ownName?]
  exact congrArg (children.findSome? ·) (funext bind_name?_part?)

end Tree

/-! ## Field nodes are walked to -/

namespace Grammar

open Pattern GuardedQuery.Tree

def selectingRules : List NodeKind :=
  [.document, .operationDefinition, .fragmentDefinition, .selectionSet, .field, .inlineFragment]

def Pattern.isFieldless : Pattern → Bool
  | empty | token _ => true
  | rule kind _ => !selectingRules.contains kind
  | both first second => first.isFieldless && second.isFieldless
  | either left right => left.isFieldless && right.isFieldless
  | optional pattern | many pattern => pattern.isFieldless

theorem production_isFieldless {kind : NodeKind} (h : selectingRules.contains kind = false)
    (constant : Bool) : (production kind constant).isFieldless = true := by
  cases constant <;> cases kind <;> first | rfl | cases h

end Grammar

namespace Tree

/-- A walk comes to all field nodes of the trees, and if these are `fieldless` there are
none. -/
structure Reached (fieldless : Bool) (trees : List Tree) : Prop where
  filter_eq :
    (allNodes trees).filter (·.isNode .field) = (allWalkedNodes trees).filter (·.isNode .field)
  filter_eq_nil (h : fieldless = true) : (allNodes trees).filter (·.isNode .field) = []

namespace Reached

variable {first second : Bool} {trees more inner : List Tree} {kind : NodeKind}

theorem mono (h : Reached first trees) (hle : second = true → first = true) :
    Reached second trees :=
  ⟨h.filter_eq, fun hsecond => h.filter_eq_nil (hle hsecond)⟩

theorem map_leaf (fieldless : Bool) (tokens : List Token) :
    Reached fieldless (tokens.map leaf) := by
  constructor
  · rw [allNodes_map_leaf, allWalkedNodes_map_leaf]
  · rw [allNodes_map_leaf]
    exact fun _ => rfl

theorem append (h : Reached first trees) (hmore : Reached second more) :
    Reached (first && second) (trees ++ more) := by
  constructor
  · rw [allNodes_append, allWalkedNodes_append, List.filter_append, List.filter_append,
      h.filter_eq, hmore.filter_eq]
  · intro hboth
    rw [Bool.and_eq_true] at hboth
    rw [allNodes_append, List.filter_append, h.filter_eq_nil hboth.1,
      hmore.filter_eq_nil hboth.2, List.append_nil]

/-- A walk stays outside variable definitions, which hold no field. -/
theorem node {constant : Bool} (h : Reached (Grammar.production kind constant).isFieldless inner) :
    Reached (!Grammar.selectingRules.contains kind) [.node kind inner] := by
  have hnodes : allNodes [.node kind inner] = .node kind inner :: allNodes inner := by
    rw [allNodes, nodes, allNodes, List.append_nil]
  have hwalked : allWalkedNodes [.node kind inner] =
      .node kind inner :: if kind = .variableDefinition then [] else allWalkedNodes inner := by
    rw [allWalkedNodes, walkedNodes, allWalkedNodes, List.append_nil]
  have hinside (hkind : Grammar.selectingRules.contains kind = false) :=
    h.filter_eq_nil (Grammar.production_isFieldless hkind constant)
  constructor
  · rw [hnodes, hwalked, List.filter_cons, List.filter_cons]
    by_cases hkind : kind = .variableDefinition
    · subst hkind
      rw [hinside rfl, if_pos rfl, List.filter_nil]
    · rw [if_neg hkind, h.filter_eq]
  · intro hfieldless
    have hkind : Grammar.selectingRules.contains kind = false := by simpa using hfieldless
    have hother : isNode .field (.node kind inner) = false := by
      rw [isNode, decide_eq_false_iff_not]
      rintro rfl
      cases hkind
    rw [hnodes, List.filter_cons, hother, hinside hkind]
    rfl

end Reached

end Tree

namespace Grammar

open Pattern GuardedQuery.Tree

variable {pattern : Pattern} {plain trees : List Tree}

/-- A walk comes to all field nodes of derived trees, trivia between their tokens or not. -/
theorem Derives.reached_of_padded (h : Derives pattern plain) (hpadded : Padded trees plain) :
    Reached pattern.isFieldless trees := by
  induction h generalizing trees with
  | empty | absent | done =>
    cases hpadded
    exact .map_leaf _ []
  | @token _ token _ =>
    cases hpadded with
    | @leaf trivia _ _ _ _ _ hrest =>
      cases hrest
      have hleaves := Reached.map_leaf true (trivia ++ [token])
      rwa [List.map_append] at hleaves
  | rule _ ih =>
    cases hpadded with
    | @node trivia _ _ _ _ _ _ _ hinner hrest =>
      cases hrest
      exact (Reached.map_leaf true trivia).append (.node (ih hinner))
  | left _ ih =>
    refine (ih hpadded).mono fun hboth => ?_
    rw [isFieldless, Bool.and_eq_true] at hboth
    exact hboth.1
  | right _ ih =>
    refine (ih hpadded).mono fun hboth => ?_
    rw [isFieldless, Bool.and_eq_true] at hboth
    exact hboth.2
  | present _ ih => exact ih hpadded
  | both _ _ ihfirst ihsecond =>
    obtain ⟨front, back, rfl, hfront, hback⟩ := padded_append_iff.mp hpadded
    exact (ihfirst hfront).append (ihsecond hback)
  | more _ _ ih ihmore =>
    obtain ⟨front, back, rfl, hfront, hback⟩ := padded_append_iff.mp hpadded
    have hboth := (ih hfront).append (ihmore hback)
    rwa [isFieldless, Bool.and_self] at hboth

end Grammar

/-! ## Visited fields -/

/-- The visits in front of a field and behind it. -/
theorem Visit.exists_split {visits : List Visit} {n : Nat} {field : Field}
    (h : (visits.filterMap field?)[n]? = some field) :
    ∃ before rest, visits = before ++ .field field :: rest ∧
      (before.filterMap field?).length = n := by
  induction visits generalizing n with
  | nil => cases h
  | cons next visits ih =>
    have hlater {n : Nat} (h : (visits.filterMap field?)[n]? = some field) :
        ∃ before rest, next :: visits = before ++ .field field :: rest ∧
          (before.filterMap field?).length = n + next.field?.toList.length := by
      obtain ⟨before, rest, rfl, hbefore⟩ := ih h
      refine ⟨next :: before, rest, rfl, ?_⟩
      cases hnext : next.field? <;> simp [hnext, hbefore]
    cases next with
    | field f =>
      cases n with
      | zero =>
        cases h
        exact ⟨[], visits, rfl, rfl⟩
      | succ n => exact hlater h
    | _ => exact hlater h

theorem Visit.field?_eq_none {visit : Visit} (h : visit.callback ≠ .field) :
    visit.field? = none := by
  cases visit with
  | field f => exact absurd rfl h
  | _ => rfl

theorem NodeKind.field_notMem_callbacks {kind : NodeKind} (h : kind ≠ .field) :
    Callback.field ∉ kind.callbacks := by
  revert h
  cases kind <;> decide

/-- What a field node says, if it says a field, has the first name there. -/
theorem Item.getElem?_names_of_shown {range : ByteRange} {head : Token} {items : List Item}
    {field : Field} (h : ((ofNode? .field range head items).getD .nothing).shown = [.field field]) :
    (items.filterMap name?)[0]? = some field.name := by
  rw [ofNode?] at h
  cases hname : (items.filterMap name?)[0]? with
  | none =>
    rw [hname] at h
    cases h
  | some name =>
    rw [hname] at h
    cases h
    rfl

namespace Tree

/-- The field that is shown at a node has the name of the node. -/
theorem ownName?_of_shown {children : List Tree} {field : Field}
    (h : (node .field children).shown = [.field field]) :
    (node .field children).ownName? = some field.name := by
  rw [shown, part?_node, Part.ofNode?] at h
  rw [← getElem?_names_parts]
  split at h
  · exact Item.getElem?_names_of_shown h
  · cases h

/-- A field is visited at a node exactly if it is a field node, and it has the node's name. -/
theorem names_shown {tree : Tree}
    (h : tree.shown.map (fun visit => (visit.callback, some visit.range)) =
      tree.callbacks.map (·, tree.range?)) :
    (tree.shown.filterMap Visit.field?).map (fun field => some field.name) =
      if tree.isNode .field then [tree.ownName?] else [] := by
  have hcallbacks : tree.shown.map Visit.callback = tree.callbacks := by
    have hfirst := congrArg (List.map Prod.fst) h
    simpa [Function.comp_def] using hfirst
  cases tree with
  | leaf token => rfl
  | node kind children =>
    by_cases hkind : kind = .field
    · subst hkind
      obtain ⟨visit, hshown, hcallback⟩ := List.map_eq_singleton_iff.1 hcallbacks
      cases visit with
      | field field => simp [hshown, isNode, Visit.field?, ownName?_of_shown hshown]
      | _ => cases hcallback
    · have hnone : (node kind children).shown.filterMap Visit.field? = [] := by
        rw [List.filterMap_eq_nil_iff]
        intro visit hvisit
        refine Visit.field?_eq_none fun hfield => NodeKind.field_notMem_callbacks hkind ?_
        have hmem := List.mem_map_of_mem (f := Visit.callback) hvisit
        rwa [hcallbacks, hfield] at hmem
      simp [hnone, isNode, hkind]

end Tree

namespace Document

variable {limits : Limits} {source : Source} {document : Document}

def fieldNodes (document : Document) : List Tree :=
  document.tree.nodes.filter (·.isNode .field)

/-- A walk comes to all field nodes. -/
theorem fieldNodes_of_parse (h : parse limits source = .ok document) :
    document.fieldNodes =
      (Tree.allWalkedNodes document.children).filter (·.isNode .field) := by
  obtain ⟨children, hderives, htokens, rfl⟩ := parse_trusted_eq_ok_iff.1 (parse_trusted_of_parse h)
  obtain ⟨added, trailing, hassemble, hadded, -⟩ :=
    assemble_padded (hderives.proper (Grammar.production_isInner _ _)) htokens
  have hreached := (hderives.reached_of_padded hadded).append
    (Tree.Reached.map_leaf true trailing)
  simp only [fieldNodes, tree, Tree.nodes, hassemble]
  exact hreached.filter_eq

/-- The fields that are visited, one for each field node and in their order, with its name. -/
theorem names_fieldNodes (h : parse limits source = .ok document) :
    (document.executable.visits.filterMap Visit.field?).map (fun field => some field.name) =
      document.fieldNodes.map Tree.ownName? := by
  obtain ⟨hvisits, hentries⟩ := visits_of_parse h
  rw [hvisits, fieldNodes_of_parse h, List.filterMap_cons_none rfl, List.filterMap_flatMap,
    List.map_flatMap, List.flatMap_congr fun node hnode => Tree.names_shown (hentries node hnode)]
  induction Tree.allWalkedNodes document.children with
  | nil => rfl
  | cons node nodes ih =>
    rw [List.flatMap_cons, List.filter_cons, ih]
    split <;> rfl

theorem length_fieldNodes (h : parse limits source = .ok document) :
    (document.executable.visits.filterMap Visit.field?).length = document.fieldNodes.length := by
  simpa using congrArg List.length (names_fieldNodes h)

/-- What is visited in front of the field of a node, and behind it. -/
theorem exists_split_of_fieldNodes (h : parse limits source = .ok document) {n : Nat} {node : Tree}
    (hnode : document.fieldNodes[n]? = some node) :
    ∃ field before rest, document.executable.visits = before ++ .field field :: rest ∧
      node.ownName? = some field.name ∧ (before.filterMap Visit.field?).length = n := by
  have hnames := congrArg (·[n]?) (names_fieldNodes h)
  simp only [List.getElem?_map, hnode, Option.map_some] at hnames
  obtain ⟨field, hfield, hname⟩ := Option.map_eq_some_iff.1 hnames
  obtain ⟨before, rest, hvisits, hbefore⟩ := Visit.exists_split hfield
  exact ⟨field, before, rest, hvisits, hname.symm, hbefore⟩

end Document

end GuardedQuery

import GuardedQuery.Proofs.Executable.Forms
import GuardedQuery.Proofs.Executable.Visiting

/-! # Visits and nodes

Every visit of a document belongs to one of its nodes, and what a visitor is shown for a
node is what the node says.

- `Callback`: what a visitor can be called for; a variable is a value first.
- `Tree.walkedNodes`: the nodes in pre-order, without those inside variable definitions.
- `Item.Composes.visits_eq`: the visits of a node are its own and then those of its children.
- `Tree.Displays`: nodes whose visits are those of some items, each with the callbacks and
  the range of its node.
- `Grammar.Derives.displays_of_padded`: the nodes of derived trees display what they say.
-/

namespace GuardedQuery

inductive Callback where
  | document
  | operation
  | fragment
  | variableDefinition
  | selectionSet
  | field
  | spread
  | inline
  | value
  | variable
deriving Repr, DecidableEq

def Visit.callback : Visit → Callback
  | document _ => .document
  | operation _ => .operation
  | fragment _ => .fragment
  | variableDefinition _ => .variableDefinition
  | selectionSet _ => .selectionSet
  | field _ => .field
  | spread _ => .spread
  | inline _ => .inline
  | value _ => .value
  | use _ => .variable

def NodeKind.callbacks : NodeKind → List Callback
  | document => [.document]
  | operationDefinition => [.operation]
  | fragmentDefinition => [.fragment]
  | variableDefinition => [.variableDefinition]
  | selectionSet => [.selectionSet]
  | field => [.field]
  | fragmentSpread => [.spread]
  | inlineFragment => [.inline]
  | variableRef => [.value, .variable]
  | intValue | floatValue | stringValue | booleanValue | nullValue | enumValue | listValue
  | objectValue => [.value]
  | variableDefinitions | defaultValue | typeRef | namedType | listType | fieldAlias | arguments
  | argument | typeCondition | directives | directive | objectField => []

namespace Tree

def callbacks : Tree → List Callback
  | leaf _ => []
  | node kind _ => kind.callbacks

mutual

/-- The nodes of a tree in pre-order.  What stands inside a variable definition is left out. -/
def walkedNodes : Tree → List Tree
  | leaf _ => []
  | node kind children =>
    node kind children :: if kind = .variableDefinition then [] else allWalkedNodes children

def allWalkedNodes : List Tree → List Tree
  | [] => []
  | tree :: trees => walkedNodes tree ++ allWalkedNodes trees

end

theorem allWalkedNodes_append (trees more : List Tree) :
    allWalkedNodes (trees ++ more) = allWalkedNodes trees ++ allWalkedNodes more := by
  induction trees with
  | nil => rfl
  | cons tree trees ih =>
    rw [List.cons_append, allWalkedNodes, ih, allWalkedNodes, List.append_assoc]

theorem allWalkedNodes_map_leaf (tokens : List Token) : allWalkedNodes (tokens.map leaf) = [] := by
  induction tokens with
  | nil => rfl
  | cons token tokens ih => rw [List.map_cons, allWalkedNodes, ih, walkedNodes, List.append_nil]

/-! ## Ranges -/

mutual

theorem firstToken?_eq : ∀ tree : Tree, tree.firstToken? = tree.leaves.head?
  | leaf _ => rfl
  | node _ children => by rw [firstToken?, firstOfAll?_eq children, leaves_node]

theorem firstOfAll?_eq : ∀ trees : List Tree, firstOfAll? trees = (allLeaves trees).head?
  | [] => rfl
  | tree :: trees => by
    rw [firstOfAll?, firstToken?_eq tree, firstOfAll?_eq trees, allLeaves_cons, List.head?_append]
    cases tree.leaves.head? <;> rfl

end

mutual

theorem lastTokenFrom_eq (before : Option Token) :
    ∀ tree : Tree, lastTokenFrom before tree = tree.leaves.getLast?.or before
  | leaf _ => rfl
  | node _ children => by rw [lastTokenFrom, lastOfAllFrom_eq before children, leaves_node]

theorem lastOfAllFrom_eq (before : Option Token) :
    ∀ trees : List Tree, lastOfAllFrom before trees = (allLeaves trees).getLast?.or before
  | [] => rfl
  | tree :: trees => by
    rw [lastOfAllFrom, lastOfAllFrom_eq _ trees, lastTokenFrom_eq before tree, allLeaves_cons,
      List.getLast?_append, Option.or_assoc]

end

theorem range?_eq (tree : Tree) :
    tree.range? = tree.leaves.head?.bind fun first =>
      tree.leaves.getLast?.map fun last => ⟨first.start, last.stop⟩ := by
  rw [range?, firstToken?_eq, lastTokenFrom_eq, Option.or_none]
  cases tree.leaves.head? <;> cases tree.leaves.getLast? <;> rfl

theorem range?_of_part? {tree : Tree} {part : Part} (h : tree.part? = some part) :
    tree.range? = some ⟨part.first.start, part.last.stop⟩ := by
  rw [range?_eq, ← map_first_part?, ← map_last_part?, h]
  rfl

end Tree

/-! ## What a node shows -/

namespace Item

/-- What a visitor is called with for the node that says the item. -/
def shown : Item → List Visit
  | definition (.operation o) => [.operation o]
  | definition (.fragment f) => [.fragment f]
  | variableDefinition d => [.variableDefinition d]
  | selectionSet set => [.selectionSet set.range]
  | selection (.field f _) => [.field f]
  | selection (.spread s) => [.spread s]
  | selection (.inline i _) => [.inline i]
  | value (.reference target) => [.value target.range, .use target]
  | value v => [.value v.range]
  | _ => []

def visits : Item → List Visit
  | definition d => d.visits
  | variableDefinitions definitions => definitions.map .variableDefinition
  | variableDefinition d => [.variableDefinition d]
  | selectionSet set => set.visits
  | selection s => s.visits
  | arguments values => values.flatMap Argument.visits
  | argument a => a.visits
  | directives ds => ds.flatMap Directive.visits
  | directive d => d.visits
  | default v => v.visits
  | value v => v.visits
  | objectField f => f.visits
  | token _ | label _ | typeName _ | nothing => []

variable {range : ByteRange} {head : Token} {kind : NodeKind} {items : List Item} {item : Item}

theorem flatMap_visits_directives (directives : Option (List Directive)) :
    (optional .directives directives).flatMap visits = Directive.allVisits directives := by
  cases directives <;> simp [optional, visits, Directive.allVisits]

theorem flatMap_visits_arguments (arguments : Option (List Argument)) :
    (optional .arguments arguments).flatMap visits = Argument.allVisits arguments := by
  cases arguments <;> simp [optional, visits, Argument.allVisits]

theorem flatMap_visits_set (set : Option SelectionSet) :
    (optional .selectionSet set).flatMap visits = set.toList.flatMap SelectionSet.visits := by
  cases set <;> simp [optional, visits]

/-- Parts that hold only names have no visits. -/
theorem flatMap_visits_names (form : Token → Item) (h : ∀ name, (form name).visits = [])
    (name : Option Token) : (optional form name).flatMap visits = [] := by
  cases name <;> simp [optional, h]

/-- The visits of a node are its own and then those of its children. -/
theorem Composes.visits_eq (h : Composes range head kind items item) :
    item.visits =
      item.shown ++ if kind = .variableDefinition then [] else items.flatMap Item.visits := by
  cases h with
  | variableDefinition target colon value directives => rfl
  | shorthand set => simp [visits, shown, Definition.visits, Operation.visits, Directive.allVisits]
  | @operation keyword name inputs directives set hkeyword hname =>
    have hvariables : (optional .variableDefinitions inputs).flatMap visits =
        (inputs.getD []).map .variableDefinition := by
      cases inputs <;> simp [optional, visits]
    simp [visits, shown, Definition.visits, Operation.visits, hvariables,
      flatMap_visits_directives, flatMap_visits_names .token fun _ => rfl]
  | fragment condition directives set =>
    simp [visits, shown, Definition.visits, Fragment.visits, flatMap_visits_directives]
  | variableDefinitions opening closing definitions =>
    simp [visits, shown, List.flatMap_map, ← List.map_eq_flatMap]
  | typeRef type bang htype =>
    rcases htype with rfl | ⟨name, rfl⟩ <;>
      simp [visits, shown, flatMap_visits_names .token fun _ => rfl]
  | selectionSet opening closing selections =>
    simp [List.flatMap_map, visits, shown, SelectionSet.range]
  | field label arguments directives set =>
    simp [visits, shown, Field.visits, flatMap_visits_arguments, flatMap_visits_directives,
      flatMap_visits_set, flatMap_visits_names .label fun _ => rfl]
  | arguments opening closing arguments => simp [List.flatMap_map, visits, shown]
  | argument colon value => simp [visits, shown, Argument.visits]
  | fragmentSpread directives => simp [visits, shown, flatMap_visits_directives]
  | inlineFragment dots condition directives set =>
    simp [visits, shown, flatMap_visits_directives, flatMap_visits_names .typeName fun _ => rfl]
  | directives directives => simp [List.flatMap_map, visits, shown]
  | directive arguments =>
    simp [visits, shown, Directive.visits, flatMap_visits_arguments]
  | scalar token hkind => simp [visits, shown, Value.range]
  | listValue opening closing values => simp [List.flatMap_map, visits, shown, Value.range]
  | objectValue opening closing fields => simp [List.flatMap_map, visits, shown, Value.range]
  | objectField colon value => simp [visits, shown]
  | _ => simp [visits, shown]

/-- A node is shown to the callbacks of its kind, with its range. -/
theorem Composes.map_entry_shown (h : Composes range head kind items item) :
    item.shown.map (fun visit => (visit.callback, visit.range)) =
      kind.callbacks.map (·, range) := by
  cases h with
  | scalar token hkind =>
    simp only [Grammar.scalarRules, List.mem_cons, List.not_mem_nil, or_false] at hkind
    rcases hkind with rfl | rfl | rfl | rfl | rfl | rfl <;> rfl
  | _ => rfl

end Item

/-! ## Derived trees -/

def Tree.shown (tree : Tree) : List Visit :=
  (tree.part?.map (·.item.shown)).getD []

namespace Tree

theorem shown_of_part? {tree : Tree} {part : Part} (h : tree.part? = some part) :
    tree.shown = part.item.shown := by
  rw [shown, h]
  rfl

/-- The visits of the items are shown at the nodes, and what is shown at a node goes to the
callbacks of its kind with its range. -/
structure Displays (items : List Item) (nodes : List Tree) : Prop where
  visits_eq : items.flatMap Item.visits = nodes.flatMap shown
  entries_eq : ∀ node ∈ nodes,
    node.shown.map (fun visit => (visit.callback, some visit.range)) =
      node.callbacks.map (·, node.range?)

namespace Displays

variable {items more : List Item} {nodes others inner : List Tree}

theorem nil : Displays [] [] :=
  ⟨rfl, nofun⟩

theorem append (h : Displays items nodes) (hmore : Displays more others) :
    Displays (items ++ more) (nodes ++ others) where
  visits_eq := by rw [List.flatMap_append, List.flatMap_append, h.visits_eq, hmore.visits_eq]
  entries_eq := List.forall_mem_append.2 ⟨h.entries_eq, hmore.entries_eq⟩

/-- A node before the nodes inside it, unless it is a variable definition. -/
theorem node {kind : NodeKind} {first last : Token} {item : Item}
    (hitem : Item.Composes ⟨first.start, last.stop⟩ first kind items item)
    (hpart : (Tree.node kind inner).part? = some ⟨first, last, item⟩)
    (h : Displays items (allWalkedNodes inner)) :
    Displays [item] (walkedNodes (.node kind inner)) where
  visits_eq := by
    rw [List.flatMap_singleton, hitem.visits_eq, h.visits_eq, walkedNodes, List.flatMap_cons,
      shown_of_part? hpart]
    split <;> rfl
  entries_eq := by
    rw [walkedNodes, List.forall_mem_cons]
    constructor
    · have hentries := congrArg (List.map fun entry => (entry.1, some entry.2))
        hitem.map_entry_shown
      rw [List.map_map, List.map_map] at hentries
      rw [shown_of_part? hpart, range?_of_part? hpart]
      exact hentries
    · intro other hother
      split at hother
      · cases hother
      · exact h.entries_eq other hother

end Displays

end Tree

namespace Grammar

open Pattern GuardedQuery.Tree

variable {pattern : Pattern} {plain trees : List Tree}

/-- A derived node says one of the forms, trivia inside or not. -/
theorem Derives.exists_part_of_padded {kind : NodeKind} {constant : Bool}
    {children inner : List Tree} (h : Derives (production kind constant) children)
    (hkind : kind ≠ .document) (hfirst : ∃ t ∈ (allLeaves inner).head?, t.isTrivia = false)
    (hpadded : Padded inner children) :
    ∃ first last item,
      Item.Composes ⟨first.start, last.stop⟩ first kind (Tree.items children) item ∧
      (node kind children).part? = some ⟨first, last, item⟩ ∧
      (node kind inner).part? = some ⟨first, last, item⟩ := by
  obtain ⟨first, last, item, hitem, hpart⟩ := h.exists_part hkind
  refine ⟨first, last, item, hitem, hpart, ?_⟩
  rw [h.part?_of_padded hfirst hpadded (h.parts_of_padded hpadded), hpart]

/-- The nodes of derived trees display what the trees say. -/
theorem Derives.displays_of_padded (h : Derives pattern plain) (hinner : pattern.isInner = true)
    (hpadded : Padded trees plain) : Displays (Tree.items plain) (allWalkedNodes trees) := by
  induction h generalizing trees with
  | empty | absent | done =>
    cases hpadded
    exact .nil
  | token _ =>
    cases hpadded with
    | leaf htrivia htoken hrest =>
      cases hrest
      rw [allWalkedNodes_append, allWalkedNodes_map_leaf]
      exact ⟨rfl, nofun⟩
  | @rule kind constant children hchildren ih =>
    cases hpadded with
    | @node trivia _ inner _ _ _ htrivia hfirst hpadded hrest =>
      cases hrest
      have hkind : kind ≠ .document := by simpa [isInner] using hinner
      obtain ⟨first, last, item, hitem, hplain, hpart⟩ :=
        hchildren.exists_part_of_padded hkind hfirst hpadded
      have hitems : Tree.items [node kind children] = [item] := by
        rw [Tree.items, parts_cons, hplain]
        rfl
      rw [hitems, allWalkedNodes_append, allWalkedNodes_map_leaf, List.nil_append,
        allWalkedNodes, allWalkedNodes, List.append_nil]
      exact .node hitem hpart (ih (production_isInner _ _) hpadded)
  | left _ ih =>
    simp only [isInner, Bool.and_eq_true] at hinner
    exact ih hinner.1 hpadded
  | right _ ih =>
    simp only [isInner, Bool.and_eq_true] at hinner
    exact ih hinner.2 hpadded
  | present _ ih => exact ih hinner hpadded
  | both _ _ ihfirst ihsecond =>
    simp only [isInner, Bool.and_eq_true] at hinner
    obtain ⟨front, back, rfl, hfront, hback⟩ := padded_append_iff.mp hpadded
    rw [items_append, allWalkedNodes_append]
    exact (ihfirst hinner.1 hfront).append (ihsecond hinner.2 hback)
  | more _ _ ih ihmore =>
    obtain ⟨front, back, rfl, hfront, hback⟩ := padded_append_iff.mp hpadded
    rw [items_append, allWalkedNodes_append]
    exact (ih hinner hfront).append (ihmore hinner hback)

end Grammar

end GuardedQuery

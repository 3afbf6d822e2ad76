import GuardedQuery.Proofs.Executable.Reading
import GuardedQuery.Proofs.Relocation.Executable

/-! # Reading moved trees

Reading commutes with moving: what moved trees say is what they said, moved.

- `Item.ofNode?_relocate`: what a node says, moved.
- `Tree.parts_relocateAll`, `Tree.definitions_relocateAll`: what trees say, moved.
-/

namespace GuardedQuery

open GuardedQuery.Tree

/-! ## Items -/

def Item.relocate (r : Relocation) : Item → Item
  | token t => token (t.relocate r)
  | label name => label (name.relocate r)
  | typeName name => typeName (name.relocate r)
  | value v => value (v.relocate r)
  | objectField f => objectField (f.relocate r)
  | argument a => argument (a.relocate r)
  | arguments as => arguments (as.map (Argument.relocate r))
  | directive d => directive (d.relocate r)
  | directives ds => directives (ds.map (Directive.relocate r))
  | default v => default (v.relocate r)
  | variableDefinition d => variableDefinition (d.relocate r)
  | variableDefinitions ds => variableDefinitions (ds.map (VariableDefinition.relocate r))
  | selection s => selection (s.relocate r)
  | selectionSet set => selectionSet (set.relocate r)
  | definition d => definition (d.relocate r)
  | nothing => nothing

def Part.relocate (r : Relocation) (part : Part) : Part :=
  ⟨part.first.relocate r, part.last.relocate r, part.item.relocate r⟩

variable {r : Relocation}

theorem Value.relocateAll_eq_map (values : List Value) :
    Value.relocateAll r values = values.map (Value.relocate r) := by
  induction values with
  | nil => rfl
  | cons value values ih => rw [Value.relocateAll, List.map_cons, ih]

theorem ObjectField.relocateAll_eq_map (fields : List ObjectField) :
    ObjectField.relocateAll r fields = fields.map (ObjectField.relocate r) := by
  induction fields with
  | nil => rfl
  | cons field fields ih => rw [ObjectField.relocateAll, List.map_cons, ih]

theorem Selection.relocateAll_eq_map (selections : List Selection) :
    Selection.relocateAll r selections = selections.map (Selection.relocate r) := by
  induction selections with
  | nil => rfl
  | cons selection selections ih => rw [Selection.relocateAll, List.map_cons, ih]

namespace Item

section choices

variable {α : Type} {choose : Item → Option α} {move : α → α}

/-- A choice that sees no places can be moved afterwards. -/
theorem filterMap_relocate (h : ∀ item, choose (relocate r item) = (choose item).map move)
    (items : List Item) :
    (items.map (relocate r)).filterMap choose = (items.filterMap choose).map move := by
  rw [List.filterMap_map, List.map_filterMap]
  exact congrArg (List.filterMap · items) (funext h)

theorem findSome?_relocate (h : ∀ item, choose (relocate r item) = (choose item).map move)
    (items : List Item) :
    (items.map (relocate r)).findSome? choose = (items.findSome? choose).map move := by
  rw [← List.head?_filterMap, ← List.head?_filterMap, filterMap_relocate h, List.head?_map]

end choices

theorem name?_relocate (item : Item) :
    name? (relocate r item) = (name? item).map (Token.relocate r) := by
  cases item with
  | token t =>
    simp only [relocate, name?, Token.relocate]
    split <;> rfl
  | _ => rfl

theorem text?_relocate (item : Item) : text? (relocate r item) = text? item := by
  cases item <;> rfl

theorem reference?_relocate (item : Item) :
    reference? (relocate r item) = (reference? item).map (Variable.relocate r) := by
  cases item with
  | value v => cases v <;> rfl
  | _ => rfl

/-- What a moved node says. -/
theorem ofNode?_relocate (kind : NodeKind) (range : ByteRange) (head : Token)
    (items : List Item) :
    ofNode? kind (r.range range) (head.relocate r) (items.map (relocate r)) =
      (ofNode? kind range head items).map (relocate r) := by
  have hmap {α : Type} (choose : Item → Option α) (move : α → α)
      (h : ∀ item, choose (relocate r item) = (choose item).map move) :=
    filterMap_relocate h items
  have hfind {α : Type} (choose : Item → Option α) (move : α → α)
      (h : ∀ item, choose (relocate r item) = (choose item).map move) :=
    findSome?_relocate h items
  have htext : (items.map (relocate r)).filterMap text? = items.filterMap text? := by
    rw [List.filterMap_map]
    exact congrArg (List.filterMap · items) (funext text?_relocate)
  simp only [ofNode?, htext, hmap name? _ name?_relocate, hfind reference? _ reference?_relocate,
    hmap value? (Value.relocate r) (by rintro ⟨⟩ <;> rfl),
    hmap objectField? (ObjectField.relocate r) (by rintro ⟨⟩ <;> rfl),
    hmap argument? (Argument.relocate r) (by rintro ⟨⟩ <;> rfl),
    hmap directive? (Directive.relocate r) (by rintro ⟨⟩ <;> rfl),
    hmap variableDefinition? (VariableDefinition.relocate r) (by rintro ⟨⟩ <;> rfl),
    hmap selection? (Selection.relocate r) (by rintro ⟨⟩ <;> rfl),
    hfind label? (Token.relocate r) (by rintro ⟨⟩ <;> rfl),
    hfind typeName? (Token.relocate r) (by rintro ⟨⟩ <;> rfl),
    hfind value? (Value.relocate r) (by rintro ⟨⟩ <;> rfl),
    hfind default? (Value.relocate r) (by rintro ⟨⟩ <;> rfl),
    hfind arguments? (List.map (Argument.relocate r)) (by rintro ⟨⟩ <;> rfl),
    hfind directives? (List.map (Directive.relocate r)) (by rintro ⟨⟩ <;> rfl),
    hfind variableDefinitions? (List.map (VariableDefinition.relocate r)) (by rintro ⟨⟩ <;> rfl),
    hfind selectionSet? (SelectionSet.relocate r) (by rintro ⟨⟩ <;> rfl), List.getElem?_map]
  generalize items.filterMap name? = names
  generalize items.findSome? selectionSet? = set
  generalize items.findSome? value? = value
  cases kind with
  | variableDefinition => cases items.findSome? reference? <;> rfl
  | selectionSet => 
    simp [relocate, SelectionSet.relocate, Selection.relocateAll_eq_map]
  | listValue => simp [relocate, Value.relocate, Value.relocateAll_eq_map]
  | objectValue => simp [relocate, Value.relocate, ObjectField.relocateAll_eq_map]
  | typeCondition => cases items.findSome? typeName? <;> rfl
  | defaultValue => cases value <;> rfl
  | operationDefinition => cases set <;> rfl
  | inlineFragment => cases set <;> rfl
  | fragmentDefinition => 
    cases names[1]? <;> cases items.findSome? typeName? <;> cases set <;> rfl
  | field =>
    cases names[0]?
    · rfl
    · cases set <;> rfl
  | argument => cases names[0]? <;> cases value <;> rfl
  | objectField => cases names[0]? <;> cases value <;> rfl
  | _ => first | rfl | (cases names[0]? <;> rfl)

end Item

/-! ## Trees -/

/-- What a moved node says and where.  Its end is moved with its last token. -/
theorem Part.ofNode?_relocate (kind : NodeKind) {parts : List Part}
    (hfits : ∀ last ∈ parts.getLast?.map (·.last), last.Fits r) :
    ofNode? kind (parts.map (Part.relocate r)) = (ofNode? kind parts).map (Part.relocate r) := by
  rw [ofNode?_eq, ofNode?_eq, List.head?_map, List.getLast?_map]
  cases hfirst : parts.head? with
  | none => rfl
  | some first =>
    cases hlast : parts.getLast? with
    | none => rfl
    | some last =>
      have hrange : (⟨r.start first.first.start, (last.last.relocate r).stop⟩ : ByteRange) =
          r.range ⟨first.first.start, last.last.stop⟩ := by
        rw [Relocation.range, hfits last.last (by rw [hlast]; rfl)]
      have hitems : (parts.map (Part.relocate r)).map (·.item) =
          (parts.map (·.item)).map (Item.relocate r) := by
        rw [List.map_map, List.map_map]
        rfl
      simp only [Option.map_some, Option.bind_some, Part.relocate, Token.start_relocate, hrange,
        hitems, Item.ofNode?_relocate]
      cases Item.ofNode? kind ⟨first.first.start, last.last.stop⟩ first.first
        (parts.map (·.item)) <;> rfl

namespace Tree

mutual

theorem part?_relocate : ∀ tree : Tree, (∀ token ∈ tree.leaves, token.Fits r) →
    (tree.relocate r).part? = tree.part?.map (Part.relocate r)
  | leaf _, _ => rfl
  | node kind children, hfits => by
    rw [leaves_node] at hfits
    rw [relocate, part?_node, part?_node, parts_relocateAll children hfits,
      Part.ofNode?_relocate kind]
    intro last hlast
    rw [map_last_parts] at hlast
    exact hfits last (List.mem_of_getLast? hlast)

/-- What moved trees say. -/
theorem parts_relocateAll : ∀ trees : List Tree, (∀ token ∈ allLeaves trees, token.Fits r) →
    parts (relocateAll r trees) = (parts trees).map (Part.relocate r)
  | [], _ => rfl
  | tree :: trees, hfits => by
    rw [allLeaves_cons, List.forall_mem_append] at hfits
    rw [relocateAll, parts_cons, parts_cons, part?_relocate tree hfits.1,
      parts_relocateAll trees hfits.2, List.map_append, Option.toList_map]

end

theorem definitions_relocateAll {trees : List Tree}
    (hfits : ∀ token ∈ allLeaves trees, token.Fits r) :
    definitions (relocateAll r trees) = (definitions trees).map (Definition.relocate r) := by
  have hitems : ((parts trees).map (Part.relocate r)).map (·.item) =
      ((parts trees).map (·.item)).map (Item.relocate r) := by
    rw [List.map_map, List.map_map]
    rfl
  rw [definitions, definitions, parts_relocateAll trees hfits, hitems]
  exact Item.filterMap_relocate (by rintro ⟨⟩ <;> rfl) _

end Tree

end GuardedQuery

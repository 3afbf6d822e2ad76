import GuardedQuery.Proofs.Executable.Nodes
import GuardedQuery.Proofs.Executable.Uses
import GuardedQuery.Proofs.Parse.Traversal
import GuardedQuery.Proofs.Parse.Trivia

/-! # Spreads and uses have places of their own

What a document says is read off tokens that lie apart, so no two spreads and no two used
variables have one range, and a constant holds no variable.

- `ByteRange.Laid`: ranges in order that do not overlap.
- `Item.places`: the ranges of the spread names and the used variables in an item.
- `Grammar.Derives.uses_of_isConstant`: constants use nothing.
- `Tree.Orderly`: the places of some trees are laid out as their leaves are.
- `Document.distinct_of_parse`: what follows for an accepted document.
-/

namespace GuardedQuery

/-! ## Ranges in order -/

namespace ByteRange

/-- The ranges lie between the two offsets, one behind the other, and none is empty. -/
def Laid : Nat → Nat → List ByteRange → Prop
  | low, high, [] => low ≤ high
  | low, high, range :: ranges =>
    low ≤ range.start ∧ range.start < range.stop ∧ Laid range.stop high ranges

namespace Laid

variable {low high : Nat} {ranges more : List ByteRange}

theorem le (h : Laid low high ranges) : low ≤ high := by
  induction ranges generalizing low with
  | nil => exact h
  | cons range ranges ih =>
    have hrest := ih h.2.2
    have hfirst := h.1
    have hrange := h.2.1
    omega

theorem mono {lower : Nat} (h : Laid low high ranges) (hlow : lower ≤ low) :
    Laid lower high ranges := by
  cases ranges with
  | nil => exact Nat.le_trans hlow h
  | cons range ranges => exact ⟨Nat.le_trans hlow h.1, h.2⟩

theorem append_iff :
    Laid low high (ranges ++ more) ↔
      ∃ middle, Laid low middle ranges ∧ Laid middle high more := by
  induction ranges generalizing low with
  | nil =>
    constructor
    · intro h
      exact ⟨low, Nat.le_refl low, h⟩
    · rintro ⟨middle, hlow, h⟩
      exact h.mono hlow
  | cons range ranges ih =>
    simp only [List.cons_append, Laid, ih]
    constructor
    · rintro ⟨hlow, hrange, middle, hrest, hmore⟩
      exact ⟨middle, ⟨hlow, hrange, hrest⟩, hmore⟩
    · rintro ⟨middle, ⟨hlow, hrange, hrest⟩, hmore⟩
      exact ⟨hlow, hrange, middle, hrest, hmore⟩

theorem sublist (h : Laid low high ranges) (hsublist : more.Sublist ranges) :
    Laid low high more := by
  induction hsublist generalizing low with
  | slnil => exact h
  | cons range _ ih =>
    have hfirst := h.1
    have hrange := h.2.1
    exact (ih h.2.2).mono (by omega)
  | cons_cons range _ ih => exact ⟨h.1, h.2.1, ih h.2.2⟩

/-- From the start of the first range to the end of the last one. -/
theorem hull {first last : ByteRange} (h : Laid low high ranges)
    (hfirst : ranges.head? = some first) (hlast : ranges.getLast? = some last) :
    Laid low high [⟨first.start, last.stop⟩] := by
  obtain ⟨front, rfl⟩ := List.getLast?_eq_some_iff.1 hlast
  obtain ⟨middle, hfront, hle, hrange, hhigh⟩ := append_iff.1 h
  cases front with
  | nil =>
    cases hfirst
    exact ⟨Nat.le_trans hfront hle, hrange, hhigh⟩
  | cons range front =>
    cases hfirst
    have hmiddle := hfront.2.2.le
    have hstart := hfront.2.1
    refine ⟨hfront.1, ?_, hhigh⟩
    change first.start < last.stop
    omega

theorem start_le (h : Laid low high ranges) : ∀ range ∈ ranges, low ≤ range.start := by
  induction ranges generalizing low with
  | nil => exact fun _ hrange => absurd hrange List.not_mem_nil
  | cons first ranges ih =>
    rw [List.forall_mem_cons]
    refine ⟨h.1, fun range hrange => ?_⟩
    have hstart := ih h.2.2 range hrange
    have hfirst := h.1
    have hle := h.2.1
    omega

theorem nodup (h : Laid low high ranges) : ranges.Nodup := by
  induction ranges generalizing low with
  | nil => exact List.nodup_nil
  | cons first ranges ih =>
    rw [List.nodup_cons]
    refine ⟨fun hmem => ?_, ih h.2.2⟩
    have hstart := h.2.2.start_le first hmem
    have hle := h.2.1
    omega

end Laid

end ByteRange

open ByteRange (Laid)

theorem Spaced.laid {offset : Nat} {tokens : List Token} (h : Spaced offset tokens) :
    ∃ high, Laid offset high (tokens.map Token.range) := by
  induction tokens generalizing offset with
  | nil => exact ⟨offset, Nat.le_refl offset⟩
  | cons token tokens ih =>
    obtain ⟨hstart, htext, hrest⟩ := h
    obtain ⟨high, hlaid⟩ := ih hrest
    have hsize : token.text.utf8ByteSize ≠ 0 := by simpa using htext
    refine ⟨high, hstart, ?_, hlaid⟩
    change token.start < token.start + token.text.utf8ByteSize
    omega

/-! ## Places of items -/

def Visit.place? : Visit → Option ByteRange
  | spread s => some s.name.range
  | use target => some target.range
  | _ => none

namespace Item

/-- The ranges of the names that are spread and of the variables that are used, in order.
A token is its own place, for it may become one of these. -/
def places : Item → List ByteRange
  | token t => [t.range]
  | item => item.visits.filterMap Visit.place?

theorem filterMap_visits_sublist (item : Item) :
    (item.visits.filterMap Visit.place?).Sublist item.places := by
  cases item with
  | token t => exact List.nil_sublist _
  | _ => exact List.Sublist.refl _

theorem filterMap_flatMap_visits_sublist (items : List Item) :
    ((items.flatMap visits).filterMap Visit.place?).Sublist (items.flatMap places) := by
  induction items with
  | nil => exact List.Sublist.refl _
  | cons item items ih =>
    rw [List.flatMap_cons, List.filterMap_append, List.flatMap_cons]
    exact (filterMap_visits_sublist item).append ih

variable {range : ByteRange} {head : Token} {kind : NodeKind} {items : List Item} {item : Item}

/-- The places of a node are among those of its children, unless it is a used variable. -/
theorem Composes.places_sublist (h : Composes range head kind items item) :
    item.places.Sublist (items.flatMap places) ∨ item.places = [range] := by
  have hinner := filterMap_flatMap_visits_sublist items
  have hplaces : item.places = item.visits.filterMap Visit.place? := by
    cases h <;> rfl
  have hsilent (hshown : item.shown.filterMap Visit.place? = []) :
      item.places.Sublist (items.flatMap places) := by
    rw [hplaces, h.visits_eq, List.filterMap_append, hshown, List.nil_append]
    split
    · exact List.nil_sublist _
    · exact hinner
  cases h with
  | variableRef hdollar hname => exact .inr rfl
  | fragmentSpread directives =>
    have hdirectives := filterMap_flatMap_visits_sublist (optional .directives directives)
    rw [flatMap_visits_directives] at hdirectives
    left
    rw [hplaces, visits, Selection.visits_spread]
    exact .cons _ (.cons_cons _ hdirectives)
  | _ => exact .inl (hsilent rfl)

/-- Variables are used at their references only. -/
theorem Composes.uses_shown (h : Composes range head kind items item)
    (hkind : kind ≠ .variableRef) : item.shown.filterMap Visit.use? = [] := by
  cases h with
  | variableRef => exact absurd rfl hkind
  | _ => rfl

/-- Variable definitions are shown at their own nodes only. -/
theorem Composes.variableDefinition_notMem_shown (h : Composes range head kind items item)
    (hkind : kind ≠ .variableDefinition) (definition : VariableDefinition) :
    Visit.variableDefinition definition ∉ item.shown := by
  cases h with
  | variableDefinition => exact absurd rfl hkind
  | _ => simp [shown]

/-- Behind its variable, a colon and a type a variable definition has its default and its
directives. -/
theorem Composes.exists_of_variableDefinition {definition : VariableDefinition}
    (h : Composes range head .variableDefinition items (.variableDefinition definition)) :
    ∃ target colon, items = .value (.reference target) :: .token colon :: .nothing ::
      (optional .default definition.default ++ optional .directives definition.directives) := by
  cases h with
  | variableDefinition target colon value directives => exact ⟨target, colon, rfl⟩

/-- What a variable definition uses is used in its default and its directives. -/
theorem uses_of_variableDefinition (definition : VariableDefinition) :
    ((optional .default definition.default ++
      optional .directives definition.directives).flatMap visits).filterMap Visit.use? =
        definition.uses := by
  have hdefault : (optional .default definition.default).flatMap visits =
      definition.default.toList.flatMap Value.visits := by
    cases definition.default <;> simp [optional, visits]
  have hvalue := Visit.Shows.flatMap_uses Value.shows_visits definition.default.toList
  rw [List.flatMap_append, List.filterMap_append, hdefault, flatMap_visits_directives,
    hvalue.uses_eq, (Directive.shows_allVisits definition.directives).uses_eq]
  rfl

end Item

/-! ## Constants -/

namespace Grammar

open Pattern GuardedQuery.Tree

def constantRules : List NodeKind :=
  [.defaultValue, .arguments, .argument, .directives, .directive, .objectField] ++ literalRules

def Pattern.isConstant : Pattern → Bool
  | empty | token _ => true
  | rule kind constant => constant && constantRules.contains kind
  | both first second => first.isConstant && second.isConstant
  | either left right => left.isConstant && right.isConstant
  | optional pattern | many pattern => pattern.isConstant

theorem production_isConstant {kind : NodeKind} (h : kind ∈ constantRules) :
    (production kind true).isConstant = true := by
  revert kind
  decide

variable {pattern : Pattern} {trees : List Tree}

/-- What is made of constants uses no variable. -/
theorem Derives.uses_of_isConstant (h : Derives pattern trees)
    (hconstant : pattern.isConstant = true) :
    ((items trees).flatMap Item.visits).filterMap Visit.use? = [] := by
  induction h with
  | empty => rfl
  | token h => rfl
  | @rule kind constant children h ih =>
    simp only [isConstant, Bool.and_eq_true, List.contains_iff_mem] at hconstant
    obtain ⟨rfl, hkind⟩ := hconstant
    have hdocument : kind ≠ .document := by
      rintro rfl
      exact absurd hkind (by decide)
    obtain ⟨first, last, item, hitem, hpart⟩ := h.exists_part hdocument
    have hreference : kind ≠ .variableRef := by
      rintro rfl
      exact absurd hkind (by decide)
    have hitems : items [node kind children] = [item] := by
      rw [Tree.items, parts_cons, hpart]
      rfl
    rw [hitems, List.flatMap_singleton, hitem.visits_eq, List.filterMap_append,
      hitem.uses_shown hreference, List.nil_append]
    split
    · rfl
    · exact ih (production_isConstant hkind)
  | left _ ih =>
    simp only [isConstant, Bool.and_eq_true] at hconstant
    exact ih hconstant.1
  | right _ ih =>
    simp only [isConstant, Bool.and_eq_true] at hconstant
    exact ih hconstant.2
  | absent => rfl
  | present _ ih => exact ih hconstant
  | done => rfl
  | both _ _ ihfirst ihsecond =>
    simp only [isConstant, Bool.and_eq_true] at hconstant
    rw [items_append, List.flatMap_append, List.filterMap_append, ihfirst hconstant.1,
      ihsecond hconstant.2, List.append_nil]
  | more _ _ ih ihmore =>
    rw [items_append, List.flatMap_append, List.filterMap_append, ih hconstant,
      ihmore hconstant, List.append_nil]

/-- A derivation of a rule says one item. -/
theorem Derives.exists_items_rule {kind : NodeKind} {constant : Bool}
    (h : Derives (.rule kind constant) trees) (hkind : kind ≠ .document) :
    ∃ item, items trees = [item] := by
  obtain ⟨item, -, hitems⟩ := h.says_items (by simpa [isInner] using hkind)
  exact ⟨item, hitems⟩

/-- The default and the directives of a variable definition are constants. -/
theorem Derives.uses_of_definition {constant : Bool} {children : List Tree}
    {definition : VariableDefinition} {range : ByteRange} {head : Token}
    (h : Derives (production .variableDefinition constant) children)
    (hitem : Item.Composes range head .variableDefinition (items children)
      (.variableDefinition definition)) :
    definition.uses = [] := by
  obtain ⟨reference, rest, rfl, hreference, h⟩ := derives_sequence_cons.1 h
  obtain ⟨colon, rest, rfl, -, h⟩ := derives_sequence_token.1 h
  obtain ⟨type, rest, rfl, htype, h⟩ := derives_sequence_cons.1 h
  have huses := h.uses_of_isConstant (by decide)
  obtain ⟨first, hfirst⟩ := hreference.exists_items_rule (by decide)
  obtain ⟨third, hthird⟩ := htype.exists_items_rule (by decide)
  obtain ⟨target, second, hitems⟩ := hitem.exists_of_variableDefinition
  have hsplit : items (reference ++ .leaf colon :: (type ++ rest)) =
      first :: .token colon :: third :: items rest := by
    rw [← List.singleton_append, items_append, items_append, items_append, hfirst, hthird]
    rfl
  rw [hsplit, List.cons.injEq, List.cons.injEq, List.cons.injEq] at hitems
  rw [← Item.uses_of_variableDefinition, ← hitems.2.2.2, huses]

end Grammar

/-! ## Accepted documents -/

namespace Tree

/-- The places of the trees lie in order wherever their leaves do, and their variable
definitions use nothing. -/
structure Orderly (trees : List Tree) : Prop where
  laid {low high : Nat} (h : Laid low high ((allLeaves trees).map Token.range)) :
    Laid low high ((items trees).flatMap Item.places)
  constant : ∀ definition, .variableDefinition definition ∈ (items trees).flatMap Item.visits →
    definition.uses = []

namespace Orderly

variable {trees more : List Tree}

theorem nil : Orderly [] where
  laid h := h
  constant _ hmem := absurd hmem List.not_mem_nil

theorem leaf (token : Token) : Orderly [.leaf token] where
  laid h := h
  constant _ hmem := absurd hmem List.not_mem_nil

theorem append (h : Orderly trees) (hmore : Orderly more) : Orderly (trees ++ more) where
  laid hlaid := by
    rw [allLeaves_append, List.map_append, ByteRange.Laid.append_iff] at hlaid
    obtain ⟨middle, hfront, hback⟩ := hlaid
    rw [items_append, List.flatMap_append, ByteRange.Laid.append_iff]
    exact ⟨middle, h.laid hfront, hmore.laid hback⟩
  constant definition hmem := by
    rw [items_append, List.flatMap_append, List.mem_append] at hmem
    exact hmem.elim (h.constant definition) (hmore.constant definition)

theorem node {kind : NodeKind} {constant : Bool} {children : List Tree}
    (hderives : Grammar.Derives (Grammar.production kind constant) children)
    (hkind : kind ≠ .document) (h : Orderly children) : Orderly [.node kind children] := by
  obtain ⟨first, last, item, hitem, hpart⟩ := hderives.exists_part hkind
  have hitems : items [.node kind children] = [item] := by
    rw [items, parts_cons, hpart]
    rfl
  have hleaves : allLeaves [.node kind children] = allLeaves children := by simp
  constructor
  · intro low high hlaid
    rw [hleaves] at hlaid
    rw [hitems, List.flatMap_singleton]
    rcases hitem.places_sublist with hsublist | hplaces
    · exact (h.laid hlaid).sublist hsublist
    · -- A used variable stands from the first to the last of its leaves.
      have hfirst := map_first_part? (.node kind children)
      have hlast := map_last_part? (.node kind children)
      rw [hpart, leaves_node] at hfirst hlast
      have hhead : ((allLeaves children).map Token.range).head? = some first.range := by
        rw [List.head?_map, ← hfirst]
        rfl
      have hgetLast : ((allLeaves children).map Token.range).getLast? = some last.range := by
        rw [List.getLast?_map, ← hlast]
        rfl
      rw [hplaces]
      exact hlaid.hull hhead hgetLast
  · intro definition hmem
    rw [hitems, List.flatMap_singleton] at hmem
    by_cases hdefinition : kind = .variableDefinition
    · subst hdefinition
      obtain ⟨own, rfl⟩ := hitem.fits
      have hown : definition = own := by simpa [Item.visits] using hmem
      rw [hown]
      exact hderives.uses_of_definition hitem
    · rw [hitem.visits_eq, if_neg hdefinition, List.mem_append] at hmem
      exact hmem.elim
        (fun hshown => absurd hshown (hitem.variableDefinition_notMem_shown hdefinition _))
        (h.constant definition)

end Orderly

end Tree

/-- Derived trees are orderly. -/
theorem Grammar.Derives.orderly {pattern : Pattern} {trees : List Tree}
    (h : Derives pattern trees) (hinner : pattern.isInner = true) :
    Tree.Orderly trees := by
  induction h with
  | empty | absent | done => exact .nil
  | token => exact .leaf _
  | rule h ih =>
    exact .node h (by simpa [Pattern.isInner] using hinner) (ih (production_isInner _ _))
  | left _ ih =>
    simp only [Pattern.isInner, Bool.and_eq_true] at hinner
    exact ih hinner.1
  | right _ ih =>
    simp only [Pattern.isInner, Bool.and_eq_true] at hinner
    exact ih hinner.2
  | present _ ih => exact ih hinner
  | both _ _ ihfirst ihsecond =>
    simp only [Pattern.isInner, Bool.and_eq_true] at hinner
    exact (ihfirst hinner.1).append (ihsecond hinner.2)
  | more _ _ ih ihmore => exact (ih hinner).append (ihmore hinner)

/-! ## Spreads and uses of a document -/

theorem Visit.map_range_spreads_sublist (visits : List Visit) :
    ((visits.filterMap spread?).map Token.range).Sublist (visits.filterMap place?) := by
  induction visits with
  | nil => exact List.Sublist.refl _
  | cons visit visits ih =>
    cases visit with
    | spread s => exact .cons_cons _ ih
    | use target => exact .cons _ ih
    | _ => exact ih

theorem Visit.map_range_uses_sublist (visits : List Visit) :
    ((visits.filterMap use?).map Variable.range).Sublist (visits.filterMap place?) := by
  induction visits with
  | nil => exact List.Sublist.refl _
  | cons visit visits ih =>
    cases visit with
    | spread s => exact .cons _ ih
    | use target => exact .cons_cons _ ih
    | _ => exact ih

namespace Executable

/-- No two spreads and no two used variables have one range, and variable definitions use
nothing. -/
structure Distinct (doc : Executable) : Prop where
  spreads : (doc.spreads.map Token.range).Nodup
  uses : (doc.uses.map Variable.range).Nodup
  constants : ∀ operation ∈ doc.operations, ∀ d ∈ operation.definedVariables, d.uses = []

theorem mem_operations {doc : Executable} {operation : Operation} :
    operation ∈ doc.operations ↔ .operation operation ∈ doc.definitions := by
  rw [operations, List.mem_filterMap]
  constructor
  · rintro ⟨definition | definition, hdefinition, hsome⟩ <;> cases hsome
    exact hdefinition
  · intro h
    exact ⟨_, h, rfl⟩

theorem mem_fragments {doc : Executable} {fragment : Fragment} :
    fragment ∈ doc.fragments ↔ .fragment fragment ∈ doc.definitions := by
  rw [fragments, List.mem_filterMap]
  constructor
  · rintro ⟨definition | definition, hdefinition, hsome⟩ <;> cases hsome
    exact hdefinition
  · intro h
    exact ⟨_, h, rfl⟩

/-- The spreads in fragments are some of all spreads. -/
theorem occurrences_sublist (doc : Executable) :
    (doc.occurrences.map (·.2)).Sublist doc.spreads := by
  obtain ⟨range, definitions⟩ := doc
  rw [occurrences, List.map_flatMap]
  simp only [List.map_map, Function.comp_def, List.map_id']
  induction definitions with
  | nil => exact List.Sublist.refl _
  | cons definition definitions ih =>
    cases definition with
    | operation o => exact ih.trans (List.sublist_append_right _ _)
    | fragment f => exact (List.Sublist.refl _).append ih

theorem Distinct.occurrences {doc : Executable} (h : doc.Distinct) :
    (doc.occurrences.map (·.2.range)).Nodup := by
  have hsublist := (occurrences_sublist doc).map Token.range
  rw [List.map_map] at hsublist
  exact h.spreads.sublist hsublist

theorem Distinct.eq_of_range {doc : Executable} (h : doc.Distinct) {first second : Variable}
    (hfirst : first ∈ doc.uses) (hsecond : second ∈ doc.uses)
    (hrange : first.range = second.range) : first = second :=
  List.inj_on_of_nodup_map h.uses hfirst hsecond hrange

end Executable

/-- The significant tokens of an accepted document derive the visits of its definitions. -/
theorem Document.exists_derivation {limits : Limits} {source : Source} {document : Document}
    (h : parse limits source = .ok document) :
    ∃ children, Grammar.Derives (Grammar.production .document false) children ∧
      significant (lex source.text) = Tree.allLeaves children ∧
      (Tree.items children).flatMap Item.visits =
        document.executable.definitions.flatMap Definition.visits := by
  obtain ⟨children, hderives, htokens, rfl⟩ := parse_trusted_eq_ok_iff.1 (parse_trusted_of_parse h)
  refine ⟨children, hderives, htokens, ?_⟩
  rw [hderives.items_document, definitions_of_derives hderives htokens, List.flatMap_map]
  rfl

/-- In an accepted document spreads and uses have places of their own. -/
theorem Document.distinct_of_parse {limits : Limits} {source : Source} {document : Document}
    (h : parse limits source = .ok document) : document.executable.Distinct := by
  obtain ⟨children, hderives, htokens, hvisits⟩ := exists_derivation h
  generalize document.executable = doc at hvisits ⊢
  have htiles := lex_tiles source.text
  obtain ⟨high, hlaid⟩ := (htiles.adjoin.spaced htiles.nonempty (Nat.le_refl 0)).laid
  rw [htokens] at hlaid
  have horderly := hderives.orderly (Grammar.production_isInner .document false)
  have hconstants := horderly.constant
  rw [hvisits] at hconstants
  have hplaces := ((horderly.laid hlaid).sublist
    (Item.filterMap_flatMap_visits_sublist (Tree.items children))).nodup
  rw [hvisits] at hplaces
  constructor
  · have hspreads : (doc.definitions.flatMap Definition.visits).filterMap Visit.spread? =
        doc.spreads := by
      rw [List.filterMap_flatMap]
      exact List.flatMap_congr fun definition _ => definition.spreads_visits
    rw [← hspreads]
    exact hplaces.sublist (Visit.map_range_spreads_sublist _)
  · have huses : (doc.definitions.flatMap Definition.visits).filterMap Visit.use? =
        doc.uses := by
      rw [List.filterMap_flatMap]
      apply List.flatMap_congr
      intro definition hdefinition
      apply Definition.uses_visits
      intro d hd
      exact hconstants d (List.mem_flatMap_of_mem hdefinition hd)
    rw [← huses]
    exact hplaces.sublist (Visit.map_range_uses_sublist _)
  · intro operation hoperation d hd
    apply hconstants d
    apply List.mem_flatMap_of_mem (Executable.mem_operations.1 hoperation)
    rw [Definition.visits, Operation.visits]
    exact .tail _ (List.mem_append_left _ (List.mem_map_of_mem hd))

end GuardedQuery
